import NbiotXY1100.LpmDeepsleep

/-! # Entering standby

`LPM_Standby_Process` and `LPM_ARM_Entry_Standby` of `lpm_func.c`, and the software sampling that
enables the AT UART again (`dirty_data_processing.c`). A polling loop reads a sequence of values, and
has no result when it does not end within the given number of turns. -/
namespace NbiotXY1100.LpmStandby
open LpmDeepsleep

/-- `lowBaud` stands for `g_current_baudrate <= 9600`. -/
structure Config where
  closeAtUart : Bool
  offDebug : Bool
  lowBaud : Bool
  deriving DecidableEq, Repr

inductive SampleResult where
  | success | allIdle | withData
  deriving DecidableEq, Repr

inductive SampleType where
  | crystal | pll
  deriving DecidableEq, Repr

/-! ### The software sampling -/

def softSampleTimerHandler (type : SampleType) (result : SampleResult) (s : Regs) : Regs :=
  let setFail (reason : FailReason) (s : Regs) : Regs :=
    match type with
    | .crystal => { s with failCrystal := reason }
    | .pll => { s with failPll := reason }
  match result with
  | .success => { s with uartEnabled := true }
  | .allIdle => setFail .failAllIdle s
  | .withData => setFail .failWithData s

/-- `soft_sample_init`. It uses the SysTick, which `RestoreIntEnable` puts back. -/
def softSampleInit (type : SampleType) (result : SampleResult) (s : Regs) : Regs :=
  let backup := s.sysTick
  let s := match type with
    | .crystal => { s with firstEnter := true, failCrystal := .notEnter, failPll := .notEnter }
    | .pll => if s.firstEnter then s else { s with failCrystal := .notEnter, failPll := .notEnter }
  let s := softSampleTimerHandler type result { s with sysTick := true }
  let s := { s with sysTick := false }
  let s := match result, type with
    | .success, .crystal => { s with failCrystal := .success }
    | .success, .pll => { s with failPll := .success }
    | _, _ => if s.failCrystal = FailReason.failWithData ∨ type = SampleType.pll then { s with uartEnabled := true } else s
  { s with sysTick := backup }

def softSampleFromStandby (cfg : Config) (type : SampleType) (result : SampleResult) (s : Regs) : Regs :=
  if cfg.lowBaud then
    match type with
    | .crystal => softSampleInit .crystal result s
    | .pll =>
      let s := if s.failCrystal = .failAllIdle ∨ s.firstEnter = false then softSampleInit .pll result s else s
      { s with firstEnter := false }
  else { s with uartEnabled := true }

/-! ### The reads -/

structure PollRead where
  rxDone : Bool
  rxd : Bool
  rxTimeout : Bool

structure GpiRead where
  bit : Bool
  rxd : Bool

/-- The reads of `LPM_Standby_Process` and `LPM_ARM_Entry_Standby`, in their order. `rxd` is the level
of the pin. The results of the two samplings are those of the timer handler. -/
structure StandbyReads where
  allowed : Bool
  timeEnough : Bool
  dspEnter : DspState
  ticksEnough : Bool
  specialId : Bool
  poll : ℕ → PollRead
  dsp1 : DspState × DspState
  rxd1 : Bool
  gpiSet : ℕ → GpiRead
  gpiCleared : ℕ → GpiRead
  dspMask : DspState
  dsp2 : DspState × DspState
  rxd2 : Bool
  rxd3 : Bool
  sampleCrystal : SampleResult
  samplePll : SampleResult
  dspExit : DspState

def standbyOrNotLoaded (dsp : DspState × DspState) : Bool :=
  decide (dsp.1 = .standbyReady) || decide (dsp.2 = .notLoaded)

/-- The loop that waits until no more data is received; `true` is `goto standby_exit`. -/
def pollUart (reads : ℕ → PollRead) : ℕ → ℕ → Option Bool
  | 0, _ => none
  | fuel + 1, i =>
    if (reads i).rxDone ∨ (reads i).rxd = false then some true
    else if (reads i).rxTimeout then some false
    else pollUart reads fuel (i + 1)

/-- The loops that wait until the bit of GPI0 is `wanted`; `true` is `goto uart_sample_pll`. -/
def waitGpi (wanted : Bool) (reads : ℕ → GpiRead) : ℕ → ℕ → Option Bool
  | 0, _ => none
  | fuel + 1, i =>
    if (reads i).bit = wanted then some false
    else if (reads i).rxd = false then some true
    else waitGpi wanted reads fuel (i + 1)

/-! ### The standby -/

/-- The value for 0xA0110002. -/
def wakeupMaskOf (dsp : DspState) : UInt8 := if dsp = .notLoaded then 0x02 else 0x03

def standbyExit (cfg : Config) (r : StandbyReads) (atUartCspTimeout : UInt32) (s : Regs) : Regs :=
  { s with
    wakeupMask := wakeupMaskOf r.dspExit
    lpmState := .active
    rxTimeout := if cfg.closeAtUart then s.rxTimeout else atUartCspTimeout }

def uartSamplePll (cfg : Config) (r : StandbyReads) (atUartCspTimeout : UInt32) (s : Regs) : Regs :=
  standbyExit cfg r atUartCspTimeout
    (if cfg.closeAtUart then s else softSampleFromStandby cfg .pll r.samplePll s)

def atUartGpioRecovery (s : Regs) : Regs := { s with rxdPin := .csp2Rxd }

def standbyCalOn (cfg : Config) (r : StandbyReads) (atUartCspTimeout : UInt32) (xipflag : Bool) (s : Regs) : Regs :=
  let s := if cfg.closeAtUart then s else
    softSampleFromStandby cfg .crystal r.sampleCrystal (atUartGpioRecovery s)
  let s := if xipflag then { s with xipMode := true } else s
  uartSamplePll cfg r atUartCspTimeout { s with standbyEnterXip := 0 }

def standbySleep (cfg : Config) (r : StandbyReads) (atUartCspTimeout : UInt32) (s : Regs) : Regs :=
  let s := { s with wakeupMask := wakeupMaskOf r.dspMask }
  if standbyOrNotLoaded r.dsp2 then
    let s := { s with standbyEnterXip := 0xA5, xipMode := false }
    if cfg.closeAtUart = false ∧ r.rxd2 = false then standbyCalOn cfg r atUartCspTimeout true s
    -- without data on the pin the core waits for an interrupt here
    else if cfg.closeAtUart = false ∧ r.rxd3 = false then standbyCalOn cfg r atUartCspTimeout true s
    else standbyCalOn cfg r atUartCspTimeout true s
  else standbyCalOn cfg r atUartCspTimeout false s

def mapRxdToGpi (s : Regs) : Regs := { s with wakeupMask := 0, uartEnabled := false, rxdPin := .gpi0 }

def standbyMap (cfg : Config) (fuel : ℕ) (r : StandbyReads) (atUartCspTimeout : UInt32) (s : Regs) : Option Regs :=
  if standbyOrNotLoaded r.dsp1 = false then some (standbyExit cfg r atUartCspTimeout s)
  else if cfg.closeAtUart then some (standbySleep cfg r atUartCspTimeout s)
  else if r.rxd1 = false then some (standbyExit cfg r atUartCspTimeout s)
  else
    let s := mapRxdToGpi s
    (waitGpi true r.gpiSet fuel 0).bind fun data =>
      if data then some (uartSamplePll cfg r atUartCspTimeout (atUartGpioRecovery s))
      else (waitGpi false r.gpiCleared fuel 0).map fun data =>
        if data then uartSamplePll cfg r atUartCspTimeout (atUartGpioRecovery s)
        else standbySleep cfg r atUartCspTimeout s

/-- `LPM_ARM_Entry_Standby`; `none` when an assertion fails or a loop does not end. -/
def lpmArmEntryStandby (cfg : Config) (fuel : ℕ) (r : StandbyReads) (s : Regs) : Option Regs :=
  let atUartCspTimeout := s.rxTimeout
  let s := { s with lpmState := .standby }
  if cfg.closeAtUart then standbyMap cfg fuel r atUartCspTimeout s
  else if r.specialId ∧ cfg.offDebug = false then none
  else
    let s := { s with rxTimeout := (s.rxTimeout &&& 0xffff0000) ||| 0x02 }
    (pollUart r.poll fuel 0).bind fun data =>
      if data then some (standbyExit cfg r atUartCspTimeout s) else standbyMap cfg fuel r atUartCspTimeout s

def entersStandby (r : StandbyReads) : Bool :=
  r.allowed && r.timeEnough && decide (r.dspEnter = .standbyReady) && r.ticksEnough

def lpmStandbyProcess (cfg : Config) (fuel : ℕ) (r : StandbyReads) (s : Regs) : Option Regs :=
  let s := lpmEnterCritical s
  if r.allowed = false then some (lpmExitCritical s)
  else if r.timeEnough ∧ r.dspEnter = .standbyReady then
    if r.ticksEnough = false then some (lpmExitCritical s)
    else (lpmArmEntryStandby cfg fuel r { s with sysTick := false }).map fun s =>
      lpmExitCritical { s with sysTick := true }
  else some (lpmExitCritical s)

end NbiotXY1100.LpmStandby
