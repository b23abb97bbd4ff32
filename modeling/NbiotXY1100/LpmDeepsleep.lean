import Mathlib.Data.Nat.Basic

/-! # Entering deep sleep

`LPM_Deepsleep_Process` and `save_nv_in_deepsleep` of `lpm_func.c`, with the registers that the
low-power functions touch. Every read of the hardware is an input of its own. What
`nv_write_to_flash` does to the applications is a parameter. -/
namespace NbiotXY1100.LpmDeepsleep

inductive DspState where
  | notLoaded | alive | wfi | standbyReady | deepsleepReady
  deriving DecidableEq, Repr

inductive LpmState where
  | active | standby | deepsleep
  deriving DecidableEq, Repr

inductive PinMap where
  | csp2Rxd | gpi0
  deriving DecidableEq, Repr

inductive FailReason where
  | notEnter | success | failAllIdle | failWithData
  deriving DecidableEq, Repr

/-- The registers, and of `gpi_utc` the fields that decide about the UART. `sysTick` is the enable
bit, `wakeupMask` the byte at 0xA0110002, `uartEnabled` the bit `CSP_MODE1_CSP_EN`, `rxTimeout` the
register `CSP_AYSNC_PARAM_REG`, and `firstEnter` is `SAMPLE_FIRST_ENTER_FLAG`. -/
structure Regs where
  criticalNesting : ℕ
  sysTick : Bool
  wakeupMask : UInt8
  xipMode : Bool
  standbyEnterXip : UInt32
  lpmState : LpmState
  uartEnabled : Bool
  rxdPin : PinMap
  rxTimeout : UInt32
  failCrystal : FailReason
  failPll : FailReason
  firstEnter : Bool
  deriving DecidableEq, Repr

def lpmEnterCritical (s : Regs) : Regs := { s with criticalNesting := s.criticalNesting + 1 }

def lpmExitCritical (s : Regs) : Regs := { s with criticalNesting := s.criticalNesting - 1 }

def deepsleepOrNotLoaded (dsp : DspState × DspState) : Bool :=
  decide (dsp.1 = .deepsleepReady) || decide (dsp.2 = .notLoaded)

/-- The reads of `LPM_Deepsleep_Process`, in their order. `allowed` is the result of
`LPM_Deepsleep_Allow_Critical`, and `wakes` tells whether the system comes back from the deep sleep
without a start. -/
structure DeepsleepReads where
  allowed : Bool
  dspTime : DspState
  utcCnt : ℕ
  dspEnter : DspState × DspState
  dspSave1 : DspState × DspState
  dspSave2 : DspState × DspState
  dspSave3 : DspState × DspState
  utcPending : Bool
  wakes : Bool

def apDeepsleepMin : ℕ := 100

def enters (deepsleepTime : ℕ) (r : DeepsleepReads) : Bool :=
  let timeEnough := decide (r.dspTime = .deepsleepReady) && decide (r.utcCnt / 32 + apDeepsleepMin < deepsleepTime)
  decide (r.dspEnter.1 = .notLoaded) || (timeEnough && decide (r.dspEnter.2 = .deepsleepReady))

variable {α : Type*} (nvWriteToFlash : α → α)

/-- `save_nv_in_deepsleep`, `none` when its assertion fails. -/
def saveNvInDeepsleep (r : DeepsleepReads) (s : Regs × α) : Option (Bool × Regs × α) :=
  let regs := lpmEnterCritical s.1
  if deepsleepOrNotLoaded r.dspSave1 then
    let regs := { regs with wakeupMask := regs.wakeupMask &&& 0x02 }
    if deepsleepOrNotLoaded r.dspSave2 then
      let app := nvWriteToFlash s.2
      if deepsleepOrNotLoaded r.dspSave3 then
        some (true, lpmExitCritical { regs with wakeupMask := 0x03 }, app)
      else none
    else some (false, lpmExitCritical regs, s.2)
  else some (false, lpmExitCritical regs, s.2)

/-- How `LPM_Deepsleep_Process` returns: without having tried, with the sleep given up after
`save_nv_in_deepsleep`, or from the deep sleep. -/
inductive Exit where
  | untried | givenUp | woken
  deriving DecidableEq, Repr

def lpmArmEntryDeepSleep (wakes : Bool) (s : Regs) : Option Regs :=
  if wakes then some { s with lpmState := .active } else none

/-- `LPM_Deepsleep_Process`; `none` when it does not return. -/
def lpmDeepsleepProcess (offtime deepsleepTime : ℕ) (r : DeepsleepReads) (s : Regs × α) :
    Option (Exit × Regs × α) :=
  let regs := lpmEnterCritical s.1
  if r.allowed = false then some (.untried, lpmExitCritical regs, s.2)
  else if enters deepsleepTime r = false then some (.untried, lpmExitCritical { regs with sysTick := true }, s.2)
  else
    match saveNvInDeepsleep nvWriteToFlash r ({ regs with sysTick := false }, s.2) with
    | none => none
    | some (saved, regs, app) =>
      if saved = false ∨ r.utcPending then some (.givenUp, lpmExitCritical { regs with sysTick := true }, app)
      -- the power-off mode ends in a loop
      else if offtime = 1 then none
      else (lpmArmEntryDeepSleep r.wakes regs).map fun regs =>
        (.woken, lpmExitCritical { regs with sysTick := true }, app)

/-- What one call does: nothing but for the nesting, or a save that is begun, or a complete one. -/
theorem saveNvInDeepsleep_cases {r : DeepsleepReads} {s : Regs × α} {saved : Bool} {t : Regs × α}
    (h : saveNvInDeepsleep nvWriteToFlash r s = some (saved, t)) :
    (saved = false ∧ deepsleepOrNotLoaded r.dspSave1 = false ∧ t = (s.1, s.2)) ∨
    (saved = false ∧ deepsleepOrNotLoaded r.dspSave1 = true ∧ deepsleepOrNotLoaded r.dspSave2 = false ∧
      t = ({ s.1 with wakeupMask := s.1.wakeupMask &&& 0x02 }, s.2)) ∨
    (saved = true ∧ deepsleepOrNotLoaded r.dspSave1 = true ∧ deepsleepOrNotLoaded r.dspSave2 = true ∧
      deepsleepOrNotLoaded r.dspSave3 = true ∧ t = ({ s.1 with wakeupMask := 0x03 }, nvWriteToFlash s.2)) := by
  obtain ⟨regs, app⟩ := s
  simp only [saveNvInDeepsleep] at h
  cases hone : deepsleepOrNotLoaded r.dspSave1 with
  | false =>
    simp only [hone, Bool.false_eq_true, if_false, Option.some.injEq, Prod.mk.injEq] at h
    obtain ⟨rfl, rfl⟩ := h
    exact .inl ⟨rfl, rfl, rfl⟩
  | true =>
    rw [hone, if_pos rfl] at h
    cases htwo : deepsleepOrNotLoaded r.dspSave2 with
    | false =>
      simp only [htwo, Bool.false_eq_true, if_false, Option.some.injEq, Prod.mk.injEq] at h
      obtain ⟨rfl, rfl⟩ := h
      exact .inr (.inl ⟨rfl, rfl, rfl, rfl⟩)
    | true =>
      rw [htwo, if_pos rfl] at h
      cases hthree : deepsleepOrNotLoaded r.dspSave3 with
      | false => simp [hthree] at h
      | true =>
        simp only [hthree, if_true, Option.some.injEq, Prod.mk.injEq] at h
        obtain ⟨rfl, rfl⟩ := h
        exact .inr (.inr ⟨rfl, rfl, rfl, rfl, rfl⟩)

inductive Returns (offtime deepsleepTime : ℕ) (r : DeepsleepReads) (s : Regs × α) : Exit → Regs × α → Prop
  | refused : r.allowed = false → Returns offtime deepsleepTime r s .untried s
  | passed : r.allowed = true → enters deepsleepTime r = false →
    Returns offtime deepsleepTime r s .untried ({ s.1 with sysTick := true }, s.2)
  | unsaved : r.allowed = true → enters deepsleepTime r = true → deepsleepOrNotLoaded r.dspSave1 = false →
    Returns offtime deepsleepTime r s .givenUp ({ s.1 with sysTick := true }, s.2)
  | masked : r.allowed = true → enters deepsleepTime r = true → deepsleepOrNotLoaded r.dspSave1 = true →
    deepsleepOrNotLoaded r.dspSave2 = false → Returns offtime deepsleepTime r s .givenUp
      ({ s.1 with sysTick := true, wakeupMask := s.1.wakeupMask &&& 0x02 }, s.2)
  | pending : r.allowed = true → enters deepsleepTime r = true → deepsleepOrNotLoaded r.dspSave1 = true →
    deepsleepOrNotLoaded r.dspSave2 = true → deepsleepOrNotLoaded r.dspSave3 = true → r.utcPending = true →
    Returns offtime deepsleepTime r s .givenUp ({ s.1 with sysTick := true, wakeupMask := 0x03 }, nvWriteToFlash s.2)
  | woken : r.allowed = true → enters deepsleepTime r = true → deepsleepOrNotLoaded r.dspSave1 = true →
    deepsleepOrNotLoaded r.dspSave2 = true → deepsleepOrNotLoaded r.dspSave3 = true → r.utcPending = false →
    Returns offtime deepsleepTime r s .woken
      ({ s.1 with sysTick := true, wakeupMask := 0x03, lpmState := .active }, nvWriteToFlash s.2)

theorem lpmDeepsleepProcess_returns {offtime deepsleepTime : ℕ} {r : DeepsleepReads} {s : Regs × α} {exit : Exit}
    {t : Regs × α} (h : lpmDeepsleepProcess nvWriteToFlash offtime deepsleepTime r s = some (exit, t)) :
    Returns nvWriteToFlash offtime deepsleepTime r s exit t := by
  obtain ⟨regs, app⟩ := s
  simp only [lpmDeepsleepProcess] at h
  split at h
  next hallowed =>
    obtain ⟨rfl, rfl⟩ := by simpa only [Option.some.injEq, Prod.mk.injEq] using h
    exact .refused hallowed
  next hallowed =>
    have hallowed : r.allowed = true := by simpa using hallowed
    split at h
    next henters =>
      obtain ⟨rfl, rfl⟩ := by simpa only [Option.some.injEq, Prod.mk.injEq] using h
      exact .passed hallowed henters
    next henters =>
      have henters : enters deepsleepTime r = true := by simpa using henters
      split at h
      · cases h
      next saved u app' hsave =>
        split at h
        next hgiven =>
          obtain ⟨rfl, rfl⟩ := by simpa only [Option.some.injEq, Prod.mk.injEq] using h
          obtain ⟨-, hone, hu⟩ | ⟨-, hone, htwo, hu⟩ | ⟨rfl, hone, htwo, hthree, hu⟩ :=
            saveNvInDeepsleep_cases nvWriteToFlash hsave
          · obtain ⟨rfl, rfl⟩ := Prod.mk.inj hu
            exact .unsaved hallowed henters hone
          · obtain ⟨rfl, rfl⟩ := Prod.mk.inj hu
            exact .masked hallowed henters hone htwo
          · obtain ⟨rfl, rfl⟩ := Prod.mk.inj hu
            exact .pending hallowed henters hone htwo hthree (hgiven.resolve_left (by decide))
        next hgoes =>
          split at h
          · cases h
          · rw [not_or, Bool.not_eq_false, Bool.not_eq_true] at hgoes
            obtain ⟨v, hentry, heq⟩ := Option.map_eq_some_iff.mp h
            obtain ⟨rfl, rfl⟩ := Prod.mk.inj heq
            rw [lpmArmEntryDeepSleep] at hentry
            split at hentry
            · obtain rfl := Option.some.inj hentry
              obtain ⟨hsaved, -⟩ | ⟨hsaved, -⟩ | ⟨-, hone, htwo, hthree, hu⟩ :=
                saveNvInDeepsleep_cases nvWriteToFlash hsave
              · exact absurd (hsaved.symm.trans hgoes.1) (by decide)
              · exact absurd (hsaved.symm.trans hgoes.1) (by decide)
              · obtain ⟨rfl, rfl⟩ := Prod.mk.inj hu
                exact .woken hallowed henters hone htwo hthree hgoes.2
            · cases hentry

/-! ### Registers and answers of the DSP for examples -/

def exampleRegs : Regs where
  criticalNesting := 0
  sysTick := true
  wakeupMask := 0x03
  xipMode := true
  standbyEnterXip := 0
  lpmState := .active
  uartEnabled := true
  rxdPin := .csp2Rxd
  rxTimeout := 0x00ff0010
  failCrystal := .notEnter
  failPll := .notEnter
  firstEnter := false

/-- The DSP sleeps deeply; the first two checks find it as given. -/
def exampleReads (dspSave1 dspSave2 : DspState) : DeepsleepReads where
  allowed := true
  dspTime := .deepsleepReady
  utcCnt := 0
  dspEnter := (.deepsleepReady, .deepsleepReady)
  dspSave1 := (dspSave1, dspSave1)
  dspSave2 := (dspSave2, dspSave2)
  dspSave3 := (.deepsleepReady, .deepsleepReady)
  utcPending := true
  wakes := false

end NbiotXY1100.LpmDeepsleep
