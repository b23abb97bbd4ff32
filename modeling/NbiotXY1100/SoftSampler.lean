import Mathlib.Logic.Function.Basic
import Mathlib.Data.Nat.Notation
import Mathlib.Algebra.GroupWithZero.Nat

/-! # The soft UART sampler

`soft_sample_init` and `soft_sample_timer_handler` of `dirty_data_processing.c`: after a wake-up
the RXD pin is sampled eight times a bit in a timer interrupt, until a known character has been
received. A bit is stored through the bit-band alias of `rcv_dat`, whose next bits are those of
the next fields of `gpi_utc`. -/
namespace NbiotXY1100.SoftSampler

def oneBitSampleNum : ℕ := 8

def cspDataBits : ℕ := 10

def maxSampleNum : ℕ := 3 * cspDataBits * oneBitSampleNum

inductive SampleType where
  | crystal | pll
  deriving DecidableEq, Repr

/-- `gpi_utc`. From `rcvDat` on the fields are in the order of their addresses; the last two are the
registers that `backupSysDiv` and `backupCspMode` are for. -/
structure Sampler where
  specialId : BitVec 8
  bitNumCnt : BitVec 8
  startFlag : Bool
  endFlag : Bool
  lastLevel : Bool
  reason : SampleType
  utcSuc : Bool
  firstEnter : Bool
  wakeupRea : Fin 4
  failRea : SampleType → BitVec 8
  rcvDat : BitVec 32
  sampleCnt : BitVec 16
  startCnt : BitVec 16
  dataCnt : BitVec 8
  backupSpecialId : BitVec 8
  backupSysDiv : BitVec 8
  reserved : BitVec 8
  backupCspMode : BitVec 32
  enterCnt : Fin 4 → BitVec 16
  successCnt : Fin 4 → BitVec 16
  sysDiv : BitVec 8
  cspMode : BitVec 32

/-- What an interrupt finds on the pin: its level, and whether it becomes high again while the
handler waits for a stop bit. -/
structure Interrupt where
  level : Bool
  stopBit : Bool
  deriving DecidableEq, Repr

/-! ### The bit-band alias -/

def setBit {w : ℕ} (x : BitVec w) (i : ℕ) (b : Bool) : BitVec w :=
  if b then x ||| BitVec.twoPow w i else x &&& ~~~BitVec.twoPow w i

/-- A bit of an array of four counters. -/
def setCountBit (cnt : Fin 4 → BitVec 16) (i : ℕ) (b : Bool) : Fin 4 → BitVec 16 :=
  Function.update cnt (Fin.ofNat 4 (i / 16)) (setBit (cnt (Fin.ofNat 4 (i / 16))) (i % 16) b)

/-- The write of `MEM_BIT_ADDR(&gpi_utc.rcv_dat, i)`. -/
def writeBit (s : Sampler) (i : ℕ) (b : Bool) : Sampler :=
  if i < 32 then { s with rcvDat := setBit s.rcvDat i b }
  else if i < 48 then { s with sampleCnt := setBit s.sampleCnt (i - 32) b }
  else if i < 64 then { s with startCnt := setBit s.startCnt (i - 48) b }
  else if i < 72 then { s with dataCnt := setBit s.dataCnt (i - 64) b }
  else if i < 80 then { s with backupSpecialId := setBit s.backupSpecialId (i - 72) b }
  else if i < 88 then { s with backupSysDiv := setBit s.backupSysDiv (i - 80) b }
  else if i < 96 then { s with reserved := setBit s.reserved (i - 88) b }
  else if i < 128 then { s with backupCspMode := setBit s.backupCspMode (i - 96) b }
  else if i < 192 then { s with enterCnt := setCountBit s.enterCnt (i - 128) b }
  else { s with successCnt := setCountBit s.successCnt (i - 192) b }

/-- The read of `MEM_BIT_ADDR(&gpi_utc.rcv_dat, i)`. -/
def readBit (s : Sampler) (i : ℕ) : Bool :=
  if i < 32 then s.rcvDat.getLsbD i
  else if i < 48 then s.sampleCnt.getLsbD (i - 32)
  else if i < 64 then s.startCnt.getLsbD (i - 48)
  else if i < 72 then s.dataCnt.getLsbD (i - 64)
  else if i < 80 then s.backupSpecialId.getLsbD (i - 72)
  else if i < 88 then s.backupSysDiv.getLsbD (i - 80)
  else if i < 96 then s.reserved.getLsbD (i - 88)
  else if i < 128 then s.backupCspMode.getLsbD (i - 96)
  else if i < 192 then (s.enterCnt (Fin.ofNat 4 ((i - 128) / 16))).getLsbD (i % 16)
  else (s.successCnt (Fin.ofNat 4 ((i - 192) / 16))).getLsbD (i % 16)

/-! ### The interrupt -/

def sampleFailAllIdle : BitVec 8 := 2

def sampleFailWithData : BitVec 8 := 3

/-- Every interrupt is counted, with invalid samples included. -/
def countInterrupt (s : Sampler) : Sampler := { s with sampleCnt := s.sampleCnt + 1 }

/-- The sampling cannot continue forever. -/
def checkEnd (s : Sampler) : Sampler :=
  let s := if cspDataBits * oneBitSampleNum < s.sampleCnt.toNat ∧ s.startCnt = 0 then
      { s with endFlag := true, failRea := Function.update s.failRea s.reason sampleFailAllIdle }
    else s
  if maxSampleNum < s.startCnt.toNat then
    { s with endFlag := true, failRea := Function.update s.failRea s.reason sampleFailWithData }
  else s

/-- The idle bit is saved first. -/
def waitFallingEdge (level : Bool) (s : Sampler) : Sampler :=
  if level = true ∧ s.startFlag = false then { s with startFlag := true, rcvDat := 1, bitNumCnt := 1 } else s

/-- Every edge of the level synchronises `dataCnt`. -/
def countSample (level : Bool) (s : Sampler) : Sampler :=
  if s.startCnt ≠ 0 ∨ level = false then
    { s with
      startCnt := s.startCnt + 1
      dataCnt := (if level = s.lastLevel then s.dataCnt else 0) + 1
      lastLevel := level }
  else s

/-- The interrupt up to the bit-band write; the second component says whether a bit is written. -/
def sample (level : Bool) (s : Sampler) : Sampler × Bool :=
  let s := checkEnd (countInterrupt s)
  if s.endFlag then (s, false)
  else
    let s := waitFallingEdge level s
    if s.startFlag then
      let s := countSample level s
      (s, decide (s.dataCnt.toNat % oneBitSampleNum = oneBitSampleNum / 2))
    else (s, false)

def storeBit (level : Bool) (s : Sampler) : Sampler :=
  let s := writeBit s s.bitNumCnt.toNat level
  { s with bitNumCnt := s.bitNumCnt + 1 }

def specialChar (s : Sampler) : BitVec 8 := (s.rcvDat >>> (s.bitNumCnt.toNat - 8)).setWidth 8

/-- The loop over the table `p_AT_Req_third_char` from index `i` on. -/
def searchChar (c : BitVec 8) : List (BitVec 8) → ℕ → BitVec 8 → BitVec 8
  | [], _, id => id
  | t :: table, i, _ => if c = t then BitVec.ofNat 8 (i + 1) else searchChar c table (i + 1) 0

def detectChar (table : List (BitVec 8)) (s : Sampler) : Sampler :=
  if readBit s (s.bitNumCnt.toNat - 10) = true ∧ readBit s (s.bitNumCnt.toNat - 9) = false then
    { s with specialId := searchChar (specialChar s) table 0 s.specialId }
  else s

/-- A known character has been received. The wait for the stop bit has no limit. -/
def endSample (stopBit : Bool) (s : Sampler) : Option Sampler :=
  if stopBit then
    some { s with
      sysDiv := s.backupSysDiv
      cspMode := s.backupCspMode
      endFlag := true
      successCnt := Function.update s.successCnt s.wakeupRea (s.successCnt s.wakeupRea + 1)
      utcSuc := s.utcSuc || s.wakeupRea == 2 }
  else none

/-- What follows a stored bit. -/
def examine (table : List (BitVec 8)) (stopBit : Bool) (s : Sampler) : Option Sampler :=
  if 10 ≤ s.bitNumCnt.toNat then
    let s := detectChar table s
    if s.specialId ≠ 0 then endSample stopBit s else some s
  else some s

/-- There is no result when the handler does not return. -/
def softSampleTimerHandler (table : List (BitVec 8)) (irq : Interrupt) (s : Sampler) : Option Sampler :=
  let (s, valid) := sample irq.level s
  if valid then examine table irq.stopBit (storeBit irq.level s) else some s

def cspEn : BitVec 32 := 1 <<< 5

/-- `soft_sample_init` up to the interrupts. `keepDiv` stands for `work_mode == 2`. -/
def softSampleInit (type : SampleType) (keepDiv : Bool) (s : Sampler) : Sampler :=
  let s := { s with
    backupSysDiv := if keepDiv then s.sysDiv else s.sysDiv &&& 0xFE
    backupCspMode := s.cspMode ||| cspEn
    lastLevel := true
    specialId := 0
    bitNumCnt := 0
    startFlag := false
    endFlag := false
    rcvDat := 0
    sampleCnt := 0
    startCnt := 0
    dataCnt := 0
    enterCnt := Function.update s.enterCnt s.wakeupRea (s.enterCnt s.wakeupRea + 1)
    reason := type }
  let s := match type with
    | .crystal => { s with sysDiv := 1, firstEnter := true, failRea := fun _ => 0 }
    | .pll => s
  if s.firstEnter = false then { s with failRea := fun _ => 0 } else s

/-- The state before interrupt `m`, as long as the interrupts before it return. -/
def stateAt (table : List (BitVec 8)) (irqs : ℕ → Interrupt) (s : Sampler) : ℕ → Option Sampler
  | 0 => some s
  | m + 1 => (stateAt table irqs s m).bind (softSampleTimerHandler table (irqs m))

/-! ### Inside the receive word -/

/-- The bit is one of `rcv_dat`, and the write changes nothing else. -/
def InWord (level : Bool) (s : Sampler) : Prop :=
  s.bitNumCnt.toNat < 32 ∧
    { writeBit s s.bitNumCnt.toNat level with rcvDat := s.rcvDat } = s

def endBound : ℕ := cspDataBits * oneBitSampleNum + maxSampleNum + 2

/-- Every bit is written inside the word, and the sampling ends in time. -/
def StaysInside (table : List (BitVec 8)) (irqs : ℕ → Interrupt) (s : Sampler) : Prop :=
  (∀ m t, stateAt table irqs s m = some t → (sample (irqs m).level t).2 = true →
    InWord (irqs m).level (sample (irqs m).level t).1) ∧
  ∃ m ≤ endBound, ∃ t, stateAt table irqs s m = some t ∧ t.endFlag = true

theorem inWord_iff (level : Bool) (s : Sampler) : InWord level s ↔ s.bitNumCnt.toNat < 32 := by
  constructor
  · exact And.left
  · intro h
    refine ⟨h, ?_⟩
    simp [writeBit, h]

end NbiotXY1100.SoftSampler
