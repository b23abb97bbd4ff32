import NbiotXY1100.StepRuns
import Mathlib.Data.Nat.Notation
import Mathlib.Tactic.Ring
import Mathlib.Tactic.Linarith

/-! # The ticks of a sleep

`lpm_add_ticks` of `lpm_func.c` makes whole ticks of the clock counts of a sleep and keeps the rest in
microseconds. Each sleep loses less than a microsecond. -/
namespace NbiotXY1100.TickCompensation
open StepRuns

/-- `g_tick_us`, and the total that was passed to `lpm_osTickHandlerLoop`. -/
structure TickCount where
  gTickUs : UInt64
  passed : ℕ
  deriving DecidableEq, Repr

def lpmOsTickHandlerLoop (uwElapseTicks : UInt32) (s : TickCount) : TickCount :=
  { s with passed := s.passed + uwElapseTicks.toNat }

/-- `lpm_add_ticks`; `g32kToHclk` and the clock are constant, `pending` is `s_systick_pending_in_lpmode`. -/
def lpmAddTicks (g32kToHclk uwCyclesPerTick : UInt32) (pending : Bool) (utcCntSleep : UInt64) (s : TickCount) : TickCount :=
  let ticksSleep := utcCntSleep * g32kToHclk.toUInt64 / uwCyclesPerTick.toUInt64
  let ticksSleep := if pending then ticksSleep + 1 else ticksSleep
  let s := { s with gTickUs := s.gTickUs +
    utcCntSleep * g32kToHclk.toUInt64 % uwCyclesPerTick.toUInt64 * 1000 / uwCyclesPerTick.toUInt64 }
  let ultickleft := (s.gTickUs / 1000).toUInt32
  if ticksSleep ≠ 0 ∨ ultickleft ≠ 0 then
    let s := lpmOsTickHandlerLoop (ticksSleep + ultickleft.toUInt64).toUInt32 s
    if ultickleft ≠ 0 then { s with gTickUs := s.gTickUs - (ultickleft * 1000).toUInt64 } else s
  else s

/-- A run of sleeps without a pending tick. -/
def sleeps (g32kToHclk uwCyclesPerTick : UInt32) (cs : List UInt64) (s : TickCount) : TickCount :=
  cs.foldl (fun s c => lpmAddTicks g32kToHclk uwCyclesPerTick false c s) s

/-- The ticks of a sleep, with the one that its microseconds may complete, fit thirty-two bits. -/
def Fits (g32kToHclk uwCyclesPerTick : UInt32) (c : UInt64) (s : TickCount) : Prop :=
  let cycles := c.toNat * g32kToHclk.toNat
  cycles / uwCyclesPerTick.toNat +
    (s.gTickUs.toNat + cycles % uwCyclesPerTick.toNat * 1000 / uwCyclesPerTick.toNat) / 1000 < 2 ^ 32

instance (g32kToHclk uwCyclesPerTick : UInt32) (c : UInt64) (s : TickCount) : Decidable (Fits g32kToHclk uwCyclesPerTick c s) :=
  inferInstanceAs (Decidable (_ < _))

/-- The ticks and microseconds that were counted differ from those of the clock by less than a
microsecond for each sleep. -/
def NoDrift (g32kToHclk uwCyclesPerTick : UInt32) (cs : List UInt64) (s : TickCount) : Prop :=
  let clock := 1000 * g32kToHclk.toNat * (cs.map UInt64.toNat).sum
  let counted := 1000 * s.passed + s.gTickUs.toNat
  uwCyclesPerTick.toNat * counted ≤ clock ∧ clock < uwCyclesPerTick.toNat * (counted + cs.length)

section
variable {g32kToHclk uwCyclesPerTick : UInt32} {c : UInt64} {s : TickCount}

theorem rest_lt (hC : 0 < uwCyclesPerTick) (n : ℕ) :
    n % uwCyclesPerTick.toNat * 1000 / uwCyclesPerTick.toNat < 1000 := by
  have hpos : 0 < uwCyclesPerTick.toNat := UInt32.lt_iff_toNat_lt.mp hC
  apply Nat.div_lt_of_lt_mul
  exact (Nat.mul_lt_mul_right (by decide)).mpr (Nat.mod_lt n hpos)

/-- The 64-bit product of a sleep does not overflow. -/
theorem cycles_lt (hC : 0 < uwCyclesPerTick) (hfits : Fits g32kToHclk uwCyclesPerTick c s) :
    c.toNat * g32kToHclk.toNat < 2 ^ 64 := by
  have hpos : 0 < uwCyclesPerTick.toNat := UInt32.lt_iff_toNat_lt.mp hC
  have hticks : c.toNat * g32kToHclk.toNat / uwCyclesPerTick.toNat < 2 ^ 32 := Nat.lt_of_le_of_lt (Nat.le_add_right _ _) hfits
  have hcycles := (Nat.div_lt_iff_lt_mul hpos).mp hticks
  have hclock : uwCyclesPerTick.toNat < 2 ^ 32 := uwCyclesPerTick.toNat_lt
  calc c.toNat * g32kToHclk.toNat < 2 ^ 32 * uwCyclesPerTick.toNat := hcycles
    _ ≤ 2 ^ 32 * 2 ^ 32 := Nat.mul_le_mul_left _ (Nat.le_of_lt hclock)
    _ = 2 ^ 64 := by norm_num

/-- One sleep in natural numbers. -/
theorem lpmAddTicks_eq (hC : 0 < uwCyclesPerTick) (hus : s.gTickUs.toNat < 1000) (hfits : Fits g32kToHclk uwCyclesPerTick c s) :
    let cycles := c.toNat * g32kToHclk.toNat
    let us := s.gTickUs.toNat + cycles % uwCyclesPerTick.toNat * 1000 / uwCyclesPerTick.toNat
    (lpmAddTicks g32kToHclk uwCyclesPerTick false c s).gTickUs.toNat = us % 1000 ∧
      (lpmAddTicks g32kToHclk uwCyclesPerTick false c s).passed = s.passed + cycles / uwCyclesPerTick.toNat + us / 1000 := by
  intro cycles us
  have hpos : 0 < uwCyclesPerTick.toNat := UInt32.lt_iff_toNat_lt.mp hC
  have hclock : uwCyclesPerTick.toNat < 2 ^ 32 := uwCyclesPerTick.toNat_lt
  have hrest := rest_lt hC cycles
  have hsum : cycles / uwCyclesPerTick.toNat + us / 1000 < 2 ^ 32 := hfits
  have hcycles : (c * g32kToHclk.toUInt64).toNat = cycles := by
    rw [UInt64.toNat_mul, UInt32.toNat_toUInt64, Nat.mod_eq_of_lt (cycles_lt hC hfits)]
  have hticks : (c * g32kToHclk.toUInt64 / uwCyclesPerTick.toUInt64).toNat = cycles / uwCyclesPerTick.toNat := by
    rw [UInt64.toNat_div, hcycles, UInt32.toNat_toUInt64]
  have hmod : cycles % uwCyclesPerTick.toNat < 2 ^ 32 := Nat.lt_trans (Nat.mod_lt cycles hpos) hclock
  have hpart : (c * g32kToHclk.toUInt64 % uwCyclesPerTick.toUInt64 * 1000 / uwCyclesPerTick.toUInt64).toNat =
      cycles % uwCyclesPerTick.toNat * 1000 / uwCyclesPerTick.toNat := by
    rw [UInt64.toNat_div, UInt64.toNat_mul, UInt64.toNat_mod, hcycles, UInt32.toNat_toUInt64]
    change cycles % uwCyclesPerTick.toNat * 1000 % 2 ^ 64 / _ = _
    rw [Nat.mod_eq_of_lt (by omega)]
  have hnew : (s.gTickUs + c * g32kToHclk.toUInt64 % uwCyclesPerTick.toUInt64 * 1000 / uwCyclesPerTick.toUInt64).toNat = us := by
    rw [UInt64.toNat_add, hpart]
    exact Nat.mod_eq_of_lt (by omega)
  have husLt : us < 2000 := by omega
  have hleft : ((s.gTickUs + c * g32kToHclk.toUInt64 % uwCyclesPerTick.toUInt64 * 1000 / uwCyclesPerTick.toUInt64) / 1000).toUInt32.toNat =
      us / 1000 := by
    rw [UInt64.toNat_toUInt32, UInt64.toNat_div, hnew]
    change us / 1000 % 2 ^ 32 = us / 1000
    omega
  simp only [lpmAddTicks, Bool.false_eq_true, if_false, lpmOsTickHandlerLoop]
  generalize c * g32kToHclk.toUInt64 / uwCyclesPerTick.toUInt64 = ticksSleep at hticks
  generalize s.gTickUs + c * g32kToHclk.toUInt64 % uwCyclesPerTick.toUInt64 * 1000 / uwCyclesPerTick.toUInt64 = tickUs at hnew hleft
  generalize (tickUs / 1000).toUInt32 = ultickleft at hleft
  have htotal : (ticksSleep + ultickleft.toUInt64).toUInt32.toNat = cycles / uwCyclesPerTick.toNat + us / 1000 := by
    rw [UInt64.toNat_toUInt32, UInt64.toNat_add, UInt32.toNat_toUInt64, hticks, hleft]
    omega
  have hzero : ultickleft = 0 ↔ us / 1000 = 0 := by rw [← hleft, ← UInt32.toNat_inj, UInt32.toNat_zero]
  by_cases hnone : ultickleft = 0
  · have hus0 := hzero.mp hnone
    by_cases hsleep : ticksSleep = 0
    · rw [hsleep, UInt64.toNat_zero] at hticks
      rw [if_neg (by simp [hnone, hsleep])]
      exact ⟨by rw [hnew]; omega, by rw [← hticks, hus0, Nat.add_zero]⟩
    · rw [if_pos (Or.inl hsleep), if_neg (fun h => h hnone)]
      exact ⟨by rw [hnew]; omega, by rw [htotal, Nat.add_assoc]⟩
  · have hus1 : us / 1000 = 1 := by
      have hne : us / 1000 ≠ 0 := fun h => hnone (hzero.mpr h)
      omega
    have hone : ultickleft = 1 := UInt32.toNat_inj.mp (hleft.trans hus1)
    rw [if_pos (Or.inr hnone), if_pos hnone]
    refine ⟨?_, by rw [htotal, Nat.add_assoc]⟩
    rw [hone]
    change (tickUs - 1000).toNat = us % 1000
    have hle : (1000 : UInt64) ≤ tickUs := by
      rw [UInt64.le_iff_toNat_le, hnew]
      change 1000 ≤ us
      omega
    rw [UInt64.toNat_sub_of_le _ _ hle, hnew]
    change us - 1000 = us % 1000
    omega

/-- A sleep takes at most one cycle short of a microsecond away. -/
theorem lpmAddTicks_count (hC : 0 < uwCyclesPerTick) (hus : s.gTickUs.toNat < 1000)
    (hfits : Fits g32kToHclk uwCyclesPerTick c s) :
    let s' := lpmAddTicks g32kToHclk uwCyclesPerTick false c s
    s'.gTickUs.toNat < 1000 ∧
      ∃ lost, lost < uwCyclesPerTick.toNat ∧
        1000 * (c.toNat * g32kToHclk.toNat) + uwCyclesPerTick.toNat * (1000 * s.passed + s.gTickUs.toNat) =
          uwCyclesPerTick.toNat * (1000 * s'.passed + s'.gTickUs.toNat) + lost := by
  intro s'
  obtain ⟨hus', hpassed⟩ := lpmAddTicks_eq hC hus hfits
  have hpos : 0 < uwCyclesPerTick.toNat := UInt32.lt_iff_toNat_lt.mp hC
  have hcycles := Nat.div_add_mod (c.toNat * g32kToHclk.toNat) uwCyclesPerTick.toNat
  have hrest := Nat.div_add_mod (c.toNat * g32kToHclk.toNat % uwCyclesPerTick.toNat * 1000) uwCyclesPerTick.toNat
  have hlost := Nat.mod_lt (c.toNat * g32kToHclk.toNat % uwCyclesPerTick.toNat * 1000) hpos
  generalize c.toNat * g32kToHclk.toNat / uwCyclesPerTick.toNat = q at hcycles hpassed
  generalize c.toNat * g32kToHclk.toNat % uwCyclesPerTick.toNat = r at hcycles hrest hlost hus' hpassed
  generalize r * 1000 / uwCyclesPerTick.toNat = m at hrest hus' hpassed
  generalize r * 1000 % uwCyclesPerTick.toNat = lost at hrest hlost
  refine ⟨?_, lost, hlost, ?_⟩
  · rw [hus']
    exact Nat.mod_lt _ (by decide)
  · have hcounted : 1000 * s'.passed + s'.gTickUs.toNat = 1000 * s.passed + s.gTickUs.toNat + 1000 * q + m := by
      rw [hpassed, hus']
      omega
    rw [hcounted, ← hcycles]
    calc 1000 * (uwCyclesPerTick.toNat * q + r) + uwCyclesPerTick.toNat * (1000 * s.passed + s.gTickUs.toNat)
        = uwCyclesPerTick.toNat * (1000 * s.passed + s.gTickUs.toNat + 1000 * q) + r * 1000 := by ring
      _ = uwCyclesPerTick.toNat * (1000 * s.passed + s.gTickUs.toNat + 1000 * q) + (uwCyclesPerTick.toNat * m + lost) := by
        rw [hrest]
      _ = uwCyclesPerTick.toNat * (1000 * s.passed + s.gTickUs.toNat + 1000 * q + m) + lost := by ring

/-- Behind a run of sleeps the microseconds that got lost are fewer than the sleeps. -/
theorem sleeps_count (hC : 0 < uwCyclesPerTick) (cs : List UInt64) (hus : s.gTickUs.toNat < 1000)
    (hfits : Along (fun c s => some (lpmAddTicks g32kToHclk uwCyclesPerTick false c s)) (Fits g32kToHclk uwCyclesPerTick) cs s) :
    let s' := sleeps g32kToHclk uwCyclesPerTick cs s
    s'.gTickUs.toNat < 1000 ∧
      ∃ lost, lost + cs.length ≤ uwCyclesPerTick.toNat * cs.length ∧
        1000 * g32kToHclk.toNat * (cs.map UInt64.toNat).sum + uwCyclesPerTick.toNat * (1000 * s.passed + s.gTickUs.toNat) =
          uwCyclesPerTick.toNat * (1000 * s'.passed + s'.gTickUs.toNat) + lost := by
  induction cs generalizing s with
  | nil => exact ⟨hus, 0, Nat.zero_le _, by simp [sleeps]⟩
  | cons c cs ih =>
    obtain ⟨hfirst, hnext⟩ := hfits
    obtain ⟨hus', lost, hlost, hcount⟩ := lpmAddTicks_count hC hus hfirst
    obtain ⟨hlast, rest, hrest, hcounts⟩ := ih hus' (hnext _ rfl)
    refine ⟨hlast, lost + rest, ?_, ?_⟩
    · rw [List.length_cons, Nat.mul_succ]
      omega
    · have hsplit : 1000 * g32kToHclk.toNat * ((c :: cs).map UInt64.toNat).sum =
          1000 * (c.toNat * g32kToHclk.toNat) + 1000 * g32kToHclk.toNat * (cs.map UInt64.toNat).sum := by
        rw [List.map_cons, List.sum_cons]
        ring
      have hsleeps : sleeps g32kToHclk uwCyclesPerTick (c :: cs) s =
          sleeps g32kToHclk uwCyclesPerTick cs (lpmAddTicks g32kToHclk uwCyclesPerTick false c s) := rfl
      simp only [hsleeps, hsplit] at hcounts ⊢
      omega

end

/-- Where no sleep passes more ticks than thirty-two bits hold, the time that was counted does not drift. -/
theorem sleeps_noDrift {g32kToHclk uwCyclesPerTick : UInt32} (hC : 0 < uwCyclesPerTick) {cs : List UInt64} (hcs : cs ≠ [])
    (hfits : Along (fun c s => some (lpmAddTicks g32kToHclk uwCyclesPerTick false c s)) (Fits g32kToHclk uwCyclesPerTick) cs ⟨0, 0⟩) :
    (sleeps g32kToHclk uwCyclesPerTick cs ⟨0, 0⟩).gTickUs.toNat < 1000 ∧
      NoDrift g32kToHclk uwCyclesPerTick cs (sleeps g32kToHclk uwCyclesPerTick cs ⟨0, 0⟩) := by
  obtain ⟨hus, lost, hlost, hcount⟩ := sleeps_count hC cs (s := ⟨0, 0⟩) (by decide) hfits
  have hlen := List.length_pos_iff.mpr hcs
  have hcount' : 1000 * g32kToHclk.toNat * (cs.map UInt64.toNat).sum = uwCyclesPerTick.toNat *
      (1000 * (sleeps g32kToHclk uwCyclesPerTick cs ⟨0, 0⟩).passed + (sleeps g32kToHclk uwCyclesPerTick cs ⟨0, 0⟩).gTickUs.toNat) +
        lost := by
    rw [← hcount]
    simp
  refine ⟨hus, ?_, ?_⟩
  · omega
  · rw [Nat.mul_add, hcount']
    omega

theorem sleeps_noDrift_sample :
    (sleeps 1224 39168 [5, 17, 100000] ⟨0, 0⟩).gTickUs.toNat < 1000 ∧
      NoDrift 1224 39168 [5, 17, 100000] (sleeps 1224 39168 [5, 17, 100000] ⟨0, 0⟩) :=
  sleeps_noDrift (by decide) (List.cons_ne_nil _ _) (by decide)

/-- Two sleeps shorter than 2 ^ 32 ticks: the microseconds of the first complete a tick of the second, and
thirty-two bits do not hold the sum. -/
theorem not_noDrift_full :
    (∀ c ∈ [1999, 8589934591999], (c : UInt64).toNat * 1 < 2 ^ 32 * 2000) ∧
      ¬NoDrift 1 2000 [1999, 8589934591999] (sleeps 1 2000 [1999, 8589934591999] ⟨0, 0⟩) := by
  constructor
  · rw [List.forall_mem_cons, List.forall_mem_singleton]
    decide
  · simp only [NoDrift]
    decide +kernel

end NbiotXY1100.TickCompensation
