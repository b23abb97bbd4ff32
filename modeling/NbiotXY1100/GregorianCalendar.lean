import Mathlib.Tactic.IntervalCases
import Mathlib.Data.List.Basic

/-! # Day counts of the proleptic Gregorian calendar

Years count from zero, so that every count is a natural number. A date is turned
into the number of days before it; valid dates are ordered as their day numbers. -/
namespace NbiotXY1100.GregorianCalendar

/-- The 4/100/400 rule. -/
def Leap (y : ℕ) : Prop := y % 4 = 0 ∧ (y % 100 = 0 → y % 400 = 0)

instance : DecidablePred Leap := fun y =>
  inferInstanceAs (Decidable (y % 4 = 0 ∧ (y % 100 = 0 → y % 400 = 0)))

def yearLength (y : ℕ) : ℕ := if Leap y then 366 else 365

def daysBeforeYear : ℕ → ℕ
  | 0 => 0
  | y + 1 => daysBeforeYear y + yearLength y

theorem daysBeforeYear_succ (y : ℕ) :
    daysBeforeYear (y + 1) = daysBeforeYear y + yearLength y := rfl

/-- Every fourth year is long, less the centuries, plus every fourth century. -/
theorem daysBeforeYear_eq (y : ℕ) :
    daysBeforeYear y + (y + 99) / 100 = 365 * y + (y + 3) / 4 + (y + 399) / 400 := by
  induction y with
  | zero => rfl
  | succ y ih =>
    by_cases h : Leap y
    all_goals
      simp only [daysBeforeYear, yearLength, h, if_true, if_false]
      simp only [Leap] at h
      omega

theorem daysBeforeYear_mono {y z : ℕ} (h : y < z) :
    daysBeforeYear y + yearLength y ≤ daysBeforeYear z := by
  induction z with
  | zero => omega
  | succ z ih =>
    rcases Nat.lt_succ_iff_lt_or_eq.mp h with h | rfl
    · exact (ih h).trans (Nat.le_add_right _ _)
    · exact Nat.le_refl _

theorem daysBeforeYear_le {y z : ℕ} (h : y ≤ z) : daysBeforeYear y ≤ daysBeforeYear z := by
  rcases Nat.lt_or_eq_of_le h with h | rfl
  · exact (Nat.le_add_right _ _).trans (daysBeforeYear_mono h)
  · exact Nat.le_refl _

def monthLength (y m : ℕ) : ℕ :=
  if m = 2 then (if Leap y then 29 else 28)
  else if m = 4 ∨ m = 6 ∨ m = 9 ∨ m = 11 then 30 else 31

theorem monthLength_le (y m : ℕ) : monthLength y m ≤ 31 := by
  simp only [monthLength]
  repeat' split
  all_goals decide

/-- Days of the first `m` months. -/
def daysBeforeMonth (y : ℕ) : ℕ → ℕ
  | 0 => 0
  | m + 1 => daysBeforeMonth y m + monthLength y (m + 1)

theorem daysBeforeMonth_mono (y : ℕ) {m n : ℕ} (h : m < n) :
    daysBeforeMonth y m + monthLength y (m + 1) ≤ daysBeforeMonth y n := by
  induction n with
  | zero => omega
  | succ n ih =>
    rcases Nat.lt_succ_iff_lt_or_eq.mp h with h | rfl
    · exact (ih h).trans (Nat.le_add_right _ _)
    · exact Nat.le_refl _

/-- The twelve months make up the year. -/
theorem daysBeforeMonth_twelve (y : ℕ) : daysBeforeMonth y 12 = yearLength y := by
  by_cases h : Leap y <;> simp [daysBeforeMonth, monthLength, yearLength, h]

structure Date where
  year : ℕ
  month : ℕ
  day : ℕ
  deriving DecidableEq, Repr

namespace Date

def Valid (d : Date) : Prop :=
  1 ≤ d.month ∧ d.month ≤ 12 ∧ 1 ≤ d.day ∧ d.day ≤ monthLength d.year d.month

instance : DecidablePred Valid := fun d =>
  inferInstanceAs (Decidable (1 ≤ d.month ∧ d.month ≤ 12 ∧ 1 ≤ d.day ∧ d.day ≤ monthLength d.year d.month))

/-- The day's number in its year, from one. -/
def ordinal (d : Date) : ℕ := daysBeforeMonth d.year (d.month - 1) + d.day

/-- Days from the first day of year zero. -/
def dayNumber (d : Date) : ℕ := daysBeforeYear d.year + d.ordinal

def Before (a b : Date) : Prop :=
  a.year < b.year ∨ a.year = b.year ∧ (a.month < b.month ∨ a.month = b.month ∧ a.day < b.day)

theorem Valid.ordinal_pos {d : Date} (h : d.Valid) : 1 ≤ d.ordinal := by
  have := h.2.2.1
  simp only [ordinal]
  omega

theorem Valid.ordinal_le {d : Date} (h : d.Valid) : d.ordinal ≤ yearLength d.year := by
  obtain ⟨h1, h12, -, hday⟩ := h
  have hm := daysBeforeMonth_mono d.year (m := d.month - 1) (n := d.month) (by omega)
  rw [Nat.sub_add_cancel h1] at hm
  have hle : daysBeforeMonth d.year d.month ≤ daysBeforeMonth d.year 12 := by
    rcases Nat.lt_or_eq_of_le h12 with h | h
    · exact (Nat.le_add_right _ _).trans (daysBeforeMonth_mono d.year h)
    · rw [h]
  rw [daysBeforeMonth_twelve] at hle
  simp only [ordinal]
  omega

/-- Day numbers follow the lexicographic order of valid dates. -/
theorem dayNumber_lt_of_before {a b : Date} (ha : a.Valid) (hb : b.Valid) (h : a.Before b) :
    a.dayNumber < b.dayNumber := by
  have hao := ha.ordinal_le
  have hbo := hb.ordinal_pos
  rcases h with hy | ⟨hy, hm | ⟨hm, hd⟩⟩
  · have := daysBeforeYear_mono hy
    simp only [dayNumber]
    omega
  · obtain ⟨ha1, -, -, haday⟩ := ha
    have hmono := daysBeforeMonth_mono a.year (m := a.month - 1) (n := b.month - 1) (by omega)
    rw [Nat.sub_add_cancel ha1] at hmono
    have := hb.2.2.1
    simp only [dayNumber, ordinal, ← hy]
    omega
  · simp only [dayNumber, ordinal, ← hy, ← hm]
    omega

theorem before_trichotomy (a b : Date) : a.Before b ∨ a = b ∨ b.Before a := by
  obtain ⟨y, m, d⟩ := a
  obtain ⟨y', m', d'⟩ := b
  simp only [Before, mk.injEq]
  omega

end Date
end NbiotXY1100.GregorianCalendar
