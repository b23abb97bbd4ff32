import Mathlib.Data.List.Perm.Basic
import Mathlib.Algebra.GroupWithZero.Nat

/-! # How often intervals cover a point

Intervals are given by their start and their length. What is cut in two or put together covers
the same points as often as before. -/
namespace NbiotXY1100.IntervalCover

/-- 1 for the points of the interval and 0 for the others. -/
def inside (a n x : ℕ) : ℕ := if a ≤ x ∧ x < a + n then 1 else 0

def cover (l : List (ℕ × ℕ)) (x : ℕ) : ℕ := (l.map fun i => inside i.1 i.2 x).sum

@[simp] theorem cover_nil (x : ℕ) : cover [] x = 0 := rfl

@[simp] theorem cover_cons (i : ℕ × ℕ) (l : List (ℕ × ℕ)) (x : ℕ) : cover (i :: l) x = inside i.1 i.2 x + cover l x :=
  rfl

@[simp] theorem cover_append (l r : List (ℕ × ℕ)) (x : ℕ) : cover (l ++ r) x = cover l x + cover r x := by
  simp [cover]

theorem cover_perm {l r : List (ℕ × ℕ)} (h : l.Perm r) (x : ℕ) : cover l x = cover r x :=
  (h.map _).sum_nat

theorem inside_eq_one {a n x : ℕ} (h : a ≤ x ∧ x < a + n) : inside a n x = 1 := if_pos h

theorem inside_eq_zero {a n x : ℕ} (h : ¬ (a ≤ x ∧ x < a + n)) : inside a n x = 0 := if_neg h

@[simp] theorem inside_zero (a x : ℕ) : inside a 0 x = 0 := by
  apply inside_eq_zero
  omega

theorem inside_add (a m n x : ℕ) : inside a (m + n) x = inside a m x + inside (a + m) n x := by
  unfold inside
  split_ifs <;> omega

theorem inside_le_cover {l : List (ℕ × ℕ)} {a n : ℕ} (h : (a, n) ∈ l) (x : ℕ) : inside a n x ≤ cover l x := by
  obtain ⟨before, after, rfl⟩ := List.append_of_mem h
  simp only [cover_append, cover_cons]
  omega

/-- Where no point is covered twice, of two intervals one lies before the other. -/
theorem apart_of_cover {l : List (ℕ × ℕ)} {a m b n : ℕ} (hmem : (a, m) ∈ l) (hm : 0 < m) (hn : 0 < n)
    (hle : ∀ x, inside b n x + cover l x ≤ 1) : a + m ≤ b ∨ b + n ≤ a := by
  by_contra hnot
  obtain ⟨hab, hba⟩ := not_or.mp hnot
  have hpoint := hle (max a b)
  have hin := inside_le_cover hmem (max a b)
  rw [inside_eq_one (a := a) (by omega)] at hin
  rw [inside_eq_one (a := b) (by omega)] at hpoint
  omega

def Contains (i : ℕ × ℕ) (x : ℕ) : Prop := i.1 ≤ x ∧ x < i.1 + i.2

/-- No point is in both. -/
def Apart (i j : ℕ × ℕ) : Prop := ∀ x, ¬(Contains i x ∧ Contains j x)

theorem inside_pos_iff (i : ℕ × ℕ) (x : ℕ) : 0 < inside i.1 i.2 x ↔ Contains i x := by
  rw [inside]
  split_ifs with h
  · exact iff_of_true Nat.one_pos h
  · exact iff_of_false (Nat.lt_irrefl 0) h

theorem cover_pos_iff {l : List (ℕ × ℕ)} {x : ℕ} : 0 < cover l x ↔ ∃ i ∈ l, Contains i x := by
  induction l with
  | nil => simp
  | cons i l ih =>
    rw [cover_cons, Nat.add_pos_iff_pos_or_pos, inside_pos_iff, ih]
    simp

/-- What covers no point twice lies apart. -/
theorem pairwise_apart {l : List (ℕ × ℕ)} (h : ∀ x, cover l x ≤ 1) : l.Pairwise Apart := by
  induction l with
  | nil => exact List.Pairwise.nil
  | cons i l ih =>
    have hle : ∀ x, inside i.1 i.2 x + cover l x ≤ 1 := h
    refine List.pairwise_cons.mpr ⟨fun j hj x hx => ?_, ih fun x => Nat.le_trans (Nat.le_add_left _ _) (hle x)⟩
    have hi := (inside_pos_iff i x).mpr hx.1
    have hl := cover_pos_iff.mpr ⟨j, hj, hx.2⟩
    have hone := hle x
    omega

end NbiotXY1100.IntervalCover
