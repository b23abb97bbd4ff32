import Mathlib.Data.List.Nodup

/-! # Lists whose elements have keys

The first element with a key is looked up, changed or removed. Where the keys are distinct
it is the only one. -/
namespace NbiotXY1100.KeyedLists

variable {α β : Type*}

/-- The first element that passes the test is replaced. -/
def updateFirst (test : α → Bool) (f : α → α) : List α → List α
  | [] => []
  | x :: xs => if test x then f x :: xs else x :: updateFirst test f xs

section Filter

variable {test keep : α → Bool}

/-- The removal of a kept element shows in what is kept. -/
theorem filter_eraseP_of_keep (h : ∀ x, test x → keep x) (xs : List α) :
    (xs.eraseP test).filter keep = (xs.filter keep).eraseP test := by
  induction xs with
  | nil => rfl
  | cons x xs ih =>
    by_cases hx : test x
    · rw [List.eraseP_cons_of_pos hx, List.filter_cons_of_pos (h x hx), List.eraseP_cons_of_pos hx]
    · rw [List.eraseP_cons_of_neg hx]
      by_cases hk : keep x
      · rw [List.filter_cons_of_pos hk, List.filter_cons_of_pos hk, List.eraseP_cons_of_neg hx, ih]
      · rw [List.filter_cons_of_neg hk, List.filter_cons_of_neg hk, ih]

/-- The removal of an element that is not kept does not. -/
theorem filter_eraseP_of_drop (h : ∀ x, test x → ¬ keep x) (xs : List α) :
    (xs.eraseP test).filter keep = xs.filter keep := by
  induction xs with
  | nil => rfl
  | cons x xs ih =>
    by_cases hx : test x
    · rw [List.eraseP_cons_of_pos hx, List.filter_cons_of_neg (h x hx)]
    · rw [List.eraseP_cons_of_neg hx]
      by_cases hk : keep x
      · rw [List.filter_cons_of_pos hk, List.filter_cons_of_pos hk, ih]
      · rw [List.filter_cons_of_neg hk, List.filter_cons_of_neg hk, ih]

theorem find?_filter_of_keep (h : ∀ x, test x → keep x) (xs : List α) : (xs.filter keep).find? test = xs.find? test := by
  rw [List.find?_filter]
  refine congrArg (fun p => List.find? p xs) (funext fun x => ?_)
  cases hx : test x with
  | true => simp [h x hx]
  | false => simp

end Filter

variable {key : α → β} {xs : List α}

theorem key_ne_of_nodup {x : α} (h : ((x :: xs).map key).Nodup) {y : α} (hy : y ∈ xs) : key y ≠ key x := by
  intro heq
  rw [List.map_cons, List.nodup_cons] at h
  exact h.1 (heq ▸ List.mem_map_of_mem hy)

variable [DecidableEq β]

theorem find?_key (h : (xs.map key).Nodup) {x : α} (hx : x ∈ xs) : xs.find? (fun y => key y = key x) = some x := by
  induction xs with
  | nil => cases hx
  | cons y ys ih =>
    rcases List.mem_cons.mp hx with rfl | hx
    · exact List.find?_cons_of_pos (decide_eq_true rfl)
    · have hne : key y ≠ key x := (key_ne_of_nodup h hx).symm
      rw [List.find?_cons_of_neg (by rw [decide_eq_true_eq]; exact hne)]
      exact ih (List.nodup_cons.mp h).2 hx

theorem eraseP_key (h : (xs.map key).Nodup) (k : β) :
    xs.eraseP (fun y => key y = k) = xs.filter fun y => key y ≠ k := by
  induction xs with
  | nil => rfl
  | cons y ys ih =>
    by_cases hy : key y = k
    · rw [List.eraseP_cons_of_pos (by simp [hy]), List.filter_cons_of_neg (by simp [hy])]
      symm
      apply List.filter_eq_self.mpr
      intro z hz
      rw [decide_eq_true_eq, ← hy]
      exact key_ne_of_nodup h hz
    · rw [List.eraseP_cons_of_neg (by simp [hy]), List.filter_cons_of_pos (by simp [hy]),
        ih (List.nodup_cons.mp h).2]

theorem updateFirst_key (h : (xs.map key).Nodup) (k : β) (f : α → α) :
    updateFirst (fun y => key y = k) f xs = xs.map fun y => if key y = k then f y else y := by
  induction xs with
  | nil => rfl
  | cons y ys ih =>
    rw [List.map_cons, updateFirst]
    by_cases hy : key y = k
    · have hrest : (ys.map fun z => if key z = k then f z else z) = ys.map id :=
        List.map_congr_left fun z hz => if_neg (hy ▸ key_ne_of_nodup h hz)
      rw [if_pos (decide_eq_true hy), if_pos hy, hrest, List.map_id]
    · rw [if_neg (by simp [hy]), if_neg hy, ih (List.nodup_cons.mp h).2]

end NbiotXY1100.KeyedLists
