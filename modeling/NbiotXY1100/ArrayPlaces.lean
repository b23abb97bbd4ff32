import Mathlib.Data.List.Basic
import Mathlib.Tactic.SplitIfs

/-! # Places of a list

What a change at one index does to a list whose elements are known up to that index, and at the
index of the first element that fits. -/
namespace NbiotXY1100.ArrayPlaces

variable {α : Type*}

/-- The first place behind the elements that are done. -/
theorem modify_append (done old : List α) (x : α) (f : α → α) :
    (done ++ x :: old).modify done.length f = done ++ f x :: old := by
  induction done with
  | nil => rfl
  | cons y done ih => simpa using ih

/-- The first element that fits is changed, the others stay. -/
theorem modify_findIdx {p : α → Bool} {l : List α} (hl : ∀ x ∈ l, p x = false) {y : α} (hy : p y = true)
    (r : List α) (f : α → α) : (l ++ y :: r).modify ((l ++ y :: r).findIdx p) f = l ++ f y :: r := by
  induction l with
  | nil => simp [List.findIdx_cons, hy]
  | cons x l ih =>
    have hx := hl x (List.mem_cons_self ..)
    have hrest := ih fun z hz => hl z (List.mem_cons_of_mem _ hz)
    rw [List.cons_append, List.findIdx_cons, hx]
    simpa using hrest

/-- The first element that fits, with what is around it. -/
theorem exists_first {p : α → Bool} {list : List α} (h : list.any p = true) :
    ∃ l y r, list = l ++ y :: r ∧ (∀ x ∈ l, p x = false) ∧ p y = true := by
  induction list with
  | nil => simp at h
  | cons x list ih =>
    cases hx : p x with
    | true => exact ⟨[], x, list, rfl, by simp, hx⟩
    | false =>
      rw [List.any_cons, hx, Bool.false_or] at h
      obtain ⟨l, y, r, rfl, hl, hy⟩ := ih h
      refine ⟨x :: l, y, r, rfl, ?_, hy⟩
      intro z hz
      obtain rfl | hz := List.mem_cons.mp hz
      · exact hx
      · exact hl z hz

theorem mem_modify {x : α} {list : List α} (h : x ∈ list) (i : ℕ) (f : α → α) :
    x ∈ list.modify i f ∨ f x ∈ list.modify i f := by
  induction list generalizing i with
  | nil => exact absurd h List.not_mem_nil
  | cons y list ih =>
    cases i with
    | zero =>
      obtain rfl | h := List.mem_cons.mp h
      · exact .inr (by simp)
      · exact .inl (by simp [h])
    | succ i =>
      obtain rfl | h := List.mem_cons.mp h
      · exact .inl (by simp)
      · exact (ih h i).imp (by simp +contextual) (by simp +contextual)

/-- What is paired with an element of the second list. -/
theorem exists_of_forall₂ {β : Type*} {R : α → β → Prop} {l : List α} {r : List β} (h : List.Forall₂ R l r) {y : β}
    (hy : y ∈ r) : ∃ x ∈ l, R x y := by
  induction h with
  | nil => exact absurd hy List.not_mem_nil
  | cons hfirst _ ih =>
    obtain rfl | hy := List.mem_cons.mp hy
    · exact ⟨_, List.mem_cons_self .., hfirst⟩
    · obtain ⟨x, hx, hrel⟩ := ih hy
      exact ⟨x, List.mem_cons_of_mem _ hx, hrel⟩

end NbiotXY1100.ArrayPlaces
