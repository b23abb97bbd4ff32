import Mathlib.Data.List.Basic

/-! # Lists in the order of a key

An element is inserted behind the ones whose key is not greater, so that elements with one key stay in the
order in which they came. -/
namespace NbiotXY1100.TimedList

variable {α β : Type*} {key : α → ℕ}

def insert (key : α → ℕ) (x : α) : List α → List α
  | [] => [x]
  | y :: ys => if key y ≤ key x then y :: insert key x ys else x :: y :: ys

theorem insert_nil (x : α) : insert key x [] = [x] :=
  rfl

theorem insert_cons (x y : α) (ys : List α) :
    insert key x (y :: ys) = if key y ≤ key x then y :: insert key x ys else x :: y :: ys :=
  rfl

def Sorted (key : α → ℕ) (l : List α) : Prop :=
  l.Pairwise fun a b => key a ≤ key b

theorem mem_insert {x y : α} {l : List α} : y ∈ insert key x l ↔ y = x ∨ y ∈ l := by
  induction l with
  | nil => rw [insert_nil, List.mem_singleton, List.mem_nil_iff, or_false]
  | cons z zs ih =>
    rw [insert_cons]
    split
    · rw [List.mem_cons, ih, List.mem_cons, or_left_comm]
    · rw [List.mem_cons]

theorem Sorted.insert {x : α} {l : List α} (h : Sorted key l) : Sorted key (insert key x l) := by
  induction l with
  | nil => exact List.pairwise_singleton _ _
  | cons z zs ih =>
    obtain ⟨hz, hzs⟩ := List.pairwise_cons.mp h
    rw [insert_cons]
    split
    next hle =>
      refine List.pairwise_cons.mpr ⟨fun y hy => ?_, ih hzs⟩
      rcases mem_insert.mp hy with rfl | hy
      · exact hle
      · exact hz y hy
    next hlt =>
      refine List.pairwise_cons.mpr ⟨fun y hy => ?_, h⟩
      rcases List.mem_cons.mp hy with rfl | hy
      · exact Nat.le_of_not_le hlt
      · exact Nat.le_trans (Nat.le_of_not_le hlt) (hz y hy)

theorem Sorted.filter {l : List α} (h : Sorted key l) (p : α → Bool) : Sorted key (l.filter p) :=
  List.Pairwise.filter p h

theorem filter_insert_of_not {x : α} {p : α → Bool} (hx : p x = false) (l : List α) :
    (insert key x l).filter p = l.filter p := by
  induction l with
  | nil => rw [insert_nil, List.filter_cons_of_neg (by simp [hx])]
  | cons z zs ih =>
    rw [insert_cons]
    split
    · rw [List.filter_cons, List.filter_cons, ih]
    · rw [List.filter_cons_of_neg (by simp [hx])]

theorem filter_insert_of_nil {x : α} {p : α → Bool} (hx : p x = true) {l : List α} (hl : l.filter p = []) :
    (insert key x l).filter p = [x] := by
  induction l with
  | nil => rw [insert_nil, List.filter_cons_of_pos hx, List.filter_nil]
  | cons z zs ih =>
    have hz : p z = false := by simpa using List.filter_eq_nil_iff.mp hl z List.mem_cons_self
    rw [List.filter_cons_of_neg (by simp [hz])] at hl
    rw [insert_cons]
    split
    · rw [List.filter_cons_of_neg (by simp [hz]), ih hl]
    · rw [List.filter_cons_of_pos hx, List.filter_cons_of_neg (by simp [hz]), hl]

/-- Insertion sees the keys only by their order. -/
theorem map_insert {key' : β → ℕ} (f : α → β) (hf : ∀ a b, key' (f a) ≤ key' (f b) ↔ key a ≤ key b) (x : α)
    (l : List α) : (insert key x l).map f = insert key' (f x) (l.map f) := by
  induction l with
  | nil => rfl
  | cons z zs ih =>
    simp only [insert_cons, List.map_cons, hf]
    split
    · rw [List.map_cons, ih]
    · rfl

theorem insert_append_of_lt {x : α} {l m : List α} (h : ∀ y ∈ m, key x < key y) :
    insert key x (l ++ m) = insert key x l ++ m := by
  induction l with
  | nil =>
    cases m with
    | nil => rfl
    | cons y ys => exact if_neg (Nat.not_le_of_lt (h y List.mem_cons_self))
  | cons z zs ih =>
    simp only [List.cons_append, insert_cons]
    split
    · rw [ih, List.cons_append]
    · rfl

theorem insert_append_of_le {x : α} {l m : List α} (h : ∀ y ∈ l, key y ≤ key x) :
    insert key x (l ++ m) = l ++ insert key x m := by
  induction l with
  | nil => rfl
  | cons z zs ih =>
    rw [List.cons_append, insert_cons, if_pos (h z List.mem_cons_self), ih fun y hy => h y (List.mem_cons_of_mem z hy),
      List.cons_append]

/-- In a list in order the elements that are due stand in front. -/
theorem Sorted.takeWhile_eq_filter {l : List α} (h : Sorted key l) (now : ℕ) :
    l.takeWhile (fun a => key a ≤ now) = l.filter (fun a => key a ≤ now) := by
  induction l with
  | nil => rfl
  | cons z zs ih =>
    obtain ⟨hz, hzs⟩ := List.pairwise_cons.mp h
    rw [List.takeWhile_cons, List.filter_cons]
    split
    · rw [ih hzs]
    next hlt =>
      refine (List.filter_eq_nil_iff.mpr fun y hy => ?_).symm
      have hle := hz y hy
      simp only [decide_eq_true_eq] at hlt ⊢
      omega

theorem Sorted.dropWhile_eq_filter {l : List α} (h : Sorted key l) (now : ℕ) :
    l.dropWhile (fun a => key a ≤ now) = l.filter (fun a => now < key a) := by
  induction l with
  | nil => rfl
  | cons z zs ih =>
    obtain ⟨hz, hzs⟩ := List.pairwise_cons.mp h
    by_cases hle : key z ≤ now
    · rw [List.dropWhile_cons_of_pos (by simpa using hle), List.filter_cons_of_neg (by simpa using hle), ih hzs]
    · rw [List.dropWhile_cons_of_neg (by simpa using hle), List.filter_eq_self.mpr]
      intro y hy
      rcases List.mem_cons.mp hy with rfl | hy
      · simpa using hle
      · have hle' := hz y hy
        simp only [decide_eq_true_eq]
        omega

end NbiotXY1100.TimedList
