import Mathlib.Data.List.FinRange
import Mathlib.Data.List.Nodup
import Mathlib.Logic.Function.Basic

/-! # Tables of slots

A table has a fixed number of slots, each empty or with an entry. It is searched from its
first slot on, for an entry that passes a test or for an empty slot. Where entries have
different keys, the entry with a key is found. -/
namespace NbiotXY1100.SlotTables

variable {n : ℕ} {α β : Type*}

/-- The first slot whose entry passes the test. -/
def findSlot (p : α → Bool) (t : Fin n → Option α) : Option (Fin n) := (List.finRange n).find? fun i => (t i).any p

/-- The first empty slot. -/
def freeSlot (t : Fin n → Option α) : Option (Fin n) := (List.finRange n).find? fun i => (t i).isNone

/-- The entries in the order of their slots. -/
def entries (t : Fin n → Option α) : List α := (List.finRange n).filterMap t

variable {p : α → Bool} {t : Fin n → Option α} {i j : Fin n} {x y : α}

theorem findSlot_some (h : findSlot p t = some i) : ∃ x, t i = some x ∧ p x = true := by
  have hany := List.find?_some h
  cases hi : t i with
  | none =>
    rw [hi] at hany
    cases hany
  | some x =>
    rw [hi] at hany
    exact ⟨x, rfl, hany⟩

theorem findSlot_none : findSlot p t = none ↔ ∀ i x, t i = some x → p x = false := by
  unfold findSlot
  rw [List.find?_eq_none]
  constructor
  · intro h i x hi
    have hany := h i (List.mem_finRange i)
    rw [hi] at hany
    exact Bool.eq_false_iff.mpr hany
  · intro h i _
    cases hi : t i with
    | none => exact Bool.false_ne_true
    | some x => exact Bool.eq_false_iff.mp (h i x hi)

/-- An entry that alone passes the test is found. -/
theorem findSlot_eq (hi : t i = some x) (hp : p x = true) (honly : ∀ j y, t j = some y → p y = true → j = i) :
    findSlot p t = some i := by
  cases h : findSlot p t with
  | none =>
    have hnot := findSlot_none.mp h i x hi
    rw [hp] at hnot
    cases hnot
  | some j =>
    obtain ⟨y, hj, hy⟩ := findSlot_some h
    rw [honly j y hj hy]

theorem freeSlot_some (h : freeSlot t = some i) : t i = none := by
  have hnone := @List.find?_some _ (fun i => (t i).isNone) i _ h
  exact Option.isNone_iff_eq_none.mp hnone

theorem mem_entries : x ∈ entries t ↔ ∃ i, t i = some x := by
  unfold entries
  rw [List.mem_filterMap]
  constructor
  · rintro ⟨i, -, hi⟩
    exact ⟨i, hi⟩
  · rintro ⟨i, hi⟩
    exact ⟨i, List.mem_finRange i, hi⟩

theorem length_entries_le (t : Fin n → Option α) : (entries t).length ≤ n := by
  have hle := List.length_filterMap_le t (List.finRange n)
  rwa [List.length_finRange] at hle

/-- No two slots have entries with the same key. -/
def Distinct (key : α → β) (t : Fin n → Option α) : Prop :=
  ∀ i j x y, t i = some x → t j = some y → key x = key y → i = j

variable {key : α → β}

theorem distinct_empty : Distinct key fun _ : Fin n => none :=
  fun _ _ _ _ hi => nomatch hi

theorem Distinct.findSlot [DecidableEq β] (h : Distinct key t) (hi : t i = some x) :
    findSlot (fun y => key y = key x) t = some i := by
  refine findSlot_eq hi (by simp) fun j y hj hy => ?_
  exact h j i y x hj hi (of_decide_eq_true hy)

theorem Distinct.remove (h : Distinct key t) (k : Fin n) : Distinct key (Function.update t k none) := by
  intro i j x y hi hj hkey
  rw [Function.update_apply] at hi hj
  split at hi
  · cases hi
  · split at hj
    · cases hj
    · exact h i j x y hi hj hkey

/-- An entry whose key is in no other slot takes a slot. -/
theorem Distinct.insert (h : Distinct key t) {k : Fin n} (hfresh : ∀ i y, i ≠ k → t i = some y → key y ≠ key x) :
    Distinct key (Function.update t k (some x)) := by
  intro i j y z hi hj hkey
  rw [Function.update_apply] at hi hj
  by_cases hik : i = k
  · by_cases hjk : j = k
    · rw [hik, hjk]
    · rw [if_pos hik] at hi
      rw [if_neg hjk] at hj
      cases hi
      exact absurd hkey.symm (hfresh j z hjk hj)
  · rw [if_neg hik] at hi
    by_cases hjk : j = k
    · rw [if_pos hjk] at hj
      cases hj
      exact absurd hkey (hfresh i y hik hi)
    · rw [if_neg hjk] at hj
      exact h i j y z hi hj hkey

/-- A change of the entries that keeps their keys. -/
theorem Distinct.modify {t' : Fin n → Option α} (h : Distinct key t)
    (hsame : ∀ i x, t' i = some x → ∃ y, t i = some y ∧ key y = key x) : Distinct key t' := by
  intro i j x y hi hj hkey
  obtain ⟨x', hx', hkx⟩ := hsame i x hi
  obtain ⟨y', hy', hky⟩ := hsame j y hj
  exact h i j x' y' hx' hy' (by rw [hkx, hky, hkey])

end NbiotXY1100.SlotTables
