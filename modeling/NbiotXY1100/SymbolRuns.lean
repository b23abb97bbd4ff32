import Mathlib.Data.List.Infix

/-! # Scanning for a run of one symbol

A scanner that counts how often the symbol `a` has just been repeated finds the first
run of `n` of them in one pass, however the input is cut into pieces. -/
namespace NbiotXY1100.SymbolRuns

variable {α : Type*} [DecidableEq α] (a : α) (n : ℕ)

/-- The number of trailing `a`s after `k` of them and the list, `none` once there were `n`. -/
def scan : ℕ → List α → Option ℕ
  | k, [] => some k
  | k, b :: bs => if b = a then if k + 1 < n then scan (k + 1) bs else none else scan 0 bs

@[simp] theorem scan_nil (k : ℕ) : scan a n k [] = some k := rfl

theorem scan_cons (k : ℕ) (b : α) (bs : List α) :
    scan a n k (b :: bs) =
      if b = a then if k + 1 < n then scan a n (k + 1) bs else none else scan a n 0 bs := rfl

theorem scan_append (k : ℕ) (xs ys : List α) :
    scan a n k (xs ++ ys) = (scan a n k xs).bind fun j => scan a n j ys := by
  induction xs generalizing k with
  | nil => rfl
  | cons b xs ih =>
    simp only [List.cons_append, scan_cons]
    split_ifs
    · exact ih (k + 1)
    · rfl
    · exact ih 0

variable {a n}

omit [DecidableEq α] in
private theorem replicate_not_prefix_of_ne {b : α} (h : b ≠ a) {k m : ℕ} (hk : k < m) (bs : List α) :
    ¬List.replicate m a <+: List.replicate k a ++ b :: bs := by
  induction k generalizing m with
  | zero =>
    cases m with
    | zero => omega
    | succ m => simpa [List.replicate_succ] using fun hab => absurd hab.symm h
  | succ k ih =>
    cases m with
    | zero => omega
    | succ m => simpa [List.replicate_succ] using ih (by omega)

omit [DecidableEq α] in
private theorem replicate_infix_of_ne {b : α} (h : b ≠ a) {k : ℕ} (hk : k < n) (bs : List α) :
    List.replicate n a <:+: List.replicate k a ++ b :: bs ↔ List.replicate n a <:+: bs := by
  induction k with
  | zero =>
    rw [List.replicate_zero, List.nil_append, List.infix_cons_iff]
    exact or_iff_right (replicate_not_prefix_of_ne (k := 0) h hk bs)
  | succ k ih =>
    rw [List.replicate_succ, List.cons_append, List.infix_cons_iff, ih (by omega)]
    refine or_iff_right fun hinit => replicate_not_prefix_of_ne h hk bs ?_
    simpa [List.replicate_succ] using hinit

/-- The scanner stops exactly when `n` symbols in a row have passed. -/
theorem scan_eq_none_iff {k : ℕ} (hk : k < n) (l : List α) :
    scan a n k l = none ↔ List.replicate n a <:+: List.replicate k a ++ l := by
  induction l generalizing k with
  | nil =>
    simp only [scan_nil, reduceCtorEq, List.append_nil, false_iff]
    intro h
    have := h.length_le
    simp only [List.length_replicate] at this
    omega
  | cons b bs ih =>
    rw [scan_cons]
    split_ifs with hb hn
    · subst hb
      rw [ih hn, List.replicate_succ', List.append_assoc, List.singleton_append]
    · subst hb
      obtain rfl : n = k + 1 := by omega
      refine iff_of_true rfl ⟨[], bs, ?_⟩
      simp [List.replicate_succ']
    · rw [ih (by omega), replicate_infix_of_ne hb hk]
      simp

theorem scan_zero_eq_none_iff (hn : 0 < n) (l : List α) :
    scan a n 0 l = none ↔ List.replicate n a <:+: l := by
  simpa using scan_eq_none_iff (k := 0) hn l

end NbiotXY1100.SymbolRuns
