import Mathlib.Data.Int.Basic
import Mathlib.Data.List.TakeWhile
import Mathlib.Tactic.SplitIfs
import Mathlib.Algebra.GroupWithZero.Nat
import Mathlib.Algebra.Group.Int.Defs

/-! # C strings

Strings are lists of bytes, without the byte NUL that ends them in memory. `strchr` gives
the text on both sides of the character it finds; `strtol` reads a decimal number into a
32-bit `long`. -/
namespace NbiotXY1100.CStrings

/-- The C string that starts at the given bytes. -/
def cString (bytes : List UInt8) : List UInt8 := bytes.takeWhile (· ≠ 0)

/-- The text before and behind the first `c`. -/
def strchr (c : UInt8) : List UInt8 → Option (List UInt8 × List UInt8)
  | [] => none
  | b :: s => if b = c then some ([], s) else (strchr c s).map fun p => (b :: p.1, p.2)

def isDigit (c : UInt8) : Bool := 48 ≤ c && c ≤ 57

def isSpace (c : UInt8) : Bool := c = 32 || (9 ≤ c && c ≤ 13)

/-- The number that a text of decimal digits stands for. -/
def ofDigits (s : List UInt8) : ℕ := s.foldl (fun n c => 10 * n + (c.toNat - 48)) 0

/-- `LONG_MIN` and `LONG_MAX` end the range. -/
def clampLong (n : ℤ) : ℤ := max (-2 ^ 31) (min n (2 ^ 31 - 1))

def strtol (s : List UInt8) : ℤ :=
  match s.dropWhile isSpace with
  | 45 :: s => clampLong (-ofDigits (s.takeWhile isDigit))
  | 43 :: s => clampLong (ofDigits (s.takeWhile isDigit))
  | s => clampLong (ofDigits (s.takeWhile isDigit))

/-- `n` printed with "%d". -/
def decimal (n : ℕ) : List UInt8 :=
  if n < 10 then [UInt8.ofNat (48 + n)] else decimal (n / 10) ++ [UInt8.ofNat (48 + n % 10)]
termination_by n
decreasing_by omega

def decimalInt (n : ℤ) : List UInt8 := if n < 0 then 45 :: decimal n.natAbs else decimal n.natAbs

theorem cString_append {s : List UInt8} (h : 0 ∉ s) (t : List UInt8) : cString (s ++ t) = s ++ cString t :=
  List.takeWhile_append_of_pos fun b hb => by
    simpa using fun hzero : b = 0 => h (hzero ▸ hb)

theorem cString_append_nul {s : List UInt8} (h : 0 ∉ s) (rest : List UInt8) : cString (s ++ 0 :: rest) = s := by
  rw [cString_append h]
  simp [cString]

theorem not_mem_cString (s : List UInt8) : 0 ∉ cString s := fun h => by
  simpa using List.mem_takeWhile_imp h

theorem cString_eq_self {s : List UInt8} (h : 0 ∉ s) : cString s = s :=
  List.takeWhile_eq_self_iff.mpr fun b hb => by
    simpa using fun hzero : b = 0 => h (hzero ▸ hb)

theorem strchr_append {c : UInt8} {s : List UInt8} (h : c ∉ s) (t : List UInt8) :
    strchr c (s ++ c :: t) = some (s, t) := by
  induction s with
  | nil => simp [strchr]
  | cons b s ih =>
    obtain ⟨hb, hs⟩ : c ≠ b ∧ c ∉ s := by simpa using h
    simp [strchr, Ne.symm hb, ih hs]

theorem strchr_append_of_not_mem {c : UInt8} {s : List UInt8} (h : c ∉ s) (t : List UInt8) :
    strchr c (s ++ t) = (strchr c t).map fun p => (s ++ p.1, p.2) := by
  induction s with
  | nil => simp
  | cons b s ih =>
    obtain ⟨hb, hs⟩ : c ≠ b ∧ c ∉ s := by simpa using h
    simp [strchr, Ne.symm hb, ih hs, Function.comp_def]

theorem strchr_eq_none {c : UInt8} {s : List UInt8} (h : c ∉ s) : strchr c s = none := by
  induction s with
  | nil => rfl
  | cons b s ih =>
    obtain ⟨hb, hs⟩ : c ≠ b ∧ c ∉ s := by simpa using h
    simp [strchr, Ne.symm hb, ih hs]

theorem strchr_eq_some {c : UInt8} {s a b : List UInt8} (h : strchr c s = some (a, b)) :
    s = a ++ c :: b ∧ c ∉ a := by
  induction s generalizing a with
  | nil => simp [strchr] at h
  | cons d s ih =>
    simp only [strchr] at h
    split_ifs at h with hd
    · cases h
      simp [hd]
    · obtain ⟨⟨a', b'⟩, hs, heq⟩ := Option.map_eq_some_iff.mp h
      cases heq
      obtain ⟨rfl, hc⟩ := ih hs
      exact ⟨rfl, by simp [Ne.symm hd, hc]⟩

theorem strchr_length_lt {c : UInt8} {s a b : List UInt8} (h : strchr c s = some (a, b)) : b.length < s.length := by
  obtain ⟨rfl, -⟩ := strchr_eq_some h
  simp only [List.length_append, List.length_cons]
  omega

private theorem toNat_digit {d : ℕ} (h : d < 10) : (UInt8.ofNat (48 + d)).toNat = 48 + d := by
  rw [UInt8.toNat_ofNat', Nat.mod_eq_of_lt (by omega)]

private theorem isDigit_digit {d : ℕ} (h : d < 10) : isDigit (UInt8.ofNat (48 + d)) = true := by
  simp only [isDigit, Bool.and_eq_true, decide_eq_true_eq, UInt8.le_iff_toNat_le, toNat_digit h]
  exact ⟨Nat.le_add_right 48 d, show 48 + d ≤ 57 by omega⟩

theorem isDigit_of_mem_decimal (n : ℕ) : ∀ c ∈ decimal n, isDigit c = true := by
  induction n using decimal.induct with
  | case1 n h =>
    rw [decimal, if_pos h]
    simpa using isDigit_digit h
  | case2 n h ih =>
    rw [decimal, if_neg h]
    intro c hc
    rcases List.mem_append.mp hc with hc | hc
    · exact ih c hc
    · rw [List.mem_singleton.mp hc]
      exact isDigit_digit (by omega)

theorem ofDigits_decimal (n : ℕ) : ofDigits (decimal n) = n := by
  induction n using decimal.induct with
  | case1 n h =>
    rw [decimal, if_pos h, ofDigits, List.foldl_cons, List.foldl_nil, toNat_digit h]
    omega
  | case2 n h ih =>
    rw [decimal, if_neg h, ofDigits, List.foldl_append, ← ofDigits, ih]
    simp only [List.foldl_cons, List.foldl_nil, toNat_digit (show n % 10 < 10 by omega)]
    omega

theorem decimal_ne_nil (n : ℕ) : decimal n ≠ [] := by
  rw [decimal]
  split_ifs <;> simp

theorem decimal_length_le {n : ℕ} (k : ℕ) (h : n < 10 ^ (k + 1)) : (decimal n).length ≤ k + 1 := by
  induction k generalizing n with
  | zero => simp [decimal, show n < 10 by omega]
  | succ k ih =>
    rw [Nat.pow_succ] at h
    rw [decimal]
    split_ifs
    · simp
    · have := ih (n := n / 10) (by omega)
      simp only [List.length_append, List.length_singleton]
      omega

theorem lt_decimal_length {n : ℕ} (k : ℕ) (h : 10 ^ k ≤ n) : k < (decimal n).length := by
  induction k generalizing n with
  | zero => exact List.length_pos_iff.mpr (decimal_ne_nil n)
  | succ k ih =>
    have hpow := Nat.one_le_pow k 10 (by decide)
    rw [Nat.pow_succ] at h
    have := ih (n := n / 10) (by omega)
    rw [decimal, if_neg (by omega)]
    simp only [List.length_append, List.length_singleton]
    omega

theorem decimal_length_le_iff {n k : ℕ} : (decimal n).length ≤ k + 1 ↔ n < 10 ^ (k + 1) := by
  refine ⟨fun h => ?_, decimal_length_le k⟩
  by_contra hge
  have := lt_decimal_length (k + 1) (not_lt.mp hge)
  omega

theorem clampLong_eq {n : ℤ} (hlo : -2 ^ 31 ≤ n) (hhi : n < 2 ^ 31) : clampLong n = n := by
  simp only [clampLong]
  omega

private theorem strtol_of_digit {c : UInt8} {s : List UInt8} (h : ∀ d ∈ c :: s, isDigit d = true) :
    strtol (c :: s) = clampLong (ofDigits (c :: s)) := by
  have hc := h c List.mem_cons_self
  simp only [isDigit, Bool.and_eq_true, decide_eq_true_eq, UInt8.le_iff_toNat_le] at hc
  obtain ⟨hlo, hhi⟩ : 48 ≤ c.toNat ∧ c.toNat ≤ 57 := hc
  have hne : ∀ d : UInt8, d.toNat < 48 → c ≠ d := fun d hd heq => by
    rw [heq] at hlo
    omega
  have hspace : isSpace c = false := by
    simp only [isSpace, Bool.or_eq_false_iff, Bool.and_eq_false_iff, decide_eq_false_iff_not,
      UInt8.le_iff_toNat_le]
    exact ⟨hne 32 (by decide), .inr (show ¬c.toNat ≤ 13 by omega)⟩
  have hdrop : (c :: s).dropWhile isSpace = c :: s := by simp [hspace]
  have htake : (c :: s).takeWhile isDigit = c :: s := List.takeWhile_eq_self_iff.mpr h
  rw [strtol, hdrop]
  split
  · next heq => exact absurd (List.cons.inj heq).1 (hne 45 (by decide))
  · next heq => exact absurd (List.cons.inj heq).1 (hne 43 (by decide))
  · rw [htake]

theorem strtol_decimal {n : ℕ} (h : n < 2 ^ 31) : strtol (decimal n) = n := by
  have hdigits := isDigit_of_mem_decimal n
  have hvalue := ofDigits_decimal n
  cases hn : decimal n with
  | nil => exact absurd hn (decimal_ne_nil n)
  | cons c s =>
    rw [hn] at hdigits hvalue
    rw [strtol_of_digit hdigits, hvalue, clampLong_eq (by omega) (by omega)]

/-- A number that fits a `long` is read back from its decimal text. -/
theorem strtol_decimalInt {n : ℤ} (hlo : -2 ^ 31 ≤ n) (hhi : n < 2 ^ 31) : strtol (decimalInt n) = n := by
  rw [decimalInt]
  split_ifs with hneg
  · have htake : (decimal n.natAbs).takeWhile isDigit = decimal n.natAbs :=
      List.takeWhile_eq_self_iff.mpr (isDigit_of_mem_decimal _)
    have hstrtol : strtol (45 :: decimal n.natAbs) = clampLong (-ofDigits (decimal n.natAbs)) := by
      rw [strtol, List.dropWhile_cons_of_neg (by decide)]
      simp only
      rw [htake]
    rw [hstrtol, ofDigits_decimal, clampLong_eq (by omega) (by omega)]
    omega
  · rw [strtol_decimal (by omega)]
    omega

theorem not_mem_decimalInt {c : UInt8} (hminus : c ≠ 45) (hdigit : isDigit c = false) (n : ℤ) :
    c ∉ decimalInt n := by
  have hdecimal : ∀ m, c ∉ decimal m := fun m hc => by simp [isDigit_of_mem_decimal m c hc] at hdigit
  rw [decimalInt]
  split_ifs
  · simp [hminus, hdecimal]
  · exact hdecimal _

theorem decimalInt_ne_nil (n : ℤ) : decimalInt n ≠ [] := by
  rw [decimalInt]
  split_ifs
  · exact List.cons_ne_nil _ _
  · exact decimal_ne_nil _

end NbiotXY1100.CStrings
