import NbiotXY1100.AtcParameters
import NbiotXY1100.CStrings
import Mathlib.Data.Int.Notation
import Mathlib.Tactic.ByContra
import Mathlib.Tactic.SplitIfs
import Mathlib.Data.FinEnum

/-! # Numbers that are stored as written

The getters of decimal parameters take at most a number of figures from the text. Nine figures
fit thirty-two bits; sixteen bits and a sign do not hold what is written. -/
namespace NbiotXY1100.DecimalParameter
open AtcParameters CStrings

def isNumberChar (c : UInt8) : Bool := isDigit c || c = 45

/-- The characters that a getter with a figure limit takes for its number. -/
def numberText (figure : ℕ) (s : List UInt8) : List UInt8 := (s.takeWhile isNumberChar).take figure

/-- A decimal numeral and its value. -/
def Numeral (w : List UInt8) (v : ℤ) : Prop :=
  (w ≠ [] ∧ (∀ c ∈ w, isDigit c = true) ∧ v = ofDigits w) ∨
    ∃ u, w = 45 :: u ∧ u ≠ [] ∧ (∀ c ∈ u, isDigit c = true) ∧ v = -ofDigits u

def unsignedNumber (s : List UInt8) : Option ℤ :=
  if s.takeWhile isDigit = [] then none else some (ofDigits (s.takeWhile isDigit))

/-- The number that is written at the start of a text, with all of its digits. -/
def writtenNumber : List UInt8 → Option ℤ
  | [] => none
  | c :: s => if c = 45 then (unsignedNumber s).map fun v => -v else unsignedNumber (c :: s)

/-- What a decimal getter may leave: on success the value of a numeral of the text, within the
figures and the bounds, and the offset behind it; otherwise no number but the written one. -/
def GetterSound {β : Type} (value : β → ℕ) (inBounds : ℕ → Prop) (s : List UInt8) (figure : ℕ) (offset : UInt16)
    (r : DecimalParam β) : Prop :=
  (r.ret = .ok → ∀ x, r.data = some x → ∃ w t, s = w ++ t ∧ w.length ≤ figure ∧ Numeral w (value x) ∧
    inBounds (value x) ∧ r.offset.toNat = offset.toNat + w.length + if t.head? = some comma then 1 else 0) ∧
  (r.ret ≠ .ok → ∀ x, r.data = some x → writtenNumber s = some (value x : ℤ))

/-- What `ATC_CheckUSNumParameter` may leave where `old` was stored before. -/
def CheckSound (s : List UInt8) (figure : ℕ) (old : UInt16) (k : NumCheck UInt16) : Prop :=
  (k.result = .ok → ∃ w t, s = w ++ t ∧ w.length ≤ figure ∧ Numeral w k.binaryData.toNat ∧ k.length.toNat = w.length) ∧
  (k.result = .syntaxError → k.binaryData = old ∨ writtenNumber s = some (k.binaryData.toNat : ℤ))

/-! ### The characters of a number -/

theorem isNumberChar_iff (c : UInt8) : isNumberChar c = false ↔ (c < 48 ∨ 57 < c) ∧ c ≠ 45 := by
  simp only [isNumberChar, isDigit, Bool.or_eq_false_iff, Bool.and_eq_false_iff, decide_eq_false_iff_not, UInt8.not_le,
    ne_eq]

theorem isDigit_iff (c : UInt8) : isDigit c = true ↔ 48 ≤ c ∧ c ≤ 57 := by
  simp [isDigit]

theorem stopCharOf_delimiter {c : UInt8} (h : isNumberChar c = true) : c ≠ cr ∧ c ≠ semicolon ∧ c ≠ comma := by
  refine ⟨?_, ?_, ?_⟩
  · rintro rfl
    cases h
  · rintro rfl
    cases h
  · rintro rfl
    cases h

/-- The loop goes over the characters of a number up to the figure limit. -/
theorem numberEnd_spec {figure : ℕ} {u : List UInt8} (hu : ∀ c ∈ u, isNumberChar c = true) {x : UInt8}
    (hx : isNumberChar x = false) (rest : List UInt8) {count : ℕ} (hcount : count ≤ figure) :
    numberEnd figure (u ++ x :: rest) count =
      if count + u.length ≤ figure then some (count + u.length, stopCharOf x) else some (figure, .str) := by
  induction u generalizing count with
  | nil =>
    simp only [List.nil_append, numberEnd, List.length_nil, Nat.add_zero]
    have hother := (isNumberChar_iff x).mp hx
    rw [if_pos hcount, stopCharOf]
    by_cases hcr : x = cr
    · rw [if_pos hcr, if_pos hcr]
    · rw [if_neg hcr, if_neg hcr]
      by_cases hsemi : x = semicolon
      · rw [if_pos hsemi, if_pos hsemi]
      · rw [if_neg hsemi, if_neg hsemi]
        by_cases hcomma : x = comma
        · rw [if_pos hcomma, if_pos hcomma]
        · rw [if_neg hcomma, if_neg hcomma, if_pos hother]
  | cons c u ih =>
    obtain ⟨hc, hu⟩ := List.forall_mem_cons.mp hu
    obtain ⟨hcr, hsemi, hcomma⟩ := stopCharOf_delimiter hc
    have hnumber : ¬((c < 48 ∨ 57 < c) ∧ c ≠ 45) := by
      rw [← isNumberChar_iff, hc]
      exact Bool.noConfusion
    rw [List.cons_append, numberEnd, if_neg hcr, if_neg hsemi, if_neg hcomma, if_neg hnumber, List.length_cons]
    by_cases hlimit : figure ≤ count
    · rw [if_pos hlimit, if_neg (by omega), Nat.le_antisymm hcount hlimit]
    · rw [if_neg hlimit, ih hu (by omega)]
      have hassoc : count + 1 + u.length = count + (u.length + 1) := by omega
      rw [hassoc]

/-- A text that has an end splits at the end of its number. -/
theorem exists_numberEnd {s : List UInt8} (h : cr ∈ s) :
    ∃ x rest, s = s.takeWhile isNumberChar ++ x :: rest ∧ isNumberChar x = false := by
  induction s with
  | nil => cases h
  | cons c s ih =>
    cases hc : isNumberChar c with
    | false => exact ⟨c, s, by rw [List.takeWhile_cons_of_neg (by simp [hc])]; rfl, hc⟩
    | true =>
      have hmem : cr ∈ s := by
        rcases List.mem_cons.mp h with hcr | hmem
        · exact absurd hcr.symm (stopCharOf_delimiter hc).1
        · exact hmem
      obtain ⟨x, rest, hs, hx⟩ := ih hmem
      refine ⟨x, rest, ?_, hx⟩
      rw [List.takeWhile_cons_of_pos hc, List.cons_append, ← hs]

theorem mem_takeWhile_number {s : List UInt8} {c : UInt8} (h : c ∈ s.takeWhile isNumberChar) : isNumberChar c = true :=
  List.mem_takeWhile_imp h

/-- A check on a text with an end: either there is no number at its start, or its result is that
of the conversion of the characters taken. -/
theorem checkNumber_spec {β : Type} (zero : β) (toBinary : List UInt8 → Option β) (failure : ParamResult) {u : List UInt8}
    (hu : ∀ c ∈ u, isNumberChar c = true) {x : UInt8} (hx : isNumberChar x = false) (rest : List UInt8) {figure : ℕ}
    (hfigure : 1 ≤ figure) (hne : u ≠ []) :
    checkNumber zero toBinary failure (u ++ x :: rest) figure =
      some (match toBinary (u.take figure) with
        | some num => ⟨.ok, UInt8.ofNat (u.take figure).length, num, if u.length ≤ figure then stopCharOf x else .str⟩
        | none => ⟨failure, 0, zero, if u.length ≤ figure then stopCharOf x else .str⟩) := by
  obtain ⟨c, u, rfl⟩ := List.exists_cons_of_ne_nil hne
  obtain ⟨hc, hu⟩ := List.forall_mem_cons.mp hu
  obtain ⟨hcr, hsemi, hcomma⟩ := stopCharOf_delimiter hc
  have hnumber : ¬((c < 48 ∨ 57 < c) ∧ c ≠ 45) := by
    rw [← isNumberChar_iff, hc]
    exact Bool.noConfusion
  rw [List.cons_append, checkNumber, if_neg hcr, if_neg hsemi, if_neg hcomma, if_neg hnumber,
    numberEnd_spec hu hx rest hfigure, Nat.add_comm 1]
  by_cases hle : u.length + 1 ≤ figure
  · have htake : (c :: (u ++ x :: rest)).take (u.length + 1) = c :: u := by
      exact (List.take_left : ((c :: u) ++ x :: rest).take (c :: u).length = c :: u)
    have hall : (c :: u).take figure = c :: u := List.take_of_length_le hle
    rw [if_pos hle, Option.map_some]
    cases hnum : toBinary (c :: u) with
    | none => simp only [htake, hall, hnum, List.length_cons, if_pos hle]
    | some num => simp only [htake, hall, hnum, List.length_cons, if_pos hle]
  · have htake : (c :: (u ++ x :: rest)).take figure = (c :: u).take figure := by
      rw [← List.cons_append, List.take_append_of_le_length (by rw [List.length_cons]; omega)]
    have hlen : ((c :: u).take figure).length = figure := by
      rw [List.length_take, List.length_cons]
      omega
    rw [if_neg hle, Option.map_some]
    cases hnum : toBinary ((c :: u).take figure) with
    | none => simp only [htake, hnum, List.length_cons, if_neg hle]
    | some num => simp only [htake, hlen, hnum, List.length_cons, if_neg hle]

theorem checkNumber_empty {β : Type} (zero : β) (toBinary : List UInt8 → Option β) (failure : ParamResult) {x : UInt8}
    (hx : isNumberChar x = false) (rest : List UInt8) (figure : ℕ) :
    checkNumber zero toBinary failure (x :: rest) figure = some ⟨.empty, 0, zero, stopCharOf x⟩ := by
  rw [checkNumber, stopCharOf]
  by_cases hcr : x = cr
  · rw [if_pos hcr, if_pos hcr]
  · rw [if_neg hcr, if_neg hcr]
    by_cases hsemi : x = semicolon
    · rw [if_pos hsemi, if_pos hsemi]
    · rw [if_neg hsemi, if_neg hsemi]
      by_cases hcomma : x = comma
      · rw [if_pos hcomma, if_pos hcomma]
      · rw [if_neg hcomma, if_neg hcomma, if_pos ((isNumberChar_iff x).mp hx)]

/-! ### The conversions -/

/-- The digits go on from a value. -/
def numeric (s : List UInt8) (n : ℕ) : ℕ := s.foldl (fun n c => 10 * n + (c.toNat - 48)) n

theorem numeric_cons (c : UInt8) (s : List UInt8) (n : ℕ) : numeric (c :: s) n = numeric s (10 * n + (c.toNat - 48)) := by
  simp only [numeric, List.foldl_cons]

theorem digit_le {c : UInt8} (h : isDigit c = true) : 48 ≤ c.toNat ∧ c.toNat ≤ 57 := by
  simp only [isDigit_iff, UInt8.le_iff_toNat_le] at h
  exact h

theorem toNat_sub_zero {c : UInt8} (h : isDigit c = true) : (c - 48).toNat = c.toNat - 48 := by
  have hle : (48 : UInt8) ≤ c := ((isDigit_iff c).mp h).1
  exact UInt8.toNat_sub_of_le c 48 hle

theorem digit_toUInt32 {c : UInt8} (h : isDigit c = true) : (c - 48).toUInt32.toNat = c.toNat - 48 := by
  rw [UInt8.toNat_toUInt32, toNat_sub_zero h]

theorem digit_toUInt16 {c : UInt8} (h : isDigit c = true) : (c - 48).toUInt16.toNat = c.toNat - 48 := by
  rw [UInt8.toNat_toUInt16, toNat_sub_zero h]

/-- Up to nine digits do not wrap; only a zero that digits follow is refused. -/
theorem ulongDigits_value {allowZeroStart : Bool} {s : List UInt8} (hs : ∀ c ∈ s, isDigit c = true) {count k : ℕ} {num : UInt32}
    (hzero : allowZeroStart = true ∨ num ≠ 0 ∨ s = [] ∨ count = 0 ∧ (s.length = 1 ∨ s.head? ≠ some 48))
    (hnum : num.toNat < 10 ^ k) (hk : k + s.length ≤ 9) :
    ∃ m, ulongDigits allowZeroStart s count num = some m ∧ m.toNat = numeric s num.toNat := by
  induction s generalizing count k num with
  | nil => exact ⟨num, rfl, rfl⟩
  | cons c s ih =>
    obtain ⟨hc, hs⟩ := List.forall_mem_cons.mp hs
    have hdigit := digit_le hc
    rw [List.length_cons] at hk
    have hpow : 10 ^ (k + 1) ≤ 10 ^ 9 := Nat.pow_le_pow_right (by decide) (by omega)
    have hpow' : 10 ^ (k + 1) = 10 ^ k * 10 := Nat.pow_succ 10 k
    have hmul : (num * 10).toNat = num.toNat * 10 := by
      rw [UInt32.toNat_mul]
      exact Nat.mod_eq_of_lt (by change num.toNat * 10 < 4294967296; omega)
    have hnext : (num * 10 + (c - 48).toUInt32).toNat = 10 * num.toNat + (c.toNat - 48) := by
      rw [UInt32.toNat_add, hmul, digit_toUInt32 hc, Nat.mod_eq_of_lt (by omega)]
      omega
    have hrefused : ¬(allowZeroStart = false ∧ num = 0 ∧ count ≠ 0) := by
      rintro ⟨hallow, h0, hcount⟩
      rcases hzero with h | h | h | h
      · rw [hallow] at h
        cases h
      · exact h h0
      · cases h
      · exact hcount h.1
    have hzero' : allowZeroStart = true ∨ num * 10 + (c - 48).toUInt32 ≠ 0 ∨ s = [] ∨
        count + 1 = 0 ∧ (s.length = 1 ∨ s.head? ≠ some 48) := by
      have hpos : (num.toNat ≠ 0 ∨ c.toNat ≠ 48) → num * 10 + (c - 48).toUInt32 ≠ 0 := by
        intro hor h0
        have := congrArg UInt32.toNat h0
        rw [hnext] at this
        change 10 * num.toNat + (c.toNat - 48) = 0 at this
        omega
      rcases hzero with h | h | h | h
      · exact Or.inl h
      · exact Or.inr (Or.inl (hpos (Or.inl fun h0 => h (UInt32.toNat_inj.mp h0))))
      · cases h
      · rcases h.2 with hlen | hhead
        · exact Or.inr (Or.inr (Or.inl (List.eq_nil_of_length_eq_zero (by simpa using hlen))))
        · refine Or.inr (Or.inl (hpos (Or.inr fun h48 => hhead ?_)))
          rw [List.head?_cons, UInt8.toNat_inj.mp (h48.trans rfl : c.toNat = (48 : UInt8).toNat)]
    obtain ⟨m, hm, hvalue⟩ := ih hs hzero' (k := k + 1) (by rw [hnext]; omega) (by omega)
    refine ⟨m, ?_, ?_⟩
    · rw [ulongDigits, if_pos ((isDigit_iff c).mp hc), if_neg hrefused, hm]
    · rw [hvalue, hnext, numeric_cons]

theorem ulongDigits_other {allowZeroStart : Bool} {s : List UInt8} (hs : ∃ c ∈ s, isDigit c = false) (count : ℕ) (num : UInt32) :
    ulongDigits allowZeroStart s count num = none := by
  induction s generalizing count num with
  | nil =>
    obtain ⟨c, hc, -⟩ := hs
    cases hc
  | cons c s ih =>
    rw [ulongDigits]
    cases hc : isDigit c with
    | false => rw [if_neg (by rw [← isDigit_iff, hc]; exact Bool.noConfusion)]
    | true =>
      have hs' : ∃ c ∈ s, isDigit c = false := by
        obtain ⟨d, hd, hother⟩ := hs
        rcases List.mem_cons.mp hd with rfl | hd
        · rw [hc] at hother
          cases hother
        · exact ⟨d, hd, hother⟩
      rw [if_pos ((isDigit_iff c).mp hc)]
      split
      · rfl
      · exact ih hs' _ _

theorem ulongDigits_leadingZero {c : UInt8} (s : List UInt8) {count : ℕ} (hcount : count ≠ 0) :
    ulongDigits false (c :: s) count 0 = none := by
  rw [ulongDigits]
  split
  · rw [if_pos ⟨rfl, rfl, hcount⟩]
  · rfl

/-- The numerals that `AtcAp_UlongToBinary` takes. -/
def Accepted (allowZeroStart : Bool) (w : List UInt8) : Prop :=
  (∀ c ∈ w, isDigit c = true) ∧ (allowZeroStart = true ∨ w.length = 1 ∨ w.head? ≠ some 48)

theorem ulongToBinary_accepted {allowZeroStart : Bool} {w : List UInt8} (h : Accepted allowZeroStart w) (hlen : w.length ≤ 9) :
    ∃ m, ulongToBinary w allowZeroStart = some m ∧ m.toNat = ofDigits w := by
  have hzero : allowZeroStart = true ∨ (0 : UInt32) ≠ 0 ∨ w = [] ∨ 0 = 0 ∧ (w.length = 1 ∨ w.head? ≠ some 48) := by
    rcases h.2 with h | h
    · exact Or.inl h
    · exact Or.inr (Or.inr (Or.inr ⟨rfl, h⟩))
  exact ulongDigits_value h.1 hzero (k := 0) (by decide) (by omega)

theorem ulongToBinary_refused {allowZeroStart : Bool} {w : List UInt8} (hne : w ≠ []) (h : ¬Accepted allowZeroStart w) :
    ulongToBinary w allowZeroStart = none := by
  by_cases hs : ∀ c ∈ w, isDigit c = true
  · obtain ⟨hallow, hlen, hhead⟩ : allowZeroStart = false ∧ w.length ≠ 1 ∧ w.head? = some 48 := by
      have := not_and.mp h hs
      simpa [not_or] using this
    obtain ⟨c, w, rfl⟩ := List.exists_cons_of_ne_nil hne
    obtain rfl : c = 48 := by simpa using hhead
    obtain ⟨d, w, rfl⟩ := List.exists_cons_of_ne_nil (fun h : w = [] => hlen (by rw [h]; rfl))
    rw [ulongToBinary, hallow, ulongDigits, if_pos (by decide), if_neg (by simp)]
    exact ulongDigits_leadingZero w (by decide)
  · obtain ⟨c, hc, hother⟩ : ∃ c ∈ w, isDigit c = false := by simpa using hs
    exact ulongDigits_other ⟨c, hc, hother⟩ 0 0

theorem numeric_mod (s : List UInt8) (n : ℕ) : numeric s (n % 65536) % 65536 = numeric s n % 65536 := by
  induction s generalizing n with
  | nil => exact Nat.mod_mod n 65536
  | cons c s ih =>
    have hstep : (10 * (n % 65536) + (c.toNat - 48)) % 65536 = (10 * n + (c.toNat - 48)) % 65536 := by omega
    rw [numeric_cons, numeric_cons, ← ih, hstep, ih]

theorem ushortDigits_value {s : List UInt8} (hs : ∀ c ∈ s, isDigit c = true) (num : UInt16) :
    ∃ m, ushortDigits s num = some m ∧ m.toNat = numeric s num.toNat % 65536 := by
  induction s generalizing num with
  | nil => exact ⟨num, rfl, (Nat.mod_eq_of_lt num.toNat_lt).symm⟩
  | cons c s ih =>
    obtain ⟨hc, hs⟩ := List.forall_mem_cons.mp hs
    have hnext : (num * 10 + (c - 48).toUInt16).toNat = (10 * num.toNat + (c.toNat - 48)) % 65536 := by
      rw [UInt16.toNat_add, UInt16.toNat_mul, digit_toUInt16 hc]
      change (num.toNat * 10 % 65536 + (c.toNat - 48)) % 65536 = _
      omega
    obtain ⟨m, hm, hvalue⟩ := ih hs (num * 10 + (c - 48).toUInt16)
    refine ⟨m, ?_, ?_⟩
    · rw [ushortDigits, if_pos ((isDigit_iff c).mp hc), hm]
    · rw [hvalue, hnext, numeric_mod, numeric_cons]

theorem ushortDigits_other {s : List UInt8} (hs : ∃ c ∈ s, isDigit c = false) (num : UInt16) : ushortDigits s num = none := by
  induction s generalizing num with
  | nil =>
    obtain ⟨c, hc, -⟩ := hs
    cases hc
  | cons c s ih =>
    rw [ushortDigits]
    cases hc : isDigit c with
    | false => rw [if_neg (by rw [← isDigit_iff, hc]; exact Bool.noConfusion)]
    | true =>
      obtain ⟨d, hd, hother⟩ := hs
      rcases List.mem_cons.mp hd with rfl | hd
      · rw [hc] at hother
        cases hother
      · rw [if_pos ((isDigit_iff c).mp hc)]
        exact ih ⟨d, hd, hother⟩ _

/-- The value of a text that is a numeral as a whole. -/
def signedValue : List UInt8 → Option ℤ
  | [] => none
  | c :: s =>
    if c = 45 then if s ≠ [] ∧ ∀ d ∈ s, isDigit d = true then some (-ofDigits s) else none
    else if ∀ d ∈ c :: s, isDigit d = true then some (ofDigits (c :: s)) else none

theorem numeral_iff (w : List UInt8) (v : ℤ) : Numeral w v ↔ signedValue w = some v := by
  cases w with
  | nil => simp [Numeral, signedValue]
  | cons c s =>
    by_cases hminus : c = 45
    · subst hminus
      have hno : ¬∀ d ∈ (45 : UInt8) :: s, isDigit d = true := fun h => by simpa [isDigit] using h 45 (List.mem_cons_self ..)
      rw [signedValue, if_pos rfl, Numeral]
      constructor
      · rintro (⟨-, h, -⟩ | ⟨u, hu, hne, hall, rfl⟩)
        · exact absurd h hno
        · cases hu
          rw [if_pos ⟨hne, hall⟩]
      · intro h
        split at h
        · next hs =>
          cases h
          exact Or.inr ⟨s, rfl, hs.1, hs.2, rfl⟩
        · cases h
    · rw [signedValue, if_neg hminus, Numeral]
      constructor
      · rintro (⟨-, h, rfl⟩ | ⟨u, hu, -⟩)
        · rw [if_pos h]
        · exact absurd (List.cons.inj hu).1 hminus
      · intro h
        split at h
        · next hs =>
          cases h
          exact Or.inl ⟨List.cons_ne_nil c s, hs, rfl⟩
        · cases h

theorem ushortToBinary_numeral {w : List UInt8} {v : ℤ} (h : signedValue w = some v) :
    ∃ m, ushortToBinary w = some m ∧ (m.toNat : ℤ) = v % 65536 := by
  rcases (numeral_iff w v).mpr h with ⟨hne, hall, rfl⟩ | ⟨u, rfl, hne, hall, rfl⟩
  · obtain ⟨c, s, rfl⟩ := List.exists_cons_of_ne_nil hne
    have hminus : c ≠ 45 := by
      rintro rfl
      simpa [isDigit] using hall 45 (List.mem_cons_self ..)
    obtain ⟨m, hm, hvalue⟩ := ushortDigits_value hall 0
    refine ⟨m, by rw [ushortToBinary, if_neg hminus, hm], ?_⟩
    rw [hvalue]
    exact Int.natCast_emod _ _
  · obtain ⟨m, hm, hvalue⟩ := ushortDigits_value hall 0
    refine ⟨-m, by rw [ushortToBinary, if_pos rfl, if_neg hne, hm]; rfl, ?_⟩
    have hneg : (-m).toNat = (65536 - m.toNat) % 65536 := UInt16.toNat_neg m
    have hnum : numeric u (UInt16.toNat 0) = ofDigits u := rfl
    rw [hnum] at hvalue
    rw [hneg, hvalue]
    omega

theorem ushortToBinary_other {w : List UInt8} (hne : w ≠ []) (h : signedValue w = none) : ushortToBinary w = none := by
  obtain ⟨c, s, rfl⟩ := List.exists_cons_of_ne_nil hne
  rw [signedValue] at h
  by_cases hminus : c = 45
  · rw [if_pos hminus] at h
    rw [ushortToBinary, if_pos hminus]
    by_cases hs : s = []
    · rw [if_pos hs]
    · have hother : ∃ d ∈ s, isDigit d = false := by simpa [hs] using h
      rw [if_neg hs, ushortDigits_other hother]
      rfl
  · rw [if_neg hminus] at h
    have hother : ∃ d ∈ c :: s, isDigit d = false := by simpa only [ite_eq_right_iff, reduceCtorEq, imp_false, not_forall,
      Bool.not_eq_true, exists_prop] using h
    rw [ushortToBinary, if_neg hminus, ushortDigits_other hother]

/-! ### What is stored -/

/-- The sixteen-bit check stores what is written where the number fits, and clears to zero otherwise. -/
def UsFits (s : List UInt8) (figure : ℕ) (old : UInt16) : Prop :=
  numberText figure s ≠ [] →
    match signedValue (numberText figure s) with
    | some v => 0 ≤ v ∧ v < 65536
    | none => old = 0 ∨ writtenNumber s = some 0

/-- The figures that a getter would store are all the digits there are, as far as their number
goes, and the place behind them is a sixteen-bit offset where the getter goes on there. -/
def GetterFits (allowZeroStart : Bool) (inBounds : ℕ → Prop) (s : List UInt8) (figure : ℕ) (offset : UInt16)
    (lastParameter : UInt8) : Prop :=
  let w := numberText figure s
  w ≠ [] → Accepted allowZeroStart w → inBounds (ofDigits w) →
    ofDigits (s.takeWhile isDigit) = ofDigits w ∧
      ∀ c, s[w.length]? = some c → c = cr ∨ c = comma ∧ lastParameter ≠ 1 →
        offset.toNat + w.length + (if c = comma then 1 else 0) < 65536

theorem checkUSNumParameter_iff {s : List UInt8} {figure : ℕ} (old : UInt16) (hs : cr ∈ s) (hlo : 1 ≤ figure)
    (hhi : figure ≤ 9) :
    (∃ k, checkUSNumParameter s figure = some k ∧ CheckSound s figure old k) ↔ UsFits s figure old := by
  obtain ⟨x, rest, hsplit, hx⟩ := exists_numberEnd hs
  obtain ⟨u, hu⟩ : ∃ u, u = s.takeWhile isNumberChar := ⟨_, rfl⟩
  have hall : ∀ c ∈ u, isNumberChar c = true := fun c hc => mem_takeWhile_number (hu ▸ hc)
  rw [UsFits, numberText, ← hu]
  rw [← hu] at hsplit
  by_cases hne : u = []
  · subst hne
    have hcheck := checkNumber_empty 0 ushortToBinary .syntaxError hx rest figure
    have hsound : CheckSound s figure old ⟨.empty, 0, 0, stopCharOf x⟩ := ⟨nofun, nofun⟩
    exact iff_of_true ⟨_, by rw [hsplit]; exact hcheck, hsound⟩ fun h => absurd List.take_nil h
  · have htake : u.take figure ≠ [] := by
      rw [ne_eq, List.take_eq_nil_iff, not_or]
      exact ⟨by omega, hne⟩
    have hlen : (u.take figure).length ≤ figure := List.length_take_le figure u
    have hcheck := checkNumber_spec 0 ushortToBinary .syntaxError hall hx rest hlo hne
    have hget : checkUSNumParameter s figure = _ := hsplit ▸ hcheck
    rw [hget]
    cases hvalue : signedValue (u.take figure) with
    | none =>
      rw [ushortToBinary_other htake hvalue]
      constructor
      · rintro ⟨k, hk, -, hfail⟩ -
        cases hk
        exact (hfail rfl).imp (fun h => h.symm) fun h => h
      · exact fun h => ⟨_, rfl, nofun, fun _ => (h htake).imp (fun h => h.symm) fun h => h⟩
    | some v =>
      obtain ⟨m, hm, hmod⟩ := ushortToBinary_numeral hvalue
      have hlength : (UInt8.ofNat (u.take figure).length).toNat = (u.take figure).length := by
        rw [UInt8.toNat_ofNat']
        omega
      rw [hm]
      constructor
      · rintro ⟨k, hk, hok, -⟩ -
        cases hk
        obtain ⟨w, t, hst, -, hnum, hwlen⟩ := hok rfl
        rw [hlength] at hwlen
        have hw : w = u.take figure := by
          have htext : s.take w.length = w := by rw [hst, List.take_left]
          rw [← htext, ← hwlen, hsplit, List.take_append_of_le_length (by rw [List.length_take]; omega), List.length_take]
          rcases Nat.le_total figure u.length with h | h
          · rw [Nat.min_eq_left h]
          · rw [Nat.min_eq_right h, List.take_of_length_le h, List.take_length]
        have hv : signedValue (u.take figure) = some (m.toNat : ℤ) := hw ▸ (numeral_iff w _).mp hnum
        rw [hvalue] at hv
        have hv' := Option.some.inj hv
        have hlt : m.toNat < 65536 := m.toNat_lt
        exact ⟨by omega, by omega⟩
      · intro h
        obtain ⟨h0, h1⟩ := h htake
        have hm' : (m.toNat : ℤ) = v := by omega
        refine ⟨_, rfl, fun _ => ⟨u.take figure, u.drop figure ++ x :: rest, ?_, hlen, ?_, hlength⟩, nofun⟩
        · rw [← List.append_assoc, List.take_append_drop, hsplit]
        · rw [numeral_iff, hvalue]
          exact congrArg some hm'.symm

section
variable {β : Type} {value : β → ℕ} {inBounds : ℕ → Prop} {inRange : UInt32 → Option β}

/-- The range check of a getter. -/
structure RangeSpec (value : β → ℕ) (inBounds : ℕ → Prop) (inRange : UInt32 → Option β) : Prop where
  inside : ∀ num x, inRange num = some x → value x = num.toNat ∧ inBounds num.toNat
  outside : ∀ num, inRange num = none → ¬inBounds num.toNat

/-- Without a number the getter stores nothing. -/
theorem getDecimal_none {k : NumCheck UInt32} (h : k.result ≠ .ok ∨ inRange k.binaryData = none) (offset : UInt16)
    (optFlag lastParameter : UInt8) : (getDecimal inRange k offset optFlag lastParameter).data = none := by
  obtain ⟨result, length, num, stop⟩ := k
  cases result with
  | ok =>
    have hnone : inRange num = none := h.resolve_left fun hne => hne rfl
    simp only [getDecimal, hnone]
    split_ifs
    all_goals rfl
  | empty =>
    simp only [getDecimal]
    split_ifs
    all_goals rfl
  | error =>
    simp only [getDecimal]
    split_ifs
    all_goals rfl
  | syntaxError =>
    simp only [getDecimal]
    split_ifs
    all_goals rfl

/-- With a number in the range the delimiter decides. -/
theorem getDecimal_some {num : UInt32} {x : β} (h : inRange num = some x) (length : UInt8) (stop : StopChar) (offset : UInt16)
    (optFlag lastParameter : UInt8) :
    getDecimal inRange ⟨.ok, length, num, stop⟩ offset optFlag lastParameter =
      match stop with
      | .cr => ⟨.ok, offset + length.toUInt16, some x⟩
      | .kanma =>
        if lastParameter = 1 then ⟨.tooManyParameters, offset + length.toUInt16, some x⟩
        else ⟨.ok, offset + length.toUInt16 + 1, some x⟩
      | _ => ⟨.syntaxError, offset + length.toUInt16, some x⟩ := by
  cases stop with
  | cr => simp only [getDecimal, h]; rfl
  | kanma => simp only [getDecimal, h]; rfl
  | semicolon => simp only [getDecimal, h]; rfl
  | str => simp only [getDecimal, h]; rfl

theorem getterSound_none {s : List UInt8} {figure : ℕ} {offset : UInt16} {r : DecimalParam β} (h : r.data = none) :
    GetterSound value inBounds s figure offset r := by
  refine ⟨fun _ x hx => ?_, fun _ x hx => ?_⟩
  · rw [h] at hx
    cases hx
  · rw [h] at hx
    cases hx

/-- A failed getter that has stored a number. -/
theorem getterSound_failed {s : List UInt8} {figure : ℕ} {offset : UInt16} {r : DecimalParam β} {x : β} (hret : r.ret ≠ .ok)
    (hdata : r.data = some x) : GetterSound value inBounds s figure offset r ↔ writtenNumber s = some (value x : ℤ) := by
  constructor
  · exact fun h => h.2 hret x hdata
  · refine fun h => ⟨fun hok => absurd hok hret, fun _ y hy => ?_⟩
    rw [hdata] at hy
    cases hy
    exact h

/-- A getter that has succeeded on the figures `w`, where it goes on behind them. -/
theorem getterSound_ok {w t : List UInt8} {figure n : ℕ} {offset : UInt16} {r : DecimalParam β} {x : β} (hret : r.ret = .ok)
    (hdata : r.data = some x) (hw : w.length ≤ figure) (hfigure : figure ≤ 9) (hnum : Numeral w (value x : ℤ))
    (hbounds : inBounds (value x)) (hn : n = w.length + if t.head? = some comma then 1 else 0)
    (hoffset : r.offset.toNat = (offset.toNat + n) % 65536) :
    GetterSound value inBounds (w ++ t) figure offset r ↔ offset.toNat + n < 65536 := by
  have hlt : offset.toNat < 65536 := offset.toNat_lt
  have hsmall : n ≤ 10 := by
    rw [hn]
    split
    · omega
    · omega
  constructor
  · intro h
    obtain ⟨w', t', -, -, -, -, hplace⟩ := h.1 hret x hdata
    rw [hoffset] at hplace
    by_contra hwrap
    omega
  · intro hfits
    refine ⟨fun _ y hy => ?_, fun hfail => absurd hret hfail⟩
    rw [hdata] at hy
    cases hy
    refine ⟨w, t, rfl, hw, hnum, hbounds, ?_⟩
    rw [hoffset, Nat.mod_eq_of_lt hfits, hn, Nat.add_assoc]

/-- The number at the start of a text that starts with a digit. -/
theorem writtenNumber_digits {s : List UInt8} (h : s.takeWhile isDigit ≠ []) :
    writtenNumber s = some (ofDigits (s.takeWhile isDigit) : ℤ) := by
  cases s with
  | nil => exact absurd rfl h
  | cons c s =>
    have hc : c ≠ 45 := by
      rintro rfl
      exact h rfl
    rw [writtenNumber, if_neg hc, unsignedNumber, if_neg h]

/-- The figures that a getter takes are the first digits of the text. -/
theorem digits_start {u : List UInt8} {figure : ℕ} (hfigure : 1 ≤ figure) (hne : u ≠ [])
    (hall : ∀ c ∈ u.take figure, isDigit c = true) (t : List UInt8) :
    ∃ v, (u ++ t).takeWhile isDigit = u.take figure ++ v ∧ u.take figure ≠ [] := by
  have hsplit : u ++ t = u.take figure ++ (u.drop figure ++ t) := by rw [← List.append_assoc, List.take_append_drop]
  refine ⟨(u.drop figure ++ t).takeWhile isDigit, ?_, ?_⟩
  · rw [hsplit, List.takeWhile_append_of_pos hall]
  · rw [ne_eq, List.take_eq_nil_iff, not_or]
    exact ⟨by omega, hne⟩

/-- A getter leaves what it may leave exactly where what it stores fits. -/
theorem getter_iff (hrange : RangeSpec value inBounds inRange) {s : List UInt8} {figure : ℕ} (allowZeroStart : Bool)
    (offset : UInt16) (optFlag lastParameter : UInt8) (hs : cr ∈ s) (hlo : 1 ≤ figure) (hhi : figure ≤ 9) :
    (∃ r, (checkLongNumParameter s figure allowZeroStart).map (fun k => getDecimal inRange k offset optFlag lastParameter) =
      some r ∧ GetterSound value inBounds s figure offset r) ↔
      GetterFits allowZeroStart inBounds s figure offset lastParameter := by
  obtain ⟨x, rest, hsplit, hx⟩ := exists_numberEnd hs
  obtain ⟨u, hu⟩ : ∃ u, u = s.takeWhile isNumberChar := ⟨_, rfl⟩
  have hall : ∀ c ∈ u, isNumberChar c = true := fun c hc => mem_takeWhile_number (hu ▸ hc)
  simp only [GetterFits, numberText, ← hu]
  rw [← hu] at hsplit
  by_cases hne : u = []
  · subst hne
    have hcheck : checkLongNumParameter s figure allowZeroStart = some ⟨.empty, 0, 0, stopCharOf x⟩ := by
      rw [hsplit]
      exact checkNumber_empty 0 (ulongToBinary · allowZeroStart) .error hx rest figure
    rw [hcheck]
    have hnone : ParamResult.empty ≠ .ok := nofun
    exact iff_of_true ⟨_, rfl, getterSound_none (getDecimal_none (Or.inl hnone) offset optFlag lastParameter)⟩
      fun h => absurd List.take_nil h
  have hcheck : checkLongNumParameter s figure allowZeroStart = _ :=
    hsplit ▸ checkNumber_spec 0 (ulongToBinary · allowZeroStart) .error hall hx rest hlo hne
  have hlen : (u.take figure).length ≤ figure := List.length_take_le figure u
  have htake : u.take figure ≠ [] := by
    rw [ne_eq, List.take_eq_nil_iff, not_or]
    exact ⟨by omega, hne⟩
  rw [hcheck]
  by_cases haccept : Accepted allowZeroStart (u.take figure)
  · obtain ⟨num, hnum, hnumvalue⟩ := ulongToBinary_accepted haccept (Nat.le_trans hlen hhi)
    simp only [hnum, Option.map_some, Option.some.injEq, exists_eq_left']
    cases hin : inRange num with
    | none =>
      have hout : ¬inBounds (ofDigits (u.take figure)) := hnumvalue ▸ hrange.outside num hin
      exact iff_of_true (getterSound_none (getDecimal_none (Or.inr hin) offset optFlag lastParameter))
        fun _ _ h => absurd h hout
    | some v =>
      obtain ⟨hv, hbounds⟩ := hrange.inside num v hin
      rw [hnumvalue] at hv hbounds
      obtain ⟨more, hmore, -⟩ := digits_start hlo hne haccept.1 (x :: rest)
      rw [← hsplit] at hmore
      have hwritten : writtenNumber s = some (ofDigits (s.takeWhile isDigit) : ℤ) := by
        apply writtenNumber_digits
        rw [hmore]
        exact List.append_ne_nil_of_left_ne_nil htake more
      -- where the getter fails behind the figures, they have to be the whole number
      have hfailed : ∀ r : DecimalParam β, r.ret ≠ .ok → r.data = some v →
          (∀ c, s[(u.take figure).length]? = some c → ¬(c = cr ∨ c = comma ∧ lastParameter ≠ 1)) →
          (GetterSound value inBounds s figure offset r ↔ ofDigits (s.takeWhile isDigit) = ofDigits (u.take figure) ∧
            ∀ c, s[(u.take figure).length]? = some c → c = cr ∨ c = comma ∧ lastParameter ≠ 1 →
              offset.toNat + (u.take figure).length + (if c = comma then 1 else 0) < 65536) := by
        intro r hret hdata hno
        rw [getterSound_failed hret hdata, hwritten, hv, Option.some.injEq, Int.natCast_inj]
        exact ⟨fun h => ⟨h, fun c hc hgo => absurd hgo (hno c hc)⟩, And.left⟩
      have hpremises : ∀ P : Prop, (u.take figure ≠ [] → Accepted allowZeroStart (u.take figure) →
          inBounds (ofDigits (u.take figure)) → P) ↔ P := fun P => ⟨fun h => h htake haccept hbounds, fun h _ _ _ => h⟩
      rw [getDecimal_some hin, hpremises]
      by_cases hle : u.length ≤ figure
      · have huall : u.take figure = u := List.take_of_length_le hle
        have hxdigit : isDigit x = false := (Bool.or_eq_false_iff.mp hx).1
        have hdigits : s.takeWhile isDigit = u := by
          rw [hsplit, List.takeWhile_append_of_pos (huall ▸ haccept.1), List.takeWhile_cons_of_neg (by simp [hxdigit]),
            List.append_nil]
        have hat : s[u.length]? = some x := by
          rw [hsplit, List.getElem?_append_right (Nat.le_refl _), Nat.sub_self]
          rfl
        have hlength : (UInt8.ofNat u.length).toUInt16.toNat = u.length := by
          rw [UInt8.toNat_toUInt16, UInt8.toNat_ofNat']
          omega
        have hvalue : Numeral u (value v : ℤ) := by
          rw [hv, huall]
          exact Or.inl ⟨hne, huall ▸ haccept.1, rfl⟩
        have hbounds' : inBounds (value v) := hv ▸ hbounds
        rw [huall] at hfailed ⊢
        rw [if_pos hle]
        -- the delimiter decides
        by_cases hcr : x = cr
        · subst hcr
          have hok := @getterSound_ok β value inBounds u (cr :: rest) figure u.length offset
            ⟨.ok, offset + (UInt8.ofNat u.length).toUInt16, some v⟩ v rfl rfl hle hhi hvalue hbounds' rfl
            (by rw [UInt16.toNat_add, hlength])
          rw [← hsplit] at hok
          refine hok.trans ?_
          rw [hdigits, hat]
          constructor
          · intro h
            refine ⟨rfl, fun c hc _ => ?_⟩
            cases hc
            exact h
          · exact fun h => h.2 cr rfl (Or.inl rfl)
        · by_cases hcomma : x = comma ∧ lastParameter ≠ 1
          · obtain ⟨rfl, hlast⟩ := hcomma
            have hok := @getterSound_ok β value inBounds u (comma :: rest) figure (u.length + 1) offset
              ⟨.ok, offset + (UInt8.ofNat u.length).toUInt16 + 1, some v⟩ v rfl rfl hle hhi hvalue hbounds' rfl
              (by
                rw [UInt16.toNat_add, UInt16.toNat_add, hlength]
                change ((offset.toNat + u.length) % 65536 + 1) % 65536 = _
                omega)
            rw [← hsplit] at hok
            have hstop : stopCharOf comma = .kanma := rfl
            rw [hstop]
            simp only [if_neg hlast]
            refine hok.trans ?_
            rw [hdigits, hat]
            constructor
            · intro h
              refine ⟨rfl, fun c hc _ => ?_⟩
              cases hc
              exact h
            · exact fun h => h.2 comma rfl (Or.inr ⟨rfl, hlast⟩)
          · have hno : ∀ c, s[u.length]? = some c → ¬(c = cr ∨ c = comma ∧ lastParameter ≠ 1) := by
              intro c hc
              rw [hat] at hc
              cases hc
              exact not_or.mpr ⟨hcr, hcomma⟩
            by_cases hkanma : x = comma
            · have hlast : lastParameter = 1 := by
                by_contra hne
                exact hcomma ⟨hkanma, hne⟩
              have hstop : stopCharOf x = .kanma := by rw [hkanma]; rfl
              rw [hstop]
              simp only [if_pos hlast]
              exact hfailed _ nofun rfl hno
            · by_cases hsemi : x = semicolon
              · have hstop : stopCharOf x = .semicolon := by rw [hsemi]; rfl
                rw [hstop]
                exact hfailed _ nofun rfl hno
              · have hstop : stopCharOf x = .str := by rw [stopCharOf, if_neg hcr, if_neg hsemi, if_neg hkanma]
                rw [hstop]
                exact hfailed _ nofun rfl hno
      · have hnext : ∀ c, s[(u.take figure).length]? = some c → ¬(c = cr ∨ c = comma ∧ lastParameter ≠ 1) := by
          intro c hc
          have hlt : figure < u.length := Nat.lt_of_not_le hle
          rw [List.length_take, Nat.min_eq_left hlt.le, hsplit, List.getElem?_append_left hlt] at hc
          obtain ⟨hcr, -, hcomma⟩ := stopCharOf_delimiter (hall c (List.mem_of_getElem? hc))
          exact not_or.mpr ⟨hcr, fun h => hcomma h.1⟩
        rw [if_neg hle]
        exact hfailed _ nofun rfl hnext
  · have hnum := ulongToBinary_refused htake haccept
    simp only [hnum, Option.map_some, Option.some.injEq, exists_eq_left']
    have herror : ParamResult.error ≠ .ok := nofun
    exact iff_of_true (getterSound_none (getDecimal_none (Or.inl herror) offset optFlag lastParameter))
      fun _ h => absurd h haccept

end

def Between (min max n : ℕ) : Prop := min ≤ n ∧ n ≤ max

theorem byteInRange_spec (min max : UInt8) : RangeSpec UInt8.toNat (Between min.toNat max.toNat) (byteInRange min max) := by
  have hmax := max.toNat_lt
  have h255 : (255 : UInt32).toNat = 255 := rfl
  constructor
  · intro num x h
    unfold byteInRange at h
    split at h
    · next hin =>
      cases h
      simp only [UInt32.le_iff_toNat_le, UInt8.toNat_toUInt32, h255] at hin
      refine ⟨?_, hin.1, hin.2.1⟩
      rw [UInt32.toNat_toUInt8]
      omega
    · cases h
  · intro num h hbetween
    unfold byteInRange at h
    split at h
    · cases h
    · next hout =>
      apply hout
      simp only [UInt32.le_iff_toNat_le, UInt8.toNat_toUInt32, h255]
      have hlo := hbetween.1
      have hhi := hbetween.2
      omega

theorem longInRange_spec (min max : UInt32) : RangeSpec UInt32.toNat (Between min.toNat max.toNat) (longInRange min max) := by
  constructor
  · intro num x h
    unfold longInRange at h
    split at h
    · next hin =>
      cases h
      exact ⟨rfl, UInt32.le_iff_toNat_le.mp hin.1, UInt32.le_iff_toNat_le.mp hin.2⟩
    · cases h
  · intro num h hbetween
    unfold longInRange at h
    split at h
    · cases h
    · next hout => exact hout ⟨UInt32.le_iff_toNat_le.mpr hbetween.1, UInt32.le_iff_toNat_le.mpr hbetween.2⟩

/-- For every text with an end, every offset in it and every limit of one to nine figures, the three
functions store nothing but what is written exactly under these conditions. -/
theorem decimalParameters_iff {pre s : List UInt8} {figure : ℕ} {offset : UInt16} (hs : cr ∈ s) (hlo : 1 ≤ figure)
    (hhi : figure ≤ 9) (hoffset : offset.toNat = pre.length) :
    (∀ (min max optFlag lastParameter : UInt8),
      (∃ r, getDecimalParameterByte (pre ++ s) offset figure min max optFlag lastParameter = some r ∧
        GetterSound UInt8.toNat (Between min.toNat max.toNat) s figure offset r) ↔
        GetterFits false (Between min.toNat max.toNat) s figure offset lastParameter) ∧
    (∀ (min max : UInt32) (optFlag lastParameter : UInt8) (allowZeroStart : Bool),
      (∃ r, getDecimalParameterLong (pre ++ s) offset figure min max optFlag lastParameter allowZeroStart = some r ∧
        GetterSound UInt32.toNat (Between min.toNat max.toNat) s figure offset r) ↔
        GetterFits allowZeroStart (Between min.toNat max.toNat) s figure offset lastParameter) ∧
    (∀ old : UInt16, (∃ k, checkUSNumParameter s figure = some k ∧ CheckSound s figure old k) ↔ UsFits s figure old) := by
  have hdrop : (pre ++ s).drop offset.toNat = s := by rw [hoffset, List.drop_left]
  refine ⟨fun min max optFlag lastParameter => ?_, fun min max optFlag lastParameter allowZeroStart => ?_, fun old => ?_⟩
  · rw [getDecimalParameterByte, hdrop]
    exact getter_iff (byteInRange_spec min max) false offset optFlag lastParameter hs hlo hhi
  · rw [getDecimalParameterLong, hdrop]
    exact getter_iff (longInRange_spec min max) allowZeroStart offset optFlag lastParameter hs hlo hhi
  · exact checkUSNumParameter_iff old hs hlo hhi

/-- `AT=12,5` with three figures. -/
theorem decimalParameters_iff_sample :
    (∃ r, getDecimalParameterByte [65, 84, 61, 49, 50, 44, 53, 13] 3 3 0 255 0 0 = some r ∧
      GetterSound UInt8.toNat (Between 0 255) [49, 50, 44, 53, 13] 3 3 r) ↔
      GetterFits false (Between 0 255) [49, 50, 44, 53, 13] 3 3 0 :=
  (@decimalParameters_iff [65, 84, 61] [49, 50, 44, 53, 13] 3 3 (by decide) (by decide) (by decide) (by decide)).1 0 255 0 0

/-- Four digits with a limit of three figures, and a number of seventeen bits. -/
theorem not_decimalParameters :
    (¬∃ r, getDecimalParameterByte [49, 50, 51, 52, 13] 0 3 0 255 0 0 = some r ∧
      GetterSound UInt8.toNat (Between 0 255) [49, 50, 51, 52, 13] 3 0 r) ∧
    ¬∃ k, checkUSNumParameter [55, 48, 48, 48, 48, 13] 5 = some k ∧ CheckSound [55, 48, 48, 48, 48, 13] 5 0 k := by
  constructor
  · rintro ⟨r, hr, -, hfail⟩
    have hget : getDecimalParameterByte [49, 50, 51, 52, 13] 0 3 0 255 0 0 = some ⟨.syntaxError, 3, some 123⟩ := by decide
    rw [hget] at hr
    cases hr
    have hwritten := hfail nofun 123 rfl
    exact absurd hwritten (by decide)
  · rw [checkUSNumParameter_iff 0 (by decide) (by decide) (by decide)]
    intro h
    have hvalue : signedValue (numberText 5 [55, 48, 48, 48, 48, 13]) = some 70000 := by decide +kernel
    rw [UsFits, hvalue] at h
    exact absurd (h (by decide)).2 (by decide)

end NbiotXY1100.DecimalParameter
