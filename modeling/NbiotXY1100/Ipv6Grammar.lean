import NbiotXY1100.InetPton
import Mathlib.Algebra.GroupWithZero.Nat

/-! # What the address parsers accept

The text forms of IPv6 addresses as a grammar, and `inet_pton6` against it. One lemma for each
kind of character says what the grammar makes of the text from the current token on. -/
namespace NbiotXY1100.Ipv6Grammar
open ByteBuffers CStrings TextParsing InetPton

def isHexDigit (c : UInt8) : Bool := (hexDigitValue c).isSome

def hexNumber (t : List UInt8) : ℕ := t.foldl (fun n c => 16 * n + (hexDigitValue c).getD 0) 0

def groupBytes (t : List UInt8) : List UInt8 := [UInt8.ofNat (hexNumber t / 256), UInt8.ofNat (hexNumber t % 256)]

/-- One to four hex digits, and the two bytes of their number. -/
structure Group (t bytes : List UInt8) : Prop where
  digits : ∀ c ∈ t, isHexDigit c = true
  pos : t ≠ []
  short : t.length ≤ 4
  bytes_eq : bytes = groupBytes t

/-- Groups with colons between them. The last thirty-two bits may be four octets where `tail` is set. -/
inductive Groups (tail : Bool) : List UInt8 → List UInt8 → Prop where
  | group {t bytes : List UInt8} (h : Group t bytes) : Groups tail t bytes
  | octets {t bytes : List UInt8} (htail : tail = true) (h : IsIpv4 t bytes) : Groups tail t bytes
  | cons {t b s bytes : List UInt8} (h : Group t b) (hs : Groups tail s bytes) : Groups tail (t ++ 58 :: s) (b ++ bytes)

def GroupsOrNone (tail : Bool) (s bytes : List UInt8) : Prop := s = [] ∧ bytes = [] ∨ Groups tail s bytes

/-- The text forms of the address with the given bytes. -/
inductive Ipv6Text : List UInt8 → List UInt8 → Prop where
  | full {s bytes : List UInt8} (h : Groups true s bytes) (hlen : bytes.length = 16) : Ipv6Text s bytes
  | compressed {l r left right : List UInt8} (hl : GroupsOrNone false l left) (hr : GroupsOrNone true r right)
    (hlen : left.length + right.length ≤ 14) :
    Ipv6Text (l ++ 58 :: 58 :: r) (left ++ List.replicate (16 - left.length - right.length) 0 ++ right)

/-! ### Groups -/

theorem isHexDigit_of_isDigit {c : UInt8} (h : isDigit c = true) : isHexDigit c = true := by
  simp only [isDigit, Bool.and_eq_true, decide_eq_true_eq] at h
  rw [isHexDigit, hexDigitValue, if_pos h]
  rfl

theorem isHexDigit_decimal (n : ℕ) : ∀ c ∈ decimal n, isHexDigit c = true :=
  fun c hc => isHexDigit_of_isDigit (isDigit_of_mem_decimal n c hc)

theorem isIpv4_start {s bytes : List UInt8} (h : IsIpv4 s bytes) :
    bytes.length = 4 ∧ ∃ (a : UInt8) (rest : List UInt8), s = decimal a.toNat ++ 46 :: rest := by
  obtain ⟨a, b, c, d, rfl, rfl⟩ := h
  exact ⟨rfl, a, _, rfl⟩

theorem Group.length_eq {t bytes : List UInt8} (h : Group t bytes) : bytes.length = 2 := by
  rw [h.bytes_eq]
  rfl

theorem groups_even {tail : Bool} {s bytes : List UInt8} (h : Groups tail s bytes) : bytes.length % 2 = 0 := by
  induction h with
  | group h => rw [h.length_eq]
  | octets htail h => rw [(isIpv4_start h).1]
  | cons h hs ih =>
    rw [List.length_append, h.length_eq]
    omega

/-- The first token of a text of groups has one to four digits. -/
theorem groups_start {tail : Bool} {s bytes : List UInt8} (h : Groups tail s bytes) (rest : List UInt8) :
    (s ++ 58 :: rest).takeWhile isHexDigit ≠ [] ∧ ((s ++ 58 :: rest).takeWhile isHexDigit).length ≤ 4 := by
  cases h with
  | group h =>
    rw [takeWhile_span h.digits (by decide)]
    exact ⟨h.pos, h.short⟩
  | octets htail h =>
    obtain ⟨-, a, u, rfl⟩ := isIpv4_start h
    rw [List.append_assoc, List.cons_append, takeWhile_span (isHexDigit_decimal _) (by decide)]
    have hlen : (decimal a.toNat).length ≤ 2 + 1 := decimal_length_le 2 (Nat.lt_trans a.toNat_lt (by decide))
    exact ⟨decimal_ne_nil _, by omega⟩
  | cons h hs =>
    rw [List.append_assoc, List.cons_append, takeWhile_span h.digits (by decide)]
    exact ⟨h.pos, h.short⟩

theorem not_groups_colon {tail : Bool} {rest bytes : List UInt8} : ¬Groups tail (58 :: rest) bytes := fun h =>
  (groups_start h []).1 rfl

theorem groups_ne_nil {tail : Bool} {bytes : List UInt8} : ¬Groups tail [] bytes := fun h =>
  (groups_start h []).1 rfl

section
variable {tail : Bool} {t s bytes : List UInt8} {c : UInt8}

theorem groups_end (ht : ∀ c ∈ t, isHexDigit c = true) : Groups tail t bytes ↔ Group t bytes := by
  constructor
  · intro h
    cases h with
    | group h => exact h
    | octets htail h =>
      obtain ⟨-, a, u, rfl⟩ := isIpv4_start h
      exact absurd rfl (span_ne ht (by decide) _)
    | cons h hs => exact absurd rfl (span_ne ht (by decide) _)
  · exact .group

theorem groups_colon (ht : ∀ c ∈ t, isHexDigit c = true) :
    Groups tail (t ++ 58 :: s) bytes ↔ ∃ b rest, Group t b ∧ Groups tail s rest ∧ bytes = b ++ rest := by
  constructor
  · generalize hu : t ++ 58 :: s = u
    intro h
    cases h with
    | group h => exact absurd hu (span_ne h.digits (by decide) _)
    | octets htail h =>
      obtain ⟨-, a, v, rfl⟩ := isIpv4_start h
      exact absurd (span_unique ht (isHexDigit_decimal _) (by decide) (by decide) hu).2.1 (by decide)
    | cons h hs =>
      obtain ⟨rfl, -, rfl⟩ := span_unique ht h.digits (by decide) (by decide) hu
      exact ⟨_, _, h, hs, rfl⟩
  · rintro ⟨b, rest, h, hs, rfl⟩
    exact .cons h hs

theorem groups_other (ht : ∀ c ∈ t, isHexDigit c = true) (hc : isHexDigit c = false) (hcolon : c ≠ 58) :
    Groups tail (t ++ c :: s) bytes ↔ tail = true ∧ IsIpv4 (t ++ c :: s) bytes := by
  constructor
  · generalize hu : t ++ c :: s = u
    intro h
    cases h with
    | group h => exact absurd hu (span_ne h.digits hc _)
    | octets htail h => exact ⟨htail, h⟩
    | cons h hs => exact absurd (span_unique ht h.digits hc (by decide) hu).2.1 hcolon
  · exact fun h => .octets h.1 h.2

theorem isIpv4_dot (ht : ∀ c ∈ t, isHexDigit c = true) (hc : isHexDigit c = false) (h : IsIpv4 (t ++ c :: s) bytes) :
    c = 46 := by
  obtain ⟨-, a, u, hu⟩ := isIpv4_start h
  exact (span_unique ht (isHexDigit_decimal _) hc (by decide) hu).2.1

end

/-! ### What is left to read

The position of `::` among the bytes is known, or `::` may still come. -/

/-- The bytes of the text from the current token on, and the position of `::` at the end. -/
inductive Remaining : Option ℕ → ℕ → List UInt8 → List UInt8 → Option ℕ → Prop where
  | done (colon tp : ℕ) : Remaining (some colon) tp [] [] (some colon)
  | groups (colonp : Option ℕ) (tp : ℕ) {s bytes : List UInt8} (h : Groups true s bytes) : Remaining colonp tp s bytes colonp
  | gap (tp : ℕ) {l left r right : List UInt8} (hl : Groups false l left) (hr : GroupsOrNone true r right) :
    Remaining none tp (l ++ 58 :: 58 :: r) (left ++ right) (some (tp + left.length))
  | colons (tp : ℕ) {r right : List UInt8} (hr : GroupsOrNone true r right) : Remaining none tp (58 :: r) right (some tp)

theorem GroupsOrNone.even {tail : Bool} {s bytes : List UInt8} (h : GroupsOrNone tail s bytes) : bytes.length % 2 = 0 := by
  obtain ⟨rfl, rfl⟩ | h := h
  · rfl
  · exact groups_even h

theorem GroupsOrNone.remaining {s bytes : List UInt8} (h : GroupsOrNone true s bytes) (colon tp : ℕ) :
    Remaining (some colon) tp s bytes (some colon) := by
  obtain ⟨rfl, rfl⟩ | h := h
  · exact .done colon tp
  · exact .groups _ tp h

section
variable {colonp colonp' : Option ℕ} {tp : ℕ} {t s bytes : List UInt8} {c : UInt8}

theorem remaining_end (ht : ∀ c ∈ t, isHexDigit c = true) :
    Remaining colonp tp t bytes colonp' ↔
      colonp' = colonp ∧ (t = [] ∧ bytes = [] ∧ colonp.isSome = true ∨ Group t bytes) := by
  constructor
  · intro h
    cases h with
    | done colon => exact ⟨rfl, .inl ⟨rfl, rfl, rfl⟩⟩
    | groups _ _ h => exact ⟨rfl, .inr ((groups_end ht).mp h)⟩
    | gap _ hl hr => exact absurd rfl (span_ne ht (by decide) _)
    | colons _ hr => exact absurd rfl (span_ne (t := []) ht (by decide) _)
  · rintro ⟨rfl, ⟨rfl, rfl, hsome⟩ | h⟩
    · obtain ⟨colon, rfl⟩ := Option.isSome_iff_exists.mp hsome
      exact .done colon tp
    · exact .groups _ tp (.group h)

theorem remaining_colon (ht : ∀ c ∈ t, isHexDigit c = true) (hne : t ≠ []) :
    Remaining colonp tp (t ++ 58 :: s) bytes colonp' ↔
      s ≠ [] ∧ ∃ b rest, Group t b ∧ Remaining colonp (tp + 2) s rest colonp' ∧ bytes = b ++ rest := by
  constructor
  · generalize hu : t ++ 58 :: s = u
    intro h
    cases h with
    | done => exact absurd hu (List.append_ne_nil_of_right_ne_nil _ (List.cons_ne_nil _ _))
    | groups _ _ h =>
      subst hu
      obtain ⟨b, rest, hb, hrest, rfl⟩ := (groups_colon ht).mp h
      refine ⟨?_, b, rest, hb, .groups _ _ hrest, rfl⟩
      rintro rfl
      exact groups_ne_nil hrest
    | gap _ hl hr =>
      cases hl with
      | group h =>
        obtain ⟨rfl, -, rfl⟩ := span_unique ht h.digits (by decide) (by decide) hu
        rw [h.length_eq]
        exact ⟨List.cons_ne_nil _ _, _, _, h, .colons _ hr, rfl⟩
      | octets htail h => cases htail
      | cons h hs =>
        rw [List.append_assoc, List.cons_append] at hu
        obtain ⟨rfl, -, rfl⟩ := span_unique ht h.digits (by decide) (by decide) hu
        rw [List.length_append, h.length_eq, ← Nat.add_assoc, List.append_assoc]
        exact ⟨List.append_ne_nil_of_right_ne_nil _ (List.cons_ne_nil _ _), _, _, h, .gap _ hs hr, rfl⟩
    | colons _ hr => exact absurd (span_unique (u := []) ht nofun (by decide) (by decide) hu).1 hne
  · rintro ⟨hs, b, rest, hb, h, rfl⟩
    cases h with
    | done => exact absurd rfl hs
    | groups _ _ h => exact .groups _ _ (.cons hb h)
    | gap _ hl hr =>
      have hgap := Remaining.gap tp (.cons hb hl) hr
      rw [List.length_append, hb.length_eq, ← Nat.add_assoc, List.append_assoc, List.append_assoc, List.cons_append] at hgap
      exact hgap
    | colons _ hr =>
      have hgap := Remaining.gap tp (.group hb) hr
      rw [hb.length_eq] at hgap
      exact hgap

theorem remaining_colons :
    Remaining colonp tp (58 :: s) bytes colonp' ↔ colonp = none ∧ Remaining (some tp) tp s bytes colonp' := by
  constructor
  · generalize hu : 58 :: s = u
    intro h
    cases h with
    | done => exact absurd hu (List.cons_ne_nil _ _)
    | groups _ _ h => exact absurd (hu ▸ h) not_groups_colon
    | @gap _ l left r right hl hr =>
      cases l with
      | nil => exact absurd hl groups_ne_nil
      | cons c l =>
        obtain ⟨rfl, -⟩ := List.cons.inj hu
        exact absurd hl not_groups_colon
    | colons _ hr =>
      obtain ⟨-, rfl⟩ := List.cons.inj hu
      exact ⟨rfl, hr.remaining tp tp⟩
  · rintro ⟨rfl, h⟩
    cases h with
    | done => exact .colons tp (.inl ⟨rfl, rfl⟩)
    | groups _ _ h => exact .colons tp (.inr h)

theorem remaining_other (ht : ∀ c ∈ t, isHexDigit c = true) (hc : isHexDigit c = false) (hcolon : c ≠ 58) :
    Remaining colonp tp (t ++ c :: s) bytes colonp' ↔ c = 46 ∧ IsIpv4 (t ++ c :: s) bytes ∧ colonp' = colonp := by
  constructor
  · generalize hu : t ++ c :: s = u
    intro h
    cases h with
    | done => exact absurd hu (List.append_ne_nil_of_right_ne_nil _ (List.cons_ne_nil _ _))
    | groups _ _ h =>
      subst hu
      have hipv4 := ((groups_other ht hc hcolon).mp h).2
      exact ⟨isIpv4_dot ht hc hipv4, hipv4, rfl⟩
    | gap _ hl hr =>
      cases hl with
      | group h => exact absurd (span_unique ht h.digits hc (by decide) hu).2.1 hcolon
      | octets htail h => cases htail
      | cons h hs =>
        rw [List.append_assoc, List.cons_append] at hu
        exact absurd (span_unique ht h.digits hc (by decide) hu).2.1 hcolon
    | colons _ hr => exact absurd (span_unique (u := []) ht nofun hc (by decide) hu).2.1 hcolon
  · rintro ⟨-, h, rfl⟩
    exact .groups _ tp (.octets rfl h)

/-- No token has five digits. -/
theorem not_remaining_long (ht : ∀ c ∈ t, isHexDigit c = true) (hlen : t.length = 4) (hc : isHexDigit c = true) :
    ¬Remaining colonp tp (t ++ c :: s) bytes colonp' := by
  have hlong : ∀ rest, 4 < ((t ++ c :: s ++ rest).takeWhile isHexDigit).length := by
    intro rest
    rw [List.append_assoc, List.takeWhile_append_of_pos ht, List.cons_append, List.takeWhile_cons_of_pos hc]
    simp only [List.length_append, List.length_cons]
    omega
  generalize hu : t ++ c :: s = u at hlong
  intro h
  cases h with
  | done => exact absurd hu (List.append_ne_nil_of_right_ne_nil _ (List.cons_ne_nil _ _))
  | groups _ _ h =>
    have hstart := (groups_start h []).2
    have := hlong [58]
    omega
  | @gap _ l left r right hl hr =>
    have hstart := (groups_start hl (58 :: r)).2
    have := hlong []
    rw [List.append_nil] at this
    omega
  | colons _ hr =>
    cases t with
    | nil => cases hlen
    | cons d t =>
      obtain ⟨rfl, -⟩ := List.cons.inj hu
      exact absurd (ht 58 List.mem_cons_self) (by decide)

end

end NbiotXY1100.Ipv6Grammar
