import NbiotXY1100.AtParam

/-! # Printing parameters and parsing them with `parse_param_vp`

Integers are printed in decimal and strings between quotes. Strings come back unless they
begin with a space, which is stripped inside the quotes too, or fill a sized item, which
then loses its last character. -/
namespace NbiotXY1100.AtParamRoundTrip
open CStrings AtParam

/-- A string that "%s", or "%Ns" for `size = some N`, can be given between quotes. -/
structure StrValid (size : Option ℕ) (s : List UInt8) : Prop where
  ne_nil : s ≠ []
  no_nul : 0 ∉ s
  no_quote : 34 ∉ s
  no_cr : 13 ∉ s
  length_le : ∀ n ∈ size, s.length ≤ n

/-- An item of the format together with the value printed for it. -/
inductive Param where
  | int (w : Width) (n : ℤ) (fits : w.Fits n)
  | str (size : Option ℕ) (s : List UInt8) (valid : StrValid size s)

def strFmt : Option ℕ → List UInt8
  | none => [37, 115]
  | some n => 37 :: decimal n ++ [115]

def Param.fmt : Param → List UInt8
  | .int w _ _ => w.fmt
  | .str size _ _ => strFmt size

def Param.text : Param → List UInt8
  | .int _ n _ => decimalInt n
  | .str _ s _ => 34 :: s ++ [34]

/-- The text that the loop hands to the item parser. -/
def Param.cut : Param → List UInt8
  | .int _ n _ => decimalInt n
  | .str _ s _ => s

def formatOf (params : List Param) : List UInt8 := joinComma (params.map Param.fmt)

def printed (params : List Param) : List UInt8 := joinComma (params.map Param.text) ++ [13]

/-- The destination holds the value; a sized string is copied without its terminator. -/
def Holds : Stored → Param → Prop
  | .int size value, .int w n _ => size = w.size ∧ value = intBytes w.size n
  | .str bytes, .str _ s _ => cString bytes = s
  | _, _ => False

/-- A string does not begin with a space and leaves room in a sized item, whose size has
at most five digits. -/
def Param.Survives : Param → Prop
  | .int _ _ _ => True
  | .str none s _ => s.head? ≠ some 32
  | .str (some n) s _ => s.head? ≠ some 32 ∧ s.length < n ∧ n < 100000

theorem Param.field (p : Param) : Field (strchr 34) p.text p.cut := by
  cases p with
  | int w n fits =>
    exact field_plain _ (decimalInt_ne_nil n) (not_mem_decimalInt (by decide) (by decide) n)
      (not_mem_decimalInt (by decide) (by decide) n)
  | str size s valid =>
    refine field_quoted (strchr_append valid.no_quote []) fun rest => ?_
    have hclose : s ++ [34] ++ 44 :: rest = s ++ 34 :: 44 :: rest := by simp
    exact hclose ▸ strchr_append valid.no_quote (44 :: rest)

private theorem mem_strFmt {c : UInt8} {size : Option ℕ} (h : c ∈ strFmt size) :
    c = 37 ∨ c = 115 ∨ isDigit c = true := by
  cases size with
  | none =>
    simp only [strFmt, List.mem_cons, List.not_mem_nil, or_false] at h
    exact h.imp_right .inl
  | some n =>
    simp only [strFmt, List.cons_append, List.mem_cons, List.mem_append, List.not_mem_nil, or_false] at h
    rcases h with h | h | h
    · exact .inl h
    · exact .inr (.inr (isDigit_of_mem_decimal n c h))
    · exact .inr (.inl h)

/-- A format has no other characters than `%`, `d`, `s` and digits. -/
theorem Param.not_mem_fmt {c : UInt8} (h : c ≠ 37 ∧ c ≠ 100 ∧ c ≠ 115 ∧ isDigit c = false) (p : Param) :
    c ∉ p.fmt := by
  obtain ⟨h37, h100, h115, hdigit⟩ := h
  intro hc
  cases p with
  | int w n fits => rcases Width.mem_fmt hc with h | h | h <;> simp_all
  | str size s valid => rcases mem_strFmt hc with h | h | h <;> simp_all

theorem Param.not_mem_fmt_comma (p : Param) : 44 ∉ p.fmt := p.not_mem_fmt (by decide)

theorem Param.text_head (p : Param) : p.text ≠ [] ∧ p.text.head? ≠ some 32 := by
  cases p with
  | int w n fits =>
    refine ⟨decimalInt_ne_nil n, fun h => ?_⟩
    exact not_mem_decimalInt (by decide) (by decide) n (List.mem_of_mem_head? h)
  | str size s valid => exact ⟨List.cons_ne_nil _ _, by simp [Param.text]⟩

theorem Param.cr_not_mem_text (p : Param) : 13 ∉ p.text := by
  cases p with
  | int w n fits => exact not_mem_decimalInt (by decide) (by decide) n
  | str size s valid => simp [Param.text, valid.no_cr]

/-- The parse of the whole text is the parse of its parameters one after the other. -/
theorem parseParamVp_printed (params : List Param) (isStrict : Bool) :
    parseParamVp (formatOf params) (printed params) isStrict =
      parseAll paraseTypeValVp (params.map fun p => (p.cut, p.fmt)) := by
  have hfmt : ∀ c : UInt8, c ≠ 37 ∧ c ≠ 100 ∧ c ≠ 115 ∧ isDigit c = false → c ≠ 44 → c ∉ formatOf params := by
    intro c hc hcomma hmem
    rcases mem_joinComma hmem with h | ⟨s, hs, h⟩
    · exact hcomma h
    · obtain ⟨p, -, rfl⟩ := List.mem_map.mp hs
      exact p.not_mem_fmt hc h
  have hspace : ∀ s ∈ params.map Param.text, s ≠ [] ∧ s.head? ≠ some 32 :=
    List.forall_mem_map.mpr fun p _ => p.text_head
  have hcr : ∀ s ∈ params.map Param.text, 13 ∉ s := List.forall_mem_map.mpr fun p _ => p.cr_not_mem_text
  rw [parseParamVp, printed, parseParam_joinComma hspace hcr
    ⟨hfmt 97 (by decide) (by decide), hfmt 65 (by decide) (by decide)⟩]
  exact parseLoop_joinComma fun p _ => ⟨p.field, p.not_mem_fmt_comma⟩

private theorem lenSize_sized (n : ℕ) :
    lenSize (37 :: decimal n ++ [115]) = if n < 100000 then some (n : ℤ) else none := by
  have hlen : (37 :: decimal n ++ [115]).length - 2 = (decimal n).length := by simp
  have htake : ((37 :: decimal n ++ [115]).drop 1).take (decimal n).length = decimal n := by simp
  have hiff : (decimal n).length ≤ 5 ↔ n < 100000 := decimal_length_le_iff (k := 4)
  rw [lenSize, hlen, htake]
  simp only [hiff]
  split_ifs with h
  · rw [strtol_decimal (by omega)]
  · rfl

theorem getValLimit_sized (n : ℕ) :
    getValLimit (37 :: decimal n ++ [115]) =
      if n < 100000 then some ⟨false, 115, n, 0, 0xffffffff⟩ else none := by
  have hlen : 2 < (37 :: decimal n ++ [115]).length := by
    have := List.length_pos_iff.mpr (decimal_ne_nil n)
    simp only [List.length_append, List.length_cons, List.length_nil]
    omega
  have hbracket : ∀ c : UInt8, c ≠ 37 ∧ c ≠ 115 ∧ isDigit c = false → strchr c (37 :: decimal n ++ [115]) = none := by
    rintro c ⟨h37, h115, hdigit⟩
    refine strchr_eq_none fun hc => ?_
    rcases mem_strFmt (show c ∈ strFmt (some n) from hc) with h | h | h <;> simp_all
  rw [getValLimit, if_pos hlen, hbracket 40 (by decide), hbracket 41 (by decide), hbracket 91 (by decide),
    hbracket 93 (by decide)]
  simp only [lenSize_sized, List.getLast?_append, List.getLast?_singleton, Option.some_or,
    Option.bind_eq_bind, Option.bind_some]
  split_ifs <;> rfl

/-- What an item parser makes of an unsized string. -/
theorem paraseTypeValVp_unsized {s : List UInt8} (hnul : 0 ∉ s) :
    paraseTypeValVp s (strFmt none) =
      some (if skipSpaces s = [] then ⟨.ok, [.unchanged], 0⟩ else ⟨.ok, [.str (skipSpaces s ++ [0])], 1⟩) := by
  have hlimit : getValLimit (strFmt none) = some ⟨false, 115, 0, 0, 0xffffffff⟩ := rfl
  have hskip : skipSpaces (strFmt none) = strFmt none ∧ strFmt none ≠ [] := by decide
  have hcut : cString (skipSpaces s) = skipSpaces s := cString_eq_self fun h => hnul (mem_of_mem_skipSpaces h)
  simp only [paraseTypeValVp, parseItem, hskip.1, hskip.2, if_false, hlimit]
  split_ifs <;> simp_all [parseStr]

/-- A sized string is cut to `size - 1` characters when it fills the size. -/
theorem paraseTypeValVp_sized {s : List UInt8} {n : ℕ} (hnul : 0 ∉ s) (hlen : s.length ≤ n) (hne : s ≠ []) :
    paraseTypeValVp s (strFmt (some n)) =
      if n < 100000 then
        some (if skipSpaces s = [] then ⟨.ok, [.unchanged], 0⟩
          else ⟨.ok, [.str ((skipSpaces s).take (n - 1))], 1⟩)
      else none := by
  have hskip : skipSpaces (strFmt (some n)) = strFmt (some n) := skipSpaces_of_head (by decide) _
  have hcut : cString (skipSpaces s) = skipSpaces s := cString_eq_self fun h => hnul (mem_of_mem_skipSpaces h)
  have hle := (skipSpaces_length_le s).trans hlen
  have hpos : n ≠ 0 := fun h => hne (List.length_eq_zero_iff.mp (by omega))
  have hlimit := getValLimit_sized n
  have htake : parseStr id n (skipSpaces s) = ⟨.ok, [.str ((skipSpaces s).take (n - 1))], 1⟩ := by
    have hsize : ¬(n : ℤ) < (skipSpaces s).length := by omega
    simp only [parseStr, id, hcut, hsize, if_false, Int.natCast_eq_zero, hpos, Int.ofNat_lt]
    split_ifs with hroom
    · rw [List.take_of_length_le le_rfl, List.take_of_length_le (by omega)]
    · rw [show ((n : ℤ) - 1).toNat = n - 1 by omega]
  simp only [paraseTypeValVp, parseItem, hskip]
  rw [if_neg (show strFmt (some n) ≠ [] from List.cons_ne_nil _ _), strFmt, hlimit]
  rcases Nat.lt_or_ge n 100000 with hsize | hsize
  · rw [if_pos hsize, if_pos hsize]
    split_ifs
    · simp
    · simp [htake]
  · rw [if_neg (not_lt.mpr hsize), if_neg (not_lt.mpr hsize)]
    rfl

private theorem take_skipSpaces_eq_iff (s : List UInt8) (k : ℕ) :
    (skipSpaces s).take k = s ↔ s.head? ≠ some 32 ∧ s.length ≤ k := by
  rw [← skipSpaces_eq_self_iff]
  constructor
  · intro h
    have hlen := congrArg List.length h
    have hle := skipSpaces_length_le s
    rw [List.length_take] at hlen
    exact ⟨by rwa [List.take_of_length_le (by omega)] at h, by omega⟩
  · rintro ⟨hskip, hlen⟩
    rw [hskip, List.take_of_length_le hlen]

theorem Param.parse_one {p : Param} {r : Parsed} (h : paraseTypeValVp p.cut p.fmt = some r) :
    r.code = .ok ∧ ∃ x, r.stored = [x] := by
  cases p with
  | int w n fits =>
    rw [Param.cut, Param.fmt, paraseTypeValVp, parseItem_int id fits] at h
    cases h
    exact ⟨rfl, _, rfl⟩
  | str size s valid =>
    rw [Param.cut, Param.fmt] at h
    cases size with
    | none =>
      rw [paraseTypeValVp_unsized valid.no_nul] at h
      split_ifs at h <;> cases h <;> exact ⟨rfl, _, rfl⟩
    | some n =>
      rw [paraseTypeValVp_sized valid.no_nul (valid.length_le n rfl) valid.ne_nil] at h
      split_ifs at h <;> cases h <;> exact ⟨rfl, _, rfl⟩

/-- Exactly the values that survive are stored as they were. -/
theorem Param.holds_iff (p : Param) :
    (∃ r x, paraseTypeValVp p.cut p.fmt = some r ∧ r.stored = [x] ∧ Holds x p) ↔ p.Survives := by
  cases p with
  | int w n fits =>
    refine iff_of_true ⟨_, _, parseItem_int id fits, rfl, rfl, rfl⟩ trivial
  | str size s valid =>
    have hnul : ∀ b ∈ skipSpaces s, b ≠ 0 := fun b hb h => valid.no_nul (h ▸ mem_of_mem_skipSpaces hb)
    have hblank : skipSpaces s = [] → s.head? = some 32 := fun h => by
      by_contra hhead
      rw [← ne_eq, ← skipSpaces_eq_self_iff, h] at hhead
      exact valid.ne_nil hhead.symm
    cases size with
    | none =>
      simp only [Param.cut, Param.fmt, paraseTypeValVp_unsized valid.no_nul, Param.Survives]
      split_ifs with h
      · simp [Holds, hblank h]
      · simp [Holds, cString_append_nul (fun h0 => hnul 0 h0 rfl) [], skipSpaces_eq_self_iff]
    | some n =>
      simp only [Param.cut, Param.fmt,
        paraseTypeValVp_sized valid.no_nul (valid.length_le n rfl) valid.ne_nil, Param.Survives]
      split_ifs with hsize h
      · simp [Holds, hblank h]
      · have htaken : cString ((skipSpaces s).take (n - 1)) = (skipSpaces s).take (n - 1) :=
          cString_eq_self fun h0 => hnul 0 (List.mem_of_mem_take h0) rfl
        have hwhole := take_skipSpaces_eq_iff s (n - 1)
        have hpos := List.length_pos_iff.mpr valid.ne_nil
        simp [Holds, htaken, hwhole, hsize]
        omega
      · simp [hsize]

/-- Printing and parsing give the values back exactly if every value survives, whether or
not the parse is strict. -/
theorem roundTrip_iff (params : List Param) (isStrict : Bool) :
    (∃ r, parseParamVp (formatOf params) (printed params) isStrict = some r ∧ r.code = .ok ∧
        List.Forall₂ Holds r.stored params) ↔
      ∀ p ∈ params, p.Survives := by
  rw [parseParamVp_printed, parseAll_exact_iff fun p _ r => p.parse_one]
  exact forall₂_congr fun p _ => p.holds_iff

/-- A string of exactly as many characters as its item allows is stored cut. -/
theorem not_roundTrip_full :
    ¬∀ (params : List Param) (isStrict : Bool),
      ∃ r, parseParamVp (formatOf params) (printed params) isStrict = some r ∧ r.code = .ok ∧
        List.Forall₂ Holds r.stored params := by
  intro h
  have hvalid : StrValid (some 2) [97, 98] :=
    ⟨by decide, by decide, by decide, by decide, by simp⟩
  obtain ⟨p, x, hp, hx, hholds⟩ := (parseAll_exact_iff fun p _ r => p.parse_one).mp
    (parseParamVp_printed [.str (some 2) [97, 98] hvalid] false ▸ h [.str (some 2) [97, 98] hvalid] false)
    _ List.mem_cons_self
  exact absurd ((Param.holds_iff _).mp ⟨p, x, hp, hx, hholds⟩).2.1 (by decide)

end NbiotXY1100.AtParamRoundTrip
