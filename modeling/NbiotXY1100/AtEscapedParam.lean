import NbiotXY1100.AtParam

/-! # Escaped string parameters

`parse_param_vp_3` finds the closing quote as the first one without a backslash before it,
and only then resolves the escapes. A string that ends in a backslash hides its own
closing quote that way. -/
namespace NbiotXY1100.AtEscapedParam
open CStrings AtParam

/-- `esc_table`: the letter behind the backslash and the character it stands for. -/
def escTable : List (UInt8 × UInt8) :=
  [(97, 7), (98, 8), (102, 12), (110, 10), (114, 13), (116, 9), (118, 11), (63, 63), (92, 92), (39, 39), (34, 34)]

def isOctChar (c : UInt8) : Bool := 48 ≤ c && c ≤ 55

/-- The value of an octal digit. -/
def octValue (c : UInt8) : ℕ := c.toNat - 48

/-- The character that an escape stands for and the number of characters it has behind the
backslash; `p` is the text from there on. -/
def covertEscToAscII (p : List UInt8) : Option (UInt8 × ℕ) :=
  let c₁ := p.getD 0 0
  let c₂ := p.getD 1 0
  let c₃ := p.getD 2 0
  match escTable.lookup c₁ with
  | some c => some (c, 1)
  | none =>
    if c₁ = 120 ∧ isHexChar c₂ ∧ isHexChar c₃ then
      some (UInt8.ofNat (covertHextoNum c₂ * 16 + covertHextoNum c₃), 3)
    else if c₁ = 120 ∧ isHexChar c₂ then some (UInt8.ofNat (covertHextoNum c₂), 2)
    else if isOctChar c₁ ∧ isOctChar c₂ ∧ isOctChar c₃ then
      some (UInt8.ofNat (octValue c₁ * 64 + octValue c₂ * 8 + octValue c₃), 3)
    else if isOctChar c₁ ∧ isOctChar c₂ then some (UInt8.ofNat (octValue c₁ * 8 + octValue c₂), 2)
    else if isOctChar c₁ then some (UInt8.ofNat (octValue c₁), 1)
    else none

/-- Each escape is replaced by its character and what follows it moves up; a backslash at
the end of the text stays. -/
def formatEscapeChar : List UInt8 → List UInt8
  | [] => []
  | c :: rest =>
    if c = 92 ∧ rest ≠ [] then
      match covertEscToAscII rest with
      | some (esc, offset) => esc :: formatEscapeChar (rest.drop offset)
      | none => c :: formatEscapeChar rest
    else c :: formatEscapeChar rest
termination_by s => s.length

/-- The first quote that has no backslash before it; `prev` is the character before the
text. -/
def findNextDoubleQuato (prev : UInt8) : List UInt8 → Option (List UInt8 × List UInt8)
  | [] => none
  | c :: rest =>
    if c = 34 ∧ prev ≠ 92 then some ([], rest)
    else (findNextDoubleQuato c rest).map fun p => (c :: p.1, p.2)

def paraseTypeValVpEsc : List UInt8 → List UInt8 → Option Parsed := parseItem formatEscapeChar

/-- `at_parse_param_3`; the search begins behind the opening quote. -/
def parseParamVp3 (fmtParm buf : List UInt8) : Option Parsed :=
  parseParam (findNextDoubleQuato 34) paraseTypeValVpEsc false fmtParm buf

def escapeChar (c : UInt8) : List UInt8 :=
  if c = 92 then [92, 92] else if c = 34 then [92, 34] else if c = 13 then [92, 114] else [c]

def escape (s : List UInt8) : List UInt8 := s.flatMap escapeChar

inductive Param where
  | int (w : Width) (n : ℤ) (fits : w.Fits n)
  | str (s : List UInt8) (ne_nil : s ≠ []) (no_nul : 0 ∉ s)

def Param.fmt : Param → List UInt8
  | .int w _ _ => w.fmt
  | .str _ _ _ => [37, 115]

def Param.text : Param → List UInt8
  | .int _ n _ => decimalInt n
  | .str s _ _ => 34 :: (escape s ++ [34])

def Param.cut : Param → List UInt8
  | .int _ n _ => decimalInt n
  | .str s _ _ => escape s

def formatOf (params : List Param) : List UInt8 := joinComma (params.map Param.fmt)

def printed (params : List Param) : List UInt8 := joinComma (params.map Param.text) ++ [13]

def Holds : Stored → Param → Prop
  | .int size value, .int w n _ => size = w.size ∧ value = intBytes w.size n
  | .str bytes, .str s _ _ => cString bytes = s
  | _, _ => False

/-- A string neither begins with a space nor ends in a backslash. -/
def Param.Survives : Param → Prop
  | .int _ _ _ => True
  | .str s _ _ => s.head? ≠ some 32 ∧ s.getLast? ≠ some 92

theorem escape_cons (c : UInt8) (s : List UInt8) : escape (c :: s) = escapeChar c ++ escape s := rfl

private theorem formatEscapeChar_pair (s : List UInt8) {c esc : UInt8} (h : escTable.lookup c = some esc) :
    formatEscapeChar (92 :: c :: s) = esc :: formatEscapeChar s := by
  rw [formatEscapeChar, if_pos ⟨rfl, List.cons_ne_nil c s⟩, covertEscToAscII]
  simp only [List.getD_cons_zero, h]
  rfl

private theorem formatEscapeChar_cons (s : List UInt8) {c : UInt8} (h : c ≠ 92) :
    formatEscapeChar (c :: s) = c :: formatEscapeChar s := by
  rw [formatEscapeChar, if_neg fun hc => h hc.1]

/-- Resolving the escapes undoes the escaping, whatever follows. -/
theorem formatEscapeChar_escape (s t : List UInt8) : formatEscapeChar (escape s ++ t) = s ++ formatEscapeChar t := by
  induction s with
  | nil => rfl
  | cons c s ih =>
    rw [escape_cons, escapeChar, List.cons_append, ← ih]
    split_ifs with h92 h34 h13
    · rw [h92]
      exact formatEscapeChar_pair _ rfl
    · rw [h34]
      exact formatEscapeChar_pair _ rfl
    · rw [h13]
      exact formatEscapeChar_pair _ rfl
    · exact formatEscapeChar_cons _ h92

/-- Of the character before the text only matters whether it is a backslash. -/
private theorem findNextDoubleQuato_congr {p q : UInt8} (hp : p ≠ 92) (hq : q ≠ 92) (s : List UInt8) :
    findNextDoubleQuato p s = findNextDoubleQuato q s := by
  cases s with
  | nil => rfl
  | cons c s => simp only [findNextDoubleQuato, hp, hq, ne_eq, not_false_eq_true, and_true]

/-- The closing quote of an escaped string is passed over if the string ends in a backslash. -/
theorem findNextDoubleQuato_escape (prev : UInt8) (s t : List UInt8) :
    findNextDoubleQuato prev (escape s ++ 34 :: t) =
      if s.getLast?.getD prev = 92 then
        (findNextDoubleQuato 34 t).map fun p => (escape s ++ 34 :: p.1, p.2)
      else some (escape s, t) := by
  induction s generalizing prev with
  | nil => simp [escape, findNextDoubleQuato]
  | cons c s ih =>
    have hlast : (c :: s).getLast?.getD prev = s.getLast?.getD c := by
      rw [List.getLast?_cons, Option.getD_some]
    have hstep : ∀ l : List UInt8, findNextDoubleQuato prev (l ++ (escape s ++ 34 :: t)) =
        (findNextDoubleQuato c (escape s ++ 34 :: t)).map (fun p => (l ++ p.1, p.2)) →
        findNextDoubleQuato prev (l ++ escape s ++ 34 :: t) =
          if s.getLast?.getD c = 92 then
            (findNextDoubleQuato 34 t).map fun p => (l ++ escape s ++ 34 :: p.1, p.2)
          else some (l ++ escape s, t) := by
      intro l hl
      rw [List.append_assoc, hl, ih c]
      split_ifs <;> simp [Function.comp_def]
    rw [hlast, escape_cons]
    apply hstep
    rw [escapeChar]
    split_ifs with h92 h34 h13
    · simp [findNextDoubleQuato, h92, Function.comp_def]
    · simp [findNextDoubleQuato, h34, Function.comp_def]
    · rw [h13, findNextDoubleQuato_congr (show 13 ≠ 92 by decide) (show 114 ≠ 92 by decide)]
      simp [findNextDoubleQuato, Function.comp_def]
    · simp [findNextDoubleQuato, h34]

theorem skipSpaces_escape (s t : List UInt8) (h : skipSpaces s ≠ []) :
    skipSpaces (escape s ++ t) = escape (skipSpaces s) ++ t := by
  induction s with
  | nil => exact absurd rfl h
  | cons c s ih =>
    cases decEq c 32 with
    | isTrue hc =>
      subst hc
      exact ih h
    | isFalse hc =>
      have hhead : ∃ d l, escapeChar c = d :: l ∧ d ≠ 32 := by
        rw [escapeChar]
        split_ifs
        · exact ⟨92, _, rfl, by decide⟩
        · exact ⟨92, _, rfl, by decide⟩
        · exact ⟨92, _, rfl, by decide⟩
        · exact ⟨c, _, rfl, hc⟩
      obtain ⟨d, l, hd, hne⟩ := hhead
      rw [skipSpaces_of_head hc, escape_cons, hd]
      exact skipSpaces_of_head hne _

theorem escape_spaces {s : List UInt8} (h : skipSpaces s = []) : skipSpaces (escape s) = [] := by
  induction s with
  | nil => rfl
  | cons c s ih =>
    cases decEq c 32 with
    | isTrue hc =>
      subst hc
      exact ih h
    | isFalse hc =>
      rw [skipSpaces_of_head hc] at h
      cases h

/-- A string item stores what is left of the leading spaces and whatever the search for
the quote took in besides. -/
theorem paraseTypeValVpEsc_str {s : List UInt8} (t : List UInt8) (h : skipSpaces s ≠ []) :
    paraseTypeValVpEsc (escape s ++ t) [37, 115] =
      some ⟨.ok, [.str (cString (skipSpaces s ++ formatEscapeChar t) ++ [0])], 1⟩ := by
  have hlimit : getValLimit [37, 115] = some ⟨false, 115, 0, 0, 0xffffffff⟩ := rfl
  have hfmt : skipSpaces [37, 115] = [37, 115] := rfl
  have hne : escape (skipSpaces s) ++ t ≠ [] := by
    intro hnil
    have hback := formatEscapeChar_escape (skipSpaces s) t
    rw [hnil] at hback
    exact h (List.append_eq_nil_iff.mp (hback.symm.trans (by simp [formatEscapeChar]))).1
  simp only [paraseTypeValVpEsc, parseItem, hfmt, skipSpaces_escape s t h, hlimit]
  simp [hne, parseStr, formatEscapeChar_escape]

theorem paraseTypeValVpEsc_spaces {s : List UInt8} (h : skipSpaces s = []) :
    paraseTypeValVpEsc (escape s) [37, 115] = some ⟨.ok, [.unchanged], 0⟩ := by
  have hlimit : getValLimit [37, 115] = some ⟨false, 115, 0, 0, 0xffffffff⟩ := rfl
  have hfmt : skipSpaces [37, 115] = [37, 115] := rfl
  simp [paraseTypeValVpEsc, parseItem, hfmt, escape_spaces h, hlimit]

/-- A string whose own closing quote the search finds. -/
def Param.Closed : Param → Prop
  | .int _ _ _ => True
  | .str s _ _ => s.getLast? ≠ some 92

theorem Param.Survives.closed {p : Param} (h : p.Survives) : p.Closed := by
  cases p with
  | int w n fits => trivial
  | str s ne_nil no_nul => exact h.2

private theorem findNextDoubleQuato_quoted (s t : List UInt8) :
    findNextDoubleQuato 34 (escape s ++ 34 :: t) =
      if s.getLast? = some 92 then
        (findNextDoubleQuato 34 t).map fun p => (escape s ++ 34 :: p.1, p.2)
      else some (escape s, t) := by
  have hlast : s.getLast?.getD 34 = 92 ↔ s.getLast? = some 92 := by
    cases s.getLast? <;> simp
  simp only [findNextDoubleQuato_escape, hlast]

theorem Param.field {p : Param} (h : p.Closed) : Field (findNextDoubleQuato 34) p.text p.cut := by
  cases p with
  | int w n fits =>
    exact field_plain _ (decimalInt_ne_nil n) (not_mem_decimalInt (by decide) (by decide) n)
      (not_mem_decimalInt (by decide) (by decide) n)
  | str s ne_nil no_nul =>
    have hfind : ∀ t, findNextDoubleQuato 34 (escape s ++ 34 :: t) = some (escape s, t) := fun t => by
      rw [findNextDoubleQuato_quoted, if_neg h]
    refine field_quoted (hfind []) fun rest => ?_
    rw [List.append_assoc]
    exact hfind (44 :: rest)

theorem Param.not_mem_fmt {c : UInt8} (h : c ≠ 37 ∧ c ≠ 100 ∧ c ≠ 115 ∧ isDigit c = false) (p : Param) :
    c ∉ p.fmt := by
  obtain ⟨h37, h100, h115, hdigit⟩ := h
  intro hc
  cases p with
  | int w n fits => rcases Width.mem_fmt hc with h | h | h <;> simp_all
  | str s ne_nil no_nul => simp_all [Param.fmt]

theorem Param.text_head (p : Param) : p.text ≠ [] ∧ p.text.head? ≠ some 32 := by
  cases p with
  | int w n fits =>
    refine ⟨decimalInt_ne_nil n, fun h => ?_⟩
    exact not_mem_decimalInt (by decide) (by decide) n (List.mem_of_mem_head? h)
  | str s ne_nil no_nul => exact ⟨List.cons_ne_nil _ _, by simp [Param.text]⟩

theorem Param.cr_not_mem_text (p : Param) : 13 ∉ p.text := by
  cases p with
  | int w n fits => exact not_mem_decimalInt (by decide) (by decide) n
  | str s ne_nil no_nul =>
    have hescape : 13 ∉ escape s := by
      intro h
      obtain ⟨c, -, hc⟩ := List.mem_flatMap.mp h
      rw [escapeChar] at hc
      split_ifs at hc <;> simp_all
    simp [Param.text, hescape]

theorem Param.parse_one {p : Param} {r : Parsed} (h : paraseTypeValVpEsc p.cut p.fmt = some r) :
    r.code = .ok ∧ ∃ x, r.stored = [x] := by
  cases p with
  | int w n fits =>
    rw [Param.cut, Param.fmt, paraseTypeValVpEsc, parseItem_int formatEscapeChar fits] at h
    cases h
    exact ⟨rfl, _, rfl⟩
  | str s ne_nil no_nul =>
    cases decEq (skipSpaces s) [] with
    | isTrue hs =>
      rw [Param.cut, Param.fmt, paraseTypeValVpEsc_spaces hs] at h
      cases h
      exact ⟨rfl, _, rfl⟩
    | isFalse hs =>
      have hitem := paraseTypeValVpEsc_str [] hs
      rw [List.append_nil] at hitem
      rw [Param.cut, Param.fmt, hitem] at h
      cases h
      exact ⟨rfl, _, rfl⟩

/-- A string is stored without its leading spaces. -/
theorem Param.holds_iff {p : Param} (h : p.Closed) :
    (∃ r x, paraseTypeValVpEsc p.cut p.fmt = some r ∧ r.stored = [x] ∧ Holds x p) ↔ p.Survives := by
  cases p with
  | int w n fits =>
    exact iff_of_true ⟨_, _, parseItem_int formatEscapeChar fits, rfl, rfl, rfl⟩ trivial
  | str s ne_nil no_nul =>
    have hclosed : s.getLast? ≠ some 92 := h
    simp only [Param.cut, Param.fmt, Param.Survives, hclosed, ne_eq, not_false_eq_true, and_true]
    cases decEq (skipSpaces s) [] with
    | isTrue hs =>
      have hself := skipSpaces_eq_self_iff s
      rw [hs] at hself
      simp [paraseTypeValVpEsc_spaces hs, Holds, ← hself, Ne.symm ne_nil]
    | isFalse hs =>
      have hitem := paraseTypeValVpEsc_str [] hs
      have hnul : 0 ∉ skipSpaces s := fun h0 => no_nul (mem_of_mem_skipSpaces h0)
      have hempty : formatEscapeChar [] = [] := by simp [formatEscapeChar]
      rw [List.append_nil, hempty, List.append_nil, cString_eq_self hnul] at hitem
      simp [hitem, Holds, cString_append_nul hnul [], skipSpaces_eq_self_iff]

private theorem joinComma_cons (s : List UInt8) (l : List (List UInt8)) :
    joinComma (s :: l) = s ∨ ∃ rest, joinComma (s :: l) = s ++ 44 :: rest := by
  cases l with
  | nil => exact .inl rfl
  | cons t l => exact .inr ⟨_, rfl⟩

private theorem joinComma_append (s t : List UInt8) (l : List (List UInt8)) :
    ∃ rest, joinComma ((s ++ t) :: l) = s ++ (t ++ rest) := by
  rcases joinComma_cons (s ++ t) l with h | ⟨rest, h⟩
  · exact ⟨[], by simp [h]⟩
  · exact ⟨44 :: rest, by simp [h]⟩

theorem parseParamVp3_printed (params : List Param) :
    parseParamVp3 (formatOf params) (printed params) =
      parseLoop (findNextDoubleQuato 34) paraseTypeValVpEsc false (joinComma (params.map Param.text))
        (formatOf params) := by
  have hfmt : ∀ c : UInt8, c ≠ 37 ∧ c ≠ 100 ∧ c ≠ 115 ∧ isDigit c = false → c ≠ 44 → c ∉ formatOf params := by
    intro c hc hcomma hmem
    rcases mem_joinComma hmem with h | ⟨s, hs, h⟩
    · exact hcomma h
    · obtain ⟨p, -, rfl⟩ := List.mem_map.mp hs
      exact p.not_mem_fmt hc h
  have hspace : ∀ s ∈ params.map Param.text, s ≠ [] ∧ s.head? ≠ some 32 :=
    List.forall_mem_map.mpr fun p _ => p.text_head
  have hcr : ∀ s ∈ params.map Param.text, 13 ∉ s := List.forall_mem_map.mpr fun p _ => p.cr_not_mem_text
  exact parseParam_joinComma hspace hcr ⟨hfmt 97 (by decide) (by decide), hfmt 65 (by decide) (by decide)⟩ []

/-- The item of a string that hides its own closing quote takes in that quote as well. -/
private theorem not_holds_first {s : List UInt8} {ne_nil : s ≠ []} {no_nul : 0 ∉ s} {ps : List Param} {r : Parsed}
    (hopen : s.getLast? = some 92)
    (h : parseLoop (findNextDoubleQuato 34) paraseTypeValVpEsc false
      (joinComma ((Param.str s ne_nil no_nul :: ps).map Param.text)) (formatOf (.str s ne_nil no_nul :: ps)) = some r)
    (hok : r.code = .ok) : ¬List.Forall₂ Holds r.stored (.str s ne_nil no_nul :: ps) := by
  intro hall
  obtain ⟨rest, htext⟩ := joinComma_append (34 :: escape s) [34] (ps.map Param.text)
  have hbuf : joinComma ((Param.str s ne_nil no_nul :: ps).map Param.text) = 34 :: (escape s ++ 34 :: rest) := htext
  rw [hbuf] at h
  obtain ⟨str, rest', p, hfind, hp, hstored⟩ :=
    parseLoop_first (List.cons_ne_nil _ _) (by decide) (joinComma_cons [37, 115] (ps.map Param.fmt)) h hok
  have hcut : ∃ t, str = escape s ++ 34 :: t := by
    have hquote := findNextDoubleQuato_quoted s rest
    rw [if_pos hopen] at hquote
    rw [findParam_quoted, hquote] at hfind
    cases hnext : findNextDoubleQuato 34 rest with
    | none => simp [hnext] at hfind
    | some next =>
      simp only [hnext, Option.map_some, Option.some.injEq, Prod.mk.injEq] at hfind
      exact ⟨_, hfind.1.symm⟩
  obtain ⟨t, rfl⟩ := hcut
  have hspace : skipSpaces s ≠ [] := by
    intro hspaces
    have hall32 := List.dropWhile_eq_nil_iff.mp hspaces 92 (List.mem_of_getLast? hopen)
    exact absurd hall32 (by decide)
  rw [paraseTypeValVpEsc_str _ hspace, formatEscapeChar_cons _ (by decide)] at hp
  cases hp
  obtain ⟨more, hmore⟩ := hstored
  rw [← hmore, List.singleton_append, List.forall₂_cons] at hall
  have hnul : 0 ∉ skipSpaces s := fun h0 => no_nul (mem_of_mem_skipSpaces h0)
  have hstr : skipSpaces s ++ 34 :: cString (formatEscapeChar t) = s := by
    have hbytes : cString (cString (skipSpaces s ++ 34 :: formatEscapeChar t) ++ [0]) = s := hall.1
    rw [cString_append_nul (not_mem_cString _), cString_append hnul] at hbytes
    exact hbytes
  -- Without the leading spaces both sides must still agree, and only the right one gets shorter.
  have hskip := congrArg skipSpaces hstr
  obtain ⟨c, l, hcl⟩ := List.exists_cons_of_ne_nil hspace
  have hc : c ≠ 32 := by
    have hhead := List.head?_dropWhile_not (fun b : UInt8 => b = 32) s
    rw [show s.dropWhile (fun b => b = 32) = c :: l from hcl] at hhead
    simpa using hhead
  rw [hcl, List.cons_append, skipSpaces_of_head hc] at hskip
  simp at hskip

private theorem closed_of_stored {params : List Param} {r : Parsed}
    (h : parseLoop (findNextDoubleQuato 34) paraseTypeValVpEsc false (joinComma (params.map Param.text))
      (formatOf params) = some r)
    (hok : r.code = .ok) (hall : List.Forall₂ Holds r.stored params) : ∀ p ∈ params, p.Closed := by
  induction params generalizing r with
  | nil => simp
  | cons p ps ih =>
    have hclosed : p.Closed := by
      cases p with
      | int w n fits => trivial
      | str s ne_nil no_nul => exact fun hopen => not_holds_first hopen h hok hall
    refine List.forall_mem_cons.mpr ⟨hclosed, ?_⟩
    cases ps with
    | nil => simp
    | cons q ps =>
      have hloop := @parseLoop_cons _ paraseTypeValVpEsc false _ _ _ (Param.field hclosed)
        (p.not_mem_fmt (by decide)) (joinComma ((q :: ps).map Param.text)) (formatOf (q :: ps))
      obtain ⟨r₁, hr₁, hr⟩ := Option.bind_eq_some_iff.mp (hloop.symm.trans h)
      obtain ⟨hok₁, x, hx⟩ := Param.parse_one hr₁
      rw [if_neg (by simp [hok₁])] at hr
      obtain ⟨r₂, hr₂, hr⟩ := Option.bind_eq_some_iff.mp hr
      cases hr
      simp only [Parsed.andThen, hx, List.singleton_append, List.forall₂_cons] at hok hall
      exact ih hr₂ hok hall.2

/-- A list of parameters comes back exactly if no string begins with a space or ends in a
backslash. -/
theorem parse_escaped_iff (params : List Param) :
    (∃ r, parseParamVp3 (formatOf params) (printed params) = some r ∧ r.code = .ok ∧
        List.Forall₂ Holds r.stored params) ↔
      ∀ p ∈ params, p.Survives := by
  rw [parseParamVp3_printed]
  have hitems : (∀ p ∈ params, p.Closed) →
      ((∃ r, parseLoop (findNextDoubleQuato 34) paraseTypeValVpEsc false (joinComma (params.map Param.text))
          (formatOf params) = some r ∧ r.code = .ok ∧ List.Forall₂ Holds r.stored params) ↔
        ∀ p ∈ params, p.Survives) := by
    intro hclosed
    rw [formatOf, parseLoop_joinComma fun p hp => ⟨Param.field (hclosed p hp), p.not_mem_fmt (by decide)⟩,
      parseAll_exact_iff fun p _ r => Param.parse_one]
    exact forall₂_congr fun p hp => Param.holds_iff (hclosed p hp)
  constructor
  · rintro ⟨r, hr, hok, hall⟩
    exact (hitems (closed_of_stored hr hok hall)).mp ⟨r, hr, hok, hall⟩
  · intro hsurvive
    exact (hitems fun p hp => (hsurvive p hp).closed).mpr hsurvive

/-- The closing quote behind a single backslash is taken for an escaped one. -/
theorem not_roundTrip_backslash :
    ¬∀ params : List Param, ∃ r, parseParamVp3 (formatOf params) (printed params) = some r ∧ r.code = .ok ∧
      List.Forall₂ Holds r.stored params := by
  intro h
  have hprinted := parseParamVp3_printed [.str [97, 92] (by decide) (by decide)]
  obtain ⟨r, hr, hok, hall⟩ := h [.str [97, 92] (by decide) (by decide)]
  rw [hprinted] at hr
  exact closed_of_stored hr hok hall _ List.mem_cons_self rfl

end NbiotXY1100.AtEscapedParam
