import NbiotXY1100.CStrings
import Mathlib.Data.List.Forall2

/-! # Parsing the parameters of an AT command

`parse_param_vp` and `parse_param_vp_3` cut the buffer and the format at their commas and
hand each pair to an item parser. They differ in how they look for the closing quote and
in whether the item parser resolves escapes, so the loop takes both as parameters. The
value `none` stands for a failed assertion or a write behind a local array. -/
namespace NbiotXY1100.AtParam
open CStrings

/-- `AT_OK`, `ATERR_PARAM_INVALID` and `ATERR_MORE_PARAM`. -/
inductive AtCode where
  | ok | paramInvalid | moreParam
  deriving DecidableEq, Repr

/-- What happens to the destination of one argument: an integer of some bytes, as an
unsigned number, or the bytes that are copied. -/
inductive Stored where
  | unchanged
  | int (size value : ℕ)
  | str (bytes : List UInt8)
  deriving DecidableEq, Repr

/-- The code, one entry for each argument taken, and the count of `parse_num`. -/
structure Parsed where
  code : AtCode
  stored : List Stored
  parseNum : ℕ
  deriving DecidableEq, Repr

structure ValLimit where
  requiredFlag : Bool
  type : UInt8
  size : ℤ
  minLimit : ℕ
  maxLimit : ℕ

def skipSpaces (s : List UInt8) : List UInt8 := s.dropWhile (· = 32)

/-- The number between `%` and the type, for which `len_str` has five characters. -/
def lenSize (fmt : List UInt8) : Option ℤ :=
  if fmt.length - 2 ≤ 5 then some (strtol ((fmt.drop 1).take (fmt.length - 2))) else none

/-- `(unsigned int)` of a `long`. -/
def toUnsigned (n : ℤ) : ℕ := (n % 2 ^ 32).toNat

/-- The limits between brackets: `fmt` ends before the left one, `inside` begins behind it,
and the right one stands `width` characters into `inside`, if it stands behind it at all. -/
def bracketLimit (requiredFlag : Bool) (fmt inside : List UInt8) (width : Option ℕ) : Option ValLimit := do
  let type ← fmt.getLast?
  let width ← width
  if type ≠ 100 ∧ type ≠ 68 then none
  else
    let (minLimit, maxLimit) ← match strchr 45 inside with
      | some (lower, _) =>
        if lower.length < width then
          let upper := (inside.take width).drop (lower.length + 1)
          some (toUnsigned (strtol (inside.take width)),
            if upper = [] then 0xffffffff else toUnsigned (strtol upper))
        else none
      | none => if width = 0 then some (0, 0xffffffff) else none
    if maxLimit < minLimit then none
    else
      let size ← if 2 < fmt.length then lenSize fmt else some 0
      some ⟨requiredFlag, type, size, minLimit, maxLimit⟩

/-- How far behind the left bracket the right one stands. -/
def bracketWidth (left right : List UInt8) : Option ℕ :=
  if left.length < right.length then some (right.length - left.length - 1) else none

/-- `get_val_limit`; `(` and `)` mark a required parameter, `[` and `]` an optional one. -/
def getValLimit (fmt : List UInt8) : Option ValLimit :=
  if 2 < fmt.length then
    match strchr 40 fmt, strchr 41 fmt, strchr 91 fmt, strchr 93 fmt with
    | none, none, none, none => do
      let type ← fmt.getLast?
      let size ← lenSize fmt
      some ⟨false, type, size, 0, 0xffffffff⟩
    | some (left, inside), some (right, _), none, none => bracketLimit true left inside (bracketWidth left right)
    | none, none, some (left, inside), some (right, _) => bracketLimit false left inside (bracketWidth left right)
    | _, _, _, _ => none
  else fmt.getLast?.map fun type => ⟨false, type, 0, 0, 0xffffffff⟩

def isDigitStr (str : List UInt8) : Bool :=
  let str := match skipSpaces str with
    | 45 :: str => str
    | str => str
  skipSpaces (str.dropWhile isDigit) = [] && str.takeWhile isDigit ≠ []

def isHexChar (c : UInt8) : Bool := isDigit c || (65 ≤ c && c ≤ 70) || (97 ≤ c && c ≤ 102)

/-- The value of a hexadecimal digit, `covertHextoNum`. -/
def covertHextoNum (c : UInt8) : ℕ :=
  if isDigit c then c.toNat - 48 else if c ≤ 90 then c.toNat - 55 else c.toNat - 87

/-- At most eight digits behind "0x" are read; any other character is an error. -/
def hexstr2int (hex : List UInt8) : Option ℕ :=
  match hex with
  | 48 :: x :: digits =>
    if (x = 120 ∨ x = 88) ∧ digits.all isHexChar then
      some ((digits.take 8).foldl (fun val c => (val * 16 + covertHextoNum c) % 2 ^ 32) 0)
    else none
  | _ => none

/-- An integer item of `size` bytes; what "0x" introduces is stored in four bytes. -/
def parseInt (size : ℕ) (str : List UInt8) (limit : ValLimit) : Parsed :=
  let (ret, stored, valTrans, num) :=
    if isDigitStr str then
      (AtCode.ok, Stored.int size (strtol str % 2 ^ (8 * size)).toNat, toUnsigned (strtol str), 1)
    else match hexstr2int str with
      | some val => (AtCode.ok, Stored.int 4 val, val, 0)
      | none => (AtCode.paramInvalid, Stored.unchanged, 0, 0)
  ⟨if valTrans < limit.minLimit ∨ limit.maxLimit < valTrans then .paramInvalid else ret, [stored], num⟩

/-- A string item; a sized one is copied without its last character when it is full. -/
def parseStr (unescape : List UInt8 → List UInt8) (size : ℤ) (str : List UInt8) : Parsed :=
  if size = 0 then ⟨.ok, [.str (cString (unescape str) ++ [0])], 1⟩
  else if size < str.length then ⟨.paramInvalid, [], 0⟩
  else
    let str := cString (unescape str)
    let cpyLen := if (str.length : ℤ) < size then str.length else (size - 1).toNat
    ⟨.ok, [.str (str.take cpyLen)], 1⟩

/-- The item parser, with the way it resolves escapes. -/
def parseItem (unescape : List UInt8 → List UInt8) (str fmt : List UInt8) : Option Parsed :=
  let fmt := skipSpaces fmt
  let str := skipSpaces str
  if fmt = [] then some ⟨.ok, [], 0⟩
  else do
    let limit ← getValLimit fmt
    if str = [] then some ⟨if limit.requiredFlag then .paramInvalid else .ok, [.unchanged], 0⟩
    else if limit.type = 100 ∨ limit.type = 68 then
      if limit.size = 0 ∨ limit.size = 4 then some (parseInt 4 str limit)
      else if limit.size = 1 then some (parseInt 1 str limit)
      else if limit.size = 2 then some (parseInt 2 str limit)
      else none
    else if limit.type = 115 ∨ limit.type = 83 then some (parseStr unescape limit.size str)
    else none

def paraseTypeValVp : List UInt8 → List UInt8 → Option Parsed := parseItem id

/-- The text of the next parameter without its quotes, and what is behind its comma;
`none` when the closing quote is missing. -/
def findParam (findEnd : List UInt8 → Option (List UInt8 × List UInt8)) (buf : List UInt8) :
    Option (List UInt8 × Option (List UInt8)) :=
  match strchr 34 buf, strchr 44 buf with
  | some (before, quoted), some (unquoted, rest) =>
    if before.length < unquoted.length then
      (findEnd quoted).map fun p => (p.1, (strchr 44 p.2).map Prod.snd)
    else some (unquoted, some rest)
  | some (_, quoted), none => (findEnd quoted).map fun p => (p.1, (strchr 44 p.2).map Prod.snd)
  | none, some (unquoted, rest) => some (unquoted, some rest)
  | none, none => some (buf, none)

/-- A later result behind the arguments already stored. -/
def Parsed.andThen (p q : Parsed) : Parsed := ⟨q.code, p.stored ++ q.stored, p.parseNum + q.parseNum⟩

/-- The loop over both texts. Where the buffer has no comma left it becomes empty, where
the format has none left the loop ends. -/
def parseLoop (findEnd : List UInt8 → Option (List UInt8 × List UInt8))
    (parse : List UInt8 → List UInt8 → Option Parsed) (isStrict : Bool) (buf fmt : List UInt8) : Option Parsed :=
  if buf = [] ∧ fmt = [] then some ⟨.ok, [], 0⟩
  else match findParam findEnd buf with
    | none => some ⟨.paramInvalid, [], 0⟩
    | some (str, rest) =>
      match _ : strchr 44 fmt, rest with
      | some (fmt, fmtRest), rest => do
        let p ← parse str fmt
        if p.code ≠ .ok then some p
        else
          let q ← parseLoop findEnd parse isStrict (rest.getD []) fmtRest
          some (p.andThen q)
      | none, some _ => do
        let p ← parse str fmt
        some (if p.code = .ok ∧ isStrict then { p with code := .moreParam } else p)
      | none, none => parse str fmt
termination_by fmt.length
decreasing_by exact strchr_length_lt ‹_›

/-- The work of both functions; "%a" and "%A" take the whole text. -/
def parseParam (findEnd : List UInt8 → Option (List UInt8 × List UInt8))
    (parse : List UInt8 → List UInt8 → Option Parsed) (isStrict : Bool) (fmtParm buf : List UInt8) : Option Parsed :=
  let buf := (skipSpaces buf).takeWhile (· ≠ 13)
  if fmtParm = [37, 97] ∨ fmtParm = [37, 65] then some ⟨.ok, [.str (buf ++ [0])], 0⟩
  else parseLoop findEnd parse isStrict buf fmtParm

def parseParamVp (fmtParm buf : List UInt8) (isStrict : Bool) : Option Parsed :=
  parseParam (strchr 34) paraseTypeValVp isStrict fmtParm buf

/-- A text between commas that the loop cuts to `cut`, as the last one and before others. -/
structure Field (findEnd : List UInt8 → Option (List UInt8 × List UInt8)) (text cut : List UInt8) : Prop where
  ne_nil : text ≠ []
  last : findParam findEnd text = some (cut, none)
  inner : ∀ rest, findParam findEnd (text ++ 44 :: rest) = some (cut, some rest)

def joinComma : List (List UInt8) → List UInt8
  | [] => []
  | [s] => s
  | s :: t :: ss => s ++ 44 :: joinComma (t :: ss)

/-- The parameters handed to the item parser one after the other, up to an error. -/
def parseAll (parse : List UInt8 → List UInt8 → Option Parsed) : List (List UInt8 × List UInt8) → Option Parsed
  | [] => some ⟨.ok, [], 0⟩
  | (cut, fmt) :: items => do
    let p ← parse cut fmt
    if p.code ≠ .ok then some p
    else
      let q ← parseAll parse items
      some (p.andThen q)

theorem Parsed.andThen_done (p : Parsed) :
    (some p).bind (fun p => if p.code ≠ .ok then some p else (some ⟨.ok, [], 0⟩).bind fun q => some (p.andThen q)) =
      some p := by
  obtain ⟨code, stored, parseNum⟩ := p
  cases code <;> simp [Parsed.andThen]

section
variable {findEnd : List UInt8 → Option (List UInt8 × List UInt8)}
variable {parse : List UInt8 → List UInt8 → Option Parsed} {isStrict : Bool}

theorem parseLoop_cons {text cut fmt : List UInt8} (h : Field findEnd text cut) (hfmt : 44 ∉ fmt)
    (buf fmtRest : List UInt8) :
    parseLoop findEnd parse isStrict (text ++ 44 :: buf) (fmt ++ 44 :: fmtRest) =
      (parse cut fmt).bind fun p => if p.code ≠ .ok then some p else
        (parseLoop findEnd parse isStrict buf fmtRest).bind fun q => some (p.andThen q) := by
  rw [parseLoop, if_neg (by simp), h.inner buf]
  simp only
  split
  · next fmt' fmtRest' hcomma =>
    rw [strchr_append hfmt] at hcomma
    cases hcomma
    rfl
  · next hcomma hrest =>
    rw [strchr_append hfmt] at hcomma
    cases hcomma
  · next hcomma hrest => cases hrest

theorem parseLoop_last {text cut fmt : List UInt8} (h : Field findEnd text cut) (hfmt : 44 ∉ fmt) :
    parseLoop findEnd parse isStrict text fmt = parse cut fmt := by
  rw [parseLoop, if_neg (fun hnil => h.ne_nil hnil.1), h.last]
  simp only
  split
  · next hcomma =>
    rw [strchr_eq_none hfmt] at hcomma
    cases hcomma
  · next hrest => cases hrest
  · rfl

/-- What a parse without error stores begins with what its first item stores. -/
theorem parseLoop_first {buf fmt fmtFirst : List UInt8} {r : Parsed} (hne : buf ≠ []) (hcomma : 44 ∉ fmtFirst)
    (hfmt : fmt = fmtFirst ∨ ∃ fmtRest, fmt = fmtFirst ++ 44 :: fmtRest)
    (h : parseLoop findEnd parse isStrict buf fmt = some r) (hok : r.code = .ok) :
    ∃ str rest p, findParam findEnd buf = some (str, rest) ∧ parse str fmtFirst = some p ∧
      p.stored <+: r.stored := by
  rw [parseLoop, if_neg (fun hnil => hne hnil.1)] at h
  cases hfind : findParam findEnd buf with
  | none =>
    rw [hfind] at h
    cases h
    cases hok
  | some found =>
    obtain ⟨str, rest⟩ := found
    rw [hfind] at h
    rcases hfmt with rfl | ⟨fmtRest, rfl⟩
    · have hnone := strchr_eq_none hcomma
      simp only at h
      split at h
      · next hsome => simp [hnone] at hsome
      · obtain ⟨p, hp, hr⟩ := Option.bind_eq_some_iff.mp h
        refine ⟨str, _, p, rfl, hp, ?_⟩
        split_ifs at hr <;> cases hr <;> exact List.prefix_rfl
      · exact ⟨str, _, r, rfl, h, List.prefix_rfl⟩
    · have hsplit := strchr_append hcomma fmtRest
      simp only at h
      split at h
      · next hsome =>
        rw [hsplit] at hsome
        cases hsome
        obtain ⟨p, hp, hr⟩ := Option.bind_eq_some_iff.mp h
        refine ⟨str, _, p, rfl, hp, ?_⟩
        split_ifs at hr
        · cases hr
          exact List.prefix_rfl
        · obtain ⟨q, hq, hqr⟩ := Option.bind_eq_some_iff.mp hr
          cases hqr
          exact List.prefix_append _ _
      · next hnone => simp [hsplit] at hnone
      · next hnone => simp [hsplit] at hnone

/-- Texts joined with commas are parsed one after the other. -/
theorem parseLoop_joinComma {α : Type*} {text cut fmt : α → List UInt8} {items : List α}
    (h : ∀ a ∈ items, Field findEnd (text a) (cut a) ∧ 44 ∉ fmt a) :
    parseLoop findEnd parse isStrict (joinComma (items.map text)) (joinComma (items.map fmt)) =
      parseAll parse (items.map fun a => (cut a, fmt a)) := by
  induction items with
  | nil =>
    rw [parseLoop]
    simp [joinComma, parseAll]
  | cons a items ih =>
    obtain ⟨hfield, hfmt⟩ := h a List.mem_cons_self
    have hrest := ih fun b hb => h b (List.mem_cons_of_mem a hb)
    cases items with
    | nil =>
      simp only [List.map_cons, List.map_nil, joinComma, parseLoop_last hfield hfmt, parseAll]
      cases parse (cut a) (fmt a) with
      | none => rfl
      | some p => exact p.andThen_done.symm
    | cons b items =>
      simp only [List.map_cons, joinComma] at hrest ⊢
      rw [parseLoop_cons hfield hfmt, hrest]
      rfl

/-- Where every item parser stores exactly one argument and finds no error, the whole parse
is right exactly if each item is. -/
theorem parseAll_exact_iff {α : Type*} {cut fmt : α → List UInt8} {holds : Stored → α → Prop} {items : List α}
    (hone : ∀ a ∈ items, ∀ p, parse (cut a) (fmt a) = some p → p.code = .ok ∧ ∃ x, p.stored = [x]) :
    (∃ p, parseAll parse (items.map fun a => (cut a, fmt a)) = some p ∧ p.code = .ok ∧
        List.Forall₂ holds p.stored items) ↔
      ∀ a ∈ items, ∃ p x, parse (cut a) (fmt a) = some p ∧ p.stored = [x] ∧ holds x a := by
  induction items with
  | nil =>
    simp only [List.map_nil, parseAll, List.not_mem_nil, false_implies, implies_true, iff_true]
    exact ⟨_, rfl, rfl, .nil⟩
  | cons a items ih =>
    have hrest := ih fun b hb => hone b (List.mem_cons_of_mem a hb)
    simp only [List.map_cons, parseAll, List.forall_mem_cons, ← hrest]
    cases hp : parse (cut a) (fmt a) with
    | none => simp
    | some p =>
      obtain ⟨hok, x, hx⟩ := hone a List.mem_cons_self p hp
      simp only [Option.bind_eq_bind, Option.bind_some, hok, ne_eq, not_true_eq_false, if_false]
      constructor
      · rintro ⟨r, hr, hcode, hall⟩
        obtain ⟨q, hq, hqr⟩ := Option.bind_eq_some_iff.mp hr
        cases hqr
        simp only [Parsed.andThen, hx, List.singleton_append, List.forall₂_cons] at hcode hall
        exact ⟨⟨p, x, rfl, hx, hall.1⟩, q, hq, hcode, hall.2⟩
      · rintro ⟨⟨p', x', hp', hx', hhead⟩, q, hq, hcode, hall⟩
        cases hp'
        refine ⟨p.andThen q, by rw [hq]; rfl, hcode, ?_⟩
        rw [Parsed.andThen, hx', List.singleton_append]
        exact .cons hhead hall

end

/-- A text without quotes and commas is handed over as it is. -/
theorem field_plain (findEnd : List UInt8 → Option (List UInt8 × List UInt8)) {text : List UInt8}
    (hne : text ≠ []) (hquote : 34 ∉ text) (hcomma : 44 ∉ text) : Field findEnd text text := by
  refine ⟨hne, ?_, fun rest => ?_⟩
  · simp only [findParam, strchr_eq_none hquote, strchr_eq_none hcomma]
  · rw [findParam, strchr_append hcomma, strchr_append_of_not_mem hquote]
    cases hrest : strchr 34 (44 :: rest) with
    | none => rfl
    | some p => exact if_neg (by simp)

theorem findParam_quoted (findEnd : List UInt8 → Option (List UInt8 × List UInt8)) (s : List UInt8) :
    findParam findEnd (34 :: s) = (findEnd s).map fun p => (p.1, (strchr 44 p.2).map Prod.snd) := by
  simp only [findParam, strchr, if_true]
  cases strchr 44 s <;> simp

/-- A text that begins with a quote is cut where the closing quote is found. -/
theorem field_quoted {findEnd : List UInt8 → Option (List UInt8 × List UInt8)} {quoted cut : List UInt8}
    (hlast : findEnd quoted = some (cut, []))
    (hinner : ∀ rest, findEnd (quoted ++ 44 :: rest) = some (cut, 44 :: rest)) :
    Field findEnd (34 :: quoted) cut := by
  refine ⟨List.cons_ne_nil _ _, ?_, fun rest => ?_⟩
  · rw [findParam_quoted, hlast]
    rfl
  · rw [List.cons_append, findParam_quoted, hinner rest]
    simp [strchr]

/-- The widths of "%1d", "%2d" and "%d". -/
inductive Width where
  | one | two | four
  deriving DecidableEq

def Width.fmt : Width → List UInt8
  | .one => [37, 49, 100]
  | .two => [37, 50, 100]
  | .four => [37, 100]

def Width.size : Width → ℕ
  | .one => 1
  | .two => 2
  | .four => 4

theorem Width.mem_fmt {c : UInt8} {w : Width} (h : c ∈ w.fmt) : c = 37 ∨ c = 100 ∨ isDigit c = true := by
  cases w with
  | one =>
    simp only [Width.fmt, List.mem_cons, List.not_mem_nil, or_false] at h
    rcases h with rfl | rfl | rfl <;> decide
  | two =>
    simp only [Width.fmt, List.mem_cons, List.not_mem_nil, or_false] at h
    rcases h with rfl | rfl | rfl <;> decide
  | four =>
    simp only [Width.fmt, List.mem_cons, List.not_mem_nil, or_false] at h
    rcases h with rfl | rfl <;> decide

/-- A `char` or a `short`, with or without sign, or a `long`. -/
def Width.Fits : Width → ℤ → Prop
  | .one, n => -2 ^ 7 ≤ n ∧ n < 2 ^ 8
  | .two, n => -2 ^ 15 ≤ n ∧ n < 2 ^ 16
  | .four, n => -2 ^ 31 ≤ n ∧ n < 2 ^ 31

/-- The `size` bytes of a number. -/
def intBytes (size : ℕ) (n : ℤ) : ℕ := (n % 2 ^ (8 * size)).toNat

theorem skipSpaces_of_not_mem {s : List UInt8} (h : 32 ∉ s) : skipSpaces s = s := by
  cases s with
  | nil => rfl
  | cons c s =>
    have hc : c ≠ 32 := fun hc => h (hc ▸ List.mem_cons_self)
    simp [skipSpaces, hc]

theorem skipSpaces_of_head {c : UInt8} (h : c ≠ 32) (s : List UInt8) : skipSpaces (c :: s) = c :: s := by
  simp [skipSpaces, h]

theorem skipSpaces_length_le (s : List UInt8) : (skipSpaces s).length ≤ s.length :=
  (List.dropWhile_suffix _).length_le

/-- Nothing is stripped exactly if the text does not begin with a space. -/
theorem skipSpaces_eq_self_iff (s : List UInt8) : skipSpaces s = s ↔ s.head? ≠ some 32 := by
  cases s with
  | nil => simp [skipSpaces]
  | cons c s =>
    cases decEq c 32 with
    | isFalse hc => simp [skipSpaces_of_head hc, hc]
    | isTrue hc =>
      subst hc
      have hle := skipSpaces_length_le s
      have hskip : skipSpaces (32 :: s) = skipSpaces s := rfl
      simp only [List.head?_cons, ne_eq, not_true_eq_false, iff_false, hskip]
      intro heq
      rw [heq, List.length_cons] at hle
      omega

theorem mem_of_mem_skipSpaces {c : UInt8} {s : List UInt8} (h : c ∈ skipSpaces s) : c ∈ s :=
  (List.dropWhile_suffix _).subset h

theorem mem_joinComma {c : UInt8} {l : List (List UInt8)} (h : c ∈ joinComma l) : c = 44 ∨ ∃ s ∈ l, c ∈ s := by
  induction l with
  | nil => simp [joinComma] at h
  | cons s l ih =>
    cases l with
    | nil => exact .inr ⟨s, List.mem_cons_self, h⟩
    | cons t l =>
      simp only [joinComma, List.mem_append, List.mem_cons] at h
      rcases h with h | rfl | h
      · exact .inr ⟨s, List.mem_cons_self, h⟩
      · exact .inl rfl
      · rcases ih (by simpa using h) with hc | ⟨u, hu, hcu⟩
        · exact .inl hc
        · exact .inr ⟨u, List.mem_cons_of_mem s hu, hcu⟩

/-- A list of printed parameters and a carriage return reach the loop as they are. -/
theorem parseParam_joinComma {findEnd : List UInt8 → Option (List UInt8 × List UInt8)}
    {parse : List UInt8 → List UInt8 → Option Parsed} {isStrict : Bool} {texts : List (List UInt8)}
    {fmtParm : List UInt8} (hspace : ∀ s ∈ texts, s ≠ [] ∧ s.head? ≠ some 32) (hcr : ∀ s ∈ texts, 13 ∉ s)
    (hfmt : 97 ∉ fmtParm ∧ 65 ∉ fmtParm) (rest : List UInt8) :
    parseParam findEnd parse isStrict fmtParm (joinComma texts ++ 13 :: rest) =
      parseLoop findEnd parse isStrict (joinComma texts) fmtParm := by
  have hskip : skipSpaces (joinComma texts ++ 13 :: rest) = joinComma texts ++ 13 :: rest := by
    cases texts with
    | nil => exact skipSpaces_of_head (by decide) rest
    | cons s l =>
      obtain ⟨hne, hhead⟩ := hspace s List.mem_cons_self
      obtain ⟨c, s, rfl⟩ := List.exists_cons_of_ne_nil hne
      cases l <;> exact skipSpaces_of_head (by simpa using hhead) _
  have hno : 13 ∉ joinComma texts := fun h => by
    rcases mem_joinComma h with h | ⟨s, hs, h⟩
    · exact absurd h (by decide)
    · exact hcr s hs h
  have hcut : (joinComma texts ++ 13 :: rest).takeWhile (· ≠ 13) = joinComma texts := by
    rw [List.takeWhile_append_of_pos fun b hb => by simpa using fun hb13 : b = 13 => hno (hb13 ▸ hb)]
    simp
  have h97 : fmtParm ≠ [37, 97] := fun h => hfmt.1 (by simp [h])
  have h65 : fmtParm ≠ [37, 65] := fun h => hfmt.2 (by simp [h])
  simp only [parseParam, hskip, hcut, h97, h65, or_self, if_false]

theorem isDigitStr_decimalInt (n : ℤ) : isDigitStr (decimalInt n) = true := by
  have hskip : skipSpaces (decimalInt n) = decimalInt n :=
    skipSpaces_of_not_mem (not_mem_decimalInt (by decide) (by decide) n)
  have htake : (decimal n.natAbs).takeWhile isDigit = decimal n.natAbs :=
    List.takeWhile_eq_self_iff.mpr (isDigit_of_mem_decimal _)
  have hdrop : (decimal n.natAbs).dropWhile isDigit = [] :=
    List.dropWhile_eq_nil_iff.mpr (isDigit_of_mem_decimal _)
  have hne := decimal_ne_nil n.natAbs
  have hdigits : ∀ s, s = decimal n.natAbs →
      (skipSpaces (s.dropWhile isDigit) = [] && s.takeWhile isDigit ≠ []) = true := by
    rintro s rfl
    simp [htake, hdrop, hne, skipSpaces]
  rw [isDigitStr, hskip, decimalInt]
  split_ifs
  · exact hdigits _ rfl
  · split
    · next str heq =>
      have h45 : isDigit 45 = true := isDigit_of_mem_decimal n.natAbs 45 (by rw [heq]; exact List.mem_cons_self)
      exact absurd h45 (by decide)
    · exact hdigits _ rfl

theorem Width.Fits.long {w : Width} {n : ℤ} (h : w.Fits n) : -2 ^ 31 ≤ n ∧ n < 2 ^ 31 := by
  cases w <;> simp only [Width.Fits] at h <;> omega

/-- An integer that fits its item is stored as it is. -/
theorem parseItem_int (unescape : List UInt8 → List UInt8) {w : Width} {n : ℤ} (h : w.Fits n) :
    parseItem unescape (decimalInt n) w.fmt = some ⟨.ok, [.int w.size (intBytes w.size n)], 1⟩ := by
  obtain ⟨hlo, hhi⟩ := h.long
  have hskip := skipSpaces_of_not_mem (not_mem_decimalInt (c := 32) (by decide) (by decide) n)
  have hint : ∀ size limit, limit.minLimit = 0 → limit.maxLimit = 0xffffffff →
      parseInt size (decimalInt n) limit = ⟨.ok, [.int size (intBytes size n)], 1⟩ := by
    intro size limit hmin hmax
    have hunsigned : toUnsigned n ≤ 0xffffffff := by
      simp only [toUnsigned]
      omega
    simp [parseInt, isDigitStr_decimalInt, strtol_decimalInt hlo hhi, hmin, hmax, intBytes, hunsigned]
  have hlimit : ∃ limit, getValLimit w.fmt = some limit ∧ limit.type = 100 ∧ limit.minLimit = 0 ∧
      limit.maxLimit = 0xffffffff ∧ (limit.size = w.size ∨ limit.size = 0 ∧ w.size = 4) := by
    cases w with
    | one => exact ⟨_, rfl, rfl, rfl, rfl, .inl (by decide)⟩
    | two => exact ⟨_, rfl, rfl, rfl, rfl, .inl (by decide)⟩
    | four => exact ⟨_, rfl, rfl, rfl, rfl, .inr ⟨rfl, rfl⟩⟩
  obtain ⟨limit, hget, htype, hmin, hmax, hsize⟩ := hlimit
  have hfmt : skipSpaces w.fmt = w.fmt ∧ w.fmt ≠ [] := by cases w <;> decide
  simp only [parseItem, hskip, hfmt.1, hfmt.2, if_false, hget, decimalInt_ne_nil]
  rcases hsize with hsize | ⟨hsize, hfour⟩
  · cases w <;> simp [htype, hsize, Width.size, hint, hmin, hmax]
  · simp [htype, hsize, hfour, hint, hmin, hmax]

end NbiotXY1100.AtParam
