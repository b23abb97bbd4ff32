import NbiotXY1100.DiagFormat

/-! # Format strings and packed arguments

A format is a sequence of characters and conversions. Each conversion takes at most one argument, and
the receiver walks over the same sequence to read the arguments back. -/
namespace NbiotXY1100.DiagFormat
open ByteBuffers CStrings

/-- A conversion: the flags, the width, the precision behind a dot, the letters l and the conversion
character. -/
structure Spec where
  flags : List UInt8
  width : List UInt8
  precision : Option (List UInt8)
  longs : ℕ
  conv : UInt8
  deriving DecidableEq, Repr

def isFlag (c : UInt8) : Bool := (flagBit c).isSome

def readPrecision : List UInt8 → Option (List UInt8) × List UInt8
  | [] => (none, [])
  | c :: s => if c = dot then (some (s.takeWhile isDigit), s.dropWhile isDigit) else (none, c :: s)

def readLongs : List UInt8 → ℕ × List UInt8
  | [] => (0, [])
  | [c] => if c = letterL then (1, []) else (0, [c])
  | c :: d :: s => if c = letterL then if d = letterL then (2, s) else (1, d :: s) else (0, c :: d :: s)

/-- What stands in front of the conversion character, and the rest from it on. -/
def readFront (s : List UInt8) : Spec × List UInt8 :=
  let width := s.dropWhile isFlag
  let prec := readPrecision (width.dropWhile isDigit)
  let longs := readLongs prec.2
  (⟨s.takeWhile isFlag, width.takeWhile isDigit, prec.1, longs.1, 0⟩, longs.2)

/-- The conversion behind a percent sign and the rest of the format, unless it ends before. -/
def readSpec (s : List UInt8) : Option (Spec × List UInt8) :=
  match (readFront s).2 with
  | [] => none
  | c :: rest => some ({ (readFront s).1 with conv := c }, rest)

inductive Item
  | text (c : UInt8)
  | conv (spec : Spec)
  /-- The format ends within a conversion. -/
  | cut
  deriving DecidableEq, Repr

theorem readPrecision_suffix (s : List UInt8) : (readPrecision s).2 <:+ s := by
  cases s with
  | nil => exact List.suffix_refl _
  | cons c s =>
    rw [readPrecision]
    split
    · exact (List.dropWhile_suffix _).trans (List.suffix_cons c s)
    · exact List.suffix_refl _

theorem readLongs_suffix (s : List UInt8) : (readLongs s).2 <:+ s := by
  match s with
  | [] => exact List.suffix_refl _
  | [c] =>
    rw [readLongs]
    split
    · exact List.suffix_cons c []
    · exact List.suffix_refl _
  | c :: d :: s =>
    rw [readLongs]
    split
    · split
      · exact (List.suffix_cons d s).trans (List.suffix_cons c _)
      · exact List.suffix_cons c _
    · exact List.suffix_refl _

theorem readFront_suffix (s : List UInt8) : (readFront s).2 <:+ s :=
  (readLongs_suffix _).trans ((readPrecision_suffix _).trans
    ((List.dropWhile_suffix isDigit).trans (List.dropWhile_suffix isFlag)))

theorem readSpec_front {s rest : List UInt8} {spec : Spec} (h : readSpec s = some (spec, rest)) :
    (readFront s).2 = spec.conv :: rest ∧ spec = { (readFront s).1 with conv := spec.conv } := by
  unfold readSpec at h
  split at h
  next => cases h
  next c rest' hfront =>
    cases h
    exact ⟨hfront, rfl⟩

theorem readSpec_suffix {s rest : List UInt8} {spec : Spec} (h : readSpec s = some (spec, rest)) :
    spec.conv :: rest <:+ s :=
  (readSpec_front h).1 ▸ readFront_suffix s

theorem readSpec_length {s rest : List UInt8} {spec : Spec} (h : readSpec s = some (spec, rest)) :
    rest.length < s.length :=
  (readSpec_suffix h).length_le

/-- The characters and conversions of a format. -/
def items (fmt : List UInt8) : List Item :=
  match fmt with
  | [] => []
  | c :: s =>
    if c = percent then
      match _hspec : readSpec s with
      | none => [.cut]
      | some (spec, rest) => .conv spec :: items rest
    else .text c :: items s
termination_by fmt.length
decreasing_by
  · exact Nat.lt_succ_of_lt (readSpec_length _hspec)
  · exact Nat.lt_succ_self _

theorem items_text {c : UInt8} (h : c ≠ percent) (s : List UInt8) : items (c :: s) = .text c :: items s := by
  rw [items, if_neg h]

theorem items_conv {s rest : List UInt8} {spec : Spec} (h : readSpec s = some (spec, rest)) :
    items (percent :: s) = .conv spec :: items rest := by
  rw [items, if_pos rfl]
  split
  next hnone => exact nomatch hnone.symm.trans h
  next spec' rest' hsome =>
    cases hsome.symm.trans h
    rfl

theorem items_cut {s : List UInt8} (h : readSpec s = none) : items (percent :: s) = [.cut] := by
  rw [items, if_pos rfl]
  split
  next => rfl
  next spec rest hsome => exact nomatch h.symm.trans hsome

/-- Each item takes at least one character. -/
theorem items_length (fmt : List UInt8) : (items fmt).length ≤ fmt.length := by
  fun_induction items fmt with
  | case1 => exact Nat.le_refl _
  | case2 s _ => exact Nat.succ_le_succ (Nat.zero_le _)
  | case3 s spec rest h ih =>
    have hlen := readSpec_length h
    simp only [List.length_cons]
    omega
  | case4 c s hc ih => exact Nat.succ_le_succ ih

/-! ### Arguments -/

inductive ArgType
  | word
  | dword
  | string
  deriving DecidableEq, Repr

/-- The type of the argument of a conversion, if it takes one. -/
def Spec.argType (spec : Spec) : Option ArgType :=
  if isInteger spec.conv then some (if spec.longs = 2 then .dword else .word)
  else if spec.conv = 112 then some .word
  else if isFloat spec.conv then some .dword
  else if spec.conv = 115 then some .string
  else none

def Item.argType : Item → Option ArgType
  | .conv spec => spec.argType
  | _ => none

/-- An argument of the type; a string holds no terminator. -/
def Arg.HasType : Arg → ArgType → Prop
  | .word _, .word => True
  | .dword _, .dword => True
  | .str s, .string => (0 : UInt8) ∉ s
  | _, _ => False

/-- The arguments match the conversions one by one. -/
def Matches (its : List Item) (args : List Arg) : Prop := List.Forall₂ Arg.HasType args (its.filterMap Item.argType)

/-- The packed form of an argument. -/
def Arg.bytes : Arg → List UInt8
  | .word w => leBytes w
  | .dword w => dwordBytes w
  | .str s => s ++ List.replicate (wordAlign (s.length + 1) - s.length) 0

def ofDwordBytes (bytes : List UInt8) : UInt64 :=
  UInt64.ofNat ((ofLeBytes (bytes.take 4)).toNat + 4294967296 * (ofLeBytes (bytes.drop 4)).toNat)

/-- The receiver reads an argument from the front of the bytes. -/
def readArg : ArgType → List UInt8 → Option (Arg × List UInt8)
  | .word, bytes => if 4 ≤ bytes.length then some (.word (ofLeBytes (bytes.take 4)), bytes.drop 4) else none
  | .dword, bytes => if 8 ≤ bytes.length then some (.dword (ofDwordBytes (bytes.take 8)), bytes.drop 8) else none
  | .string, bytes =>
    let s := bytes.takeWhile (· ≠ 0)
    if wordAlign (s.length + 1) ≤ bytes.length then some (.str s, bytes.drop (wordAlign (s.length + 1))) else none

/-- The walk of the receiver over the format and the bytes. -/
def walk : List Item → List UInt8 → Option (List Arg)
  | [], _ => some []
  | item :: its, bytes =>
    match item.argType with
    | none => walk its bytes
    | some type => (readArg type bytes).bind fun read => (walk its read.2).map (read.1 :: ·)

theorem wordAlign_mod (n : ℕ) : wordAlign n % 4 = 0 := Nat.mul_mod_left _ _

theorem le_wordAlign (n : ℕ) : n ≤ wordAlign n := by
  unfold wordAlign
  omega

theorem dwordBytes_length (w : UInt64) : (dwordBytes w).length = 8 := rfl

theorem ofDwordBytes_dwordBytes (w : UInt64) : ofDwordBytes (dwordBytes w) = w := by
  apply UInt64.toNat_inj.mp
  have hlt := w.toNat_lt
  have hlow : (dwordBytes w).take 4 = leBytes (UInt32.ofNat w.toNat) := List.take_left' rfl
  have hhigh : (dwordBytes w).drop 4 = leBytes (UInt32.ofNat (w.toNat / 4294967296)) := List.drop_left' rfl
  rw [ofDwordBytes, hlow, hhigh, ofLeBytes_leBytes, ofLeBytes_leBytes, UInt32.toNat_ofNat', UInt32.toNat_ofNat',
    UInt64.toNat_ofNat']
  omega

theorem str_length (s : List UInt8) : (Arg.str s).bytes.length = wordAlign (s.length + 1) := by
  have hle := le_wordAlign (s.length + 1)
  rw [Arg.bytes, List.length_append, List.length_replicate]
  omega

theorem bytes_length_mod (a : Arg) : a.bytes.length % 4 = 0 := by
  cases a with
  | word w =>
    change 4 % 4 = 0
    rfl
  | dword w =>
    change 8 % 4 = 0
    rfl
  | str s =>
    rw [str_length]
    exact wordAlign_mod _

/-- The characters of a string end at its terminator. -/
theorem takeWhile_str {s : List UInt8} (h : (0 : UInt8) ∉ s) (rest : List UInt8) :
    ((Arg.str s).bytes ++ rest).takeWhile (· ≠ 0) = s := by
  have hle := le_wordAlign (s.length + 1)
  obtain ⟨n, hn⟩ : ∃ n, wordAlign (s.length + 1) - s.length = n + 1 := ⟨_, (Nat.succ_pred (by omega)).symm⟩
  rw [Arg.bytes, hn, List.replicate_succ, List.append_assoc, List.takeWhile_append_of_pos]
  · rw [List.cons_append, List.takeWhile_cons, if_neg (by simp), List.append_nil]
  · intro c hc
    simp only [ne_eq, decide_eq_true_eq]
    rintro rfl
    exact h hc

theorem readArg_bytes {a : Arg} {type : ArgType} (h : a.HasType type) (rest : List UInt8) :
    readArg type (a.bytes ++ rest) = some (a, rest) := by
  cases a with
  | word w =>
    cases type with
    | word =>
      have htake : ((Arg.word w).bytes ++ rest).take 4 = leBytes w := List.take_left' rfl
      have hdrop : ((Arg.word w).bytes ++ rest).drop 4 = rest := List.drop_left' rfl
      rw [readArg, if_pos (by rw [List.length_append]; exact Nat.le_add_right 4 _), htake, hdrop, ofLeBytes_leBytes]
    | dword => exact h.elim
    | string => exact h.elim
  | dword w =>
    cases type with
    | word => exact h.elim
    | dword =>
      have htake : ((Arg.dword w).bytes ++ rest).take 8 = dwordBytes w := List.take_left' rfl
      have hdrop : ((Arg.dword w).bytes ++ rest).drop 8 = rest := List.drop_left' rfl
      rw [readArg, if_pos (by rw [List.length_append]; exact Nat.le_add_right 8 _), htake, hdrop, ofDwordBytes_dwordBytes]
    | string => exact h.elim
  | str s =>
    cases type with
    | word => exact h.elim
    | dword => exact h.elim
    | string =>
      have hlen := str_length s
      have hdrop : ((Arg.str s).bytes ++ rest).drop (wordAlign (s.length + 1)) = rest := List.drop_left' hlen
      simp only [readArg]
      rw [takeWhile_str h, if_pos (by rw [List.length_append, hlen]; exact Nat.le_add_right _ _), hdrop]

/-- The walk over the packed forms of matching arguments gives the arguments. -/
theorem walk_bytes {its : List Item} {args : List Arg} (h : Matches its args) :
    walk its (args.flatMap Arg.bytes) = some args := by
  induction its generalizing args with
  | nil =>
    cases h
    rfl
  | cons item its ih =>
    unfold Matches at h
    rw [walk]
    cases htype : item.argType with
    | none =>
      rw [List.filterMap_cons_none htype] at h
      exact ih h
    | some type =>
      rw [List.filterMap_cons_some htype] at h
      cases h with
      | cons ha hargs =>
        simp only [List.flatMap_cons]
        rw [readArg_bytes ha, Option.bind_some, ih hargs, Option.map_some]

end NbiotXY1100.DiagFormat
