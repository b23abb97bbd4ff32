import NbiotXY1100.DiagFormatItems

/-! # Packed arguments can be unpacked again

The scan follows the items of the format, and behind what it has stored the buffer is still clear. -/
namespace NbiotXY1100.DiagFormat
open ByteBuffers CStrings

/-- The conversions with a star, h, q, a or n. -/
def Spec.isExcluded (spec : Spec) : Bool :=
  spec.conv == star || spec.conv == 104 || spec.conv == 113 || isUnsupported spec.conv

def precisionFlag : Option (List UInt8) → Bool
  | some (_ :: _) => true
  | _ => false

/-- A space flag with a precision. -/
def Spec.isSpaced (spec : Spec) : Bool := spec.flags.contains 32 && precisionFlag spec.precision

/-- A space flag with a precision, and a floating-point conversion with one l. -/
def Spec.isRejected (spec : Spec) : Bool := spec.isSpaced || isFloat spec.conv && spec.longs == 1

def Item.isRejected : Item → Bool
  | .conv spec => spec.isRejected
  | _ => false

/-! ### The parts of a conversion -/

section Parts
variable (s : List UInt8)

theorem flagBit_space {c : UInt8} {bit : ℕ} (h : flagBit c = some bit) : bit &&& space ≠ 0 ↔ c = 32 := by
  unfold flagBit at h
  split_ifs at h with h1 h2 h3 h4 h5 <;> cases h <;> subst_vars <;> decide

theorem flagLoop_eq (f : ℕ) : ∃ f', flagLoop f (s ++ [0]) = .ok (f', s.dropWhile isFlag ++ [0]) ∧
    (f' &&& space ≠ 0 ↔ f &&& space ≠ 0 ∨ 32 ∈ s.takeWhile isFlag) := by
  induction s generalizing f with
  | nil => exact ⟨f, rfl, by simp⟩
  | cons c s ih =>
    cases hbit : flagBit c with
    | none =>
      have hflag : isFlag c = false := by rw [isFlag, hbit]; rfl
      refine ⟨f, ?_, ?_⟩
      · rw [List.cons_append, flagLoop, hbit, List.dropWhile_cons_of_neg (by rw [hflag]; exact Bool.false_ne_true),
          List.cons_append]
      · rw [List.takeWhile_cons_of_neg (by rw [hflag]; exact Bool.false_ne_true)]
        simp
    | some bit =>
      have hflag : isFlag c = true := by rw [isFlag, hbit]; rfl
      obtain ⟨f', hloop, hspace⟩ := ih (f ||| bit)
      refine ⟨f', ?_, ?_⟩
      · rw [List.cons_append, flagLoop, hbit, List.dropWhile_cons_of_pos hflag]
        exact hloop
      · have hor : (f ||| bit) &&& space ≠ 0 ↔ f &&& space ≠ 0 ∨ bit &&& space ≠ 0 := by
          rw [Nat.and_or_distrib_right, ne_eq, Nat.or_eq_zero_iff, not_and_or]
        rw [hspace, hor, flagBit_space hbit, List.takeWhile_cons_of_pos hflag, List.mem_cons, or_assoc, eq_comm]

theorem skipAtoi_eq : skipAtoi (s ++ [0]) = .ok (s.dropWhile isDigit ++ [0]) := by
  induction s with
  | nil => rfl
  | cons c s ih =>
    rw [List.cons_append, skipAtoi]
    by_cases hc : isDigit c = true
    · rw [if_pos hc, List.dropWhile_cons_of_pos hc]
      exact ih
    · rw [if_neg hc, List.dropWhile_cons_of_neg hc, List.cons_append]

theorem readLongs_other {c : UInt8} (h : c ≠ letterL) : readLongs (c :: s) = (0, c :: s) := by
  cases s with
  | nil => rw [readLongs, if_neg h]
  | cons d s => rw [readLongs, if_neg h]

theorem readPrecision_other {c : UInt8} (h : c ≠ dot) : readPrecision (c :: s) = (none, c :: s) := by
  rw [readPrecision, if_neg h]

theorem fieldWidth_eq (h : s.head? ≠ some star) : fieldWidth (s ++ [0]) = .ok (some (s.dropWhile isDigit ++ [0])) := by
  cases s with
  | nil => rfl
  | cons c s =>
    have hstar : c ≠ star := fun hc => h (by rw [hc]; rfl)
    have hskip := skipAtoi_eq (c :: s)
    rw [List.cons_append] at hskip ⊢
    by_cases hc : isDigit c = true
    · simp only [fieldWidth, deref, Except.bind, if_pos hc, hskip, Except.map]
    · simp only [fieldWidth, deref, Except.bind, if_neg hc, if_neg hstar]
      rw [List.dropWhile_cons_of_neg hc, List.cons_append]

theorem precision_eq (h : ∀ t, s = dot :: t → t.head? ≠ some star) :
    precision (s ++ [0]) = .ok (some (precisionFlag (readPrecision s).1, (readPrecision s).2 ++ [0])) := by
  cases s with
  | nil => rfl
  | cons c s =>
    by_cases hdot : c = dot
    · have hstar := h s (by rw [hdot])
      rw [readPrecision, if_pos hdot, List.cons_append]
      simp only [precision, deref, Except.bind, if_pos hdot, List.tail_cons]
      cases s with
      | nil => rfl
      | cons d s =>
        have hd : d ≠ star := fun hd => hstar (by rw [hd]; rfl)
        have hskip := skipAtoi_eq (d :: s)
        rw [List.cons_append] at hskip ⊢
        by_cases hdigit : isDigit d = true
        · simp only [if_pos hdigit, hskip, Except.map, List.takeWhile_cons_of_pos hdigit, precisionFlag]
        · simp only [if_neg hdigit, if_neg hd, List.takeWhile_cons_of_neg hdigit, precisionFlag,
            List.dropWhile_cons_of_neg hdigit, List.cons_append]
    · rw [readPrecision_other s hdot, List.cons_append]
      simp only [precision, deref, Except.bind, if_neg hdot, precisionFlag]

theorem qualifier_eq (h : s.head? ≠ some 104 ∧ s.head? ≠ some 113) :
    qualifier (s ++ [0]) = .ok (some ((readLongs s).1, (readLongs s).2 ++ [0])) := by
  cases s with
  | nil => rfl
  | cons c s =>
    have hgiven : ¬(c = 104 ∨ c = 113) := by
      rintro (hc | hc)
      · exact h.1 (by rw [hc]; rfl)
      · exact h.2 (by rw [hc]; rfl)
    by_cases hl : c = letterL
    · cases s with
      | nil =>
        subst hl
        rfl
      | cons d s =>
        rw [readLongs, if_pos hl]
        simp only [qualifier, List.cons_append, deref, Except.bind, if_neg hgiven, if_pos hl, List.tail_cons]
        by_cases hd : d = letterL
        · rw [if_pos hd, if_pos hd]
        · rw [if_neg hd, if_neg hd]
          rfl
    · rw [readLongs_other s hl]
      simp only [qualifier, List.cons_append, deref, Except.bind, if_neg hgiven, if_neg hl]

/-- The scan of a conversion finds its parts. -/
theorem directive_eq (hconv : ∀ c ∈ (readFront s).2.head?, c ≠ star ∧ c ≠ 104 ∧ c ≠ 113) :
    ∃ f, directive (s ++ [0]) =
        .ok (some ⟨f, precisionFlag (readFront s).1.precision, (readFront s).1.longs, (readFront s).2 ++ [0]⟩) ∧
      (f &&& space ≠ 0 ↔ 32 ∈ (readFront s).1.flags) := by
  obtain ⟨f, hflags, hspace⟩ := flagLoop_eq s 0
  have hrest : (readFront s).2 = (readLongs (readPrecision ((s.dropWhile isFlag).dropWhile isDigit)).2).2 := rfl
  -- a character at which the scan gives up would be the conversion character
  have hwidth : (s.dropWhile isFlag).head? ≠ some star := by
    intro hhead
    obtain ⟨t, ht⟩ := List.head?_eq_some_iff.mp hhead
    rw [hrest, ht, List.dropWhile_cons_of_neg (by decide), readPrecision_other t (by decide),
      readLongs_other t (by decide)] at hconv
    exact (hconv star rfl).1 rfl
  have hprec : ∀ t, (s.dropWhile isFlag).dropWhile isDigit = dot :: t → t.head? ≠ some star := by
    intro t ht hhead
    obtain ⟨u, rfl⟩ := List.head?_eq_some_iff.mp hhead
    rw [hrest, ht, readPrecision, if_pos rfl, List.dropWhile_cons_of_neg (by decide), readLongs_other u (by decide)] at hconv
    exact (hconv star rfl).1 rfl
  have hqual : ∀ c : UInt8, c ≠ letterL → (c = 104 ∨ c = 113) →
      (readPrecision ((s.dropWhile isFlag).dropWhile isDigit)).2.head? ≠ some c := by
    intro c hl hc hhead
    obtain ⟨t, ht⟩ := List.head?_eq_some_iff.mp hhead
    rw [hrest, ht, readLongs_other t hl] at hconv
    obtain ⟨-, h104, h113⟩ := hconv c rfl
    exact hc.elim h104 h113
  refine ⟨f, ?_, ?_⟩
  · simp only [directive, hflags, Except.bind, fieldWidth_eq _ hwidth, precision_eq _ hprec,
      qualifier_eq _ ⟨hqual 104 (by decide) (.inl rfl), hqual 113 (by decide) (.inr rfl)⟩, Except.map, Option.map_some]
    rfl
  · rw [hspace]
    simp [readFront]

end Parts

/-! ### One argument -/

/-- An argument as far as it fits: a string is cut to the space that is left. -/
def Arg.clip (sz : ℕ) : Arg → Arg
  | .str s => .str (s.take (sz - 1))
  | a => a

/-- The buffer behind what is stored is clear, and pointer and space stay multiples of four. -/
def Scan.at (pfmt packed : List UInt8) (sz : ℕ) (args : List Arg) : Scan :=
  ⟨pfmt, sz, packed ++ List.replicate sz 0, packed.length, args⟩

theorem store_at {pfmt packed bytes : List UInt8} {sz : ℕ} {args : List Arg} (h : bytes.length ≤ sz) :
    store (Scan.at pfmt packed sz args) bytes = .ok (packed ++ bytes ++ List.replicate (sz - bytes.length) 0) := by
  have hfit : packed.length + bytes.length ≤ (packed ++ List.replicate sz (0 : UInt8)).length := by
    rw [List.length_append, List.length_replicate]
    omega
  have hdrop : (packed ++ List.replicate sz (0 : UInt8)).drop (packed.length + bytes.length) =
      List.replicate (sz - bytes.length) 0 := by
    rw [List.drop_append, List.drop_of_length_le (Nat.le_add_right _ _), Nat.add_sub_cancel_left, List.drop_replicate,
      List.nil_append]
  simp only [store, Scan.at, copyIn, if_pos hfit, splice, hdrop, List.take_left]

/-- The state after an argument is stored. -/
def Scan.stored (pfmt packed : List UInt8) (sz : ℕ) (a : Arg) (args : List Arg) : Scan :=
  Scan.at pfmt (packed ++ (a.clip sz).bytes) (sz - (a.clip sz).bytes.length) args

section Stores
variable {pfmt packed : List UInt8} {sz : ℕ} {args : List Arg}

theorem storeWord_at (w : UInt32) (hsz : 8 ≤ sz) :
    storeWord (Scan.at pfmt packed sz (.word w :: args)) = .ok (Scan.stored pfmt packed sz (.word w) args) := by
  have hstore := @store_at pfmt packed (leBytes w) sz (.word w :: args) (Nat.le_trans (by decide : 4 ≤ 8) hsz)
  have hlen : (packed ++ leBytes w).length = packed.length + 4 := List.length_append
  simp only [storeWord, Scan.at] at hstore ⊢
  rw [hstore]
  simp only [Except.map, Scan.stored, Scan.at, Arg.clip, Arg.bytes, leBytes_length, hlen]

theorem storeDword_at (w : UInt64) (hsz : 8 ≤ sz) :
    storeDword (Scan.at pfmt packed sz (.dword w :: args)) = .ok (Scan.stored pfmt packed sz (.dword w) args) := by
  have hstore := @store_at pfmt packed (dwordBytes w) sz (.dword w :: args) hsz
  have hlen : (packed ++ dwordBytes w).length = packed.length + 8 := List.length_append
  simp only [storeDword, Scan.at] at hstore ⊢
  rw [hstore]
  simp only [Except.map, Scan.stored, Scan.at, Arg.clip, Arg.bytes, dwordBytes_length, hlen]

/-- The pointer is aligned as an address and the space by the length, and both agree. -/
theorem wordAlign_address {psrc pos n : ℕ} (hsrc : psrc % 4 = 0) (hpos : pos % 4 = 0) :
    wordAlign (psrc + pos + n) - psrc = pos + wordAlign n := by
  unfold wordAlign
  omega

theorem wordAlign_le {n : ℕ} (h : n ≤ sz) (hsz : sz % 4 = 0) : wordAlign n ≤ sz := by
  unfold wordAlign
  omega

theorem cutLength_eq (pstr : List UInt8) (sz : ℕ) : cutLength sz pstr.length = (pstr.take (sz - 1)).length := by
  rw [cutLength, List.length_take]
  by_cases h : sz - 1 < pstr.length
  · rw [if_pos h, Nat.min_eq_left (Nat.le_of_lt h)]
  · rw [if_neg h, Nat.min_eq_right (Nat.le_of_not_lt h)]

theorem take_cutLength (pstr : List UInt8) (sz : ℕ) : pstr.take (cutLength sz pstr.length) = pstr.take (sz - 1) := by
  rw [cutLength]
  by_cases h : sz - 1 < pstr.length
  · rw [if_pos h]
  · rw [if_neg h, List.take_length, List.take_of_length_le (Nat.le_of_not_lt h)]

theorem storeStr_at {psrc : ℕ} (pstr : List UInt8) (hsz : 8 ≤ sz) (hmod : sz % 4 = 0) (hpos : packed.length % 4 = 0)
    (hsrc : psrc % 4 = 0) :
    storeStr psrc (Scan.at pfmt packed sz (.str pstr :: args)) = .ok (Scan.stored pfmt packed sz (.str pstr) args) := by
  obtain ⟨cut, hcut⟩ : ∃ cut, cut = pstr.take (sz - 1) := ⟨_, rfl⟩
  have hshort : cut.length + 1 ≤ sz := by
    have hle := List.length_take_le (sz - 1) pstr
    rw [hcut]
    omega
  have halign := wordAlign_le hshort hmod
  have hle := le_wordAlign (cut.length + 1)
  have hfirst := @store_at pfmt packed cut sz (.str pstr :: args) (by omega)
  have hsecond := @store_at pfmt (packed ++ cut) [0] (sz - cut.length) (.str pstr :: args)
    (by rw [List.length_singleton]; omega)
  have hlen : (packed ++ cut).length = packed.length + cut.length := List.length_append
  have hclear : [0] ++ List.replicate (sz - cut.length - 1) (0 : UInt8) =
      List.replicate (wordAlign (cut.length + 1) - cut.length) 0 ++
        List.replicate (sz - wordAlign (cut.length + 1)) 0 := by
    have hone : [(0 : UInt8)] = List.replicate 1 0 := rfl
    rw [hone, List.replicate_append_replicate, List.replicate_append_replicate]
    congr 1
    omega
  have haddress := @wordAlign_address psrc packed.length (cut.length + 1) hsrc hpos
  have hstr := str_length cut
  have htotal : (packed ++ (Arg.str cut).bytes).length = packed.length + wordAlign (cut.length + 1) := by
    rw [List.length_append, hstr]
  simp only [Scan.at, hlen] at hfirst hsecond
  have hcutLen : cutLength sz pstr.length = cut.length := by rw [cutLength_eq, ← hcut]
  have htake : pstr.take cut.length = cut := by rw [← hcutLen, take_cutLength, ← hcut]
  simp only [storeStr, Scan.at, hcutLen, htake, hfirst, Except.bind]
  have hstate : store ⟨pfmt, sz, packed ++ cut ++ List.replicate (sz - cut.length) 0, packed.length + cut.length,
      Arg.str pstr :: args⟩ [0] = .ok (packed ++ cut ++ [0] ++ List.replicate (sz - cut.length - [(0 : UInt8)].length) 0) :=
    hsecond
  rw [hstate]
  simp only [Except.map, Scan.stored, Scan.at, Arg.clip, ← hcut, hstr, htotal, haddress, List.length_singleton]
  rw [List.append_assoc (packed ++ cut), hclear, Arg.bytes]
  simp only [List.append_assoc]

end Stores

/-! ### One conversion -/

section Conversions
variable {psrc sz : ℕ} {s rest packed : List UInt8} {args : List Arg} {spec : Spec}

theorem isExcluded_iff : spec.isExcluded = false ↔
    (spec.conv ≠ star ∧ spec.conv ≠ 104 ∧ spec.conv ≠ 113) ∧ isUnsupported spec.conv = false := by
  simp only [Spec.isExcluded, Bool.or_eq_false_iff, beq_eq_false_iff_ne, and_assoc, ne_eq]

theorem isSpaced_iff : spec.isSpaced = true ↔ 32 ∈ spec.flags ∧ precisionFlag spec.precision = true := by
  simp only [Spec.isSpaced, Bool.and_eq_true, List.contains_iff_mem]

theorem isRejected_iff : spec.isRejected = true ↔
    spec.isSpaced = true ∨ (isFloat spec.conv = true ∧ spec.longs = 1) := by
  simp only [Spec.isRejected, Bool.or_eq_true, Bool.and_eq_true, beq_iff_eq]

/-- A conversion without an argument stores nothing. -/
theorem convert_none (hexcluded : spec.isExcluded = false) (htype : spec.argType = none) (st : Scan) :
    convert psrc spec.longs spec.conv st = .ok (some st) := by
  have hunsupported := (isExcluded_iff.mp hexcluded).2
  unfold Spec.argType at htype
  unfold convert
  split at htype
  next => cases htype
  next hint =>
    rw [if_neg hint]
    split at htype
    next => cases htype
    next hptr =>
      rw [if_neg hptr]
      split at htype
      next => cases htype
      next hfloat =>
        rw [if_neg hfloat]
        split at htype
        next => cases htype
        next hstr => rw [if_neg hstr, if_neg (by rw [hunsupported]; exact Bool.false_ne_true)]

/-- A conversion with an argument stores it. -/
theorem convert_some {type : ArgType} {a : Arg} (hrejected : spec.isRejected ≠ true) (htype : spec.argType = some type)
    (ha : a.HasType type) (hsz : 8 ≤ sz) (hmod : sz % 4 = 0) (hpos : packed.length % 4 = 0) (hsrc : psrc % 4 = 0)
    (pfmt : List UInt8) : convert psrc spec.longs spec.conv (Scan.at pfmt packed sz (a :: args)) =
      .ok (some (Scan.stored pfmt packed sz a args)) := by
  unfold Spec.argType at htype
  unfold convert
  split at htype
  next hint =>
    rw [if_pos hint]
    by_cases hlongs : spec.longs = 2
    · rw [if_pos hlongs] at htype
      cases htype
      rw [if_neg (not_not_intro hlongs)]
      cases a with
      | word w => exact ha.elim
      | str pstr => exact ha.elim
      | dword w =>
        rw [storeDword_at w hsz]
        rfl
    · rw [if_neg hlongs] at htype
      cases htype
      rw [if_pos hlongs]
      cases a with
      | dword w => exact ha.elim
      | str pstr => exact ha.elim
      | word w =>
        rw [storeWord_at w hsz]
        rfl
  next hint =>
    rw [if_neg hint]
    split at htype
    next hptr =>
      cases htype
      rw [if_pos hptr]
      cases a with
      | dword w => exact ha.elim
      | str pstr => exact ha.elim
      | word w =>
        rw [storeWord_at w hsz]
        rfl
    next hptr =>
      rw [if_neg hptr]
      split at htype
      next hfloat =>
        cases htype
        have hlongs : spec.longs ≠ 1 := fun h => hrejected (isRejected_iff.mpr (.inr ⟨hfloat, h⟩))
        rw [if_pos hfloat, if_neg hlongs]
        cases a with
        | word w => exact ha.elim
        | str pstr => exact ha.elim
        | dword w =>
          rw [storeDword_at w hsz]
          rfl
      next hfloat =>
        rw [if_neg hfloat]
        split at htype
        next hstr =>
          cases htype
          rw [if_pos hstr]
          cases a with
          | word w => exact ha.elim
          | dword w => exact ha.elim
          | str pstr =>
            rw [storeStr_at pstr hsz hmod hpos hsrc]
            rfl
        next => cases htype

/-- What the body of the loop does at a percent sign: it gives up or goes on behind the conversion. -/
theorem conversion_eq (h : readSpec s = some (spec, rest)) (hexcluded : spec.isExcluded = false) (st : Scan)
    (hpfmt : st.pfmt = percent :: s ++ [0]) : conversion psrc st =
      if spec.isSpaced then .ok none
      else (convert psrc spec.longs spec.conv st).map fun next => next.map fun st => { st with pfmt := rest ++ [0] } := by
  obtain ⟨hfront, hspec⟩ := readSpec_front h
  have hconv : ∀ c ∈ (readFront s).2.head?, c ≠ star ∧ c ≠ 104 ∧ c ≠ 113 := by
    intro c hc
    rw [hfront] at hc
    obtain rfl := Option.some.inj hc
    exact (isExcluded_iff.mp hexcluded).1
  obtain ⟨f, hdirective, hspace⟩ := directive_eq s hconv
  have hparts : (readFront s).1.flags = spec.flags ∧ (readFront s).1.precision = spec.precision ∧
      (readFront s).1.longs = spec.longs := by
    rw [hspec]
    exact ⟨rfl, rfl, rfl⟩
  rw [hparts.1] at hspace
  rw [hparts.2.1, hparts.2.2, hfront] at hdirective
  have htail : st.pfmt.tail = s ++ [0] := by
    rw [hpfmt]
    rfl
  simp only [conversion, htail, hdirective, Except.bind, List.cons_append, deref, List.tail_cons]
  by_cases hgiven : spec.isSpaced = true
  · obtain ⟨hflag, hprec⟩ := isSpaced_iff.mp hgiven
    rw [if_pos hgiven, if_pos ⟨hspace.mpr hflag, hprec⟩]
  · rw [if_neg hgiven, if_neg]
    intro hboth
    exact hgiven (isSpaced_iff.mpr ⟨hspace.mp hboth.1, hboth.2⟩)

theorem conversion_rejected (h : readSpec s = some (spec, rest)) (hexcluded : spec.isExcluded = false)
    (hrejected : spec.isRejected = true) (st : Scan) (hpfmt : st.pfmt = percent :: s ++ [0]) :
    conversion psrc st = .ok none := by
  rw [conversion_eq h hexcluded st hpfmt]
  by_cases hgiven : spec.isSpaced = true
  · rw [if_pos hgiven]
  · rw [if_neg hgiven]
    have hfloat : isFloat spec.conv = true ∧ spec.longs = 1 :=
      (isRejected_iff.mp hrejected).resolve_left hgiven
    have hint : ∀ c : UInt8, isFloat c = true → isInteger c ≠ true ∧ c ≠ 112 := by
      intro c hc
      simp only [isFloat, Bool.or_eq_true, beq_iff_eq, or_assoc] at hc
      rcases hc with rfl | rfl | rfl | rfl | rfl <;> decide
    obtain ⟨hinteger, hptr⟩ := hint _ hfloat.1
    rw [convert, if_neg hinteger, if_neg hptr, if_pos hfloat.1, if_pos hfloat.2]
    rfl

theorem conversion_accepted (h : readSpec s = some (spec, rest)) (hexcluded : spec.isExcluded = false)
    (hrejected : spec.isRejected ≠ true) (st : Scan) (hpfmt : st.pfmt = percent :: s ++ [0]) : conversion psrc st =
      (convert psrc spec.longs spec.conv st).map fun next => next.map fun st => { st with pfmt := rest ++ [0] } := by
  rw [conversion_eq h hexcluded st hpfmt, if_neg]
  exact fun hgiven => hrejected (isRejected_iff.mpr (.inl hgiven))

end Conversions

end NbiotXY1100.DiagFormat
