import NbiotXY1100.ByteBuffers
import NbiotXY1100.EscapeBuffer
import NbiotXY1100.StringSearch
import Mathlib.Tactic.Tauto

/-! # The space behind the header of a response line

`ATC_CmdHeaderWithSpaceProc` inserts a space behind the colon of each line header into the
response buffer, which it replaces when the text might not fit. There is no result when a byte
outside the buffer is read or written, or when the assertion fires. -/
namespace NbiotXY1100.HeaderSpace
open ByteBuffers EscapeBuffer StringSearch

/-- `"\r\n+"`. -/
def atLineHeader : List UInt8 := [13, 10, 43]

/-- `"+PSINFO:"`. -/
def psInfo : List UInt8 := [43, 80, 83, 73, 78, 70, 79, 58]

/-- `"+DBGINFO:"`. -/
def dbgInfo : List UInt8 := [43, 68, 66, 71, 73, 78, 70, 79, 58]

/-- The loop of `ATC_GetExtendSpaceNum` from a place in the text on. -/
def countFrom (text : List UInt8) (count : UInt16) : Option UInt16 :=
  match _hheader : strstr atLineHeader text with
  | none => none
  | some none => some count
  | some (some k) =>
    match _hcolon : strstr [58] (text.drop k) with
    | none => none
    | some none => some count
    | some (some j) =>
      match text[k + j + 1]? with
      | none => none
      | some c => countFrom (text.drop (k + j + 1)) (if c ≠ 32 then count + 1 else count)
termination_by text.length
decreasing_by
  have hlt := strstr_lt _hheader
  rw [List.length_drop]
  omega

def getExtendSpaceNum (text : List UInt8) : Option UInt16 := countFrom text 0

/-- `strncpy` to the start of a block. -/
def strncpy (dst src : List UInt8) (n : ℕ) : Option (List UInt8) :=
  let text := (src.take n).takeWhile (· ≠ 0)
  if text.length = n ∨ text.length < src.length then copyIn dst 0 (text ++ List.replicate (n - text.length) 0) else none

/-- The insertion at place `q`; the last space overwrites the terminator. -/
def insertSpace (maxLen : UInt16) (buf : List UInt8) (q : ℕ) : Option (List UInt8) :=
  (strlen buf 0).bind fun total =>
    if maxLen.toNat < total + 1 then none
    else
      (strlen buf q).bind fun n =>
        (if n ≠ 0 then (copyOut buf q (n + 1)).bind (copyIn buf (q + 1)) else some buf).bind fun buf => setByte buf q 32

theorem copyIn_length {bs data out : List UInt8} {o : ℕ} (h : copyIn bs o data = some out) : out.length = bs.length := by
  unfold copyIn at h
  split at h
  next hle =>
    cases h
    exact splice_length hle
  next => cases h

theorem insertSpace_length {maxLen : UInt16} {buf out : List UInt8} {q : ℕ} (h : insertSpace maxLen buf q = some out) :
    out.length = buf.length := by
  obtain ⟨total, -, h⟩ := Option.bind_eq_some_iff.mp h
  split at h
  next => cases h
  next =>
    obtain ⟨n, -, h⟩ := Option.bind_eq_some_iff.mp h
    obtain ⟨mid, hmid, hset⟩ := Option.bind_eq_some_iff.mp h
    rw [setByte_length hset]
    split at hmid
    next =>
      obtain ⟨data, -, hin⟩ := Option.bind_eq_some_iff.mp hmid
      exact copyIn_length hin
    next =>
      cases hmid
      rfl

/-- The loop of `ATC_CmdHeaderWithSpaceProc` from place `p` on. -/
def spaceFrom (maxLen : UInt16) (buf : List UInt8) (p : ℕ) : Option (List UInt8) :=
  match _hheader : strstr atLineHeader (buf.drop p) with
  | none => none
  | some none => some buf
  | some (some k) =>
    match _hcolon : strstr [58] (buf.drop (p + k + atLineHeader.length)) with
    | none => none
    | some none => some buf
    | some (some j) =>
      match buf[p + k + atLineHeader.length + j + 1]? with
      | none => none
      | some c =>
        if c = 32 then spaceFrom maxLen buf (p + k + atLineHeader.length + j + 2)
        else
          match hinsert : insertSpace maxLen buf (p + k + atLineHeader.length + j + 1) with
          | none => none
          | some buf' => spaceFrom maxLen buf' (p + k + atLineHeader.length + j + 2)
termination_by buf.length - p
decreasing_by
  · have hlt := strstr_lt _hheader
    rw [List.length_drop] at hlt
    omega
  · have hlt := strstr_lt _hheader
    have hsame := insertSpace_length hinsert
    rw [List.length_drop] at hlt
    omega

/-- `ATC_CmdHeaderWithSpaceProc`: the buffer and the length that it leaves. -/
def cmdHeaderWithSpaceProc (buf : List UInt8) (len maxLen : UInt16) : Option (List UInt8 × UInt16) :=
  (strstr psInfo buf).bind fun ps =>
    (strstr dbgInfo buf).bind fun dbg =>
      if ps.isSome ∨ dbg.isSome then some (buf, len)
      else
        (getExtendSpaceNum buf).bind fun spaceCnt =>
          if maxLen.toNat < len.toNat + spaceCnt.toNat then
            (strncpy (List.replicate (len.toNat + spaceCnt.toNat + 1) 0) buf len.toNat).bind fun buf =>
              (spaceFrom (len + spaceCnt) buf 0).map fun buf => (buf, len + spaceCnt)
          else (spaceFrom maxLen buf 0).map fun buf => (buf, len + spaceCnt)

/-! ### The text that is meant -/

/-- The first colon behind a line header. -/
def FirstColon (s : List UInt8) (i : ℕ) : Prop :=
  s[i]? = some 58 ∧ ∃ h < i, atLineHeader <+: s.drop h ∧ ∀ j < i, h < j → s[j]? ≠ some 58

instance decidableFirstColon (s : List UInt8) (i : ℕ) : Decidable (FirstColon s i) :=
  inferInstanceAs (Decidable (s[i]? = some 58 ∧ ∃ h < i, atLineHeader <+: s.drop h ∧ ∀ j < i, h < j → s[j]? ≠ some 58))

/-- One space behind the first colon of each line header where none was there. -/
def withSpaces (s : List UInt8) : List UInt8 :=
  s.zipIdx.flatMap fun ci => if FirstColon s ci.2 ∧ s[ci.2 + 1]? ≠ some 32 then [ci.1, 32] else [ci.1]

/-- The same in one pass; `armed` says that there is a header since the last colon. -/
def spaced (armed : Bool) : List UInt8 → List UInt8
  | [] => []
  | c :: s =>
    if c = 58 then
      if armed = true ∧ s.head? ≠ some 32 then 58 :: 32 :: spaced false s else 58 :: spaced false s
    else c :: spaced (armed || atLineHeader.isPrefixOf (c :: s)) s

/-- There is a header in the text before, and no colon behind its start. -/
def Armed (before s : List UInt8) : Prop :=
  ∃ h < before.length, atLineHeader <+: (before ++ s).drop h ∧ ∀ j < before.length, h < j → before[j]? ≠ some 58

theorem firstColon_append (before s : List UInt8) (c : UInt8) :
    FirstColon (before ++ c :: s) before.length ↔ c = 58 ∧ Armed before (c :: s) := by
  have hget : (before ++ c :: s)[before.length]? = some c := by simp
  rw [FirstColon, hget, Option.some.injEq]
  apply and_congr_right
  intro _
  apply exists_congr
  intro h
  apply and_congr_right
  intro _
  apply and_congr_right
  intro _
  apply forall_congr'
  intro j
  apply forall_congr'
  intro hj
  rw [List.getElem?_append_left hj]

theorem armed_colon (before s : List UInt8) : ¬Armed (before ++ [58]) s := by
  rintro ⟨h, hlt, hpre, hno⟩
  rw [List.length_append, List.length_singleton] at hlt hno
  rcases Nat.lt_succ_iff_lt_or_eq.mp hlt with hlt | rfl
  · exact hno before.length (Nat.lt_succ_self _) hlt (by simp)
  · rw [List.append_assoc, List.drop_left] at hpre
    have := (List.cons_prefix_cons.mp hpre).1
    cases this

theorem armed_append {c : UInt8} (hc : c ≠ 58) (before s : List UInt8) :
    Armed (before ++ [c]) s ↔ Armed before (c :: s) ∨ atLineHeader <+: c :: s := by
  have hassoc : before ++ [c] ++ s = before ++ c :: s := by simp
  rw [Armed, Armed, hassoc, List.length_append, List.length_singleton]
  constructor
  · rintro ⟨h, hlt, hpre, hno⟩
    rcases Nat.lt_succ_iff_lt_or_eq.mp hlt with hlt | rfl
    · refine Or.inl ⟨h, hlt, hpre, fun j hj hh => ?_⟩
      have := hno j (Nat.lt_succ_of_lt hj) hh
      rwa [List.getElem?_append_left hj] at this
    · rw [List.drop_left] at hpre
      exact Or.inr hpre
  · rintro (⟨h, hlt, hpre, hno⟩ | hpre)
    · refine ⟨h, Nat.lt_succ_of_lt hlt, hpre, fun j hj hh => ?_⟩
      rcases Nat.lt_succ_iff_lt_or_eq.mp hj with hj | rfl
      · rw [List.getElem?_append_left hj]
        exact hno j hj hh
      · simpa using hc
    · refine ⟨before.length, Nat.lt_succ_self _, by rw [List.drop_left]; exact hpre, fun j hj hh => ?_⟩
      exact absurd hh (by omega)

theorem spaced_eq_flatMap (before s : List UInt8) (armed : Bool) (h : armed = true ↔ Armed before s) :
    (s.zipIdx before.length).flatMap (fun ci =>
      if FirstColon (before ++ s) ci.2 ∧ (before ++ s)[ci.2 + 1]? ≠ some 32 then [ci.1, 32] else [ci.1]) = spaced armed s := by
  induction s generalizing before armed with
  | nil => rfl
  | cons c s ih =>
    have hassoc : before ++ c :: s = before ++ [c] ++ s := by simp
    have hnext : (before ++ c :: s)[before.length + 1]? = s.head? := by
      rw [List.getElem?_append_right (Nat.le_succ _), List.head?_eq_getElem?]
      simp
    have htail := fun armed' => ih (before ++ [c]) armed'
    rw [List.length_append, List.length_singleton, ← hassoc] at htail
    rw [List.zipIdx_cons, List.flatMap_cons, spaced]
    simp only [firstColon_append, hnext, ← h]
    by_cases hc : c = 58
    · subst hc
      rw [htail false (iff_of_false Bool.false_ne_true (armed_colon before s))]
      cases armed
      · simp
      · by_cases hs : s.head? = some 32
        · simp [hs]
        · simp [hs]
    · rw [htail (armed || atLineHeader.isPrefixOf (c :: s))]
      · simp [hc]
      · rw [armed_append hc, ← h, Bool.or_eq_true, List.isPrefixOf_iff_prefix]

theorem withSpaces_eq (s : List UInt8) : withSpaces s = spaced false s := by
  have hnone : ¬Armed [] s := fun ⟨h, hlt, _⟩ => absurd hlt (Nat.not_lt_zero h)
  exact spaced_eq_flatMap [] s false (iff_of_false Bool.false_ne_true hnone)

/-! ### The headers that the loops find -/

theorem spaced_false_cons {c : UInt8} {s : List UInt8} (h : ¬atLineHeader <+: c :: s) :
    spaced false (c :: s) = c :: spaced false s := by
  have hnot : atLineHeader.isPrefixOf (c :: s) = false := by simpa [← List.isPrefixOf_iff_prefix] using h
  rw [spaced, hnot]
  split
  · next hc => simp [hc]
  · rfl

theorem spaced_none {s : List UInt8} (h : find atLineHeader s = none) : spaced false s = s := by
  induction s with
  | nil => rfl
  | cons c s ih =>
    have hpre : ¬atLineHeader <+: c :: s := fun hpre => by simp [find_cons_here hpre] at h
    rw [find_cons_later hpre, Option.map_eq_none_iff] at h
    rw [spaced_false_cons hpre, ih h]

theorem spaced_header {s : List UInt8} {k : ℕ} (h : find atLineHeader s = some k) :
    ∃ a b, s = a ++ atLineHeader ++ b ∧ a.length = k ∧ spaced false s = a ++ atLineHeader ++ spaced true b := by
  induction s generalizing k with
  | nil => cases h
  | cons c s ih =>
    by_cases hpre : atLineHeader <+: c :: s
    · rw [find_cons_here hpre] at h
      cases h
      obtain ⟨b, hb⟩ := hpre
      refine ⟨[], b, hb.symm, rfl, ?_⟩
      rw [← hb]
      rfl
    · rw [find_cons_later hpre] at h
      obtain ⟨j, hj, rfl⟩ := Option.map_eq_some_iff.mp h
      obtain ⟨a, b, rfl, rfl, hsp⟩ := ih hj
      refine ⟨c :: a, b, rfl, rfl, ?_⟩
      rw [spaced_false_cons hpre, hsp]
      rfl

theorem spaced_true_none {s : List UInt8} (h : find [58] s = none) : spaced true s = s := by
  induction s with
  | nil => rfl
  | cons c s ih =>
    have hpre : ¬[58] <+: c :: s := fun hpre => by simp [find_cons_here hpre] at h
    have hc : c ≠ 58 := fun hc => hpre (by simp [hc])
    rw [find_cons_later hpre, Option.map_eq_none_iff] at h
    rw [spaced, if_neg hc, Bool.true_or, ih h]

theorem spaced_true_colon {s : List UInt8} {j : ℕ} (h : find [58] s = some j) :
    ∃ a b, s = a ++ 58 :: b ∧ a.length = j ∧
      spaced true s = a ++ 58 :: (if b.head? = some 32 then spaced false b else 32 :: spaced false b) := by
  induction s generalizing j with
  | nil => cases h
  | cons c s ih =>
    by_cases hc : c = 58
    · subst hc
      rw [find_cons_here (by simp)] at h
      cases h
      refine ⟨[], s, rfl, rfl, ?_⟩
      by_cases hs : s.head? = some 32
      · simp [spaced, hs]
      · simp [spaced, hs]
    · have hpre : ¬[58] <+: c :: s := fun hpre => hc (List.cons_prefix_cons.mp hpre).1.symm
      rw [find_cons_later hpre] at h
      obtain ⟨i, hi, rfl⟩ := Option.map_eq_some_iff.mp h
      obtain ⟨a, b, rfl, rfl, hsp⟩ := ih hi
      refine ⟨c :: a, b, rfl, rfl, ?_⟩
      rw [spaced, if_neg hc, Bool.true_or, hsp]
      rfl

theorem spaced_false_space (s : List UInt8) : spaced false (32 :: s) = 32 :: spaced false s :=
  spaced_false_cons fun h => absurd (List.cons_prefix_cons.mp h).1 (by decide)

theorem le_spaced (armed : Bool) (s : List UInt8) : s.length ≤ (spaced armed s).length := by
  induction s generalizing armed with
  | nil => exact Nat.le_refl 0
  | cons c s ih =>
    rw [spaced]
    split
    · split
      · exact Nat.succ_le_succ (Nat.le_succ_of_le (ih false))
      · exact Nat.succ_le_succ (ih false)
    · exact Nat.succ_le_succ (ih _)

/-- What both loops find in a text: its first header and the first colon behind that. -/
inductive NextColon (s : List UInt8) : Prop where
  | noHeader (hheader : find atLineHeader s = none) (hspaced : spaced false s = s)
  | noColon (a b : List UInt8) (hs : s = a ++ (atLineHeader ++ b)) (hheader : find atLineHeader s = some a.length)
      (hcolon : find [58] b = none) (hspaced : spaced false s = s)
  | colon (a b rest : List UInt8) (hs : s = a ++ (atLineHeader ++ (b ++ 58 :: rest)))
      (hheader : find atLineHeader s = some a.length) (hcolon : find [58] (b ++ 58 :: rest) = some b.length)
      (hspaced : spaced false s = a ++ (atLineHeader ++ (b ++ 58 ::
        (if rest.head? = some 32 then spaced false rest else 32 :: spaced false rest))))

theorem nextColon (s : List UInt8) : NextColon s := by
  cases hheader : find atLineHeader s with
  | none => exact .noHeader hheader (spaced_none hheader)
  | some k =>
    obtain ⟨a, t, rfl, rfl, hsp⟩ := spaced_header hheader
    cases hcolon : find [58] t with
    | none =>
      rw [spaced_true_none hcolon] at hsp
      exact .noColon a t (List.append_assoc _ _ _) hheader hcolon hsp
    | some j =>
      obtain ⟨b, rest, rfl, rfl, hsp'⟩ := spaced_true_colon hcolon
      refine .colon a b rest (List.append_assoc _ _ _) hheader hcolon ?_
      rw [hsp, hsp', List.append_assoc]

/-! ### The two passes -/

theorem atLineHeader_zero : 0 ∉ atLineHeader := by decide

theorem atLineHeader_colon : 58 ∉ atLineHeader := by decide

theorem getElem?_zero_string (s tail : List UInt8) : (s ++ 0 :: tail)[0]? = some (s.head?.getD 0) := by
  cases s with
  | nil => rfl
  | cons c s => rfl

theorem getD_eq_space (s : List UInt8) : s.head?.getD 0 = 32 ↔ s.head? = some 32 := by
  cases s with
  | nil => simp
  | cons c s => simp

/-- The loop ends where there is no further header with a colon. -/
theorem countFrom_end {text : List UInt8} (count : UInt16) (h : strstr atLineHeader text = some none ∨
    ∃ k, strstr atLineHeader text = some (some k) ∧ strstr [58] (text.drop k) = some none) :
    countFrom text count = some count := by
  rw [countFrom]
  rcases h with h | ⟨k, h, hcolon⟩
  · split
    next h' => rw [h] at h'; cases h'
    next => rfl
    next h' => rw [h] at h'; cases h'
  · split
    next h' => rw [h] at h'; cases h'
    next => rfl
    next h' =>
      rw [h] at h'
      cases h'
      split
      next hcolon' => rw [hcolon] at hcolon'; cases hcolon'
      next => rfl
      next hcolon' => rw [hcolon] at hcolon'; cases hcolon'

theorem countFrom_colon {text : List UInt8} {k j : ℕ} {c : UInt8} (count : UInt16)
    (h : strstr atLineHeader text = some (some k)) (hcolon : strstr [58] (text.drop k) = some (some j))
    (hget : text[k + j + 1]? = some c) :
    countFrom text count = countFrom (text.drop (k + j + 1)) (if c ≠ 32 then count + 1 else count) := by
  conv_lhs => rw [countFrom]
  split
  next h' => rw [h] at h'; cases h'
  next h' => rw [h] at h'; cases h'
  next h' =>
    rw [h] at h'
    cases h'
    split
    next hcolon' => rw [hcolon] at hcolon'; cases hcolon'
    next hcolon' => rw [hcolon] at hcolon'; cases hcolon'
    next hcolon' =>
      rw [hcolon] at hcolon'
      cases hcolon'
      simp only [hget]

theorem strstr_colon {s : List UInt8} (hs : 0 ∉ s) (tail : List UInt8) : strstr [58] (s ++ 0 :: tail) = some (find [58] s) :=
  strstr_string (by decide) (by decide) hs tail

theorem strstr_header {s : List UInt8} (hs : 0 ∉ s) (tail : List UInt8) :
    strstr atLineHeader (s ++ 0 :: tail) = some (find atLineHeader s) :=
  strstr_string (by decide) atLineHeader_zero hs tail

/-- The first pass counts the insertions. -/
theorem countFrom_string {s : List UInt8} (hs : 0 ∉ s) (tail : List UInt8) (count : UInt16) {k : ℕ}
    (hk : (spaced false s).length = s.length + k) : countFrom (s ++ 0 :: tail) count = some (count + UInt16.ofNat k) := by
  induction hn : s.length using Nat.strong_induction_on generalizing s count k with
  | _ n ih =>
    have hsearch := strstr_header hs tail
    cases nextColon s with
    | noHeader hheader hspaced =>
      obtain rfl : k = 0 := by rw [hspaced] at hk; omega
      rw [hheader] at hsearch
      rw [countFrom_end count (Or.inl hsearch)]
      simp
    | noColon a b hsplit hheader hcolon hspaced =>
      obtain rfl : k = 0 := by rw [hspaced] at hk; omega
      rw [hheader] at hsearch
      have hb : 0 ∉ atLineHeader ++ b := fun h => hs (hsplit ▸ List.mem_append_right a h)
      have hnone : strstr [58] ((s ++ 0 :: tail).drop a.length) = some none := by
        rw [hsplit, List.append_assoc, List.drop_left, strstr_colon hb, find_singleton_append atLineHeader_colon, hcolon]
        rfl
      rw [countFrom_end count (Or.inr ⟨a.length, hsearch, hnone⟩)]
      simp
    | colon a b rest hsplit hheader hcolon hspaced =>
      rw [hheader] at hsearch
      have hb : 0 ∉ atLineHeader ++ (b ++ 58 :: rest) := fun h => hs (hsplit ▸ List.mem_append_right a h)
      have hrest : 0 ∉ rest := fun h => hb (by simp [h])
      have hsome : strstr [58] ((s ++ 0 :: tail).drop a.length) = some (some (b.length + 3)) := by
        rw [hsplit, List.append_assoc, List.drop_left, strstr_colon hb, find_singleton_append atLineHeader_colon, hcolon]
        rfl
      have hdrop : (s ++ 0 :: tail).drop (a.length + (b.length + 3) + 1) = rest ++ 0 :: tail := by
        have hidx : a.length + (b.length + 3) + 1 = (a ++ (atLineHeader ++ (b ++ [58]))).length := by
          simp [atLineHeader]
          omega
        have happend : s ++ 0 :: tail = (a ++ (atLineHeader ++ (b ++ [58]))) ++ (rest ++ 0 :: tail) := by
          simp [hsplit]
        rw [hidx, happend, List.drop_left]
      have hget : (s ++ 0 :: tail)[a.length + (b.length + 3) + 1]? = some (rest.head?.getD 0) := by
        rw [← getElem?_zero_string rest tail, ← hdrop, List.getElem?_drop]
      have hlt : rest.length < n := by
        rw [← hn, hsplit]
        simp
        omega
      obtain ⟨k', hk'⟩ := Nat.exists_eq_add_of_le (le_spaced false rest)
      rw [countFrom_colon count hsearch hsome hget, hdrop, ih rest.length hlt hrest _ hk' rfl]
      rw [hspaced, hsplit] at hk
      by_cases hspace : rest.head? = some 32
      · obtain rfl : k = k' := by
          simp [hspace] at hk
          omega
        simp [hspace]
      · obtain rfl : k = k' + 1 := by
          simp [hspace] at hk
          omega
        have hne : rest.head?.getD 0 ≠ 32 := fun h => hspace ((getD_eq_space rest).mp h)
        rw [if_pos hne, UInt16.ofNat_add, UInt16.add_assoc, UInt16.add_comm 1]
        rfl

theorem strlen_string (pre : List UInt8) {s : List UInt8} (hs : 0 ∉ s) (tail : List UInt8) :
    strlen (pre ++ (s ++ 0 :: tail)) pre.length = some s.length := by
  apply TextAt.strlen
  constructor
  · intro j hj
    refine ⟨s[j], ?_, fun h0 => hs (h0 ▸ List.getElem_mem hj)⟩
    rw [List.getElem?_append_right (Nat.le_add_right _ _), Nat.add_sub_cancel_left, List.getElem?_append_left hj,
      List.getElem?_eq_getElem hj]
  · rw [List.getElem?_append_right (Nat.le_add_right _ _), Nat.add_sub_cancel_left,
      List.getElem?_append_right (Nat.le_refl _), Nat.sub_self]
    rfl

/-- The rest of the text moves by one place, over the first of the zeros behind it. -/
theorem moveUp (pre : List UInt8) {c : UInt8} {s : List UInt8} (n : ℕ) :
    (copyOut (pre ++ (c :: s ++ 0 :: 0 :: List.replicate n 0)) pre.length ((c :: s).length + 1)).bind
      (copyIn (pre ++ (c :: s ++ 0 :: 0 :: List.replicate n 0)) (pre.length + 1)) =
      some (pre ++ (c :: (c :: s) ++ 0 :: List.replicate n 0)) := by
  have hout : copyOut (pre ++ (c :: s ++ 0 :: 0 :: List.replicate n 0)) pre.length ((c :: s).length + 1) =
      some (c :: s ++ [0]) := by
    rw [copyOut, if_pos (by simp), List.drop_left, List.take_length_add_append]
    rfl
  have hin : (pre ++ (c :: s ++ 0 :: 0 :: List.replicate n 0)).drop (pre.length + 1 + (c :: s ++ [0]).length) =
      List.replicate n 0 := by
    have hsplit : pre ++ (c :: s ++ 0 :: 0 :: List.replicate n 0) = (pre ++ (c :: s ++ [0, 0])) ++ List.replicate n 0 := by
      simp
    have hlen : pre.length + 1 + (c :: s ++ [0]).length = (pre ++ (c :: s ++ [0, 0])).length := by
      simp
      omega
    rw [hsplit, hlen, List.drop_left]
  have htake : (pre ++ (c :: s ++ 0 :: 0 :: List.replicate n 0)).take (pre.length + 1) = pre ++ [c] := by
    rw [List.take_length_add_append]
    rfl
  rw [hout, Option.bind_some, copyIn, if_pos (by simp; omega), splice, htake, hin]
  simp

theorem setByte_append (pre : List UInt8) (b c : UInt8) (s : List UInt8) :
    setByte (pre ++ b :: s) pre.length c = some (pre ++ c :: s) := by
  rw [setByte, if_pos (by simp)]
  simp

/-- The insertion, where a zero is left behind the terminator. -/
theorem insertSpace_string {pre s : List UInt8} (hpre : 0 ∉ pre) (hs : 0 ∉ s) (n : ℕ) {maxLen : UInt16}
    (hmax : pre.length + s.length + 1 ≤ maxLen.toNat) :
    insertSpace maxLen (pre ++ (s ++ 0 :: 0 :: List.replicate n 0)) pre.length =
      some (pre ++ 32 :: (s ++ 0 :: List.replicate n 0)) := by
  have htotal : strlen (pre ++ (s ++ 0 :: 0 :: List.replicate n 0)) 0 = some (pre ++ s).length := by
    have hno : 0 ∉ pre ++ s := fun h => (List.mem_append.mp h).elim hpre hs
    have := strlen_string [] hno (0 :: List.replicate n 0)
    rwa [List.nil_append, List.append_assoc] at this
  have hlen := strlen_string pre hs (0 :: List.replicate n 0)
  rw [insertSpace, htotal, Option.bind_some, if_neg (by rw [List.length_append]; omega), hlen, Option.bind_some]
  cases s with
  | nil =>
    simp only [List.length_nil, ne_eq, not_true_eq_false, if_false, Option.bind_some, List.nil_append]
    exact setByte_append pre 0 32 _
  | cons c s =>
    rw [if_pos (by simp), moveUp, Option.bind_some]
    exact setByte_append pre c 32 _

theorem spaceFrom_end {maxLen : UInt16} {buf : List UInt8} {p : ℕ} (h : strstr atLineHeader (buf.drop p) = some none ∨
    ∃ k, strstr atLineHeader (buf.drop p) = some (some k) ∧
      strstr [58] (buf.drop (p + k + atLineHeader.length)) = some none) :
    spaceFrom maxLen buf p = some buf := by
  rw [spaceFrom]
  rcases h with h | ⟨k, h, hcolon⟩
  · split
    next h' => rw [h] at h'; cases h'
    next => rfl
    next h' => rw [h] at h'; cases h'
  · split
    next h' => rw [h] at h'; cases h'
    next => rfl
    next h' =>
      rw [h] at h'
      cases h'
      split
      next hcolon' => rw [hcolon] at hcolon'; cases hcolon'
      next => rfl
      next hcolon' => rw [hcolon] at hcolon'; cases hcolon'

theorem spaceFrom_colon {maxLen : UInt16} {buf : List UInt8} {p k j : ℕ} {c : UInt8}
    (h : strstr atLineHeader (buf.drop p) = some (some k))
    (hcolon : strstr [58] (buf.drop (p + k + atLineHeader.length)) = some (some j))
    (hget : buf[p + k + atLineHeader.length + j + 1]? = some c) :
    spaceFrom maxLen buf p =
      if c = 32 then spaceFrom maxLen buf (p + k + atLineHeader.length + j + 2)
      else (insertSpace maxLen buf (p + k + atLineHeader.length + j + 1)).bind fun buf =>
        spaceFrom maxLen buf (p + k + atLineHeader.length + j + 2) := by
  conv_lhs => rw [spaceFrom]
  split
  next h' => rw [h] at h'; cases h'
  next h' => rw [h] at h'; cases h'
  next h' =>
    rw [h] at h'
    cases h'
    split
    next hcolon' => rw [hcolon] at hcolon'; cases hcolon'
    next hcolon' => rw [hcolon] at hcolon'; cases hcolon'
    next hcolon' =>
      rw [hcolon] at hcolon'
      cases hcolon'
      simp only [hget]
      split
      · rfl
      · split
        next hinsert => rw [hinsert]; rfl
        next hinsert => rw [hinsert]; rfl

/-- The second pass, from a place where no header is open, into the zeros behind the text. -/
theorem spaceFrom_string {done s : List UInt8} (hdone : 0 ∉ done) (hs : 0 ∉ s) {n m : ℕ} {maxLen : UInt16}
    (hzeros : (spaced false s).length + m = s.length + n) (hmax : done.length + (spaced false s).length ≤ maxLen.toNat) :
    spaceFrom maxLen (done ++ (s ++ 0 :: List.replicate n 0)) done.length =
      some (done ++ (spaced false s ++ 0 :: List.replicate m 0)) := by
  induction hlen : s.length using Nat.strong_induction_on generalizing done s n with
  | _ l ih =>
    have hsearch : strstr atLineHeader ((done ++ (s ++ 0 :: List.replicate n 0)).drop done.length) = some (find atLineHeader s) := by
      rw [List.drop_left]
      exact strstr_header hs _
    cases nextColon s with
    | noHeader hheader hspaced =>
      rw [hspaced] at hzeros ⊢
      obtain rfl : m = n := by omega
      rw [hheader] at hsearch
      exact spaceFrom_end (Or.inl hsearch)
    | noColon a b hsplit hheader hcolon hspaced =>
      rw [hspaced] at hzeros ⊢
      obtain rfl : m = n := by omega
      rw [hheader] at hsearch
      have hb : 0 ∉ b := fun h => hs (by simp [hsplit, h])
      have hnone : strstr [58] ((done ++ (s ++ 0 :: List.replicate m 0)).drop (done.length + a.length + atLineHeader.length)) =
          some none := by
        rw [Nat.add_assoc, List.drop_length_add_append, hsplit, List.append_assoc, List.drop_length_add_append, List.append_assoc, List.drop_left,
          strstr_colon hb, hcolon]
      exact spaceFrom_end (Or.inr ⟨a.length, hsearch, hnone⟩)
    | colon a b rest hsplit hheader hcolon hspaced =>
      rw [hheader] at hsearch
      have hb : 0 ∉ b ++ 58 :: rest := fun h => hs (by
        rw [hsplit]
        exact List.mem_append_right a (List.mem_append_right _ h))
      have hrest : 0 ∉ rest := fun h => hb (by simp [h])
      have hsome : strstr [58] ((done ++ (s ++ 0 :: List.replicate n 0)).drop (done.length + a.length + atLineHeader.length)) =
          some (some b.length) := by
        rw [Nat.add_assoc, List.drop_length_add_append, hsplit, List.append_assoc, List.drop_length_add_append, List.append_assoc, List.drop_left,
          strstr_colon hb, hcolon]
      -- the text up to the colon stays as it is
      obtain ⟨pre, hpre⟩ : ∃ pre, pre = done ++ (a ++ (atLineHeader ++ (b ++ [58]))) := ⟨_, rfl⟩
      have hprelen : done.length + a.length + atLineHeader.length + b.length + 1 = pre.length := by
        rw [hpre]
        simp
        omega
      have hpre0 : 0 ∉ pre := by
        have hsub : 0 ∉ a ++ (atLineHeader ++ (b ++ [58])) := fun h => hs (by
          rw [hsplit]
          simp only [List.mem_append, List.mem_cons] at h ⊢
          tauto)
        rw [hpre]
        exact fun h => (List.mem_append.mp h).elim hdone hsub
      have hbuf : ∀ n, done ++ (s ++ 0 :: List.replicate n 0) = pre ++ (rest ++ 0 :: List.replicate n 0) := by
        intro n
        simp [hpre, hsplit]
      have hgoal : done ++ (spaced false s ++ 0 :: List.replicate m 0) =
          pre ++ ((if rest.head? = some 32 then spaced false rest else 32 :: spaced false rest) ++ 0 :: List.replicate m 0) := by
        simp [hpre, hspaced]
      have hslen : s.length + done.length = pre.length + rest.length := by
        rw [← hprelen, hsplit]
        simp
        omega
      have hget : (done ++ (s ++ 0 :: List.replicate n 0))[done.length + a.length + atLineHeader.length + b.length + 1]? =
          some (rest.head?.getD 0) := by
        rw [hbuf, hprelen, List.getElem?_append_right (Nat.le_refl _), Nat.sub_self]
        exact getElem?_zero_string rest _
      have hspacedlen : (spaced false s).length + done.length =
          pre.length + (if rest.head? = some 32 then spaced false rest else 32 :: spaced false rest).length := by
        have := congrArg List.length hgoal
        simp only [List.length_append] at this
        omega
      have hnext : done.length + a.length + atLineHeader.length + b.length + 2 = pre.length + 1 := by omega
      have hlt : rest.length < l := by
        rw [← hlen, hsplit]
        simp
        omega
      rw [spaceFrom_colon hsearch hsome hget, hgoal, hbuf, hprelen, hnext]
      by_cases hspace : rest.head? = some 32
      · obtain ⟨rest, rfl⟩ : ∃ t, rest = 32 :: t := by
          cases rest with
          | nil => cases hspace
          | cons c t =>
            cases hspace
            exact ⟨t, rfl⟩
        have hdone' : 0 ∉ pre ++ [32] := by simp [hpre0]
        have hrest' : 0 ∉ rest := fun h => hrest (List.mem_cons_of_mem 32 h)
        rw [if_pos hspace, spaced_false_space, List.length_cons] at hspacedlen
        rw [List.length_cons] at hslen hlt
        have hrec := ih rest.length (by omega) hdone' hrest' (n := n) (by omega)
          (by rw [List.length_append, List.length_singleton]; omega) rfl
        rw [if_pos ((getD_eq_space _).mpr hspace), if_pos hspace, spaced_false_space]
        rw [List.length_append, List.length_singleton, List.append_assoc, List.append_assoc] at hrec
        exact hrec
      · have hne : rest.head?.getD 0 ≠ 32 := fun h => hspace ((getD_eq_space rest).mp h)
        have hdone' : 0 ∉ pre ++ [32] := by simp [hpre0]
        rw [if_neg hspace, List.length_cons] at hspacedlen
        have hle := le_spaced false rest
        obtain ⟨n', rfl⟩ : ∃ n', n = n' + 1 := ⟨n - 1, by omega⟩
        have hrec := ih rest.length hlt hdone' hrest (n := n') (by omega)
          (by rw [List.length_append, List.length_singleton]; omega) rfl
        rw [if_neg hne, if_neg hspace, List.replicate_succ, insertSpace_string hpre0 hrest n' (by omega), Option.bind_some]
        rw [List.length_append, List.length_singleton, List.append_assoc, List.append_assoc] at hrec
        exact hrec

/-! ### The whole procedure -/

/-- A text in a zero-filled buffer of `maxLen + 1` bytes. -/
def textBuffer (s : List UInt8) (maxLen : UInt16) : List UInt8 := s ++ List.replicate (maxLen.toNat + 1 - s.length) 0

/-- The procedure leaves the text with its spaces, terminated, and its length. -/
def InsertsExactly (s : List UInt8) (len maxLen : UInt16) : Prop :=
  ∃ tail len', cmdHeaderWithSpaceProc (textBuffer s maxLen) len maxLen = some (withSpaces s ++ 0 :: tail, len') ∧
    len'.toNat = (withSpaces s).length

theorem strstr_missing {key s : List UInt8} (hkey : key ≠ []) (h0 : 0 ∉ key) (hs : 0 ∉ s) (hno : ¬key <:+: s) (tail : List UInt8) :
    strstr key (s ++ 0 :: tail) = some none := by
  have hfind : find key s = none := by
    rw [← Option.not_isSome_iff_eq_none, find_isSome]
    exact hno
  rw [strstr_string hkey h0 hs tail, hfind]

theorem strncpy_string {s : List UInt8} (hs : 0 ∉ s) (tail : List UInt8) (k : ℕ) :
    strncpy (List.replicate (s.length + k + 1) 0) (s ++ 0 :: tail) s.length = some (s ++ 0 :: List.replicate k 0) := by
  have htext : ((s ++ 0 :: tail).take s.length).takeWhile (· ≠ 0) = s := by
    rw [List.take_left, List.takeWhile_eq_self_iff]
    intro c hc
    exact decide_eq_true fun h => hs (h ▸ hc)
  have hzeros : List.replicate (s.length + k + 1 - (0 + s.length)) (0 : UInt8) = 0 :: List.replicate k 0 := by
    rw [show s.length + k + 1 - (0 + s.length) = k + 1 by omega, List.replicate_succ]
  simp only [strncpy, htext, true_or, if_true, Nat.sub_self, List.replicate_zero, List.append_nil]
  rw [copyIn, if_pos (by simp; omega), splice, List.take_zero, List.nil_append, List.drop_replicate, hzeros]

/-- Where the text with its spaces has a sixteen-bit length, it is what the procedure leaves. -/
theorem insertsExactly_of_fits {s : List UInt8} {len maxLen : UInt16} (h0 : 0 ∉ s) (hlen : s.length = len.toNat)
    (hmax : s.length ≤ maxLen.toNat) (hps : ¬psInfo <:+: s) (hdbg : ¬dbgInfo <:+: s) (hfits : (withSpaces s).length < 65536) :
    InsertsExactly s len maxLen := by
  rw [InsertsExactly, withSpaces_eq] at *
  obtain ⟨k, hk⟩ := Nat.exists_eq_add_of_le (le_spaced false s)
  obtain ⟨n, hn⟩ := Nat.exists_eq_add_of_le hmax
  have hbuf : textBuffer s maxLen = s ++ 0 :: List.replicate n 0 := by
    rw [textBuffer, hn, Nat.add_assoc, Nat.add_sub_cancel_left, List.replicate_succ]
  have hcount : getExtendSpaceNum (s ++ 0 :: List.replicate n 0) = some (UInt16.ofNat k) := by
    rw [getExtendSpaceNum, countFrom_string h0 _ 0 hk, UInt16.zero_add]
  have hk16 : k < 65536 := by omega
  have hktoNat : (UInt16.ofNat k).toNat = k := UInt16.toNat_ofNat_of_lt' hk16
  have hsum : (len + UInt16.ofNat k).toNat = (spaced false s).length := by
    rw [UInt16.toNat_add, hktoNat, ← hlen, ← hk]
    exact Nat.mod_eq_of_lt hfits
  have hloop : ∀ (limit : UInt16) (n m : ℕ), (spaced false s).length + m = s.length + n → (spaced false s).length ≤ limit.toNat →
      spaceFrom limit (s ++ 0 :: List.replicate n 0) 0 = some (spaced false s ++ 0 :: List.replicate m 0) := by
    intro limit n m hnm hle
    exact @spaceFrom_string [] s (by simp) h0 n m limit hnm (by simpa using hle)
  have hps' := strstr_missing (by decide) (by decide) h0 hps (List.replicate n 0)
  have hdbg' := strstr_missing (by decide) (by decide) h0 hdbg (List.replicate n 0)
  rw [hbuf, cmdHeaderWithSpaceProc, hps', hdbg', hcount]
  simp only [Option.bind_some, Option.isSome_none, Bool.false_eq_true, or_self, if_false, hktoNat]
  by_cases hroom : maxLen.toNat < len.toNat + k
  · rw [if_pos hroom, ← hlen, strncpy_string h0, Option.bind_some,
      hloop (len + UInt16.ofNat k) k 0 (by omega) hsum.ge]
    exact ⟨_, _, rfl, hsum⟩
  · rw [if_neg hroom, hloop maxLen n (n - k) (by omega) (by omega)]
    exact ⟨_, _, rfl, hsum⟩

/-- The header spaces are inserted exactly if and only if the length of the result is a sixteen-bit
number. -/
theorem insertsExactly_iff {s : List UInt8} {len maxLen : UInt16} (h0 : 0 ∉ s) (hlen : s.length = len.toNat)
    (hmax : s.length ≤ maxLen.toNat) (hps : ¬psInfo <:+: s) (hdbg : ¬dbgInfo <:+: s) :
    InsertsExactly s len maxLen ↔ (withSpaces s).length < 65536 := by
  constructor
  · rintro ⟨tail, len', -, hlen'⟩
    rw [← hlen']
    exact len'.toNat_lt
  · exact insertsExactly_of_fits h0 hlen hmax hps hdbg

/-- `"\r\n+A:1\r\n+B: 2"`. -/
def sampleText : List UInt8 := [13, 10, 43, 65, 58, 49, 13, 10, 43, 66, 58, 32, 50]

theorem insertsExactly_iff_sample : InsertsExactly sampleText 13 13 ↔ (withSpaces sampleText).length < 65536 :=
  insertsExactly_iff (by decide) (by decide) (by decide) (by decide) (by decide)

theorem spaced_no_header {s : List UInt8} (h : 13 ∉ s) : spaced false s = s := by
  induction s with
  | nil => rfl
  | cons c s ih =>
    obtain ⟨hc, hs⟩ := List.ne_and_not_mem_of_not_mem_cons h
    rw [spaced_false_cons fun hpre => hc (List.cons_prefix_cons.mp hpre).1, ih hs]

theorem withSpaces_one_header (n : ℕ) : withSpaces (atLineHeader ++ 58 :: List.replicate n 66) =
    atLineHeader ++ 58 :: 32 :: List.replicate n 66 := by
  have hplain : spaced false (List.replicate n (66 : UInt8)) = List.replicate n 66 :=
    spaced_no_header fun h => absurd (List.eq_of_mem_replicate h) (by decide)
  have hhead : (List.replicate n (66 : UInt8)).head? ≠ some 32 := by
    cases n with
    | zero => simp
    | succ n => simp [List.replicate_succ]
  have hcolon : spaced true (58 :: List.replicate n (66 : UInt8)) = 58 :: 32 :: List.replicate n 66 := by
    rw [spaced, if_pos rfl, if_pos ⟨rfl, hhead⟩, hplain]
  rw [withSpaces_eq, ← hcolon]
  rfl

/-- One header line that fills the buffer. -/
def longText : List UInt8 := atLineHeader ++ 58 :: List.replicate 65531 66

theorem not_insertsExactly : ¬InsertsExactly longText 65535 65535 := by
  rintro ⟨tail, len', -, hlen'⟩
  have hlt : len'.toNat < 65536 := len'.toNat_lt
  rw [hlen', longText, withSpaces_one_header, List.length_append, List.length_cons, List.length_cons,
    List.length_replicate] at hlt
  exact absurd hlt (by decide)

end NbiotXY1100.HeaderSpace
