import NbiotXY1100.FotaByHttpHeader

/-! # The body of an HTTP response from its pieces

Nothing is kept of a piece in which the empty line is not found, apart from the length. The empty line
and the length are found when each of them is in one piece, and then the body is passed on as it comes. -/
namespace NbiotXY1100.FotaByHttp
open CStrings StringSearch

/-- The pieces in which a response can arrive. -/
structure Delivered (r : Response) (pieces : List (List UInt8)) : Prop where
  flatten : pieces.flatten = r.header ++ r.body
  piece : ∀ p ∈ pieces, p ≠ [] ∧ p.length ≤ strbufSize

/-- Data at consecutive positions. -/
def placed (position : UInt32) : List (List UInt8) → List (UInt32 × List UInt8)
  | [] => []
  | chunk :: chunks => (position, chunk) :: placed (position + UInt32.ofNat chunk.length) chunks

/-- The length that a piece gives. -/
def announced (piece : List UInt8) : Option ℤ :=
  match strstr contentLengthKey (buffer piece) with
  | some (some k) => atoi ((buffer piece).drop (k + contentLengthKey.length))
  | _ => none

/-- The first length other than 0 is `n`, and there is one in each piece up to there. -/
def Announces (n : ℤ) : List (List UInt8) → Prop
  | [] => False
  | p :: pieces => announced p = some n ∨ (announced p = some 0 ∧ Announces n pieces)

section
variable {σ : Type} (write : FlashWriter σ) (gRangeOffset : UInt32)

/-- The state of the flash after writes that all succeed. -/
def writeAll (position : UInt32) : List (List UInt8) → σ → Option σ
  | [], flash => some flash
  | chunk :: chunks, flash =>
    match write position chunk flash with
    | some (true, flash) => writeAll (position + UInt32.ofNat chunk.length) chunks flash
    | _ => none

/-- The body is passed on, once and in order, and the loop ends with its length. -/
def Extracts (r : Response) (pieces : List (List UInt8)) (flash : σ) : Prop :=
  ∃ s chunks, httpGet write gRangeOffset pieces (HttpGet.init flash) = some (.done, s) ∧
    s.writes = placed gRangeOffset chunks ∧ chunks.flatten = r.body ∧ s.totalLen = r.body.length

end

theorem placed_data (position : UInt32) (chunks : List (List UInt8)) :
    (placed position chunks).map Prod.snd = chunks := by
  induction chunks generalizing position with
  | nil => rfl
  | cons chunk chunks ih => exact congrArg (chunk :: ·) (ih _)

/-! ## The search in the buffer -/

theorem buffer_eq {p : List UInt8} (h : p.length < strbufSize) : ∃ tail, buffer p = p ++ 0 :: tail := by
  obtain ⟨k, hk⟩ := Nat.exists_eq_succ_of_ne_zero (Nat.sub_ne_zero_of_lt h)
  exact ⟨List.replicate k 0, by rw [buffer, hk, List.replicate_succ]⟩

theorem buffer_full {p : List UInt8} (h : p.length = strbufSize) : buffer p = p := by
  rw [buffer, h, Nat.sub_self, List.replicate_zero, List.append_nil]

private theorem strstr_buffer_none {key p : List UInt8} (hkey : key ≠ []) (hzero : 0 ∉ key) (hp : 0 ∉ p)
    (hlen : p.length < strbufSize) (hnone : ¬key <:+: p) : strstr key (buffer p) = some none := by
  obtain ⟨tail, htail⟩ := buffer_eq hlen
  rw [htail, strstr_string hkey hzero hp, Option.some_inj, ← Option.not_isSome_iff_eq_none, find_isSome]
  exact hnone

/-- A piece that fills the buffer is a string without an end. -/
theorem bodyStart_full {p : List UInt8} (hp : 0 ∉ p) (hlen : p.length = strbufSize) (hnone : ¬lfLf <:+: p) :
    bodyStart (buffer p) = none := by
  rw [bodyStart, buffer_full hlen, strstr_unterminated hp hnone]
  rfl

theorem bodyStart_none {p : List UInt8} (hp : 0 ∉ p) (hlen : p.length < strbufSize) (hlf : ¬lfLf <:+: p)
    (hcrlf : ¬crLfCrLf <:+: p) : bodyStart (buffer p) = some none := by
  rw [bodyStart, strstr_buffer_none (by decide) (by decide) hp hlen hlf]
  change (strstr crLfCrLf (buffer p)).map _ = _
  rw [strstr_buffer_none (by decide) (by decide) hp hlen hcrlf]
  rfl

/-- What stands before the place that is taken for the start of the body. -/
theorem bodyStart_some {p : List UInt8} {k : ℕ} (h : bodyStart (buffer p) = some (some k)) :
    (∃ a s, buffer p = a ++ lfLf ++ s ∧ k = a.length + 2) ∨
      (∃ a s, buffer p = a ++ crLfCrLf ++ s ∧ k = a.length + 4 ∧ strstr lfLf (buffer p) = some none) := by
  have hsplit : ∀ {key : List UInt8} {j : ℕ}, strstr key (buffer p) = some (some j) →
      ∃ a s, buffer p = a ++ key ++ s ∧ j = a.length := by
    intro key j hj
    obtain ⟨s, hs⟩ := strstr_some hj
    refine ⟨(buffer p).take j, s, ?_, (List.length_take_of_le (Nat.le_of_lt (strstr_lt hj))).symm⟩
    rw [List.append_assoc, hs, List.take_append_drop]
  rw [bodyStart] at h
  cases hlf : strstr lfLf (buffer p) with
  | none => rw [hlf] at h; cases h
  | some place =>
    rw [hlf] at h
    cases place with
    | some j =>
      obtain ⟨a, s, hs, rfl⟩ := hsplit hlf
      cases h
      exact .inl ⟨a, s, hs, rfl⟩
    | none =>
      obtain ⟨found, hfound, hk⟩ := Option.map_eq_some_iff.mp h
      obtain ⟨j, rfl, rfl⟩ := Option.map_eq_some_iff.mp hk
      obtain ⟨a, s, hs, rfl⟩ := hsplit hfound
      exact .inr ⟨a, s, hs, rfl, rfl⟩

/-! ## The pieces up to the body -/

/-- The length once a piece is read. -/
def lengthAfter (n : ℤ) (piece : List UInt8) : Option ℤ := if n = 0 then announced piece else some n

def heard (n : ℤ) : List (List UInt8) → Option ℤ
  | [] => some n
  | p :: pieces => (lengthAfter n p).bind fun m => heard m pieces

theorem heard_of_ne_zero {n : ℤ} (hn : n ≠ 0) (pieces : List (List UInt8)) : heard n pieces = some n := by
  induction pieces with
  | nil => rfl
  | cons p pieces ih => rw [heard, lengthAfter, if_neg hn]; exact ih

theorem heard_zero {n : ℤ} (hn : n ≠ 0) (pieces : List (List UInt8)) : heard 0 pieces = some n ↔ Announces n pieces := by
  induction pieces with
  | nil => exact iff_of_false (fun h => hn (Option.some.inj h).symm) id
  | cons p pieces ih =>
    rw [heard, lengthAfter, if_pos rfl, Announces, ← ih]
    cases announced p with
    | none => simp
    | some m =>
      by_cases hm : m = 0
      · simp [hm, Ne.symm hn]
      · simp [hm, heard_of_ne_zero hm]

section
variable {σ : Type} {write : FlashWriter σ} {gRangeOffset : UInt32}

def waiting (n : ℤ) (flash : σ) : HttpGet σ := ⟨false, n, n, 0, [], flash⟩

def writing (n : ℤ) (total : ℕ) (writes : List (UInt32 × List UInt8)) (flash : σ) : HttpGet σ :=
  ⟨true, n - total, n, total, writes, flash⟩

theorem writing_contentlen (n : ℤ) (total : ℕ) (writes : List (UInt32 × List UInt8)) (flash : σ) :
    (writing n total writes flash).contentlen = 0 ↔ n = total := Int.sub_eq_zero

theorem readLength_waiting (n : ℤ) (flash : σ) (p : List UInt8) :
    (readLength (buffer p) (waiting n flash) = some none ∧ lengthAfter n p = none) ∨
      readLength (buffer p) (waiting n flash) = (lengthAfter n p).map fun m => some (waiting m flash) := by
  rw [readLength, lengthAfter]
  change ((if n ≠ 0 then _ else _) = _ ∧ _) ∨ (if n ≠ 0 then _ else _) = _
  by_cases hn : n = 0
  · rw [if_neg (not_not.mpr hn), if_pos hn, announced]
    cases strstr contentLengthKey (buffer p) with
    | none => exact .inr rfl
    | some found =>
      cases found with
      | none => exact .inl ⟨rfl, rfl⟩
      | some k => exact .inr rfl
  · rw [if_pos hn, if_neg hn]
    exact .inr rfl

/-- What is left to do behind the header, or behind a piece of the body. -/
def bodyRun (write : FlashWriter σ) (gRangeOffset : UInt32) (pieces : List (List UInt8)) (s : HttpGet σ) :
    Option (Status × HttpGet σ) :=
  if s.contentlen = 0 then some (.done, s) else httpGet write gRangeOffset pieces s

theorem httpGet_cons (p : List UInt8) (pieces : List (List UInt8)) (s : HttpGet σ) :
    httpGet write gRangeOffset (p :: pieces) s =
      (if s.wtstart then receiveBody write gRangeOffset p s else receiveHeader write gRangeOffset p s).bind fun r =>
        if r.1 = .more then httpGet write gRangeOffset pieces r.2 else some r := rfl

/-- Behind `checkDone` the loop goes on or is over. -/
theorem bodyRun_checkDone (pieces : List (List UInt8)) {s : HttpGet σ} (h : s.wtstart = true) :
    (if (checkDone s).1 = .more then httpGet write gRangeOffset pieces (checkDone s).2 else some (checkDone s)) =
      bodyRun write gRangeOffset pieces s := by
  by_cases hzero : s.contentlen = 0
  · have hdone : checkDone s = (.done, s) := by rw [checkDone, if_pos ⟨h, hzero⟩]
    rw [hdone, bodyRun, if_pos hzero]
    rfl
  · have hmore : checkDone s = (.more, s) := by rw [checkDone, if_neg fun hdone => hzero hdone.2]
    rw [hmore, bodyRun, if_neg hzero]
    rfl

/-- A piece without the end of the header only gives the length. -/
theorem httpGet_silent {n : ℤ} {flash : σ} {p : List UInt8} {pieces : List (List UInt8)} {s : HttpGet σ}
    (hp : bodyStart (buffer p) = some none) :
    httpGet write gRangeOffset (p :: pieces) (waiting n flash) = some (.done, s) ↔
      ∃ m, lengthAfter n p = some m ∧ httpGet write gRangeOffset pieces (waiting m flash) = some (.done, s) := by
  rw [httpGet_cons]
  change (receiveHeader write gRangeOffset p (waiting n flash)).bind _ = _ ↔ _
  rw [receiveHeader]
  rcases readLength_waiting n flash p with ⟨hread, hnone⟩ | hread
  · rw [hread, hnone]
    exact iff_of_false (fun h => nomatch h) (fun ⟨m, hm, _⟩ => nomatch hm)
  · rw [hread, hp]
    cases lengthAfter n p with
    | none => exact iff_of_false (fun h => nomatch h) (fun ⟨m, hm, _⟩ => nomatch hm)
    | some m => exact ⟨fun h => ⟨m, rfl, h⟩, fun ⟨_, hm, h⟩ => Option.some.inj hm ▸ h⟩

/-- The piece with the end of the header begins the body. -/
theorem httpGet_begin {n : ℤ} {flash : σ} {p : List UInt8} {pieces : List (List UInt8)} {s : HttpGet σ} {k : ℕ}
    (hp : bodyStart (buffer p) = some (some k)) :
    httpGet write gRangeOffset (p :: pieces) (waiting n flash) = some (.done, s) ↔
      ∃ m flash', lengthAfter n p = some m ∧ write gRangeOffset (p.drop k) flash = some (true, flash') ∧
        bodyRun write gRangeOffset pieces
          (writing m (p.drop k).length [(gRangeOffset, p.drop k)] flash') = some (.done, s) := by
  rw [httpGet_cons]
  change (receiveHeader write gRangeOffset p (waiting n flash)).bind _ = _ ↔ _
  rw [receiveHeader]
  rcases readLength_waiting n flash p with ⟨hread, hnone⟩ | hread
  · rw [hread, hnone]
    exact iff_of_false (fun h => nomatch h) (fun ⟨m, _, hm, _⟩ => nomatch hm)
  · rw [hread, hp]
    cases lengthAfter n p with
    | none => exact iff_of_false (fun h => nomatch h) (fun ⟨m, _, hm, _⟩ => nomatch hm)
    | some m =>
      change ((passOn write gRangeOffset (p.drop k) (waiting m flash)).map _).bind _ = _ ↔ _
      have hposition : UInt32.ofNat (waiting m flash).totalLen + gRangeOffset = gRangeOffset := UInt32.zero_add _
      rw [passOn, hposition]
      change (((write gRangeOffset (p.drop k) flash).map _).map _).bind _ = _ ↔ _
      cases hwrite : write gRangeOffset (p.drop k) flash with
      | none => exact iff_of_false (fun h => nomatch h) (fun ⟨_, _, _, hok, _⟩ => nomatch hok)
      | some result =>
        obtain ⟨ok, flash'⟩ := result
        cases ok with
        | false => exact iff_of_false (fun h => nomatch h) (fun ⟨_, _, _, hok, _⟩ => nomatch hok)
        | true =>
          let begun := writing m (0 + (p.drop k).length) [(gRangeOffset, p.drop k)] flash'
          change (if (checkDone begun).1 = .more then httpGet write gRangeOffset pieces (checkDone begun).2
            else some (checkDone begun)) = _ ↔ _
          rw [bodyRun_checkDone pieces rfl]
          simp only [begun, Nat.zero_add]
          exact ⟨fun h => ⟨m, flash', rfl, rfl, h⟩, fun ⟨_, _, hm, hflash, h⟩ => by cases hm; cases hflash; exact h⟩

/-- A download that ends well: the pieces of the header, the piece where the body begins, and the rest. -/
structure Begun (write : FlashWriter σ) (gRangeOffset : UInt32) (n : ℤ) (flash : σ) (pieces : List (List UInt8))
    (s : HttpGet σ) (before : List (List UInt8)) (p : List UInt8) (after : List (List UInt8)) (k : ℕ) (m : ℤ)
    (flash' : σ) : Prop where
  pieces : pieces = before ++ p :: after
  silent : ∀ q ∈ before, bodyStart (buffer q) = some none
  start : bodyStart (buffer p) = some (some k)
  length : heard n (before ++ [p]) = some m
  accepted : write gRangeOffset (p.drop k) flash = some (true, flash')
  run : bodyRun write gRangeOffset after (writing m (p.drop k).length [(gRangeOffset, p.drop k)] flash') =
    some (.done, s)

theorem begun_of_done {n : ℤ} {flash : σ} {pieces : List (List UInt8)} {s : HttpGet σ}
    (h : httpGet write gRangeOffset pieces (waiting n flash) = some (.done, s)) :
    ∃ before p after k m flash', Begun write gRangeOffset n flash pieces s before p after k m flash' := by
  induction pieces generalizing n with
  | nil => cases h
  | cons p pieces ih =>
    cases hstart : bodyStart (buffer p) with
    | none =>
      rw [httpGet_cons] at h
      change (receiveHeader write gRangeOffset p (waiting n flash)).bind _ = _ at h
      rw [receiveHeader] at h
      rcases readLength_waiting n flash p with ⟨hread, hnone⟩ | hread
      · rw [hread] at h
        cases h
      · rw [hread, hstart] at h
        cases hlength : lengthAfter n p with
        | none => rw [hlength] at h; cases h
        | some m => rw [hlength] at h; cases h
    | some start =>
      cases start with
      | none =>
        obtain ⟨m, hm, hrest⟩ := (httpGet_silent hstart).mp h
        obtain ⟨before, q, after, k, n', flash', hbegun⟩ := ih hrest
        refine ⟨p :: before, q, after, k, n', flash', ?_, ?_, hbegun.start, ?_, hbegun.accepted, hbegun.run⟩
        · exact congrArg (p :: ·) hbegun.pieces
        · intro r hr
          rcases List.mem_cons.mp hr with rfl | hr
          · exact hstart
          · exact hbegun.silent r hr
        · rw [List.cons_append, heard, hm]
          exact hbegun.length
      | some k =>
        obtain ⟨m, flash', hm, hok, hrun⟩ := (httpGet_begin hstart).mp h
        refine ⟨[], p, pieces, k, m, flash', rfl, fun q hq => (nomatch hq), hstart, ?_, hok, hrun⟩
        rw [List.nil_append, heard, hm]
        rfl

theorem Begun.done {n : ℤ} {flash : σ} {pieces : List (List UInt8)} {s : HttpGet σ} {before : List (List UInt8)}
    {p : List UInt8} {after : List (List UInt8)} {k : ℕ} {m : ℤ} {flash' : σ}
    (h : Begun write gRangeOffset n flash pieces s before p after k m flash') :
    httpGet write gRangeOffset pieces (waiting n flash) = some (.done, s) := by
  obtain ⟨rfl, hsilent, hstart, hlength, hok, hrun⟩ := h
  induction before generalizing n with
  | nil =>
    obtain ⟨m', hm', hlast⟩ := Option.bind_eq_some_iff.mp hlength
    cases hlast
    exact (httpGet_begin hstart).mpr ⟨m, flash', hm', hok, hrun⟩
  | cons q before ih =>
    obtain ⟨m', hm', hrest⟩ := Option.bind_eq_some_iff.mp hlength
    refine (httpGet_silent (hsilent q List.mem_cons_self)).mpr ⟨m', hm', ?_⟩
    exact ih (fun r hr => hsilent r (List.mem_cons_of_mem _ hr)) hrest

/-! ## The pieces of the body -/

/-- How much of a piece is still missing. -/
def usable (n : ℤ) (total : ℕ) (p : List UInt8) : ℕ := min (n - total).toNat p.length

theorem bodyRun_cons {n : ℤ} {total : ℕ} {writes : List (UInt32 × List UInt8)} {flash : σ} {p : List UInt8}
    {pieces : List (List UInt8)} {s : HttpGet σ} (hn : n ≠ total) :
    bodyRun write gRangeOffset (p :: pieces) (writing n total writes flash) = some (.done, s) ↔
      (total : ℤ) < n ∧ ∃ flash',
        write (UInt32.ofNat total + gRangeOffset) (p.take (usable n total p)) flash = some (true, flash') ∧
          bodyRun write gRangeOffset pieces (writing n (total + usable n total p)
            (writes ++ [(UInt32.ofNat total + gRangeOffset, p.take (usable n total p))]) flash') = some (.done, s) := by
  have hcontent : (writing n total writes flash).contentlen ≠ 0 := mt (writing_contentlen n total writes flash).mp hn
  rw [bodyRun, if_neg hcontent, httpGet_cons]
  change (receiveBody write gRangeOffset p (writing n total writes flash)).bind _ = _ ↔ _
  let i : ℤ := if n - total < p.length then n - total else p.length
  let contentlen : ℤ := if n - total < p.length then 0 else n - total
  rw [receiveBody]
  change (if i < 0 then none else ((passOn write gRangeOffset (p.take i.toNat) (writing n total writes flash)).map
    fun r => if r.1 then checkDone { r.2 with
          totalLen := if (r.2.totalLen : ℤ) < r.2.recordContentlen then r.2.totalLen + i.toNat else r.2.totalLen
          contentlen := if 0 < contentlen then contentlen - i else contentlen } else (.errorExit, r.2))).bind _ = _ ↔ _
  rcases lt_or_gt_of_ne hn with hlt | hgt
  · have hi : i < 0 := by
      simp only [i]
      rw [if_pos (by omega)]
      omega
    rw [if_pos hi]
    apply iff_of_false
    · intro h
      cases h
    · rintro ⟨hgt, -⟩
      omega
  · have hi : i = usable n total p := by
      simp only [i, usable]
      split_ifs <;> omega
    have hleft : (if 0 < contentlen then contentlen - i else contentlen) = n - (total + usable n total p : ℕ) := by
      rw [hi]
      simp only [contentlen, usable]
      split_ifs <;> omega
    rw [hleft, hi, Int.toNat_natCast, if_neg (by omega), passOn]
    change ((Option.map _ (write (UInt32.ofNat total + gRangeOffset) (p.take (usable n total p)) flash)).map _).bind _ =
      _ ↔ _
    cases write (UInt32.ofNat total + gRangeOffset) (p.take (usable n total p)) flash with
    | none =>
      apply iff_of_false
      · intro h
        cases h
      · rintro ⟨-, flash', hok, -⟩
        cases hok
    | some result =>
      obtain ⟨ok, flash'⟩ := result
      cases ok with
      | false =>
        apply iff_of_false
        · intro h
          cases h
        · rintro ⟨-, flash', hok, -⟩
          cases hok
      | true =>
        have htotal : (if (total : ℤ) < n then total + usable n total p else total) = total + usable n total p :=
          if_pos hgt
        let next : HttpGet σ := ⟨true, n - (total + usable n total p : ℕ), n,
          if (total : ℤ) < n then total + usable n total p else total,
          writes ++ [(UInt32.ofNat total + gRangeOffset, p.take (usable n total p))], flash'⟩
        change (if (checkDone next).1 = .more then httpGet write gRangeOffset pieces (checkDone next).2
          else some (checkDone next)) = _ ↔ _
        rw [bodyRun_checkDone pieces rfl]
        simp only [next, htotal]
        constructor
        · intro h
          exact ⟨hgt, flash', rfl, h⟩
        · rintro ⟨-, flash'', hflash, h⟩
          cases hflash
          exact h

/-- Whatever the pieces are, a body that ends well is a first part of them of the length that was read. -/
theorem chunks_of_done {n : ℤ} {total : ℕ} {writes : List (UInt32 × List UInt8)} {flash : σ}
    {pieces : List (List UInt8)} {s : HttpGet σ}
    (h : bodyRun write gRangeOffset pieces (writing n total writes flash) = some (.done, s)) :
    ∃ chunks, s.writes.map Prod.snd = writes.map Prod.snd ++ chunks ∧ chunks.flatten <+: pieces.flatten ∧
      n = total + (chunks.flatten.length : ℤ) := by
  induction pieces generalizing total writes flash with
  | nil =>
    rw [bodyRun] at h
    split_ifs at h with hdone
    · cases h
      refine ⟨[], (List.append_nil _).symm, List.nil_prefix, ?_⟩
      simpa using (writing_contentlen n total writes flash).mp hdone
    · cases h
  | cons p pieces ih =>
    by_cases hn : n = total
    · rw [bodyRun, if_pos ((writing_contentlen n total writes flash).mpr hn)] at h
      cases h
      exact ⟨[], (List.append_nil _).symm, List.nil_prefix, by simpa using hn⟩
    · obtain ⟨hlt, flash', -, hrest⟩ := (bodyRun_cons hn).mp h
      obtain ⟨chunks, hwrites, hchunks, hlength⟩ := ih hrest
      refine ⟨p.take (usable n total p) :: chunks, ?_, ?_, ?_⟩
      · rw [hwrites, List.map_append, List.append_assoc]
        rfl
      · rcases Nat.lt_or_ge (usable n total p) p.length with hlast | hall
        · have hnil : chunks.flatten = [] := by
            rw [← List.length_eq_zero_iff]
            simp only [usable] at hlast hlength
            omega
          rw [List.flatten_cons, hnil, List.append_nil, List.flatten_cons]
          exact (List.take_prefix _ p).trans (List.prefix_append p _)
        · rw [List.flatten_cons, List.take_of_length_le hall, List.flatten_cons]
          exact (List.prefix_append_right_inj p).mpr hchunks
      · have htake : (p.take (usable n total p)).length = usable n total p := List.length_take_of_le (Nat.min_le_right ..)
        rw [List.flatten_cons, List.length_append, htake]
        omega

/-- When the length is that of the pieces, each of them is passed on as it is. -/
theorem bodyRun_exact {n : ℤ} {total : ℕ} {writes : List (UInt32 × List UInt8)} {flash : σ}
    {pieces : List (List UInt8)} {s : HttpGet σ} (hpieces : ∀ p ∈ pieces, p ≠ [])
    (hn : n = total + (pieces.flatten.length : ℤ)) :
    bodyRun write gRangeOffset pieces (writing n total writes flash) = some (.done, s) ↔
      ∃ flash', writeAll write (UInt32.ofNat total + gRangeOffset) pieces flash = some flash' ∧
        s = writing n (total + pieces.flatten.length) (writes ++ placed (UInt32.ofNat total + gRangeOffset) pieces)
          flash' := by
  induction pieces generalizing total writes flash with
  | nil =>
    have htotal : n = total := by simpa using hn
    rw [bodyRun, if_pos ((writing_contentlen n total writes flash).mpr htotal)]
    simp only [writeAll, placed, List.flatten_nil, List.length_nil, Nat.add_zero, List.append_nil, Option.some_inj,
      Prod.mk.injEq, true_and, exists_eq_left']
    exact eq_comm
  | cons p pieces ih =>
    have hp : 0 < p.length := List.length_pos_iff.mpr (hpieces p List.mem_cons_self)
    rw [List.flatten_cons, List.length_append] at hn ⊢
    have husable : usable n total p = p.length := by
      simp only [usable]
      omega
    have hnext : UInt32.ofNat total + gRangeOffset + UInt32.ofNat p.length =
        UInt32.ofNat (total + p.length) + gRangeOffset := by
      rw [UInt32.ofNat_add, UInt32.add_assoc, UInt32.add_comm gRangeOffset, ← UInt32.add_assoc]
    rw [bodyRun_cons (by omega), husable, List.take_length, writeAll, placed, hnext]
    cases hwrite : write (UInt32.ofNat total + gRangeOffset) p flash with
    | none => exact iff_of_false (fun ⟨_, _, hok, _⟩ => nomatch hok) (fun ⟨_, hok, _⟩ => nomatch hok)
    | some result =>
      obtain ⟨ok, written⟩ := result
      cases ok with
      | false =>
        exact iff_of_false (fun ⟨_, _, hok, _⟩ => Bool.false_ne_true (Prod.mk.inj (Option.some.inj hok)).1)
          (fun ⟨_, hok, _⟩ => nomatch hok)
      | true =>
        have hrest := @ih (total + p.length) (writes ++ [(UInt32.ofNat total + gRangeOffset, p)]) written
          (fun q hq => hpieces q (List.mem_cons_of_mem _ hq)) (by omega)
        rw [List.append_assoc, Nat.add_assoc] at hrest
        constructor
        · rintro ⟨-, flash', hflash, hrun⟩
          cases hflash
          exact hrest.mp hrun
        · intro hall
          exact ⟨by omega, written, rfl, hrest.mpr hall⟩

end

/-! ## Every segmentation -/

section
variable {σ : Type} (write : FlashWriter σ) (gRangeOffset : UInt32)

/-- The pieces in which the loop finds all it needs: the empty line in one of them, the length in one of those
before it or in the same one, no piece of the header that fills the buffer, no two line feeds before the
terminator that ends the search in the piece of the empty line, and a flash that takes the data. -/
def FindsBody (r : Response) (pieces : List (List UInt8)) (flash : σ) : Prop :=
  ∃ before a b after, pieces = before ++ (a ++ crLfCrLf ++ b) :: after ∧
    before.flatten ++ (a ++ crLfCrLf) = r.header ∧ (∀ q ∈ before, q.length < strbufSize) ∧
    Announces r.body.length (before ++ [a ++ crLfCrLf ++ b]) ∧
    strstr lfLf (buffer (a ++ crLfCrLf ++ b)) = some none ∧
    (writeAll write gRangeOffset (b :: after) flash).isSome

variable {r : Response} {pieces : List (List UInt8)}

/-- The pieces before the empty line are silent, and it is found in its piece. -/
theorem bodyStart_of_header {before : List (List UInt8)} {a b : List UInt8}
    (hheader : before.flatten ++ (a ++ crLfCrLf) = r.header) (hbefore : ∀ q ∈ before, q.length < strbufSize)
    (hlf : strstr lfLf (buffer (a ++ crLfCrLf ++ b)) = some none) :
    (∀ q ∈ before, bodyStart (buffer q) = some none) ∧
      bodyStart (buffer (a ++ crLfCrLf ++ b)) = some (some (a ++ crLfCrLf).length) := by
  have hzero : 0 ∉ before.flatten ++ (a ++ crLfCrLf) := hheader ▸ r.zero_not_mem
  constructor
  · intro q hq
    obtain ⟨left, right, rfl⟩ := List.append_of_mem hq
    have hpart : q <:+: r.header := ⟨left.flatten, right.flatten ++ (a ++ crLfCrLf), by rw [← hheader]; simp⟩
    refine bodyStart_none (fun h => r.zero_not_mem (hpart.subset h)) (hbefore q hq)
      (fun h => r.not_lfLf (h.trans hpart)) ?_
    rintro ⟨u, v, huv⟩
    have hempty : v ++ (right.flatten ++ (a ++ crLfCrLf)) = [] := r.behind_crLfCrLf (u := left.flatten ++ u) (by
      rw [← hheader, ← huv]
      simp)
    simp [crLfCrLf] at hempty
  · have hfound : strstr crLfCrLf (buffer (a ++ crLfCrLf ++ b)) = some (some a.length) := by
      rw [buffer, List.append_assoc, List.append_assoc]
      refine strstr_found (by decide) (fun h => hzero (by simp [h])) (List.prefix_append _ _) ?_
      intro j hj hpre
      rw [← List.append_assoc, List.drop_append_of_le_length (by simp only [List.length_append]; omega)] at hpre
      have hlong : crLfCrLf.length < ((a ++ crLfCrLf).drop j).length := by
        rw [List.length_drop, List.length_append]
        omega
      obtain ⟨v, hv⟩ := List.prefix_of_prefix_length_le hpre (List.prefix_append _ _) (Nat.le_of_lt hlong)
      have hempty : v = [] := r.behind_crLfCrLf (u := before.flatten ++ (a ++ crLfCrLf).take j) (by
        rw [List.append_assoc, List.append_assoc, hv, List.take_append_drop, hheader])
      rw [← hv, hempty, List.append_nil] at hlong
      exact Nat.lt_irrefl _ hlong
    rw [bodyStart, hlf]
    change (strstr crLfCrLf (buffer (a ++ crLfCrLf ++ b))).map _ = _
    rw [hfound, List.length_append]
    rfl

/-- A line feed that is found in the buffer is in the piece. -/
private theorem lt_of_buffer {p u s : List UInt8} (h : buffer p = u ++ 10 :: s) : u.length < p.length := by
  by_contra hge
  have hlf : (buffer p)[u.length]? = some 10 := by
    rw [h, List.getElem?_append_right (Nat.le_refl _), Nat.sub_self]
    rfl
  rw [buffer, List.getElem?_append_right (by omega), List.getElem?_replicate] at hlf
  split_ifs at hlf
  exact absurd (Option.some.inj hlf) (by decide)

private theorem take_of_buffer {p a key s : List UInt8} (h : buffer p = a ++ (key ++ [10]) ++ s) :
    p.take (a.length + (key.length + 1)) = a ++ (key ++ [10]) := by
  have hsplit : buffer p = (a ++ key) ++ 10 :: s := by
    rw [h]
    simp
  have hlt := lt_of_buffer hsplit
  have hlength : (a ++ (key ++ [10])).length = a.length + (key.length + 1) := by simp
  have htake := congrArg (List.take (a.length + (key.length + 1))) h
  rw [← hlength, List.take_left' rfl, buffer, List.take_append_of_le_length (by simp at hlt ⊢; omega)] at htake
  rw [← hlength]
  exact htake

/-- When nothing of the body is lost, the place that is taken for its start is behind the empty line. -/
theorem header_of_bodyStart {before after : List (List UInt8)} {p : List UInt8} {k : ℕ}
    (hstream : before.flatten ++ (p ++ after.flatten) = r.header ++ r.body)
    (hstart : bodyStart (buffer p) = some (some k)) (hbody : r.body.length ≤ (p.drop k ++ after.flatten).length) :
    ∃ a, p = a ++ crLfCrLf ++ p.drop k ∧ before.flatten ++ (a ++ crLfCrLf) = r.header ∧
      p.drop k ++ after.flatten = r.body ∧ strstr lfLf (buffer p) = some none := by
  have hwhole : (before.flatten ++ p.take k) ++ (p.drop k ++ after.flatten) = r.header ++ r.body := by
    rw [← hstream, List.append_assoc, ← List.append_assoc (p.take k), List.take_append_drop]
  obtain ⟨extra, hextra, hrest⟩ : ∃ extra, r.header = (before.flatten ++ p.take k) ++ extra ∧
      p.drop k ++ after.flatten = extra ++ r.body := by
    rcases List.append_eq_append_iff.mp hwhole with ⟨extra, hextra, hrest⟩ | ⟨extra, hextra, hrest⟩
    · exact ⟨extra, hextra, hrest⟩
    · have hnil : extra = [] := by
        have := congrArg List.length hrest
        rw [List.length_append] at this
        exact List.length_eq_zero_iff.mp (by omega)
      rw [hnil, List.append_nil] at hextra
      rw [hnil, List.nil_append] at hrest
      exact ⟨[], by rw [hextra, List.append_nil], hrest.symm⟩
  rcases bodyStart_some hstart with ⟨a, s, hs, rfl⟩ | ⟨a, s, hs, rfl, hlf⟩
  · refine absurd ?_ r.not_lfLf
    have htake : p.take (a.length + 2) = a ++ lfLf := @take_of_buffer p a [10] s hs
    exact ⟨before.flatten ++ a, extra, by rw [hextra, htake]; simp⟩
  · have htake : p.take (a.length + 4) = a ++ crLfCrLf := @take_of_buffer p a [13, 10, 13] s hs
    rw [htake] at hextra
    have hnil : extra = [] := r.behind_crLfCrLf (u := before.flatten ++ a) (by rw [hextra]; simp)
    refine ⟨a, ?_, ?_, ?_, hlf⟩
    · rw [← htake, List.take_append_drop]
    · rw [hextra, hnil, List.append_nil]
    · rw [hrest, hnil, List.nil_append]

theorem findsBody_of_extracts (h : Delivered r pieces) {flash : σ}
    (hextracts : Extracts write gRangeOffset r pieces flash) : FindsBody write gRangeOffset r pieces flash := by
  have hlength : (r.body.length : ℤ) ≠ 0 := by simpa using r.body_ne_nil
  obtain ⟨s, chunks, hdone, hwrites, hchunks, -⟩ := hextracts
  obtain ⟨before, p, after, k, m, flash', hpieces, hsilent, hstart, hheard, hok, hrun⟩ := begun_of_done hdone
  obtain ⟨rest, hrest, hprefix, hm⟩ := chunks_of_done hrun
  have hsame : chunks = p.drop k :: rest := by
    rw [← placed_data gRangeOffset chunks, ← hwrites, hrest]
    rfl
  rw [hsame, List.flatten_cons] at hchunks
  have hstream : before.flatten ++ (p ++ after.flatten) = r.header ++ r.body := by
    rw [← h.flatten, hpieces, List.flatten_append, List.flatten_cons]
  obtain ⟨a, hp, hheader, hbody, hlf⟩ := header_of_bodyStart hstream hstart (by
    rw [← hchunks, List.length_append, List.length_append]
    exact Nat.add_le_add_left hprefix.length_le _)
  have hall : rest.flatten = after.flatten := List.append_cancel_left (hchunks.trans hbody.symm)
  have hlen : m = (p.drop k).length + (after.flatten.length : ℤ) := hall ▸ hm
  have hpiece : ∀ q ∈ before ++ p :: after, q ≠ [] ∧ q.length ≤ strbufSize := hpieces ▸ h.piece
  obtain ⟨flash'', hwritten, -⟩ := (bodyRun_exact (fun q hq => (hpiece q (by simp [hq])).1) hlen).mp hrun
  refine ⟨before, a, p.drop k, after, by rw [← hp, hpieces], hheader, ?_, ?_, by rw [← hp]; exact hlf, ?_⟩
  · intro q hq
    refine Nat.lt_of_le_of_ne (hpiece q (by simp [hq])).2 fun hfull => ?_
    obtain ⟨left, right, rfl⟩ := List.append_of_mem hq
    have hpart : q <:+: r.header := ⟨left.flatten, right.flatten ++ (a ++ crLfCrLf), by rw [← hheader]; simp⟩
    have hnone := bodyStart_full (fun hz => r.zero_not_mem (hpart.subset hz)) hfull fun hz =>
      r.not_lfLf (hz.trans hpart)
    rw [hsilent q hq] at hnone
    cases hnone
  · have hbodyLength : m = r.body.length := by
      rw [hlen, ← hbody, List.length_append, Int.natCast_add]
    rw [← hp, ← heard_zero hlength, hheard, hbodyLength]
  · rw [writeAll, hok]
    change (writeAll write (gRangeOffset + UInt32.ofNat (p.drop k).length) after flash').isSome
    rw [UInt32.add_comm, hwritten]
    rfl

theorem extracts_of_findsBody (h : Delivered r pieces) {flash : σ}
    (hfinds : FindsBody write gRangeOffset r pieces flash) : Extracts write gRangeOffset r pieces flash := by
  have hlength : (r.body.length : ℤ) ≠ 0 := by simpa using r.body_ne_nil
  obtain ⟨before, a, b, after, hpieces, hheader, hbefore, hannounces, hlf, haccepted⟩ := hfinds
  obtain ⟨hsilent, hstart⟩ := bodyStart_of_header hheader hbefore hlf
  have hdrop : (a ++ crLfCrLf ++ b).drop (a ++ crLfCrLf).length = b := List.drop_left' rfl
  have hbody : b ++ after.flatten = r.body := by
    have hflatten := h.flatten
    rw [hpieces, List.flatten_append, List.flatten_cons, ← hheader] at hflatten
    simpa using hflatten
  have hlen : (r.body.length : ℤ) = b.length + (after.flatten.length : ℤ) := by
    rw [← hbody, List.length_append, Int.natCast_add]
  have hpiece : ∀ q ∈ before ++ (a ++ crLfCrLf ++ b) :: after, q ≠ [] ∧ q.length ≤ strbufSize := hpieces ▸ h.piece
  obtain ⟨flash'', hflash⟩ := Option.isSome_iff_exists.mp haccepted
  rw [writeAll] at hflash
  split at hflash
  · next flash' hok =>
    rw [UInt32.add_comm] at hflash
    have hrun : bodyRun write gRangeOffset after (writing r.body.length b.length [(gRangeOffset, b)] flash') =
        some (.done, writing r.body.length (b.length + after.flatten.length) _ flash'') :=
      (bodyRun_exact (fun q hq => (hpiece q (by simp [hq])).1) hlen).mpr ⟨flash'', hflash, rfl⟩
    refine ⟨_, b :: after, Begun.done (n := 0) ⟨hpieces, hsilent, hstart, (heard_zero hlength _).mpr hannounces,
      by rw [hdrop]; exact hok, by rw [hdrop]; exact hrun⟩, ?_, hbody, ?_⟩
    · change [(gRangeOffset, b)] ++ placed _ after = placed gRangeOffset (b :: after)
      rw [placed, UInt32.add_comm gRangeOffset]
      rfl
    · change b.length + after.flatten.length = r.body.length
      rw [← hbody, List.length_append]
  · cases hflash

/-- The body is passed on exactly when the loop finds it in its pieces. -/
theorem extracts_iff (h : Delivered r pieces) (flash : σ) :
    Extracts write gRangeOffset r pieces flash ↔ FindsBody write gRangeOffset r pieces flash :=
  ⟨findsBody_of_extracts write gRangeOffset h, extracts_of_findsBody write gRangeOffset h⟩

end

/-- "Content-Length: 3" and the body "ABC". -/
def sampleResponse : Response where
  lines := [contentLengthKey ++ [51]]
  body := [65, 66, 67]
  line := by decide
  contentLength := ⟨[], [], by
    rw [decimal]
    rfl, fun l hl => (nomatch hl)⟩
  body_ne_nil := List.cons_ne_nil _ _

/-- The header with the first byte of the body, then the rest. -/
def samplePieces : List (List UInt8) := [sampleResponse.header ++ [65], [66, 67]]

def sampleFlash : FlashMemory.Memory × FotaDownload.OtaState × List FotaDownload.OtaEnv :=
  let env : XyFlash.FlashEnv := ⟨false, false⟩
  (fun _ => 255, FotaDownload.OtaState.init, [⟨env, env, env⟩, ⟨env, env, env⟩])

theorem extracts_sample :
    Delivered sampleResponse samplePieces ∧ Extracts (otaWriter ⟨0, 0, 0⟩) 0 sampleResponse samplePieces sampleFlash := by
  have hdelivered : Delivered sampleResponse samplePieces := ⟨by decide, by decide⟩
  refine ⟨hdelivered, (extracts_iff _ _ hdelivered _).mpr ⟨[], contentLengthKey ++ [51], [65], [[66, 67]], rfl, rfl,
    fun q hq => (nomatch hq), .inl rfl, rfl, rfl⟩⟩

/-- The empty line in two pieces. -/
theorem not_extracts_split : Delivered sampleResponse
    [contentLengthKey ++ [51, 13, 10, 13], [10, 65, 66, 67]] ∧
    ¬Extracts (fun _ _ (_ : Unit) => some (true, ())) 0 sampleResponse
      [contentLengthKey ++ [51, 13, 10, 13], [10, 65, 66, 67]] () := by
  constructor
  · exact ⟨by decide, by decide⟩
  · rintro ⟨s, chunks, hdone, -⟩
    have hrun : httpGet (fun _ _ (_ : Unit) => some (true, ())) 0
        [contentLengthKey ++ [51, 13, 10, 13], [10, 65, 66, 67]] (HttpGet.init ()) =
        some (.errorExit, ⟨false, 3, 3, 0, [], ()⟩) := rfl
    rw [hrun] at hdone
    cases hdone

end NbiotXY1100.FotaByHttp
