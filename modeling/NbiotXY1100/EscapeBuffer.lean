import NbiotXY1100.AtEscapedParam

/-! # Resolving escapes in place

`format_escape_char` writes the character over the backslash and moves the rest of the
string up, byte by byte, over the escape. The string is kept in a buffer; every access is
checked, so that a result says that no byte outside the buffer was touched. -/
namespace NbiotXY1100.EscapeBuffer
open AtParam AtEscapedParam

/-- `strlen` of the string at place `p`, unless it has no end in the buffer. -/
def strlen (buf : List UInt8) (p : ℕ) : Option ℕ := (buf.drop p).idxOf? 0

/-- `strchr`: the place of the first `c` if there is one in the string. -/
def strchr (c : UInt8) : List UInt8 → Option (Option ℕ)
  | [] => none
  | b :: s => if b = c then some (some 0) else if b = 0 then some none else (strchr c s).map (Option.map (· + 1))

def setByte (buf : List UInt8) (i : ℕ) (c : UInt8) : Option (List UInt8) :=
  if i < buf.length then some (buf.set i c) else none

def memset (buf : List UInt8) (p : ℕ) (c : UInt8) : ℕ → Option (List UInt8)
  | 0 => some buf
  | n + 1 => (setByte buf p c).bind fun buf => memset buf (p + 1) c n

theorem strlen_lt {buf : List UInt8} {p n : ℕ} (h : strlen buf p = some n) : p + n < buf.length := by
  obtain ⟨hlt, -⟩ := List.idxOf?_eq_some_iff.mp h
  rw [List.length_drop] at hlt
  omega

theorem setByte_length {buf out : List UInt8} {i : ℕ} {c : UInt8} (h : setByte buf i c = some out) :
    out.length = buf.length := by
  unfold setByte at h
  split at h
  next =>
    cases h
    exact List.length_set
  next => cases h

/-- The loop that moves the string up; its bound is the length of what is there by then. -/
def shift (p offset : ℕ) (buf : List UInt8) (i : ℕ) : Option (List UInt8) :=
  match _hlen : strlen buf (p + offset + 1) with
  | none => none
  | some n =>
    if i ≤ n then
      match buf[p + offset + 1 + i]? with
      | none => none
      | some c =>
        match hset : setByte buf (p + 1 + i) c with
        | none => none
        | some buf' => shift p offset buf' (i + 1)
    else some buf
termination_by buf.length + 1 - i
decreasing_by
  have hsame := setByte_length hset
  have hlt := strlen_lt _hlen
  omega

/-- What happens behind the character that replaced the backslash at `p`. -/
def closeGap (p offset : ℕ) (buf : List UInt8) : Option (List UInt8) :=
  (strlen buf (p + offset + 1)).bind fun n =>
    (if n + 1 < offset then memset buf (p + 1) 0 offset else some buf).bind fun buf => shift p offset buf 0

theorem memset_length {buf out : List UInt8} {p n : ℕ} {c : UInt8} (h : memset buf p c n = some out) :
    out.length = buf.length := by
  induction n generalizing buf p with
  | zero =>
    cases h
    rfl
  | succ n ih =>
    obtain ⟨mid, hset, hrest⟩ := Option.bind_eq_some_iff.mp h
    rw [ih hrest, setByte_length hset]

theorem shift_length {p offset : ℕ} {buf out : List UInt8} {i : ℕ} (h : shift p offset buf i = some out) :
    out.length = buf.length := by
  fun_induction shift p offset buf i with
  | case1 buf i hnone => cases h
  | case2 buf i n hlen hle hget => cases h
  | case3 buf i n hlen hle c hget hset => cases h
  | case4 buf i n hlen hle c hget buf' hset ih => rw [ih h, setByte_length hset]
  | case5 buf i n hlen hdone =>
    cases h
    rfl

theorem closeGap_length {p offset : ℕ} {buf out : List UInt8} (h : closeGap p offset buf = some out) :
    out.length = buf.length := by
  obtain ⟨n, -, h⟩ := Option.bind_eq_some_iff.mp h
  obtain ⟨mid, hmid, hshift⟩ := Option.bind_eq_some_iff.mp h
  rw [shift_length hshift]
  split at hmid
  next => exact memset_length hmid
  next =>
    cases hmid
    rfl

theorem strchr_lt {c : UInt8} {s : List UInt8} {k : ℕ} (h : strchr c s = some (some k)) : k < s.length := by
  induction s generalizing k with
  | nil => cases h
  | cons b s ih =>
    rw [strchr] at h
    split at h
    next =>
      cases h
      exact Nat.succ_pos _
    next =>
      split at h
      next => cases h
      next =>
        obtain ⟨r, hr, hk⟩ := Option.map_eq_some_iff.mp h
        obtain ⟨j, rfl, rfl⟩ := Option.map_eq_some_iff.mp hk
        exact Nat.succ_lt_succ (ih hr)

/-- The loop over the backslashes from place `p` on. One that ends the string ends the loop. -/
def formatFrom (buf : List UInt8) (p : ℕ) : Option (List UInt8) :=
  match _hchr : strchr 92 (buf.drop p) with
  | none => none
  | some none => some buf
  | some (some k) =>
    if buf.getD (p + k + 1) 0 = 0 then some buf
    else
      match covertEscToAscII (buf.drop (p + k + 1)) with
      | none => formatFrom buf (p + k + 1)
      | some (esc, offset) =>
        match hgap : closeGap (p + k) offset (buf.set (p + k) esc) with
        | none => none
        | some buf' => formatFrom buf' (p + k + 1)
termination_by buf.length - p
decreasing_by
  · have hlt := strchr_lt _hchr
    rw [List.length_drop] at hlt
    omega
  · have hlt := strchr_lt _hchr
    have hsame := closeGap_length hgap
    rw [List.length_set] at hsame
    rw [List.length_drop] at hlt
    omega

def formatEscapeChar (input : List UInt8) : Option (List UInt8) := formatFrom input 0

/-- The value of a digit in a base up to sixteen. -/
def digitValue (c : UInt8) : ℕ :=
  if c < 58 then c.toNat - 48 else if c < 97 then c.toNat - 55 else c.toNat - 87

/-- The number that digits stand for in a base. -/
def number (base : ℕ) (digits : List UInt8) : ℕ := digits.foldl (fun n c => base * n + digitValue c) 0

/-- The value and the length of the escape behind a backslash: a letter of the table, `x` with
as many hexadecimal digits as there are, two at most, or octal digits, three at most. -/
def recognised (s : List UInt8) : Option (ℕ × ℕ) :=
  let hex := ((s.drop 1).takeWhile isHexChar).take 2
  let oct := (s.takeWhile isOctChar).take 3
  match s.head?.bind fun c => escTable.lookup c with
  | some esc => some (esc.toNat, 1)
  | none =>
    if s.head? = some 120 ∧ hex ≠ [] then some (number 16 hex, hex.length + 1)
    else if oct ≠ [] then some (number 8 oct, oct.length)
    else none

/-- One pass from left to right. -/
def unescape : List UInt8 → List UInt8
  | [] => []
  | c :: s =>
    match if c = 92 then recognised s else none with
    | some (v, n) => UInt8.ofNat v :: unescape (s.drop n)
    | none => c :: unescape s
termination_by s => s.length

/-- The string at the start of the buffer has become its unescaped text with a terminator,
and from the old terminator on nothing has changed. -/
structure Unescaped (s rest out : List UInt8) : Prop where
  text : unescape s ++ [0] <+: out
  behind : out.drop s.length = 0 :: rest

/-- The first digits of a string, read off the characters at its start in memory. -/
theorem take_digits_two {q : UInt8 → Bool} (hq : q 0 = false) (s t : List UInt8) :
    (s.takeWhile q).take 2 = if q ((s ++ 0 :: t).getD 0 0) ∧ q ((s ++ 0 :: t).getD 1 0) then
      [(s ++ 0 :: t).getD 0 0, (s ++ 0 :: t).getD 1 0]
      else if q ((s ++ 0 :: t).getD 0 0) then [(s ++ 0 :: t).getD 0 0] else [] := by
  match s with
  | [] => simp [hq]
  | [a] =>
    cases ha : q a <;> simp [hq, ha]
  | a :: b :: r =>
    cases ha : q a <;> cases hb : q b <;> simp [ha, hb]

theorem take_digits_three {q : UInt8 → Bool} (hq : q 0 = false) (s t : List UInt8) :
    (s.takeWhile q).take 3 =
      if q ((s ++ 0 :: t).getD 0 0) ∧ q ((s ++ 0 :: t).getD 1 0) ∧ q ((s ++ 0 :: t).getD 2 0) then
        [(s ++ 0 :: t).getD 0 0, (s ++ 0 :: t).getD 1 0, (s ++ 0 :: t).getD 2 0]
      else if q ((s ++ 0 :: t).getD 0 0) ∧ q ((s ++ 0 :: t).getD 1 0) then
        [(s ++ 0 :: t).getD 0 0, (s ++ 0 :: t).getD 1 0]
      else if q ((s ++ 0 :: t).getD 0 0) then [(s ++ 0 :: t).getD 0 0] else [] := by
  match s with
  | [] => simp [hq]
  | [a] =>
    cases ha : q a <;> simp [hq, ha]
  | [a, b] =>
    cases ha : q a <;> cases hb : q b <;> simp [hq, ha, hb]
  | a :: b :: c :: r =>
    cases ha : q a <;> cases hb : q b <;> cases hc : q c <;> simp [ha, hb, hc]

theorem digitValue_hex {c : UInt8} (h : isHexChar c) : digitValue c = covertHextoNum c := by
  unfold digitValue covertHextoNum
  simp only [isHexChar, CStrings.isDigit, Bool.or_eq_true, Bool.and_eq_true, decide_eq_true_eq,
    UInt8.le_iff_toNat_le, UInt8.lt_iff_toNat_lt, UInt8.reduceToNat] at h ⊢
  split_ifs <;> omega

theorem digitValue_oct {c : UInt8} (h : isOctChar c) : digitValue c = octValue c := by
  unfold digitValue octValue
  simp only [isOctChar, Bool.and_eq_true, decide_eq_true_eq, UInt8.le_iff_toNat_le, UInt8.lt_iff_toNat_lt,
    UInt8.reduceToNat] at h ⊢
  split_ifs <;> omega

/-- The code reads the escape at the start of a string like the specification, and nothing
behind the terminator matters. -/
theorem covertEscToAscII_eq {s : List UInt8} (hs : s ≠ []) (t : List UInt8) :
    covertEscToAscII (s ++ 0 :: t) = (recognised s).map fun e => (UInt8.ofNat e.1, e.2) := by
  obtain ⟨c, r, rfl⟩ := List.exists_cons_of_ne_nil hs
  have hhex := @take_digits_two isHexChar rfl r t
  have hoct := @take_digits_three isOctChar rfl (c :: r) t
  unfold recognised covertEscToAscII
  simp only [List.drop_succ_cons, List.drop_zero, List.head?_cons, Option.bind_some, List.cons_append,
    List.getD_cons_zero, List.getD_cons_succ] at hhex hoct ⊢
  rw [hhex, hoct]
  cases htable : escTable.lookup c with
  | some esc => simp
  | none =>
    generalize (r ++ 0 :: t).getD 0 0 = c₂
    generalize (r ++ 0 :: t).getD 1 0 = c₃
    by_cases hx : c = 120
    · subst hx
      by_cases h₂ : isHexChar c₂
      · by_cases h₃ : isHexChar c₃
        · simp [h₂, h₃, number, digitValue_hex, Nat.mul_comm]
        · simp [h₂, h₃, number, digitValue_hex]
      · simp [h₂, show isOctChar 120 = false from rfl]
    · by_cases h₁ : isOctChar c
      · by_cases h₂ : isOctChar c₂
        · by_cases h₃ : isOctChar c₃
          · have hvalue : 8 * (8 * (8 * 0 + octValue c) + octValue c₂) + octValue c₃ =
                octValue c * 64 + octValue c₂ * 8 + octValue c₃ := by omega
            simp [hx, h₁, h₂, h₃, number, digitValue_oct, ← hvalue]
          · simp [hx, h₁, h₂, h₃, number, digitValue_oct, Nat.mul_comm]
        · simp [hx, h₁, h₂, number, digitValue_oct]
      · simp [hx, h₁]

theorem recognised_bounds {s : List UInt8} {v n : ℕ} (h : recognised s = some (v, n)) : 1 ≤ n ∧ n ≤ s.length := by
  cases s with
  | nil => simp [recognised] at h
  | cons c r =>
    have hhex : ((r.takeWhile isHexChar).take 2).length ≤ r.length :=
      Nat.le_trans (List.length_take_le' _ _) (List.takeWhile_sublist _).length_le
    have hoct : (((c :: r).takeWhile isOctChar).take 3).length ≤ (c :: r).length :=
      Nat.le_trans (List.length_take_le' _ _) (List.takeWhile_sublist _).length_le
    unfold recognised at h
    dsimp only at h
    split at h
    next =>
      cases h
      exact ⟨Nat.le_refl _, Nat.succ_le_succ (Nat.zero_le _)⟩
    next =>
      split at h
      next =>
        cases h
        exact ⟨Nat.succ_pos _, Nat.succ_le_succ hhex⟩
      next =>
        split at h
        next hne =>
          cases h
          exact ⟨List.length_pos_of_ne_nil hne, hoct⟩
        next => cases h

/-- There is a string of length `n` at place `q`. -/
structure TextAt (buf : List UInt8) (q n : ℕ) : Prop where
  text : ∀ j < n, ∃ c, buf[q + j]? = some c ∧ c ≠ 0
  stop : buf[q + n]? = some 0

theorem TextAt.strlen {buf : List UInt8} {q n : ℕ} (h : TextAt buf q n) : strlen buf q = some n := by
  obtain ⟨hlt, hzero⟩ := List.getElem?_eq_some_iff.mp h.stop
  apply List.idxOf?_eq_some_iff.mpr
  refine ⟨by rw [List.length_drop]; omega, by rw [List.getElem_drop]; exact hzero, ?_⟩
  intro j hj hzero
  obtain ⟨c, hc, hne⟩ := h.text j hj
  obtain ⟨_, hget⟩ := List.getElem?_eq_some_iff.mp hc
  rw [List.getElem_drop, hget] at hzero
  exact hne hzero

/-- A zero somewhere ends the string there or before. -/
theorem strlen_of_zero {buf : List UInt8} {q n : ℕ} (h : buf[q + n]? = some 0) : ∃ m ≤ n, strlen buf q = some m := by
  have hmem : 0 ∈ buf.drop q := by
    rw [← List.getElem?_drop] at h
    exact List.mem_of_getElem? h
  obtain ⟨m, hm⟩ := Option.isSome_iff_exists.mp (List.isSome_idxOf?.mpr hmem)
  refine ⟨m, ?_, hm⟩
  obtain ⟨_, _, hbefore⟩ := List.idxOf?_eq_some_iff.mp hm
  apply Nat.le_of_not_lt
  intro hlt
  obtain ⟨hn, hzero⟩ := List.getElem?_eq_some_iff.mp h
  apply hbefore n hlt
  rw [List.getElem_drop]
  exact hzero

/-- The bytes from `p + 1` to `p + i` are those of `orig` that lie `offset` further on. -/
def Shifted (orig buf : List UInt8) (p offset i : ℕ) : Prop :=
  ∀ k, buf[k]? = if p + 1 ≤ k ∧ k < p + 1 + i then orig[k + offset]? else orig[k]?

section
variable {orig buf : List UInt8} {p offset n i : ℕ} (htext : TextAt orig (p + offset + 1) n)
  (hbuf : Shifted orig buf p offset i)
include htext hbuf

/-- While the string is not through, its end is still where it was. -/
theorem Shifted.textAt (hi : i ≤ n) : TextAt buf (p + offset + 1) n := by
  constructor
  · intro j hj
    rw [hbuf]
    split
    next hin =>
      obtain ⟨c, hc, hne⟩ := htext.text (j + offset) (by omega)
      refine ⟨c, ?_, hne⟩
      rw [← hc]
      congr 1
      omega
    next => exact htext.text j hj
  · rw [hbuf, if_neg (by omega)]
    exact htext.stop

/-- Once it is through, a zero lies at its new end or before. -/
theorem Shifted.zero (hi : i = n + 1) : ∃ m ≤ n, strlen buf (p + offset + 1) = some m := by
  by_cases hle : offset ≤ n
  · have hzero : buf[p + offset + 1 + (n - offset)]? = some 0 := by
      rw [hbuf, if_pos (by omega), ← htext.stop]
      congr 1
      omega
    obtain ⟨m, hm, hstrlen⟩ := strlen_of_zero hzero
    exact ⟨m, by omega, hstrlen⟩
  · apply strlen_of_zero
    rw [hbuf, if_neg (by omega)]
    exact htext.stop

theorem Shifted.get (hi : i ≤ n) : ∃ c, buf[p + offset + 1 + i]? = some c ∧ orig[p + 1 + i + offset]? = some c := by
  rw [hbuf, if_neg (by omega), show p + offset + 1 + i = p + 1 + i + offset by omega]
  have hplace : p + offset + 1 + i = p + 1 + i + offset := by omega
  rcases Nat.lt_or_eq_of_le hi with hlt | rfl
  · obtain ⟨c, hc, -⟩ := htext.text i hlt
    rw [hplace] at hc
    exact ⟨c, hc, hc⟩
  · have hstop := htext.stop
    rw [hplace] at hstop
    exact ⟨0, hstop, hstop⟩

omit htext in
theorem Shifted.set {c : UInt8} (hc : orig[p + 1 + i + offset]? = some c) (hlt : p + 1 + i < buf.length) :
    Shifted orig (buf.set (p + 1 + i) c) p offset (i + 1) := by
  intro k
  rw [List.getElem?_set]
  by_cases hk : p + 1 + i = k
  · subst hk
    rw [if_pos rfl, if_pos hlt, if_pos (by omega), hc]
  · rw [if_neg hk, hbuf]
    by_cases hin : p + 1 ≤ k ∧ k < p + 1 + i
    · rw [if_pos hin, if_pos (by omega)]
    · rw [if_neg hin, if_neg (by omega)]

end

/-- The loop moves the string with its terminator and stops. -/
theorem shift_spec {orig buf : List UInt8} {p offset n i : ℕ} (htext : TextAt orig (p + offset + 1) n)
    (hbuf : Shifted orig buf p offset i) (hi : i ≤ n + 1) :
    ∃ out, shift p offset buf i = some out ∧ Shifted orig out p offset (n + 1) := by
  induction h : n + 1 - i generalizing buf i with
  | zero =>
    have hdone : i = n + 1 := by omega
    obtain ⟨m, hm, hstrlen⟩ := hbuf.zero htext hdone
    refine ⟨buf, ?_, hdone ▸ hbuf⟩
    rw [shift]
    split
    next hnone => rw [hstrlen] at hnone; cases hnone
    next l hl =>
      rw [hstrlen] at hl
      cases hl
      exact if_neg (by omega)
  | succ d ih =>
    have hle : i ≤ n := by omega
    obtain ⟨c, hget, hc⟩ := hbuf.get htext hle
    have hlt : p + 1 + i < buf.length := by
      obtain ⟨hlt, -⟩ := List.getElem?_eq_some_iff.mp hget
      omega
    obtain ⟨out, hout, hfinal⟩ := ih (hbuf.set hc hlt) (by omega) (by omega)
    refine ⟨out, ?_, hfinal⟩
    rw [shift]
    split
    next hnone => rw [(hbuf.textAt htext hle).strlen] at hnone; cases hnone
    next l hl =>
      rw [(hbuf.textAt htext hle).strlen] at hl
      cases hl
      rw [if_pos hle]
      split
      next hnone => rw [hget] at hnone; cases hnone
      next c' hc' =>
        rw [hget] at hc'
        cases hc'
        split
        next hset =>
          rw [setByte, if_pos hlt] at hset
          cases hset
        next buf' hset =>
          rw [setByte, if_pos hlt] at hset
          cases hset
          exact hout

theorem memset_spec {buf : List UInt8} {p n : ℕ} (c : UInt8) (h : p + n ≤ buf.length) :
    ∃ out, memset buf p c n = some out ∧ ∀ k, (k < p ∨ p + n ≤ k) → out[k]? = buf[k]? := by
  induction n generalizing buf p with
  | zero => exact ⟨buf, rfl, fun k _ => rfl⟩
  | succ n ih =>
    have hset : setByte buf p c = some (buf.set p c) := if_pos (by omega)
    obtain ⟨out, hout, hsame⟩ := @ih (buf.set p c) (p + 1) (by rw [List.length_set]; omega)
    refine ⟨out, by rw [memset, hset]; exact hout, fun k hk => ?_⟩
    rw [hsame k (by omega), List.getElem?_set_ne (by omega)]

/-- Closing the gap moves the string behind the escape up with its terminator. The bytes before
the gap and from the old terminator on stay as they are. -/
theorem closeGap_spec {buf : List UInt8} {p offset n : ℕ} (htext : TextAt buf (p + offset + 1) n) :
    ∃ out, closeGap p offset buf = some out ∧ (∀ k ≤ n, out[p + 1 + k]? = buf[p + offset + 1 + k]?) ∧
      ∀ k, (k ≤ p ∨ p + offset + 1 + n ≤ k) → out[k]? = buf[k]? := by
  have hlt : p + offset + 1 + n < buf.length := by
    obtain ⟨hlt, _⟩ := List.getElem?_eq_some_iff.mp htext.stop
    exact hlt
  obtain ⟨mid, hmid, hsame⟩ : ∃ mid, (if n + 1 < offset then memset buf (p + 1) 0 offset else some buf) = some mid ∧
      ∀ k, (k < p + 1 ∨ p + 1 + offset ≤ k) → mid[k]? = buf[k]? := by
    split
    next => exact memset_spec 0 (by omega)
    next => exact ⟨buf, rfl, fun k _ => rfl⟩
  have htext' : TextAt mid (p + offset + 1) n := by
    constructor
    · intro j hj
      rw [hsame _ (by omega)]
      exact htext.text j hj
    · rw [hsame _ (by omega)]
      exact htext.stop
  obtain ⟨out, hout, hshifted⟩ := @shift_spec mid mid p offset n 0 htext' (fun k => by rw [if_neg (by omega)]) (by omega)
  refine ⟨out, ?_, fun k hk => ?_, fun k hk => ?_⟩
  · rw [closeGap, htext.strlen, Option.bind_some, hmid]
    exact hout
  · rw [hshifted, if_pos (by omega), hsame _ (by omega)]
    congr 1
    omega
  · rw [hshifted]
    split
    next hin =>
      have hnone : offset = 0 := by omega
      rw [hnone, Nat.add_zero]
      exact hsame k (by omega)
    next => exact hsame k (by omega)

/-- The backslash at the end of `done` and its escape make room for the character. -/
theorem replace_spec (done esc t tail : List UInt8) (v : UInt8) (ht : 0 ∉ t) :
    ∃ tail', closeGap done.length esc.length ((done ++ 92 :: (esc ++ (t ++ 0 :: tail))).set done.length v) =
        some (done ++ v :: (t ++ 0 :: tail')) ∧ (0 :: tail').drop esc.length = 0 :: tail := by
  have hset : (done ++ 92 :: (esc ++ (t ++ 0 :: tail))).set done.length v = done ++ v :: (esc ++ (t ++ 0 :: tail)) := by
    rw [List.set_append_right _ _ (Nat.le_refl _), Nat.sub_self, List.set_cons_zero]
  have hplace : ∀ k, (done ++ v :: (esc ++ (t ++ 0 :: tail)))[done.length + esc.length + 1 + k]? = (t ++ 0 :: tail)[k]? := by
    intro k
    rw [List.getElem?_append_right (by omega), show done.length + esc.length + 1 + k - done.length = esc.length + k + 1 by omega,
      List.getElem?_cons_succ, List.getElem?_append_right (by omega), Nat.add_sub_cancel_left]
  have htext : TextAt (done ++ v :: (esc ++ (t ++ 0 :: tail))) (done.length + esc.length + 1) t.length := by
    constructor
    · intro j hj
      rw [hplace, List.getElem?_append_left hj, List.getElem?_eq_getElem hj]
      exact ⟨_, rfl, fun hzero => ht (hzero ▸ List.getElem_mem hj)⟩
    · rw [hplace, List.getElem?_append_right (Nat.le_refl _), Nat.sub_self]
      rfl
  obtain ⟨out, hout, hmoved, hsame⟩ := closeGap_spec htext
  have hbegin : done ++ v :: (t ++ [0]) <+: out := by
    apply List.prefix_iff_getElem?.mpr
    intro k hk
    rw [← List.getElem?_eq_getElem hk]
    rw [List.length_append, List.length_cons, List.length_append, List.length_singleton] at hk
    by_cases hle : k ≤ done.length
    · rw [hsame k (Or.inl hle)]
      rcases Nat.lt_or_eq_of_le hle with hlt | rfl
      · rw [List.getElem?_append_left hlt, List.getElem?_append_left hlt]
      · rw [List.getElem?_append_right (Nat.le_refl _), List.getElem?_append_right (Nat.le_refl _), Nat.sub_self]
        rfl
    · obtain ⟨j, rfl⟩ : ∃ j, k = done.length + 1 + j := ⟨k - (done.length + 1), by omega⟩
      have hright : (done ++ v :: (t ++ [0]))[done.length + 1 + j]? = (t ++ [0])[j]? := by
        rw [List.getElem?_append_right (by omega), show done.length + 1 + j - done.length = j + 1 by omega,
          List.getElem?_cons_succ]
      rw [hmoved j (by omega), hplace, hright]
      rcases Nat.lt_or_ge j t.length with hlt | hge
      · rw [List.getElem?_append_left hlt, List.getElem?_append_left hlt]
      · rw [List.getElem?_append_right hge, List.getElem?_append_right hge, show j - t.length = 0 by omega]
        rfl
  obtain ⟨tail', rfl⟩ := hbegin
  have hend : (done ++ v :: (t ++ [0]) ++ tail').drop (done.length + esc.length + 1 + t.length) = 0 :: tail := by
    apply List.ext_getElem?
    intro k
    rw [List.getElem?_drop, hsame _ (Or.inr (by omega)), Nat.add_assoc _ t.length, hplace,
      List.getElem?_append_right (Nat.le_add_right _ _), Nat.add_sub_cancel_left]
  have hjoin : done ++ v :: (t ++ [0]) ++ tail' = done ++ v :: (t ++ 0 :: tail') := by
    simp
  refine ⟨tail', by rw [hset, hout, hjoin], ?_⟩
  rw [← hend, hjoin, show done.length + esc.length + 1 + t.length = done.length + (t.length + esc.length + 1) by omega]
  rw [← List.drop_drop, List.drop_left, List.drop_succ_cons, ← List.drop_drop, List.drop_left]

theorem strchr_none {s : List UInt8} (h : 92 ∉ s) (hs : 0 ∉ s) (tail : List UInt8) :
    strchr 92 (s ++ 0 :: tail) = some none := by
  induction s with
  | nil => rfl
  | cons b s ih =>
    rw [List.mem_cons, not_or] at h hs
    rw [List.cons_append, strchr, if_neg (Ne.symm h.1), if_neg (Ne.symm hs.1), ih h.2 hs.2]
    rfl

theorem strchr_some {a : List UInt8} (h : 92 ∉ a) (ha : 0 ∉ a) (b : List UInt8) :
    strchr 92 (a ++ 92 :: b) = some (some a.length) := by
  induction a with
  | nil => rfl
  | cons c a ih =>
    rw [List.mem_cons, not_or] at h ha
    rw [List.cons_append, strchr, if_neg (Ne.symm h.1), if_neg (Ne.symm ha.1), ih h.2 ha.2]
    rfl

theorem unescape_append {a : List UInt8} (h : 92 ∉ a) (b : List UInt8) : unescape (a ++ b) = a ++ unescape b := by
  induction a with
  | nil => rfl
  | cons c a ih =>
    rw [List.mem_cons, not_or] at h
    rw [List.cons_append, unescape, if_neg (Ne.symm h.1), ih h.2]
    rfl

theorem unescape_backslash (b : List UInt8) : unescape (92 :: b) =
    match recognised b with
    | some (v, n) => UInt8.ofNat v :: unescape (b.drop n)
    | none => 92 :: unescape b := by
  rw [unescape, if_pos rfl]

/-- A string without a backslash is left alone. -/
theorem formatFrom_plain (done : List UInt8) {s : List UInt8} (hs : 0 ∉ s) (hplain : 92 ∉ s) (tail : List UInt8) :
    formatFrom (done ++ (s ++ 0 :: tail)) done.length = some (done ++ (s ++ 0 :: tail)) := by
  have hchr := strchr_none hplain hs tail
  rw [formatFrom]
  split
  next h => rw [List.drop_left, hchr] at h; cases h
  next => rfl
  next k h => rw [List.drop_left, hchr] at h; cases h

/-- One turn of the loop, at the first backslash. -/
theorem formatFrom_backslash (done : List UInt8) {a b : List UInt8} (ha : 92 ∉ a) (ha0 : 0 ∉ a) (hb0 : 0 ∉ b)
    (hb : b ≠ []) (tail : List UInt8) :
    formatFrom (done ++ (a ++ 92 :: b ++ 0 :: tail)) done.length =
      match recognised b with
      | none => formatFrom (done ++ (a ++ 92 :: b ++ 0 :: tail)) (done.length + a.length + 1)
      | some (v, n) =>
        (closeGap (done.length + a.length) n
          ((done ++ (a ++ 92 :: b ++ 0 :: tail)).set (done.length + a.length) (UInt8.ofNat v))).bind fun buf =>
            formatFrom buf (done.length + a.length + 1) := by
  have hchr : strchr 92 (a ++ 92 :: b ++ 0 :: tail) = some (some a.length) := by
    rw [List.append_assoc]
    exact strchr_some ha ha0 _
  have hrest : (done ++ (a ++ 92 :: b ++ 0 :: tail)).drop (done.length + a.length + 1) = b ++ 0 :: tail := by
    rw [Nat.add_assoc, ← List.drop_drop, List.drop_left, ← List.drop_drop, List.append_assoc, List.drop_left]
    rfl
  have hnext : (done ++ (a ++ 92 :: b ++ 0 :: tail)).getD (done.length + a.length + 1) 0 ≠ 0 := by
    obtain ⟨c, r, rfl⟩ := List.exists_cons_of_ne_nil hb
    have hhead := congrArg List.head? hrest
    rw [List.head?_drop] at hhead
    rw [List.getD, hhead]
    exact fun hzero => hb0 (List.mem_cons.mpr (Or.inl hzero.symm))
  conv_lhs => rw [formatFrom]
  split
  next h => rw [List.drop_left, hchr] at h; cases h
  next h => rw [List.drop_left, hchr] at h; cases h
  next k h =>
    rw [List.drop_left, hchr] at h
    cases h
    rw [if_neg hnext, hrest, covertEscToAscII_eq hb]
    cases recognised b with
    | none => rfl
    | some e =>
      obtain ⟨v, n⟩ := e
      show (match _h : closeGap _ n _ with | none => none | some buf' => formatFrom buf' _) = _
      split
      next hgap =>
        dsimp only at hgap ⊢
        rw [hgap]
        rfl
      next buf' hgap =>
        dsimp only at hgap ⊢
        rw [hgap]
        rfl

/-- A backslash at the end of the string stays. -/
theorem formatFrom_last (done : List UInt8) {a : List UInt8} (ha : 92 ∉ a) (ha0 : 0 ∉ a) (tail : List UInt8) :
    formatFrom (done ++ (a ++ 92 :: 0 :: tail)) done.length = some (done ++ (a ++ 92 :: 0 :: tail)) := by
  have hchr := strchr_some ha ha0 (0 :: tail)
  have hnext : (done ++ (a ++ 92 :: 0 :: tail)).getD (done.length + a.length + 1) 0 = 0 := by
    have hrest : (done ++ (a ++ 92 :: 0 :: tail)).drop (done.length + a.length + 1) = 0 :: tail := by
      rw [Nat.add_assoc, ← List.drop_drop, List.drop_left, ← List.drop_drop, List.drop_left]
      rfl
    rw [List.getD, ← List.head?_drop, hrest]
    rfl
  rw [formatFrom]
  split
  next h => simp [hchr] at h
  next h => simp [hchr] at h
  next k h =>
    rw [List.drop_left, hchr] at h
    cases h
    exact if_pos hnext

/-- From any place on the string is resolved and everything before it is kept. -/
theorem formatFrom_spec (done s tail : List UInt8) (hs : 0 ∉ s) :
    ∃ out, formatFrom (done ++ (s ++ 0 :: tail)) done.length = some out ∧ done ++ (unescape s ++ [0]) <+: out ∧
      out.drop (done.length + s.length) = 0 :: tail := by
  induction h : s.length using Nat.strong_induction_on generalizing done s tail with
  | _ n ih =>
    subst h
    have hplain : ∀ {t : List UInt8}, 92 ∉ t → unescape t = t := by
      intro t ht
      rw [← List.append_nil t, unescape_append ht, List.append_nil]
      simp [unescape]
    by_cases hmem : 92 ∈ s
    · obtain ⟨a, b, rfl, ha⟩ := List.eq_append_cons_of_mem hmem
      rw [List.mem_append, List.mem_cons, not_or, not_or] at hs
      obtain ⟨ha0, -, hb0⟩ := hs
      by_cases hb : b = []
      · subst hb
        have hlast : unescape (a ++ [92]) = a ++ [92] := by
          rw [unescape_append ha, unescape_backslash]
          simp [recognised, unescape]
        have hjoin : a ++ [92] ++ 0 :: tail = a ++ 92 :: 0 :: tail := by simp
        rw [hlast, hjoin]
        refine ⟨_, formatFrom_last done ha ha0 tail, ?_, ?_⟩
        · simp
        · rw [← List.drop_drop, List.drop_left, ← hjoin, List.drop_left]
      · rw [formatFrom_backslash done ha ha0 hb0 hb, unescape_append ha, unescape_backslash]
        cases hrec : recognised b with
        | none =>
          obtain ⟨out, hout, hbegin, hend⟩ := ih b.length (by rw [List.length_append, List.length_cons]; omega)
            (done ++ (a ++ [92])) b tail hb0 rfl
          have hjoin : done ++ (a ++ [92]) ++ (b ++ 0 :: tail) = done ++ (a ++ 92 :: b ++ 0 :: tail) := by simp
          have hlength : (done ++ (a ++ [92])).length = done.length + a.length + 1 := by
            rw [List.length_append, List.length_append, List.length_singleton]
            omega
          rw [hjoin, hlength] at hout
          refine ⟨out, hout, ?_, ?_⟩
          · have hsame : done ++ (a ++ [92]) ++ (unescape b ++ [0]) = done ++ (a ++ 92 :: unescape b ++ [0]) := by simp
            rw [hsame] at hbegin
            exact hbegin
          · rw [hlength] at hend
            rw [List.length_append, List.length_cons, ← hend]
            congr 1
            omega
        | some e =>
          obtain ⟨v, n⟩ := e
          obtain ⟨hpos, hle⟩ := recognised_bounds hrec
          have hesc : (b.take n).length = n := List.length_take_of_le hle
          have hdrop0 : 0 ∉ b.drop n := fun h => hb0 (List.mem_of_mem_drop h)
          obtain ⟨tail', hgap, hold⟩ := replace_spec (done ++ a) (b.take n) (b.drop n) tail (UInt8.ofNat v) hdrop0
          rw [hesc] at hgap hold
          have hsplit : done ++ a ++ 92 :: (b.take n ++ (b.drop n ++ 0 :: tail)) = done ++ (a ++ 92 :: b ++ 0 :: tail) := by
            rw [← List.append_assoc (b.take n), List.take_append_drop]
            simp
          rw [hsplit, List.length_append] at hgap
          dsimp only
          rw [hgap, Option.bind_some]
          obtain ⟨out, hout, hbegin, hend⟩ := ih (b.drop n).length
            (by rw [List.length_append, List.length_cons, List.length_drop]; omega)
            (done ++ (a ++ [UInt8.ofNat v])) (b.drop n) tail' hdrop0 rfl
          have hjoin : done ++ (a ++ [UInt8.ofNat v]) ++ (b.drop n ++ 0 :: tail') =
              done ++ a ++ UInt8.ofNat v :: (b.drop n ++ 0 :: tail') := by simp
          have hlength : (done ++ (a ++ [UInt8.ofNat v])).length = done.length + a.length + 1 := by
            rw [List.length_append, List.length_append, List.length_singleton]
            omega
          rw [hjoin, hlength] at hout
          refine ⟨out, hout, ?_, ?_⟩
          · have hsame : done ++ (a ++ [UInt8.ofNat v]) ++ (unescape (b.drop n) ++ [0]) =
                done ++ (a ++ UInt8.ofNat v :: unescape (b.drop n) ++ [0]) := by simp
            rw [hsame] at hbegin
            exact hbegin
          · rw [hlength, List.length_drop] at hend
            rw [List.length_append, List.length_cons, ← hold, ← hend, List.drop_drop]
            congr 1
            omega
    · rw [hplain hmem]
      refine ⟨_, formatFrom_plain done hs hmem tail, ?_, ?_⟩
      · simp
      · rw [← List.drop_drop, List.drop_left, List.drop_left]

/-! ### The string on its own -/

theorem getD_nul (s : List UInt8) (i : ℕ) : (s ++ [0]).getD i 0 = s.getD i 0 := by
  rcases Nat.lt_or_ge i s.length with hi | hi
  · rw [List.getD, List.getElem?_append_left hi]
    rfl
  · rw [List.getD, List.getD, List.getElem?_append_right hi, List.getElem?_eq_none hi]
    cases i - s.length <;> rfl

theorem covertEscToAscII_nul (s : List UInt8) : covertEscToAscII (s ++ [0]) = covertEscToAscII s := by
  simp only [covertEscToAscII, getD_nul]

theorem formatEscapeChar_eq_unescape (s : List UInt8) : AtEscapedParam.formatEscapeChar s = unescape s := by
  fun_induction AtEscapedParam.formatEscapeChar s with
  | case1 => simp [unescape]
  | case2 c rest h esc offset hconv ih =>
    rw [← covertEscToAscII_nul, covertEscToAscII_eq h.2] at hconv
    obtain ⟨⟨v, n⟩, hrec, heq⟩ := Option.map_eq_some_iff.mp hconv
    cases heq
    rw [h.1, unescape_backslash, hrec, ih]
  | case3 c rest h hconv ih =>
    rw [← covertEscToAscII_nul, covertEscToAscII_eq h.2, Option.map_eq_none_iff] at hconv
    rw [h.1, unescape_backslash, hconv, ih]
  | case4 c rest h ih =>
    rw [ih]
    by_cases hc : c = 92
    · obtain rfl : rest = [] := by_contra fun hne => h ⟨hc, hne⟩
      rw [hc, unescape_backslash]
      simp [recognised]
    · have hsingle : 92 ∉ [c] := fun hmem => hc (List.mem_singleton.mp hmem).symm
      exact (unescape_append hsingle rest).symm

/-- What becomes of the string in the buffer is what the function on strings gives. -/
theorem formatEscapeChar_inPlace (s rest : List UInt8) (hs : 0 ∉ s) :
    ∃ out, formatEscapeChar (s ++ 0 :: rest) = some out ∧ AtEscapedParam.formatEscapeChar s ++ [0] <+: out := by
  obtain ⟨out, hout, hbegin, -⟩ := formatFrom_spec [] s rest hs
  rw [formatEscapeChar_eq_unescape]
  exact ⟨out, hout, hbegin⟩

/-- In place, the string becomes what one pass over it makes of it, no byte outside the buffer
is touched and none from the old terminator on changes, whatever lies behind it. -/
theorem formatEscapeChar_unescaped (s rest : List UInt8) (hs : 0 ∉ s) :
    ∃ out, formatEscapeChar (s ++ 0 :: rest) = some out ∧ Unescaped s rest out := by
  obtain ⟨out, hout, hbegin, hend⟩ := formatFrom_spec [] s rest hs
  rw [List.length_nil, Nat.zero_add] at hend
  exact ⟨out, hout, hbegin, hend⟩

/-- `a\101b\q\x4a\0` loses three escapes and keeps the unknown one. -/
theorem formatEscapeChar_unescaped_sample :
    ∃ out, formatEscapeChar ([97, 92, 49, 48, 49, 98, 92, 113, 92, 120, 52, 97, 92, 48] ++ [0]) = some out ∧
      Unescaped [97, 92, 49, 48, 49, 98, 92, 113, 92, 120, 52, 97, 92, 48] [] out :=
  formatEscapeChar_unescaped [97, 92, 49, 48, 49, 98, 92, 113, 92, 120, 52, 97, 92, 48] [] (by decide)

end NbiotXY1100.EscapeBuffer
