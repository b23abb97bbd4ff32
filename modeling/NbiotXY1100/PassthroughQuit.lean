import NbiotXY1100.CStrings
import NbiotXY1100.StepRuns
import NbiotXY1100.SymbolRuns

/-! # The exit symbol of passthrough mode

`find_ppp_quit_symbol` looks for "+++" in a byte stream that arrives in chunks. It keeps
up to two bytes of a chunk in a four byte buffer and searches with C string functions. -/
namespace NbiotXY1100.PassthroughQuit
open CStrings StepRuns SymbolRuns

/-- `PPP_QUIT_SYMBOL`, the byte `+` three times. -/
def pppQuitSymbol : List UInt8 := [43, 43, 43]

/-- `ppp_tail_buff` and `ppp_rcvd_tail_len`. -/
structure PppTail where
  pppTailBuff : List UInt8
  pppRcvdTailLen : ℕ
  deriving DecidableEq, Repr

/-- The state after `memset`. -/
def PppTail.empty : PppTail := ⟨[0, 0, 0, 0], 0⟩

/-- The received bytes at `buf`, and what the heap holds behind them. -/
structure Chunk where
  data : List UInt8
  behind : List UInt8
  data_ne_nil : data ≠ []

def memcpy (dst : List UInt8) (offset : ℕ) (src : List UInt8) : List UInt8 :=
  dst.take offset ++ src ++ dst.drop (offset + src.length)

/-- The search at the end of the chunk, after `ppp_tail_buff` was cleared. -/
def findAtEnd (c : Chunk) (pppRcvdTailLen : ℕ) : Bool × PppTail :=
  if 3 ≤ c.data.length then
    if c.data.drop (c.data.length - 3) = pppQuitSymbol then (true, PppTail.empty)
    else if pppQuitSymbol <:+: cString (c.data ++ c.behind) then (true, PppTail.empty)
    else if c.data.drop (c.data.length - 2) = [43, 43] then (false, ⟨[43, 43, 0, 0], 2⟩)
    else if c.data.drop (c.data.length - 1) = [43] then (false, ⟨[43, 0, 0, 0], 1⟩)
    else (false, ⟨[0, 0, 0, 0], pppRcvdTailLen⟩)
  else (false, ⟨memcpy [0, 0, 0, 0] 0 c.data, c.data.length⟩)

def findPppQuitSymbol (c : Chunk) (s : PppTail) : Bool × PppTail :=
  let tail :=
    if c.data.length ≤ 3 - s.pppRcvdTailLen then memcpy s.pppTailBuff s.pppRcvdTailLen c.data
    else memcpy s.pppTailBuff s.pppRcvdTailLen (c.data.take (3 - s.pppRcvdTailLen))
  if cString tail = pppQuitSymbol then (true, PppTail.empty)
  else if (cString tail).length = 1 ∧ tail.head? = some 43 then (false, ⟨tail, 1⟩)
  else if (cString tail).length = 2 ∧ cString tail = [43, 43] then (false, ⟨tail, 2⟩)
  else findAtEnd c s.pppRcvdTailLen

/-- One call while passthrough mode lasts; a chunk that ends it is not taken. -/
def pppFeed (c : Chunk) (s : PppTail) : Option PppTail :=
  let (quit, s) := findPppQuitSymbol c s
  if quit then none else some s

def received (chunks : List Chunk) : List UInt8 := chunks.flatMap Chunk.data

def QuitSeen (bytes : List UInt8) : Prop := pppQuitSymbol <:+: bytes

instance (bytes : List UInt8) : Decidable (QuitSeen bytes) :=
  inferInstanceAs (Decidable (_ <:+: _))

/-- The bytes that the buffer keeps from the chunks before. -/
def PppTail.carry (s : PppTail) : List UInt8 := s.pppTailBuff.take s.pppRcvdTailLen

/-- What a chunk must satisfy for the search to be exact: no NUL byte behind the pluses
that the kept bytes and the chunk begin with, no difference between the C string that
`strstr` searches and the bytes received, and no chunk that is one or two pluses after a
chunk of two bytes of which only the second is a plus. -/
structure ChunkOk (c : Chunk) (s : PppTail) : Prop where
  window : ¬[43, 0] <+: s.carry ++ c.data ∧ ¬[43, 43, 0] <+: s.carry ++ c.data
  scanned : 3 ≤ c.data.length → ¬pppQuitSymbol <+: s.carry ++ c.data → ¬pppQuitSymbol <:+ c.data →
    (QuitSeen (cString (c.data ++ c.behind)) ↔ QuitSeen (s.carry ++ c.data))
  carried : c.data.length < 3 → (∀ b ∈ c.data, b = 43) → ∀ x, s.carry = [x, 43] → x = 43

/-- The buffer holds the kept bytes followed by zeros. -/
structure WellFormed (s : PppTail) : Prop where
  len_le : s.pppRcvdTailLen ≤ 2
  tail_eq : s.pppTailBuff = s.carry ++ List.replicate (4 - s.pppRcvdTailLen) 0

theorem scan_eq_none_iff_quitSeen (bytes : List UInt8) : scan (43 : UInt8) 3 0 bytes = none ↔ QuitSeen bytes :=
  scan_zero_eq_none_iff (by decide) bytes

/-- An answer about the bytes that are known to matter: they hold the symbol, or the new
buffer stands for them. -/
def Exact (bytes : List UInt8) : Bool × PppTail → Prop
  | (true, _) => QuitSeen bytes
  | (false, s) => ¬QuitSeen bytes ∧ WellFormed s ∧ scan (43 : UInt8) 3 0 s.carry = scan 43 3 0 bytes

private theorem exists_lastThree {l : List UInt8} (h : 3 ≤ l.length) : ∃ pre p q r, l = pre ++ [p, q, r] := by
  have hlen : (l.drop (l.length - 3)).length = 3 := by
    rw [List.length_drop]
    omega
  obtain ⟨p, q, r, hpqr⟩ := List.length_eq_three.mp hlen
  exact ⟨l.take (l.length - 3), p, q, r, by rw [← hpqr, List.take_append_drop]⟩

/-- The number of trailing pluses is read off the last three bytes. -/
private theorem scan_lastThree {l : List UInt8} {p q r : UInt8} (h : ¬QuitSeen (l ++ [p, q, r])) :
    scan (43 : UInt8) 3 0 (l ++ [p, q, r]) =
      if r = 43 then if q = 43 then some 2 else some 1 else some 0 := by
  rw [← scan_eq_none_iff_quitSeen, scan_append] at h
  rw [scan_append]
  cases hl : scan (43 : UInt8) 3 0 l with
  | none => simp [hl] at h
  | some j =>
    simp only [hl, Option.bind_some, scan_cons, scan_nil] at h ⊢
    split_ifs at h ⊢ <;> simp_all
    omega

/-- A cleared buffer stands for no plus, whatever length the last call left behind. -/
private theorem wellFormed_cleared {n : ℕ} (h : n ≤ 2) :
    WellFormed ⟨[0, 0, 0, 0], n⟩ ∧ scan (43 : UInt8) 3 0 (PppTail.carry ⟨[0, 0, 0, 0], n⟩) = some 0 := by
  match n, h with
  | 0, _ => exact ⟨⟨by decide, rfl⟩, rfl⟩
  | 1, _ => exact ⟨⟨by decide, rfl⟩, rfl⟩
  | 2, _ => exact ⟨⟨by decide, rfl⟩, rfl⟩

private theorem exact_findAtEnd_long {c : Chunk} {s : PppTail} (hs : WellFormed s) (hc : ChunkOk c s)
    (hlen : 3 ≤ c.data.length) (hstart : ¬pppQuitSymbol <+: s.carry ++ c.data) :
    Exact (s.carry ++ c.data) (findAtEnd c s.pppRcvdTailLen) := by
  obtain ⟨pre, p, q, r, hdata⟩ := exists_lastThree hlen
  have hthree : c.data.drop (c.data.length - 3) = [p, q, r] := by simp [hdata]
  have htwo : c.data.drop (c.data.length - 2) = [q, r] := by simp [hdata, List.drop_append]
  have hone : c.data.drop (c.data.length - 1) = [r] := by simp [hdata, List.drop_append]
  have hscanned := hc.scanned hlen hstart
  have hlast := scan_lastThree (l := s.carry ++ pre) (p := p) (q := q) (r := r)
  simp only [findAtEnd, hlen, if_true, hthree, htwo, hone]
  rw [List.append_assoc] at hlast
  rw [hdata] at hscanned ⊢
  split_ifs with hend hfound hpp hp
  · exact hend ▸ ⟨s.carry ++ pre, [], by simp⟩
  all_goals
    have hsuffix : ¬pppQuitSymbol <:+ pre ++ [p, q, r] := by
      rintro ⟨t, ht⟩
      exact hend (List.append_inj' ht rfl).2.symm
    have hiff := hscanned hsuffix
  · exact hiff.mp hfound
  all_goals
    have hno := fun h => hfound (hiff.mpr h)
    refine ⟨hno, ?_⟩
    rw [hlast hno]
  · obtain ⟨rfl, rfl⟩ : q = 43 ∧ r = 43 := by simpa using hpp
    exact ⟨⟨by decide, rfl⟩, rfl⟩
  · obtain rfl : r = 43 := by simpa using hp
    have hq : q ≠ 43 := by simpa using hpp
    simp only [hq, if_true, if_false]
    exact ⟨⟨by decide, rfl⟩, rfl⟩
  · have hr : r ≠ 43 := by simpa using hp
    simp only [hr, if_false]
    exact wellFormed_cleared hs.len_le

private theorem cString_append_zeros (w : List UInt8) (m : ℕ) :
    cString (w ++ List.replicate m 0) = cString w := by
  induction w with
  | nil => cases m <;> simp [cString, List.replicate_succ]
  | cons b w ih =>
    simp only [cString, List.cons_append, List.takeWhile_cons] at ih ⊢
    rw [ih]

theorem WellFormed.carry_length {s : PppTail} (hs : WellFormed s) : s.carry.length = s.pppRcvdTailLen := by
  have h := congrArg List.length hs.tail_eq
  have hle := hs.len_le
  simp only [PppTail.carry, List.length_append, List.length_take, List.length_replicate] at h ⊢
  omega

/-- The buffer is filled with the first three of the bytes that matter. -/
private theorem memcpy_tail {s : PppTail} (hs : WellFormed s) (data : List UInt8) :
    memcpy s.pppTailBuff s.pppRcvdTailLen (data.take (3 - s.pppRcvdTailLen)) =
      (s.carry ++ data).take 3 ++ List.replicate (4 - ((s.carry ++ data).take 3).length) 0 := by
  have hlen := hs.carry_length
  have hle := hs.len_le
  have hhead : s.pppTailBuff.take s.pppRcvdTailLen = s.carry := rfl
  have hbehind : ∀ m, s.pppTailBuff.drop (s.pppRcvdTailLen + m) =
      List.replicate (4 - s.pppRcvdTailLen - m) 0 := fun m => by
    rw [hs.tail_eq, ← hlen, List.drop_append]
    simp
  have hkept : s.carry.take 3 = s.carry := List.take_of_length_le (by omega)
  rw [memcpy, hhead, hbehind, List.take_append, hkept, hlen, List.length_append, hlen, Nat.sub_sub]

private theorem scan_short_ne_none {k : ℕ} {l : List UInt8} (h : k + l.length < 3) : scan (43 : UInt8) 3 k l ≠ none := by
  induction l generalizing k with
  | nil => simp
  | cons b l ih =>
    simp only [List.length_cons] at h
    rw [scan_cons]
    split_ifs
    · exact ih (by omega)
    · omega
    · exact ih (by omega)

/-- A short chunk with another byte than a plus makes the kept bytes forgotten. -/
private theorem scan_short_eq {k : ℕ} {l : List UInt8} (hlen : l.length < 3) (hl : ¬∀ b ∈ l, b = 43)
    (hk : k < 2 ∨ l.head? ≠ some 43) : scan (43 : UInt8) 3 k l = scan 43 3 0 l := by
  match l, hlen with
  | [], _ => simp at hl
  | [a], _ =>
    have ha : a ≠ 43 := by simpa using hl
    simp [scan_cons, ha]
  | [a, b], _ =>
    cases decEq a 43 with
    | isFalse ha => simp [scan_cons, ha]
    | isTrue ha =>
      have hb : b ≠ 43 := by simpa [ha] using hl
      have hk : k < 2 := by simpa [ha] using hk
      simp [scan_cons, ha, hb, show k + 1 < 3 by omega]

/-- Where the window matches no plus pattern, a short chunk replaces the kept bytes and
these did not matter any more. -/
private theorem scan_append_short {d l : List UInt8} (hd : d.length ≤ 2) (hl : l.length < 3) (hne : l ≠ [])
    (h₂ : (d ++ l).take 3 ≠ [43, 43]) (h₃ : (d ++ l).take 3 ≠ [43, 43, 43])
    (hcarried : (∀ b ∈ l, b = 43) → ∀ x, d = [x, 43] → x = 43) :
    scan (43 : UInt8) 3 0 (d ++ l) = scan 43 3 0 l := by
  obtain ⟨a, l, rfl⟩ := List.exists_cons_of_ne_nil hne
  rcases d with _ | ⟨x, _ | ⟨y, _ | ⟨z, t⟩⟩⟩
  · rfl
  · cases decEq x 43 with
    | isFalse hx => simp [scan_cons, hx]
    | isTrue hx =>
      subst hx
      refine scan_short_eq (k := 1) hl (fun hall => ?_) (.inl (by omega))
      rcases l with _ | ⟨b, _ | ⟨c, t⟩⟩
      · exact h₂ (by simpa using hall)
      · exact h₃ (by simpa using hall)
      · simp only [List.length_cons] at hl
        omega
  · cases decEq y 43 with
    | isFalse hy => simp [scan_cons, hy]
    | isTrue hy =>
      subst hy
      cases decEq x 43 with
      | isFalse hx =>
        have hone : scan (43 : UInt8) 3 0 ([x, 43] ++ a :: l) = scan 43 3 1 (a :: l) := by simp [scan_cons, hx]
        rw [hone]
        exact scan_short_eq (k := 1) hl (fun hall => hx (hcarried hall x rfl)) (.inl (by omega))
      | isTrue hx =>
        subst hx
        have ha : a ≠ 43 := fun ha => h₃ (by simp [ha])
        exact scan_short_eq (k := 2) hl (fun hall => ha (hall a List.mem_cons_self)) (.inr (by simpa using ha))
  · simp at hd

/-- A short chunk replaces the kept bytes, which then must not have mattered. -/
private theorem exact_findAtEnd_short {c : Chunk} {s : PppTail} (hs : WellFormed s) (hc : ChunkOk c s)
    (hlen : c.data.length < 3) (h₂ : (s.carry ++ c.data).take 3 ≠ [43, 43])
    (h₃ : (s.carry ++ c.data).take 3 ≠ [43, 43, 43]) :
    Exact (s.carry ++ c.data) (findAtEnd c s.pppRcvdTailLen) := by
  have hcarry : s.carry.length ≤ 2 := hs.carry_length.trans_le hs.len_le
  have hscan := scan_append_short hcarry hlen c.data_ne_nil h₂ h₃ (hc.carried hlen)
  have hwf : WellFormed ⟨memcpy [0, 0, 0, 0] 0 c.data, c.data.length⟩ ∧
      PppTail.carry ⟨memcpy [0, 0, 0, 0] 0 c.data, c.data.length⟩ = c.data := by
    match c.data, hlen with
    | [], _ => exact ⟨⟨by simp, rfl⟩, rfl⟩
    | [a], _ => exact ⟨⟨by simp, rfl⟩, rfl⟩
    | [a, b], _ => exact ⟨⟨by simp, rfl⟩, rfl⟩
  simp only [findAtEnd, show ¬3 ≤ c.data.length by omega, if_false]
  refine ⟨?_, hwf.1, by rw [hwf.2, hscan]⟩
  rw [← scan_eq_none_iff_quitSeen, hscan]
  exact scan_short_ne_none (by omega)

private theorem eq_or_prefix_of_cString {w p : List UInt8} (h : cString w = p) : w = p ∨ p ++ [0] <+: w := by
  induction w generalizing p with
  | nil => exact .inl h
  | cons b w ih =>
    cases decEq b 0 with
    | isTrue hb =>
      subst hb
      obtain rfl : [] = p := by simpa [cString] using h
      exact .inr ⟨w, rfl⟩
    | isFalse hb =>
      obtain rfl : b :: cString w = p := by simpa [cString, hb] using h
      exact (ih rfl).imp (congrArg (b :: ·)) (List.cons_prefix_cons.mpr ⟨rfl, ·⟩)

/-- The window reads as `p` only if it is `p`, for a chunk without NUL behind pluses. -/
private theorem eq_of_window {d p : List UInt8} (hp : p.length < 3) (hnul : ¬p ++ [0] <+: d)
    (h : cString (d.take 3) = p) : d = p := by
  cases eq_or_prefix_of_cString h with
  | inl heq =>
    have hlen := congrArg List.length heq
    rw [List.length_take] at hlen
    rwa [List.take_of_length_le (by omega)] at heq
  | inr hinit => exact absurd (hinit.trans (List.take_prefix 3 d)) hnul

/-- The answer of one call is exact if the chunk meets the condition. -/
theorem exact_findPppQuitSymbol {c : Chunk} {s : PppTail} (hs : WellFormed s) (hc : ChunkOk c s) :
    Exact (s.carry ++ c.data) (findPppQuitSymbol c s) := by
  have htail := memcpy_tail hs c.data
  have hsame : (if c.data.length ≤ 3 - s.pppRcvdTailLen then memcpy s.pppTailBuff s.pppRcvdTailLen c.data
      else memcpy s.pppTailBuff s.pppRcvdTailLen (c.data.take (3 - s.pppRcvdTailLen))) =
      (s.carry ++ c.data).take 3 ++ List.replicate (4 - ((s.carry ++ c.data).take 3).length) 0 := by
    split_ifs with hle
    · rw [← htail, List.take_of_length_le hle]
    · exact htail
  obtain ⟨hnul₁, hnul₂⟩ := hc.window
  simp only [findPppQuitSymbol, hsame, cString_append_zeros]
  split_ifs with hquit hone htwo
  · have hw : (s.carry ++ c.data).take 3 = pppQuitSymbol := by
      refine (eq_or_prefix_of_cString hquit).resolve_right fun h => ?_
      have := h.length_le.trans (List.length_take_le 3 _)
      simp [pppQuitSymbol] at this
    exact (hw ▸ List.take_prefix 3 _ : pppQuitSymbol <+: s.carry ++ c.data).isInfix
  · obtain ⟨hlen, hhead⟩ := hone
    obtain ⟨b, hb⟩ := List.length_eq_one_iff.mp hlen
    have hplus : b = 43 := by
      obtain h | ⟨t, h⟩ := eq_or_prefix_of_cString hb
      · simpa [h] using hhead
      · simpa [← h] using hhead
    have hd : s.carry ++ c.data = [43] := eq_of_window (by simp) hnul₁ (hplus ▸ hb)
    rw [hd]
    exact ⟨by decide, ⟨by decide, rfl⟩, rfl⟩
  · have hd : s.carry ++ c.data = [43, 43] := eq_of_window (by simp) hnul₂ htwo.2
    rw [hd]
    exact ⟨by decide, ⟨by decide, rfl⟩, rfl⟩
  · have h₂ : (s.carry ++ c.data).take 3 ≠ [43, 43] := fun h => htwo (by simp [h, cString])
    have h₃ : (s.carry ++ c.data).take 3 ≠ [43, 43, 43] := fun h => hquit (by simp [h, cString, pppQuitSymbol])
    cases Nat.lt_or_ge c.data.length 3 with
    | inl hlt => exact exact_findAtEnd_short hs hc hlt h₂ h₃
    | inr hge =>
      refine exact_findAtEnd_long hs hc hge fun hinit => h₃ ?_
      exact (List.prefix_iff_eq_take.mp hinit).symm

/-- What the state knows about the bytes of the chunks that it was fed. -/
structure Carries (bytes : List UInt8) (s : PppTail) : Prop where
  wellFormed : WellFormed s
  scan_eq : scan (43 : UInt8) 3 0 s.carry = scan 43 3 0 bytes

theorem carries_empty : Carries [] PppTail.empty := ⟨⟨by decide, rfl⟩, rfl⟩

/-- The kept bytes can stand for everything before them. -/
theorem Carries.quitSeen_append {bytes : List UInt8} {s : PppTail} (h : Carries bytes s) (data : List UInt8) :
    scan (43 : UInt8) 3 0 (s.carry ++ data) = scan 43 3 0 (bytes ++ data) := by
  rw [scan_append, scan_append, h.scan_eq]

/-- A call answers whether the symbol has now been seen, and otherwise keeps what matters. -/
theorem findPppQuitSymbol_exact {bytes : List UInt8} {c : Chunk} {s : PppTail} (hs : Carries bytes s)
    (hc : ChunkOk c s) :
    ((findPppQuitSymbol c s).1 = true ↔ QuitSeen (bytes ++ c.data)) ∧
      (¬QuitSeen (bytes ++ c.data) → Carries (bytes ++ c.data) (findPppQuitSymbol c s).2) := by
  have hexact := exact_findPppQuitSymbol hs.wellFormed hc
  have hsame := hs.quitSeen_append c.data
  have hseen : QuitSeen (s.carry ++ c.data) ↔ QuitSeen (bytes ++ c.data) := by
    rw [← scan_eq_none_iff_quitSeen, hsame, scan_eq_none_iff_quitSeen]
  generalize findPppQuitSymbol c s = answer at hexact ⊢
  obtain ⟨quit, s'⟩ := answer
  cases quit with
  | true => exact ⟨iff_of_true rfl (hseen.mp hexact), fun h => absurd (hseen.mp hexact) h⟩
  | false =>
    obtain ⟨hno, hwf, hscan⟩ := hexact
    exact ⟨iff_of_false Bool.false_ne_true (hseen.not.mp hno), fun _ => ⟨hwf, hscan.trans hsame⟩⟩

/-- Chunks without the symbol leave passthrough mode on, if each meets the condition. -/
theorem carries_run {chunks : List Chunk} {bytes : List UInt8} {s : PppTail} (hs : Carries bytes s)
    (hc : Along pppFeed ChunkOk chunks s) (hno : ¬QuitSeen (bytes ++ received chunks)) :
    ∃ t, run pppFeed chunks s = some t ∧ Carries (bytes ++ received chunks) t := by
  induction chunks generalizing bytes s with
  | nil => exact ⟨s, rfl, by simpa [received] using hs⟩
  | cons c chunks ih =>
    have hreceived : bytes ++ received (c :: chunks) = bytes ++ c.data ++ received chunks := by
      simp [received]
    rw [hreceived] at hno ⊢
    have hfirst : ¬QuitSeen (bytes ++ c.data) := fun h => hno (h.trans (List.prefix_append _ _).isInfix)
    obtain ⟨hanswer, hkeeps⟩ := findPppQuitSymbol_exact hs hc.1
    have hfeed : pppFeed c s = some (findPppQuitSymbol c s).2 := by
      simp only [pppFeed, hanswer.not.mpr hfirst]
      rfl
    obtain ⟨t, hrun, ht⟩ := ih (hkeeps hfirst) (hc.2 _ hfeed) hno
    exact ⟨t, by rw [run_cons, hfeed]; exact hrun, ht⟩

/-- Along chunks that meet the condition, every call before the symbol is complete answers
`false`, and the next one answers whether its chunk completes it. -/
theorem quit_exact {chunks : List Chunk} {c : Chunk}
    (hc : Along pppFeed ChunkOk (chunks ++ [c]) PppTail.empty) (hno : ¬QuitSeen (received chunks)) :
    ∃ s, run pppFeed chunks PppTail.empty = some s ∧
      ((findPppQuitSymbol c s).1 = true ↔ QuitSeen (received (chunks ++ [c]))) := by
  have hsplit := (along_append pppFeed).mp hc
  obtain ⟨s, hrun, hs⟩ := carries_run carries_empty hsplit.1 hno
  refine ⟨s, hrun, ?_⟩
  have hlast := (findPppQuitSymbol_exact hs (hsplit.2 s hrun).1).1
  simpa [received] using hlast

/-- The symbol split over two chunks, behind other bytes. -/
theorem quit_exact_split :
    ¬QuitSeen (received [⟨[97, 98, 43], [], by simp⟩]) ∧
      ∃ s, run pppFeed [⟨[97, 98, 43], [], by simp⟩] PppTail.empty = some s ∧
        ((findPppQuitSymbol ⟨[43, 43], [], by simp⟩ s).1 = true ↔ QuitSeen [97, 98, 43, 43, 43]) := by
  refine ⟨by decide, quit_exact ?_ (by decide)⟩
  refine ⟨⟨by decide, by decide, fun h => absurd h (by decide)⟩, fun s hs => ?_⟩
  obtain rfl : PppTail.mk [43, 0, 0, 0] 1 = s := Option.some.inj hs
  refine ⟨⟨by decide, fun h => absurd h (by decide), fun _ _ x hx => ?_⟩, fun _ _ => trivial⟩
  exact absurd (congrArg List.length hx) (by simp [PppTail.carry])

/-- The two pluses after "a+" are not seen to complete the symbol. -/
theorem not_quit_exact_afterShort :
    ¬∀ (chunks : List Chunk) (c : Chunk), ¬QuitSeen (received chunks) →
      ∃ s, run pppFeed chunks PppTail.empty = some s ∧
        ((findPppQuitSymbol c s).1 = true ↔ QuitSeen (received (chunks ++ [c]))) := by
  intro h
  obtain ⟨s, hs, hanswer⟩ := h [⟨[97, 43], [], by simp⟩] ⟨[43, 43], [], by simp⟩ (by decide)
  obtain rfl : PppTail.mk [97, 43, 0, 0] 2 = s := Option.some.inj hs
  exact absurd (hanswer.mpr (by decide)) (by decide)

end NbiotXY1100.PassthroughQuit
