import NbiotXY1100.DiagReadMsg
import Mathlib.Data.List.GetD
import Mathlib.Data.List.Infix
import Mathlib.Tactic.SplitIfs

/-! # The framing of diagnostic commands

Without the buffer, the receiver is a machine on the bytes it has taken for the frame at hand. The
receiver with the buffer follows it step by step, so a frame that is handed over is a part of the stream. -/
namespace NbiotXY1100.DiagFraming
open DiagReadMsg

def header : List UInt8 := [0x5A, 0xA5, 0xFE]

def chipOf (f : List UInt8) : UInt8 := f.getD 3 0

/-- The bytes taken after one more byte, as long as the buffer has room. -/
def grown (cur : List UInt8) (c : UInt8) : List UInt8 := if maxPacketLen ≤ cur.length + 1 then [] else cur ++ [c]

/-- The bytes taken so far after one more byte, or the frame that it ends. -/
def frameByte (cur : List UInt8) (c : UInt8) : Option (List UInt8) × List UInt8 :=
  if cur.length < 3 then (none, if isItemHeaderChar cur.length = c then cur ++ [c] else [])
  else if cur.length < 6 then (none, cur ++ [c])
  else if chipOf cur = chip1100E ∧ 0 < u16Len cur ∧ cur.length = u16Len cur + 6 then
    (if xorAll cur = c then some (cur ++ [c]) else none, [])
  else if maxPacketLen < u16Len cur ∨ u16Len cur = 0 then (none, [])
  else if cur.length = u16Len cur + 5 ∧ chipOf cur = chip1100 then (some (cur ++ [c]), [])
  else (none, grown cur c)

def frames : List UInt8 → List UInt8 → List (List UInt8) × List UInt8
  | [], cur => ([], cur)
  | c :: stream, cur =>
    let r := frameByte cur c
    let rest := frames stream r.2
    (r.1.toList ++ rest.1, rest.2)

/-- The state in which the receiver takes the next byte of a frame. -/
def statusOf (cur : List UInt8) : Status :=
  if cur.length < 3 then .revHeader
  else if cur.length = 3 then .revChip
  else if cur.length < 6 then .revLen
  else if chipOf cur = chip1100E ∧ 0 < u16Len cur ∧ cur.length = u16Len cur + 6 then .revChksum
  else .revData

/-- The receiver holds the bytes of the frame at the start of its buffer. -/
structure Follows (s : Diag) (cur : List UInt8) : Prop where
  index : s.logIndex = cur.length
  size : s.buffer.length = maxPacketLen
  bytes : s.buffer.take cur.length = cur
  status : s.status = statusOf cur
  chip : 4 ≤ cur.length → s.chipType = chipOf cur
  lt : cur.length < maxPacketLen

/-- What is handed over with a buffer, and what without. -/
def SameFrame (bDumpFile : XyDumpFlag) : Option Handed → Option (List UInt8) → Prop
  | some h, some f => h.1 = bDumpFile ∧ h.2.take f.length = f
  | none, none => True
  | _, _ => False

section

variable {s : Diag} {cur : List UInt8} {c : UInt8} {bDumpFile : XyDumpFlag}

theorem getD_of_take {buf : List UInt8} {n i : ℕ} (h : buf.take n = cur) (hi : i < n) :
    buf.getD i 0 = cur.getD i 0 := by
  rw [← h, List.getD_eq_getElem?_getD, List.getD_eq_getElem?_getD, List.getElem?_take_of_lt hi]

theorem u16Len_of_take {buf : List UInt8} {n : ℕ} (h : buf.take n = cur) (hn : 6 ≤ n) : u16Len buf = u16Len cur := by
  rw [u16Len, u16Len, getD_of_take h (by omega), getD_of_take h (by omega)]

theorem u16Len_append (hcur : 6 ≤ cur.length) (rest : List UInt8) : u16Len (cur ++ rest) = u16Len cur :=
  u16Len_of_take List.take_left hcur

theorem chipOf_append (hcur : 4 ≤ cur.length) (rest : List UInt8) : chipOf (cur ++ rest) = chipOf cur :=
  getD_of_take List.take_left (by omega)

/-- The byte stands behind the bytes taken so far. -/
theorem Follows.take_set (h : Follows s cur) : (s.buffer.set s.logIndex c).take (cur.length + 1) = cur ++ [c] := by
  have hlt : cur.length < s.buffer.length := by
    rw [h.size]
    exact h.lt
  rw [h.index, List.take_succ_eq_append_getElem (by rw [List.length_set]; exact hlt), List.take_set_of_le (Nat.le_refl _),
    h.bytes, List.getElem_set_self]

theorem follows_nil (hsize : s.buffer.length = maxPacketLen) (hindex : s.logIndex = 0) (hstatus : s.status = .revHeader) :
    Follows s [] :=
  ⟨hindex, hsize, List.take_zero, hstatus, fun h => absurd h (by decide), by decide⟩

/-- A byte that the frame at hand takes. -/
theorem Follows.grow {t : Diag} (h : Follows s cur) (hbuffer : t.buffer = s.buffer.set s.logIndex c)
    (hindex : t.logIndex = cur.length + 1) (hstatus : t.status = statusOf (cur ++ [c]))
    (hchip : 3 ≤ cur.length → t.chipType = chipOf (cur ++ [c])) (hlt : cur.length + 1 < maxPacketLen) :
    Follows t (cur ++ [c]) := by
  have hlength : (cur ++ [c]).length = cur.length + 1 := List.length_append
  refine ⟨hindex.trans hlength.symm, ?_, ?_, hstatus, fun h4 => hchip (by omega), by omega⟩
  · rw [hbuffer, List.length_set, h.size]
  · rw [hbuffer, hlength, h.take_set]

theorem Follows.next {t : Diag} (h : Follows s cur) (hbuffer : t.buffer = s.buffer.set s.logIndex c)
    (hindex : t.logIndex = cur.length) (hstatus : t.status = statusOf (cur ++ [c]))
    (hchip : 3 ≤ cur.length → t.chipType = chipOf (cur ++ [c])) : Follows t.next (grown cur c) := by
  rw [Diag.next, Diag.checkIndex, grown, hindex]
  by_cases hfull : maxPacketLen ≤ cur.length + 1
  · rw [if_pos hfull, if_pos hfull]
    exact follows_nil (by rw [hbuffer, List.length_set, h.size]) rfl rfl
  · rw [if_neg hfull, if_neg hfull]
    exact h.grow hbuffer rfl hstatus hchip (Nat.not_le.mp hfull)

theorem statusOf_header (h : cur.length < 3) : statusOf cur = .revHeader := if_pos h

theorem statusOf_chip (hlen : cur.length = 3) : statusOf cur = .revChip := by
  rw [statusOf, if_neg (by omega), if_pos hlen]

theorem statusOf_len (hlo : 3 < cur.length) (hhi : cur.length < 6) : statusOf cur = .revLen := by
  rw [statusOf, if_neg (by omega), if_neg (by omega), if_pos hhi]

theorem statusOf_chksum
    (h : chipOf cur = chip1100E ∧ 0 < u16Len cur ∧ cur.length = u16Len cur + 6) : statusOf cur = .revChksum := by
  rw [statusOf, if_neg (by omega), if_neg (by omega), if_neg (by omega), if_pos h]

theorem statusOf_data (hlen : 6 ≤ cur.length)
    (h : ¬(chipOf cur = chip1100E ∧ 0 < u16Len cur ∧ cur.length = u16Len cur + 6)) : statusOf cur = .revData := by
  rw [statusOf, if_neg (by omega), if_neg (by omega), if_neg (by omega), if_neg h]

theorem step_header (h : Follows s cur) (hlen : cur.length < 3) :
    Follows (parseData c bDumpFile s).2 (frameByte cur c).2 ∧
      SameFrame bDumpFile (parseData c bDumpFile s).1 (frameByte cur c).1 := by
  have hstatus : s.status = .revHeader := by rw [h.status, statusOf, if_pos hlen]
  have hframe : frameByte cur c = (none, if isItemHeaderChar cur.length = c then cur ++ [c] else []) := by
    rw [frameByte, if_pos hlen]
  have hparse : parseData c bDumpFile s = (none, parseHeader c { s with buffer := s.buffer.set s.logIndex c }) := by
    rw [parseData, hstatus]
  rw [hframe, hparse]
  refine ⟨?_, trivial⟩
  rw [parseHeader]
  simp only [h.index]
  by_cases hc : isItemHeaderChar cur.length = c
  · rw [if_pos hc, if_pos hc]
    refine h.grow (by rw [h.index]) rfl ?_ (fun h3 => absurd h3 (by omega)) (by unfold maxPacketLen; omega)
    have hlength : (cur ++ [c]).length = cur.length + 1 := List.length_append
    by_cases hfull : cur.length + 1 = 3
    · rw [statusOf_chip (hlength.trans hfull)]
      exact if_pos hfull
    · rw [statusOf_header (by omega), ← hstatus]
      exact if_neg hfull
  · rw [if_neg hc, if_neg hc]
    exact follows_nil (by rw [List.length_set, h.size]) rfl (by rw [if_neg (by decide), hstatus])

theorem frameByte_len (hlo : 3 ≤ cur.length) (hhi : cur.length < 6) : frameByte cur c = (none, cur ++ [c]) := by
  rw [frameByte, if_neg (by omega), if_pos hhi]

theorem step_chip (h : Follows s cur) (hlen : cur.length = 3) :
    Follows (parseData c bDumpFile s).2 (frameByte cur c).2 ∧
      SameFrame bDumpFile (parseData c bDumpFile s).1 (frameByte cur c).1 := by
  have hlength : (cur ++ [c]).length = cur.length + 1 := List.length_append
  have hparse : parseData c bDumpFile s =
      (none, ⟨.revLen, s.logIndex + 1, c, s.buffer.set s.logIndex c⟩) := by
    rw [parseData, h.status.trans (statusOf_chip hlen)]
  rw [frameByte_len (by omega) (by omega), hparse]
  refine ⟨h.grow rfl (congrArg (· + 1) h.index) (statusOf_len (by omega) (by omega)).symm (fun _ => ?_)
    (by unfold maxPacketLen; omega), trivial⟩
  rw [chipOf, List.getD_append_right _ _ _ _ (by omega), hlen]
  rfl

theorem step_len (h : Follows s cur) (hlo : 3 < cur.length) (hhi : cur.length < 6) :
    Follows (parseData c bDumpFile s).2 (frameByte cur c).2 ∧
      SameFrame bDumpFile (parseData c bDumpFile s).1 (frameByte cur c).1 := by
  have hlength : (cur ++ [c]).length = cur.length + 1 := List.length_append
  have hstatus := h.status.trans (statusOf_len hlo hhi)
  have hparse : parseData c bDumpFile s = (none, parseLen { s with buffer := s.buffer.set s.logIndex c }) := by
    rw [parseData, hstatus]
  have hgrown : grown cur c = cur ++ [c] := if_neg (by unfold maxPacketLen; omega)
  rw [frameByte_len (by omega) hhi, hparse, parseLen, ← hgrown]
  refine ⟨h.next rfl h.index ?_ (fun _ => ?_), trivial⟩
  · change (if s.logIndex = headerLen + dataLenSize then Status.revData else s.status) = _
    rw [h.index]
    by_cases hlast : cur.length = headerLen + dataLenSize
    · have hfive : cur.length = 5 := hlast
      rw [if_pos hlast, statusOf_data (by omega) fun hdone => by omega]
    · have hfour : cur.length ≠ 5 := hlast
      rw [if_neg hlast, hstatus, statusOf_len (by omega) (by omega)]
  · rw [chipOf_append (by omega)]
    exact h.chip (by omega)

theorem step_chksum (h : Follows s cur)
    (hdone : chipOf cur = chip1100E ∧ 0 < u16Len cur ∧ cur.length = u16Len cur + 6) :
    Follows (parseData c bDumpFile s).2 (frameByte cur c).2 ∧
      SameFrame bDumpFile (parseData c bDumpFile s).1 (frameByte cur c).1 := by
  have hlength : (cur ++ [c]).length = cur.length + 1 := List.length_append
  have hparse : parseData c bDumpFile s = parseChksum c bDumpFile { s with buffer := s.buffer.set s.logIndex c } := by
    rw [parseData, h.status.trans (statusOf_chksum hdone)]
  have hframe : frameByte cur c = (if xorAll cur = c then some (cur ++ [c]) else none, []) := by
    rw [frameByte, if_neg (by omega), if_neg (by omega), if_pos hdone]
  have hbytes : (s.buffer.set s.logIndex c).take s.logIndex = cur := by
    rw [List.take_set_of_le (Nat.le_refl _), h.index, h.bytes]
  rw [hparse, hframe, parseChksum]
  simp only [hbytes]
  refine ⟨follows_nil (by rw [Diag.resetMem, List.length_set, h.size]) rfl rfl, ?_⟩
  by_cases hc : xorAll cur = c
  · rw [if_pos hc, if_pos hc]
    exact ⟨rfl, by rw [hlength]; exact h.take_set⟩
  · rw [if_neg hc, if_neg hc]
    trivial

theorem step_data (h : Follows s cur) (hlen : 6 ≤ cur.length)
    (hdone : ¬(chipOf cur = chip1100E ∧ 0 < u16Len cur ∧ cur.length = u16Len cur + 6)) :
    Follows (parseData c bDumpFile s).2 (frameByte cur c).2 ∧
      SameFrame bDumpFile (parseData c bDumpFile s).1 (frameByte cur c).1 := by
  have hlength : (cur ++ [c]).length = cur.length + 1 := List.length_append
  have hstatus := h.status.trans (statusOf_data hlen hdone)
  have hchip : s.chipType = chipOf cur := h.chip (by omega)
  have hparse : parseData c bDumpFile s = parseBody bDumpFile { s with buffer := s.buffer.set s.logIndex c } := by
    rw [parseData, hstatus]
  have hu16 : u16Len (s.buffer.set s.logIndex c) = u16Len cur := by
    rw [u16Len_of_take h.take_set (by omega), u16Len_append hlen]
  have hindex : s.logIndex = u16Len cur + headerLen + dataLenSize ↔ cur.length = u16Len cur + 5 := by
    rw [h.index, Nat.add_assoc]
    rfl
  have hframe : frameByte cur c = if maxPacketLen < u16Len cur ∨ u16Len cur = 0 then (none, [])
      else if cur.length = u16Len cur + 5 ∧ chipOf cur = chip1100 then (some (cur ++ [c]), [])
      else (none, grown cur c) := by
    rw [frameByte, if_neg (by omega), if_neg (by omega), if_neg hdone]
  rw [hparse, hframe, parseBody]
  simp only [hu16, hindex, hchip]
  by_cases hbad : maxPacketLen < u16Len cur ∨ u16Len cur = 0
  · rw [if_pos hbad, if_pos hbad]
    exact ⟨follows_nil (by rw [Diag.resetMem, List.length_set, h.size]) rfl rfl, trivial⟩
  · have hpos : 0 < u16Len cur := by omega
    have hkeep : u16Len (cur ++ [c]) = u16Len cur ∧ chipOf (cur ++ [c]) = chipOf cur :=
      ⟨u16Len_append hlen _, chipOf_append (by omega) _⟩
    rw [if_neg hbad, if_neg hbad]
    by_cases hlast : cur.length = u16Len cur + 5
    · rw [if_pos hlast]
      by_cases hef : chipOf cur = chip1100
      · rw [if_pos hef, if_pos ⟨hlast, hef⟩]
        refine ⟨follows_nil (by rw [Diag.resetMem, List.length_set, h.size]) rfl rfl, rfl, ?_⟩
        rw [hlength, h.take_set]
      · have hnot : ¬(cur.length = u16Len cur + 5 ∧ chipOf cur = chip1100) := fun hboth => hef hboth.2
        rw [if_neg hef, if_neg hnot]
        by_cases hee : chipOf cur = chip1100E
        · rw [if_pos hee]
          refine ⟨h.next rfl h.index (statusOf_chksum ?_).symm fun _ => hkeep.2.symm, trivial⟩
          rw [hkeep.1, hkeep.2]
          exact ⟨hee, hpos, by omega⟩
        · rw [if_neg hee]
          refine ⟨h.next rfl h.index ?_ fun _ => hkeep.2.symm, trivial⟩
          rw [statusOf_data (by omega) (by rw [hkeep.2]; exact fun hall => hee hall.1)]
          exact hstatus
    · have hnot : ¬(cur.length = u16Len cur + 5 ∧ chipOf cur = chip1100) := fun hboth => hlast hboth.1
      rw [if_neg hlast, if_neg hnot]
      refine ⟨h.next rfl h.index ?_ fun _ => hkeep.2.symm, trivial⟩
      rw [statusOf_data (by omega) (by rw [hkeep.1]; exact fun hall => by omega)]
      exact hstatus

/-- The receiver follows the machine without a buffer. -/
theorem Follows.step (h : Follows s cur) (c : UInt8) (bDumpFile : XyDumpFlag) :
    Follows (parseData c bDumpFile s).2 (frameByte cur c).2 ∧
      SameFrame bDumpFile (parseData c bDumpFile s).1 (frameByte cur c).1 := by
  rcases Nat.lt_or_ge cur.length 3 with hlt | hge
  · exact step_header h hlt
  · rcases Nat.lt_or_ge cur.length 6 with hlt | hge'
    · rcases Nat.eq_or_lt_of_le hge with heq | hgt
      · exact step_chip h heq.symm
      · exact step_len h hgt hlt
    · by_cases hdone : chipOf cur = chip1100E ∧ 0 < u16Len cur ∧ cur.length = u16Len cur + 6
      · exact step_chksum h hdone
      · exact step_data h hge' hdone

end

section

variable {cur : List UInt8} {c : UInt8}

/-- What a byte does to the bytes taken so far. -/
theorem frameByte_cases (cur : List UInt8) (c : UInt8) :
    frameByte cur c = (none, []) ∨ frameByte cur c = (none, cur ++ [c]) ∨ frameByte cur c = (some (cur ++ [c]), []) := by
  rw [frameByte, grown]
  split_ifs
  all_goals first
    | exact .inl rfl
    | exact .inr (.inl rfl)
    | exact .inr (.inr rfl)

/-- The bytes taken so far begin as a frame does. -/
def Begins (cur : List UInt8) : Prop := cur.take 3 = header.take cur.length

theorem begins_nil : Begins [] := rfl

theorem Begins.append (h : Begins cur) (hlen : 3 ≤ cur.length) (rest : List UInt8) : Begins (cur ++ rest) := by
  have hfull : header.take (cur ++ rest).length = header.take cur.length := by
    rw [List.take_of_length_le (by rw [List.length_append]; exact Nat.le_add_right_of_le hlen),
      List.take_of_length_le hlen]
  rw [Begins, hfull, List.take_append_of_le_length hlen]
  exact h

theorem Begins.step (h : Begins cur) (c : UInt8) : Begins (frameByte cur c).2 := by
  rcases Nat.lt_or_ge cur.length 3 with hlt | hge
  · have hframe : frameByte cur c = (none, if isItemHeaderChar cur.length = c then cur ++ [c] else []) := by
      rw [frameByte, if_pos hlt]
    rw [hframe]
    by_cases hc : isItemHeaderChar cur.length = c
    · simp only [if_pos hc]
      subst hc
      have hcur : cur = header.take cur.length := by rw [← h, List.take_of_length_le (Nat.le_of_lt hlt)]
      have hnext : cur ++ [isItemHeaderChar cur.length] = header.take (cur.length + 1) := by
        generalize cur.length = k at hlt hcur
        subst hcur
        match k, hlt with
        | 0, _ => rfl
        | 1, _ => rfl
        | 2, _ => rfl
      rw [Begins, List.length_append, hnext, List.take_take, Nat.min_eq_right (show _ ≤ 3 from hlt)]
      rfl
    · simp only [if_neg hc]
      exact begins_nil
  · rcases frameByte_cases cur c with heq | heq | heq
    · rw [heq]; exact begins_nil
    · rw [heq]; exact h.append hge [c]
    · rw [heq]; exact begins_nil

/-- The layout of a frame: header, chip type, length, data and, for one chip type, a check byte. -/
structure IsFrame (f : List UInt8) : Prop where
  header : f.take 3 = header
  pos : 0 < u16Len f
  layout : (chipOf f = chip1100 ∧ f.length = u16Len f + 6) ∨
    (chipOf f = chip1100E ∧ f = content f ++ [xorAll (content f)] ∧ f.length = u16Len f + 7)

theorem content_of_length {f : List UInt8} (h : f.length = u16Len f + 6) : content f = f :=
  List.take_of_length_le (by change f.length ≤ 6 + _; omega)

theorem content_append (h : cur.length = u16Len cur + 6) (rest : List UInt8) : content (cur ++ rest) = cur := by
  have hlen : headerLen + 1 + dataLenSize + u16Len (cur ++ rest) = cur.length := by
    rw [u16Len_append (by omega), h]
    exact Nat.add_comm 6 _
  rw [content, hlen, List.take_left]

theorem frameByte_some {f : List UInt8} (h : (frameByte cur c).1 = some f) : f = cur ++ [c] ∧ (frameByte cur c).2 = [] := by
  rcases frameByte_cases cur c with heq | heq | heq
  · rw [heq] at h
    cases h
  · rw [heq] at h
    cases h
  · rw [heq] at h ⊢
    exact ⟨(Option.some.inj h).symm, rfl⟩

theorem isFrame_of_some {f : List UInt8} (hcur : Begins cur) (h : (frameByte cur c).1 = some f) : IsFrame f := by
  obtain ⟨rfl, -⟩ := frameByte_some h
  have hlength : (cur ++ [c]).length = cur.length + 1 := List.length_append
  rw [frameByte] at h
  split_ifs at h with h3 h6 hdone hxor hbad hlast
  · obtain ⟨hee, hpos, hlen⟩ := hdone
    have hhead : (cur ++ [c]).take 3 = header := (hcur.append (by omega) [c]).trans (List.take_of_length_le (by
      rw [hlength]; change 3 ≤ _; omega))
    refine ⟨hhead, by rw [u16Len_append (by omega)]; exact hpos, .inr ⟨?_, ?_, ?_⟩⟩
    · rw [chipOf_append (by omega)]
      exact hee
    · rw [content_append hlen, hxor]
    · rw [hlength, u16Len_append (by omega), hlen]
  · obtain ⟨hlen, hef⟩ := hlast
    have hhead : (cur ++ [c]).take 3 = header := (hcur.append (by omega) [c]).trans (List.take_of_length_le (by
      rw [hlength]; change 3 ≤ _; omega))
    refine ⟨hhead, by rw [u16Len_append (by omega)]; omega, .inl ⟨?_, ?_⟩⟩
    · rw [chipOf_append (by omega)]
      exact hef
    · rw [hlength, u16Len_append (by omega), hlen]

end

/-! ## Streams -/

theorem frames_append (s t cur : List UInt8) :
    frames (s ++ t) cur = ((frames s cur).1 ++ (frames t (frames s cur).2).1, (frames t (frames s cur).2).2) := by
  induction s generalizing cur with
  | nil => rfl
  | cons c s ih =>
    rw [List.cons_append, frames, ih, frames]
    simp only [List.append_assoc]

/-- The bytes taken so far are the last ones of the stream, and every frame is a part of it. -/
theorem frames_part (stream cur : List UInt8) :
    (frames stream cur).2 <:+ cur ++ stream ∧ ∀ g ∈ (frames stream cur).1, g <:+: cur ++ stream := by
  induction stream generalizing cur with
  | nil => exact ⟨by simp [frames], fun g hg => (nomatch hg)⟩
  | cons c stream ih =>
    obtain ⟨hrest, hall⟩ := ih (frameByte cur c).2
    have hsplit : cur ++ c :: stream = (cur ++ [c]) ++ stream := by simp
    have hkept : (frameByte cur c).2 ++ stream <:+ cur ++ c :: stream := by
      rw [hsplit]
      rcases frameByte_cases cur c with heq | heq | heq
      · rw [heq]; exact List.suffix_append _ _
      · rw [heq]
      · rw [heq]; exact List.suffix_append _ _
    refine ⟨hrest.trans hkept, fun g hg => ?_⟩
    rcases List.mem_append.mp hg with hg | hg
    · rw [(frameByte_some (Option.mem_toList.mp hg)).1, hsplit]
      exact (List.prefix_append _ _).isInfix
    · exact (hall g hg).trans hkept.isInfix

theorem frames_isFrame {stream cur : List UInt8} (h : Begins cur) :
    Begins (frames stream cur).2 ∧ ∀ g ∈ (frames stream cur).1, IsFrame g := by
  induction stream generalizing cur with
  | nil => exact ⟨h, fun g hg => (nomatch hg)⟩
  | cons c stream ih =>
    obtain ⟨hrest, hall⟩ := ih (h.step c)
    refine ⟨hrest, fun g hg => ?_⟩
    rcases List.mem_append.mp hg with hg | hg
    · exact isFrame_of_some h (Option.mem_toList.mp hg)
    · exact hall g hg

/-- The bytes of a stream. -/
def bytesOf (stream : Stream) : List UInt8 := stream.map Prod.fst

/-- A whole stream: the same frames are handed over, each at the start of the buffer. -/
theorem Follows.feed {s : Diag} {cur : List UInt8} (h : Follows s cur) (stream : Stream) :
    Follows (feed stream s).2 (frames (bytesOf stream) cur).2 ∧
      List.Forall₂ (fun (handed : Handed) g => handed.2.take g.length = g) (feed stream s).1
        (frames (bytesOf stream) cur).1 := by
  induction stream generalizing s cur with
  | nil => exact ⟨h, .nil⟩
  | cons p stream ih =>
    obtain ⟨c, bDumpFile⟩ := p
    obtain ⟨hnext, hsame⟩ := h.step c bDumpFile
    obtain ⟨hrest, hall⟩ := ih hnext
    refine ⟨hrest, ?_⟩
    change List.Forall₂ _ ((parseData c bDumpFile s).1.toList ++ _) ((frameByte cur c).1.toList ++ _)
    cases hparse : (parseData c bDumpFile s).1 with
    | none =>
      cases hframe : (frameByte cur c).1 with
      | none => exact hall
      | some g => rw [hparse, hframe] at hsame; exact hsame.elim
    | some handed =>
      cases hframe : (frameByte cur c).1 with
      | none => rw [hparse, hframe] at hsame; exact hsame.elim
      | some g =>
        rw [hparse, hframe] at hsame
        exact .cons hsame.2 hall

theorem IsFrame.length_le {f : List UInt8} (hf : IsFrame f) : u16Len f + 6 ≤ f.length := by
  rcases hf.layout with ⟨-, hlen⟩ | ⟨-, -, hlen⟩
  · omega
  · omega

theorem content_length {f : List UInt8} (h : u16Len f + 6 ≤ f.length) : (content f).length = u16Len f + 6 := by
  rw [content, List.length_take_of_le (by change 6 + _ ≤ _; omega)]
  exact Nat.add_comm 6 _

theorem content_of_take {buf g : List UInt8} (hg : IsFrame g) (h : buf.take g.length = g) : content buf = content g := by
  have hlen := hg.length_le
  have hmin : headerLen + 1 + dataLenSize + u16Len g ≤ g.length := by
    change 6 + _ ≤ _
    omega
  have htake := congrArg (List.take (headerLen + 1 + dataLenSize + u16Len g)) h
  rw [List.take_take, Nat.min_eq_left hmin] at htake
  rw [content, u16Len_of_take h (by omega), htake, content]

/-- The bytes of a frame without its check byte tell the frame. -/
theorem eq_of_content {f g : List UInt8} (hf : IsFrame f) (hg : IsFrame g) (h : content f = content g) : f = g := by
  have hchip : ∀ {e : List UInt8}, IsFrame e → chipOf (content e) = chipOf e := by
    intro e he
    have hlen := content_length he.length_le
    exact (getD_of_take rfl (by change 3 < 6 + _; omega)).symm
  have hfchip := hchip hf
  have hgchip := hchip hg
  rw [h, hgchip] at hfchip
  rcases hf.layout with ⟨hef, hflen⟩ | ⟨hee, hfeq, -⟩
  · rcases hg.layout with ⟨-, hglen⟩ | ⟨hee', -⟩
    · rw [← content_of_length hflen, h, content_of_length hglen]
    · rw [← hfchip, hee'] at hef
      exact absurd hef (by decide)
  · rcases hg.layout with ⟨hef', -⟩ | ⟨-, hgeq, -⟩
    · rw [← hfchip, hef'] at hee
      exact absurd hee (by decide)
    · rw [hfeq, hgeq, h]

end NbiotXY1100.DiagFraming
