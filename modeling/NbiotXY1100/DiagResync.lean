import NbiotXY1100.DiagFraming

/-! # Finding the next diagnostic command

The byte that ends an attempt at a header is not tested as a new first byte. So a frame is found when the
bytes before it are whole attempts, and lost when its first byte ends one. -/
namespace NbiotXY1100.DiagResync
open DiagReadMsg DiagFraming

/-- Bytes that whole attempts at a header take: a byte other than 5A, 5A with a byte other than A5, and 5A A5
with one more byte. -/
def WholeAttempts : List UInt8 → Prop
  | [] => True
  | c :: l =>
    if c ≠ 0x5A then WholeAttempts l
    else
      match l with
      | [] => False
      | d :: l =>
        if d ≠ 0xA5 then WholeAttempts l
        else
          match l with
          | [] => False
          | _ :: l => WholeAttempts l

/-- A frame of a length that fits the buffer with its check byte and has room for an `ItemHeader_t`. -/
structure WellFormed (f : List UInt8) : Prop extends IsFrame f where
  min : 10 ≤ u16Len f
  max : u16Len f ≤ 293

/-- What is handed over with `buf` begins with an `ItemHeader_t` of the bytes received last, with their check
byte. -/
def Proper (received buf : List UInt8) : Prop :=
  ∃ f, f <:+ received ∧ IsFrame f ∧ itemHeaderSize ≤ (content f).length ∧
    buf.take (content f).length = content f

/-- The frame is handed over once. -/
def HandedOnce (stream : Stream) (f : List UInt8) : Prop :=
  ((feed stream Diag.init).1.map fun handed => content handed.2).count (content f) = 1

/-- The framing of a stream that is fed from the reset state. -/
structure FramingOk (stream : Stream) : Prop where
  inBounds : ∀ before c rest, stream = before ++ c :: rest → (feed before Diag.init).2.logIndex < maxPacketLen
  proper : ∀ before c bDumpFile rest handed, stream = before ++ (c, bDumpFile) :: rest →
    (parseData c bDumpFile (feed before Diag.init).2).1 = some handed →
    Proper (bytesOf before ++ [c]) handed.2
  found : ∀ before f, bytesOf stream = before ++ f → ¬header <:+: before → WellFormed f → HandedOnce stream f

/-- The streams on which neither defect shows: no frame is completed whose length is too short for its header, and
a first frame does not stand behind an unfinished attempt. -/
structure Clean (stream : Stream) : Prop where
  long : ∀ before c bDumpFile rest, stream = before ++ (c, bDumpFile) :: rest →
    (parseData c bDumpFile (feed before Diag.init).2).1.isSome → 10 ≤ u16Len (feed before Diag.init).2.buffer
  attempts : ∀ before f, bytesOf stream = before ++ f → ¬header <:+: before → WellFormed f → WholeAttempts before

/-! ## Prefixes -/

theorem frames_header {cur : List UInt8} {c : UInt8} {l : List UInt8} (hlt : cur.length < 3)
    (hc : isItemHeaderChar cur.length ≠ c) : frames (c :: l) cur = frames l [] := by
  have hframe : frameByte cur c = (none, []) := by
    rw [frameByte, if_pos hlt, if_neg hc]
  rw [frames, hframe]
  rfl

theorem frames_header_more {cur : List UInt8} {c : UInt8} (hlt : cur.length < 3)
    (hc : isItemHeaderChar cur.length = c) (l : List UInt8) : frames (c :: l) cur = frames l (cur ++ [c]) := by
  have hframe : frameByte cur c = (none, cur ++ [c]) := by
    rw [frameByte, if_pos hlt, if_pos hc]
  rw [frames, hframe]
  rfl

/-- Without a header no frame is found, and whole attempts leave no bytes. -/
theorem frames_prefix (l : List UInt8) (hnone : ¬header <:+: l) :
    (WholeAttempts l ∧ frames l [] = ([], [])) ∨
      (¬WholeAttempts l ∧ (frames l [] = ([], [0x5A]) ∨ frames l [] = ([], [0x5A, 0xA5]))) := by
  induction l using WholeAttempts.induct with
  | case1 => exact .inl ⟨trivial, rfl⟩
  | case2 c l hc ih =>
    rw [frames_header (by decide) (Ne.symm hc), WholeAttempts.eq_def]
    simp only [if_pos hc]
    exact ih fun h => hnone (h.trans (List.suffix_cons c l).isInfix)
  | case3 c hc =>
    have h5A := not_not.mp hc
    subst h5A
    exact .inr ⟨fun h => h, .inl rfl⟩
  | case4 c hc d l hd ih =>
    have h5A := not_not.mp hc
    subst h5A
    have hrun : frames (0x5A :: d :: l) [] = frames l [] :=
      (frames_header_more (by decide) rfl _).trans (frames_header (by decide) (Ne.symm hd))
    rw [hrun, WholeAttempts.eq_def]
    simp only [if_neg hc, if_pos hd]
    exact ih fun h => hnone (h.trans (List.suffix_append [0x5A, d] l).isInfix)
  | case5 c hc d hd =>
    have h5A := not_not.mp hc
    have hA5 := not_not.mp hd
    subst h5A hA5
    exact .inr ⟨fun h => h, .inr rfl⟩
  | case6 c hc d hd e l ih =>
    have h5A := not_not.mp hc
    have hA5 := not_not.mp hd
    subst h5A hA5
    have he : (0xFE : UInt8) ≠ e := fun h => hnone ⟨[], l, by rw [← h]; rfl⟩
    have hrun : frames (0x5A :: 0xA5 :: e :: l) [] = frames l [] :=
      ((frames_header_more (by decide) rfl _).trans (frames_header_more (by decide) rfl _)).trans
        (frames_header (by decide) he)
    rw [hrun, WholeAttempts.eq_def]
    simp only [if_neg hc, if_neg hd]
    exact ih fun h => hnone (h.trans (List.suffix_append [0x5A, 0xA5, e] l).isInfix)

/-! ## One frame -/

theorem frameByte_behind {cur : List UInt8} (hlen : 6 ≤ cur.length) (c : UInt8) :
    frameByte cur c =
      if chipOf cur = chip1100E ∧ 0 < u16Len cur ∧ cur.length = u16Len cur + 6 then
        (if xorAll cur = c then some (cur ++ [c]) else none, [])
      else if maxPacketLen < u16Len cur ∨ u16Len cur = 0 then (none, [])
      else if cur.length = u16Len cur + 5 ∧ chipOf cur = chip1100 then (some (cur ++ [c]), [])
      else (none, grown cur c) := by
  rw [frameByte, if_neg (by omega), if_neg (by omega)]

section

variable {f : List UInt8} (hf : WellFormed f)
include hf

theorem length_eq : (chipOf f = chip1100 → f.length = u16Len f + 6) ∧ (chipOf f = chip1100E → f.length = u16Len f + 7) ∧
    f.length ≤ maxPacketLen := by
  have hmax : u16Len f + 7 ≤ maxPacketLen := Nat.add_le_add_right hf.max 7
  rcases hf.layout with ⟨hef, hlen⟩ | ⟨hee, -, hlen⟩
  · exact ⟨fun _ => hlen, fun hee => absurd (hef.symm.trans hee) (by decide), by omega⟩
  · exact ⟨fun hef => absurd (hef.symm.trans hee) (by decide), fun _ => hlen, by omega⟩

/-- A byte of a frame that is not its last one is taken. -/
theorem frameByte_take {k : ℕ} (hk : k + 1 < f.length) :
    frameByte (f.take k) f[k] = (none, f.take k ++ [f[k]]) := by
  have hlen : (f.take k).length = k := List.length_take_of_le (by omega)
  rcases Nat.lt_or_ge k 3 with h3 | h3
  · have hchar : isItemHeaderChar k = f[k] := by
      have hget := getD_of_take hf.header h3
      rw [List.getD_eq_getElem f 0 (by omega)] at hget
      rw [hget]
      rcases k with _ | _ | _ | k
      · rfl
      · rfl
      · rfl
      · omega
    rw [frameByte, if_pos (by omega), hlen, if_pos hchar]
  · rcases Nat.lt_or_ge k 6 with h6 | h6
    · exact frameByte_len (by omega) (by omega)
    · have hu16 : u16Len (f.take k) = u16Len f := (u16Len_of_take rfl h6).symm
      have hchip : chipOf (f.take k) = chipOf f := (getD_of_take rfl (by omega)).symm
      obtain ⟨hef, hee, hmax⟩ := length_eq hf
      have hmin := hf.min
      have htop := hf.max
      have hgrown : grown (f.take k) f[k] = f.take k ++ [f[k]] := if_neg (by omega)
      rw [frameByte_behind (by omega), hu16, hchip, hlen, if_neg, if_neg, if_neg, hgrown]
      · rintro ⟨hlast, h⟩
        have := hef h
        omega
      · unfold maxPacketLen
        omega
      · rintro ⟨h, -, hlast⟩
        have := hee h
        omega

/-- Up to its last byte a frame is only taken. -/
theorem frames_take {k : ℕ} (hk : k < f.length) : frames (f.take k) [] = ([], f.take k) := by
  induction k with
  | zero => rfl
  | succ k ih =>
    have hlt : k < f.length := by omega
    have hsplit : f.take (k + 1) = f.take k ++ [f[k]] := List.take_succ_eq_append_getElem hlt
    rw [hsplit, frames_append, ih hlt, frames, frameByte_take hf hk]
    rfl

theorem frames_frame : frames f [] = ([f], []) := by
  have hmin := hf.min
  have htop := hf.max
  obtain ⟨k, hk⟩ : ∃ k, f.length = k + 1 := ⟨f.length - 1, by have := hf.length_le; omega⟩
  have hlt : k < f.length := by omega
  have hlen : (f.take k).length = k := List.length_take_of_le (Nat.le_of_lt hlt)
  have hwhole : f.take k ++ [f[k]] = f := by
    rw [← List.take_succ_eq_append_getElem hlt, ← hk, List.take_length]
  have hlast : frameByte (f.take k) f[k] = (some f, []) := by
    have hge : 6 ≤ k := by have := hf.length_le; omega
    have hu16 : u16Len (f.take k) = u16Len f := (u16Len_of_take rfl hge).symm
    have hchip : chipOf (f.take k) = chipOf f := (getD_of_take rfl (by omega)).symm
    rw [frameByte_behind (by omega), hu16, hchip, hlen, hwhole]
    rcases hf.layout with ⟨hef, hflen⟩ | ⟨hee, hfeq, hflen⟩
    · rw [if_neg, if_neg, if_pos ⟨by omega, hef⟩]
      · unfold maxPacketLen
        omega
      · exact fun ⟨hee, _⟩ => absurd (hef.symm.trans hee) (by decide)
    · have hcontent : content f = f.take k := by
        rw [content]
        congr 1
        change 6 + _ = _
        omega
      have hcheck : xorAll (f.take k) = f[k] := by
        have hsame := hwhole.trans hfeq
        rw [hcontent] at hsame
        exact (List.cons.inj (List.append_cancel_left hsame)).1.symm
      rw [if_pos ⟨hee, by omega, by omega⟩, if_pos hcheck]
  rw [← hwhole, frames_append, frames_take hf hlt, frames, hlast, hwhole]
  rfl

end

/-! ## The receiver -/

theorem follows_init : Follows Diag.init [] := follows_nil List.length_replicate rfl rfl

theorem index_lt (before : Stream) : (feed before Diag.init).2.logIndex < maxPacketLen := by
  obtain ⟨hfollows, -⟩ := follows_init.feed before
  rw [hfollows.index]
  exact hfollows.lt

/-- A frame that is handed over is the one of the machine without a buffer, and its length was known before. -/
theorem handed_frame {before : Stream} {c : UInt8} {bDumpFile : XyDumpFlag} {handed : Handed}
    (h : (parseData c bDumpFile (feed before Diag.init).2).1 = some handed) :
    ∃ g, g <:+ bytesOf before ++ [c] ∧ IsFrame g ∧ handed.2.take g.length = g ∧
      u16Len (feed before Diag.init).2.buffer = u16Len g := by
  obtain ⟨hfollows, -⟩ := follows_init.feed before
  obtain ⟨-, hsame⟩ := hfollows.step c bDumpFile
  rw [h] at hsame
  cases hframe : (frameByte (frames (bytesOf before) []).2 c).1 with
  | none => rw [hframe] at hsame; exact hsame.elim
  | some g =>
    rw [hframe] at hsame
    have hg : IsFrame g := isFrame_of_some (frames_isFrame begins_nil).1 hframe
    obtain ⟨hlast, -⟩ := frameByte_some hframe
    obtain ⟨u, hu⟩ := (frames_part (bytesOf before) []).1
    refine ⟨g, ⟨u, ?_⟩, hg, hsame.2, ?_⟩
    · rw [hlast, ← List.append_assoc, hu]
      rfl
    · have hlen : (frames (bytesOf before) []).2.length + 1 = g.length := by rw [hlast, List.length_append]; rfl
      have hge := hg.length_le
      have hpos := hg.pos
      rw [u16Len_of_take hfollows.bytes (by omega), hlast, u16Len_append (by omega)]

theorem proper_iff {before : Stream} {c : UInt8} {bDumpFile : XyDumpFlag} {handed : Handed}
    (h : (parseData c bDumpFile (feed before Diag.init).2).1 = some handed) :
    Proper (bytesOf before ++ [c]) handed.2 ↔ 10 ≤ u16Len (feed before Diag.init).2.buffer := by
  have hcontent : ∀ {e : List UInt8}, IsFrame e → u16Len (content e) = u16Len e := fun he =>
    (u16Len_of_take rfl (by change 6 ≤ 6 + _; omega)).symm
  obtain ⟨g, hsuffix, hg, htake, hknown⟩ := handed_frame h
  have hu16 : u16Len handed.2 = u16Len g := u16Len_of_take htake (by have := hg.length_le; omega)
  rw [hknown, ← hu16]
  constructor
  · rintro ⟨f, -, hf, hsize, hftake⟩
    have hlen := content_length hf.length_le
    rw [u16Len_of_take hftake (by omega), hcontent hf]
    have hmin : 16 ≤ (content f).length := hsize
    omega
  · intro hmin
    have hlen := content_length hg.length_le
    refine ⟨g, hsuffix, hg, ?_, ?_⟩
    · change 16 ≤ _
      omega
    · have hn : u16Len handed.2 + 6 = headerLen + 1 + dataLenSize + u16Len handed.2 := Nat.add_comm _ 6
      rw [hlen, ← hu16, hn, ← content]
      exact content_of_take hg htake

/-- What is handed over, counted by the frames of the machine without a buffer. -/
theorem map_content {handed : List Handed} {gs : List (List UInt8)}
    (h : List.Forall₂ (fun (handed : Handed) g => handed.2.take g.length = g) handed gs) (hgs : ∀ g ∈ gs, IsFrame g) :
    handed.map (fun handed => content handed.2) = gs.map content := by
  induction h with
  | nil => rfl
  | cons htake _ ih =>
    rw [List.map_cons, List.map_cons, content_of_take (hgs _ List.mem_cons_self) htake,
      ih fun g hg => hgs g (List.mem_cons_of_mem _ hg)]

theorem handedOnce_iff {stream : Stream} {before f : List UInt8} (hstream : bytesOf stream = before ++ f)
    (hnone : ¬header <:+: before) (hf : WellFormed f) : HandedOnce stream f ↔ WholeAttempts before := by
  have hmap := map_content (follows_init.feed stream).2 (frames_isFrame begins_nil).2
  rw [HandedOnce, hmap, hstream, frames_append]
  rcases frames_prefix before hnone with ⟨hwhole, hrun⟩ | ⟨hnot, hrun⟩
  · refine iff_of_true ?_ hwhole
    rw [hrun, frames_frame hf]
    exact List.count_singleton_self
  · refine iff_of_false ?_ hnot
    obtain ⟨tail, htail⟩ : ∃ tail, f = 0x5A :: tail := by
      have hhead := hf.header
      cases f with
      | nil => cases hhead
      | cons a tail => exact ⟨tail, congrArg (· :: tail) (List.cons.inj hhead).1⟩
    have hlost : frames f (frames before []).2 = frames tail [] ∧ (frames before []).1 = [] := by
      rcases hrun with hrun | hrun
      · rw [hrun, htail]
        exact ⟨frames_header (by decide) (by decide), rfl⟩
      · rw [hrun, htail]
        exact ⟨frames_header (by decide) (by decide), rfl⟩
    rw [hlost.1, hlost.2, List.nil_append, List.count_eq_zero_of_not_mem]
    · exact Nat.zero_ne_one
    · intro hmem
      obtain ⟨g, hg, hsame⟩ := List.mem_map.mp hmem
      have heq := eq_of_content ((frames_isFrame begins_nil).2 g hg) hf.toIsFrame hsame
      have hle := ((frames_part tail []).2 g hg).length_le
      rw [heq, htail, List.nil_append, List.length_cons] at hle
      omega

theorem framingOk_iff (stream : Stream) : FramingOk stream ↔ Clean stream := by
  constructor
  · rintro ⟨-, hproper, hfound⟩
    refine ⟨fun before c bDumpFile rest hstream hsome => ?_, fun before f hstream hnone hf => ?_⟩
    · obtain ⟨handed, h⟩ := Option.isSome_iff_exists.mp hsome
      exact (proper_iff h).mp (hproper before c bDumpFile rest handed hstream h)
    · exact (handedOnce_iff hstream hnone hf).mp (hfound before f hstream hnone hf)
  · rintro ⟨hlong, hattempts⟩
    refine ⟨fun before c rest _ => index_lt before, fun before c bDumpFile rest handed hstream h => ?_,
      fun before f hstream hnone hf => ?_⟩
    · exact (proper_iff h).mpr (hlong before c bDumpFile rest hstream (Option.isSome_of_mem h))
    · exact (handedOnce_iff hstream hnone hf).mpr (hattempts before f hstream hnone hf)

/-- A frame of ten zeros. -/
def sampleFrame : List UInt8 := [0x5A, 0xA5, 0xFE, 0xEF, 10, 0, 0, 0, 0, 0, 0, 0, 0, 0, 0, 0]

/-- One byte 5A before the frame. -/
theorem not_framingOk : ¬FramingOk ((0x5A :: sampleFrame).map fun c => (c, XyDumpFlag.revPccmd)) := by
  intro h
  have hlayout : WellFormed sampleFrame := ⟨⟨rfl, by decide, .inl ⟨rfl, rfl⟩⟩, by decide, by decide⟩
  have honce := h.found [0x5A] sampleFrame rfl (by decide) hlayout
  rw [HandedOnce] at honce
  exact absurd honce (by decide)

end NbiotXY1100.DiagResync
