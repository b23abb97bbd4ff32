import NbiotXY1100.ByteBuffers
import NbiotXY1100.DiagReadMsg

/-! # Crash dump packets

`mem_dump_info` cuts a region into blocks of 512 bytes and builds one packet after the other in
`szOutPut`, the file name in front of the first block. `mem_dump_info_flash` is a copy of it that reads
the blocks from flash and writes the check byte itself as well. The region holds neither buffer. -/
namespace NbiotXY1100.DiagMemDump
open FlashMemory ByteBuffers DiagReadMsg

def onePacketSize : ℕ := 512

/-- `sizeof(MemInfo_t)`. -/
def memInfoSize : ℕ := 4

def szOutPutSize : ℕ := 600

def szFileNameSize : ℕ := 128

/-- The offset of `mem_info->u8Payload` in `szOutPut`. -/
def payloadAt : ℕ := itemHeaderSize + memInfoSize

def xyMemoryLog : UInt32 := 10

/-- The two buffers and the packets passed to `diag_send_data`. -/
structure Dump where
  szOutPut : List UInt8
  szFileName : List UInt8
  sent : List (List UInt8)

def putU16 (o w : ℕ) (buf : List UInt8) : Option (List UInt8) := copyIn buf o (u16Bytes w)

/-- `mem_info->u8Seq`, the low 15 bits of their word. -/
def setSeq (i : ℕ) (buf : List UInt8) : Option (List UInt8) :=
  putU16 itemHeaderSize (u16At buf itemHeaderSize / 32768 * 32768 + i % 32768) buf

/-- `mem_info->u8PEnd`, the highest bit of the word. -/
def setPEnd (e : ℕ) (buf : List UInt8) : Option (List UInt8) :=
  putU16 itemHeaderSize (u16At buf itemHeaderSize % 32768 + e * 32768) buf

def setLen (n : ℕ) (buf : List UInt8) : Option (List UInt8) := putU16 (itemHeaderSize + 2) n buf

/-- `mem_info->u8Len += n`. -/
def addLen (n : ℕ) (buf : List UInt8) : Option (List UInt8) :=
  putU16 (itemHeaderSize + 2) (u16At buf (itemHeaderSize + 2) + n) buf

def diagPacketHeaderM3 (bufSz : ℕ) (typeId itemId m3Time : UInt32) (buf : List UInt8) : Option (List UInt8) := do
  let buf ← copyIn buf 0 [0x5A, 0xA5, 0xFE, chip1100]
  let buf ← putU16 4 (bufSz - 4 - 2) buf
  let buf ← copyIn buf 8 (leBytes (word buf 8 / 16 * 16 + typeId % 16))
  let buf ← copyIn buf 8 (leBytes (word buf 8 % 16 + itemId * 16))
  let buf ← putU16 6 0 buf
  copyIn buf 12 (leBytes m3Time)

/-- The writes of `xy_log_trace` behind the item. -/
def xyLogTrace (itemLen : ℕ) (buf : List UInt8) : Option (List UInt8) :=
  copyIn buf itemLen [xorAll (buf.take itemLen), 0xFA]

/-- The copy of the file name and its terminator to `szFileName`. -/
def copyFileName (memFile szFileName : List UInt8) : Option (List UInt8) :=
  (copyIn szFileName 0 memFile).bind fun f => copyIn f memFile.length [0]

/-- What full blocks and the last item end with, once `mem_info` is set: the header, the file name if
the packet is the first one, the memory and the hand-over. `mark` is what comes before the hand-over. -/
def finishPacket (mark : ℕ → List UInt8 → Option (List UInt8)) (first : Prop) [Decidable first] (bufSz copyLen : ℕ)
    (data buf szFileName : List UInt8) (sent : List (List UInt8)) : Option Dump := do
  let buf ← diagPacketHeaderM3 bufSz xyMemoryLog 0 0 buf
  let buf ← (if first then (copyOut szFileName 0 copyLen).bind (copyIn buf payloadAt) else some buf)
  let buf ← copyIn buf (payloadAt + copyLen) data
  let itemLen := memInfoSize + data.length + copyLen + itemHeaderSize
  let buf ← mark itemLen buf
  let traced ← xyLogTrace itemLen buf
  some ⟨traced, szFileName, sent ++ [buf.take itemLen]⟩

/-- The body of the loop over the full blocks. -/
def dumpBlock (mark : ℕ → List UInt8 → Option (List UInt8)) (mem : Memory) (memFile : List UInt8) (memAddr : UInt32)
    (nSize i offset : ℕ) (s : Dump) : Option Dump := do
  let buf ← setLen onePacketSize s.szOutPut
  let buf ← setSeq i buf
  let buf ← setPEnd 0 buf
  let buf ← (if i + 1 = nSize then setPEnd 1 buf else some buf)
  let copyLen := if i = 0 then memFile.length + 1 else 0
  let szFileName ← (if i = 0 then copyFileName memFile s.szFileName else some s.szFileName)
  let buf ← (if i = 0 then addLen copyLen buf else some buf)
  finishPacket mark (i = 0) (itemHeaderSize + memInfoSize + onePacketSize + copyLen) copyLen
    (read mem (memAddr + UInt32.ofNat offset) onePacketSize) buf szFileName s.sent

/-- The turns of the loop that remain. -/
def dumpBlocks (mark : ℕ → List UInt8 → Option (List UInt8)) (mem : Memory) (memFile : List UInt8) (memAddr : UInt32)
    (nSize : ℕ) : ℕ → ℕ → ℕ → Dump → Option Dump
  | 0, _, _, s => some s
  | n + 1, i, offset, s =>
    (dumpBlock mark mem memFile memAddr nSize i offset s).bind
      (dumpBlocks mark mem memFile memAddr nSize n (i + 1) (offset + onePacketSize))

/-- The last item. The length for its header counts the file name in any case. -/
def dumpLast (mem : Memory) (memFile : List UInt8) (memAddr : UInt32) (nSize lastSize i offset : ℕ) (s : Dump) :
    Option Dump := do
  let buf ← setLen lastSize s.szOutPut
  let buf ← setSeq i buf
  let buf ← setPEnd 1 buf
  let szFileName ← (if nSize = 0 then copyFileName memFile s.szFileName else some s.szFileName)
  let buf ← (if nSize = 0 then addLen (memFile.length + 1) buf else some buf)
  let copyLen := if nSize = 0 then memFile.length + 1 else 0
  let nDataLen := itemHeaderSize + memInfoSize + lastSize + memFile.length + 1
  finishPacket (fun _ buf => some buf) (nSize = 0) nDataLen copyLen (read mem (memAddr + UInt32.ofNat offset) lastSize)
    buf szFileName s.sent

def dumpInfo (mark : ℕ → List UInt8 → Option (List UInt8)) (mem : Memory) (memFile : List UInt8) (memAddr : UInt32)
    (memSize : ℕ) (s : Dump) : Option Dump :=
  let nSize := memSize / onePacketSize
  let lastSize := memSize % onePacketSize
  (dumpBlocks mark mem memFile memAddr nSize nSize 0 0 s).bind fun s =>
    if lastSize ≠ 0 then dumpLast mem memFile memAddr nSize lastSize nSize (nSize * onePacketSize) s else some s

def memDumpInfo (mem : Memory) (memFile : List UInt8) (memAddr : UInt32) (memSize : ℕ) (s : Dump) : Option Dump :=
  dumpInfo (fun _ buf => some buf) mem memFile memAddr memSize s

/-- The blocks are marked with the check byte and `0xFA` before they are handed over, the last item is not. -/
def memDumpInfoFlash (flash : Memory) (memFile : List UInt8) (memAddr : UInt32) (memSize : ℕ) (s : Dump) :
    Option Dump :=
  dumpInfo (fun n buf => copyIn buf n [xorAll (buf.take n), 0xFA]) flash memFile memAddr memSize s

/-- The buffers have the sizes of their declarations. -/
structure Dump.Sized (s : Dump) : Prop where
  outPut : s.szOutPut.length = szOutPutSize
  fileName : s.szFileName.length = szFileNameSize

/-- The `ItemHeader_t` of a memory packet. -/
def itemHeader (bufSz : ℕ) : List UInt8 :=
  [0x5A, 0xA5, 0xFE, chip1100] ++ u16Bytes (bufSz - 4 - 2) ++ [0, 0] ++ [10, 0, 0, 0] ++ [0, 0, 0, 0]

/-- A packet with the given sequence number and end mark. -/
def packet (bufSz seq pEnd : ℕ) (payload : List UInt8) : List UInt8 :=
  itemHeader bufSz ++ (u16Bytes (seq + pEnd * 32768) ++ u16Bytes payload.length) ++ payload

theorem itemHeader_length (bufSz : ℕ) : (itemHeader bufSz).length = itemHeaderSize := rfl

variable {buf szFileName : List UInt8}

theorem putU16_spec {o w : ℕ} (h : o + 2 ≤ buf.length) :
    ∃ b, putU16 o w buf = some b ∧ SameOutside buf o 2 b ∧ Holds b o (u16Bytes w) :=
  copyIn_spec h

theorem word_of_holds {o : ℕ} {w : UInt32} (h : Holds buf o (leBytes w)) : word buf o = w := by
  rw [word, ← leBytes_length w, h, ofLeBytes_leBytes]

/-- The two fields of the third word, written one after the other over any old value. -/
theorem traceWord (w : UInt32) : (w / 16 * 16 + xyMemoryLog % 16) % 16 + 0 * 16 = 10 := by
  apply UInt32.toNat_inj.mp
  have hlt := w.toNat_lt
  simp only [xyMemoryLog, UInt32.toNat_add, UInt32.toNat_mul, UInt32.toNat_div, UInt32.toNat_mod, UInt32.reduceToNat]
  omega

/-- The header is written over the first 16 bytes. -/
theorem diagPacketHeaderM3_spec (bufSz : ℕ) (h : buf.length = szOutPutSize) :
    ∃ b, diagPacketHeaderM3 bufSz xyMemoryLog 0 0 buf = some b ∧ SameOutside buf 0 itemHeaderSize b ∧
      Holds b 0 (itemHeader bufSz) := by
  have hfit : ∀ {b : List UInt8} {o : ℕ}, b.length = szOutPutSize → o ≤ 12 → o + 4 ≤ b.length := by
    intro b o hb ho
    rw [hb]
    exact Nat.le_trans (Nat.add_le_add_right ho 4) (by decide)
  obtain ⟨b₁, h₁, same₁, hmagic⟩ := @copyIn_spec _ buf [0x5A, 0xA5, 0xFE, chip1100] 0 (hfit h (Nat.zero_le 12))
  have hb₁ := same₁.length.trans h
  obtain ⟨b₂, h₂, same₂, hlen⟩ := @putU16_spec b₁ 4 (bufSz - 4 - 2) (Nat.le_of_succ_le (Nat.le_of_succ_le (hfit hb₁ (by decide))))
  have hb₂ := same₂.length.trans hb₁
  obtain ⟨b₃, h₃, same₃, htrace⟩ := @copyIn_spec _ b₂ (leBytes (word b₂ 8 / 16 * 16 + xyMemoryLog % 16)) 8
    (hfit hb₂ (by decide))
  have hb₃ := same₃.length.trans hb₂
  obtain ⟨b₄, h₄, same₄, hclass⟩ := @copyIn_spec _ b₃ (leBytes (word b₃ 8 % 16 + 0 * 16)) 8 (hfit hb₃ (by decide))
  have hb₄ := same₄.length.trans hb₃
  obtain ⟨b₅, h₅, same₅, hseq⟩ := @putU16_spec b₄ 6 0 (Nat.le_of_succ_le (Nat.le_of_succ_le (hfit hb₄ (by decide))))
  have hb₅ := same₅.length.trans hb₄
  obtain ⟨b₆, h₆, same₆, htime⟩ := @copyIn_spec _ b₅ (leBytes 0) 12 (hfit hb₅ (Nat.le_refl 12))
  have hword : Holds b₄ 8 [10, 0, 0, 0] := by
    rw [word_of_holds htrace, traceWord] at hclass
    exact hclass
  refine ⟨b₆, ?_, ?_, ?_⟩
  · simp only [diagPacketHeaderM3, h₁, h₂, h₃, h₄, h₅, h₆, Option.bind_eq_bind, Option.bind_some]
  · have hwindow : ∀ {b b' : List UInt8} {o n : ℕ}, SameOutside b o n b' → o + n ≤ itemHeaderSize →
        SameOutside b 0 itemHeaderSize b' := by
      intro b b' o n hs hn
      exact hs.mono (Nat.zero_le o) (by omega)
    have hthrough₃ := ((hwindow same₁ (by decide)).trans (hwindow same₂ (by decide))).trans
      (hwindow same₃ (Nat.le_add_right 12 4))
    exact ((hthrough₃.trans (hwindow same₄ (Nat.le_add_right 12 4))).trans (hwindow same₅ (by decide))).trans
      (hwindow same₆ (by decide))
  · have hmagic := ((((hmagic.sameOutside same₂ (.inl (by decide))).sameOutside same₃ (.inl (by decide))).sameOutside
      same₄ (.inl (by decide))).sameOutside same₅ (.inl (by decide))).sameOutside same₆ (.inl (by decide))
    have hlen := (((hlen.sameOutside same₃ (.inl (Nat.le_succ_of_le (Nat.le_succ 6)))).sameOutside same₄
      (.inl (Nat.le_succ_of_le (Nat.le_succ 6)))).sameOutside same₅ (.inl (Nat.le_refl 6))).sameOutside same₆
      (.inl (Nat.le_add_right 6 6))
    have hseq := hseq.sameOutside same₆ (.inl (by decide))
    have hword := (hword.sameOutside same₅ (.inr (by decide))).sameOutside same₆ (.inl (by decide))
    simp only [itemHeader, holds_append]
    exact ⟨⟨⟨⟨hmagic, hlen⟩, hseq⟩, hword⟩, htime⟩

theorem setLen_spec (n : ℕ) (h : buf.length = szOutPutSize) :
    ∃ b, setLen n buf = some b ∧ SameOutside buf 18 2 b ∧ Holds b 18 (u16Bytes n) :=
  putU16_spec (by rw [h]; decide)

theorem setSeq_spec {i : ℕ} (hi : i < 32768) (h : buf.length = szOutPutSize) :
    ∃ b, setSeq i buf = some b ∧ SameOutside buf itemHeaderSize 2 b ∧ u16At b itemHeaderSize % 32768 = i := by
  obtain ⟨b, hb, same, hword⟩ := @putU16_spec buf itemHeaderSize
    (u16At buf itemHeaderSize / 32768 * 32768 + i % 32768) (by rw [h]; decide)
  refine ⟨b, hb, same, ?_⟩
  have hlt := u16At_lt buf itemHeaderSize
  rw [hword.u16At (by omega)]
  omega

theorem setPEnd_spec {i : ℕ} (e : ℕ) (hi : u16At buf itemHeaderSize % 32768 = i) (h : buf.length = szOutPutSize) :
    ∃ b, setPEnd e buf = some b ∧ SameOutside buf itemHeaderSize 2 b ∧
      Holds b itemHeaderSize (u16Bytes (i + e * 32768)) := by
  obtain ⟨b, hb, same, hword⟩ := @putU16_spec buf itemHeaderSize
    (u16At buf itemHeaderSize % 32768 + e * 32768) (by rw [h]; decide)
  rw [hi] at hword
  exact ⟨b, hb, same, hword⟩

theorem addLen_spec {n : ℕ} (k : ℕ) (hlen : Holds buf 18 (u16Bytes n)) (hn : n < 65536) (h : buf.length = szOutPutSize) :
    ∃ b, addLen k buf = some b ∧ SameOutside buf 18 2 b ∧ Holds b 18 (u16Bytes (n + k)) := by
  obtain ⟨b, hb, same, hword⟩ := @putU16_spec buf (itemHeaderSize + 2) (u16At buf (itemHeaderSize + 2) + k)
    (by rw [h]; decide)
  have hold : u16At buf (itemHeaderSize + 2) = n := hlen.u16At hn
  rw [hold] at hword
  exact ⟨b, hb, same, hword⟩

theorem copyFileName_spec {memFile : List UInt8} (hname : memFile.length ≤ 60)
    (h : szFileName.length = szFileNameSize) :
    ∃ f, copyFileName memFile szFileName = some f ∧ f.length = szFileNameSize ∧
      copyOut f 0 (memFile.length + 1) = some (memFile ++ [0]) := by
  have hsize : szFileNameSize = 128 := rfl
  obtain ⟨f₁, h₁, same₁, hchars⟩ := @copyIn_spec _ szFileName memFile 0 (by omega)
  have hf₁ := same₁.length.trans h
  obtain ⟨f₂, h₂, same₂, hnul⟩ := @copyIn_spec _ f₁ [0] memFile.length (by rw [List.length_singleton]; omega)
  have hf₂ := same₂.length.trans hf₁
  refine ⟨f₂, ?_, hf₂, ?_⟩
  · rw [copyFileName, h₁, Option.bind_some, h₂]
  · have hboth : Holds f₂ 0 (memFile ++ [0]) := by
      rw [holds_append, Nat.zero_add]
      exact ⟨hchars.sameOutside same₂ (.inl (Nat.le_of_eq (Nat.zero_add _))), hnul⟩
    have hout := hboth.copyOut (by rw [List.length_append, List.length_singleton]; omega)
    rwa [List.length_append, List.length_singleton] at hout

/-- `mem_info` is set. -/
structure Filled (buf : List UInt8) (seq pEnd len : ℕ) : Prop where
  size : buf.length = szOutPutSize
  seqEnd : Holds buf 16 (u16Bytes (seq + pEnd * 32768))
  len : Holds buf 18 (u16Bytes len)

/-- What is written before the hand-over lies where `xy_log_trace` writes. -/
def Marks (mark : ℕ → List UInt8 → Option (List UInt8)) : Prop :=
  ∀ (n : ℕ) (buf : List UInt8), n + 2 ≤ buf.length → ∃ b, mark n buf = some b ∧ SameOutside buf n 2 b

theorem marks_none : Marks fun _ buf => some buf := fun n buf _ => ⟨buf, rfl, SameOutside.refl buf n 2⟩

theorem marks_check : Marks fun n buf => copyIn buf n [xorAll (buf.take n), 0xFA] := by
  intro n buf h
  obtain ⟨b, hb, same, -⟩ := @copyIn_spec _ buf [xorAll (buf.take n), 0xFA] n h
  exact ⟨b, hb, same⟩

theorem packet_length (bufSz seq pEnd : ℕ) (payload : List UInt8) :
    (packet bufSz seq pEnd payload).length = payloadAt + payload.length := by
  simp only [packet, List.length_append, itemHeader_length, u16Bytes_length, payloadAt, memInfoSize]

/-- The packet that is handed over, and that no write leaves `szOutPut`. -/
theorem finishPacket_spec {mark : ℕ → List UInt8 → Option (List UInt8)} (hmark : Marks mark) {first : Prop}
    [Decidable first] {bufSz seq pEnd : ℕ} {name data : List UInt8} {sent : List (List UInt8)}
    (hfilled : Filled buf seq pEnd (name ++ data).length) (hfirst : first → copyOut szFileName 0 name.length = some name)
    (hrest : ¬first → name = []) (hlen : (name ++ data).length ≤ 573) :
    ∃ b, finishPacket mark first bufSz name.length data buf szFileName sent =
        some ⟨b, szFileName, sent ++ [packet bufSz seq pEnd (name ++ data)]⟩ ∧ b.length = szOutPutSize := by
  have hsize : szOutPutSize = 600 := rfl
  have hat : payloadAt = 20 := rfl
  have hlen' := hlen
  rw [List.length_append] at hlen'
  obtain ⟨b₁, h₁, same₁, hheader⟩ := diagPacketHeaderM3_spec bufSz hfilled.size
  have hb₁ := same₁.length.trans hfilled.size
  have hseq₁ := hfilled.seqEnd.sameOutside same₁ (.inr (Nat.le_refl 16))
  have hlen₁ := hfilled.len.sameOutside same₁ (.inr (Nat.le_add_right 16 2))
  obtain ⟨b₂, h₂, same₂, hname⟩ : ∃ b, (if first then (copyOut szFileName 0 name.length).bind (copyIn b₁ payloadAt)
      else some b₁) = some b ∧ SameOutside b₁ payloadAt name.length b ∧ Holds b payloadAt name := by
    by_cases hf : first
    · rw [if_pos hf, hfirst hf, Option.bind_some]
      exact copyIn_spec (by omega)
    · rw [if_neg hf, hrest hf]
      exact ⟨b₁, rfl, SameOutside.refl _ _ _, rfl⟩
  have hb₂ := same₂.length.trans hb₁
  obtain ⟨b₃, h₃, same₃, hdata⟩ := @copyIn_spec _ b₂ data (payloadAt + name.length) (by omega)
  have hb₃ := same₃.length.trans hb₂
  have hpayload : Holds b₃ payloadAt (name ++ data) :=
    holds_append.mpr ⟨hname.sameOutside same₃ (.inl (Nat.le_refl _)), hdata⟩
  have hpacket : Holds b₃ 0 (packet bufSz seq pEnd (name ++ data)) := by
    have hkeep : ∀ {o : ℕ} {bytes : List UInt8}, Holds b₁ o bytes → o + bytes.length ≤ payloadAt → Holds b₃ o bytes :=
      fun hb ho => (hb.sameOutside same₂ (.inl ho)).sameOutside same₃ (.inl (by omega))
    rw [packet, holds_append, holds_append, holds_append]
    refine ⟨⟨hkeep hheader (Nat.le_add_right 16 4), hkeep hseq₁ (Nat.le_add_right 18 2), hkeep hlen₁ (Nat.le_refl 20)⟩, ?_⟩
    exact hpayload
  have hitem : memInfoSize + data.length + name.length + itemHeaderSize =
      (packet bufSz seq pEnd (name ++ data)).length := by
    rw [packet_length, List.length_append, payloadAt]
    omega
  obtain ⟨b₄, h₄, same₄⟩ := hmark (packet bufSz seq pEnd (name ++ data)).length b₃
    (by rw [packet_length, List.length_append]; omega)
  have hb₄ := same₄.length.trans hb₃
  have hpacket₄ := hpacket.sameOutside same₄ (.inl (Nat.le_of_eq (Nat.zero_add _)))
  obtain ⟨b₅, h₅, same₅, -⟩ := @copyIn_spec _ b₄
    [xorAll (b₄.take (packet bufSz seq pEnd (name ++ data)).length), 0xFA]
    (packet bufSz seq pEnd (name ++ data)).length
    (by rw [packet_length, List.length_append, List.length_cons, List.length_singleton]; omega)
  have htake : b₄.take (packet bufSz seq pEnd (name ++ data)).length = packet bufSz seq pEnd (name ++ data) := hpacket₄
  rw [htake] at h₅
  refine ⟨b₅, ?_, same₅.length.trans hb₄⟩
  simp only [finishPacket, Option.bind_eq_bind, h₁, h₂, h₃, Option.bind_some, hitem, h₄, xyLogTrace, h₅, htake]

end NbiotXY1100.DiagMemDump
