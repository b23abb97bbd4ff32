import NbiotXY1100.DiagMemDump
import Mathlib.Tactic.ByContra

/-! # Reassembly of a crash dump

The receiver takes the packets in the order of their sequence numbers, removes the file name from the
first one and puts the payloads together. -/
namespace NbiotXY1100.DiagMemDump
open FlashMemory ByteBuffers DiagReadMsg

def u8Seq (p : List UInt8) : ℕ := u16At p itemHeaderSize % 32768

def u8PEnd (p : List UInt8) : ℕ := u16At p itemHeaderSize / 32768

def u8Len (p : List UInt8) : ℕ := u16At p (itemHeaderSize + 2)

def u8Payload (p : List UInt8) : List UInt8 := p.drop payloadAt

/-- The packets carry the file name and the region, and each of them says how long it is and whether it is
the last one. -/
structure Reassembles (memFile region : List UInt8) (packets : List (List UInt8)) : Prop where
  named : ∃ p ∈ packets.head?, (memFile ++ [0]) <+: u8Payload p
  bytes : (packets.map u8Payload).flatten = memFile ++ [0] ++ region
  seqs : packets.map u8Seq = List.range packets.length
  lens : ∀ p ∈ packets, u8Len p = (u8Payload p).length
  ends : packets.map u8PEnd = List.replicate (packets.length - 1) 0 ++ [1]
  itemLens : ∀ p ∈ packets, u16Len p + 6 = p.length

theorem holds_self (p : List UInt8) : Holds p 0 p := List.take_length

section Fields
variable {bufSz seq pEnd : ℕ} {payload : List UInt8}

theorem packet_holds : Holds (packet bufSz seq pEnd payload) 4 (u16Bytes (bufSz - 4 - 2)) ∧
    Holds (packet bufSz seq pEnd payload) itemHeaderSize (u16Bytes (seq + pEnd * 32768)) ∧
    Holds (packet bufSz seq pEnd payload) (itemHeaderSize + 2) (u16Bytes payload.length) := by
  have hself := holds_self (packet bufSz seq pEnd payload)
  rw [packet, holds_append, holds_append, holds_append, itemHeader] at hself
  obtain ⟨⟨hheader, hseq, hlen⟩, -⟩ := hself
  simp only [holds_append] at hheader
  exact ⟨hheader.1.1.1.2, hseq, hlen⟩

theorem u8Payload_packet : u8Payload (packet bufSz seq pEnd payload) = payload :=
  List.drop_left' rfl

theorem u8Seq_packet (hseq : seq < 32768) (hend : pEnd ≤ 1) : u8Seq (packet bufSz seq pEnd payload) = seq := by
  rw [u8Seq, packet_holds.2.1.u16At (by omega)]
  omega

theorem u8PEnd_packet (hseq : seq < 32768) (hend : pEnd ≤ 1) : u8PEnd (packet bufSz seq pEnd payload) = pEnd := by
  rw [u8PEnd, packet_holds.2.1.u16At (by omega)]
  omega

theorem u8Len_packet (hpayload : payload.length < 65536) : u8Len (packet bufSz seq pEnd payload) = payload.length :=
  packet_holds.2.2.u16At hpayload

theorem u16Len_packet (hbuf : bufSz < 65536) : u16Len (packet bufSz seq pEnd payload) = bufSz - 6 :=
  packet_holds.1.u16At (by omega)

end Fields

variable (mem : Memory) (memFile : List UInt8) (memAddr : UInt32)

/-- The file name in front of the memory of the packet `i`. -/
def namePart (i : ℕ) : List UInt8 := if i = 0 then memFile ++ [0] else []

def blockPacket (nSize i : ℕ) : List UInt8 :=
  packet (itemHeaderSize + memInfoSize + onePacketSize + (namePart memFile i).length) i (if i + 1 = nSize then 1 else 0)
    (namePart memFile i ++ read mem (memAddr + UInt32.ofNat (i * onePacketSize)) onePacketSize)

def lastPacket (nSize lastSize : ℕ) : List UInt8 :=
  packet (itemHeaderSize + memInfoSize + lastSize + memFile.length + 1) nSize 1
    (namePart memFile nSize ++ read mem (memAddr + UInt32.ofNat (nSize * onePacketSize)) lastSize)

/-- The packets of a dump. -/
def packets (memSize : ℕ) : List (List UInt8) :=
  (List.range (memSize / onePacketSize)).map (blockPacket mem memFile memAddr (memSize / onePacketSize)) ++
    if memSize % onePacketSize ≠ 0 then
      [lastPacket mem memFile memAddr (memSize / onePacketSize) (memSize % onePacketSize)]
    else []

variable {mem memFile memAddr}

theorem namePart_length (i : ℕ) : (namePart memFile i).length = if i = 0 then memFile.length + 1 else 0 := by
  by_cases hi : i = 0
  · rw [namePart, if_pos hi, if_pos hi, List.length_append, List.length_singleton]
  · rw [namePart, if_neg hi, if_neg hi, List.length_nil]

theorem namePart_length_le (hname : memFile.length ≤ 60) (i : ℕ) : (namePart memFile i).length ≤ 61 := by
  rw [namePart_length]
  split
  · omega
  · omega

/-- The file name is copied to `szFileName` for the first packet only. -/
theorem fileName_spec {szFileName : List UInt8} (hname : memFile.length ≤ 60) (hs : szFileName.length = szFileNameSize)
    (i : ℕ) : ∃ f, (if i = 0 then copyFileName memFile szFileName else some szFileName) = some f ∧
      f.length = szFileNameSize ∧ (i = 0 → copyOut f 0 (namePart memFile i).length = some (namePart memFile i)) := by
  by_cases hi : i = 0
  · obtain ⟨f, hf, hlen, hout⟩ := copyFileName_spec hname hs
    refine ⟨f, by rw [if_pos hi, hf], hlen, fun _ => ?_⟩
    rw [namePart_length, namePart, if_pos hi, if_pos hi, hout]
  · exact ⟨szFileName, if_neg hi, hs, fun h => absurd h hi⟩

/-- `u8Len` with the file name. -/
theorem nameLen_spec {buf : List UInt8} {n : ℕ} (hn : n ≤ onePacketSize)
    (hbuf : buf.length = szOutPutSize) (hlen : Holds buf 18 (u16Bytes n)) (i : ℕ) :
    ∃ b, (if i = 0 then addLen (memFile.length + 1) buf else some buf) = some b ∧ SameOutside buf 18 2 b ∧
      Holds b 18 (u16Bytes ((namePart memFile i).length + n)) := by
  have hone : onePacketSize = 512 := rfl
  by_cases hi : i = 0
  · obtain ⟨b, hb, same, hword⟩ := addLen_spec (memFile.length + 1) hlen (by omega) hbuf
    refine ⟨b, by rw [if_pos hi, hb], same, ?_⟩
    rw [namePart_length, if_pos hi, Nat.add_comm]
    exact hword
  · refine ⟨buf, if_neg hi, SameOutside.refl _ _ _, ?_⟩
    rw [namePart_length, if_neg hi, Nat.zero_add]
    exact hlen

/-- The end mark of a full block is written twice when it is the last one. -/
theorem blockEnd_spec {buf : List UInt8} {i : ℕ} (nSize : ℕ) (hi : u16At buf itemHeaderSize % 32768 = i)
    (hbuf : buf.length = szOutPutSize) :
    ∃ b₁ b₂, setPEnd 0 buf = some b₁ ∧ (if i + 1 = nSize then setPEnd 1 b₁ else some b₁) = some b₂ ∧
      SameOutside buf itemHeaderSize 2 b₂ ∧
      Holds b₂ itemHeaderSize (u16Bytes (i + (if i + 1 = nSize then 1 else 0) * 32768)) := by
  obtain ⟨b₁, h₁, same₁, hword₁⟩ := setPEnd_spec 0 hi hbuf
  by_cases hlast : i + 1 = nSize
  · have hi₁ : u16At b₁ itemHeaderSize % 32768 = i := by
      rw [hword₁.u16At (by omega)]
      omega
    obtain ⟨b₂, h₂, same₂, hword₂⟩ := setPEnd_spec 1 hi₁ (same₁.length.trans hbuf)
    refine ⟨b₁, b₂, h₁, by rw [if_pos hlast, h₂], same₁.trans same₂, ?_⟩
    rw [if_pos hlast]
    exact hword₂
  · refine ⟨b₁, b₁, h₁, if_neg hlast, same₁, ?_⟩
    rw [if_neg hlast]
    exact hword₁

variable {mark : ℕ → List UInt8 → Option (List UInt8)}

theorem dumpBlock_spec (hmark : Marks mark) (hname : memFile.length ≤ 60) {nSize i : ℕ} (hi : i < 32768) {s : Dump}
    (hs : s.Sized) : ∃ s', dumpBlock mark mem memFile memAddr nSize i (i * onePacketSize) s = some s' ∧ s'.Sized ∧
      s'.sent = s.sent ++ [blockPacket mem memFile memAddr nSize i] := by
  have hone : onePacketSize = 512 := rfl
  have hpart := namePart_length_le hname i
  obtain ⟨b₁, h₁, same₁, hlen₁⟩ := setLen_spec onePacketSize hs.outPut
  have hb₁ := same₁.length.trans hs.outPut
  obtain ⟨b₂, h₂, same₂, hseq₂⟩ := setSeq_spec hi hb₁
  have hb₂ := same₂.length.trans hb₁
  obtain ⟨b₃, b₄, h₃, h₄, same₄, hseq₄⟩ := blockEnd_spec nSize hseq₂ hb₂
  have hb₄ := same₄.length.trans hb₂
  have hlen₄ := (hlen₁.sameOutside same₂ (.inr (Nat.le_refl 18))).sameOutside same₄ (.inr (Nat.le_refl 18))
  obtain ⟨f, hf, hsizef, hout⟩ := fileName_spec hname hs.fileName i
  obtain ⟨b₅, h₅, same₅, hlen₅⟩ := @nameLen_spec memFile _ _ (Nat.le_refl _) hb₄ hlen₄ i
  have hcopy : (if i = 0 then addLen (if i = 0 then memFile.length + 1 else 0) b₄ else some b₄) = some b₅ := by
    rw [← h₅]
    by_cases h0 : i = 0
    · simp only [if_pos h0]
    · rw [if_neg h0, if_neg h0]
  have hfilled : Filled b₅ i (if i + 1 = nSize then 1 else 0)
      (namePart memFile i ++ read mem (memAddr + UInt32.ofNat (i * onePacketSize)) onePacketSize).length := by
    refine ⟨same₅.length.trans hb₄, hseq₄.sameOutside same₅ (.inl (Nat.le_refl 18)), ?_⟩
    rw [List.length_append, read_length]
    exact hlen₅
  obtain ⟨b₆, h₆, hb₆⟩ := @finishPacket_spec b₅ f mark hmark (i = 0) _
    (itemHeaderSize + memInfoSize + onePacketSize + (namePart memFile i).length) i _ (namePart memFile i)
    (read mem (memAddr + UInt32.ofNat (i * onePacketSize)) onePacketSize) s.sent hfilled hout (fun h => if_neg h)
    (by rw [List.length_append, read_length]; omega)
  refine ⟨⟨b₆, f, s.sent ++ [blockPacket mem memFile memAddr nSize i]⟩, ?_, ⟨hb₆, hsizef⟩, rfl⟩
  rw [namePart_length] at h₆
  simp only [dumpBlock, Option.bind_eq_bind, h₁, Option.bind_some, h₂, h₃, h₄, hf, hcopy, h₆]
  rw [blockPacket, namePart_length]

/-- The packets of the loop, in the order of the blocks. -/
theorem dumpBlocks_spec (hmark : Marks mark) (hname : memFile.length ≤ 60) {nSize : ℕ} (n : ℕ) :
    ∀ {i : ℕ} {s : Dump}, i + n ≤ 32768 → s.Sized →
      ∃ s', dumpBlocks mark mem memFile memAddr nSize n i (i * onePacketSize) s = some s' ∧ s'.Sized ∧
        s'.sent = s.sent ++ (List.range' i n).map (blockPacket mem memFile memAddr nSize) := by
  induction n with
  | zero =>
    intro i s _ hs
    exact ⟨s, rfl, hs, (List.append_nil _).symm⟩
  | succ n ih =>
    intro i s hi hs
    obtain ⟨s₁, h₁, hs₁, hsent₁⟩ := @dumpBlock_spec mem memFile memAddr mark hmark hname nSize i (by omega) s hs
    obtain ⟨s₂, h₂, hs₂, hsent₂⟩ := @ih (i + 1) s₁ (by omega) hs₁
    have hoffset : i * onePacketSize + onePacketSize = (i + 1) * onePacketSize := (Nat.succ_mul i onePacketSize).symm
    refine ⟨s₂, ?_, hs₂, ?_⟩
    · rw [dumpBlocks, h₁, Option.bind_some, hoffset, h₂]
    · rw [hsent₂, hsent₁, List.range'_succ, List.map_cons, List.append_assoc, List.singleton_append]

theorem dumpLast_spec (hname : memFile.length ≤ 60) {nSize lastSize : ℕ} (hi : nSize < 32768)
    (hlast : lastSize ≤ onePacketSize) {s : Dump} (hs : s.Sized) :
    ∃ s', dumpLast mem memFile memAddr nSize lastSize nSize (nSize * onePacketSize) s = some s' ∧ s'.Sized ∧
      s'.sent = s.sent ++ [lastPacket mem memFile memAddr nSize lastSize] := by
  have hone : onePacketSize = 512 := rfl
  have hpart := namePart_length_le hname nSize
  obtain ⟨b₁, h₁, same₁, hlen₁⟩ := setLen_spec lastSize hs.outPut
  have hb₁ := same₁.length.trans hs.outPut
  obtain ⟨b₂, h₂, same₂, hseq₂⟩ := setSeq_spec hi hb₁
  have hb₂ := same₂.length.trans hb₁
  obtain ⟨b₃, h₃, same₃, hseq₃⟩ := setPEnd_spec 1 hseq₂ hb₂
  have hb₃ := same₃.length.trans hb₂
  have hlen₃ := (hlen₁.sameOutside same₂ (.inr (Nat.le_refl 18))).sameOutside same₃ (.inr (Nat.le_refl 18))
  obtain ⟨f, hf, hsizef, hout⟩ := fileName_spec hname hs.fileName nSize
  obtain ⟨b₄, h₄, same₄, hlen₄⟩ := @nameLen_spec memFile _ _ hlast hb₃ hlen₃ nSize
  have hfilled : Filled b₄ nSize 1
      (namePart memFile nSize ++ read mem (memAddr + UInt32.ofNat (nSize * onePacketSize)) lastSize).length := by
    refine ⟨same₄.length.trans hb₃, hseq₃.sameOutside same₄ (.inl (Nat.le_refl 18)), ?_⟩
    rw [List.length_append, read_length]
    exact hlen₄
  obtain ⟨b₅, h₅, hb₅⟩ := @finishPacket_spec b₄ f _ marks_none (nSize = 0) _
    (itemHeaderSize + memInfoSize + lastSize + memFile.length + 1) nSize 1 (namePart memFile nSize)
    (read mem (memAddr + UInt32.ofNat (nSize * onePacketSize)) lastSize) s.sent hfilled hout (fun h => if_neg h)
    (by rw [List.length_append, read_length]; omega)
  refine ⟨⟨b₅, f, s.sent ++ [lastPacket mem memFile memAddr nSize lastSize]⟩, ?_, ⟨hb₅, hsizef⟩, rfl⟩
  rw [namePart_length] at h₅
  simp only [dumpLast, Option.bind_eq_bind, h₁, Option.bind_some, h₂, h₃, hf, h₄, h₅]
  rfl

/-- Every dump is sent, and neither buffer is left. -/
theorem dumpInfo_spec (hmark : Marks mark) (hname : memFile.length ≤ 60) {memSize : ℕ}
    (hpackets : (memSize + 511) / onePacketSize < 32768) {s : Dump} (hs : s.Sized) :
    ∃ s', dumpInfo mark mem memFile memAddr memSize s = some s' ∧ s'.Sized ∧
      s'.sent = s.sent ++ packets mem memFile memAddr memSize := by
  have hblocks : memSize / onePacketSize < 32768 :=
    Nat.lt_of_le_of_lt (Nat.div_le_div_right (Nat.le_add_right memSize 511)) hpackets
  have hrest : memSize % onePacketSize ≤ onePacketSize := Nat.le_of_lt (Nat.mod_lt memSize (by decide))
  obtain ⟨s₁, h₁, hs₁, hsent₁⟩ := @dumpBlocks_spec mem memFile memAddr mark hmark hname (memSize / onePacketSize)
    (memSize / onePacketSize) 0 s (by omega) hs
  rw [Nat.zero_mul] at h₁
  rw [← List.range_eq_range'] at hsent₁
  by_cases hlast : memSize % onePacketSize ≠ 0
  · obtain ⟨s₂, h₂, hs₂, hsent₂⟩ := @dumpLast_spec mem memFile memAddr hname (memSize / onePacketSize)
      (memSize % onePacketSize) hblocks hrest s₁ hs₁
    refine ⟨s₂, ?_, hs₂, ?_⟩
    · simp only [dumpInfo, h₁, Option.bind_some, if_pos hlast, h₂]
    · rw [hsent₂, hsent₁, packets, if_pos hlast, List.append_assoc]
  · refine ⟨s₁, ?_, hs₁, ?_⟩
    · simp only [dumpInfo, h₁, Option.bind_some, if_neg hlast]
    · rw [hsent₁, packets, if_neg hlast, List.append_nil]

theorem memDumpInfo_spec (hname : memFile.length ≤ 60) {memSize : ℕ}
    (hpackets : (memSize + 511) / onePacketSize < 32768) {s : Dump} (hs : s.Sized) :
    ∃ s', memDumpInfo mem memFile memAddr memSize s = some s' ∧ s'.Sized ∧
      s'.sent = s.sent ++ packets mem memFile memAddr memSize :=
  dumpInfo_spec marks_none hname hpackets hs

theorem memDumpInfoFlash_spec (hname : memFile.length ≤ 60) {memSize : ℕ}
    (hpackets : (memSize + 511) / onePacketSize < 32768) {s : Dump} (hs : s.Sized) :
    ∃ s', memDumpInfoFlash mem memFile memAddr memSize s = some s' ∧ s'.Sized ∧
      s'.sent = s.sent ++ packets mem memFile memAddr memSize :=
  dumpInfo_spec marks_check hname hpackets hs

section Contents
variable {nSize lastSize memSize : ℕ}

theorem u8Payload_blockPacket (i : ℕ) : u8Payload (blockPacket mem memFile memAddr nSize i) =
    namePart memFile i ++ read mem (memAddr + UInt32.ofNat (i * onePacketSize)) onePacketSize :=
  u8Payload_packet

theorem u8Payload_lastPacket : u8Payload (lastPacket mem memFile memAddr nSize lastSize) =
    namePart memFile nSize ++ read mem (memAddr + UInt32.ofNat (nSize * onePacketSize)) lastSize :=
  u8Payload_packet

theorem blockEnd_le (i : ℕ) : (if i + 1 = nSize then 1 else 0) ≤ 1 := by
  split
  · exact Nat.le_refl 1
  · exact Nat.zero_le 1

/-- The blocks so far hold the file name and the memory so far. -/
theorem blocks_payload (n : ℕ) : ((List.range n).map fun i => u8Payload (blockPacket mem memFile memAddr nSize i)).flatten =
    (if n = 0 then [] else memFile ++ [0]) ++ read mem memAddr (n * onePacketSize) := by
  induction n with
  | zero =>
    rw [if_pos rfl, Nat.zero_mul]
    rfl
  | succ n ih =>
    have hread := read_append mem memAddr (n * onePacketSize) onePacketSize
    rw [List.range_succ, List.map_append, List.flatten_append, ih, List.map_singleton, List.flatten_singleton,
      u8Payload_blockPacket, if_neg n.succ_ne_zero, Nat.succ_mul, hread, namePart]
    by_cases hn : n = 0
    · have hnil : read mem memAddr 0 = [] := rfl
      rw [if_pos hn, if_pos hn, hn, Nat.zero_mul, hnil, List.nil_append, List.nil_append, List.nil_append]
    · rw [if_neg hn, if_neg hn, List.nil_append, List.append_assoc]

/-- The payloads of all packets hold the file name once and the region. -/
theorem packets_bytes (hsize : 0 < memSize) :
    ((packets mem memFile memAddr memSize).map u8Payload).flatten = memFile ++ [0] ++ read mem memAddr memSize := by
  have hdiv : memSize / onePacketSize * onePacketSize + memSize % onePacketSize = memSize :=
    Nat.div_add_mod' memSize onePacketSize
  rw [packets, List.map_append, List.map_map, List.flatten_append]
  have hblocks := @blocks_payload mem memFile memAddr (memSize / onePacketSize) (memSize / onePacketSize)
  simp only [Function.comp_def, hblocks]
  by_cases hlast : memSize % onePacketSize ≠ 0
  · have hread := read_append mem memAddr (memSize / onePacketSize * onePacketSize) (memSize % onePacketSize)
    rw [hdiv] at hread
    rw [if_pos hlast, List.map_singleton, List.flatten_singleton, u8Payload_lastPacket, namePart, hread]
    by_cases hn : memSize / onePacketSize = 0
    · have hnil : read mem memAddr 0 = [] := rfl
      rw [if_pos hn, if_pos hn, hn, Nat.zero_mul, hnil, List.nil_append, List.nil_append, List.nil_append]
    · rw [if_neg hn, if_neg hn, List.nil_append, List.append_assoc]
  · rw [not_not.mp hlast, Nat.add_zero] at hdiv
    have hn : memSize / onePacketSize ≠ 0 := by
      intro h
      rw [h, Nat.zero_mul] at hdiv
      omega
    rw [if_neg hlast, if_neg hn, hdiv, List.map_nil, List.flatten_nil, List.append_nil]

theorem packets_named (hsize : 0 < memSize) :
    ∃ p ∈ (packets mem memFile memAddr memSize).head?, (memFile ++ [0]) <+: u8Payload p := by
  by_cases hn : memSize / onePacketSize = 0
  · have hlast : memSize % onePacketSize ≠ 0 := by
      have hdiv := Nat.div_add_mod' memSize onePacketSize
      rw [hn, Nat.zero_mul] at hdiv
      omega
    refine ⟨lastPacket mem memFile memAddr 0 (memSize % onePacketSize), ?_, ?_⟩
    · rw [packets, hn, if_pos hlast]
      rfl
    · rw [u8Payload_lastPacket]
      exact List.prefix_append _ _
  · obtain ⟨n, hn⟩ := Nat.exists_eq_succ_of_ne_zero hn
    refine ⟨blockPacket mem memFile memAddr (n + 1) 0, ?_, ?_⟩
    · rw [packets, hn, List.range_succ_eq_map, List.map_cons, List.cons_append]
      rfl
    · rw [u8Payload_blockPacket]
      exact List.prefix_append _ _

theorem packets_length : (packets mem memFile memAddr memSize).length =
    memSize / onePacketSize + if memSize % onePacketSize ≠ 0 then 1 else 0 := by
  rw [packets, List.length_append, List.length_map, List.length_range]
  split
  · rfl
  · rfl

/-- What holds of each block and of the last packet holds of all packets. -/
theorem forall_packets {P : List UInt8 → Prop}
    (hblock : ∀ i < memSize / onePacketSize, P (blockPacket mem memFile memAddr (memSize / onePacketSize) i))
    (hlast : memSize % onePacketSize ≠ 0 →
      P (lastPacket mem memFile memAddr (memSize / onePacketSize) (memSize % onePacketSize))) :
    ∀ p ∈ packets mem memFile memAddr memSize, P p := by
  intro p hp
  rw [packets, List.mem_append, List.mem_map] at hp
  obtain ⟨i, hi, rfl⟩ | hp := hp
  · exact hblock i (List.mem_range.mp hi)
  · by_cases h : memSize % onePacketSize ≠ 0
    · rw [if_pos h] at hp
      rw [List.mem_singleton.mp hp]
      exact hlast h
    · rw [if_neg h] at hp
      exact absurd hp List.not_mem_nil

theorem payload_length_lt (hname : memFile.length ≤ 60) (i : ℕ) {n : ℕ} (a : UInt32) (hn : n ≤ onePacketSize) :
    (namePart memFile i ++ read mem a n).length < 65536 := by
  have hone : onePacketSize = 512 := rfl
  have hpart := namePart_length_le hname i
  rw [List.length_append, read_length]
  omega

theorem blocks_lt (hpackets : (memSize + 511) / onePacketSize < 32768) : memSize / onePacketSize < 32768 :=
  Nat.lt_of_le_of_lt (Nat.div_le_div_right (Nat.le_add_right memSize 511)) hpackets

theorem packets_lens (hname : memFile.length ≤ 60) :
    ∀ p ∈ packets mem memFile memAddr memSize, u8Len p = (u8Payload p).length := by
  apply forall_packets
  · intro i _
    rw [u8Payload_blockPacket]
    exact u8Len_packet (payload_length_lt hname i _ (Nat.le_refl _))
  · intro _
    rw [u8Payload_lastPacket]
    exact u8Len_packet (payload_length_lt hname _ _ (Nat.le_of_lt (Nat.mod_lt memSize (by decide))))

theorem packets_seqs (hpackets : (memSize + 511) / onePacketSize < 32768) :
    (packets mem memFile memAddr memSize).map u8Seq =
    List.range (packets mem memFile memAddr memSize).length := by
  have hblocks := blocks_lt hpackets
  have hmap : (List.range (memSize / onePacketSize)).map
      (u8Seq ∘ blockPacket mem memFile memAddr (memSize / onePacketSize)) = List.range (memSize / onePacketSize) := by
    refine (List.map_congr_left fun i hi => ?_).trans (List.map_id _)
    exact u8Seq_packet (Nat.lt_trans (List.mem_range.mp hi) hblocks) (blockEnd_le i)
  rw [packets_length, packets, List.map_append, List.map_map, hmap]
  by_cases hlast : memSize % onePacketSize ≠ 0
  · rw [if_pos hlast, if_pos hlast, List.range_succ, List.map_singleton, lastPacket,
      u8Seq_packet hblocks (Nat.le_refl 1)]
  · rw [if_neg hlast, if_neg hlast, List.map_nil, List.append_nil, Nat.add_zero]

/-- One end mark for the blocks and one for the last item. -/
theorem packets_ends (hpackets : (memSize + 511) / onePacketSize < 32768) :
    (packets mem memFile memAddr memSize).map u8PEnd =
    ((List.range (memSize / onePacketSize)).map fun i => if i + 1 = memSize / onePacketSize then 1 else 0) ++
      if memSize % onePacketSize ≠ 0 then [1] else [] := by
  have hblocks := blocks_lt hpackets
  have hmap : (List.range (memSize / onePacketSize)).map
      (u8PEnd ∘ blockPacket mem memFile memAddr (memSize / onePacketSize)) =
      (List.range (memSize / onePacketSize)).map fun i => if i + 1 = memSize / onePacketSize then 1 else 0 := by
    apply List.map_congr_left
    intro i hi
    exact u8PEnd_packet (Nat.lt_trans (List.mem_range.mp hi) hblocks) (blockEnd_le i)
  rw [packets, List.map_append, List.map_map, hmap]
  by_cases hlast : memSize % onePacketSize ≠ 0
  · rw [if_pos hlast, if_pos hlast, List.map_singleton, lastPacket, u8PEnd_packet hblocks (Nat.le_refl 1)]
  · rw [if_neg hlast, if_neg hlast, List.map_nil]

/-- The header of a block says how long the packet is. -/
theorem block_itemLen (hname : memFile.length ≤ 60) {i : ℕ} :
    u16Len (blockPacket mem memFile memAddr (memSize / onePacketSize) i) + 6 =
    (blockPacket mem memFile memAddr (memSize / onePacketSize) i).length := by
  have hone : onePacketSize = 512 := rfl
  have hat : payloadAt = 20 := rfl
  have hheader : itemHeaderSize + memInfoSize = 20 := rfl
  have hpart := namePart_length_le hname i
  rw [blockPacket, u16Len_packet (by omega), packet_length, List.length_append, read_length]
  omega

/-- The header of the last item counts the file name. -/
theorem last_itemLen (hname : memFile.length ≤ 60) :
    u16Len (lastPacket mem memFile memAddr (memSize / onePacketSize) (memSize % onePacketSize)) + 6 =
    payloadAt + (memFile.length + 1) + memSize % onePacketSize := by
  have hlt : memSize % onePacketSize < 512 := Nat.mod_lt memSize (by decide)
  have hat : payloadAt = 20 := rfl
  have hheader : itemHeaderSize + memInfoSize = 20 := rfl
  rw [lastPacket, u16Len_packet (by omega)]
  omega

theorem last_length : (lastPacket mem memFile memAddr (memSize / onePacketSize) (memSize % onePacketSize)).length =
    payloadAt + (if memSize / onePacketSize = 0 then memFile.length + 1 else 0) + memSize % onePacketSize := by
  rw [lastPacket, packet_length, List.length_append, read_length, namePart_length, Nat.add_assoc]

/-- Only the last of the blocks is marked. -/
theorem ends_range {n : ℕ} (hn : n ≠ 0) :
    ((List.range n).map fun i => if i + 1 = n then 1 else 0) = List.replicate (n - 1) 0 ++ [1] := by
  obtain ⟨k, rfl⟩ := Nat.exists_eq_succ_of_ne_zero hn
  rw [List.range_succ, List.map_append, List.map_singleton, if_pos rfl]
  congr 1
  apply List.eq_replicate_iff.mpr
  refine ⟨(List.length_map _).trans List.length_range, fun e he => ?_⟩
  obtain ⟨i, hi, rfl⟩ := List.mem_map.mp he
  have hlt := List.mem_range.mp hi
  exact if_neg (by omega)

theorem packets_reassemble (hname : memFile.length ≤ 60) (hsize : 0 < memSize)
    (hpackets : (memSize + 511) / onePacketSize < 32768)
    (hblocks : memSize < onePacketSize ∨ memSize % onePacketSize = 0) :
    Reassembles memFile (read mem memAddr memSize) (packets mem memFile memAddr memSize) := by
  have hone : onePacketSize = 512 := rfl
  refine ⟨packets_named hsize, packets_bytes hsize, packets_seqs hpackets, packets_lens hname, ?_, ?_⟩
  · rw [packets_ends hpackets, packets_length]
    obtain hless | hmod := hblocks
    · have hdiv : memSize / onePacketSize = 0 := Nat.div_eq_of_lt hless
      have hlast : memSize % onePacketSize ≠ 0 := by
        rw [Nat.mod_eq_of_lt hless]
        omega
      rw [if_pos hlast, if_pos hlast, hdiv]
      rfl
    · have hdiv : memSize / onePacketSize ≠ 0 := by
        rw [hone] at hmod ⊢
        omega
      rw [if_neg (not_not_intro hmod), if_neg (not_not_intro hmod), ends_range hdiv, List.append_nil, Nat.add_zero]
  · apply forall_packets
    · intro i _
      exact block_itemLen hname
    · intro hlast
      obtain hless | hmod := hblocks
      · rw [last_itemLen hname, last_length, if_pos (Nat.div_eq_of_lt hless)]
      · exact absurd hmod hlast

/-- A last item behind full blocks is shorter than its header says. -/
theorem not_reassembles (hname : memFile.length ≤ 60) (hmore : onePacketSize ≤ memSize)
    (hlast : memSize % onePacketSize ≠ 0) (region : List UInt8) :
    ¬Reassembles memFile region (packets mem memFile memAddr memSize) := by
  intro h
  have hdiv : memSize / onePacketSize ≠ 0 := Nat.div_ne_zero_iff.mpr ⟨by decide, hmore⟩
  have hmem : lastPacket mem memFile memAddr (memSize / onePacketSize) (memSize % onePacketSize) ∈
      packets mem memFile memAddr memSize := by
    rw [packets, if_pos hlast]
    exact List.mem_append_right _ (List.mem_singleton_self _)
  have hlen := h.itemLens _ hmem
  rw [last_itemLen hname, last_length, if_neg hdiv] at hlen
  omega

end Contents

/-- `mem_dump_info` stays within its buffers and its packets reassemble the region, and
`mem_dump_info_flash` sends the same packets. -/
def DumpOk (mem : Memory) (memFile : List UInt8) (memAddr : UInt32) (memSize : ℕ) (s : Dump) : Prop :=
  (∃ s', memDumpInfo mem memFile memAddr memSize s = some s' ∧
    Reassembles memFile (read mem memAddr memSize) s'.sent) ∧
  (memDumpInfoFlash mem memFile memAddr memSize s).map Dump.sent =
    (memDumpInfo mem memFile memAddr memSize s).map Dump.sent

/-- The dump is right exactly when all packets but a single one are full blocks. -/
theorem dumpOk_iff (mem : Memory) (memFile : List UInt8) (memAddr : UInt32) (memSize : ℕ) (s : Dump) (hs : s.Sized)
    (hsent : s.sent = []) (hname : memFile.length ≤ 60) (hsize : 0 < memSize)
    (hpackets : (memSize + 511) / onePacketSize < 2 ^ 15) :
    DumpOk mem memFile memAddr memSize s ↔ memSize < onePacketSize ∨ memSize % onePacketSize = 0 := by
  obtain ⟨s₁, h₁, -, hsent₁⟩ := @memDumpInfo_spec mem memFile memAddr hname memSize hpackets s hs
  obtain ⟨s₂, h₂, -, hsent₂⟩ := @memDumpInfoFlash_spec mem memFile memAddr hname memSize hpackets s hs
  rw [hsent, List.nil_append] at hsent₁ hsent₂
  constructor
  · intro h
    obtain ⟨⟨s', hs', hreassembles⟩, -⟩ := h
    obtain rfl := Option.some.inj (hs'.symm.trans h₁)
    rw [hsent₁] at hreassembles
    by_contra hcond
    obtain ⟨hmore, hlast⟩ := not_or.mp hcond
    exact not_reassembles hname (Nat.le_of_not_lt hmore) hlast _ hreassembles
  · intro hblocks
    refine ⟨⟨s₁, h₁, ?_⟩, ?_⟩
    · rw [hsent₁]
      exact packets_reassemble hname hsize hpackets hblocks
    · rw [h₁, h₂, Option.map_some, Option.map_some, hsent₁, hsent₂]

/-- The buffers before the first dump. -/
def Dump.init : Dump := ⟨List.replicate szOutPutSize 0, List.replicate szFileNameSize 0, []⟩

theorem sized_init : Dump.init.Sized := ⟨List.length_replicate, List.length_replicate⟩

theorem dumpOk_init : DumpOk (fun _ => 7) [0x61] 0x20000000 1024 Dump.init ↔ 1024 < onePacketSize ∨ 1024 % onePacketSize = 0 :=
  dumpOk_iff (fun _ => 7) [0x61] 0x20000000 1024 Dump.init sized_init rfl (by decide) (by decide) (by decide)

/-- A region of 513 bytes: the second packet carries one byte, and its header counts three. -/
theorem not_dumpOk : ¬DumpOk (fun _ => 7) [0x61] 0x20000000 513 Dump.init := by
  intro h
  obtain ⟨⟨s', hs', hreassembles⟩, -⟩ := h
  obtain ⟨s₁, h₁, -, hsent₁⟩ := @memDumpInfo_spec (fun _ => 7) [0x61] 0x20000000 (by decide) 513 (by decide)
    Dump.init sized_init
  obtain rfl := Option.some.inj (hs'.symm.trans h₁)
  rw [hsent₁] at hreassembles
  exact not_reassembles (by decide) (by decide) (by decide) _ hreassembles

end NbiotXY1100.DiagMemDump
