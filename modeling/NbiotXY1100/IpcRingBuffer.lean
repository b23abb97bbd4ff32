import NbiotXY1100.CyclicBuffer
import Mathlib.Data.Nat.ModEq
import Mathlib.Tactic.SplitIfs

/-! # The ring buffer between the two cores

`ipcmsg_ringbuf.c` and the computations of `ipcmsg_drv.c` on a private copy of the
positions. Addresses are offsets from `base_addr`; a copy is the list of byte stores, or
of addresses to load from, in order. The arithmetic is that of 32-bit unsigned integers. -/
namespace NbiotXY1100.IpcRingBuffer
open CyclicBuffer

def addU32 (a b : ℕ) : ℕ := (a + b) % 2 ^ 32

def subU32 (a b : ℕ) : ℕ := (a + 2 ^ 32 - b) % 2 ^ 32

/-- `ALIGN_IPCMSG`, for an alignment that is a power of two. -/
def alignIpcmsg (size align : ℕ) : ℕ := addU32 size (align - 1) / align * align

def ipcmsgAlign : ℕ := 4

def cacheLine : ℕ := 32

/-- `T_RingBuf`, without the address of the cells and the padding. -/
structure RingBuf where
  size : ℕ
  writePos : ℕ
  readPos : ℕ
  deriving DecidableEq, Repr

/-- A message handed to `IpcMsg_Write`: `buf` is the memory from its buffer on. The flag is
an `ICM_flag`, which the 16 bits of the header hold. -/
structure IpcMsg where
  flag : ℕ
  len : ℕ
  buf : ℕ → UInt8
  flag_lt : flag < 2 ^ 16
  len_pos : 0 < len
  len_lt : len < 2 ^ 16

def IpcMsg.payload (m : IpcMsg) : List UInt8 := (List.range m.len).map m.buf

/-- `T_IpcMsg_Head` in memory, two little-endian half words. -/
def IpcMsg.head (m : IpcMsg) : ℕ → UInt8
  | 0 => UInt8.ofNat (m.len % 256)
  | 1 => UInt8.ofNat (m.len / 256)
  | 2 => UInt8.ofNat (m.flag % 256)
  | _ => UInt8.ofNat (m.flag / 256)

def isRingbufEmpty (ringbuf : RingBuf) : Bool := ringbuf.writePos = ringbuf.readPos

def isRingbufChFreeSpace (ringbuf : RingBuf) (size : ℕ) : Bool :=
  if ringbuf.writePos < ringbuf.readPos then size < subU32 ringbuf.readPos ringbuf.writePos
  else size < addU32 (subU32 ringbuf.size ringbuf.writePos) ringbuf.readPos

def memcpyStores (dest : ℕ) (src : ℕ → UInt8) (n : ℕ) : List (ℕ × UInt8) :=
  (List.range n).map fun k => (dest + k, src k)

def memcpyLoads (src n : ℕ) : List ℕ := (List.range n).map fun k => src + k

/-- The reduction at the end of both ring operations. -/
def wrapPos (pos size : ℕ) : ℕ := if size ≤ pos then pos % size else pos

def ipcmsgRingbufRead (ring : RingBuf) (dataLen bufLen : ℕ) : List ℕ × RingBuf :=
  let toEnd := subU32 ring.size ring.readPos
  if ring.writePos < ring.readPos ∧ toEnd < bufLen then
    (if toEnd < dataLen then
      memcpyLoads ring.readPos toEnd ++ memcpyLoads 0 (addU32 (subU32 dataLen ring.size) ring.readPos)
    else memcpyLoads ring.readPos dataLen,
    { ring with
      readPos := wrapPos (alignIpcmsg (addU32 (subU32 bufLen ring.size) ring.readPos) ipcmsgAlign) ring.size })
  else
    (memcpyLoads ring.readPos dataLen,
    { ring with readPos := wrapPos (addU32 ring.readPos (alignIpcmsg bufLen ipcmsgAlign)) ring.size })

def ipcmsgRingbufWrite (ring : RingBuf) (src : ℕ → UInt8) (n : ℕ) : List (ℕ × UInt8) × RingBuf :=
  let toEnd := subU32 ring.size ring.writePos
  if ring.readPos ≤ ring.writePos ∧ toEnd < n then
    (memcpyStores ring.writePos src toEnd ++
      memcpyStores 0 (fun k => src (toEnd + k)) (addU32 (subU32 n ring.size) ring.writePos),
    { ring with
      writePos := wrapPos (alignIpcmsg (addU32 (subU32 n ring.size) ring.writePos) ipcmsgAlign) ring.size })
  else
    (memcpyStores ring.writePos src n,
    { ring with writePos := wrapPos (addU32 ring.writePos (alignIpcmsg n ipcmsgAlign)) ring.size })

/-- The cells that a message takes: header and payload, rounded up to cache lines. -/
def slotSize (len : ℕ) : ℕ := alignIpcmsg (addU32 len 4) cacheLine

/-- `IpcMsg_Write` on the copied positions: the stores, and the position to publish. -/
def ipcMsgWrite (ring : RingBuf) (m : IpcMsg) : Option (List (ℕ × UInt8) × RingBuf) :=
  let size := slotSize m.len
  if isRingbufChFreeSpace ring size then
    let (headStores, ring) := ipcmsgRingbufWrite ring m.head 4
    let (bodyStores, ring) := ipcmsgRingbufWrite ring m.buf (subU32 size 4)
    some (headStores ++ bodyStores, ring)
  else none

/-- The header that `IpcMsg_Read` loads first. -/
def ipcMsgReadHead (ring : RingBuf) : List ℕ × RingBuf := ipcmsgRingbufRead ring 4 4

def ipcMsgReadBody (ring : RingBuf) (dataLen : ℕ) : List ℕ × RingBuf :=
  ipcmsgRingbufRead ring dataLen (subU32 (slotSize dataLen) 4)

/-- `data_len` and `data_flag` of a loaded header. -/
def decodeHead (bytes : List UInt8) : ℕ × ℕ :=
  match bytes with
  | [l₀, l₁, f₀, f₁] => (l₀.toNat + 256 * l₁.toNat, f₀.toNat + 256 * f₁.toNat)
  | _ => (0, 0)

/-- `IpcMsg_Resource_Tbl`: `block_cnt` blocks of a pointer and a header each. -/
inductive IpcMsgChID where
  | log | normal | dump | flash
  deriving DecidableEq

def blockCnt : IpcMsgChID → ℕ
  | .log => 96
  | .normal => 64
  | .dump => 4
  | .flash => 8

def getIpcmsgBufLen (chID : IpcMsgChID) : ℕ := blockCnt chID * (4 + 4)

theorem cacheLine_dvd_getIpcmsgBufLen (chID : IpcMsgChID) : cacheLine ∣ getIpcmsgBufLen chID := by
  cases chID <;> decide

theorem subU32_eq {a b : ℕ} (ha : a < 2 ^ 32) (h : b ≤ a) : subU32 a b = a - b := by
  simp only [subU32]
  omega

/-- A difference that wraps around is repaired by the addition that follows it. -/
theorem addU32_subU32 {a b c : ℕ} (hb : b < 2 ^ 32) (h : b ≤ a + c) (hlt : a + c - b < 2 ^ 32) :
    addU32 (subU32 a b) c = a + c - b := by
  simp only [addU32, subU32]
  omega

theorem alignIpcmsg_of_dvd {n : ℕ} (hn : n + 3 < 2 ^ 32) (h : 4 ∣ n) : alignIpcmsg n ipcmsgAlign = n := by
  simp only [alignIpcmsg, addU32, ipcmsgAlign]
  omega

theorem slotSize_eq {len : ℕ} (h : len < 2 ^ 16) : slotSize len = (len + 35) / 32 * 32 := by
  simp only [slotSize, alignIpcmsg, addU32, cacheLine]
  omega

theorem wrapPos_eq {pos size : ℕ} : wrapPos pos size = pos % size := by
  simp only [wrapPos]
  split_ifs with h
  · rfl
  · exact (Nat.mod_eq_of_lt (not_le.mp h)).symm

/-- The cells from position `p` on that hold the bytes of `src`. -/
def storesAt (size p n : ℕ) (src : ℕ → UInt8) : List (ℕ × UInt8) :=
  (List.range n).map fun k => ((p + k) % size, src k)

def loadsAt (size p n : ℕ) : List ℕ := (List.range n).map fun k => (p + k) % size

/-- What both ring operations need of the positions for `n` bytes from `pos` on. -/
structure Fits (size pos limit n : ℕ) : Prop where
  size_lt : size < 2 ^ 32
  pos_lt : pos < size
  size_dvd : 4 ∣ size
  pos_dvd : 4 ∣ pos
  n_dvd : 4 ∣ n
  n_le : n ≤ size
  fits : pos + n ≤ size ∨ limit ≤ pos

theorem memcpyStores_eq (size : ℕ) {p n : ℕ} {src : ℕ → UInt8} (h : p + n ≤ size) :
    memcpyStores p src n = storesAt size p n src := by
  refine List.map_congr_left fun k hk => ?_
  rw [List.mem_range] at hk
  rw [Nat.mod_eq_of_lt (by omega)]

theorem memcpyLoads_eq (size : ℕ) {p n : ℕ} (h : p + n ≤ size) : memcpyLoads p n = loadsAt size p n := by
  refine List.map_congr_left fun k hk => ?_
  rw [List.mem_range] at hk
  exact (Nat.mod_eq_of_lt (by omega)).symm

theorem storesAt_append (size p a b : ℕ) (src : ℕ → UInt8) :
    storesAt size p a src ++ storesAt size (p + a) b (fun k => src (a + k)) = storesAt size p (a + b) src := by
  simp [storesAt, List.range_add, Function.comp_def, Nat.add_assoc]

theorem loadsAt_append (size p a b : ℕ) :
    loadsAt size p a ++ loadsAt size (p + a) b = loadsAt size p (a + b) := by
  simp [loadsAt, List.range_add, Function.comp_def, Nat.add_assoc]

theorem storesAt_congr {size p n : ℕ} {src src' : ℕ → UInt8} (h : ∀ k < n, src k = src' k) :
    storesAt size p n src = storesAt size p n src' :=
  List.map_congr_left fun k hk => by rw [h k (List.mem_range.mp hk)]

theorem storesAt_take {size p a n : ℕ} (h : a ≤ n) (src : ℕ → UInt8) :
    (storesAt size p n src).take a = storesAt size p a src := by
  rw [storesAt, ← List.map_take, List.take_range, Nat.min_eq_left h, storesAt]

theorem storesAt_mod (size p n : ℕ) (src : ℕ → UInt8) : storesAt size (p % size) n src = storesAt size p n src := by
  simp [storesAt]

theorem loadsAt_mod (size p n : ℕ) : loadsAt size (p % size) n = loadsAt size p n := by
  simp [loadsAt]

/-- Both copies of a write that wraps, or its only copy, store the bytes in their cells. -/
theorem ipcmsgRingbufWrite_eq {ring : RingBuf} {n : ℕ} (src : ℕ → UInt8)
    (h : Fits ring.size ring.writePos ring.readPos n) :
    ipcmsgRingbufWrite ring src n =
      (storesAt ring.size ring.writePos n src, { ring with writePos := (ring.writePos + n) % ring.size }) := by
  obtain ⟨hsize, hpos, hsize4, hpos4, hn4, hn, hfits⟩ := h
  have htoEnd : subU32 ring.size ring.writePos = ring.size - ring.writePos := subU32_eq hsize hpos.le
  simp only [ipcmsgRingbufWrite, htoEnd, wrapPos_eq]
  split_ifs with hwrap
  · have hrest : addU32 (subU32 n ring.size) ring.writePos = n + ring.writePos - ring.size :=
      addU32_subU32 hsize (by omega) (by omega)
    have hmod : (n + ring.writePos - ring.size) % ring.size = (ring.writePos + n) % ring.size := by
      rw [Nat.add_comm, ← Nat.mod_eq_sub_mod (by omega)]
    rw [hrest, alignIpcmsg_of_dvd (by omega) (by omega), hmod]
    have hfirst : memcpyStores ring.writePos src (ring.size - ring.writePos) =
        storesAt ring.size ring.writePos (ring.size - ring.writePos) src := memcpyStores_eq _ (by omega)
    have hsecond : memcpyStores 0 (fun k => src (ring.size - ring.writePos + k)) (n + ring.writePos - ring.size) =
        storesAt ring.size 0 _ _ := memcpyStores_eq _ (by omega)
    have hboth := storesAt_append ring.size ring.writePos (ring.size - ring.writePos)
      (n + ring.writePos - ring.size) src
    rw [show ring.writePos + (ring.size - ring.writePos) = ring.size by omega,
      show ring.size - ring.writePos + (n + ring.writePos - ring.size) = n by omega] at hboth
    rw [hfirst, hsecond, ← hboth, ← storesAt_mod ring.size ring.size, Nat.mod_self]
  · rw [memcpyStores_eq ring.size (by omega), alignIpcmsg_of_dvd (by omega) hn4, addU32,
      Nat.mod_eq_of_lt (a := ring.writePos + n) (by omega)]

theorem ipcmsgRingbufRead_eq {ring : RingBuf} {dataLen bufLen : ℕ} (hlen : dataLen ≤ bufLen)
    (h : Fits ring.size ring.readPos (ring.writePos + 1) bufLen) :
    ipcmsgRingbufRead ring dataLen bufLen =
      (loadsAt ring.size ring.readPos dataLen, { ring with readPos := (ring.readPos + bufLen) % ring.size }) := by
  obtain ⟨hsize, hpos, hsize4, hpos4, hn4, hn, hfits⟩ := h
  have htoEnd : subU32 ring.size ring.readPos = ring.size - ring.readPos := subU32_eq hsize hpos.le
  simp only [ipcmsgRingbufRead, htoEnd, wrapPos_eq]
  cases Decidable.em (ring.writePos < ring.readPos ∧ ring.size - ring.readPos < bufLen) with
  | inl hwrap =>
    have hrest : addU32 (subU32 bufLen ring.size) ring.readPos = bufLen + ring.readPos - ring.size :=
      addU32_subU32 hsize (by omega) (by omega)
    have hmod : (bufLen + ring.readPos - ring.size) % ring.size = (ring.readPos + bufLen) % ring.size := by
      rw [Nat.add_comm, ← Nat.mod_eq_sub_mod (by omega)]
    rw [if_pos hwrap, hrest, alignIpcmsg_of_dvd (by omega) (by omega), hmod]
    split_ifs with hsplit
    · have hdata : addU32 (subU32 dataLen ring.size) ring.readPos = dataLen + ring.readPos - ring.size :=
        addU32_subU32 hsize (by omega) (by omega)
      have hfirst : memcpyLoads ring.readPos (ring.size - ring.readPos) =
          loadsAt ring.size ring.readPos (ring.size - ring.readPos) := memcpyLoads_eq _ (by omega)
      have hsecond : memcpyLoads 0 (dataLen + ring.readPos - ring.size) = loadsAt ring.size 0 _ :=
        memcpyLoads_eq _ (by omega)
      have hboth := loadsAt_append ring.size ring.readPos (ring.size - ring.readPos)
        (dataLen + ring.readPos - ring.size)
      rw [show ring.readPos + (ring.size - ring.readPos) = ring.size by omega,
        show ring.size - ring.readPos + (dataLen + ring.readPos - ring.size) = dataLen by omega] at hboth
      rw [hdata, hfirst, hsecond, ← hboth, ← loadsAt_mod ring.size ring.size, Nat.mod_self]
    · rw [memcpyLoads_eq ring.size (by omega)]
  | inr hwhole =>
    rw [if_neg hwhole, memcpyLoads_eq ring.size (by omega), alignIpcmsg_of_dvd (by omega) hn4, addU32,
      Nat.mod_eq_of_lt (a := ring.readPos + bufLen) (by omega)]

/-- All the bytes of a slot: the header, then the payload and what lies behind it. -/
def IpcMsg.slot (m : IpcMsg) (k : ℕ) : UInt8 := if k < 4 then m.head k else m.buf (k - 4)

def IpcMsg.slotSize (m : IpcMsg) : ℕ := (m.len + 35) / 32 * 32

/-- Positions as they are between two calls, on lines of the cache. -/
structure Aligned (ring : RingBuf) : Prop where
  size_lt : ring.size < 2 ^ 32
  size_dvd : 32 ∣ ring.size
  writePos_lt : ring.writePos < ring.size
  writePos_dvd : 32 ∣ ring.writePos
  readPos_lt : ring.readPos < ring.size
  readPos_dvd : 32 ∣ ring.readPos

def freeSpace (ring : RingBuf) : ℕ :=
  if ring.writePos < ring.readPos then ring.readPos - ring.writePos
  else ring.size - ring.writePos + ring.readPos

theorem isRingbufChFreeSpace_eq {ring : RingBuf} (h : Aligned ring) (size : ℕ) :
    isRingbufChFreeSpace ring size = decide (size < freeSpace ring) := by
  obtain ⟨hsize, -, hw, -, hr, -⟩ := h
  simp only [isRingbufChFreeSpace, freeSpace]
  split_ifs with hlt
  · rw [subU32_eq (by omega) hlt.le]
  · rw [subU32_eq hsize hw.le, addU32, Nat.mod_eq_of_lt (by omega)]

/-- A message is taken exactly if its slot is smaller than the free space, and then the
slot is stored from the write position on. -/
theorem ipcMsgWrite_eq {ring : RingBuf} (h : Aligned ring) (m : IpcMsg) :
    ipcMsgWrite ring m =
      if m.slotSize < freeSpace ring then
        some (storesAt ring.size ring.writePos m.slotSize m.slot,
          { ring with writePos := (ring.writePos + m.slotSize) % ring.size })
      else none := by
  have hslot : IpcRingBuffer.slotSize m.len = m.slotSize := slotSize_eq m.len_lt
  have hpos := m.len_pos
  have hlt := m.len_lt
  simp only [ipcMsgWrite, isRingbufChFreeSpace_eq h, hslot, decide_eq_true_eq]
  split_ifs with hfree
  · obtain ⟨hsize, hsize32, hw, hw32, hr, hr32⟩ := h
    have hslotlen : m.slotSize = (m.len + 35) / 32 * 32 := rfl
    have hwhole : ring.writePos + 4 < ring.size := by omega
    have hroom : m.slotSize < ring.size ∧
        (ring.writePos + m.slotSize ≤ ring.size ∨ ring.readPos ≤ ring.writePos) := by
      simp only [freeSpace] at hfree
      split_ifs at hfree <;> omega
    have hhead : ipcmsgRingbufWrite ring m.head 4 = (storesAt ring.size ring.writePos 4 m.head, _) :=
      ipcmsgRingbufWrite_eq m.head ⟨hsize, hw, by omega, by omega, by decide, by omega, .inl hwhole.le⟩
    have hfits : Fits ring.size (ring.writePos + 4) ring.readPos (m.slotSize - 4) :=
      ⟨hsize, hwhole, by omega, by omega, by omega, by omega, by omega⟩
    have hbody : ipcmsgRingbufWrite { ring with writePos := ring.writePos + 4 } m.buf (m.slotSize - 4) =
        (storesAt ring.size (ring.writePos + 4) (m.slotSize - 4) m.buf, _) :=
      ipcmsgRingbufWrite_eq m.buf hfits
    have hbytes := storesAt_append ring.size ring.writePos 4 (m.slotSize - 4) m.slot
    rw [show 4 + (m.slotSize - 4) = m.slotSize by omega] at hbytes
    rw [hhead, Nat.mod_eq_of_lt hwhole, subU32_eq (by omega) (by omega)]
    simp only
    rw [hbody, ← hbytes, show ring.writePos + 4 + (m.slotSize - 4) = ring.writePos + m.slotSize by omega]
    have hslotHead : storesAt ring.size ring.writePos 4 m.slot = storesAt ring.size ring.writePos 4 m.head :=
      storesAt_congr fun k hk => if_pos hk
    have hslotBody : (fun k => m.slot (4 + k)) = m.buf := by
      funext k
      simp [IpcMsg.slot]
    rw [hslotHead, hslotBody]
  · rfl

theorem decodeHead_head (m : IpcMsg) : decodeHead ((List.range 4).map m.head) = (m.len, m.flag) := by
  have hlen := m.len_lt
  have hflag := m.flag_lt
  have hrange : (List.range 4).map m.head = [m.head 0, m.head 1, m.head 2, m.head 3] := rfl
  simp only [hrange, decodeHead, IpcMsg.head, UInt8.toNat_ofNat']
  refine Prod.ext ?_ ?_ <;> simp only <;> omega

/-- The positions that a reader copied, with the oldest message still unread. -/
structure Readable (ring : RingBuf) (slotSize : ℕ) : Prop extends Aligned ring where
  slot_le : slotSize < ring.size
  unread : ring.readPos + slotSize ≤ ring.size ∨ ring.writePos < ring.readPos

/-- The header lies in four adjacent cells. -/
theorem ipcMsgReadHead_eq {ring : RingBuf} (h : Aligned ring) :
    ipcMsgReadHead ring = (loadsAt ring.size ring.readPos 4, { ring with readPos := ring.readPos + 4 }) := by
  obtain ⟨hsize, hsize32, hw, hw32, hr, hr32⟩ := h
  have hwhole : ring.readPos + 4 < ring.size := by omega
  rw [ipcMsgReadHead, ipcmsgRingbufRead_eq (le_refl 4)
    ⟨hsize, hr, by omega, by omega, by decide, by omega, .inl hwhole.le⟩, Nat.mod_eq_of_lt hwhole]

theorem ipcMsgReadBody_eq {ring : RingBuf} {m : IpcMsg} (h : Readable ring m.slotSize) :
    ipcMsgReadBody { ring with readPos := ring.readPos + 4 } m.len =
      (loadsAt ring.size (ring.readPos + 4) m.len,
        { ring with readPos := (ring.readPos + m.slotSize) % ring.size }) := by
  obtain ⟨⟨hsize, hsize32, hw, hw32, hr, hr32⟩, hle, hunread⟩ := h
  have hslotlen : m.slotSize = (m.len + 35) / 32 * 32 := rfl
  have hslot : IpcRingBuffer.slotSize m.len = m.slotSize := slotSize_eq m.len_lt
  have hlt := m.len_lt
  have hfits : Fits ring.size (ring.readPos + 4) (ring.writePos + 1) (m.slotSize - 4) :=
    ⟨hsize, by omega, by omega, by omega, by omega, by omega, by omega⟩
  rw [ipcMsgReadBody, hslot, subU32_eq (by omega) (by omega),
    ipcmsgRingbufRead_eq (show m.len ≤ m.slotSize - 4 by omega) hfits]
  simp only
  rw [show ring.readPos + 4 + (m.slotSize - 4) = ring.readPos + m.slotSize by omega]

end NbiotXY1100.IpcRingBuffer
