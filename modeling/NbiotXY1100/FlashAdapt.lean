import NbiotXY1100.FlashMemory
import Mathlib.Algebra.Order.Group.Nat

/-! # The flash adaptation layer: the local path and the path through the other core

`flash_write_erase` runs on the core itself. `flash_operate_ext` cuts the range into page
requests that the DSP executes. Both read a page that is only partly covered into a page
buffer, change it there and write the page back. -/
namespace NbiotXY1100.FlashAdapt
open FlashMemory

def eftlPageSize : Nat := 4096

def cacheLine : UInt32 := 32

/-- Start of the RAM of the core, the buffer of a crash dump. -/
def m3SramBase : UInt32 := 0x2001D000

structure Memories where
  flash : Memory
  ram : Memory

/-- The buffers of a call: what `xy_malloc_Align` gives for the page buffer and for the
copy of unaligned data, and whether a crash dump runs, in which the heap is not used. -/
structure Buffers where
  startDump : Bool
  pageBuf : UInt32
  copyBuf : UInt32

def Buffers.page (b : Buffers) : UInt32 := if b.startDump then m3SramBase else b.pageBuf

def Buffers.copy (b : Buffers) : UInt32 := if b.startDump then m3SramBase else b.copyBuf

def isCacheAligned (a : UInt32) : Bool := (a &&& (cacheLine - 1)) == 0

def flashRead (addr data : UInt32) (size : Nat) (s : Memories) : Memories :=
  { s with ram := write s.ram data (read s.flash addr size) }

def memcpy (dst src : UInt32) (size : Nat) (s : Memories) : Memories :=
  { s with ram := write s.ram dst (read s.ram src size) }

def flashWriteNoErase (b : Buffers) (addr data : UInt32) (size : Nat) (s : Memories) : Memories :=
  if isCacheAligned data then
    { s with flash := program s.flash addr (read s.ram data size) }
  else
    let s := memcpy b.copy data size s
    { s with flash := program s.flash addr (read s.ram b.copy size) }

def eraseLoop (addr : UInt32) : Nat → Memory → Memory
  | 0, m => m
  | n + 1, m => eraseSector (eraseLoop addr n m) (addr + UInt32.ofNat n * 4096)

/-- The page count is computed in `int`, so a size of half the address space or more
erases nothing. A failed assertion stops the system. -/
def flashErase (addr size : UInt32) (s : Memories) : Option Memories :=
  if addr % 4096 = 0 then
    let size := (size + 4096 - 1) &&& 0xfffff000
    some { s with flash := eraseLoop addr (size.toInt32.toInt.tdiv 4096).toNat s.flash }
  else none

/-- One turn of the loop of `flash_write_erase`. -/
def writeErasePage (b : Buffers) (addr data : UInt32) (writeSize : Nat) (s : Memories) : Option Memories :=
  let offset := addr &&& 0xfff
  let actAddr := addr &&& 0xfffff000
  if writeSize = eftlPageSize then
    (flashErase actAddr 4096 s).map (flashWriteNoErase b actAddr data eftlPageSize)
  else
    let s := flashRead actAddr b.page eftlPageSize s
    if writeSize < 100 && read s.ram (b.page + offset) writeSize == read s.ram data writeSize then some s
    else
      let s := memcpy (b.page + offset) data writeSize s
      (flashErase actAddr 4096 s).map (flashWriteNoErase b actAddr b.page eftlPageSize)

def pieceSize (addr : UInt32) (size : Nat) : Nat :=
  if size ≤ eftlPageSize - (addr &&& 0xfff).toNat then size else eftlPageSize - (addr &&& 0xfff).toNat

theorem toNat_and_fff (a : UInt32) : (a &&& 0xfff).toNat = a.toNat % 4096 := by
  rw [UInt32.toNat_and]
  exact Nat.and_two_pow_sub_one_eq_mod a.toNat 12

theorem pieceSize_pos (addr : UInt32) {size : Nat} (h : 0 < size) : 0 < pieceSize addr size := by
  have := toNat_and_fff addr
  unfold pieceSize eftlPageSize
  split <;> omega

theorem pieceSize_le (addr : UInt32) (size : Nat) : pieceSize addr size ≤ size := by
  unfold pieceSize
  split <;> omega

def flashWriteErase (b : Buffers) (addr data : UInt32) (size : Nat) (s : Memories) : Option Memories :=
  if _ : 0 < size then
    let writeSize := pieceSize addr size
    (writeErasePage b addr data writeSize s).bind
      (flashWriteErase b (addr + UInt32.ofNat writeSize) (data + UInt32.ofNat writeSize) (size - writeSize))
  else some s
termination_by size
decreasing_by
  have := pieceSize_pos addr ‹0 < size›
  omega

inductive FlashOperation
  | erase | writeNoErase | writeErase
  deriving DecidableEq

/-- The DSP executes a request on the page or part of a page that it names. -/
def sendWriteFlashMsg (operation : FlashOperation) (ramAddr flashAddr : UInt32) (size : Nat) (s : Memories) :
    Memories :=
  match operation with
  | .erase => { s with flash := eraseSector s.flash flashAddr }
  | .writeNoErase => { s with flash := program s.flash flashAddr (read s.ram ramAddr size) }
  | .writeErase =>
    { s with flash := program (eraseSector s.flash flashAddr) flashAddr (read s.ram ramAddr size) }

/-- One turn of the loop of `flash_operate_ext`; `size` is what remains. -/
def operatePage (operation : FlashOperation) (blockBuf addr data : UInt32) (size writeSize : Nat)
    (s : Memories) : Memories :=
  let offset := addr &&& 0xfff
  let actAddr := addr &&& 0xfffff000
  match operation with
  | .writeErase =>
    if offset = 0 ∧ writeSize = eftlPageSize ∧ isCacheAligned data then
      sendWriteFlashMsg .writeErase data actAddr eftlPageSize s
    else
      let s := flashRead actAddr blockBuf eftlPageSize s
      if size < 100 && read s.ram (blockBuf + offset) writeSize == read s.ram data writeSize then s
      else
        sendWriteFlashMsg .writeErase blockBuf actAddr eftlPageSize
          (memcpy (blockBuf + offset) data writeSize s)
  | .writeNoErase =>
    sendWriteFlashMsg .writeNoErase blockBuf (actAddr + offset) writeSize (memcpy blockBuf data writeSize s)
  | .erase => sendWriteFlashMsg .erase 0 actAddr eftlPageSize s

/-- The size is an `int`: nothing is done for a size that is not positive. -/
def flashOperateExt (operation : FlashOperation) (blockBuf addr data : UInt32) (size : Int) (s : Memories) :
    Memories :=
  if _ : 0 < size then
    let writeSize := pieceSize addr size.toNat
    flashOperateExt operation blockBuf (addr + UInt32.ofNat writeSize) (data + UInt32.ofNat writeSize)
      (size - writeSize) (operatePage operation blockBuf addr data size.toNat writeSize s)
  else s
termination_by size.toNat
decreasing_by
  have := @pieceSize_pos addr size.toNat (by omega)
  have := pieceSize_le addr size.toNat
  omega

end NbiotXY1100.FlashAdapt
