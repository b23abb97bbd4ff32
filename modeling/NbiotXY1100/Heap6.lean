import Mathlib.Data.Nat.Notation
import Mathlib.Data.List.Basic
import Mathlib.Algebra.GroupWithZero.Nat

/-! # The heap `heap_6.c`

A block has a header of `xHeapStructSize` bytes at its address. The free list is kept in the order of
`pxNextBlock` from `xStart` to `pxEnd`, the used list in that order from `xHeapUsed`. -/
namespace NbiotXY1100.Heap6

/-- `BlockLink_t` with its address; `pxNextBlock` is the next element of the list. -/
structure Block where
  addr : ℕ
  xBlockSize : ℕ
  deriving DecidableEq, Repr

/-- The address behind a free block. -/
def Block.limit (b : Block) : ℕ := b.addr + b.xBlockSize

structure Heap where
  freeList : List Block
  pxEnd : ℕ
  usedList : List Block
  xFreeBytesRemaining : ℕ
  xMinimumEverFreeBytesRemaining : ℕ
  xNumberOfSuccessfulAllocations : ℕ
  xNumberOfSuccessfulFrees : ℕ
  deriving DecidableEq, Repr

def portByteAlignment : ℕ := 4

/-- `sizeof(BlockLink_t)` is 16 with `configUSE_HEAP_MALLOC_DEBUG`. -/
def xHeapStructSize : ℕ := 16

def heapMinimumBlockSize : ℕ := 2 * xHeapStructSize

inductive EHeapAlign where
  | align1
  | align2
  | align4
  | align8
  | align16
  | align32
  | align64
  | align128
  deriving DecidableEq, Repr

def EHeapAlign.size : EHeapAlign → ℕ
  | .align1 => 1
  | .align2 => 2
  | .align4 => 4
  | .align8 => 8
  | .align16 => 16
  | .align32 => 32
  | .align64 => 64
  | .align128 => 128

/-! ### The packed word

`xActualBlockSize` has 24 bits, `xAlignWastedSize` 7 and `xUsedFlag` 1. -/

def getActualBlockSize (word : ℕ) : ℕ := word % 2 ^ 24
def getAlignWastedSize (word : ℕ) : ℕ := word / 2 ^ 24 % 2 ^ 7

def setActualBlockSize (word xSize : ℕ) : ℕ := word / 2 ^ 24 * 2 ^ 24 + xSize % 2 ^ 24
def setAlignWastedSize (word xSize : ℕ) : ℕ := word / 2 ^ 31 * 2 ^ 31 + xSize % 2 ^ 7 * 2 ^ 24 + word % 2 ^ 24

/-- `|= xBlockAllocatedBit`. -/
def setUsedFlag (word : ℕ) : ℕ := word % 2 ^ 31 + 2 ^ 31

/-- `&= ~xBlockAllocatedBit`. -/
def clearUsedFlag (word : ℕ) : ℕ := word % 2 ^ 31

/-! ### The free list -/

/-- The block and the one before it become one when they touch. `xStart`, for which there is none, touches
no block. -/
def mergePrevious (iterator : Option Block) (b : Block) : List Block × Block :=
  match iterator with
  | none => ([], b)
  | some it => if it.limit = b.addr then ([], { it with xBlockSize := it.xBlockSize + b.xBlockSize }) else ([it], b)

def mergeNext (pxEnd : ℕ) (b next : Block) (rest : List Block) : List Block :=
  if b.limit = next.addr ∧ next.addr ≠ pxEnd then { b with xBlockSize := b.xBlockSize + next.xBlockSize } :: rest
  else b :: next :: rest

/-- The list from the iterator on. The loop ends because `pxEnd` is above each block. -/
def insertAfter (pxEnd : ℕ) (b : Block) (iterator : Option Block) : List Block → List Block
  | [] => iterator.toList ++ [b]
  | next :: rest =>
    if next.addr < b.addr then iterator.toList ++ insertAfter pxEnd b (some next) rest
    else
      let (before, b) := mergePrevious iterator b
      before ++ mergeNext pxEnd b next rest

def prvInsertBlockIntoFreeList (pxEnd : ℕ) (b : Block) (freeList : List Block) : List Block :=
  insertAfter pxEnd b none freeList

/-- The first block that is large enough or else the last one, with the blocks before and after it. -/
def findBlock (xWantedSizeAlign : ℕ) : List Block → Option (List Block × Block × List Block)
  | [] => none
  | [last] => some ([], last, [])
  | b :: next :: rest =>
    if b.xBlockSize < xWantedSizeAlign then
      (findBlock xWantedSizeAlign (next :: rest)).map fun (before, found, after) => (b :: before, found, after)
    else some ([], b, next :: rest)

/-! ### The used list -/

def prvInsertBlockIntoUsedList (b : Block) : List Block → List Block
  | [] => [b]
  | next :: rest => if next.addr < b.addr then next :: prvInsertBlockIntoUsedList b rest else b :: next :: rest

def prvRemoveBlockFromUsedList (addr : ℕ) (usedList : List Block) : List Block := usedList.eraseP (·.addr = addr)

/-! ### Allocation -/

/-- The size with the header, and with room for the alignment. -/
def wantedSizes (xWantedSize uxAlignmentSize : ℕ) : ℕ × ℕ :=
  if xWantedSize > 0 then
    let excess := xWantedSize &&& (uxAlignmentSize - 1)
    let size := if excess ≠ 0 then xWantedSize + (uxAlignmentSize - excess) else xWantedSize
    (size + xHeapStructSize, size + xHeapStructSize + uxAlignmentSize)
  else (xWantedSize, 0)

/-- The header, with its packed word, that a block gets when its address is aligned. The bytes skipped are
returned to the free list or counted as waste. `stale` is the word that was at the new header. -/
structure Placed where
  freeList : List Block
  block : Block
  xActualBlockSize : ℕ
  uxAlignWasted : ℕ

def alignBlock (pxEnd uxAlignmentSize stale : ℕ) (block : Block) (freeList : List Block) : Placed :=
  let uxAlignAddr := block.addr + xHeapStructSize
  let excess := uxAlignAddr &&& (uxAlignmentSize - 1)
  if excess ≠ 0 then
    let uxAlignWasted := uxAlignmentSize - excess
    let addr := block.addr + uxAlignWasted
    let xActualBlockSize := getActualBlockSize block.xBlockSize - uxAlignWasted
    if uxAlignWasted > heapMinimumBlockSize then
      ⟨prvInsertBlockIntoFreeList pxEnd ⟨block.addr, uxAlignWasted⟩ freeList,
        ⟨addr, setAlignWastedSize (setActualBlockSize stale xActualBlockSize) 0⟩, xActualBlockSize, 0⟩
    else
      ⟨freeList, ⟨addr, setAlignWastedSize (setActualBlockSize stale xActualBlockSize) uxAlignWasted⟩,
        xActualBlockSize, uxAlignWasted⟩
  else ⟨freeList, ⟨block.addr, setAlignWastedSize block.xBlockSize 0⟩, getActualBlockSize block.xBlockSize, 0⟩

/-- What is more than wanted is returned to the free list. -/
def splitBlock (pxEnd xWantedSize : ℕ) (p : Placed) : Placed :=
  if p.xActualBlockSize - xWantedSize > heapMinimumBlockSize then
    { p with
      freeList := prvInsertBlockIntoFreeList pxEnd
        ⟨p.block.addr + xWantedSize, p.xActualBlockSize - xWantedSize⟩ p.freeList
      block := ⟨p.block.addr, setActualBlockSize p.block.xBlockSize xWantedSize⟩
      xActualBlockSize := xWantedSize }
  else p

/-- A size whose top 8 bits are not clear is refused. -/
def pvPortMallocWithAlign (xWantedSize : UInt32) (eAlignment : EHeapAlign) (stale : UInt32) (h : Heap) : Option ℕ × Heap :=
  if xWantedSize &&& 0xFF000000 ≠ 0 then (none, h)
  else
    let (xWantedSize, xWantedSizeAlign) := wantedSizes xWantedSize.toNat eAlignment.size
    if 0 < xWantedSizeAlign ∧ xWantedSizeAlign ≤ h.xFreeBytesRemaining then
      match findBlock xWantedSizeAlign h.freeList with
      | none => (none, h)
      | some (before, block, after) =>
        if block.addr = h.pxEnd then (none, h)
        else
          let p := splitBlock h.pxEnd xWantedSize (alignBlock h.pxEnd eAlignment.size stale.toNat block (before ++ after))
          let xFreeBytesRemaining := h.xFreeBytesRemaining - (p.xActualBlockSize + p.uxAlignWasted)
          (some (p.block.addr + xHeapStructSize),
            { h with
              freeList := p.freeList
              usedList := prvInsertBlockIntoUsedList ⟨p.block.addr, setUsedFlag p.block.xBlockSize⟩ h.usedList
              xFreeBytesRemaining := xFreeBytesRemaining
              xMinimumEverFreeBytesRemaining := min xFreeBytesRemaining h.xMinimumEverFreeBytesRemaining
              xNumberOfSuccessfulAllocations := h.xNumberOfSuccessfulAllocations + 1 })
    else (none, h)

/-- The block whose memory the application got as `pv`. -/
def findUsed (pv : ℕ) (h : Heap) : Option Block := h.usedList.find? fun b => b.addr + xHeapStructSize = pv

/-- The block that goes back to the free list, with the bytes that were skipped before it. -/
def freedBlock (pxLink : Block) : Block :=
  let word := clearUsedFlag pxLink.xBlockSize
  if getAlignWastedSize word ≠ 0 then
    ⟨pxLink.addr - getAlignWastedSize word, getActualBlockSize word + getAlignWastedSize word⟩
  else ⟨pxLink.addr, word⟩

/-- Nothing is said about a pointer that is not live. -/
def vPortFree (pv : ℕ) (h : Heap) : Option Heap :=
  if pv = 0 then some h
  else
    (findUsed pv h).map fun pxLink =>
      { h with
        freeList := prvInsertBlockIntoFreeList h.pxEnd (freedBlock pxLink) h.freeList
        usedList := prvRemoveBlockFromUsedList pxLink.addr h.usedList
        xFreeBytesRemaining := h.xFreeBytesRemaining + (freedBlock pxLink).xBlockSize
        xNumberOfSuccessfulFrees := h.xNumberOfSuccessfulFrees + 1 }

/-- The bytes that are copied are not part of the model. -/
def pvPortReallocWithAlign (pvBlock : ℕ) (size : UInt32) (eAlignment : EHeapAlign) (stale : UInt32) (h : Heap) :
    Option (Option ℕ × Heap) :=
  if pvBlock = 0 then some (pvPortMallocWithAlign size eAlignment stale h)
  else if size = 0 then (vPortFree pvBlock h).map fun h => (none, h)
  else if (findUsed pvBlock h).isNone then none
  else
    match pvPortMallocWithAlign size eAlignment stale h with
    | (none, h) => some (none, h)
    | (some pvReturn, h) => (vPortFree pvBlock h).map fun h => (some pvReturn, h)

/-! ### The regions -/

structure HeapRegion where
  pucStartAddress : ℕ
  xSizeInBytes : ℕ
  deriving DecidableEq, Repr

/-- Subtraction of `size_t`. -/
def sub32 (a b : ℕ) : ℕ := (a + 2 ^ 32 - b % 2 ^ 32) % 2 ^ 32

/-- `& ~portBYTE_ALIGNMENT_MASK`. -/
def alignDown (a : ℕ) : ℕ := a - a % portByteAlignment

/-- The aligned start. -/
def HeapRegion.start (r : HeapRegion) : ℕ :=
  if r.pucStartAddress % portByteAlignment ≠ 0 then alignDown ((r.pucStartAddress + (portByteAlignment - 1)) % 2 ^ 32)
  else r.pucStartAddress

/-- The address of the end marker. -/
def HeapRegion.fin (r : HeapRegion) : ℕ :=
  let xTotalRegionSize := sub32 r.xSizeInBytes (sub32 r.start r.pucStartAddress)
  alignDown (sub32 (r.start + xTotalRegionSize) xHeapStructSize)

/-- The free block and the end marker of each region, the last end marker, and the sum of the sizes.
The list of regions stops at a size of 0. -/
def defineRegions : List HeapRegion → Option ℕ → Option (List Block × Option ℕ × ℕ)
  | [], pxEnd => some ([], pxEnd, 0)
  | r :: regions, pxEnd =>
    if r.xSizeInBytes = 0 then some ([], pxEnd, 0)
    else if ∀ e ∈ pxEnd, r.start > e then
      (defineRegions regions (some r.fin)).map fun (list, pxEnd, xTotalHeapSize) =>
        (⟨r.start, sub32 r.fin r.start⟩ :: ⟨r.fin, 0⟩ :: list, pxEnd, (sub32 r.fin r.start + xTotalHeapSize) % 2 ^ 32)
    else none

/-- `none` is a failed `configASSERT`. -/
def vPortDefineHeapRegions (regions : List HeapRegion) : Option Heap :=
  match defineRegions regions none with
  | some (list, some pxEnd, xTotalHeapSize) =>
    if xTotalHeapSize ≠ 0 then some ⟨list, pxEnd, [], xTotalHeapSize, xTotalHeapSize, 0, 0⟩ else none
  | _ => none

end NbiotXY1100.Heap6
