import NbiotXY1100.FlashOverwrite
import NbiotXY1100.ByteBuffers

/-! # The flash interface

The calls check the address, give up on low supply voltage and take the local path or the
path through the other core. What a call does to the flash is a list of sector erases and
programming requests. Each list is what the adaptation layer carries out. -/
namespace NbiotXY1100.XyFlash
open FlashMemory FlashAdapt FlashOverwrite

def flashBase : UInt32 := 0x27000000

def flashLength : UInt32 := 0x200000

def xyOk : Int := 0

def xyErr : Int := -1

def xyErrNotAllowed : Int := -6

def xyErrLowVbat : Int := -7

/-- Whether the DSP is at work, so that it writes the flash, and whether the supply
voltage is low. -/
structure FlashEnv where
  viaDsp : Bool
  lowVbat : Bool

inductive FlashOp
  | erase (addr : UInt32)
  | program (addr : UInt32) (bytes : List UInt8)
  deriving DecidableEq

def FlashOp.apply : FlashOp → Memory → Memory
  | .erase addr, m => eraseSector m addr
  | .program addr bytes, m => FlashMemory.program m addr bytes

def applyAll (ops : List FlashOp) (m : Memory) : Memory :=
  ops.foldl (fun m op => op.apply m) m

@[simp] theorem applyAll_nil (m : Memory) : applyAll [] m = m := rfl

@[simp] theorem applyAll_cons (op : FlashOp) (ops : List FlashOp) (m : Memory) :
    applyAll (op :: ops) m = applyAll ops (op.apply m) := rfl

theorem applyAll_append (ops ops' : List FlashOp) (m : Memory) :
    applyAll (ops ++ ops') m = applyAll ops' (applyAll ops m) :=
  List.foldl_append

def inFlash (addr : UInt32) : Bool := flashBase ≤ addr && addr ≤ flashBase + flashLength

/-- The sectors that the local erase takes in turn. -/
def localErase (addr size : UInt32) : Option (List FlashOp) :=
  if addr % 4096 = 0 then
    let size := (size + 4096 - 1) &&& 0xfffff000
    some ((List.range (size.toInt32.toInt.tdiv 4096).toNat).map fun page =>
      .erase (addr + UInt32.ofNat page * 4096))
  else none

/-- The requests of an erase through the other core. -/
def dspErase (addr : UInt32) (size : Int) : List FlashOp :=
  if _ : 0 < size then
    let writeSize := pieceSize addr size.toNat
    .erase (addr &&& 0xfffff000) :: dspErase (addr + UInt32.ofNat writeSize) (size - writeSize)
  else []
termination_by size.toNat
decreasing_by
  have := @pieceSize_pos addr size.toNat (by omega)
  have := pieceSize_le addr size.toNat
  omega

def dspProgram (addr : UInt32) (bytes : List UInt8) : List FlashOp :=
  if _ : 0 < bytes.length then
    let writeSize := pieceSize addr bytes.length
    .program addr (bytes.take writeSize) :: dspProgram (addr + UInt32.ofNat writeSize) (bytes.drop writeSize)
  else []
termination_by bytes.length
decreasing_by
  have := pieceSize_pos addr ‹0 < bytes.length›
  rw [List.length_drop]
  omega

def xyFlashRead (addr : UInt32) (size : Nat) (m : Memory) : Option (List UInt8) :=
  if inFlash addr then some (read m addr size) else none

def xyFlashWrite (env : FlashEnv) (addr : UInt32) (bytes : List UInt8) (m : Memory) : Option (Int × Memory) :=
  if inFlash addr then
    if env.lowVbat then some (xyErrLowVbat, m) else some (xyOk, write m addr bytes)
  else none

def xyFlashWriteNoErase (env : FlashEnv) (addr : UInt32) (bytes : List UInt8) : Option (Int × List FlashOp) :=
  if inFlash addr then
    if env.lowVbat then some (xyErrLowVbat, [])
    else some (xyOk, if env.viaDsp then dspProgram addr bytes else [.program addr bytes])
  else none

def xyFlashErase (env : FlashEnv) (addr size : UInt32) : Option (Int × List FlashOp) :=
  let size := if size < 4096 then 4096 else size
  if env.lowVbat then some (xyErrLowVbat, [])
  else if env.viaDsp then some (xyOk, dspErase addr size.toInt32.toInt)
  else (localErase addr size).map fun ops => (xyOk, ops)

theorem eraseLoop_eq (addr : UInt32) (n : Nat) (m : Memory) :
    eraseLoop addr n m =
      applyAll ((List.range n).map fun page => .erase (addr + UInt32.ofNat page * 4096)) m := by
  induction n with
  | zero => rfl
  | succ n ih =>
    rw [List.range_succ, List.map_append, applyAll_append, ← ih]
    rfl

/-- The local erase of the adaptation layer carries out its list. -/
theorem flashErase_eq (addr size : UInt32) (s : Memories) :
    flashErase addr size s = (localErase addr size).map fun ops => { s with flash := applyAll ops s.flash } := by
  unfold flashErase localErase
  split
  · simp only [Option.map_some, eraseLoop_eq]
  · rfl

theorem flashOperateExt_erase (blockBuf addr data : UInt32) (size : Nat) (s : Memories) :
    (flashOperateExt .erase blockBuf addr data size s).flash = applyAll (dspErase addr size) s.flash := by
  induction size using Nat.strong_induction_on generalizing addr data s with
  | _ size ih =>
    rw [flashOperateExt, dspErase]
    split
    next hpos =>
      have hstep := pieceSize_pos addr (Int.natCast_pos.mp hpos)
      have hle := pieceSize_le addr size
      have hcast : (size : Int) - (pieceSize addr size : Nat) = ((size - pieceSize addr size : Nat) : Int) := by
        omega
      dsimp only
      rw [Int.toNat_natCast, hcast, ih _ (by omega), applyAll_cons]
      rfl
    next => rfl

theorem flashOperateExt_program (blockBuf addr data : UInt32) (size : Nat) (s : Memories) (hsize : size < 2 ^ 32)
    (hbuf : Apart data size blockBuf eftlPageSize) :
    (flashOperateExt .writeNoErase blockBuf addr data size s).flash =
      applyAll (dspProgram addr (read s.ram data size)) s.flash := by
  induction size using Nat.strong_induction_on generalizing addr data s with
  | _ size ih =>
    rw [flashOperateExt, dspProgram]
    simp only [read_length, Int.natCast_pos]
    split
    next hpos =>
      have hstep := pieceSize_pos addr hpos
      have hle := pieceSize_le addr size
      have hfit := pieceSize_fits addr size
      have hcast : (size : Int) - (pieceSize addr size : Nat) = ((size - pieceSize addr size : Nat) : Int) := by
        omega
      have hsplit := read_append s.ram data (pieceSize addr size) (size - pieceSize addr size)
      rw [Nat.add_sub_cancel' hle] at hsplit
      have hcopy : read (write s.ram blockBuf (read s.ram data (pieceSize addr size))) blockBuf
          (read s.ram data (pieceSize addr size)).length = read s.ram data (pieceSize addr size) :=
        read_write (by rw [read_length]; omega)
      rw [read_length] at hcopy
      have hkept : ∀ x : UInt32, (x - data).toNat < size →
          write s.ram blockBuf (read s.ram data (pieceSize addr size)) x = s.ram x := by
        intro x hx
        have hout := hbuf x hx
        exact write_of_le (by rw [read_length]; omega)
      have hrest := read_rest hle hsize hkept
      rw [Int.toNat_natCast, hcast, ih _ (by omega) _ _ _ (by omega) (hbuf.advance hle hsize), applyAll_cons,
        hsplit, List.take_left' (read_length _ _ _), List.drop_left' (read_length _ _ _)]
      simp only [operatePage, sendWriteFlashMsg, memcpy, FlashOp.apply, page_add_offset]
      rw [hcopy, hrest]
    next => rfl

/-- Programming piece by piece and programming at once are the same. -/
theorem applyAll_dspProgram (addr : UInt32) (bytes : List UInt8) (m : Memory) (hlen : bytes.length < 2 ^ 32) :
    applyAll (dspProgram addr bytes) m = program m addr bytes := by
  induction h : bytes.length using Nat.strong_induction_on generalizing addr bytes m with
  | _ size ih =>
    rw [dspProgram]
    split
    next hpos =>
      have hstep := pieceSize_pos addr hpos
      have hle := pieceSize_le addr bytes.length
      have hwhole : bytes.take (pieceSize addr bytes.length) ++ bytes.drop (pieceSize addr bytes.length) =
        bytes := List.take_append_drop _ _
      have hfirst : (bytes.take (pieceSize addr bytes.length)).length = pieceSize addr bytes.length := by
        rw [List.length_take]
        omega
      have hrest : (bytes.drop (pieceSize addr bytes.length)).length = bytes.length - pieceSize addr bytes.length :=
        List.length_drop
      conv_rhs => rw [← hwhole, program_append (by omega), hfirst]
      rw [applyAll_cons]
      exact ih _ (by omega) _ _ _ (by omega) hrest
    next hempty =>
      have hnil : bytes = [] := List.eq_nil_of_length_eq_zero (by omega)
      subst hnil
      have hnone : program m addr [] = write m addr [] := program_erased fun x hx => absurd hx (Nat.not_lt_zero _)
      rw [applyAll_nil, hnone, write_nil]

/-- Both paths of a write do what the interface does to the flash. -/
theorem xyFlashWrite_paths (env : FlashEnv) (addr data : UInt32) (size : Nat) (s : Memories)
    (haddr : inFlash addr) (hvbat : env.lowVbat = false) (hsize : size < 2 ^ 31) :
    (∀ b, BuffersFree b addr data size → ∃ t, flashWriteErase b addr data size s = some t ∧
      xyFlashWrite env addr (read s.ram data size) s.flash = some (xyOk, t.flash)) ∧
    ∀ blockBuf, Apart data size blockBuf eftlPageSize →
      xyFlashWrite env addr (read s.ram data size) s.flash =
        some (xyOk, (flashOperateExt .writeErase blockBuf addr data size s).flash) := by
  constructor
  · intro b hfree
    obtain ⟨t, ht, hflash⟩ := flashWriteErase_spec addr data size s (by omega) hfree
    exact ⟨t, ht, by simp [xyFlashWrite, haddr, hvbat, hflash]⟩
  · intro blockBuf hbuf
    simp [xyFlashWrite, haddr, hvbat, flashOperateExt_spec blockBuf addr data size s (by omega) hbuf]

/-- Both paths of an erase carry out the list of the interface. -/
theorem xyFlashErase_paths {env : FlashEnv} {addr size : UInt32} {ops : List FlashOp}
    (h : xyFlashErase env addr size = some (xyOk, ops)) (hsize : size.toNat < 2 ^ 31) (s : Memories) :
    let size := if size < 4096 then 4096 else size
    (env.viaDsp = false → flashErase addr size s = some { s with flash := applyAll ops s.flash }) ∧
      (env.viaDsp = true → ∀ blockBuf data,
        (flashOperateExt .erase blockBuf addr data size.toInt32.toInt s).flash = applyAll ops s.flash) := by
  intro size'
  have hlt : size'.toNat < 2 ^ 31 := by
    change (if size < 4096 then (4096 : UInt32) else size).toNat < 2 ^ 31
    split
    · decide
    · exact hsize
  have hint : size'.toInt32.toInt = (size'.toNat : Int) := BitVec.toInt_eq_toNat_of_lt (by
    change 2 * size'.toNat < 2 ^ 32
    omega)
  unfold xyFlashErase at h
  cases hvbat : env.lowVbat with
  | true => simp [hvbat, xyOk, xyErrLowVbat] at h
  | false =>
    simp only [hvbat, Bool.false_eq_true, if_false] at h
    constructor
    · intro hlocal
      rw [hlocal, if_neg Bool.false_ne_true] at h
      obtain ⟨ops', hops, heq⟩ := Option.map_eq_some_iff.mp h
      obtain rfl := (Prod.mk.inj heq).2
      rw [flashErase_eq, hops, Option.map_some]
    · intro hdsp blockBuf data
      rw [hdsp, if_pos rfl] at h
      obtain rfl := (Prod.mk.inj (Option.some.inj h)).2
      rw [hint, flashOperateExt_erase, ← hint]

/-- Both paths of a programming without an erase carry out the list of the interface. -/
theorem xyFlashWriteNoErase_paths {env : FlashEnv} {addr data : UInt32} {size : Nat} {s : Memories} {ops : List FlashOp}
    (h : xyFlashWriteNoErase env addr (read s.ram data size) = some (xyOk, ops)) (hsize : size < 2 ^ 32) :
    (env.viaDsp = false → ∀ b, (flashWriteNoErase b addr data size s).flash = applyAll ops s.flash) ∧
      (env.viaDsp = true → ∀ blockBuf, Apart data size blockBuf eftlPageSize →
        (flashOperateExt .writeNoErase blockBuf addr data size s).flash = applyAll ops s.flash) := by
  unfold xyFlashWriteNoErase at h
  cases haddr : inFlash addr with
  | false => simp [haddr] at h
  | true =>
    cases hvbat : env.lowVbat with
    | true => simp [haddr, hvbat, xyOk, xyErrLowVbat] at h
    | false =>
      simp only [haddr, hvbat, if_true, Bool.false_eq_true, if_false] at h
      obtain rfl := (Prod.mk.inj (Option.some.inj h)).2
      constructor
      · intro hlocal b
        rw [hlocal, if_neg Bool.false_ne_true, flashWriteNoErase_flash b addr data (Nat.le_of_lt hsize)]
        rfl
      · intro hdsp blockBuf hbuf
        rw [hdsp, if_pos rfl, flashOperateExt_program blockBuf addr data size s hsize hbuf]

/-- One whole sector is erased alike on both paths. -/
theorem xyFlashErase_page {env : FlashEnv} {addr : UInt32} (haddr : addr.toNat % sectorLength = 0)
    (hvbat : env.lowVbat = false) : xyFlashErase env addr 4096 = some (xyOk, [.erase addr]) := by
  have hoffset : (addr &&& 0xfff) = 0 := by
    apply UInt32.toNat_inj.mp
    rw [toNat_and_fff]
    exact haddr
  have hpage : (addr &&& 0xfffff000) = addr := by
    have hsum := page_add_offset addr
    rw [hoffset, UInt32.add_zero] at hsum
    exact hsum
  have hdsp : dspErase addr 4096 = [.erase addr] := by
    have hpiece : pieceSize addr (4096 : Int).toNat = 4096 := by
      rw [pieceSize, hoffset]
      rfl
    rw [dspErase, dif_pos (by decide)]
    simp only [hpiece, hpage]
    rw [dspErase, dif_neg (by decide)]
  have hlocal : localErase addr 4096 = some [.erase addr] := by
    have hmod : addr % 4096 = 0 := by
      apply UInt32.toNat_inj.mp
      rw [UInt32.toNat_mod]
      exact haddr
    have hpages : (((4096 : UInt32) + 4096 - 1) &&& 0xfffff000).toInt32.toInt.tdiv 4096 = 1 := by decide
    rw [localErase, if_pos hmod]
    simp only [hpages]
    simp
  have hint : (4096 : UInt32).toInt32.toInt = 4096 := by decide
  simp only [xyFlashErase, hvbat, UInt32.lt_irrefl, if_false, Bool.false_eq_true, hint]
  rw [hdsp, hlocal]
  split <;> rfl

end NbiotXY1100.XyFlash
