import NbiotXY1100.FlashAdapt

/-! # Both flash write paths overwrite a byte range

Each turn of either loop replaces the bytes of one page that belong to the range and
keeps the others, and the data still to be written stays untouched in RAM. By induction
on the remaining size both paths end with the old flash in which exactly the range is
replaced. -/
namespace NbiotXY1100.FlashOverwrite
open FlashMemory FlashAdapt

/-- The flash holds the data in the range and the old content everywhere else. -/
def Overwritten (flash ram flash' : Memory) (addr data : UInt32) (size : Nat) : Prop :=
  ∀ x : UInt32, flash' x = if (x - addr).toNat < size then ram (data + (x - addr)) else flash x

theorem overwritten_write (flash ram : Memory) (addr data : UInt32) (size : Nat) :
    Overwritten flash ram (write flash addr (read ram data size)) addr data size := by
  intro x
  split
  next hx => rw [write, read_getD hx, UInt32.ofNat_toNat]
  next hx => exact write_of_le (by rw [read_length]; omega)

theorem toNat_and_page (a : UInt32) : (a &&& 0xfffff000).toNat = a.toNat - a.toNat % 4096 := by
  have hlt : a.toNat < 2 ^ 32 := a.toNat_lt
  have hmul : a.toNat - a.toNat % 4096 = 2 ^ 12 * (a.toNat / 2 ^ 12) := by omega
  have hmask : (4294963200 : UInt32).toNat = 2 ^ 12 * (2 ^ 20 - 1) := rfl
  rw [UInt32.toNat_and, hmask, hmul]
  apply Nat.eq_of_testBit_eq
  intro i
  rw [Nat.testBit_and, Nat.testBit_two_pow_mul, Nat.testBit_two_pow_mul, Nat.testBit_div_two_pow,
    Nat.testBit_two_pow_sub_one]
  by_cases hi : 12 ≤ i
  · have hback : i - 12 + 12 = i := by omega
    by_cases hj : i - 12 < 20
    · simp [hi, hj, hback]
    · have hzero : a.toNat.testBit i = false :=
        Nat.testBit_lt_two_pow (Nat.lt_of_lt_of_le hlt (Nat.pow_le_pow_right (by omega) (by omega)))
      simp [hi, hj, hback, hzero]
  · simp [hi]

theorem page_add_offset (a : UInt32) : (a &&& 0xfffff000) + (a &&& 0xfff) = a := by
  apply UInt32.toNat_inj.mp
  have hlt := a.toNat_lt
  rw [UInt32.toNat_add, toNat_and_page, toNat_and_fff]
  omega

theorem page_aligned (a : UInt32) : (a &&& 0xfffff000).toNat % sectorLength = 0 := by
  rw [toNat_and_page]
  unfold sectorLength
  omega

theorem pieceSize_fits (addr : UInt32) (size : Nat) :
    (addr &&& 0xfff).toNat + pieceSize addr size ≤ eftlPageSize := by
  have := toNat_and_fff addr
  unfold pieceSize eftlPageSize
  split <;> omega

/-- The range is cut at the page end. -/
theorem pieceSize_eq_page {addr : UInt32} {size : Nat} (h : pieceSize addr size = eftlPageSize) :
    addr &&& 0xfff = 0 := by
  have hfit := pieceSize_fits addr size
  apply UInt32.toNat_inj.mp
  rw [UInt32.toNat_zero]
  omega

@[simp] theorem flashRead_ram (addr data : UInt32) (size : Nat) (s : Memories) :
    (flashRead addr data size s).ram = write s.ram data (read s.flash addr size) := rfl

@[simp] theorem flashRead_flash (addr data : UInt32) (size : Nat) (s : Memories) :
    (flashRead addr data size s).flash = s.flash := rfl

@[simp] theorem memcpy_ram (dst src : UInt32) (size : Nat) (s : Memories) :
    (memcpy dst src size s).ram = write s.ram dst (read s.ram src size) := rfl

@[simp] theorem memcpy_flash (dst src : UInt32) (size : Nat) (s : Memories) :
    (memcpy dst src size s).flash = s.flash := rfl

section Local

variable (b : Buffers)

@[simp] theorem flashWriteNoErase_flash (addr data : UInt32) {size : Nat} (h : size ≤ 2 ^ 32) (s : Memories) :
    (flashWriteNoErase b addr data size s).flash = program s.flash addr (read s.ram data size) := by
  unfold flashWriteNoErase
  split
  · rfl
  · have hcopy : read (write s.ram b.copy (read s.ram data size)) b.copy (read s.ram data size).length =
        read s.ram data size := read_write (by rwa [read_length])
    rw [read_length] at hcopy
    simp only [memcpy]
    rw [hcopy]

theorem flashWriteNoErase_ram {addr data x : UInt32} {size : Nat} {s : Memories}
    (h : size ≤ (x - b.copy).toNat ∨ isCacheAligned data) :
    (flashWriteNoErase b addr data size s).ram x = s.ram x := by
  unfold flashWriteNoErase
  split
  · rfl
  next hdata =>
    apply write_of_le
    rw [read_length]
    exact h.resolve_right hdata

theorem flashErase_page {addr : UInt32} (h : addr.toNat % sectorLength = 0) (s : Memories) :
    flashErase addr 4096 s = some { s with flash := eraseSector s.flash addr } := by
  have hmod : addr % 4096 = 0 := by
    apply UInt32.toNat_inj.mp
    rw [UInt32.toNat_mod]
    exact h
  have hpages : (((4096 : UInt32) + 4096 - 1) &&& 0xfffff000).toInt32.toInt.tdiv 4096 = 1 := by decide
  rw [flashErase, if_pos hmod]
  simp only [hpages]
  simp [eraseLoop]

/-- The buffers do not overlap the data, or only whole pages of aligned data are written
and no buffer is used. -/
def BuffersFree (addr data : UInt32) (size : Nat) : Prop :=
  (Apart data size b.page eftlPageSize ∧ Apart data size b.copy eftlPageSize) ∨
    ((addr &&& 0xfff) = 0 ∧ size % eftlPageSize = 0 ∧ isCacheAligned data)

variable {b}

theorem pieceSize_of_whole {addr : UInt32} {size : Nat} (h : 0 < size) (ha : (addr &&& 0xfff) = 0)
    (hs : size % eftlPageSize = 0) : pieceSize addr size = eftlPageSize := by
  unfold pieceSize
  rw [ha, UInt32.toNat_zero]
  unfold eftlPageSize at *
  split <;> omega

theorem isCacheAligned_advance {data : UInt32} (h : isCacheAligned data) :
    isCacheAligned (data + UInt32.ofNat eftlPageSize) := by
  have hbits : ∀ a : UInt32, isCacheAligned a ↔ a.toNat % 32 = 0 := by
    intro a
    have hand : (a &&& (cacheLine - 1)).toNat = a.toNat % 32 := by
      rw [UInt32.toNat_and]
      exact Nat.and_two_pow_sub_one_eq_mod a.toNat 5
    rw [← hand, isCacheAligned, beq_iff_eq, ← UInt32.toNat_inj, UInt32.toNat_zero]
  have hpage : (UInt32.ofNat eftlPageSize).toNat = 4096 := rfl
  rw [hbits] at h ⊢
  rw [UInt32.toNat_add, hpage]
  omega

theorem BuffersFree.advance {addr data : UInt32} {size : Nat} (h : BuffersFree b addr data size)
    (hpos : 0 < size) (hsize : size < 2 ^ 32) :
    BuffersFree b (addr + UInt32.ofNat (pieceSize addr size)) (data + UInt32.ofNat (pieceSize addr size))
      (size - pieceSize addr size) := by
  have hle := pieceSize_le addr size
  rcases h with ⟨hpage, hcopy⟩ | ⟨ha, hs, hdata⟩
  · exact Or.inl ⟨hpage.advance hle hsize, hcopy.advance hle hsize⟩
  · have hwhole := pieceSize_of_whole hpos ha hs
    rw [hwhole]
    refine Or.inr ⟨?_, ?_, isCacheAligned_advance hdata⟩
    · apply UInt32.toNat_inj.mp
      have haddr := toNat_and_fff addr
      have hpage : (UInt32.ofNat eftlPageSize).toNat = 4096 := rfl
      rw [ha, UInt32.toNat_zero] at haddr
      rw [toNat_and_fff, UInt32.toNat_add, hpage, UInt32.toNat_zero]
      omega
    · unfold eftlPageSize at *
      omega

/-- Reading a page to the buffer, changing the covered bytes there and writing the buffer
back overwrites these bytes in flash. -/
theorem page_back {s : Memories} {buf addr data : UInt32} {size ws : Nat} (hsize : size < 2 ^ 32)
    (hfit : (addr &&& 0xfff).toNat + ws ≤ eftlPageSize) (hle : ws ≤ size)
    (hbuf : Apart data size buf eftlPageSize) :
    write s.flash (addr &&& 0xfffff000)
        (read (memcpy (buf + (addr &&& 0xfff)) data ws
          (flashRead (addr &&& 0xfffff000) buf eftlPageSize s)).ram buf eftlPageSize) =
      write s.flash addr (read s.ram data ws) := by
  have hpart : Apart data ws buf eftlPageSize := fun x hx => hbuf x (by omega)
  have hdata : read (write s.ram buf (read s.flash (addr &&& 0xfffff000) eftlPageSize)) data ws =
      read s.ram data ws := read_write_apart (by omega) (by rwa [read_length])
  have hlen : (addr &&& 0xfff).toNat + (read s.ram data ws).length ≤ eftlPageSize := by rwa [read_length]
  have hmodify := @read_modify_write s.flash s.ram (addr &&& 0xfffff000) buf _ _ _ hlen
  rw [UInt32.ofNat_toNat, page_add_offset] at hmodify
  simp only [memcpy, flashRead]
  rw [hdata, hmodify]

/-- Where the covered bytes already agree with the data, overwriting them changes nothing. -/
theorem page_same {s : Memories} {buf addr data : UInt32} {size ws : Nat} (hsize : size < 2 ^ 32)
    (hfit : (addr &&& 0xfff).toNat + ws ≤ eftlPageSize) (hle : ws ≤ size)
    (hbuf : Apart data size buf eftlPageSize)
    (hsame : read (flashRead (addr &&& 0xfffff000) buf eftlPageSize s).ram (buf + (addr &&& 0xfff)) ws =
      read (flashRead (addr &&& 0xfffff000) buf eftlPageSize s).ram data ws) :
    write s.flash addr (read s.ram data ws) = s.flash := by
  have hpart : Apart data ws buf eftlPageSize := fun x hx => hbuf x (by omega)
  have hdata : read (write s.ram buf (read s.flash (addr &&& 0xfffff000) eftlPageSize)) data ws =
      read s.ram data ws := read_write_apart (by omega) (by rwa [read_length])
  have hback := @read_write_part s.flash s.ram (addr &&& 0xfffff000) buf _ _ _ (by decide) hfit
  rw [UInt32.ofNat_toNat, page_add_offset] at hback
  simp only [flashRead] at hsame
  rw [hback, hdata] at hsame
  rw [← hsame]
  exact write_read s.flash addr ws

theorem writeErasePage_spec {s : Memories} {addr data : UInt32} {size : Nat} (hpos : 0 < size)
    (hsize : size < 2 ^ 32) (hfree : BuffersFree b addr data size) :
    ∃ t, writeErasePage b addr data (pieceSize addr size) s = some t ∧
      t.flash = write s.flash addr (read s.ram data (pieceSize addr size)) ∧
      ∀ x : UInt32, (x - data).toNat < size → t.ram x = s.ram x := by
  have hle := pieceSize_le addr size
  have hfit := pieceSize_fits addr size
  have haligned := page_aligned addr
  unfold writeErasePage
  by_cases hwhole : pieceSize addr size = eftlPageSize
  · have haddr : (addr &&& 0xfffff000) = addr := by
      have hsum := page_add_offset addr
      rw [pieceSize_eq_page hwhole, UInt32.add_zero] at hsum
      exact hsum
    rw [hwhole, if_pos rfl, flashErase_page haligned]
    refine ⟨_, rfl, ?_, ?_⟩
    · rw [flashWriteNoErase_flash b _ _ (by decide)]
      dsimp only
      rw [program_eraseSector haligned (by rw [read_length]; rfl), haddr]
    · intro x hx
      apply flashWriteNoErase_ram
      exact hfree.imp (fun hapart => hapart.2 x hx) (fun hpages => hpages.2.2)
  · have hbufs : Apart data size b.page eftlPageSize ∧ Apart data size b.copy eftlPageSize :=
      hfree.resolve_right fun hpages => hwhole (pieceSize_of_whole hpos hpages.1 hpages.2.1)
    have hread : ∀ x : UInt32, (x - data).toNat < size →
        (flashRead (addr &&& 0xfffff000) b.page eftlPageSize s).ram x = s.ram x := by
      intro x hx
      rw [flashRead_ram]
      exact write_of_le (by rw [read_length]; exact hbufs.1 x hx)
    rw [if_neg hwhole]
    dsimp only
    split
    next hskip =>
      have hsame := beq_iff_eq.mp (Bool.and_eq_true_iff.mp hskip).2
      refine ⟨_, rfl, ?_, hread⟩
      rw [flashRead_flash, page_same hsize hfit hle hbufs.1 hsame]
    next =>
      rw [flashErase_page haligned]
      refine ⟨_, rfl, ?_, ?_⟩
      · rw [flashWriteNoErase_flash b _ _ (by decide)]
        dsimp only
        rw [memcpy_flash, flashRead_flash, program_eraseSector haligned (by rw [read_length]; rfl)]
        exact page_back hsize hfit hle hbufs.1
      · intro x hx
        have hoff : eftlPageSize ≤ (x - b.page).toNat := hbufs.1 x hx
        have hdown := toNat_sub_add (x := x) (a := b.page) (i := (addr &&& 0xfff).toNat) (by omega)
        rw [UInt32.ofNat_toNat] at hdown
        rw [flashWriteNoErase_ram b (Or.inl (hbufs.2 x hx))]
        dsimp only
        rw [memcpy_ram, write_of_le (by rw [read_length, hdown]; omega)]
        exact hread x hx

/-- What is left of the data reads the same when no byte of it changed. -/
theorem read_rest {r r' : Memory} {data : UInt32} {size ws : Nat} (hle : ws ≤ size) (hsize : size < 2 ^ 32)
    (h : ∀ x : UInt32, (x - data).toNat < size → r' x = r x) :
    read r' (data + UInt32.ofNat ws) (size - ws) = read r (data + UInt32.ofNat ws) (size - ws) := by
  apply read_congr
  intro i hi
  apply h
  rw [UInt32.add_assoc, ← UInt32.ofNat_add, toNat_add_ofNat_sub data (by omega)]
  omega

/-- A first piece and then the rest overwrite the whole range. -/
theorem write_pieces {m r : Memory} {addr data : UInt32} {size ws : Nat} (hle : ws ≤ size) (hsize : size < 2 ^ 32) :
    write (write m addr (read r data ws)) (addr + UInt32.ofNat ws)
        (read r (data + UInt32.ofNat ws) (size - ws)) =
      write m addr (read r data size) := by
  have hsplit := read_append r data ws (size - ws)
  rw [Nat.add_sub_cancel' hle] at hsplit
  rw [hsplit, write_append (by rw [read_length, read_length]; omega), read_length]

theorem flashWriteErase_spec (addr data : UInt32) (size : Nat) (s : Memories) (hsize : size < 2 ^ 32)
    (hfree : BuffersFree b addr data size) :
    ∃ t, flashWriteErase b addr data size s = some t ∧ t.flash = write s.flash addr (read s.ram data size) := by
  induction size using Nat.strong_induction_on generalizing addr data s with
  | _ size ih =>
    rw [flashWriteErase]
    split
    next hpos =>
      have hstep := pieceSize_pos addr hpos
      have hle := pieceSize_le addr size
      obtain ⟨t, ht, htflash, htram⟩ := writeErasePage_spec (s := s) hpos hsize hfree
      obtain ⟨u, hu, huflash⟩ := ih (size - pieceSize addr size) (by omega) _ _ t (by omega)
        (hfree.advance hpos hsize)
      refine ⟨u, ?_, ?_⟩
      · dsimp only
        rw [ht]
        exact hu
      · rw [huflash, htflash, read_rest hle hsize htram, write_pieces hle hsize]
    next hzero =>
      have hnil : size = 0 := by omega
      subst hnil
      exact ⟨s, rfl, (write_nil s.flash addr).symm⟩

/-- A range inside one page takes one turn of the loop. -/
theorem flashWriteErase_single {addr data : UInt32} {size : Nat} {s : Memories} (hpos : 0 < size)
    (hpiece : pieceSize addr size = size) :
    flashWriteErase b addr data size s = writeErasePage b addr data size s := by
  have hnil : ∀ a d, flashWriteErase b a d (size - size) = some := by
    intro a d
    funext t
    rw [Nat.sub_self, flashWriteErase, dif_neg (Nat.lt_irrefl 0)]
  rw [flashWriteErase, dif_pos hpos, hpiece]
  dsimp only
  rw [hnil, Option.bind_fun_some]

end Local

section OtherCore

@[simp] theorem sendWriteErase_ram (ramAddr flashAddr : UInt32) (size : Nat) (s : Memories) :
    (sendWriteFlashMsg .writeErase ramAddr flashAddr size s).ram = s.ram := rfl

theorem sendWriteErase_flash {ramAddr flashAddr : UInt32} (h : flashAddr.toNat % sectorLength = 0) (s : Memories) :
    (sendWriteFlashMsg .writeErase ramAddr flashAddr eftlPageSize s).flash =
      write s.flash flashAddr (read s.ram ramAddr eftlPageSize) :=
  program_eraseSector h (by rw [read_length]; rfl)

theorem operatePage_spec {s : Memories} {blockBuf addr data : UInt32} {size : Nat}
    (hsize : size < 2 ^ 32) (hbuf : Apart data size blockBuf eftlPageSize) :
    (operatePage .writeErase blockBuf addr data size (pieceSize addr size) s).flash =
        write s.flash addr (read s.ram data (pieceSize addr size)) ∧
      ∀ x : UInt32, (x - data).toNat < size →
        (operatePage .writeErase blockBuf addr data size (pieceSize addr size) s).ram x = s.ram x := by
  have hle := pieceSize_le addr size
  have hfit := pieceSize_fits addr size
  have haligned := page_aligned addr
  have hread : ∀ x : UInt32, (x - data).toNat < size →
      (flashRead (addr &&& 0xfffff000) blockBuf eftlPageSize s).ram x = s.ram x := by
    intro x hx
    rw [flashRead_ram]
    exact write_of_le (by rw [read_length]; exact hbuf x hx)
  simp only [operatePage]
  split
  next hwhole =>
    have haddr : (addr &&& 0xfffff000) = addr := by
      have hsum := page_add_offset addr
      rw [hwhole.1, UInt32.add_zero] at hsum
      exact hsum
    refine ⟨?_, fun x _ => by rw [sendWriteErase_ram]⟩
    rw [sendWriteErase_flash haligned, hwhole.2.1, haddr]
  next =>
    split
    next hskip =>
      have hsame := beq_iff_eq.mp (Bool.and_eq_true_iff.mp hskip).2
      refine ⟨?_, hread⟩
      rw [flashRead_flash, page_same hsize hfit hle hbuf hsame]
    next =>
      constructor
      · rw [sendWriteErase_flash haligned, memcpy_flash, flashRead_flash]
        exact page_back hsize hfit hle hbuf
      · intro x hx
        have hoff : eftlPageSize ≤ (x - blockBuf).toNat := hbuf x hx
        have hdown := toNat_sub_add (x := x) (a := blockBuf) (i := (addr &&& 0xfff).toNat) (by omega)
        rw [UInt32.ofNat_toNat] at hdown
        rw [sendWriteErase_ram, memcpy_ram, write_of_le (by rw [read_length, hdown]; omega)]
        exact hread x hx

theorem flashOperateExt_spec (blockBuf addr data : UInt32) (size : Nat) (s : Memories) (hsize : size < 2 ^ 32)
    (hbuf : Apart data size blockBuf eftlPageSize) :
    (flashOperateExt .writeErase blockBuf addr data size s).flash = write s.flash addr (read s.ram data size) := by
  induction size using Nat.strong_induction_on generalizing addr data s with
  | _ size ih =>
    rw [flashOperateExt]
    split
    next hpos =>
      have hstep := pieceSize_pos addr (Int.natCast_pos.mp hpos)
      have hle := pieceSize_le addr size
      obtain ⟨hflash, hram⟩ := @operatePage_spec s blockBuf addr data size hsize hbuf
      have hcast : (size : Int) - (pieceSize addr size : Nat) = ((size - pieceSize addr size : Nat) : Int) := by
        omega
      dsimp only
      rw [Int.toNat_natCast, hcast, ih _ (by omega) _ _ _ (by omega) (hbuf.advance hle hsize), hflash,
        read_rest hle hsize hram, write_pieces hle hsize]
    next hzero =>
      have hnil : size = 0 := by omega
      subst hnil
      exact (write_nil s.flash addr).symm

theorem flashOperateExt_nonpos {operation : FlashOperation} {blockBuf addr data : UInt32} {size : Int}
    (h : size ≤ 0) (s : Memories) : flashOperateExt operation blockBuf addr data size s = s := by
  rw [flashOperateExt, dif_neg (by omega)]

end OtherCore

/-- The local path and the path through the other core overwrite exactly the range, for
every value of their size parameters. -/
theorem paths_overwrite (s : Memories) (addr data : UInt32) :
    (∀ (b : Buffers) (size : UInt32), BuffersFree b addr data size.toNat →
      ∃ t, flashWriteErase b addr data size.toNat s = some t ∧
        Overwritten s.flash s.ram t.flash addr data size.toNat) ∧
    ∀ (blockBuf : UInt32) (size : Int32), Apart data size.toInt.toNat blockBuf eftlPageSize →
      Overwritten s.flash s.ram (flashOperateExt .writeErase blockBuf addr data size.toInt s).flash addr data
        size.toInt.toNat := by
  constructor
  · intro b size hfree
    obtain ⟨t, ht, hflash⟩ := flashWriteErase_spec addr data size.toNat s size.toNat_lt hfree
    refine ⟨t, ht, ?_⟩
    rw [hflash]
    exact overwritten_write s.flash s.ram addr data size.toNat
  · intro blockBuf size hbuf
    have hlt := size.toInt_lt
    by_cases hpos : 0 ≤ size.toInt
    · obtain ⟨n, hn⟩ := Int.eq_ofNat_of_zero_le hpos
      rw [hn, Int.toNat_natCast] at hbuf ⊢
      rw [flashOperateExt_spec blockBuf addr data n s (by omega) hbuf]
      exact overwritten_write s.flash s.ram addr data n
    · rw [flashOperateExt_nonpos (by omega), Int.toNat_of_nonpos (by omega)]
      exact overwritten_write s.flash s.ram addr data 0

/-- A range over a page end, with the data and the buffers in different places of the heap. -/
theorem paths_overwrite_across_pages :
    ∃ t, flashWriteErase ⟨false, 0x20030000, 0x20031000⟩ 0x27000ffe 0x20040000 5
        ⟨fun _ => 0, fun x => x.toUInt8⟩ = some t ∧
      t.flash 0x27001001 = 3 ∧ t.flash 0x27000ffd = 0 ∧
      (flashOperateExt .writeErase 0x20030000 0x27000ffe 0x20040000 (5 : Int32).toInt
        ⟨fun _ => 0, fun x => x.toUInt8⟩).flash 0x27001001 = 3 := by
  have hapart : ∀ b : UInt32, b = 0x20030000 ∨ b = 0x20031000 → Apart 0x20040000 5 b eftlPageSize := by
    intro b hb x hx
    have hlt := x.toNat_lt
    rw [UInt32.toNat_sub] at hx ⊢
    unfold eftlPageSize
    rcases hb with rfl | rfl
    · simp only [UInt32.reduceToNat] at hx ⊢
      omega
    · simp only [UInt32.reduceToNat] at hx ⊢
      omega
  have hpaths := paths_overwrite ⟨fun _ => 0, fun x => x.toUInt8⟩ 0x27000ffe 0x20040000
  obtain ⟨t, ht, hflash⟩ := hpaths.1 ⟨false, 0x20030000, 0x20031000⟩ 5
    (Or.inl ⟨hapart _ (Or.inl rfl), hapart _ (Or.inr rfl)⟩)
  have hother := hpaths.2 0x20030000 5 (hapart _ (Or.inl rfl))
  refine ⟨t, ht, ?_, ?_, ?_⟩
  · rw [hflash 0x27001001]
    decide
  · rw [hflash 0x27000ffd]
    decide
  · rw [hother 0x27001001]
    decide

/-- In a crash dump the page buffer is the start of the RAM: a byte written from there is
read over by the flash content first, compares equal and is never stored. -/
theorem dump_buffer_overlaps :
    ¬ ∀ (s : Memories) (addr data : UInt32) (b : Buffers) (size : UInt32),
      ∃ t, flashWriteErase b addr data size.toNat s = some t ∧
        Overwritten s.flash s.ram t.flash addr data size.toNat := by
  intro h
  obtain ⟨t, ht, hflash⟩ := h ⟨fun _ => 0xFF, fun _ => 0⟩ 0x27130000 m3SramBase ⟨true, 0, 0⟩ 1
  have hrun : (flashWriteErase ⟨true, 0, 0⟩ 0x27130000 m3SramBase (1 : UInt32).toNat
      ⟨fun _ => 0xFF, fun _ => 0⟩).map (fun t => t.flash 0x27130000) = some 0xFF := by
    rw [flashWriteErase_single (by decide) (by decide)]
    decide +kernel
  have hbyte := hflash 0x27130000
  rw [ht] at hrun
  have hkept : t.flash 0x27130000 = 0xFF := Option.some.inj hrun
  rw [hkept] at hbyte
  exact absurd hbyte (by decide)

end NbiotXY1100.FlashOverwrite
