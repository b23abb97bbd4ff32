import NbiotXY1100.EftlStore

/-! # Pages of a region of the flash store

The scan depends on the pages only through their write numbers. What a write stores keeps
the magic word and the checksum right and changes just its window of the value. -/
namespace NbiotXY1100.EftlPages
open FlashMemory FlashAdapt XyFlash ByteBuffers EftlStore

/-- A registered region of at least two sectors inside the flash. -/
structure Region (cfg : XyEftlCfg) : Prop where
  aligned : cfg.addr.toNat % sectorLength = 0
  two_le : 2 ≤ cfg.tpageTotal
  base_le : flashBase ≤ cfg.addr
  end_le : cfg.addr.toNat + 4096 * cfg.tpageTotal ≤ (flashBase + flashLength).toNat

/-- What the addresses of the pages need. -/
structure Located (cfg : XyEftlCfg) : Prop where
  aligned : cfg.addr.toNat % sectorLength = 0
  base_le : flashBase ≤ cfg.addr
  end_le : cfg.addr.toNat + 4096 * cfg.tpageTotal ≤ (flashBase + flashLength).toNat

theorem Region.located {cfg : XyEftlCfg} (h : Region cfg) : Located cfg := ⟨h.aligned, h.base_le, h.end_le⟩

/-- Two sectors of the user area. -/
def userCfg : XyEftlCfg := ⟨0x271FC000, 2⟩

theorem region_userCfg : Region userCfg := by
  constructor <;> decide

def page (m : Memory) (addr : UInt32) (i : Nat) : List UInt8 := read m (pageAddr addr i) eftlPageSize

/-- The write number of a page that passes the magic and the write-number test. -/
def numbered (bs : List UInt8) : Option UInt32 :=
  if word bs 0 = eftlMagicNum ∧ word bs eftlWriteNumOffset ≠ 0xFFFFFFFF ∧ word bs eftlWriteNumOffset ≠ 0 then
    some (word bs eftlWriteNumOffset)
  else none

def checksumOk (bs : List UInt8) : Bool := word bs eftlCsmOffset == xyChksum (bs.take eftlCsmOffset)

/-- The part of a page that belongs to the user. -/
def valueOf (bs : List UInt8) : List UInt8 := (bs.drop 4).take xyFtlAvailableSize

section PageAddresses

variable {cfg : XyEftlCfg} (hcfg : Located cfg) {i j : Nat} (hi : i < cfg.tpageTotal) (hj : j < cfg.tpageTotal)
include hcfg hi

theorem pageAddr_toNat : (pageAddr cfg.addr i).toNat = cfg.addr.toNat + 4096 * i := by
  have hend := hcfg.end_le
  have htop : (flashBase + flashLength).toNat = 0x27200000 := by decide
  have hoff : (UInt32.ofNat (4096 * i)).toNat = 4096 * i := toNat_ofNat_of_lt (by omega)
  rw [pageAddr, UInt32.toNat_add, hoff]
  omega

theorem pageAddr_aligned : (pageAddr cfg.addr i).toNat % sectorLength = 0 := by
  have haligned := hcfg.aligned
  rw [pageAddr_toNat hcfg hi]
  unfold sectorLength at *
  omega

theorem inFlash_pageAddr : inFlash (pageAddr cfg.addr i) := by
  have hbase := UInt32.le_iff_toNat_le.mp hcfg.base_le
  have hend := hcfg.end_le
  have hto := pageAddr_toNat hcfg hi
  rw [inFlash, Bool.and_eq_true, decide_eq_true_eq, decide_eq_true_eq, UInt32.le_iff_toNat_le,
    UInt32.le_iff_toNat_le]
  constructor <;> omega

omit hcfg hi in
theorem page_write_self (m : Memory) {bs : List UInt8} (hlen : bs.length = eftlPageSize) :
    page (write m (pageAddr cfg.addr i) bs) cfg.addr i = bs := by
  have hread : read (write m (pageAddr cfg.addr i) bs) (pageAddr cfg.addr i) bs.length = bs :=
    read_write (by rw [hlen]; decide)
  rwa [hlen] at hread

include hj

theorem sector_of_page_ne (hne : j ≠ i) {x : UInt32} (hx : (x - pageAddr cfg.addr j).toNat < eftlPageSize) :
    x.toNat / sectorLength ≠ (pageAddr cfg.addr i).toNat / sectorLength := by
  have hsector := (toNat_sub_lt_sector (pageAddr_aligned hcfg hj)).mp hx
  have haligned := hcfg.aligned
  rw [hsector, pageAddr_toNat hcfg hi, pageAddr_toNat hcfg hj]
  unfold sectorLength at *
  omega

theorem page_write_ne (hne : j ≠ i) (m : Memory) {bs : List UInt8} (hlen : bs.length = eftlPageSize) :
    page (write m (pageAddr cfg.addr i) bs) cfg.addr j = page m cfg.addr j := by
  apply read_write_apart (by decide)
  intro x hx
  rw [hlen]
  have hother := sector_of_page_ne hcfg hi hj hne hx
  by_cases hin : (x - pageAddr cfg.addr i).toNat < sectorLength
  · exact absurd ((toNat_sub_lt_sector (pageAddr_aligned hcfg hi)).mp hin) hother
  · exact Nat.not_lt.mp hin

theorem page_erase_ne (hne : j ≠ i) (m : Memory) :
    page (eraseSector m (pageAddr cfg.addr i)) cfg.addr j = page m cfg.addr j := by
  apply read_congr
  intro k hk
  apply eraseSector_of_ne
  apply sector_of_page_ne hcfg hi hj hne
  rw [toNat_add_ofNat_sub _ (Nat.lt_trans hk (by decide))]
  exact hk

end PageAddresses

/-- An erased page has no magic word. -/
theorem numbered_erased {cfg : XyEftlCfg} (hcfg : Located cfg) {i : Nat} (hi : i < cfg.tpageTotal) (m : Memory) :
    numbered (page (eraseSector m (pageAddr cfg.addr i)) cfg.addr i) = none := by
  have hones : ∀ k < 4, eraseSector m (pageAddr cfg.addr i) (pageAddr cfg.addr i + UInt32.ofNat k) = 0xFF := by
    intro k hk
    apply eraseSector_of_eq
    apply (toNat_sub_lt_sector (pageAddr_aligned hcfg hi)).mp
    rw [toNat_add_ofNat_sub _ (by omega)]
    unfold sectorLength
    omega
  have hread : read (eraseSector m (pageAddr cfg.addr i)) (pageAddr cfg.addr i) 4 = [0xFF, 0xFF, 0xFF, 0xFF] := by
    show [_, _, _, _] = _
    beta_reduce
    rw [hones 0 (by decide), hones 1 (by decide), hones 2 (by decide), hones 3 (by decide)]
  have hword : word (page (eraseSector m (pageAddr cfg.addr i)) cfg.addr i) 0 = 0xFFFFFFFF := by
    have hpart := read_drop_take (eraseSector m (pageAddr cfg.addr i)) (pageAddr cfg.addr i)
      (show 0 + 4 ≤ eftlPageSize by decide)
    rw [show UInt32.ofNat 0 = 0 from rfl, UInt32.add_zero, hread] at hpart
    rw [word, page, hpart]
    decide
  rw [numbered, if_neg]
  intro h
  rw [hword] at h
  exact absurd h.1 (by decide)

section Scan

variable (m : Memory) (addr : UInt32)

theorem scanStep_eq (acc : UInt32 × Option Nat) (i : Nat) :
    scanStep m addr acc i =
      match numbered (page m addr i) with
      | some w => if acc.1 ≤ w then (w, some i) else acc
      | none => acc := by
  have hmagic := loadWord_eq m (pageAddr addr i) (show 0 + 4 ≤ eftlPageSize by decide)
  have hnum := loadWord_eq m (pageAddr addr i) (show eftlWriteNumOffset + 4 ≤ eftlPageSize by decide)
  rw [show UInt32.ofNat 0 = 0 from rfl, UInt32.add_zero] at hmagic
  rw [scanStep, hmagic, hnum, numbered, page]
  by_cases h : word (read m (pageAddr addr i) eftlPageSize) 0 = eftlMagicNum ∧
      word (read m (pageAddr addr i) eftlPageSize) eftlWriteNumOffset ≠ 0xFFFFFFFF ∧
      word (read m (pageAddr addr i) eftlPageSize) eftlWriteNumOffset ≠ 0
  · simp only [if_pos h]
  · simp only [if_neg h]

/-- What the scan of the first `n` pages has found. -/
structure Scanned (max : UInt32) (n : Nat) (acc : UInt32 × Option Nat) : Prop where
  none_found : acc.2 = none → acc.1 = max ∧ ∀ j < n, ∀ w, numbered (page m addr j) = some w → w < max
  found : ∀ p, acc.2 = some p → p < n ∧ numbered (page m addr p) = some acc.1 ∧ max ≤ acc.1 ∧
    (∀ j < n, ∀ w, numbered (page m addr j) = some w → w ≤ acc.1) ∧
    ∀ j < n, p < j → ∀ w, numbered (page m addr j) = some w → w < acc.1

variable {m addr}

theorem Scanned.step {max : UInt32} {n : Nat} {acc : UInt32 × Option Nat} (h : Scanned m addr max n acc) :
    Scanned m addr max (n + 1) (scanStep m addr acc n) := by
  rw [scanStep_eq]
  cases hw : numbered (page m addr n) with
  | none =>
    have hold : ∀ {j w}, j < n + 1 → numbered (page m addr j) = some w → j < n := by
      intro j w hj hnum
      rcases Nat.lt_succ_iff_lt_or_eq.mp hj with hlt | rfl
      · exact hlt
      · simp [hw] at hnum
    constructor
    · intro hnone
      obtain ⟨hmax, hall⟩ := h.none_found hnone
      exact ⟨hmax, fun j hj w hnum => hall j (hold hj hnum) w hnum⟩
    · intro p hp
      obtain ⟨hlt, hnum, hmax, hall, hlater⟩ := h.found p hp
      exact ⟨by omega, hnum, hmax, fun j hj w hj' => hall j (hold hj hj') w hj',
        fun j hj hpj w hj' => hlater j (hold hj hj') hpj w hj'⟩
  | some w =>
    by_cases hle : acc.1 ≤ w
    · simp only [hle, if_true]
      have hbelow : max ≤ w ∧ ∀ j < n, ∀ w', numbered (page m addr j) = some w' → w' ≤ w := by
        cases hp : acc.2 with
        | none =>
          obtain ⟨hmax, hall⟩ := h.none_found hp
          rw [hmax] at hle
          exact ⟨hle, fun j hj w' hnum => UInt32.le_trans (UInt32.le_of_lt (hall j hj w' hnum)) hle⟩
        | some p =>
          obtain ⟨-, -, hmax, hall, -⟩ := h.found p hp
          exact ⟨UInt32.le_trans hmax hle, fun j hj w' hnum => UInt32.le_trans (hall j hj w' hnum) hle⟩
      constructor
      · intro hnone
        exact absurd hnone (Option.some_ne_none n)
      · intro p hp
        cases hp
        refine ⟨by omega, hw, hbelow.1, ?_, fun j hj hnj => absurd hj (by omega)⟩
        intro j hj w' hnum
        rcases Nat.lt_succ_iff_lt_or_eq.mp hj with hlt | rfl
        · exact hbelow.2 j hlt w' hnum
        · rw [hw] at hnum
          cases hnum
          exact UInt32.le_refl w
    · simp only [hle, if_false]
      have hsmall : w < acc.1 := UInt32.not_le.mp hle
      constructor
      · intro hnone
        obtain ⟨hmax, hall⟩ := h.none_found hnone
        refine ⟨hmax, ?_⟩
        intro j hj w' hnum
        rcases Nat.lt_succ_iff_lt_or_eq.mp hj with hlt | rfl
        · exact hall j hlt w' hnum
        · rw [hw] at hnum
          cases hnum
          rwa [hmax] at hsmall
      · intro p hp
        obtain ⟨hlt, hnum, hmax, hall, hlater⟩ := h.found p hp
        refine ⟨by omega, hnum, hmax, ?_, ?_⟩
        · intro j hj w' hj'
          rcases Nat.lt_succ_iff_lt_or_eq.mp hj with hjn | rfl
          · exact hall j hjn w' hj'
          · rw [hw] at hj'
            cases hj'
            exact UInt32.le_of_lt hsmall
        · intro j hj hpj w' hj'
          rcases Nat.lt_succ_iff_lt_or_eq.mp hj with hjn | rfl
          · exact hlater j hjn hpj w' hj'
          · rw [hw] at hj'
            cases hj'
            exact hsmall

variable (m addr) in
theorem scanned (max : UInt32) (n : Nat) : Scanned m addr max n (scanPages m addr n max) := by
  induction n with
  | zero =>
    constructor
    · intro _
      exact ⟨rfl, fun j hj => absurd hj (Nat.not_lt_zero j)⟩
    · intro p hp
      cases hp
  | succ n ih =>
    rw [scanPages, List.range_succ, List.foldl_append]
    exact ih.step

end Scan

section NewPage

variable {bs data : List UInt8} {offset : Nat} (hbs : bs.length = eftlPageSize)
  (hfit : offset + data.length ≤ xyFtlAvailableSize)
include hbs hfit

/-- The page with the magic word and the data, before its checksum and number are set. -/
def filled (bs : List UInt8) (offset : Nat) (data : List UInt8) : List UInt8 :=
  splice (setWord bs 0 eftlMagicNum) (4 + offset) data

theorem filled_length : (filled bs offset data).length = eftlPageSize := by
  unfold eftlPageSize xyFtlAvailableSize at *
  have hmagic := setWord_length (o := 0) eftlMagicNum (show 0 + 4 ≤ bs.length by omega)
  rw [filled, splice_length (by omega), hmagic, hbs]

theorem newPage_eq : newPage bs offset data =
    setWord (setWord (filled bs offset data) eftlCsmOffset (xyChksum ((filled bs offset data).take eftlCsmOffset)))
      eftlWriteNumOffset ((if word bs eftlWriteNumOffset = 0xFFFFFFFF then 0 else word bs eftlWriteNumOffset) + 1) := by
  have hlen := filled_length hbs hfit
  unfold eftlPageSize xyFtlAvailableSize at *
  have hmagic := setWord_length (o := 0) eftlMagicNum (show 0 + 4 ≤ bs.length by omega)
  have hnum : word (setWord (filled bs offset data) eftlCsmOffset
      (xyChksum ((filled bs offset data).take eftlCsmOffset))) eftlWriteNumOffset = word bs eftlWriteNumOffset := by
    unfold eftlWriteNumOffset eftlCsmOffset
    rw [word_setWord_ne _ (by omega) (Or.inr (by decide)), filled, word_splice (by omega) (Or.inr (by omega)),
      word_setWord_ne _ (by omega) (Or.inr (by decide))]
  rw [← hnum]
  rfl

theorem newPage_length : (newPage bs offset data).length = eftlPageSize := by
  have hlen := filled_length hbs hfit
  rw [newPage_eq hbs hfit]
  unfold eftlPageSize eftlWriteNumOffset eftlCsmOffset at *
  rw [setWord_length _ (by rw [setWord_length _ (by omega)]; omega), setWord_length _ (by omega), hlen]

theorem newPage_number : word (newPage bs offset data) eftlWriteNumOffset =
    (if word bs eftlWriteNumOffset = 0xFFFFFFFF then 0 else word bs eftlWriteNumOffset) + 1 := by
  have hlen := filled_length hbs hfit
  rw [newPage_eq hbs hfit]
  unfold eftlPageSize eftlWriteNumOffset eftlCsmOffset at *
  rw [word_setWord _ (by rw [setWord_length _ (by omega)]; omega)]

/-- Below the checksum a stored page is the filled page. -/
theorem newPage_take : (newPage bs offset data).take eftlCsmOffset = (filled bs offset data).take eftlCsmOffset := by
  have hlen := filled_length hbs hfit
  rw [newPage_eq hbs hfit]
  unfold eftlPageSize eftlWriteNumOffset eftlCsmOffset at *
  have hcsm := setWord_length (o := 0xFF0) (xyChksum ((filled bs offset data).take 0xFF0))
    (show 0xFF0 + 4 ≤ (filled bs offset data).length by omega)
  rw [setWord, splice_take_of_le (by decide) (by omega), setWord, splice_take_of_le (by decide) (by omega)]

theorem newPage_checksumOk : checksumOk (newPage bs offset data) := by
  have htake := newPage_take hbs hfit
  have hlen := filled_length hbs hfit
  have hcsm := setWord_length (o := eftlCsmOffset) (xyChksum ((filled bs offset data).take eftlCsmOffset))
    (show eftlCsmOffset + 4 ≤ (filled bs offset data).length by rw [hlen]; decide)
  rw [checksumOk, beq_iff_eq, htake, newPage_eq hbs hfit, word_setWord_ne _ (by rw [hcsm, hlen]; decide)
    (Or.inl (by decide)), word_setWord _ (by rw [hlen]; decide)]

theorem newPage_magic : word (newPage bs offset data) 0 = eftlMagicNum := by
  have htake := newPage_take hbs hfit
  have hwindow : ∀ l : List UInt8, (l.drop 0).take 4 = ((l.take eftlCsmOffset).drop 0).take 4 := by
    intro l
    rw [List.drop_zero, List.drop_zero, List.take_take]
    rfl
  have hmagic := setWord_length (o := 0) eftlMagicNum (show 0 + 4 ≤ bs.length by rw [hbs]; decide)
  unfold eftlPageSize xyFtlAvailableSize at *
  rw [word, hwindow, htake, ← hwindow, ← word, filled, word_splice (by omega) (Or.inl (by omega)),
    word_setWord _ (by omega)]

/-- The value of the page is the old value with the data written over its window. -/
theorem valueOf_newPage : valueOf (newPage bs offset data) = splice (valueOf bs) offset data := by
  have htake := newPage_take hbs hfit
  have hwindow : ∀ l : List UInt8, valueOf l = (l.take eftlCsmOffset).drop 4 := by
    intro l
    rw [valueOf, List.drop_take]
    rfl
  have hmagic := setWord_length (o := 0) eftlMagicNum (show 0 + 4 ≤ bs.length by rw [hbs]; decide)
  unfold eftlPageSize xyFtlAvailableSize at *
  have hhead : (setWord bs 0 eftlMagicNum).drop 4 = bs.drop 4 := splice_drop_of_le (by decide) (by omega)
  have hlen : (bs.drop 4).length = 4092 := by
    rw [List.length_drop]
    omega
  rw [hwindow, htake, ← hwindow, valueOf, filled, splice_drop (by omega), hhead]
  exact splice_take (by unfold xyFtlAvailableSize; omega) (by rw [hlen]; decide)

end NewPage

end NbiotXY1100.EftlPages
