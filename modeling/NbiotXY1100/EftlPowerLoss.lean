import NbiotXY1100.EftlPages
import NbiotXY1100.StepRuns
import Mathlib.Data.Finset.Card

/-! # The flash store under power loss

While a page with the largest write number passes every test, every choice ends at it,
whatever torn page stands beside it with a smaller or equal number. A torn page with a
larger number is not survived: the retry keeps its number as the largest one so far, so
no page is found any more. -/
namespace NbiotXY1100.EftlPowerLoss
open FlashMemory FlashAdapt XyFlash ByteBuffers EftlStore EftlPages StepRuns

/-- The page `cur` holds the value under the number `w`. Another page has a smaller number
or fails its checksum. -/
structure Current (cfg : XyEftlCfg) (m : Memory) (cur : Nat) (w : UInt32) (value : List UInt8) : Prop where
  lt : cur < cfg.tpageTotal
  number : numbered (page m cfg.addr cur) = some w
  checksum : checksumOk (page m cfg.addr cur)
  holds : valueOf (page m cfg.addr cur) = value
  others : ∀ j < cfg.tpageTotal, j ≠ cur → ∀ w', numbered (page m cfg.addr j) = some w' →
    w' ≤ w ∧ (w' = w → ¬ checksumOk (page m cfg.addr j))

/-- No page was stored yet. At most page 0 is torn, and a first write starts from `first`. -/
structure Fresh (cfg : XyEftlCfg) (m : Memory) (first : List UInt8) : Prop where
  others : ∀ j < cfg.tpageTotal, j ≠ 0 → numbered (page m cfg.addr j) = none
  torn : ∀ w, numbered (page m cfg.addr 0) = some w → ¬ checksumOk (page m cfg.addr 0)
  first_eq : firstPage cfg.addr m = first

def numberedPages (cfg : XyEftlCfg) (m : Memory) : Finset Nat :=
  (Finset.range cfg.tpageTotal).filter fun i => (numbered (page m cfg.addr i)).isSome

section Choice

variable {cfg : XyEftlCfg} (hcfg : Region cfg) {env : FlashEnv} (hvbat : env.lowVbat = false)
include hcfg

theorem numberedPages_erase {m : Memory} {p : Nat} (hp : p < cfg.tpageTotal)
    (hnum : (numbered (page m cfg.addr p)).isSome) :
    (numberedPages cfg (eraseSector m (pageAddr cfg.addr p))).card < (numberedPages cfg m).card := by
  apply Finset.card_lt_card
  refine Finset.ssubset_iff_of_subset ?_ |>.mpr ⟨p, ?_, ?_⟩
  · intro j hj
    obtain ⟨hlt, hj⟩ := Finset.mem_filter.mp hj
    refine Finset.mem_filter.mpr ⟨hlt, ?_⟩
    by_cases hjp : j = p
    · rw [hjp]
      exact hnum
    · rw [page_erase_ne hcfg.located hp (Finset.mem_range.mp hlt) hjp] at hj
      exact hj
  · exact Finset.mem_filter.mpr ⟨Finset.mem_range.mpr hp, hnum⟩
  · intro hmem
    have hgone := (Finset.mem_filter.mp hmem).2
    rw [numbered_erased hcfg.located hp] at hgone
    cases hgone

theorem Current.erase {m : Memory} {cur p : Nat} {w : UInt32} {value : List UInt8}
    (h : Current cfg m cur w value) (hp : p < cfg.tpageTotal) (hne : p ≠ cur) :
    Current cfg (eraseSector m (pageAddr cfg.addr p)) cur w value := by
  have hcur := page_erase_ne hcfg.located hp h.lt (Ne.symm hne) m
  constructor
  · exact h.lt
  · rw [hcur, h.number]
  · rw [hcur, h.checksum]
  · rw [hcur, h.holds]
  · intro j hj hjcur w' hnum
    by_cases hjp : j = p
    · rw [hjp, numbered_erased hcfg.located hp] at hnum
      cases hnum
    · rw [page_erase_ne hcfg.located hp hj hjp] at hnum ⊢
      exact h.others j hj hjcur w' hnum

include hvbat

/-- One pass that ends at a page with a wrong checksum erases it and goes on. -/
theorem chooseAgain_torn {m : Memory} {p fuel : Nat} {w mx : UInt32} (hp : p < cfg.tpageTotal)
    (hscan : scanPages m cfg.addr cfg.tpageTotal mx = (w, some p)) (hbad : ¬ checksumOk (page m cfg.addr p)) :
    chooseAgain env cfg true (fuel + 1) mx m =
      chooseAgain env cfg true fuel w (eraseSector m (pageAddr cfg.addr p)) := by
  have hdata : xyFlashRead (pageAddr cfg.addr p) eftlPageSize m = some (page m cfg.addr p) :=
    if_pos (inFlash_pageAddr hcfg.located hp)
  have hcheck : (true && word (page m cfg.addr p) eftlCsmOffset !=
      xyChksum ((page m cfg.addr p).take eftlCsmOffset)) = true := by
    rw [checksumOk, beq_iff_eq] at hbad
    rw [Bool.true_and, bne_iff_ne]
    exact hbad
  rw [chooseAgain, hscan]
  dsimp only
  rw [hdata, Option.bind_some, if_pos hcheck, xyFlashErase_page (pageAddr_aligned hcfg.located hp) hvbat, Option.bind_some]
  rfl

omit hvbat in
theorem chooseAgain_sound {m : Memory} {p fuel : Nat} {w mx : UInt32} (hp : p < cfg.tpageTotal)
    (hscan : scanPages m cfg.addr cfg.tpageTotal mx = (w, some p)) (hgood : checksumOk (page m cfg.addr p)) :
    chooseAgain env cfg true (fuel + 1) mx m =
      some ⟨m, some (p, page m cfg.addr p), (p + 1) % cfg.tpageTotal⟩ := by
  have hdata : xyFlashRead (pageAddr cfg.addr p) eftlPageSize m = some (page m cfg.addr p) :=
    if_pos (inFlash_pageAddr hcfg.located hp)
  have hcheck : ¬ (true && word (page m cfg.addr p) eftlCsmOffset !=
      xyChksum ((page m cfg.addr p).take eftlCsmOffset)) = true := by
    rw [checksumOk, beq_iff_eq] at hgood
    rw [Bool.true_and, bne_iff_ne]
    exact fun h => h hgood
  rw [chooseAgain, hscan]
  dsimp only
  rw [hdata, Option.bind_some, if_neg hcheck]

/-- Every choice ends at the current page. Each pass before erased a torn page with the
same number. -/
theorem chooseAgain_current {m : Memory} {cur fuel : Nat} {w mx : UInt32} {value : List UInt8}
    (h : Current cfg m cur w value) (hmx : mx ≤ w) (hfuel : (numberedPages cfg m).card < fuel) :
    ∃ m', chooseAgain env cfg true fuel mx m =
        some ⟨m', some (cur, page m' cfg.addr cur), (cur + 1) % cfg.tpageTotal⟩ ∧
      Current cfg m' cur w value := by
  induction fuel generalizing m mx with
  | zero => exact absurd hfuel (Nat.not_lt_zero _)
  | succ fuel ih =>
    have hscanned := scanned m cfg.addr mx cfg.tpageTotal
    cases hfound : (scanPages m cfg.addr cfg.tpageTotal mx).2 with
    | none =>
      have hsmall := (hscanned.none_found hfound).2 cur h.lt w h.number
      exact absurd hmx (UInt32.not_le.mpr hsmall)
    | some p =>
      obtain ⟨hp, hnum, -, hall, -⟩ := hscanned.found p hfound
      have hmax : (scanPages m cfg.addr cfg.tpageTotal mx).1 = w := by
        apply UInt32.le_antisymm
        · by_cases hpcur : p = cur
          · rw [hpcur, h.number] at hnum
            exact UInt32.le_of_eq (Option.some.inj hnum).symm
          · exact (h.others p hp hpcur _ hnum).1
        · exact hall cur h.lt w h.number
      have hscan : scanPages m cfg.addr cfg.tpageTotal mx = (w, some p) := Prod.ext hmax hfound
      by_cases hpcur : p = cur
      · subst hpcur
        exact ⟨m, chooseAgain_sound hcfg hp hscan h.checksum, h⟩
      · have hbad : ¬ checksumOk (page m cfg.addr p) := (h.others p hp hpcur _ hnum).2 hmax
        have hfewer := numberedPages_erase hcfg hp (Option.isSome_of_mem hnum)
        rw [chooseAgain_torn hcfg hvbat hp hscan hbad]
        exact ih (h.erase hcfg hp hpcur) (UInt32.le_refl w) (by omega)

omit hcfg hvbat in
theorem firstPage_congr {m m' : Memory} {base : UInt32}
    (h : base = nvFlashFactoryBase → ∀ x : UInt32, x.toNat / sectorLength = 0x27003 → m' x = m x) :
    firstPage base m' = firstPage base m := by
  unfold firstPage
  split
  next hbase =>
    apply read_congr
    intro i hi
    apply h hbase
    unfold sectorLength
    unfold eftlPageSize at hi
    have hmain : nvFlashMainFactoryBase.toNat = 0x27003000 := rfl
    rw [UInt32.toNat_add, toNat_ofNat_of_lt (by omega), hmain]
    omega
  next => rfl

omit hvbat in
/-- The main factory page lies before the factory region. -/
theorem sector_ne_main (hbase : cfg.addr = nvFlashFactoryBase) {i : Nat} (hi : i < cfg.tpageTotal) {x : UInt32}
    (hx : x.toNat / sectorLength = 0x27003) : x.toNat / sectorLength ≠ (pageAddr cfg.addr i).toNat / sectorLength := by
  have hfactory : nvFlashFactoryBase.toNat = 0x27004000 := rfl
  have hto := pageAddr_toNat hcfg.located hi
  rw [hbase, hfactory] at hto
  rw [hx, hbase, hto]
  unfold sectorLength
  omega

omit hvbat in
theorem firstPage_erase {i : Nat} (hi : i < cfg.tpageTotal) (m : Memory) :
    firstPage cfg.addr (eraseSector m (pageAddr cfg.addr i)) = firstPage cfg.addr m := by
  apply firstPage_congr
  intro hbase x hx
  exact eraseSector_of_ne (sector_ne_main hcfg hbase hi hx)

omit hvbat in
theorem firstPage_write {i : Nat} (hi : i < cfg.tpageTotal) (m : Memory) {bs : List UInt8}
    (hlen : bs.length = eftlPageSize) :
    firstPage cfg.addr (write m (pageAddr cfg.addr i) bs) = firstPage cfg.addr m := by
  apply firstPage_congr
  intro hbase x hx
  apply write_of_le
  rw [hlen]
  by_cases hin : (x - pageAddr cfg.addr i).toNat < sectorLength
  · exact absurd ((toNat_sub_lt_sector (pageAddr_aligned hcfg.located hi)).mp hin) (sector_ne_main hcfg hbase hi hx)
  · exact Nat.not_lt.mp hin

omit hcfg hvbat in
theorem chooseAgain_none {m : Memory} {fuel : Nat} (mx : UInt32)
    (hnone : ∀ j < cfg.tpageTotal, numbered (page m cfg.addr j) = none) :
    chooseAgain env cfg true (fuel + 1) mx m = some ⟨m, none, 0⟩ := by
  have hscanned := scanned m cfg.addr mx cfg.tpageTotal
  cases hfound : (scanPages m cfg.addr cfg.tpageTotal mx).2 with
  | none =>
    have hscan : scanPages m cfg.addr cfg.tpageTotal mx = ((scanPages m cfg.addr cfg.tpageTotal mx).1, none) :=
      Prod.ext rfl hfound
    rw [chooseAgain, hscan]
  | some p =>
    obtain ⟨hp, hnum, -⟩ := hscanned.found p hfound
    rw [hnone p hp] at hnum
    cases hnum

/-- Before the first stored page every choice finds no page; a torn page 0 is erased. -/
theorem chooseAgain_fresh {m : Memory} {fuel : Nat} {first : List UInt8} (h : Fresh cfg m first) :
    ∃ m', chooseAgain env cfg true (fuel + 2) 0 m = some ⟨m', none, 0⟩ ∧
      (∀ j < cfg.tpageTotal, numbered (page m' cfg.addr j) = none) ∧ firstPage cfg.addr m' = first := by
  have hzero : 0 < cfg.tpageTotal := Nat.lt_of_lt_of_le (by decide) hcfg.two_le
  cases hnum : numbered (page m cfg.addr 0) with
  | none =>
    have hnone : ∀ j < cfg.tpageTotal, numbered (page m cfg.addr j) = none := by
      intro j hj
      by_cases hj0 : j = 0
      · rw [hj0, hnum]
      · exact h.others j hj hj0
    exact ⟨m, chooseAgain_none 0 hnone, hnone, h.first_eq⟩
  | some w =>
    have hscanned := scanned m cfg.addr 0 cfg.tpageTotal
    have hnone : ∀ j < cfg.tpageTotal, numbered (page (eraseSector m (pageAddr cfg.addr 0)) cfg.addr j) = none := by
      intro j hj
      by_cases hj0 : j = 0
      · rw [hj0, numbered_erased hcfg.located hzero]
      · rw [page_erase_ne hcfg.located hzero hj hj0, h.others j hj hj0]
    cases hfound : (scanPages m cfg.addr cfg.tpageTotal 0).2 with
    | none =>
      have hsmall := (hscanned.none_found hfound).2 0 hzero w hnum
      exact absurd hsmall (UInt32.not_lt.mpr (UInt32.zero_le))
    | some p =>
      obtain ⟨hp, hpnum, -⟩ := hscanned.found p hfound
      have hp0 : p = 0 := by
        by_cases hp0 : p = 0
        · exact hp0
        · rw [h.others p hp hp0] at hpnum
          cases hpnum
      subst hp0
      have hscan : scanPages m cfg.addr cfg.tpageTotal 0 = ((scanPages m cfg.addr cfg.tpageTotal 0).1, some 0) :=
        Prod.ext rfl hfound
      refine ⟨eraseSector m (pageAddr cfg.addr 0), ?_, hnone, ?_⟩
      · rw [chooseAgain_torn hcfg hvbat hzero hscan (h.torn w hnum)]
        exact chooseAgain_none _ hnone
      · rw [firstPage_erase hcfg hzero, h.first_eq]

end Choice

/-- The calls and interruptions that a run consists of. A cut leaves the target page of
the write with any content that fails a test. -/
inductive Event
  | write (offset : Nat) (data : List UInt8)
  | cut (offset : Nat) (data torn : List UInt8)
  | read (offset size : Nat)
  | reboot

/-- The flash and the writes that have completed. -/
structure Sys where
  flash : Memory
  completed : List (Nat × List UInt8)

def valid (bs : List UInt8) : Bool := (numbered bs).isSome && checksumOk bs

def step (c : Config) (cfg : XyEftlCfg) : Event → Sys → Option Sys
  | .write offset data, s =>
    (xyFtlWrite c cfg.addr offset data data.length false s.flash).map fun r =>
      if r.1 = xyOk then ⟨r.2, s.completed ++ [(offset, data)]⟩ else ⟨r.2, s.completed⟩
  | .cut offset data torn, s =>
    if torn.length = eftlPageSize ∧ ¬ valid torn ∧ offset + data.length ≤ xyFtlAvailableSize then
      (planWrite c cfg.addr offset data true s.flash).bind fun plan =>
        plan.2.map fun target => ⟨write plan.1 (pageAddr cfg.addr target.1) torn, s.completed⟩
    else none
  | .read offset size, s =>
    if offset + size ≤ xyFtlAvailableSize then
      (xyFtlRead c (cfg.addr + UInt32.ofNat offset) size s.flash).map fun r => ⟨r.flash, s.completed⟩
    else none
  | .reboot, s => some s

/-- The value after writes over a first page. -/
def overlay (first : List UInt8) (completed : List (Nat × List UInt8)) : List UInt8 :=
  completed.foldl (fun value w => splice value w.1 w.2) (valueOf first)

/-- The bytes of the value that a read gives: those stored to the buffer, without the head
of the page where the whole page is read. -/
def readValue (r : ReadResult) (addr : UInt32) (size : Nat) : Option (List UInt8) :=
  r.data.map fun bs => if readsWholePage addr size then valueOf bs else bs

/-- After a completed write every read returns the bytes of the overlay of the completed
writes, and every write returns. -/
structure Survives (c : Config) (cfg : XyEftlCfg) (first : List UInt8) (s : Sys) : Prop where
  reads : s.completed ≠ [] → ∀ offset size, offset + size ≤ xyFtlAvailableSize →
    ∃ r, xyFtlRead c (cfg.addr + UInt32.ofNat offset) size s.flash = some r ∧ r.ret = xyOk ∧
      readValue r (cfg.addr + UInt32.ofNat offset) size = some (((overlay first s.completed).drop offset).take size)
  writes : ∀ offset (data : List UInt8), offset + data.length ≤ xyFtlAvailableSize →
    ∃ m', xyFtlWrite c cfg.addr offset data data.length false s.flash = some (xyOk, m')

/-- The number that the next page gets is still a valid one. -/
def NumberLeft (cfg : XyEftlCfg) (first : List UInt8) (s : Sys) : Prop :=
  (∀ i < cfg.tpageTotal, valid (page s.flash cfg.addr i) → numbered (page s.flash cfg.addr i) ≠ some 0xFFFFFFFE) ∧
    (s.completed = [] → word first eftlWriteNumOffset ≠ 0xFFFFFFFE)

/-- The condition on a call or interruption: a write finds its data in place or a number is
left for it; after a completed write no torn page passes the magic and the number test with
a number above those of all valid pages. -/
def Harmless (cfg : XyEftlCfg) (first : List UInt8) : Event → Sys → Prop
  | .write offset data, s =>
    s.completed ≠ [] ∧ ((overlay first s.completed).drop offset).take data.length = data ∨ NumberLeft cfg first s
  | .cut _ _ torn, s => s.completed ≠ [] → ∀ w, numbered torn = some w →
    ∃ i < cfg.tpageTotal, ∃ w', valid (page s.flash cfg.addr i) ∧
      numbered (page s.flash cfg.addr i) = some w' ∧ w ≤ w'
  | .read _ _, _ => True
  | .reboot, _ => True

def Inv (cfg : XyEftlCfg) (first : List UInt8) (s : Sys) : Prop :=
  s.completed = [] ∧ Fresh cfg s.flash first ∨
    s.completed ≠ [] ∧ ∃ cur w, Current cfg s.flash cur w (overlay first s.completed)

theorem overlay_append (first : List UInt8) (completed : List (Nat × List UInt8)) (offset : Nat)
    (data : List UInt8) :
    overlay first (completed ++ [(offset, data)]) = splice (overlay first completed) offset data :=
  List.foldl_append

/-- A window of the value is that window of the page. -/
theorem valueOf_window (bs : List UInt8) {offset n : Nat} (h : offset + n ≤ xyFtlAvailableSize) :
    ((valueOf bs).drop offset).take n = (bs.drop (4 + offset)).take n := by
  rw [valueOf, List.drop_take, List.drop_drop, List.take_take, Nat.min_eq_left (by omega)]

theorem numbered_eq_some {bs : List UInt8} {w : UInt32} (h : numbered bs = some w) :
    word bs 0 = eftlMagicNum ∧ word bs eftlWriteNumOffset = w ∧ w ≠ 0xFFFFFFFF ∧ w ≠ 0 := by
  unfold numbered at h
  split at h
  next hword =>
    cases h
    exact ⟨hword.1, rfl, hword.2⟩
  next => cases h

section Store

variable {c : Config} {cfg : XyEftlCfg} (hcfg : Region cfg)
  (hfind : findValidFtlCfg c.userNvCfgs cfg.addr = some cfg) (hvbat : c.env.lowVbat = false)
include hcfg hfind hvbat

theorem choose_current {m : Memory} {cur : Nat} {w : UInt32} {value : List UInt8}
    (h : Current cfg m cur w value) :
    ∃ m', xyChooseValidFtl c cfg.addr true m =
        some ⟨m', some (cur, page m' cfg.addr cur), (cur + 1) % cfg.tpageTotal⟩ ∧
      Current cfg m' cur w value := by
  have hcard : (numberedPages cfg m).card ≤ cfg.tpageTotal := by
    have hle := Finset.card_filter_le (Finset.range cfg.tpageTotal)
      (fun i => (numbered (page m cfg.addr i)).isSome = true)
    rwa [Finset.card_range] at hle
  rw [xyChooseValidFtl, hfind, Option.bind_some]
  exact chooseAgain_current hcfg hvbat h UInt32.zero_le (by omega)

theorem choose_fresh {m : Memory} {first : List UInt8} (h : Fresh cfg m first) :
    ∃ m', xyChooseValidFtl c cfg.addr true m = some ⟨m', none, 0⟩ ∧
      (∀ j < cfg.tpageTotal, numbered (page m' cfg.addr j) = none) ∧ firstPage cfg.addr m' = first := by
  obtain ⟨n, hn⟩ : ∃ n, cfg.tpageTotal = n + 1 := ⟨cfg.tpageTotal - 1, by have := hcfg.two_le; omega⟩
  rw [xyChooseValidFtl, hfind, Option.bind_some, show cfg.tpageTotal + 1 = n + 2 by omega]
  exact chooseAgain_fresh hcfg hvbat h

omit hfind hvbat in
/-- A stored page with the next number is the current one. -/
theorem current_stored {m : Memory} {next : Nat} {bs : List UInt8} {w : UInt32} (hnext : next < cfg.tpageTotal)
    (hlen : bs.length = eftlPageSize) (hnum : numbered bs = some w) (hsum : checksumOk bs)
    (hothers : ∀ j < cfg.tpageTotal, j ≠ next → ∀ w', numbered (page m cfg.addr j) = some w' → w' < w) :
    Current cfg (write m (pageAddr cfg.addr next) bs) next w (valueOf bs) := by
  have hself := @page_write_self cfg next m bs hlen
  constructor
  · exact hnext
  · rw [hself, hnum]
  · rw [hself, hsum]
  · rw [hself]
  · intro j hj hne w' hj'
    rw [page_write_ne hcfg.located hnext hj hne m hlen] at hj'
    have hlt := hothers j hj hne w' hj'
    exact ⟨UInt32.le_of_lt hlt, fun heq => absurd (heq ▸ hlt) (UInt32.lt_irrefl w)⟩

omit hcfg hfind in
/-- A write that has a page to store returns with the page stored. -/
theorem xyFtlWrite_store {m m' : Memory} {offset next : Nat} {data bs : List UInt8}
    (hoff : ¬ (c.offtime ∧ cfg.addr = nvFlashNetBase)) (hfit : offset + data.length ≤ xyFtlAvailableSize)
    (hplan : planWrite c cfg.addr offset data true m = some (m', some (next, bs)))
    (haddr : inFlash (pageAddr cfg.addr next)) (hlen : bs.length = eftlPageSize) (hmagic : word bs 0 = eftlMagicNum) :
    xyFtlWrite c cfg.addr offset data data.length false m = some (xyOk, write m' (pageAddr cfg.addr next) bs) := by
  have hguard : ¬ (c.offtime && cfg.addr == nvFlashNetBase) = true := by
    rw [Bool.and_eq_true, beq_iff_eq]
    exact hoff
  have hwrite : xyFlashWrite c.env (pageAddr cfg.addr next) bs m' =
      some (xyOk, write m' (pageAddr cfg.addr next) bs) := by
    rw [xyFlashWrite, if_pos haddr, if_neg (by rw [hvbat]; exact Bool.false_ne_true)]
  have hload : loadWord (write m' (pageAddr cfg.addr next) bs) (pageAddr cfg.addr next) = eftlMagicNum := by
    have hword := loadWord_eq (write m' (pageAddr cfg.addr next) bs) (pageAddr cfg.addr next)
      (show 0 + 4 ≤ eftlPageSize by decide)
    have hself := @page_write_self cfg next m' bs hlen
    rw [show UInt32.ofNat 0 = 0 from rfl, UInt32.add_zero] at hword
    rw [hword, ← page, hself, hmagic]
  rw [xyFtlWrite, if_neg hguard, if_pos hfit]
  simp only [Bool.false_eq_true, if_false, List.take_length, Bool.not_false, hplan, Option.bind_some, hwrite,
    ne_eq, not_true_eq_false, hload, if_true]

omit hcfg hfind hvbat in
theorem xyFtlWrite_same {m m' : Memory} {offset : Nat} {data : List UInt8}
    (hoff : ¬ (c.offtime ∧ cfg.addr = nvFlashNetBase)) (hfit : offset + data.length ≤ xyFtlAvailableSize)
    (hplan : planWrite c cfg.addr offset data true m = some (m', none)) :
    xyFtlWrite c cfg.addr offset data data.length false m = some (xyOk, m') := by
  have hguard : ¬ (c.offtime && cfg.addr == nvFlashNetBase) = true := by
    rw [Bool.and_eq_true, beq_iff_eq]
    exact hoff
  rw [xyFtlWrite, if_neg hguard, if_pos hfit]
  simp only [Bool.false_eq_true, if_false, List.take_length, Bool.not_false, hplan, Option.bind_some]

omit hfind hvbat in
theorem next_ne {cur : Nat} (hcur : cur < cfg.tpageTotal) :
    (cur + 1) % cfg.tpageTotal < cfg.tpageTotal ∧ cur ≠ (cur + 1) % cfg.tpageTotal := by
  have htwo := hcfg.two_le
  refine ⟨Nat.mod_lt _ (by omega), ?_⟩
  by_cases hlast : cur + 1 = cfg.tpageTotal
  · rw [hlast, Nat.mod_self]
    omega
  · rw [Nat.mod_eq_of_lt (by omega)]
    omega

omit hcfg in
theorem planWrite_current {m : Memory} {cur offset : Nat} {w : UInt32} {value data : List UInt8}
    (hcfg : Region cfg) (h : Current cfg m cur w value) (hfit : offset + data.length ≤ xyFtlAvailableSize) :
    ∃ m', Current cfg m' cur w value ∧ planWrite c cfg.addr offset data true m =
      some (m', if (value.drop offset).take data.length = data then none
        else some ((cur + 1) % cfg.tpageTotal, newPage (page m' cfg.addr cur) offset data)) := by
  obtain ⟨m', hchoose, hcur⟩ := choose_current hcfg hfind hvbat h
  refine ⟨m', hcur, ?_⟩
  have hwindow := valueOf_window (page m' cfg.addr cur) hfit
  rw [hcur.holds] at hwindow
  rw [planWrite, hchoose, Option.map_some, hwindow]
  dsimp only
  split <;> rfl

theorem planWrite_fresh {m : Memory} {offset : Nat} {first data : List UInt8} (h : Fresh cfg m first) :
    ∃ m', (∀ j < cfg.tpageTotal, numbered (page m' cfg.addr j) = none) ∧ firstPage cfg.addr m' = first ∧
      planWrite c cfg.addr offset data true m = some (m', some (0, newPage first offset data)) := by
  obtain ⟨m', hchoose, hnone, hfirst⟩ := choose_fresh hcfg hfind hvbat h
  refine ⟨m', hnone, hfirst, ?_⟩
  rw [planWrite, hchoose, Option.map_some, hfirst]

end Store

section Steps

variable {c : Config} {cfg : XyEftlCfg} {first : List UInt8}

theorem firstPage_length (base : UInt32) (m : Memory) : (firstPage base m).length = eftlPageSize := by
  unfold firstPage
  split
  · exact read_length _ _ _
  · exact List.length_replicate

theorem numbered_newPage {bs data : List UInt8} {offset : Nat} {w : UInt32} (hbs : bs.length = eftlPageSize)
    (hfit : offset + data.length ≤ xyFtlAvailableSize)
    (hw : (if word bs eftlWriteNumOffset = 0xFFFFFFFF then 0 else word bs eftlWriteNumOffset) + 1 = w)
    (hlast : w ≠ 0xFFFFFFFF) (hzero : w ≠ 0) : numbered (newPage bs offset data) = some w := by
  have hnum := newPage_number hbs hfit
  rw [hw] at hnum
  rw [numbered, hnum, if_pos ⟨newPage_magic hbs hfit, hlast, hzero⟩]

theorem lt_add_one {w : UInt32} (h : w ≠ 0xFFFFFFFF) : w < w + 1 := by
  have hlt := w.toNat_lt
  have hmax : w.toNat ≠ 0xFFFFFFFF := fun heq => h (UInt32.toNat_inj.mp heq)
  rw [UInt32.lt_iff_toNat_lt, UInt32.toNat_add, UInt32.toNat_one]
  omega

/-- The page after the current one, stored with the next number, takes over. -/
theorem Current.advance (hcfg : Region cfg) {m : Memory} {cur offset : Nat} {w : UInt32} {value data : List UInt8}
    (h : Current cfg m cur w value) (hfit : offset + data.length ≤ xyFtlAvailableSize)
    (hleft : w ≠ 0xFFFFFFFE) :
    Current cfg (write m (pageAddr cfg.addr ((cur + 1) % cfg.tpageTotal))
      (newPage (page m cfg.addr cur) offset data)) ((cur + 1) % cfg.tpageTotal) (w + 1)
      (splice value offset data) := by
  obtain ⟨-, hword, hlast, hzero⟩ := numbered_eq_some h.number
  have hlen : (page m cfg.addr cur).length = eftlPageSize := read_length _ _ _
  have hnum := @numbered_newPage (page m cfg.addr cur) data offset (w + 1) hlen hfit
    (by rw [hword, if_neg hlast]) (by grind) (by grind)
  rw [← h.holds, ← valueOf_newPage hlen hfit]
  apply current_stored hcfg (next_ne hcfg h.lt).1 (newPage_length hlen hfit) hnum (newPage_checksumOk hlen hfit)
  intro j hj hne w' hj'
  by_cases hjcur : j = cur
  · rw [hjcur, h.number] at hj'
    cases hj'
    exact lt_add_one hlast
  · exact UInt32.lt_of_le_of_lt (h.others j hj hjcur w' hj').1 (lt_add_one hlast)

/-- A torn page that fails a test and has no larger number leaves the current page. -/
theorem Current.torn (hcfg : Region cfg) {m : Memory} {cur next : Nat} {w : UInt32} {value bs : List UInt8}
    (h : Current cfg m cur w value) (hnext : next < cfg.tpageTotal) (hne : cur ≠ next)
    (hlen : bs.length = eftlPageSize) (hbad : ¬ valid bs) (hsmall : ∀ w', numbered bs = some w' → w' ≤ w) :
    Current cfg (write m (pageAddr cfg.addr next) bs) cur w value := by
  have hcur := page_write_ne hcfg.located hnext h.lt hne m hlen
  constructor
  · exact h.lt
  · rw [hcur, h.number]
  · rw [hcur, h.checksum]
  · rw [hcur, h.holds]
  · intro j hj hjcur w' hnum
    by_cases hjn : j = next
    · rw [hjn, @page_write_self cfg next m bs hlen] at hnum ⊢
      refine ⟨hsmall w' hnum, fun _ hsum => hbad ?_⟩
      rw [valid, hnum, hsum]
      rfl
    · rw [page_write_ne hcfg.located hnext hj hjn m hlen] at hnum ⊢
      exact h.others j hj hjcur w' hnum

theorem Current.le_of_valid {m : Memory} {cur i : Nat} {w w' : UInt32} {value : List UInt8}
    (h : Current cfg m cur w value) (hi : i < cfg.tpageTotal) (hnum : numbered (page m cfg.addr i) = some w') :
    w' ≤ w := by
  by_cases hcur : i = cur
  · rw [hcur, h.number] at hnum
    cases hnum
    exact UInt32.le_refl w
  · exact (h.others i hi hcur w' hnum).1

variable (hcfg : Region cfg) (hfind : findValidFtlCfg c.userNvCfgs cfg.addr = some cfg)
  (hvbat : c.env.lowVbat = false) (hoff : ¬ (c.offtime ∧ cfg.addr = nvFlashNetBase))
include hcfg hfind hvbat hoff

/-- The first write stores page 0. -/
theorem Fresh.write {m : Memory} {offset : Nat} {data : List UInt8} (h : Fresh cfg m first)
    (hfit : offset + data.length ≤ xyFtlAvailableSize) {w : UInt32}
    (hw : (if word first eftlWriteNumOffset = 0xFFFFFFFF then 0 else word first eftlWriteNumOffset) + 1 = w) :
    ∃ m', xyFtlWrite c cfg.addr offset data data.length false m = some (xyOk, m') ∧
      (w ≠ 0xFFFFFFFF → Current cfg m' 0 w (splice (valueOf first) offset data)) := by
  obtain ⟨m', hnone, hfirst, hplan⟩ := @planWrite_fresh c cfg hcfg hfind hvbat m offset first data h
  have hzero : 0 < cfg.tpageTotal := Nat.lt_of_lt_of_le (by decide) hcfg.two_le
  have hlen : first.length = eftlPageSize := by rw [← hfirst, firstPage_length]
  refine ⟨_, xyFtlWrite_store hvbat hoff hfit hplan (inFlash_pageAddr hcfg.located hzero) (newPage_length hlen hfit)
    (newPage_magic hlen hfit), ?_⟩
  intro hlast
  rw [← valueOf_newPage hlen hfit]
  apply current_stored hcfg hzero (newPage_length hlen hfit) (numbered_newPage hlen hfit hw hlast ?_)
    (newPage_checksumOk hlen hfit)
  · intro j hj _ w' hnum
    rw [hnone j hj] at hnum
    cases hnum
  · rw [← hw]
    split <;> grind

/-- A later write finds its data in place or stores the page after the current one. -/
theorem Current.write {m : Memory} {cur offset : Nat} {w : UInt32} {value data : List UInt8}
    (h : Current cfg m cur w value) (hfit : offset + data.length ≤ xyFtlAvailableSize) :
    ∃ m', xyFtlWrite c cfg.addr offset data data.length false m = some (xyOk, m') ∧
      ((value.drop offset).take data.length = data ∨ w ≠ 0xFFFFFFFE →
        ∃ cur' w', Current cfg m' cur' w' (splice value offset data)) := by
  obtain ⟨m', hcur, hplan⟩ := planWrite_current hfind hvbat hcfg h hfit
  by_cases hsame : (value.drop offset).take data.length = data
  · rw [if_pos hsame] at hplan
    refine ⟨m', xyFtlWrite_same hoff hfit hplan, fun _ => ⟨cur, w, ?_⟩⟩
    rw [splice_same hsame]
    exact hcur
  · rw [if_neg hsame] at hplan
    have hlen : (page m' cfg.addr cur).length = eftlPageSize := read_length _ _ _
    refine ⟨_, xyFtlWrite_store hvbat hoff hfit hplan (inFlash_pageAddr hcfg.located (next_ne hcfg h.lt).1)
      (newPage_length hlen hfit) (newPage_magic hlen hfit), ?_⟩
    intro hleft
    exact ⟨_, w + 1, hcur.advance hcfg hfit (hleft.resolve_left hsame)⟩

theorem inv_write {s s' : Sys} {offset : Nat} {data : List UInt8} (h : Inv cfg first s)
    (hok : Harmless cfg first (.write offset data) s) (hstep : step c cfg (.write offset data) s = some s') :
    Inv cfg first s' := by
  have hguard : ¬ (c.offtime && cfg.addr == nvFlashNetBase) = true := by
    rw [Bool.and_eq_true, beq_iff_eq]
    exact hoff
  obtain ⟨r, hr, rfl⟩ := Option.map_eq_some_iff.mp hstep
  have hfit : offset + data.length ≤ xyFtlAvailableSize := by
    by_cases hfit : offset + data.length ≤ xyFtlAvailableSize
    · exact hfit
    · rw [xyFtlWrite, if_neg hguard, if_neg hfit] at hr
      cases hr
  have hne : s.completed ++ [(offset, data)] ≠ [] := List.append_ne_nil_of_right_ne_nil _ (List.cons_ne_nil _ _)
  rcases h with ⟨hempty, hfresh⟩ | ⟨hsome, cur, w, hcur⟩
  · have hleft : word first eftlWriteNumOffset ≠ 0xFFFFFFFE := by
      rcases hok with hplace | hleft
      · exact absurd hempty hplace.1
      · exact hleft.2 hempty
    obtain ⟨w, hw⟩ : ∃ w, (if word first eftlWriteNumOffset = 0xFFFFFFFF then 0
      else word first eftlWriteNumOffset) + 1 = w := ⟨_, rfl⟩
    obtain ⟨m', hwrite, hcur⟩ := hfresh.write hcfg hfind hvbat hoff hfit hw
    rw [hwrite] at hr
    cases hr
    rw [if_pos rfl]
    refine Or.inr ⟨hne, 0, w, ?_⟩
    rw [overlay_append, hempty]
    apply hcur
    rw [← hw]
    split <;> grind
  · obtain ⟨m', hwrite, hnext⟩ := hcur.write hcfg hfind hvbat hoff hfit
    rw [hwrite] at hr
    cases hr
    rw [if_pos rfl]
    obtain ⟨cur', w', hcur'⟩ := hnext (by
      rcases hok with hplace | hleft
      · exact Or.inl hplace.2
      · refine Or.inr fun hw => hleft.1 cur hcur.lt ?_ ?_
        · rw [valid, hcur.number, hcur.checksum]
          rfl
        · rw [hcur.number, hw])
    refine Or.inr ⟨hne, cur', w', ?_⟩
    rw [overlay_append]
    exact hcur'

omit hoff in
theorem inv_cut {s s' : Sys} {offset : Nat} {data torn : List UInt8} (h : Inv cfg first s)
    (hok : Harmless cfg first (.cut offset data torn) s)
    (hstep : step c cfg (.cut offset data torn) s = some s') : Inv cfg first s' := by
  rw [step] at hstep
  split at hstep
  next hcut =>
    obtain ⟨hlen, hbad, hfit⟩ := hcut
    obtain ⟨plan, hplan, hstep⟩ := Option.bind_eq_some_iff.mp hstep
    obtain ⟨target, htarget, rfl⟩ := Option.map_eq_some_iff.mp hstep
    rcases h with ⟨hempty, hfresh⟩ | ⟨hsome, cur, w, hcur⟩
    · obtain ⟨m', hnone, hfirst, hplan'⟩ := @planWrite_fresh c cfg hcfg hfind hvbat s.flash offset first data hfresh
      have hzero : 0 < cfg.tpageTotal := Nat.lt_of_lt_of_le (by decide) hcfg.two_le
      rw [hplan'] at hplan
      cases hplan
      cases htarget
      refine Or.inl ⟨hempty, ?_, ?_, ?_⟩
      · intro j hj hj0
        rw [page_write_ne hcfg.located hzero hj hj0 _ hlen, hnone j hj]
      · intro w hw
        rw [@page_write_self cfg 0 m' torn hlen] at hw ⊢
        intro hsum
        apply hbad
        rw [valid, hw, hsum]
        rfl
      · rw [firstPage_write hcfg hzero _ hlen, hfirst]
    · obtain ⟨m', hcur', hplan'⟩ := planWrite_current hfind hvbat hcfg hcur hfit
      rw [hplan'] at hplan
      cases hplan
      dsimp only at htarget
      split at htarget
      · cases htarget
      · cases htarget
        have hnext := next_ne hcfg hcur.lt
        refine Or.inr ⟨hsome, cur, w, hcur'.torn hcfg hnext.1 hnext.2 hlen hbad ?_⟩
        intro w' hw'
        obtain ⟨i, hi, wi, -, hnum, hle⟩ := hok hsome w' hw'
        exact UInt32.le_trans hle (hcur.le_of_valid hi hnum)
  next => cases hstep

omit hfind hvbat in
/-- The region and the offset are taken back from the address of a read. -/
theorem read_address {offset size : Nat} (hfit : offset + size ≤ xyFtlAvailableSize) :
    ((cfg.addr + UInt32.ofNat offset) &&& 0xfff).toNat = offset ∧
      (cfg.addr + UInt32.ofNat offset) - ((cfg.addr + UInt32.ofNat offset) &&& 0xfff) = cfg.addr ∧
      ¬ (c.offtime && nvFlashNetBase ≤ cfg.addr + UInt32.ofNat offset &&
        cfg.addr + UInt32.ofNat offset < nvFlashNetBase + UInt32.ofNat xyFtlAvailableSize) = true ∧
      (cfg.addr + UInt32.ofNat offset).toNat + size ≤ cfg.addr.toNat + eftlCsmOffset := by
  have haligned := hcfg.aligned
  have hend := hcfg.end_le
  have htop : (flashBase + flashLength).toNat = 0x27200000 := rfl
  have hnet : nvFlashNetBase.toNat = 0x2700F000 := rfl
  have hnetEnd : (nvFlashNetBase + UInt32.ofNat xyFtlAvailableSize).toNat = 0x2700FFEC := rfl
  unfold xyFtlAvailableSize sectorLength eftlCsmOffset at *
  have haddr : (cfg.addr + UInt32.ofNat offset).toNat = cfg.addr.toNat + offset := by
    rw [UInt32.toNat_add, toNat_ofNat_of_lt (by omega)]
    omega
  have hoffset : ((cfg.addr + UInt32.ofNat offset) &&& 0xfff).toNat = offset := by
    rw [toNat_and_fff, haddr]
    omega
  refine ⟨hoffset, ?_, ?_, by omega⟩
  · apply UInt32.toNat_inj.mp
    rw [toNat_sub_of_le (by omega), hoffset, haddr]
    omega
  · intro hin
    rw [Bool.and_eq_true, Bool.and_eq_true, decide_eq_true_eq, decide_eq_true_eq, UInt32.le_iff_toNat_le,
      UInt32.lt_iff_toNat_lt, hnet, hnetEnd, haddr] at hin
    apply hoff
    refine ⟨hin.1.1, UInt32.toNat_inj.mp ?_⟩
    rw [hnet]
    omega

theorem read_current {m : Memory} {cur offset size : Nat} {w : UInt32} {value : List UInt8}
    (h : Current cfg m cur w value) (hfit : offset + size ≤ xyFtlAvailableSize) :
    ∃ r, xyFtlRead c (cfg.addr + UInt32.ofNat offset) size m = some r ∧ r.ret = xyOk ∧
      readValue r (cfg.addr + UInt32.ofNat offset) size = some ((value.drop offset).take size) ∧
      Current cfg r.flash cur w value := by
  obtain ⟨hoffset, halign, hguard, hassert⟩ := read_address hcfg hoff hfit
  obtain ⟨m', hchoose, hcur⟩ := choose_current hcfg hfind hvbat h
  have hsize : size ≤ xyFtlAvailableSize := by omega
  rw [xyFtlRead, if_neg hguard, halign, if_pos ⟨hsize, hassert⟩, hchoose, Option.map_some]
  dsimp only
  by_cases hwhole : readsWholePage (cfg.addr + UInt32.ofNat offset) size
  · have hall : size = xyFtlAvailableSize := by
      rw [readsWholePage, Bool.and_eq_true] at hwhole
      exact beq_iff_eq.mp hwhole.2
    have hzero : offset = 0 := by omega
    rw [if_pos hwhole]
    refine ⟨_, rfl, rfl, ?_, hcur⟩
    rw [readValue, Option.map_some, if_pos hwhole, hcur.holds, hzero, List.drop_zero, hall, List.take_of_length_le]
    rw [← hcur.holds, valueOf, List.length_take]
    exact Nat.min_le_left _ _
  · rw [if_neg hwhole]
    refine ⟨_, rfl, rfl, ?_, hcur⟩
    rw [readValue, Option.map_some, if_neg hwhole, hoffset, ← valueOf_window _ hfit, hcur.holds]

theorem read_fresh {m : Memory} {offset size : Nat} (h : Fresh cfg m first)
    (hfit : offset + size ≤ xyFtlAvailableSize) {r : ReadResult}
    (hr : xyFtlRead c (cfg.addr + UInt32.ofNat offset) size m = some r) : Fresh cfg r.flash first := by
  obtain ⟨-, halign, hguard, hassert⟩ := read_address hcfg hoff hfit
  obtain ⟨m', hchoose, hnone, hfirst⟩ := choose_fresh hcfg hfind hvbat h
  have hsize : size ≤ xyFtlAvailableSize := by omega
  have hzero : 0 < cfg.tpageTotal := Nat.lt_of_lt_of_le (by decide) hcfg.two_le
  have hafter : Fresh cfg m' first := by
    refine ⟨fun j hj _ => hnone j hj, fun w hw => ?_, hfirst⟩
    rw [hnone 0 hzero] at hw
    cases hw
  rw [xyFtlRead, if_neg hguard, halign, if_pos ⟨hsize, hassert⟩, hchoose, Option.map_some] at hr
  dsimp only at hr
  split at hr <;> cases hr <;> exact hafter

omit hoff in
/-- A torn page with a number above the current one is erased, and the retry, which keeps
that number as the largest so far, finds no page. -/
theorem choose_lost {m : Memory} {cur next : Nat} {w w' : UInt32} {value bs : List UInt8}
    (h : Current cfg m cur w value) (hnext : next < cfg.tpageTotal) (hlen : bs.length = eftlPageSize)
    (hnum : numbered bs = some w') (hbad : ¬ checksumOk bs) (hlarger : w < w') :
    ∃ m', xyChooseValidFtl c cfg.addr true (FlashMemory.write m (pageAddr cfg.addr next) bs) =
      some ⟨m', none, 0⟩ := by
  have hself := @page_write_self cfg next m bs hlen
  have hsmaller : ∀ j < cfg.tpageTotal, j ≠ next → ∀ v,
      numbered (page (FlashMemory.write m (pageAddr cfg.addr next) bs) cfg.addr j) = some v → v < w' := by
    intro j hj hne v hv
    rw [page_write_ne hcfg.located hnext hj hne m hlen] at hv
    exact UInt32.lt_of_le_of_lt (h.le_of_valid hj hv) hlarger
  obtain ⟨n, hn⟩ : ∃ n, cfg.tpageTotal = n + 1 := ⟨cfg.tpageTotal - 1, by have := hcfg.two_le; omega⟩
  refine ⟨eraseSector (FlashMemory.write m (pageAddr cfg.addr next) bs) (pageAddr cfg.addr next), ?_⟩
  rw [xyChooseValidFtl, hfind, Option.bind_some, show cfg.tpageTotal + 1 = n + 2 by omega]
  have hfirst := scanned (FlashMemory.write m (pageAddr cfg.addr next) bs) cfg.addr 0 cfg.tpageTotal
  cases hfound : (scanPages (FlashMemory.write m (pageAddr cfg.addr next) bs) cfg.addr cfg.tpageTotal 0).2 with
  | none =>
    have hsmall := (hfirst.none_found hfound).2 next hnext w' (by rw [hself, hnum])
    exact absurd hsmall (UInt32.not_lt.mpr UInt32.zero_le)
  | some p =>
    obtain ⟨hp, hpnum, -, hall, -⟩ := hfirst.found p hfound
    have hge := hall next hnext w' (by rw [hself, hnum])
    have hpn : p = next := by
      by_cases hpn : p = next
      · exact hpn
      · exact absurd (hsmaller p hp hpn _ hpnum) (UInt32.not_lt.mpr hge)
    subst hpn
    rw [hself, hnum] at hpnum
    have hscan : scanPages (FlashMemory.write m (pageAddr cfg.addr p) bs) cfg.addr cfg.tpageTotal 0 = (w', some p) :=
      Prod.ext (Option.some.inj hpnum).symm hfound
    rw [chooseAgain_torn hcfg hvbat hp hscan (by rw [hself]; exact hbad)]
    have hsecond := scanned (eraseSector (FlashMemory.write m (pageAddr cfg.addr p) bs) (pageAddr cfg.addr p)) cfg.addr w' cfg.tpageTotal
    cases hagain : (scanPages (eraseSector (FlashMemory.write m (pageAddr cfg.addr p) bs) (pageAddr cfg.addr p))
        cfg.addr cfg.tpageTotal w').2 with
    | none =>
      have hscan' : scanPages (eraseSector (FlashMemory.write m (pageAddr cfg.addr p) bs) (pageAddr cfg.addr p))
          cfg.addr cfg.tpageTotal w' = ((scanPages (eraseSector (FlashMemory.write m (pageAddr cfg.addr p) bs)
            (pageAddr cfg.addr p)) cfg.addr cfg.tpageTotal w').1, none) := Prod.ext rfl hagain
      rw [chooseAgain, hscan']
    | some q =>
      obtain ⟨hq, hqnum, hmax, -, -⟩ := hsecond.found q hagain
      by_cases hqp : q = p
      · rw [hqp, numbered_erased hcfg.located hp] at hqnum
        cases hqnum
      · rw [page_erase_ne hcfg.located hp hq hqp] at hqnum
        exact absurd (hsmaller q hq hqp _ hqnum) (UInt32.not_lt.mpr hmax)

/-- A read after such a cut fails, whatever was written before. -/
theorem read_lost {m : Memory} {cur next offset size : Nat} {w w' : UInt32} {value bs : List UInt8}
    (hbase : cfg.addr ≠ nvFlashFactoryBase) (h : Current cfg m cur w value) (hnext : next < cfg.tpageTotal)
    (hlen : bs.length = eftlPageSize) (hnum : numbered bs = some w') (hbad : ¬ checksumOk bs) (hlarger : w < w')
    (hfit : offset + size ≤ xyFtlAvailableSize) :
    ∃ r, xyFtlRead c (cfg.addr + UInt32.ofNat offset) size
      (FlashMemory.write m (pageAddr cfg.addr next) bs) = some r ∧ r.ret = xyErr := by
  obtain ⟨-, halign, hguard, hassert⟩ := read_address hcfg hoff hfit
  obtain ⟨m', hchoose⟩ := choose_lost hcfg hfind hvbat h hnext hlen hnum hbad hlarger
  have hsize : size ≤ xyFtlAvailableSize := by omega
  rw [xyFtlRead, if_neg hguard, halign, if_pos ⟨hsize, hassert⟩, hchoose, Option.map_some]
  dsimp only
  rw [if_neg hbase]
  exact ⟨_, rfl, rfl⟩

theorem inv_step {s s' : Sys} (e : Event) (h : Inv cfg first s) (hok : Harmless cfg first e s)
    (hstep : step c cfg e s = some s') : Inv cfg first s' := by
  cases e with
  | write offset data => exact inv_write hcfg hfind hvbat hoff h hok hstep
  | cut offset data torn => exact inv_cut hcfg hfind hvbat h hok hstep
  | read offset size =>
    rw [step] at hstep
    split at hstep
    next hfit =>
      obtain ⟨r, hr, rfl⟩ := Option.map_eq_some_iff.mp hstep
      rcases h with ⟨hempty, hfresh⟩ | ⟨hsome, cur, w, hcur⟩
      · exact Or.inl ⟨hempty, read_fresh hcfg hfind hvbat hoff hfresh hfit hr⟩
      · obtain ⟨r', hr', -, -, hcur'⟩ := read_current hcfg hfind hvbat hoff hcur hfit
        rw [hr] at hr'
        cases hr'
        exact Or.inr ⟨hsome, cur, w, hcur'⟩
    next => cases hstep
  | reboot =>
    cases hstep
    exact h

theorem survives_of_inv {s : Sys} (h : Inv cfg first s) : Survives c cfg first s := by
  constructor
  · intro hsome offset size hfit
    rcases h with ⟨hempty, -⟩ | ⟨-, cur, w, hcur⟩
    · exact absurd hempty hsome
    · obtain ⟨r, hr, hret, hvalue, -⟩ := read_current hcfg hfind hvbat hoff hcur hfit
      exact ⟨r, hr, hret, hvalue⟩
  · intro offset data hfit
    rcases h with ⟨-, hfresh⟩ | ⟨-, cur, w, hcur⟩
    · obtain ⟨m', hwrite, -⟩ := hfresh.write hcfg hfind hvbat hoff hfit rfl
      exact ⟨m', hwrite⟩
    · obtain ⟨m', hwrite, -⟩ := hcur.write hcfg hfind hvbat hoff hfit
      exact ⟨m', hwrite⟩

end Steps

theorem fresh_start {cfg : XyEftlCfg} (hcfg : Region cfg) {m : Memory}
    (hnone : ∀ i < cfg.tpageTotal, numbered (page m cfg.addr i) = none) :
    Inv cfg (firstPage cfg.addr m) ⟨m, []⟩ := by
  have hzero : 0 < cfg.tpageTotal := Nat.lt_of_lt_of_le (by decide) hcfg.two_le
  refine Or.inl ⟨rfl, fun j hj _ => hnone j hj, fun w hw => ?_, rfl⟩
  rw [hnone 0 hzero] at hw
  cases hw

/-- In every run from a region without a stored page whose calls and interruptions meet the
condition, the store survives in every state. -/
theorem survives_power_loss (c : Config) (cfg : XyEftlCfg) (m : Memory) (events : List Event)
    (hcfg : Region cfg) (hfind : findValidFtlCfg c.userNvCfgs cfg.addr = some cfg)
    (hvbat : c.env.lowVbat = false) (hoff : ¬ (c.offtime ∧ cfg.addr = nvFlashNetBase))
    (hnone : ∀ i < cfg.tpageTotal, numbered (page m cfg.addr i) = none)
    (hok : Along (step c cfg) (Harmless cfg (firstPage cfg.addr m)) events ⟨m, []⟩) :
    Always (step c cfg) (Survives c cfg (firstPage cfg.addr m)) events ⟨m, []⟩ := by
  have hinv : Always (step c cfg) (Inv cfg (firstPage cfg.addr m)) events ⟨m, []⟩ :=
    always_of_along (fun e s s' => inv_step hcfg hfind hvbat hoff e) (fresh_start hcfg hnone) hok
  intro n t hrun
  exact survives_of_inv hcfg hfind hvbat hoff (hinv n t hrun)

section Example

def userConfig : Config := ⟨[userCfg], false, id, ⟨true, false⟩⟩

def erasedFlash : Memory := fun _ => 0xFF

theorem find_userCfg : findValidFtlCfg userConfig.userNvCfgs userCfg.addr = some userCfg := by
  simp [findValidFtlCfg, userConfig]

theorem numbered_erasedFlash (i : Nat) (hi : i < userCfg.tpageTotal) :
    numbered (page erasedFlash userCfg.addr i) = none := by
  have hsame : eraseSector erasedFlash (pageAddr userCfg.addr i) = erasedFlash := by
    funext x
    unfold eraseSector erasedFlash
    split <;> rfl
  have herased := numbered_erased region_userCfg.located hi erasedFlash
  rwa [hsame] at herased

end Example

/-- A write, a cut that leaves an erased page, a reboot and a read. -/
theorem survives_power_loss_erased :
    Always (step userConfig userCfg) (Survives userConfig userCfg (firstPage userCfg.addr erasedFlash))
      [.write 0 [1, 2], .cut 1 [3] (List.replicate 4096 0xFF), .reboot, .read 0 2] ⟨erasedFlash, []⟩ := by
  apply survives_power_loss userConfig userCfg erasedFlash _ region_userCfg find_userCfg rfl (by decide)
    numbered_erasedFlash
  refine ⟨Or.inr ⟨?_, ?_⟩, fun s _ => ⟨?_, fun s' _ => ⟨trivial, fun s'' _ => ⟨trivial, fun _ _ => trivial⟩⟩⟩⟩
  · intro i hi hvalid
    rw [valid, numbered_erasedFlash i hi] at hvalid
    cases hvalid
  · intro _
    decide +kernel
  · intro _ w hw
    have hnone : numbered (List.replicate 4096 0xFF) = none := by decide +kernel
    rw [hnone] at hw
    cases hw

/-- A page whose magic word and number 7 were programmed but not its checksum. -/
def tornPage : List UInt8 :=
  setWord (setWord (List.replicate eftlPageSize 0) 0 eftlMagicNum) eftlWriteNumOffset 7

/-- One write has completed. A cut that leaves a page with a larger number and a wrong
checksum makes the next read fail. -/
theorem not_survives_larger_number :
    ¬ ∀ (c : Config) (cfg : XyEftlCfg) (m : Memory) (events : List Event), Region cfg →
      findValidFtlCfg c.userNvCfgs cfg.addr = some cfg → c.env.lowVbat = false →
      ¬ (c.offtime ∧ cfg.addr = nvFlashNetBase) → (∀ i < cfg.tpageTotal, numbered (page m cfg.addr i) = none) →
      Always (step c cfg) (Survives c cfg (firstPage cfg.addr m)) events ⟨m, []⟩ := by
  intro h
  have hoff : ¬ (userConfig.offtime ∧ userCfg.addr = nvFlashNetBase) := by decide
  have hall := h userConfig userCfg erasedFlash [.write 0 [1], .cut 0 [2] tornPage] region_userCfg find_userCfg rfl
    hoff numbered_erasedFlash
  rcases fresh_start region_userCfg numbered_erasedFlash with ⟨-, hfresh⟩ | ⟨hsome, -⟩
  · obtain ⟨m₁, hwrite, hcur⟩ := hfresh.write region_userCfg find_userCfg rfl hoff
      (show 0 + [(1 : UInt8)].length ≤ xyFtlAvailableSize by decide) (w := 1) (by decide +kernel)
    have hcur₁ := hcur (by decide)
    obtain ⟨m₂, hcur₂, hplan⟩ := planWrite_current find_userCfg rfl region_userCfg hcur₁
      (show 0 + [(2 : UInt8)].length ≤ xyFtlAvailableSize by decide)
    have hdiffers : ¬ ((splice (valueOf (firstPage userCfg.addr erasedFlash)) 0 [1]).drop 0).take
        [(2 : UInt8)].length = [2] := by
      intro heq
      have hhead := congrArg List.head? heq
      rw [List.drop_zero, splice] at hhead
      cases hhead
    rw [if_neg hdiffers] at hplan
    have hlen : tornPage.length = eftlPageSize := by decide +kernel
    have hnum : numbered tornPage = some 7 := by decide +kernel
    have hbad : ¬ checksumOk tornPage := by decide +kernel
    have hinvalid : ¬ valid tornPage := by
      rw [valid, Bool.and_eq_true]
      exact fun hboth => hbad hboth.2
    have hrun : run (step userConfig userCfg) [.write 0 [1], .cut 0 [2] tornPage] ⟨erasedFlash, []⟩ =
        some ⟨FlashMemory.write m₂ (pageAddr userCfg.addr 1) tornPage, [(0, [1])]⟩ := by
      have hfirst : step userConfig userCfg (.write 0 [1]) ⟨erasedFlash, []⟩ = some ⟨m₁, [(0, [1])]⟩ := by
        rw [step, hwrite]
        rfl
      have hsecond : step userConfig userCfg (.cut 0 [2] tornPage) ⟨m₁, [(0, [1])]⟩ =
          some ⟨FlashMemory.write m₂ (pageAddr userCfg.addr 1) tornPage, [(0, [1])]⟩ := by
        rw [step, if_pos ⟨hlen, hinvalid, by decide⟩, hplan]
        rfl
      rw [run_cons, hfirst, Option.bind_some, run_cons, hsecond]
      rfl
    have hreads := (hall 2 _ hrun).reads (List.cons_ne_nil _ _) 0 1 (by decide)
    obtain ⟨r, hr, hok, -⟩ := hreads
    obtain ⟨r', hr', herr⟩ := @read_lost userConfig userCfg region_userCfg find_userCfg rfl hoff m₂ 0 1 0 1 1 7 _
      tornPage (by decide) hcur₂ (by decide) hlen hnum hbad (by decide) (by decide)
    rw [hr] at hr'
    cases hr'
    rw [hok] at herr
    exact absurd herr (by decide)
  · exact hsome rfl

end NbiotXY1100.EftlPowerLoss
