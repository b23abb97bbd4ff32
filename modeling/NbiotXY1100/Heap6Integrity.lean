import NbiotXY1100.Heap6FreeList

/-! # The heap stays whole

The free blocks and the live allocations cover each byte of the regions once. Each operation of
`heap_6.c` keeps this, and the order of the free list. -/
namespace NbiotXY1100.Heap6
open IntervalCover

/-- A live allocation from the bytes skipped before its header. -/
def Block.extent (b : Block) : ℕ × ℕ :=
  (b.addr - getAlignWastedSize b.xBlockSize, getActualBlockSize b.xBlockSize + getAlignWastedSize b.xBlockSize)

/-- Free blocks and live allocations. -/
def Heap.blocks (h : Heap) : List (ℕ × ℕ) := h.freeList.map Block.interval ++ h.usedList.map Block.extent

def freeCover (l : List Block) (x : ℕ) : ℕ := cover (l.map Block.interval) x

def freeSum (l : List Block) : ℕ := (l.map Block.xBlockSize).sum

instance : IsTrans Block Before where
  trans := by
    rintro a b c ⟨hab, hab', -⟩ ⟨hbc, hbc', -⟩
    simp only [Before, Block.limit] at *
    exact ⟨by omega, by omega, fun h => by omega⟩

/-- A free list in order, up to its end marker. `spaces` counts how often the regions cover a byte. -/
structure FreeOk (spaces : ℕ → ℕ) (pxEnd : ℕ) (l : List Block) : Prop where
  chain : l.IsChain Before
  last : ∃ s, l = s ++ [endMarker pxEnd]
  markers : ∀ c ∈ l, c.xBlockSize = 0 → spaces c.addr = 0

/-- No byte is in two regions, and the last end marker is above all of them. -/
structure Spaces (spaces : ℕ → ℕ) (pxEnd : ℕ) : Prop where
  once : ∀ x, spaces x ≤ 1
  below : ∀ x, spaces x ≠ 0 → x < pxEnd

variable {spaces : ℕ → ℕ} {pxEnd : ℕ}

theorem FreeOk.insert {l : List Block} (h : FreeOk spaces pxEnd l) (hspaces : Spaces spaces pxEnd) {b : Block}
    (hsize : 0 < b.xBlockSize) (hroom : ∀ x, inside b.addr b.xBlockSize x + freeCover l x ≤ spaces x) :
    FreeOk spaces pxEnd (prvInsertBlockIntoFreeList pxEnd b l) ∧ Takes b l (prvInsertBlockIntoFreeList pxEnd b l) := by
  have hin : ∀ x, b.addr ≤ x → x < b.limit → spaces x ≠ 0 := by
    intro x hle hlt
    have := hroom x
    rw [inside_eq_one ⟨hle, hlt⟩] at this
    omega
  have hclear : ∀ c ∈ l, Clear b c := by
    intro c hc
    by_cases h0 : c.xBlockSize = 0
    · have hmark := h.markers c hc h0
      by_contra hnot
      simp only [Clear, Block.limit] at hnot
      exact hin c.addr (by omega) (by simp only [Block.limit]; omega) hmark
    · have hone : ∀ x, inside b.addr b.xBlockSize x + cover (l.map Block.interval) x ≤ 1 :=
        fun x => (hroom x).trans (hspaces.once x)
      have hmem : (c.addr, c.xBlockSize) ∈ l.map Block.interval := List.mem_map_of_mem hc
      have := apart_of_cover hmem (Nat.pos_of_ne_zero h0) hsize hone
      simp only [Clear, Block.limit]
      omega
  have hend : b.addr < pxEnd := by
    apply hspaces.below
    apply hin _ (Nat.le_refl _)
    simp only [Block.limit]
    omega
  obtain ⟨s, rfl⟩ := h.last
  obtain ⟨r, heq, hchain, htakes⟩ := prvInsertBlockIntoFreeList_spec h.chain hsize hend hclear
  rw [heq]
  refine ⟨⟨hchain, ⟨r, rfl⟩, fun c hc h0 => ?_⟩, htakes⟩
  exact h.markers c (htakes.markers c hc h0) h0

/-! ### The block that is taken -/

theorem findBlock_some {n : ℕ} {l before after : List Block} {b : Block}
    (h : findBlock n l = some (before, b, after)) : l = before ++ b :: after ∧ (n ≤ b.xBlockSize ∨ after = []) := by
  induction l generalizing before with
  | nil => simp [findBlock] at h
  | cons c l ih =>
    cases l with
    | nil =>
      obtain ⟨rfl, rfl, rfl⟩ : before = [] ∧ b = c ∧ after = [] := by
        simpa [findBlock, eq_comm] using h
      exact ⟨rfl, Or.inr rfl⟩
    | cons d l =>
      rw [findBlock] at h
      by_cases hsmall : c.xBlockSize < n
      · rw [if_pos hsmall] at h
        obtain ⟨⟨before', b', after'⟩, hfound, heq⟩ := Option.map_eq_some_iff.mp h
        cases heq
        obtain ⟨hsplit, hlarge⟩ := ih hfound
        exact ⟨by rw [hsplit, List.cons_append], hlarge⟩
      · rw [if_neg hsmall] at h
        cases h
        exact ⟨rfl, Or.inl (by omega)⟩

theorem FreeOk.remove {before after : List Block} {b : Block} (h : FreeOk spaces pxEnd (before ++ b :: after))
    (hb : b.addr ≠ pxEnd) : FreeOk spaces pxEnd (before ++ after) ∧ after ≠ [] := by
  have hsub : (before ++ after).Sublist (before ++ b :: after) := (List.sublist_cons_self b after).append_left before
  obtain ⟨s, hs⟩ := h.last
  have hafter : after ≠ [] := by
    rintro rfl
    have := congrArg List.getLast? hs
    simp only [List.getLast?_append, List.getLast?_singleton, Option.some_or, Option.some.injEq] at this
    exact hb (by rw [this]; rfl)
  refine ⟨⟨(h.chain.pairwise.sublist hsub).isChain, ?_, fun c hc => h.markers c (hsub.subset hc)⟩, hafter⟩
  have hlast : (before ++ b :: after).getLast? = some (endMarker pxEnd) := by rw [hs]; simp
  rw [List.getLast?_append_of_ne_nil _ (List.cons_ne_nil _ _), List.getLast?_cons_of_ne_nil hafter] at hlast
  apply List.getLast?_eq_some_iff.mp
  rwa [List.getLast?_append_of_ne_nil _ hafter]

/-! ### The packed word -/

theorem getActual_setUsedFlag (w : ℕ) : getActualBlockSize (setUsedFlag w) = getActualBlockSize w := by
  unfold getActualBlockSize setUsedFlag
  omega

theorem getAlignWasted_setUsedFlag (w : ℕ) : getAlignWastedSize (setUsedFlag w) = getAlignWastedSize w := by
  unfold getAlignWastedSize setUsedFlag
  omega

theorem getActual_clearUsedFlag (w : ℕ) : getActualBlockSize (clearUsedFlag w) = getActualBlockSize w := by
  unfold getActualBlockSize clearUsedFlag
  omega

theorem getAlignWasted_clearUsedFlag (w : ℕ) : getAlignWastedSize (clearUsedFlag w) = getAlignWastedSize w := by
  unfold getAlignWastedSize clearUsedFlag
  omega

theorem getActual_set {n : ℕ} (hn : n < 2 ^ 24) (w m : ℕ) :
    getActualBlockSize (setAlignWastedSize (setActualBlockSize w n) m) = n := by
  unfold getActualBlockSize setAlignWastedSize setActualBlockSize
  omega

theorem getAlignWasted_set {m : ℕ} (hm : m < 2 ^ 7) (w : ℕ) : getAlignWastedSize (setAlignWastedSize w m) = m := by
  unfold getAlignWastedSize setAlignWastedSize
  omega

theorem getActual_setAlignWasted (w m : ℕ) : getActualBlockSize (setAlignWastedSize w m) = getActualBlockSize w := by
  unfold getActualBlockSize setAlignWastedSize
  omega

theorem getActual_setActual {n : ℕ} (hn : n < 2 ^ 24) (w : ℕ) : getActualBlockSize (setActualBlockSize w n) = n := by
  unfold getActualBlockSize setActualBlockSize
  omega

theorem getAlignWasted_setActual (w n : ℕ) : getAlignWastedSize (setActualBlockSize w n) = getAlignWastedSize w := by
  unfold getAlignWastedSize setActualBlockSize
  omega

/-! ### Placing a block -/

theorem FreeOk.insert_part {l : List Block} (h : FreeOk spaces pxEnd l) (hspaces : Spaces spaces pxEnd) {a n b m : ℕ}
    (hroom : ∀ x, inside a n x + freeCover l x ≤ spaces x) (hlo : a ≤ b) (hhi : b + m ≤ a + n) (hm : 0 < m) :
    FreeOk spaces pxEnd (prvInsertBlockIntoFreeList pxEnd ⟨b, m⟩ l) ∧
      Takes ⟨b, m⟩ l (prvInsertBlockIntoFreeList pxEnd ⟨b, m⟩ l) := by
  apply h.insert hspaces hm
  intro x
  have hx := hroom x
  have hpart : inside b m x ≤ inside a n x := by
    simp only [inside]
    split_ifs <;> omega
  exact Nat.le_trans (Nat.add_le_add_right hpart _) hx

/-- The placed block and the free list hold the bytes of the free block that was taken out of `l`. -/
structure PlacedOk (spaces : ℕ → ℕ) (pxEnd : ℕ) (b : Block) (l : List Block) (p : Placed) : Prop where
  free : FreeOk spaces pxEnd p.freeList
  cover : ∀ x, inside (p.block.addr - p.uxAlignWasted) (p.xActualBlockSize + p.uxAlignWasted) x + freeCover p.freeList x =
    inside b.addr b.xBlockSize x + freeCover l x
  sum : p.xActualBlockSize + p.uxAlignWasted + freeSum p.freeList = b.xBlockSize + freeSum l
  actual : getActualBlockSize p.block.xBlockSize = p.xActualBlockSize
  wasted : getAlignWastedSize p.block.xBlockSize = p.uxAlignWasted
  wasted_le : p.uxAlignWasted ≤ p.block.addr

theorem alignBlock_ok {l : List Block} {b : Block} {uxAlignmentSize : ℕ} (stale : ℕ) (h : FreeOk spaces pxEnd l)
    (hspaces : Spaces spaces pxEnd) (hroom : ∀ x, inside b.addr b.xBlockSize x + freeCover l x ≤ spaces x)
    (hsize : b.xBlockSize < 2 ^ 24) (hlarge : uxAlignmentSize ≤ b.xBlockSize) :
    PlacedOk spaces pxEnd b l (alignBlock pxEnd uxAlignmentSize stale b l) ∧
      b.xBlockSize < (alignBlock pxEnd uxAlignmentSize stale b l).xActualBlockSize + max uxAlignmentSize 1 := by
  have hactual : getActualBlockSize b.xBlockSize = b.xBlockSize := Nat.mod_eq_of_lt hsize
  rw [alignBlock]
  have hexcess : (b.addr + xHeapStructSize) &&& (uxAlignmentSize - 1) ≤ uxAlignmentSize - 1 := Nat.and_le_right
  generalize (b.addr + xHeapStructSize) &&& (uxAlignmentSize - 1) = excess at hexcess
  by_cases haligned : excess ≠ 0
  · simp only [if_pos haligned, hactual]
    obtain ⟨w, hw⟩ : ∃ w, uxAlignmentSize - excess = w := ⟨_, rfl⟩
    have hfits : b.xBlockSize - w < 2 ^ 24 := by omega
    rw [hw]
    by_cases hbig : w > heapMinimumBlockSize
    · rw [if_pos hbig]
      obtain ⟨hfree, htakes⟩ := h.insert_part hspaces (b := b.addr) (m := w) hroom (Nat.le_refl _) (by omega) (by omega)
      refine ⟨⟨hfree, fun x => ?_, ?_, getActual_set hfits stale 0, getAlignWasted_set (by decide) _, Nat.zero_le _⟩, ?_⟩
      · have hcover := htakes.cover x
        have hsplit := inside_add b.addr w (b.xBlockSize - w) x
        rw [show w + (b.xBlockSize - w) = b.xBlockSize by omega] at hsplit
        simp only [freeCover, Nat.sub_zero, Nat.add_zero] at hcover ⊢
        omega
      · have hsum := htakes.sum
        simp only [freeSum] at hsum ⊢
        omega
      · simp only
        omega
    · rw [if_neg hbig]
      have hsmall : w < 2 ^ 7 := by
        simp only [heapMinimumBlockSize, xHeapStructSize] at hbig
        omega
      refine ⟨⟨h, fun x => ?_, ?_, getActual_set hfits stale w, getAlignWasted_set hsmall _, Nat.le_add_left w _⟩, ?_⟩
      · simp only [Nat.add_sub_cancel, show b.xBlockSize - w + w = b.xBlockSize by omega]
      · simp only
        omega
      · simp only
        omega
  · rw [if_neg haligned]
    refine ⟨⟨h, fun x => ?_, ?_, ?_, getAlignWasted_set (by decide) _, Nat.zero_le _⟩, ?_⟩
    · simp only [Nat.sub_zero, Nat.add_zero, hactual]
    · simp only [Nat.add_zero, hactual]
    · rw [getActual_setAlignWasted]
    · simp only [hactual]
      omega

theorem splitBlock_ok {l : List Block} {b : Block} {p : Placed} {xWantedSize : ℕ} (h : PlacedOk spaces pxEnd b l p)
    (hspaces : Spaces spaces pxEnd) (hroom : ∀ x, inside b.addr b.xBlockSize x + freeCover l x ≤ spaces x)
    (hwanted : xWantedSize < 2 ^ 24) :
    PlacedOk spaces pxEnd b l (splitBlock pxEnd xWantedSize p) := by
  rw [splitBlock]
  by_cases hsplit : p.xActualBlockSize - xWantedSize > heapMinimumBlockSize
  · rw [if_pos hsplit]
    have hle := h.wasted_le
    have hpos : 0 < p.xActualBlockSize - xWantedSize := by omega
    have hroom' : ∀ x, inside (p.block.addr - p.uxAlignWasted) (p.xActualBlockSize + p.uxAlignWasted) x +
        freeCover p.freeList x ≤ spaces x := fun x => (h.cover x).symm ▸ hroom x
    obtain ⟨hfree, htakes⟩ := h.free.insert_part hspaces (b := p.block.addr + xWantedSize)
      (m := p.xActualBlockSize - xWantedSize) hroom' (by omega) (by omega) hpos
    refine ⟨hfree, fun x => ?_, ?_, getActual_setActual hwanted _, ?_, hle⟩
    · have hcover := htakes.cover x
      have hbefore := h.cover x
      have hadd := inside_add (p.block.addr - p.uxAlignWasted) (xWantedSize + p.uxAlignWasted)
        (p.xActualBlockSize - xWantedSize) x
      rw [show xWantedSize + p.uxAlignWasted + (p.xActualBlockSize - xWantedSize) = p.xActualBlockSize + p.uxAlignWasted by omega,
        show p.block.addr - p.uxAlignWasted + (xWantedSize + p.uxAlignWasted) = p.block.addr + xWantedSize by omega] at hadd
      simp only [freeCover] at hcover hbefore ⊢
      omega
    · have hsum := htakes.sum
      have hbefore := h.sum
      simp only [freeSum] at hsum hbefore ⊢
      omega
    · rw [getAlignWasted_setActual]
      exact h.wasted
  · rw [if_neg hsplit]
    exact h

/-! ### What the operations keep -/

/-- The free blocks and the live allocations make up the spaces, of `total` bytes. -/
structure Whole (spaces : ℕ → ℕ) (total : ℕ) (h : Heap) : Prop where
  free : FreeOk spaces h.pxEnd h.freeList
  regions : Spaces spaces h.pxEnd
  tiles : ∀ x, cover h.blocks x = spaces x
  bytes : h.xFreeBytesRemaining = freeSum h.freeList
  live : ∀ b ∈ h.usedList, 0 < getActualBlockSize b.xBlockSize
  total_eq : freeSum h.freeList + (h.usedList.map fun b => b.extent.2).sum = total

theorem usedList_perm (b : Block) (l : List Block) : (prvInsertBlockIntoUsedList b l).Perm (b :: l) := by
  induction l with
  | nil => exact List.Perm.refl _
  | cons c l ih =>
    rw [prvInsertBlockIntoUsedList]
    split_ifs
    · exact (ih.cons c).trans (List.Perm.swap b c l)
    · exact List.Perm.refl _

theorem perm_eraseP {α : Type} {p : α → Bool} {l : List α} {b : α} (h : l.find? p = some b) :
    l.Perm (b :: l.eraseP p) := by
  induction l with
  | nil => cases h
  | cons c l ih =>
    by_cases hc : p c = true
    · rw [List.find?_cons_of_pos hc] at h
      rw [List.eraseP_cons_of_pos hc, Option.some.inj h]
    · rw [List.find?_cons_of_neg hc] at h
      rw [List.eraseP_cons_of_neg hc]
      exact ((ih h).cons c).trans (List.Perm.swap b c _)

theorem wantedSizes_spec {xWantedSize uxAlignmentSize : ℕ} (h : 0 < (wantedSizes xWantedSize uxAlignmentSize).2) :
    (wantedSizes xWantedSize uxAlignmentSize).2 = (wantedSizes xWantedSize uxAlignmentSize).1 + uxAlignmentSize ∧
      0 < (wantedSizes xWantedSize uxAlignmentSize).1 := by
  rw [wantedSizes] at h ⊢
  by_cases hpos : xWantedSize > 0
  · simp only [if_pos hpos]
    exact ⟨trivial, Nat.lt_of_lt_of_le (by decide : 0 < xHeapStructSize) (Nat.le_add_left _ _)⟩
  · rw [if_neg hpos] at h
    exact absurd h (Nat.lt_irrefl 0)

theorem freeCover_middle (before after : List Block) (b : Block) (x : ℕ) :
    freeCover (before ++ b :: after) x = inside b.addr b.xBlockSize x + freeCover (before ++ after) x := by
  simp only [freeCover, List.map_append, List.map_cons, cover_append, cover_cons, Block.interval]
  omega

theorem freeSum_middle (before after : List Block) (b : Block) :
    freeSum (before ++ b :: after) = b.xBlockSize + freeSum (before ++ after) := by
  simp only [freeSum, List.map_append, List.map_cons, List.sum_append, List.sum_cons]
  omega

theorem extent_of_word {addr word size wasted : ℕ} (hactual : getActualBlockSize word = size)
    (hwasted : getAlignWastedSize word = wasted) :
    Block.extent ⟨addr, setUsedFlag word⟩ = (addr - wasted, size + wasted) := by
  rw [Block.extent, getActual_setUsedFlag, getAlignWasted_setUsedFlag, hactual, hwasted]

theorem splitBlock_pos {p : Placed} {xWantedSize : ℕ} (hwanted : 0 < xWantedSize) (h : 0 < p.xActualBlockSize) :
    0 < (splitBlock pxEnd xWantedSize p).xActualBlockSize := by
  rw [splitBlock]
  split_ifs
  · exact hwanted
  · exact h

/-- The heap with a block placed and taken. -/
theorem Whole.take {total : ℕ} {h : Heap} (hwhole : Whole spaces total h) {before after : List Block} {b : Block} {p : Placed}
    (hlist : h.freeList = before ++ b :: after) (hok : PlacedOk spaces h.pxEnd b (before ++ after) p)
    (hpos : 0 < p.xActualBlockSize) (least successes : ℕ) :
    Whole spaces total { h with
      freeList := p.freeList
      usedList := prvInsertBlockIntoUsedList ⟨p.block.addr, setUsedFlag p.block.xBlockSize⟩ h.usedList
      xFreeBytesRemaining := h.xFreeBytesRemaining - (p.xActualBlockSize + p.uxAlignWasted)
      xMinimumEverFreeBytesRemaining := least
      xNumberOfSuccessfulAllocations := successes } := by
  have hextent := @extent_of_word p.block.addr _ _ _ hok.actual hok.wasted
  have hperm := usedList_perm ⟨p.block.addr, setUsedFlag p.block.xBlockSize⟩ h.usedList
  have hsum := freeSum_middle before after b
  rw [← hlist] at hsum
  constructor
  · exact hok.free
  · exact hwhole.regions
  · intro x
    have hbefore := hwhole.tiles x
    have hplaced := hok.cover x
    have hmiddle := freeCover_middle before after b x
    rw [Heap.blocks, cover_append] at hbefore
    rw [← hlist] at hmiddle
    rw [Heap.blocks, cover_append, cover_perm (hperm.map Block.extent), List.map_cons, cover_cons, hextent]
    simp only [freeCover] at hplaced hmiddle ⊢
    omega
  · have hplaced := hok.sum
    have hbytes := hwhole.bytes
    simp only
    omega
  · intro c hc
    obtain rfl | hc := List.mem_cons.mp (hperm.mem_iff.mp hc)
    · rw [getActual_setUsedFlag, hok.actual]
      exact hpos
    · exact hwhole.live c hc
  · have hplaced := hok.sum
    have htotal := hwhole.total_eq
    rw [(hperm.map fun b => b.extent.2).sum_nat, List.map_cons, List.sum_cons, hextent]
    simp only
    omega

theorem Whole.malloc {total : ℕ} {h : Heap} (hwhole : Whole spaces total h) (htotal : total < 2 ^ 24) (xWantedSize : UInt32)
    (eAlignment : EHeapAlign) (stale : UInt32) :
    Whole spaces total (pvPortMallocWithAlign xWantedSize eAlignment stale h).2 := by
  rw [pvPortMallocWithAlign]
  split_ifs with htop
  · exact hwhole
  · simp only
    split_ifs with hfits
    · obtain ⟨hpositive, hremaining⟩ := hfits
      obtain ⟨halign, hwanted⟩ := wantedSizes_spec hpositive
      generalize (wantedSizes xWantedSize.toNat eAlignment.size).1 = wanted at halign hwanted
      generalize (wantedSizes xWantedSize.toNat eAlignment.size).2 = wantedAlign at halign hpositive hremaining
      cases hfound : findBlock wantedAlign h.freeList with
      | none => exact hwhole
      | some found =>
        obtain ⟨before, b, after⟩ := found
        simp only
        split_ifs with hend
        · exact hwhole
        · obtain ⟨hlist, hlarge⟩ := findBlock_some hfound
          obtain ⟨hfree, hafter⟩ := (hlist ▸ hwhole.free).remove hend
          have hle : wantedAlign ≤ b.xBlockSize := hlarge.resolve_right hafter
          have htiles : ∀ x, inside b.addr b.xBlockSize x + freeCover (before ++ after) x +
              cover (h.usedList.map Block.extent) x = spaces x := by
            intro x
            rw [← freeCover_middle, ← hlist, ← hwhole.tiles x, Heap.blocks, cover_append]
            rfl
          have hroom : ∀ x, inside b.addr b.xBlockSize x + freeCover (before ++ after) x ≤ spaces x :=
            fun x => Nat.le_of_add_right_le (Nat.le_of_eq (htiles x))
          have hsum := freeSum_middle before after b
          rw [← hlist] at hsum
          have hsize : b.xBlockSize < 2 ^ 24 := by
            have htotal_eq := hwhole.total_eq
            omega
          obtain ⟨hplaced, hactual⟩ := alignBlock_ok stale.toNat hfree hwhole.regions hroom hsize
            (show eAlignment.size ≤ b.xBlockSize by omega)
          have hok := splitBlock_ok hplaced hwhole.regions hroom (show wanted < 2 ^ 24 by omega)
          exact hwhole.take hlist hok (splitBlock_pos hwanted (by omega)) _ _
    · exact hwhole

/-- The bytes of a live allocation are freed with the ones that were skipped. -/
theorem freedBlock_interval (b : Block) : (freedBlock b).interval = b.extent := by
  rw [freedBlock, Block.extent]
  simp only [getAlignWasted_clearUsedFlag, getActual_clearUsedFlag]
  split_ifs with hwasted
  · rfl
  · obtain hzero : getAlignWastedSize b.xBlockSize = 0 := by omega
    have hword : clearUsedFlag b.xBlockSize = getActualBlockSize b.xBlockSize := by
      unfold getAlignWastedSize at hzero
      unfold clearUsedFlag getActualBlockSize
      omega
    rw [Block.interval, hword, hzero, Nat.sub_zero, Nat.add_zero]

theorem Whole.free_live {total : ℕ} {h h' : Heap} (hwhole : Whole spaces total h) {pv : ℕ} (hfree : vPortFree pv h = some h') :
    Whole spaces total h' := by
  rw [vPortFree] at hfree
  split_ifs at hfree with hnull
  · rwa [← Option.some.inj hfree]
  · obtain ⟨b, hfound, rfl⟩ := Option.map_eq_some_iff.mp hfree
    have hsame : (fun c : Block => decide (c.addr + xHeapStructSize = pv)) = fun c => decide (c.addr = b.addr) := by
      have hb := List.find?_some hfound
      simp only [decide_eq_true_eq] at hb
      funext c
      apply decide_eq_decide.mpr
      omega
    have hperm := perm_eraseP (hsame ▸ hfound : h.usedList.find? (fun c => decide (c.addr = b.addr)) = some b)
    have hmem : b ∈ h.usedList := List.mem_of_find?_eq_some hfound
    have hinterval := freedBlock_interval b
    have haddr : (freedBlock b).addr = b.extent.1 := congrArg Prod.fst hinterval
    have hsize : (freedBlock b).xBlockSize = b.extent.2 := congrArg Prod.snd hinterval
    have hpos : 0 < (freedBlock b).xBlockSize := by
      rw [hsize]
      exact Nat.lt_of_lt_of_le (hwhole.live b hmem) (Nat.le_add_right _ _)
    have htiles : ∀ x, inside (freedBlock b).addr (freedBlock b).xBlockSize x + freeCover h.freeList x +
        cover ((prvRemoveBlockFromUsedList b.addr h.usedList).map Block.extent) x = spaces x := by
      intro x
      have hx := hwhole.tiles x
      rw [Heap.blocks, cover_append, cover_perm (hperm.map Block.extent), List.map_cons, cover_cons] at hx
      rw [haddr, hsize, freeCover, prvRemoveBlockFromUsedList]
      omega
    obtain ⟨hfree, htakes⟩ := hwhole.free.insert hwhole.regions hpos fun x => Nat.le_of_add_right_le (Nat.le_of_eq (htiles x))
    constructor
    · exact hfree
    · exact hwhole.regions
    · intro x
      have hcover := htakes.cover x
      have hx := htiles x
      rw [Heap.blocks, cover_append]
      simp only [freeCover] at hx ⊢
      omega
    · have hsum := htakes.sum
      have hbytes := hwhole.bytes
      simp only [freeSum] at hbytes ⊢
      omega
    · exact fun c hc => hwhole.live c (hperm.mem_iff.mpr (List.mem_cons_of_mem b hc))
    · have hsum := htakes.sum
      have htotal := hwhole.total_eq
      rw [(hperm.map fun b => b.extent.2).sum_nat, List.map_cons, List.sum_cons] at htotal
      simp only [freeSum, prvRemoveBlockFromUsedList] at htotal ⊢
      omega

theorem Whole.realloc {total : ℕ} {h h' : Heap} (hwhole : Whole spaces total h) (htotal : total < 2 ^ 24) {pvBlock : ℕ}
    {size stale : UInt32} {eAlignment : EHeapAlign} {pvReturn : Option ℕ}
    (hrealloc : pvPortReallocWithAlign pvBlock size eAlignment stale h = some (pvReturn, h')) : Whole spaces total h' := by
  have hmalloc := hwhole.malloc htotal size eAlignment stale
  rw [pvPortReallocWithAlign] at hrealloc
  split_ifs at hrealloc with hnull hzero hlive
  · rwa [Option.some.inj hrealloc] at hmalloc
  · obtain ⟨h'', hfree, heq⟩ := Option.map_eq_some_iff.mp hrealloc
    cases heq
    exact hwhole.free_live hfree
  · cases hresult : pvPortMallocWithAlign size eAlignment stale h with
    | mk pv hnew =>
      rw [hresult] at hrealloc hmalloc
      cases pv with
      | none =>
        cases hrealloc
        exact hmalloc
      | some pv =>
        obtain ⟨h'', hfree, heq⟩ := Option.map_eq_some_iff.mp hrealloc
        cases heq
        exact hmalloc.free_live hfree

end NbiotXY1100.Heap6
