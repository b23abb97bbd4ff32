import NbiotXY1100.Heap6Integrity
import NbiotXY1100.StepRuns

/-! # Runs of the heap

The regions that `vPortDefineHeapRegions` takes, and what every run of allocations and
deallocations keeps from there on. -/
namespace NbiotXY1100.Heap6
open IntervalCover StepRuns

/-- The bytes between the aligned start and the end marker. -/
def HeapRegion.space (r : HeapRegion) : ℕ × ℕ := (r.start, r.fin - r.start)

/-- Free blocks and live allocations tile the regions, in the order of the free list. -/
structure Intact (regions : List HeapRegion) (h : Heap) : Prop where
  increasing : h.freeList.Pairwise fun b c => b.addr < c.addr
  last : h.freeList.getLast? = some ⟨h.pxEnd, 0⟩
  separate : ∀ b ∈ h.freeList, ∀ c ∈ h.freeList, 0 < b.xBlockSize → 0 < c.xBlockSize → b.limit ≠ c.addr
  disjoint : h.blocks.Pairwise Apart
  tiled : ∀ x, (∃ i ∈ h.blocks, Contains i x) ↔ ∃ r ∈ regions, Contains r.space x
  bytes : h.xFreeBytesRemaining = (h.freeList.map Block.xBlockSize).sum

/-- Increasing regions of the 32-bit memory that do not overlap, of less than 2 ^ 24 bytes. -/
structure Regular (regions : List HeapRegion) : Prop where
  nonempty : regions ≠ []
  increasing : regions.IsChain fun r s => r.pucStartAddress + r.xSizeInBytes ≤ s.pucStartAddress
  inMemory : ∀ r ∈ regions, 0 < r.xSizeInBytes ∧ r.pucStartAddress + r.xSizeInBytes ≤ 2 ^ 32
  small : (regions.map HeapRegion.xSizeInBytes).sum < 2 ^ 24

/-- From its aligned start on, the region has room for the link and the size of a free block and
for the end marker. -/
def HeapRegion.Roomy (r : HeapRegion) : Prop :=
  (r.pucStartAddress + 3) / 4 * 4 + 8 + xHeapStructSize ≤ r.pucStartAddress + r.xSizeInBytes

instance (r : HeapRegion) : Decidable r.Roomy := inferInstanceAs (Decidable (_ ≤ _))

inductive Action where
  | malloc (xWantedSize : UInt32) (eAlignment : EHeapAlign) (stale : UInt32)
  | free (pv : ℕ)
  | realloc (pvBlock : ℕ) (size : UInt32) (eAlignment : EHeapAlign) (stale : UInt32)

/-- Pointers that are not live are not passed. -/
def step : Action → Heap → Option Heap
  | .malloc xWantedSize eAlignment stale, h => some (pvPortMallocWithAlign xWantedSize eAlignment stale h).2
  | .free pv, h => vPortFree pv h
  | .realloc pvBlock size eAlignment stale, h => (pvPortReallocWithAlign pvBlock size eAlignment stale h).map Prod.snd

theorem Whole.step {spaces : ℕ → ℕ} {total : ℕ} {h h' : Heap} (hwhole : Whole spaces total h) (htotal : total < 2 ^ 24)
    {a : Action} (hstep : step a h = some h') : Whole spaces total h' := by
  cases a with
  | malloc xWantedSize eAlignment stale =>
    rw [← Option.some.inj hstep]
    exact hwhole.malloc htotal xWantedSize eAlignment stale
  | free pv => exact hwhole.free_live hstep
  | realloc pvBlock size eAlignment stale =>
    obtain ⟨⟨pvReturn, h''⟩, hrealloc, rfl⟩ := Option.map_eq_some_iff.mp hstep
    exact hwhole.realloc htotal hrealloc

def spacesOf (regions : List HeapRegion) (x : ℕ) : ℕ := cover (regions.map HeapRegion.space) x

theorem intact_of_whole {regions : List HeapRegion} {total : ℕ} {h : Heap} (hwhole : Whole (spacesOf regions) total h) :
    Intact regions h := by
  have hpairwise := hwhole.free.chain.pairwise
  constructor
  · exact hpairwise.imp fun hbc => hbc.1
  · obtain ⟨s, hs⟩ := hwhole.free.last
    rw [hs, List.getLast?_append, List.getLast?_singleton]
    rfl
  · intro b hb c hc
    refine List.Pairwise.forall_of_forall_of_flip (R := fun b c => 0 < b.xBlockSize → 0 < c.xBlockSize → b.limit ≠ c.addr)
      (fun b _ hpos _ heq => ?_) (hpairwise.imp fun ⟨_, _, htouch⟩ _ hpos heq => ?_)
      (hpairwise.imp fun ⟨hlt, _, _⟩ _ _ heq => ?_) hb hc
    · simp only [Block.limit] at heq
      omega
    · have hzero := htouch heq
      omega
    · simp only [Block.limit] at heq
      omega
  · exact pairwise_apart fun x => (hwhole.tiles x) ▸ hwhole.regions.once x
  · intro x
    rw [← cover_pos_iff, hwhole.tiles x, spacesOf, cover_pos_iff]
    simp
  · exact hwhole.bytes

/-! ### The regions at the start -/

/-- The places of a region: its aligned start, its end marker and its end. -/
structure Placement (r : HeapRegion) : Prop where
  start_ge : r.pucStartAddress ≤ r.start
  start_lt : r.start + 8 ≤ r.fin
  fin_le : r.fin + xHeapStructSize ≤ r.pucStartAddress + r.xSizeInBytes
  block_size : sub32 r.fin r.start = r.fin - r.start

theorem placement {r : HeapRegion} (hmemory : r.pucStartAddress + r.xSizeInBytes ≤ 2 ^ 32) (hroomy : r.Roomy) : Placement r := by
  obtain ⟨puc, size⟩ := r
  simp only [HeapRegion.Roomy, xHeapStructSize] at hroomy hmemory
  have hstart : HeapRegion.start ⟨puc, size⟩ = (puc + 3) / 4 * 4 := by
    rw [HeapRegion.start]
    split_ifs with haligned
    · change alignDown ((puc + 3) % 2 ^ 32) = (puc + 3) / 4 * 4
      simp only [alignDown, portByteAlignment]
      omega
    · change ¬puc % 4 ≠ 0 at haligned
      change puc = (puc + 3) / 4 * 4
      omega
  have hfin : HeapRegion.fin ⟨puc, size⟩ = (puc + size - 16) / 4 * 4 := by
    simp only [HeapRegion.fin, hstart, alignDown, portByteAlignment, sub32, xHeapStructSize]
    omega
  constructor
  · rw [hstart]
    simp only
    omega
  · rw [hstart, hfin]
    omega
  · rw [hfin]
    simp only [xHeapStructSize]
    omega
  · rw [hstart, hfin, sub32]
    omega

/-- The free block of a region and its end marker. -/
def regionBlocks (r : HeapRegion) : List Block := [⟨r.start, r.fin - r.start⟩, endMarker r.fin]

def totalSize (regions : List HeapRegion) : ℕ := (regions.map fun r => r.fin - r.start).sum

theorem totalSize_lt {regions : List HeapRegion} (hplaces : ∀ r ∈ regions, Placement r) :
    totalSize regions ≤ (regions.map HeapRegion.xSizeInBytes).sum := by
  induction regions with
  | nil => exact Nat.le_refl 0
  | cons r regions ih =>
    have hrest := ih fun s hs => hplaces s (List.mem_cons_of_mem r hs)
    obtain ⟨hge, hlt, hle, -⟩ := hplaces r List.mem_cons_self
    simp only [totalSize, List.map_cons, List.sum_cons] at hrest ⊢
    omega

theorem defineRegions_eq {regions : List HeapRegion} (hplaces : ∀ r ∈ regions, Placement r)
    (hchain : regions.IsChain fun r s => r.pucStartAddress + r.xSizeInBytes ≤ s.pucStartAddress)
    (hsmall : totalSize regions < 2 ^ 32) {pxEnd : Option ℕ} (hend : ∀ e ∈ pxEnd, ∀ r ∈ regions.head?, e < r.start) :
    defineRegions regions pxEnd =
      some (regions.flatMap regionBlocks, (regions.getLast?.map HeapRegion.fin).or pxEnd, totalSize regions) := by
  induction regions generalizing pxEnd with
  | nil => rfl
  | cons r regions ih =>
    obtain ⟨hge, hlt, hle, hsize⟩ := hplaces r List.mem_cons_self
    have hnext : ∀ e ∈ some r.fin, ∀ s ∈ regions.head?, e < s.start := by
      intro e he s hs
      have hstep := (List.isChain_cons.mp hchain).1 s hs
      have hs' := (hplaces s (List.mem_cons_of_mem r (List.mem_of_mem_head? hs))).start_ge
      rw [← Option.some.inj he]
      simp only [xHeapStructSize] at hle
      omega
    have htotal : totalSize (r :: regions) = r.fin - r.start + totalSize regions := by
      rw [totalSize, List.map_cons, List.sum_cons, totalSize]
    have hpositive : ¬r.xSizeInBytes = 0 := by
      simp only [xHeapStructSize] at hle
      omega
    rw [defineRegions, if_neg hpositive, if_pos fun e he => hend e he r rfl,
      ih (fun s hs => hplaces s (List.mem_cons_of_mem r hs)) (List.isChain_cons.mp hchain).2 (by omega) hnext, Option.map_some]
    simp only [hsize]
    rw [← htotal, Nat.mod_eq_of_lt hsmall]
    cases regions with
    | nil => rfl
    | cons s regions =>
      have hlast : (r :: s :: regions).getLast? = (s :: regions).getLast? := List.getLast?_cons_cons
      rw [hlast, List.getLast?_eq_some_getLast (List.cons_ne_nil s regions)]
      rfl

theorem regions_apart {regions : List HeapRegion}
    (hchain : regions.IsChain fun r s => r.pucStartAddress + r.xSizeInBytes ≤ s.pucStartAddress) :
    regions.Pairwise fun r s => r.pucStartAddress + r.xSizeInBytes ≤ s.pucStartAddress := by
  have : IsTrans HeapRegion fun r s => r.pucStartAddress + r.xSizeInBytes ≤ s.pucStartAddress :=
    ⟨fun r s t hrs hst => by omega⟩
  exact hchain.pairwise

theorem regionBlocks_chain {regions : List HeapRegion} (hplaces : ∀ r ∈ regions, Placement r)
    (hchain : regions.IsChain fun r s => r.pucStartAddress + r.xSizeInBytes ≤ s.pucStartAddress) :
    (regions.flatMap regionBlocks).IsChain Before := by
  induction regions with
  | nil => exact List.isChain_nil
  | cons r regions ih =>
    obtain ⟨hge, hlt, hle, -⟩ := hplaces r List.mem_cons_self
    have hrest := ih (fun s hs => hplaces s (List.mem_cons_of_mem r hs)) (List.isChain_cons.mp hchain).2
    rw [List.flatMap_cons, regionBlocks, List.cons_append, List.singleton_append, List.isChain_cons_cons]
    refine ⟨⟨by simp only [endMarker]; omega, by simp only [Block.limit, endMarker]; omega, fun _ => rfl⟩, ?_⟩
    refine List.isChain_cons.mpr ⟨fun b hb => ?_, hrest⟩
    cases regions with
    | nil => cases hb
    | cons s regions =>
      obtain rfl : (⟨s.start, s.fin - s.start⟩ : Block) = b := Option.some.inj hb
      have hstep := (List.isChain_cons_cons.mp hchain).1
      have hs := (hplaces s (List.mem_cons_of_mem r List.mem_cons_self)).start_ge
      simp only [xHeapStructSize] at hle
      refine ⟨?_, ?_, fun htouch => ?_⟩
      · simp only [endMarker]
        omega
      · simp only [Block.limit, endMarker]
        omega
      · simp only [Block.limit, endMarker] at htouch
        omega

theorem not_contains_fin {regions : List HeapRegion} (hplaces : ∀ r ∈ regions, Placement r)
    (hchain : regions.IsChain fun r s => r.pucStartAddress + r.xSizeInBytes ≤ s.pucStartAddress) {r s : HeapRegion}
    (hr : r ∈ regions) (hs : s ∈ regions) : ¬Contains s.space r.fin := by
  have hpairwise := regions_apart hchain
  intro ⟨hlo, hhi⟩
  have hrange : s.start ≤ r.fin ∧ r.fin < s.fin := by
    have := (hplaces s hs).start_lt
    simp only [HeapRegion.space] at hlo hhi
    omega
  obtain ⟨hge, hlt, hle, -⟩ := hplaces r hr
  obtain ⟨hge', hlt', hle', -⟩ := hplaces s hs
  simp only [xHeapStructSize] at hle hle'
  have hplace := List.Pairwise.forall_of_forall_of_flip
    (R := fun r s : HeapRegion => r = s ∨ r.pucStartAddress + r.xSizeInBytes ≤ s.pucStartAddress ∨
      s.pucStartAddress + s.xSizeInBytes ≤ r.pucStartAddress)
    (fun r _ => .inl rfl) (hpairwise.imp fun h => .inr (.inl h)) (hpairwise.imp fun h => .inr (.inr h)) hr hs
  obtain rfl | hbefore | hafter := hplace
  · omega
  · omega
  · omega

theorem spacesOf_le_one {regions : List HeapRegion} (hplaces : ∀ r ∈ regions, Placement r)
    (hchain : regions.IsChain fun r s => r.pucStartAddress + r.xSizeInBytes ≤ s.pucStartAddress) (x : ℕ) :
    spacesOf regions x ≤ 1 := by
  have hpairwise := regions_apart hchain
  clear hchain
  induction regions with
  | nil => exact Nat.zero_le 1
  | cons r regions ih =>
    obtain ⟨hfirst, hpairs⟩ := List.pairwise_cons.mp hpairwise
    have hrest := ih (fun s hs => hplaces s (List.mem_cons_of_mem r hs)) hpairs
    obtain ⟨hge, hlt, hle, -⟩ := hplaces r List.mem_cons_self
    rw [spacesOf, List.map_cons, cover_cons]
    by_cases hr : Contains r.space x
    · have hnone : ¬0 < cover (regions.map HeapRegion.space) x := by
        intro hpos
        obtain ⟨i, hi, hx⟩ := cover_pos_iff.mp hpos
        obtain ⟨s, hs, rfl⟩ := List.mem_map.mp hi
        have hapart := hfirst s hs
        obtain ⟨hge', -, -, -⟩ := hplaces s (List.mem_cons_of_mem r hs)
        simp only [Contains, HeapRegion.space, xHeapStructSize] at hr hx hle
        omega
      have hone : inside r.space.1 r.space.2 x = 1 := inside_eq_one hr
      omega
    · have hzero : inside r.space.1 r.space.2 x = 0 := inside_eq_zero hr
      rw [spacesOf] at hrest
      omega

theorem initial_cover (regions : List HeapRegion) (x : ℕ) : freeCover (regions.flatMap regionBlocks) x = spacesOf regions x := by
  induction regions with
  | nil => rfl
  | cons r regions ih =>
    have hblocks : (regionBlocks r).map Block.interval = [r.space, (r.fin, 0)] := rfl
    rw [freeCover] at ih
    rw [freeCover, List.flatMap_cons, List.map_append, cover_append, ih, hblocks, cover_cons, cover_cons, cover_nil, inside_zero,
      spacesOf, spacesOf, List.map_cons, cover_cons]
    rfl

theorem initial_sum (regions : List HeapRegion) : freeSum (regions.flatMap regionBlocks) = totalSize regions := by
  induction regions with
  | nil => rfl
  | cons r regions ih =>
    rw [freeSum] at ih
    rw [freeSum, List.flatMap_cons, List.map_append, List.sum_append, ih, totalSize, totalSize, List.map_cons, List.sum_cons]
    simp [regionBlocks, endMarker]

/-- The heap that the regions make. -/
def initialHeap (regions : List HeapRegion) (pxEnd : ℕ) : Heap :=
  ⟨regions.flatMap regionBlocks, pxEnd, [], totalSize regions, totalSize regions, 0, 0⟩

theorem initial_whole {regions : List HeapRegion} {r : HeapRegion} (hplaces : ∀ s ∈ regions ++ [r], Placement s)
    (hchain : (regions ++ [r]).IsChain fun r s => r.pucStartAddress + r.xSizeInBytes ≤ s.pucStartAddress) :
    Whole (spacesOf (regions ++ [r])) (totalSize (regions ++ [r])) (initialHeap (regions ++ [r]) r.fin) := by
  have hmem : r ∈ regions ++ [r] := List.mem_append_right _ List.mem_cons_self
  constructor
  · constructor
    · exact regionBlocks_chain hplaces hchain
    · refine ⟨regions.flatMap regionBlocks ++ [⟨r.start, r.fin - r.start⟩], ?_⟩
      simp [initialHeap, regionBlocks]
    · intro b hb hzero
      obtain ⟨s, hs, hb⟩ := List.mem_flatMap.mp hb
      obtain rfl | hb := List.mem_cons.mp hb
      · have := (hplaces s hs).start_lt
        simp only at hzero
        omega
      · rw [List.mem_singleton.mp hb]
        by_contra hne
        obtain ⟨i, hi, hx⟩ := cover_pos_iff.mp (Nat.pos_of_ne_zero hne)
        obtain ⟨t, ht, rfl⟩ := List.mem_map.mp hi
        exact not_contains_fin hplaces hchain hs ht hx
  · constructor
    · exact spacesOf_le_one hplaces hchain
    · intro x hx
      obtain ⟨i, hi, hcontains⟩ := cover_pos_iff.mp (Nat.pos_of_ne_zero hx)
      obtain ⟨s, hs, rfl⟩ := List.mem_map.mp hi
      have hle : s.fin ≤ r.fin := by
        obtain hs' | hs' := List.mem_append.mp hs
        · have hapart := (List.pairwise_append.mp (regions_apart hchain)).2.2 s hs' r List.mem_cons_self
          obtain ⟨-, -, hfin, -⟩ := hplaces s hs
          obtain ⟨hge, hlt, -, -⟩ := hplaces r hmem
          omega
        · rw [List.mem_singleton.mp hs']
      have hlt := (hplaces s hs).start_lt
      simp only [Contains, HeapRegion.space] at hcontains
      change x < r.fin
      omega
  · intro x
    rw [Heap.blocks, cover_append]
    exact initial_cover _ x
  · exact (initial_sum _).symm
  · intro b hb
    cases hb
  · exact (initial_sum _).trans rfl

/-- From regions with room for a block and a marker each, every run keeps the heap intact. -/
theorem vPortDefineHeapRegions_intact {regions : List HeapRegion} (hregular : Regular regions)
    (hroomy : ∀ r ∈ regions, r.Roomy) :
    ∃ h, vPortDefineHeapRegions regions = some h ∧ ∀ as, Always step (Intact regions) as h := by
  have hplaces : ∀ r ∈ regions, Placement r := fun r hr => placement (hregular.inMemory r hr).2 (hroomy r hr)
  have htotal : totalSize regions < 2 ^ 24 := Nat.lt_of_le_of_lt (totalSize_lt hplaces) hregular.small
  obtain ⟨init, r, rfl⟩ := List.eq_nil_or_concat' regions |>.resolve_left hregular.nonempty
  have hwhole := initial_whole hplaces hregular.increasing
  refine ⟨initialHeap (init ++ [r]) r.fin, ?_, fun as => ?_⟩
  · have hnonzero : totalSize (init ++ [r]) ≠ 0 := by
      have hlt := (hplaces r (List.mem_append_right _ List.mem_cons_self)).start_lt
      simp only [totalSize, List.map_append, List.sum_append, List.map_cons, List.sum_cons]
      omega
    have hnone : ∀ e ∈ (none : Option ℕ), ∀ s ∈ (init ++ [r]).head?, e < s.start := by
      intro e he
      cases he
    rw [vPortDefineHeapRegions, defineRegions_eq hplaces hregular.increasing (Nat.lt_trans htotal (by decide)) hnone,
      List.getLast?_append, List.getLast?_singleton]
    exact if_pos hnonzero
  · have hstep : ∀ a s s', Whole (spacesOf (init ++ [r])) (totalSize (init ++ [r])) s → True → step a s = some s' →
        Whole (spacesOf (init ++ [r])) (totalSize (init ++ [r])) s' :=
      fun a s s' hs _ ha => hs.step htotal ha
    exact always_imp (fun s => intact_of_whole) (always_of_along hstep hwhole (along_true step as _))

theorem vPortDefineHeapRegions_intact_two :
    Regular [⟨0x20000001, 0x1000⟩, ⟨0x20002000, 0x40⟩] ∧
    ∃ h, vPortDefineHeapRegions [⟨0x20000001, 0x1000⟩, ⟨0x20002000, 0x40⟩] = some h ∧
      ∀ as, Always step (Intact [⟨0x20000001, 0x1000⟩, ⟨0x20002000, 0x40⟩]) as h := by
  have hregular : Regular [⟨0x20000001, 0x1000⟩, ⟨0x20002000, 0x40⟩] :=
    ⟨List.cons_ne_nil _ _, by simp, by decide, by decide⟩
  exact ⟨hregular, vPortDefineHeapRegions_intact hregular (by decide)⟩

/-- A region of eight bytes has no room for its end marker, which comes to lie before it. -/
theorem not_intact_small_region :
    Regular [⟨0x1000, 8⟩] ∧ ∃ h, vPortDefineHeapRegions [⟨0x1000, 8⟩] = some h ∧ ¬Intact [⟨0x1000, 8⟩] h := by
  refine ⟨⟨List.cons_ne_nil _ _, by simp, by decide, by decide⟩, ⟨[⟨0x1000, 4294967288⟩, ⟨0xFF8, 0⟩], 0xFF8, [], 4294967288,
    4294967288, 0, 0⟩, by decide, fun h => ?_⟩
  have hincreasing := h.increasing
  simp at hincreasing

end NbiotXY1100.Heap6
