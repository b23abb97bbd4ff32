import NbiotXY1100.Heap6
import NbiotXY1100.IntervalCover
import Mathlib.Data.List.Chain

/-! # Insertion into the free list

A block that overlaps no free block goes to its place and is put together with its neighbours. The
list stays in order, and it covers what it covered before and the block. -/
namespace NbiotXY1100.Heap6
open IntervalCover

def Block.interval (b : Block) : ℕ × ℕ := (b.addr, b.xBlockSize)

/-- The first block ends before the second. They touch only if the second is an end marker. -/
def Before (b c : Block) : Prop := b.addr < c.addr ∧ b.limit ≤ c.addr ∧ (b.limit = c.addr → c.xBlockSize = 0)

def endMarker (pxEnd : ℕ) : Block := ⟨pxEnd, 0⟩

/-- The block is clear of another one. -/
def Clear (b c : Block) : Prop := (c.addr < b.addr ∧ c.limit ≤ b.addr) ∨ b.limit ≤ c.addr

theorem chain_resize {l : List Block} {b c : Block} (h : (l ++ [b]).IsChain Before) (haddr : c.addr = b.addr)
    (hsize : 0 < b.xBlockSize) : (l ++ [c]).IsChain Before := by
  rw [List.isChain_append] at h ⊢
  refine ⟨h.1, List.isChain_singleton c, fun p hp q hq => ?_⟩
  obtain ⟨hlt, hle, htouch⟩ := h.2.2 p hp b rfl
  cases hq
  refine ⟨by omega, by omega, fun hlimit => ?_⟩
  have := htouch (by omega)
  omega

theorem chain_start {rest : List Block} {b c : Block} (h : (b :: rest).IsChain Before) (haddr : c.addr ≤ b.addr)
    (hlimit : c.limit = b.limit) : (c :: rest).IsChain Before := by
  rw [List.isChain_cons] at h ⊢
  refine ⟨fun q hq => ?_, h.2⟩
  obtain ⟨hlt, hle, htouch⟩ := h.1 q hq
  exact ⟨by omega, by omega, fun ht => htouch (by omega)⟩

theorem insertAfter_skip (pxEnd : ℕ) (b : Block) (iterator : Option Block) (pre : List Block) (last : Block)
    (rest : List Block) (hbelow : ∀ c ∈ pre ++ [last], c.addr < b.addr) :
    insertAfter pxEnd b iterator (pre ++ last :: rest) =
      iterator.toList ++ pre ++ insertAfter pxEnd b (some last) rest := by
  induction pre generalizing iterator with
  | nil =>
    have hlast : last.addr < b.addr := hbelow last (by simp)
    rw [List.nil_append, insertAfter, if_pos hlast, List.append_nil]
  | cons c pre ih =>
    have hc : c.addr < b.addr := hbelow c (by simp)
    have hrest : ∀ d ∈ pre ++ [last], d.addr < b.addr := fun d hd => hbelow d (List.mem_cons_of_mem _ hd)
    rw [List.cons_append, insertAfter, if_pos hc, ih (some c) hrest]
    simp

/-- What a list of blocks becomes when it takes the bytes of a block: `l` before and `r` after. -/
structure Takes (b : Block) (l r : List Block) : Prop where
  cover : ∀ x, cover (r.map Block.interval) x = inside b.addr b.xBlockSize x + cover (l.map Block.interval) x
  sum : (r.map Block.xBlockSize).sum = b.xBlockSize + (l.map Block.xBlockSize).sum
  markers : ∀ c ∈ r, c.xBlockSize = 0 → c ∈ l

/-- The blocks below the new one, and the new one with what it touches there. -/
theorem mergePrevious_spec {b : Block} {iterator : Option Block} {pre : List Block}
    (hchain : (pre ++ iterator.toList).IsChain Before) (hsize : 0 < b.xBlockSize)
    (hbelow : ∀ c ∈ pre ++ iterator.toList, c.addr < b.addr ∧ c.limit ≤ b.addr) (hpre : iterator = none → pre = []) :
    ((pre ++ (mergePrevious iterator b).1) ++ [(mergePrevious iterator b).2]).IsChain Before ∧
      (mergePrevious iterator b).2.limit = b.limit ∧ (mergePrevious iterator b).2.addr ≤ b.addr ∧
      0 < (mergePrevious iterator b).2.xBlockSize ∧
      Takes b (pre ++ iterator.toList) ((pre ++ (mergePrevious iterator b).1) ++ [(mergePrevious iterator b).2]) := by
  cases iterator with
  | none =>
    have hnil := hpre rfl
    subst hnil
    refine ⟨List.isChain_singleton _, rfl, Nat.le_refl _, hsize, ?_⟩
    refine ⟨fun x => by simp [mergePrevious, Block.interval], by simp [mergePrevious], fun c hc h0 => ?_⟩
    simp only [mergePrevious, List.nil_append, List.mem_singleton] at hc
    subst hc
    omega
  | some it =>
    obtain ⟨hlt, hle⟩ := hbelow it (by simp)
    by_cases htouch : it.limit = b.addr
    · have hit : 0 < it.xBlockSize := by
        simp only [Block.limit] at htouch
        omega
      simp only [mergePrevious, if_pos htouch, List.append_nil, Option.toList_some]
      simp only [Block.limit] at htouch ⊢
      refine ⟨chain_resize hchain rfl hit, by omega, by omega, by omega, ?_⟩
      constructor
      · intro x
        have := inside_add it.addr it.xBlockSize b.xBlockSize x
        simp only [List.map_append, cover_append, List.map_cons, List.map_nil, cover_cons, cover_nil, Block.interval]
        rw [this, htouch]
        omega
      · simp only [List.map_append, List.sum_append, List.map_cons, List.map_nil, List.sum_cons, List.sum_nil]
        omega
      · intro c hc h0
        rcases List.mem_append.mp hc with hc | hc
        · exact List.mem_append_left _ hc
        · rw [List.mem_singleton] at hc
          subst hc
          dsimp only at h0
          omega
    · simp only [mergePrevious, if_neg htouch, Option.toList_some] at hchain ⊢
      refine ⟨?_, trivial, Nat.le_refl _, hsize, ?_⟩
      · rw [List.append_assoc, List.singleton_append, List.isChain_append_cons_cons]
        exact ⟨hchain, ⟨hlt, hle, fun h => absurd h htouch⟩, List.isChain_singleton b⟩
      · constructor
        · intro x
          simp [Block.interval]
          omega
        · simp only [List.map_append, List.sum_append, List.map_cons, List.map_nil, List.sum_cons, List.sum_nil]
          omega
        · intro c hc h0
          rcases List.mem_append.mp hc with hc | hc
          · exact hc
          · rw [List.mem_singleton] at hc
            subst hc
            omega

/-- The new block goes before `next`, and takes it when it is a free block or an inner end marker that it touches. -/
theorem mergeNext_spec (pxEnd : ℕ) {before rest : List Block} {b next : Block}
    (hbefore : (before ++ [b]).IsChain Before) (hnext : (next :: rest).IsChain Before) (hsize : 0 < b.xBlockSize)
    (hlimit : b.limit ≤ next.addr) (hend : next.addr = pxEnd → next.xBlockSize = 0) :
    (before ++ mergeNext pxEnd b next rest).IsChain Before ∧
      (∀ x, cover ((before ++ mergeNext pxEnd b next rest).map Block.interval) x =
        cover ((before ++ [b] ++ next :: rest).map Block.interval) x) ∧
      ((before ++ mergeNext pxEnd b next rest).map Block.xBlockSize).sum =
        ((before ++ [b] ++ next :: rest).map Block.xBlockSize).sum ∧
      ∀ c ∈ before ++ mergeNext pxEnd b next rest, c.xBlockSize = 0 → c ∈ before ++ [b] ++ next :: rest := by
  have haddr : b.addr < next.addr := by
    simp only [Block.limit] at hlimit
    omega
  by_cases htouch : b.limit = next.addr ∧ next.addr ≠ pxEnd
  · rw [mergeNext, if_pos htouch]
    have hlimit' : Block.limit ⟨b.addr, b.xBlockSize + next.xBlockSize⟩ = next.limit := by
      have := htouch.1
      simp only [Block.limit] at this ⊢
      omega
    refine ⟨?_, fun x => ?_, ?_, fun c hc h0 => ?_⟩
    · rw [List.isChain_split]
      exact ⟨chain_resize hbefore rfl hsize, chain_start hnext (Nat.le_of_lt haddr) hlimit'⟩
    · have hadd := inside_add b.addr b.xBlockSize next.xBlockSize x
      have := htouch.1
      simp only [Block.limit] at this
      simp only [List.map_append, cover_append, List.map_cons, List.map_nil, cover_cons, cover_nil, Block.interval]
      rw [hadd, this]
      omega
    · simp only [List.map_append, List.sum_append, List.map_cons, List.map_nil, List.sum_cons, List.sum_nil]
      omega
    · rcases List.mem_append.mp hc with hc | hc
      · simp [hc]
      · rcases List.mem_cons.mp hc with rfl | hc
        · dsimp only at h0
          omega
        · simp [hc]
  · rw [mergeNext, if_neg htouch]
    refine ⟨?_, fun x => by simp, by simp, fun c hc h0 => by simpa using hc⟩
    rw [List.isChain_append_cons_cons]
    refine ⟨hbefore, ⟨haddr, hlimit, fun h => ?_⟩, hnext⟩
    apply hend
    by_contra hne
    exact htouch ⟨h, hne⟩

theorem exists_next {l : List Block} {b : Block} {pxEnd : ℕ} (hend : b.addr < pxEnd) :
    ∃ before next rest, l ++ [endMarker pxEnd] = before ++ next :: rest ∧ (∀ c ∈ before, c.addr < b.addr) ∧
      ¬ next.addr < b.addr := by
  induction l with
  | nil => exact ⟨[], endMarker pxEnd, [], rfl, by simp, by simp only [endMarker]; omega⟩
  | cons c l ih =>
    by_cases hc : c.addr < b.addr
    · obtain ⟨before, next, rest, heq, hbefore, hnext⟩ := ih
      refine ⟨c :: before, next, rest, by rw [List.cons_append, heq, List.cons_append], ?_, hnext⟩
      simpa using ⟨hc, hbefore⟩
    · exact ⟨[], c, l ++ [endMarker pxEnd], rfl, by simp, hc⟩

theorem mergeNext_last (pxEnd : ℕ) {rest s : List Block} {next : Block} (b : Block)
    (h : next :: rest = s ++ [endMarker pxEnd]) : ∃ r, mergeNext pxEnd b next rest = r ++ [endMarker pxEnd] := by
  cases s with
  | nil =>
    obtain ⟨rfl, rfl⟩ : next = endMarker pxEnd ∧ rest = [] := by simpa using h
    refine ⟨[b], ?_⟩
    rw [mergeNext, if_neg (fun hmerge => hmerge.2 rfl)]
    rfl
  | cons c s =>
    obtain ⟨rfl, rfl⟩ : next = c ∧ rest = s ++ [endMarker pxEnd] := by simpa using h
    rw [mergeNext]
    split_ifs
    · exact ⟨_ :: s, rfl⟩
    · exact ⟨b :: next :: s, rfl⟩

/-- The merged block against the list before it was inserted. -/
theorem insertAt_spec {pxEnd : ℕ} (pre : List Block) (iterator : Option Block) {rest s : List Block} {b next : Block}
    (hchain : (pre ++ iterator.toList ++ next :: rest).IsChain Before) (hpre : iterator = none → pre = [])
    (hbelow : ∀ c ∈ pre ++ iterator.toList, c.addr < b.addr) (hnext : ¬ next.addr < b.addr)
    (hlast : next :: rest = s ++ [endMarker pxEnd]) (hsize : 0 < b.xBlockSize)
    (hclear : ∀ c ∈ pre ++ iterator.toList ++ next :: rest, Clear b c) :
    ∃ r, pre ++ insertAfter pxEnd b iterator (next :: rest) = r ++ [endMarker pxEnd] ∧
      (r ++ [endMarker pxEnd]).IsChain Before ∧
      Takes b (pre ++ iterator.toList ++ next :: rest) (r ++ [endMarker pxEnd]) := by
  have hbelow' : ∀ c ∈ pre ++ iterator.toList, c.addr < b.addr ∧ c.limit ≤ b.addr := by
    intro c hc
    have hlt := hbelow c hc
    rcases hclear c (List.mem_append_left _ hc) with h | h
    · exact h
    · simp only [Block.limit] at h
      omega
  have habove : b.limit ≤ next.addr := by
    rcases hclear next (by simp) with h | h
    · exact absurd h.1 hnext
    · exact h
  have hend : next.addr = pxEnd → next.xBlockSize = 0 := by
    intro haddr
    have hmem : next ∈ s ++ [endMarker pxEnd] := hlast ▸ List.mem_cons_self
    rcases List.mem_append.mp hmem with hmem | hmem
    · cases s with
      | nil => simp at hmem
      | cons c s =>
        obtain ⟨rfl, rfl⟩ : next = c ∧ rest = s ++ [endMarker pxEnd] := by simpa using hlast
        have hrest := (List.isChain_append.mp hchain).2.1
        have hpair := List.isChain_iff_pairwise (R := fun a c : Block => a.addr < c.addr) |>.mp
          (hrest.imp fun _ _ h => h.1)
        have := (List.pairwise_cons.mp hpair).1 (endMarker pxEnd) (by simp)
        simp only [endMarker] at this
        omega
    · rw [List.mem_singleton.mp hmem]
      rfl
  obtain ⟨hA, hlimit, haddr, hpos, htakes⟩ :=
    mergePrevious_spec (hchain.left_of_append) hsize hbelow' hpre
  obtain ⟨hB, hcover, hsum, hmarkers⟩ :=
    mergeNext_spec pxEnd hA hchain.right_of_append hpos (hlimit ▸ habove) hend
  obtain ⟨r, hr⟩ := mergeNext_last pxEnd (mergePrevious iterator b).2 hlast
  have heq : pre ++ insertAfter pxEnd b iterator (next :: rest) =
      (pre ++ (mergePrevious iterator b).1) ++ mergeNext pxEnd (mergePrevious iterator b).2 next rest := by
    rw [insertAfter, if_neg hnext, List.append_assoc]
  rw [hr, ← List.append_assoc] at hB hcover hsum hmarkers heq
  refine ⟨_, heq, hB, ?_⟩
  constructor
  · intro x
    have hmerged := hcover x
    have htaken := htakes.cover x
    simp only [List.map_append, cover_append] at hmerged htaken ⊢
    omega
  · have htaken := htakes.sum
    simp only [List.map_append, List.sum_append] at hsum htaken ⊢
    omega
  · intro c hc h0
    rcases List.mem_append.mp (hmarkers c hc h0) with hmem | hmem
    · exact List.mem_append_left _ (htakes.markers c hmem h0)
    · exact List.mem_append_right _ hmem

/-- The end marker is the last one: blocks before it lie below it. -/
theorem prvInsertBlockIntoFreeList_spec {pxEnd : ℕ} {l : List Block} {b : Block}
    (hchain : (l ++ [endMarker pxEnd]).IsChain Before) (hsize : 0 < b.xBlockSize) (hend : b.addr < pxEnd)
    (hclear : ∀ c ∈ l ++ [endMarker pxEnd], Clear b c) :
    ∃ r, prvInsertBlockIntoFreeList pxEnd b (l ++ [endMarker pxEnd]) = r ++ [endMarker pxEnd] ∧
      (r ++ [endMarker pxEnd]).IsChain Before ∧ Takes b (l ++ [endMarker pxEnd]) (r ++ [endMarker pxEnd]) := by
  obtain ⟨before, next, rest, heq, hbefore, hnext⟩ := exists_next (l := l) hend
  have hlast : ∃ s, next :: rest = s ++ [endMarker pxEnd] := by
    have hlast? : (before ++ next :: rest).getLast? = some (endMarker pxEnd) := by rw [← heq]; simp
    rw [List.getLast?_append_of_ne_nil _ (List.cons_ne_nil _ _)] at hlast?
    exact List.getLast?_eq_some_iff.mp hlast?
  obtain ⟨s, hs⟩ := hlast
  rw [heq] at hchain hclear ⊢
  rw [prvInsertBlockIntoFreeList]
  rcases List.eq_nil_or_concat' before with rfl | ⟨pre, last, rfl⟩
  · exact insertAt_spec [] none hchain (fun _ => rfl) (by simp) hnext hs hsize hclear
  · rw [List.append_assoc, List.singleton_append, insertAfter_skip pxEnd b none pre last _ hbefore]
    have := insertAt_spec pre (some last) hchain (by simp) hbefore hnext hs hsize hclear
    simpa using this

end NbiotXY1100.Heap6
