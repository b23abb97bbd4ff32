import NbiotXY1100.XyFlash

/-! # The ranges that erases and programming requests reach

An erase of a range takes exactly the sectors that the range meets. So it sets the range to
ones and stays inside any sector-aligned region around it. -/
namespace NbiotXY1100.FlashRanges
open FlashMemory FlashAdapt FlashOverwrite XyFlash

/-- The sector or the bytes that an operation reaches lie between `lo` and `hi`. -/
def Inside (lo hi : Nat) : FlashOp → Prop
  | .erase addr => lo ≤ addr.toNat / 4096 * 4096 ∧ addr.toNat / 4096 * 4096 + 4096 ≤ hi
  | .program addr bytes => bytes = [] ∨ lo ≤ addr.toNat ∧ addr.toNat + bytes.length ≤ hi

def IsErase : FlashOp → Prop
  | .erase _ => True
  | .program _ _ => False

theorem apply_erased {op : FlashOp} (h : IsErase op) {m : Memory} {x : UInt32} (hx : m x = 0xFF) :
    op.apply m x = 0xFF := by
  cases op with
  | erase addr =>
    show eraseSector m addr x = 0xFF
    unfold eraseSector
    split
    · rfl
    · exact hx
  | program addr bytes => cases h

theorem applyAll_erased {ops : List FlashOp} (h : ∀ op ∈ ops, IsErase op) {m : Memory} {x : UInt32}
    (hx : m x = 0xFF) : applyAll ops m x = 0xFF := by
  induction ops generalizing m with
  | nil => exact hx
  | cons op ops ih =>
    rw [applyAll_cons]
    exact ih (fun o ho => h o (List.mem_cons_of_mem op ho)) (apply_erased (h op List.mem_cons_self) hx)

theorem toInt_of_lt {size : UInt32} (h : size.toNat < 2 ^ 31) : size.toInt32.toInt = size.toNat := by
  have hint : size.toBitVec.toInt = size.toBitVec.toNat := BitVec.toInt_eq_toNat_of_lt (by
    show 2 * size.toNat < 2 ^ 32
    omega)
  exact hint

/-- The list erases the addresses from `lo` up to `hi` and consists of erases inside the
sectors around them. -/
structure ErasesRange (ops : List FlashOp) (lo hi : Nat) : Prop where
  erases : ∀ op ∈ ops, IsErase op
  ones : ∀ (m : Memory) (x : UInt32), lo ≤ x.toNat → x.toNat < hi → applyAll ops m x = 0xFF
  inside : ∀ op ∈ ops, Inside (lo / 4096 * 4096) ((hi + 4095) / 4096 * 4096) op

theorem erase_sector_ones {m : Memory} {a x : UInt32} (hle : a.toNat / 4096 * 4096 ≤ x.toNat)
    (hlt : x.toNat < a.toNat / 4096 * 4096 + 4096) : (FlashOp.erase a).apply m x = 0xFF := by
  apply eraseSector_of_eq
  unfold sectorLength
  omega

/-- Sectors erased one after another are all ones in the end. -/
theorem sectors_ones {addr : UInt32} {n : Nat} (haddr : addr.toNat % 4096 = 0)
    (haddrs : ∀ p < n, (addr + UInt32.ofNat p * 4096).toNat = addr.toNat + p * 4096) {m : Memory} {x : UInt32}
    (hle : addr.toNat ≤ x.toNat) (hlt : x.toNat < addr.toNat + n * 4096) :
    applyAll ((List.range n).map fun p => .erase (addr + UInt32.ofNat p * 4096)) m x = 0xFF := by
  induction n with
  | zero => omega
  | succ n ih =>
    rw [List.range_succ, List.map_append, applyAll_append, List.map_singleton, applyAll_cons, applyAll_nil]
    have hlast := haddrs n (Nat.lt_succ_self n)
    by_cases hin : addr.toNat + n * 4096 ≤ x.toNat
    · apply erase_sector_ones
      · omega
      · omega
    · apply apply_erased (show IsErase (.erase _) from True.intro)
      have hbelow : x.toNat < addr.toNat + n * 4096 := Nat.lt_of_not_le hin
      exact ih (fun p hp => haddrs p (Nat.lt_succ_of_lt hp)) hbelow

theorem localErase_spec {addr size : UInt32} (haddr : addr.toNat % 4096 = 0) (hsize : size.toNat < 2 ^ 30)
    (hfit : addr.toNat + size.toNat + 4096 ≤ 2 ^ 32) :
    ∃ ops, localErase addr size = some ops ∧ ErasesRange ops addr.toNat (addr.toNat + size.toNat) := by
  have hmod : addr % 4096 = 0 := by
    apply UInt32.toNat_inj.mp
    rw [UInt32.toNat_mod]
    exact haddr
  have hsum : (size + 4096 - 1).toNat = size.toNat + 4095 := by
    rw [UInt32.toNat_sub, UInt32.toNat_add]
    simp only [UInt32.reduceToNat]
    omega
  have hround : ((size + 4096 - 1) &&& 0xfffff000).toNat = (size.toNat + 4095) / 4096 * 4096 := by
    rw [toNat_and_page, hsum]
    omega
  have hcount : (((size + 4096 - 1) &&& 0xfffff000).toInt32.toInt.tdiv 4096).toNat = (size.toNat + 4095) / 4096 := by
    rw [toInt_of_lt (by rw [hround]; omega), hround, Int.tdiv_eq_ediv_of_nonneg (by omega)]
    omega
  have haddrs : ∀ p < (size.toNat + 4095) / 4096, (addr + UInt32.ofNat p * 4096).toNat = addr.toNat + p * 4096 := by
    intro p hp
    rw [UInt32.toNat_add, UInt32.toNat_mul, toNat_ofNat_of_lt (by omega)]
    simp only [UInt32.reduceToNat]
    omega
  refine ⟨_, by rw [localErase, if_pos hmod], ?_⟩
  rw [hcount]
  constructor
  · intro op hop
    obtain ⟨p, -, rfl⟩ := List.mem_map.mp hop
    trivial
  · intro m x hle hlt
    exact sectors_ones haddr haddrs hle (by omega)
  · intro op hop
    obtain ⟨p, hp, rfl⟩ := List.mem_map.mp hop
    have hlt := List.mem_range.mp hp
    have hto := haddrs p hlt
    constructor
    · omega
    · omega

theorem dspErase_spec {addr : UInt32} {size : Nat} (hfit : addr.toNat + size ≤ 2 ^ 32) :
    ErasesRange (dspErase addr size) addr.toNat (addr.toNat + size) := by
  induction size using Nat.strong_induction_on generalizing addr with
  | _ size ih =>
    rw [dspErase]
    split
    next hpos =>
      have hpos : 0 < size := Int.natCast_pos.mp hpos
      have hstep := pieceSize_pos addr hpos
      have hle := pieceSize_le addr size
      have hpiece := pieceSize_fits addr size
      have hoffset := toNat_and_fff addr
      have hpage := toNat_and_page addr
      have hlt := addr.toNat_lt
      unfold eftlPageSize at hpiece
      have hcast : (size : Int) - (pieceSize addr size : Nat) = ((size - pieceSize addr size : Nat) : Int) := by
        omega
      simp only [Int.toNat_natCast, hcast]
      by_cases hlast : pieceSize addr size = size
      · have hnone : dspErase (addr + UInt32.ofNat (pieceSize addr size)) ((size - pieceSize addr size : Nat) : Int) = [] := by
          rw [dspErase, dif_neg (by omega)]
        rw [hnone]
        constructor
        · intro op hop
          rw [List.mem_singleton.mp hop]
          trivial
        · intro m x hxle hxlt
          apply erase_sector_ones
          · omega
          · omega
        · intro op hop
          rw [List.mem_singleton.mp hop]
          constructor
          · omega
          · omega
      · have hnext : (addr + UInt32.ofNat (pieceSize addr size)).toNat = addr.toNat + pieceSize addr size := by
          rw [UInt32.toNat_add, toNat_ofNat_of_lt (by omega)]
          omega
        have hrest := @ih (size - pieceSize addr size) (by omega) (addr + UInt32.ofNat (pieceSize addr size)) (by omega)
        rw [hnext] at hrest
        constructor
        · intro op hop
          rcases List.mem_cons.mp hop with rfl | hop
          · trivial
          · exact hrest.erases op hop
        · intro m x hxle hxlt
          rw [applyAll_cons]
          by_cases hin : x.toNat < addr.toNat + pieceSize addr size
          · apply applyAll_erased hrest.erases
            apply erase_sector_ones
            · omega
            · omega
          · exact hrest.ones _ x (by omega) (by omega)
        · intro op hop
          rcases List.mem_cons.mp hop with rfl | hop
          · constructor
            · omega
            · omega
          · have hinside := hrest.inside op hop
            cases op with
            | erase a =>
              have hlo : (addr.toNat + pieceSize addr size) / 4096 * 4096 ≤ a.toNat / 4096 * 4096 := hinside.1
              have hhi := hinside.2
              have hend : addr.toNat + pieceSize addr size + (size - pieceSize addr size) = addr.toNat + size := by
                omega
              rw [hend] at hhi
              refine ⟨Nat.le_trans ?_ hlo, hhi⟩
              exact Nat.mul_le_mul_right _ (Nat.div_le_div_right (Nat.le_add_right _ _))
            | program a bytes => exact absurd (hrest.erases _ hop) (fun h => h)
    next hzero =>
      have hnil : size = 0 := by omega
      subst hnil
      constructor
      · intro op hop
        cases hop
      · intro m x hle hlt
        omega
      · intro op hop
        cases hop

/-- The size that the erase of the interface uses: at least one sector. -/
def eraseSize (size : UInt32) : Nat := max size.toNat 4096

/-- With good supply voltage an erase returns unless the local path is given an address
inside a sector. -/
theorem xyFlashErase_spec {env : FlashEnv} {addr size : UInt32} (hvbat : env.lowVbat = false)
    (hpath : env.viaDsp ∨ addr.toNat % 4096 = 0) (hsize : size.toNat < 2 ^ 30)
    (hfit : addr.toNat + eraseSize size + 4096 ≤ 2 ^ 32) :
    ∃ ops, xyFlashErase env addr size = some (xyOk, ops) ∧
      ErasesRange ops addr.toNat (addr.toNat + eraseSize size) := by
  have hsmall : (if size < 4096 then 4096 else size).toNat = eraseSize size := by
    unfold eraseSize
    split
    next hlt =>
      have hlt' := UInt32.lt_iff_toNat_lt.mp hlt
      simp only [UInt32.reduceToNat] at hlt' ⊢
      omega
    next hge =>
      have hge' := UInt32.not_lt.mp hge
      rw [UInt32.le_iff_toNat_le] at hge'
      simp only [UInt32.reduceToNat] at hge'
      omega
  have hbound : eraseSize size < 2 ^ 30 := by
    unfold eraseSize
    omega
  unfold xyFlashErase
  generalize (if size < 4096 then 4096 else size) = size' at hsmall ⊢
  rw [if_neg (by rw [hvbat]; exact Bool.false_ne_true)]
  by_cases hdsp : env.viaDsp
  · rw [if_pos hdsp, toInt_of_lt (by omega), hsmall]
    exact ⟨_, rfl, dspErase_spec (by omega)⟩
  · obtain ⟨ops, hops, hspec⟩ := localErase_spec (hpath.resolve_left hdsp)
      (show size'.toNat < 2 ^ 30 by omega) (by omega)
    rw [if_neg hdsp, hops]
    rw [hsmall] at hspec
    exact ⟨ops, rfl, hspec⟩

theorem xyFlashErase_stops {env : FlashEnv} {addr size : UInt32} (hvbat : env.lowVbat = false)
    (hdsp : ¬ env.viaDsp) (haddr : addr.toNat % 4096 ≠ 0) : xyFlashErase env addr size = none := by
  have hmod : ¬ addr % 4096 = 0 := by
    intro h
    have hto := congrArg UInt32.toNat h
    rw [UInt32.toNat_mod] at hto
    exact haddr hto
  unfold xyFlashErase
  dsimp only
  rw [if_neg (by rw [hvbat]; exact Bool.false_ne_true), if_neg hdsp, localErase, if_neg hmod]
  rfl

/-- The requests for programming stay inside the bytes that they are made for. -/
theorem dspProgram_inside {addr : UInt32} {bytes : List UInt8} {lo hi : Nat} (hlo : lo ≤ addr.toNat)
    (hhi : addr.toNat + bytes.length ≤ hi) (hmax : hi ≤ 2 ^ 32) :
    ∀ op ∈ dspProgram addr bytes, Inside lo hi op := by
  induction h : bytes.length using Nat.strong_induction_on generalizing addr bytes with
  | _ size ih =>
    intro op hop
    rw [dspProgram] at hop
    split at hop
    next hpos =>
      have hstep := pieceSize_pos addr hpos
      have hle := pieceSize_le addr bytes.length
      rcases List.mem_cons.mp hop with rfl | hop
      · refine Or.inr ⟨hlo, ?_⟩
        rw [List.length_take]
        omega
      · by_cases hlast : pieceSize addr bytes.length = bytes.length
        · have hnone : dspProgram (addr + UInt32.ofNat (pieceSize addr bytes.length))
              (bytes.drop (pieceSize addr bytes.length)) = [] := by
            rw [hlast, List.drop_length, dspProgram, dif_neg (by decide)]
          rw [hnone] at hop
          cases hop
        · have hnext : (addr + UInt32.ofNat (pieceSize addr bytes.length)).toNat =
              addr.toNat + pieceSize addr bytes.length := by
            rw [UInt32.toNat_add, toNat_ofNat_of_lt (by omega)]
            omega
          have hrest : (bytes.drop (pieceSize addr bytes.length)).length = bytes.length - pieceSize addr bytes.length :=
            List.length_drop
          exact ih _ (by omega) (by omega) (by omega) hrest op hop
    next => cases hop

theorem xyFlashWriteNoErase_spec {env : FlashEnv} {addr : UInt32} (bytes : List UInt8)
    (hvbat : env.lowVbat = false) (haddr : inFlash addr) (hlen : addr.toNat + bytes.length ≤ 2 ^ 32) :
    ∃ ops, xyFlashWriteNoErase env addr bytes = some (xyOk, ops) ∧
      (∀ m, applyAll ops m = program m addr bytes) ∧
      ∀ lo hi, lo ≤ addr.toNat → addr.toNat + bytes.length ≤ hi → hi ≤ 2 ^ 32 → ∀ op ∈ ops, Inside lo hi op := by
  rw [xyFlashWriteNoErase, if_pos haddr, if_neg (by rw [hvbat]; exact Bool.false_ne_true)]
  refine ⟨_, rfl, ?_, ?_⟩
  · intro m
    split
    · by_cases hfull : bytes.length < 2 ^ 32
      · exact applyAll_dspProgram addr bytes m hfull
      · have hzero := haddr
        rw [inFlash, Bool.and_eq_true, decide_eq_true_eq, UInt32.le_iff_toNat_le] at hzero
        have hbase : flashBase.toNat = 0x27000000 := rfl
        omega
    · rfl
  · intro lo hi hlo hhi hmax op hop
    split at hop
    · exact dspProgram_inside hlo hhi hmax op hop
    · rw [List.mem_singleton.mp hop]
      exact Or.inr ⟨hlo, hhi⟩

/-- Whatever the state of the flash interface, an erase that returns stays in the sectors
around its range. -/
theorem xyFlashErase_inside {env : FlashEnv} {addr size : UInt32} {call : Int × List FlashOp} {lo hi : Nat}
    (h : xyFlashErase env addr size = some call) (hsize : size.toNat < 2 ^ 30)
    (hlo : lo ≤ addr.toNat / 4096 * 4096) (hhi : (addr.toNat + eraseSize size + 4095) / 4096 * 4096 ≤ hi)
    (hmax : hi + 4096 ≤ 2 ^ 32) : ∀ op ∈ call.2, Inside lo hi op := by
  by_cases hvbat : env.lowVbat
  · unfold xyFlashErase at h
    dsimp only at h
    rw [if_pos hvbat] at h
    cases h
    intro op hop
    cases hop
  · by_cases hpath : env.viaDsp ∨ addr.toNat % 4096 = 0
    · obtain ⟨ops, hops, hspec⟩ := xyFlashErase_spec (Bool.not_eq_true _ ▸ hvbat) hpath hsize
        (show addr.toNat + eraseSize size + 4096 ≤ 2 ^ 32 by omega)
      rw [h] at hops
      cases hops
      intro op hop
      have hinside := hspec.inside op hop
      cases op with
      | erase a => exact ⟨Nat.le_trans hlo hinside.1, Nat.le_trans hinside.2 hhi⟩
      | program a bytes => exact absurd (hspec.erases _ hop) (fun hfalse => hfalse)
    · rw [not_or] at hpath
      rw [xyFlashErase_stops (Bool.not_eq_true _ ▸ hvbat) hpath.1 hpath.2] at h
      cases h

theorem xyFlashWriteNoErase_inside {env : FlashEnv} {addr : UInt32} {bytes : List UInt8}
    {call : Int × List FlashOp} {lo hi : Nat} (h : xyFlashWriteNoErase env addr bytes = some call)
    (hlo : lo ≤ addr.toNat) (hhi : addr.toNat + bytes.length ≤ hi) (hmax : hi ≤ 2 ^ 32) :
    ∀ op ∈ call.2, Inside lo hi op := by
  by_cases haddr : inFlash addr
  · by_cases hvbat : env.lowVbat
    · rw [xyFlashWriteNoErase, if_pos haddr, if_pos hvbat] at h
      cases h
      intro op hop
      cases hop
    · obtain ⟨ops, hops, -, hinside⟩ := xyFlashWriteNoErase_spec bytes (Bool.not_eq_true _ ▸ hvbat) haddr
        (show addr.toNat + bytes.length ≤ 2 ^ 32 by omega)
      rw [h] at hops
      cases hops
      exact hinside lo hi hlo hhi hmax
  · rw [xyFlashWriteNoErase, if_neg haddr] at h
    cases h

/-- Operations inside a sector-aligned region leave every byte behind it as it is. -/
theorem applyAll_behind {ops : List FlashOp} {lo hi : Nat} (h : ∀ op ∈ ops, Inside lo hi op)
    {m : Memory} {x : UInt32} (hx : hi ≤ x.toNat) : applyAll ops m x = m x := by
  induction ops generalizing m with
  | nil => rfl
  | cons op ops ih =>
    rw [applyAll_cons, ih fun o ho => h o (List.mem_cons_of_mem op ho)]
    have hop := h op List.mem_cons_self
    cases op with
    | erase a =>
      apply eraseSector_of_ne
      have hend := hop.2
      unfold sectorLength
      omega
    | program a bytes =>
      rcases hop with rfl | ⟨-, hend⟩
      · show m x &&& 0xFF = m x
        rw [UInt8.and_comm, and_ones]
      · have hout : bytes.length ≤ (x - a).toNat := by
          rw [toNat_sub_of_le (by omega)]
          omega
        show m x &&& bytes.getD (x - a).toNat 0xFF = m x
        rw [List.getD_eq_default _ _ hout, UInt8.and_comm, and_ones]

end NbiotXY1100.FlashRanges
