import NbiotXY1100.FotaDownload
import NbiotXY1100.FlashRanges
import NbiotXY1100.StepRuns

/-! # Where a download writes

The room is checked before the header of a package says where the package goes. So a chunk
that completes the header stays in the region exactly when the place that its header names
leaves room for it; every other chunk stays inside or is refused. -/
namespace NbiotXY1100.FotaRegion
open FlashMemory FlashAdapt XyFlash ByteBuffers FlashRanges FotaDownload StepRuns

/-- A call of `ota_write_to_flash` with the state of the flash interface it meets. -/
structure Call where
  env : OtaEnv
  recvedSize : UInt32
  data : List UInt8
  /-- The length is passed as a 32-bit number. -/
  data_lt : data.length < 2 ^ 32

structure Sys where
  flash : Memory
  ota : OtaState

def outcome (img : Image) (c : Call) (s : Sys) : Outcome :=
  otaWriteToFlash c.env img c.recvedSize c.data s.flash s.ota

/-- A call that an assertion stops has no next state. -/
def step (img : Image) (c : Call) (s : Sys) : Option Sys :=
  (outcome img c s).ret.map fun r => ⟨applyAll (outcome img c s).ops s.flash, r.2⟩

/-- The state with the place and the room that the header of the package gives, once the
chunk completes it. -/
def placed (m : Memory) (s : OtaState) (data : List UInt8) : Option OtaState :=
  if s.gRecvSize.toNat < headSize ∧ headSize ≤ s.gRecvSize.toNat + data.length then
    (copyHead s.gHeadInfo s.gRecvSize (data.take (headSize - s.gRecvSize.toNat))).bind fun head =>
      checkHead m { s with gHeadInfo := some head, gRecvSize := UInt32.ofNat headSize } head
  else some s

/-- The bytes received so far and the chunk reach beyond the end of the region. -/
def Leaves (m : Memory) (s : OtaState) (data : List UInt8) : Prop :=
  regionEnd < ((placed m s data).getD s).gFlashBase.toNat + s.gRecvSize.toNat + data.length

def regionStart (img : Image) : Nat := (xyGetOtaFlashInfo img).1.toNat

/-- Everything that the call erases or programs lies in the region, and a call that would
leave it fails, resets the state and touches nothing. -/
structure CallSafe (img : Image) (c : Call) (s : Sys) : Prop where
  inside : ∀ op ∈ (outcome img c s).ops, Inside (regionStart img) regionEnd op
  refused : ∀ t, prepare img s.flash c.recvedSize s.ota = some t → Leaves s.flash t c.data →
    outcome img c s = ⟨[], some (xyErr, OtaState.init)⟩

/-- The check of the room, in the arithmetic of the code, refuses the chunk. -/
def Refused (s : OtaState) (data : List UInt8) : Prop :=
  s.gFlashMaxlen < s.gRecvSize + UInt32.ofNat data.length

/-- The erase does nothing or stops the system. -/
def NoErase (env : OtaEnv) (base : UInt32) : Prop :=
  env.erase.lowVbat ∨ ¬ env.erase.viaDsp ∧ base.toNat % 4096 ≠ 0

/-- The condition on a chunk: it is refused for its size or completes a header that fails
its checks, or the lengths do not wrap and, where it comes with a whole header, the place
of the package leaves room for it and for the one sector that is erased at least. -/
def Contained (env : OtaEnv) (m : Memory) (s : OtaState) (data : List UInt8) : Prop :=
  Refused s data ∨
  (¬ s.gRecvSize + UInt32.ofNat data.length < UInt32.ofNat headSize ∧ placed m s data = none) ∨
  (s.gRecvSize.toNat + data.length < 2 ^ 32 ∧ ∀ t, placed m s data = some t →
    headSize ≤ s.gRecvSize.toNat + data.length →
    t.gFlashBase.toNat + s.gRecvSize.toNat + data.length ≤ regionEnd ∧
      (s.gRecvSize.toNat ≤ headSize → NoErase env t.gFlashBase ∨ t.gFlashBase.toNat + 4096 ≤ regionEnd))

def CallContained (img : Image) (c : Call) (s : Sys) : Prop :=
  ∀ t, prepare img s.flash c.recvedSize s.ota = some t → Contained c.env s.flash t c.data

/-- A download that is under way keeps its place and room together at the region's end. -/
structure Prepared (img : Image) (s : OtaState) : Prop where
  head : ∃ h, s.gHeadInfo = some h ∧ h.length = headSize
  base_le : regionStart img ≤ s.gFlashBase.toNat
  room : s.gFlashBase.toNat + s.gFlashMaxlen.toNat = regionEnd
  start : s.gRecvSize.toNat < headSize → s.gFlashBase = (xyGetOtaFlashInfo img).1

def Inv (img : Image) (s : Sys) : Prop := s.ota.gRecvSize = 0 ∨ Prepared img s.ota

variable {img : Image} (himg : img.Fits)
include himg

theorem startDownload_prepared (m : Memory) (recvedSize : UInt32) (s : OtaState) :
    Prepared img (startDownload img m recvedSize s) := by
  obtain ⟨-, -, hroom⟩ := otaFlashInfo_spec himg
  refine ⟨⟨_, rfl, ?_⟩, Nat.le_refl _, hroom, fun _ => rfl⟩
  split
  · unfold xyFlashRead
    split
    · exact read_length _ _ _
    · exact List.length_replicate
  · exact List.length_replicate

theorem prepare_prepared {m : Memory} {recvedSize : UInt32} {s t : OtaState}
    (h : s.gRecvSize = 0 ∨ Prepared img s) (hprep : prepare img m recvedSize s = some t) : Prepared img t := by
  have hafter : (if recvedSize = 0 then OtaState.init else s).gRecvSize = 0 ∨
      Prepared img (if recvedSize = 0 then OtaState.init else s) := by
    split
    · exact Or.inl rfl
    · exact h
  unfold prepare at hprep
  generalize (if recvedSize = 0 then OtaState.init else s) = u at hprep hafter
  dsimp only at hprep
  split at hprep
  · split at hprep
    · cases hprep
    · cases hprep
      exact startDownload_prepared himg m recvedSize u
  next hrecv =>
    cases hprep
    exact hafter.resolve_left hrecv

omit himg

section Chunk

variable {env : OtaEnv} {m : Memory} {s t : OtaState} {data : List UInt8}

/-- The header is whole with this chunk or was before. -/
theorem recv_sum_lt_iff (hlen : data.length < 2 ^ 32) (hnowrap : s.gRecvSize.toNat + data.length < 2 ^ 32) :
    s.gRecvSize + UInt32.ofNat data.length < UInt32.ofNat headSize ↔
      s.gRecvSize.toNat + data.length < headSize := by
  have hhead : (UInt32.ofNat headSize).toNat = headSize := rfl
  rw [UInt32.lt_iff_toNat_lt, UInt32.toNat_add, toNat_ofNat_of_lt hlen, hhead, Nat.mod_eq_of_lt hnowrap]

theorem headSize_le_of_not_lt (hlen : data.length < 2 ^ 32)
    (h : ¬ s.gRecvSize + UInt32.ofNat data.length < UInt32.ofNat headSize) :
    headSize ≤ s.gRecvSize.toNat + data.length := by
  have hhead : (UInt32.ofNat headSize).toNat = headSize := rfl
  rw [UInt32.lt_iff_toNat_lt, UInt32.toNat_add, toNat_ofNat_of_lt hlen, hhead] at h
  unfold headSize at *
  omega

theorem recv_lt_iff : s.gRecvSize < UInt32.ofNat headSize ↔ s.gRecvSize.toNat < headSize := by
  rw [UInt32.lt_iff_toNat_lt]
  rfl

theorem proc_refused (h : Refused s data) : otaDownlinkPacketProc env m s data = ⟨[], some (xyErr, s)⟩ :=
  if_pos h

/-- A chunk that the room admits and that leaves the header incomplete only goes to RAM. -/
theorem proc_incomplete (h : ¬ Refused s data)
    (hpart : s.gRecvSize + UInt32.ofNat data.length < UInt32.ofNat headSize) :
    otaDownlinkPacketProc env m s data = ⟨[], (copyHead s.gHeadInfo s.gRecvSize data).map fun head =>
      (xyOk, { s with gHeadInfo := some head, gRecvSize := s.gRecvSize + UInt32.ofNat data.length })⟩ := by
  unfold Refused at h
  rw [otaDownlinkPacketProc]
  dsimp only
  rw [if_neg h, if_pos hpart]

/-- With a whole header the chunk, less what the header lacked, is stored. -/
theorem proc_stored (hlen : data.length < 2 ^ 32) (h : ¬ Refused s data)
    (hwhole : ¬ s.gRecvSize + UInt32.ofNat data.length < UInt32.ofNat headSize)
    (hplaced : placed m s data = some t) :
    otaDownlinkPacketProc env m s data = storeChunk env t (data.drop (headSize - s.gRecvSize.toNat)) := by
  have hsum := headSize_le_of_not_lt hlen hwhole
  unfold Refused at h
  rw [otaDownlinkPacketProc]
  dsimp only
  rw [if_neg h, if_neg hwhole]
  unfold placed at hplaced
  by_cases hrecv : s.gRecvSize.toNat < headSize
  · rw [if_pos ⟨hrecv, hsum⟩] at hplaced
    obtain ⟨head, hcopy, hcheck⟩ := Option.bind_eq_some_iff.mp hplaced
    rw [if_pos (recv_lt_iff.mpr hrecv), hcopy]
    dsimp only
    rw [hcheck]
  · rw [if_neg fun hboth => hrecv hboth.1] at hplaced
    cases hplaced
    rw [if_neg fun hlt => hrecv (recv_lt_iff.mp hlt), Nat.sub_eq_zero_of_le (Nat.not_lt.mp hrecv), List.drop_zero]

/-- A header that fails a check makes the call fail with nothing stored. -/
theorem proc_badHead (hlen : data.length < 2 ^ 32) (hhead : ∃ h, s.gHeadInfo = some h ∧ h.length = headSize)
    (h : ¬ Refused s data) (hwhole : ¬ s.gRecvSize + UInt32.ofNat data.length < UInt32.ofNat headSize)
    (hplaced : placed m s data = none) :
    ∃ u, otaDownlinkPacketProc env m s data = ⟨[], some (xyErr, u)⟩ := by
  have hsum := headSize_le_of_not_lt hlen hwhole
  unfold Refused at h
  rw [otaDownlinkPacketProc]
  dsimp only
  rw [if_neg h, if_neg hwhole]
  unfold placed at hplaced
  by_cases hrecv : s.gRecvSize.toNat < headSize
  · obtain ⟨old, hold, -⟩ := hhead
    have hcopy : copyHead s.gHeadInfo s.gRecvSize (data.take (headSize - s.gRecvSize.toNat)) =
        some (splice old s.gRecvSize.toNat (data.take (headSize - s.gRecvSize.toNat))) := by
      rw [copyHead, hold, Option.bind_some, if_pos]
      rw [List.length_take]
      omega
    rw [if_pos ⟨hrecv, hsum⟩, hcopy, Option.bind_some] at hplaced
    rw [if_pos (recv_lt_iff.mpr hrecv), hcopy]
    dsimp only
    rw [hplaced]
    exact ⟨_, rfl⟩
  · rw [if_neg fun hboth => hrecv hboth.1] at hplaced
    cases hplaced

/-- The call touches nothing and returns an error. -/
def Fails (o : Outcome) : Prop := o.ops = [] ∧ ∃ r, o.ret = some r ∧ r.1 ≠ xyOk

/-- Storing never reports an error. -/
theorem storeChunk_not_fails (input : List UInt8) : ¬ Fails (storeChunk env t input) := by
  rintro ⟨-, r, hret, herr⟩
  rw [storeChunk_ret hret] at herr
  exact herr rfl

/-- Neither does a chunk of an incomplete header. -/
theorem incomplete_not_fails (h : ¬ Refused s data)
    (hpart : s.gRecvSize + UInt32.ofNat data.length < UInt32.ofNat headSize) :
    ¬ Fails (otaDownlinkPacketProc env m s data) := by
  rintro ⟨-, r, hret, herr⟩
  rw [proc_incomplete h hpart] at hret
  obtain ⟨head, -, rfl⟩ := Option.map_eq_some_iff.mp hret
  exact herr rfl

/-- The place and the room that a header gives still add up to the region's end. -/
theorem placed_spec (hprep : Prepared img s) (hplaced : placed m s data = some t) :
    (∃ h, t.gHeadInfo = some h ∧ h.length = headSize) ∧ s.gFlashBase.toNat ≤ t.gFlashBase.toNat ∧
      (t.gFlashBase.toNat ≤ regionEnd → t.gFlashBase.toNat + t.gFlashMaxlen.toNat = regionEnd) ∧
      t.gRecvSize.toNat = (if s.gRecvSize.toNat < headSize ∧ headSize ≤ s.gRecvSize.toNat + data.length
        then headSize else s.gRecvSize.toNat) := by
  unfold placed at hplaced
  split at hplaced
  next hboth =>
    obtain ⟨head, hcopy, hcheck⟩ := Option.bind_eq_some_iff.mp hplaced
    obtain ⟨old, hold, holdlen⟩ := hprep.head
    rw [copyHead, hold, Option.bind_some] at hcopy
    split at hcopy
    next hfit =>
      cases hcopy
      unfold checkHead at hcheck
      split at hcheck
      · cases hcheck
      · split at hcheck
        · cases hcheck
        · split at hcheck
          · cases hcheck
          next hbase =>
            cases hcheck
            have hle := UInt32.le_iff_toNat_le.mp (UInt32.not_lt.mp hbase)
            dsimp only at hle ⊢
            refine ⟨⟨_, rfl, ?_⟩, hle, ?_, (if_pos hboth).symm⟩
            · rw [splice_length (by omega), holdlen]
            · intro hend
              have hroom := hprep.room
              have hmoved := toNat_sub_of_le hle
              rw [toNat_sub_of_le (by omega), hmoved]
              omega
    next => cases hcopy
  next hnot =>
    cases hplaced
    exact ⟨hprep.head, Nat.le_refl _, fun _ => hprep.room, (if_neg hnot).symm⟩

theorem sequence_inside {calls : List (Option (Int × List FlashOp))} {lo hi : Nat}
    (h : ∀ call, some call ∈ calls → ∀ op ∈ call.2, Inside lo hi op) :
    ∀ op ∈ (FotaDownload.sequence calls).1, Inside lo hi op := by
  induction calls with
  | nil =>
    intro op hop
    cases hop
  | cons call calls ih =>
    cases call with
    | none =>
      intro op hop
      cases hop
    | some call =>
      intro op hop
      rcases List.mem_append.mp hop with hop | hop
      · exact h call List.mem_cons_self op hop
      · exact ih (fun c hc => h c (List.mem_cons_of_mem _ hc)) op hop

/-- The erase takes one sector even where the rest of the region is shorter. -/
theorem erase_inside (hstart : armFlashBaseAddr.toNat ≤ regionStart img ∧ regionStart img % 4096 = 0)
    (hbase : regionStart img ≤ t.gFlashBase.toNat) (hroom : t.gFlashBase.toNat + t.gFlashMaxlen.toNat = regionEnd)
    (herase : NoErase env t.gFlashBase ∨ t.gFlashBase.toNat + 4096 ≤ regionEnd) {call : Int × List FlashOp}
    (hcall : xyFlashErase env.erase t.gFlashBase t.gFlashMaxlen = some call) :
    ∀ op ∈ call.2, Inside (regionStart img) regionEnd op := by
  have hflash : armFlashBaseAddr.toNat = 0x2711F000 := rfl
  unfold regionEnd at *
  rcases herase with (hvbat | ⟨hdsp, haddr⟩) | hsector
  · unfold xyFlashErase at hcall
    dsimp only at hcall
    rw [if_pos hvbat] at hcall
    cases hcall
    intro op hop
    cases hop
  · by_cases hvbat : env.erase.lowVbat
    · unfold xyFlashErase at hcall
      dsimp only at hcall
      rw [if_pos hvbat] at hcall
      cases hcall
      intro op hop
      cases hop
    · rw [xyFlashErase_stops (Bool.not_eq_true _ ▸ hvbat) hdsp haddr] at hcall
      cases hcall
  · apply xyFlashErase_inside hcall
    · omega
    · omega
    · unfold eraseSize
      omega
    · omega

/-- A package that fits behind its place is stored inside the region. -/
theorem storeChunk_inside (hstart : armFlashBaseAddr.toNat ≤ regionStart img ∧ regionStart img % 4096 = 0)
    (hbase : regionStart img ≤ t.gFlashBase.toNat) (hroom : t.gFlashBase.toNat + t.gFlashMaxlen.toNat = regionEnd)
    (hhead : ∃ h, t.gHeadInfo = some h ∧ h.length = headSize)
    {input : List UInt8} (hfit : t.gFlashBase.toNat + t.gRecvSize.toNat + input.length ≤ regionEnd)
    (herase : t.gRecvSize.toNat = headSize → NoErase env t.gFlashBase ∨ t.gFlashBase.toNat + 4096 ≤ regionEnd) :
    ∀ op ∈ (storeChunk env t input).ops, Inside (regionStart img) regionEnd op := by
  have hmax : regionEnd = 0x271EC000 := rfl
  have hsize : (UInt32.ofNat headSize).toNat = headSize := rfl
  unfold storeChunk
  apply sequence_inside
  intro call hcall
  split at hcall
  next hfirst =>
    have hexact : t.gRecvSize.toNat = headSize := (congrArg UInt32.toNat hfirst).trans hsize
    have hbehind : (t.gFlashBase + UInt32.ofNat headSize).toNat = t.gFlashBase.toNat + headSize := by
      rw [UInt32.toNat_add, hsize, Nat.mod_eq_of_lt]
      omega
    obtain ⟨head, hsome, hlen⟩ := hhead
    rw [hsome, Option.bind_some] at hcall
    rcases List.mem_append.mp hcall with hcall | hcall
    · rcases List.mem_cons.mp hcall with hcall | hcall
      · exact erase_inside hstart hbase hroom (herase hexact) hcall.symm
      · apply xyFlashWriteNoErase_inside (List.mem_singleton.mp hcall).symm hbase
        · omega
        · omega
    · split at hcall
      · apply xyFlashWriteNoErase_inside (List.mem_singleton.mp hcall).symm
        · omega
        · omega
        · omega
      · cases hcall
  next hlater =>
    have hbehind : (t.gFlashBase + t.gRecvSize).toNat = t.gFlashBase.toNat + t.gRecvSize.toNat := by
      rw [UInt32.toNat_add, Nat.mod_eq_of_lt]
      omega
    apply xyFlashWriteNoErase_inside (List.mem_singleton.mp hcall).symm
    · omega
    · omega
    · omega

/-- An erase that takes the last sector's rest and more reaches behind the region. -/
theorem storeChunk_erase_fits (hrecv : t.gRecvSize.toNat = headSize) {input : List UInt8} {lo : Nat}
    (hroom : t.gFlashBase.toNat + t.gFlashMaxlen.toNat = regionEnd)
    (h : ∀ op ∈ (storeChunk env t input).ops, Inside lo regionEnd op) :
    NoErase env t.gFlashBase ∨ t.gFlashBase.toNat + 4096 ≤ regionEnd := by
  have hmax : regionEnd = 0x271EC000 := rfl
  rw [or_iff_not_imp_left]
  intro herase
  unfold NoErase at herase
  rw [not_or, Bool.not_eq_true] at herase
  obtain ⟨hvbat, hpath⟩ := herase
  have hpath : env.erase.viaDsp ∨ t.gFlashBase.toNat % 4096 = 0 := by
    by_cases hdsp : env.erase.viaDsp
    · exact Or.inl hdsp
    · exact Or.inr (Decidable.byContradiction fun haddr => hpath ⟨hdsp, haddr⟩)
  by_cases hlen : t.gFlashMaxlen.toNat < 2 ^ 30
  · obtain ⟨ops, hcall, hspec⟩ := xyFlashErase_spec hvbat hpath hlen (by unfold eraseSize; omega)
    have hfirst : t.gRecvSize = UInt32.ofNat headSize := UInt32.toNat_inj.mp hrecv
    have hmem : ∀ op ∈ ops, op ∈ (storeChunk env t input).ops := by
      intro op hop
      unfold storeChunk
      dsimp only
      rw [if_pos hfirst, hcall]
      exact List.mem_append_left _ hop
    have hinside : ∀ op ∈ ops, Inside lo regionEnd op := fun op hop => h op (hmem op hop)
    apply Decidable.byContradiction
    intro hbeyond
    have hkept := applyAll_behind (m := fun _ => 0) hinside
      (show regionEnd ≤ (UInt32.ofNat regionEnd).toNat from Nat.le_refl _)
    have hones := hspec.ones (fun _ => 0) (UInt32.ofNat regionEnd)
      (show t.gFlashBase.toNat ≤ regionEnd by omega)
      (show regionEnd < t.gFlashBase.toNat + eraseSize t.gFlashMaxlen by unfold eraseSize; omega)
    rw [hkept] at hones
    exact absurd hones (by decide)
  · omega

/-- The bytes that are stored are those received so far and the chunk. -/
theorem placed_length (hprep : Prepared img s) (hplaced : placed m s data = some t)
    (hsum : headSize ≤ s.gRecvSize.toNat + data.length) :
    t.gRecvSize.toNat + (data.drop (headSize - s.gRecvSize.toNat)).length = s.gRecvSize.toNat + data.length ∧
      headSize ≤ t.gRecvSize.toNat ∧ (t.gRecvSize.toNat = headSize ↔ s.gRecvSize.toNat ≤ headSize) := by
  obtain ⟨-, -, -, hrecv⟩ := placed_spec hprep hplaced
  rw [List.length_drop, hrecv]
  split
  next hboth => exact ⟨by omega, Nat.le_refl _, fun _ => Nat.le_of_lt hboth.1, fun _ => rfl⟩
  next hnot =>
    have hwhole : headSize ≤ s.gRecvSize.toNat := Nat.not_lt.mp fun hlt => hnot ⟨hlt, hsum⟩
    exact ⟨by omega, hwhole, Nat.le_of_eq, fun hle => Nat.le_antisymm hle hwhole⟩

variable (img) in
/-- What is asked of a chunk, for the state that it is handed on in. -/
def ChunkSafe (env : OtaEnv) (m : Memory) (s : OtaState) (data : List UInt8) : Prop :=
  (∀ op ∈ (otaDownlinkPacketProc env m s data).ops, Inside (regionStart img) regionEnd op) ∧
    (Leaves m s data → Fails (otaDownlinkPacketProc env m s data))

theorem chunkSafe_of_fails (h : Fails (otaDownlinkPacketProc env m s data)) : ChunkSafe img env m s data := by
  refine ⟨?_, fun _ => h⟩
  rw [h.1]
  intro op hop
  cases hop

theorem contained_of_chunkSafe (hprep : Prepared img s) (hlen : data.length < 2 ^ 32)
    (h : ChunkSafe img env m s data) : Contained env m s data := by
  have hmax : regionEnd = 0x271EC000 := rfl
  by_cases hrefused : Refused s data
  · exact Or.inl hrefused
  have hstays : ¬ Fails (otaDownlinkPacketProc env m s data) →
      ((placed m s data).getD s).gFlashBase.toNat + s.gRecvSize.toNat + data.length ≤ regionEnd :=
    fun hnot => Nat.not_lt.mp fun hleaves => hnot (h.2 hleaves)
  by_cases hwhole : s.gRecvSize + UInt32.ofNat data.length < UInt32.ofNat headSize
  · have hfit := hstays (incomplete_not_fails hrefused hwhole)
    have hnowrap : s.gRecvSize.toNat + data.length < 2 ^ 32 := by omega
    have hpart := (recv_sum_lt_iff hlen hnowrap).mp hwhole
    exact Or.inr (Or.inr ⟨hnowrap, fun _ _ hsum => absurd hpart (Nat.not_lt.mpr hsum)⟩)
  · cases hplaced : placed m s data with
    | none => exact Or.inr (Or.inl ⟨hwhole, hplaced⟩)
    | some t =>
      have hproc := @proc_stored env m s t data hlen hrefused hwhole hplaced
      rw [hproc] at hstays
      have hfit := hstays (storeChunk_not_fails _)
      rw [hplaced, Option.getD_some] at hfit
      refine Or.inr (Or.inr ⟨by omega, ?_⟩)
      intro u hu hsum
      rw [hplaced] at hu
      cases hu
      refine ⟨hfit, fun hrecv => ?_⟩
      have hroom := (placed_spec hprep hplaced).2.2.1 (by omega)
      have hexact := (placed_length hprep hplaced hsum).2.2.mpr hrecv
      have hinside := h.1
      rw [hproc] at hinside
      exact storeChunk_erase_fits hexact hroom hinside

theorem chunkSafe_of_contained (himg : img.Fits) (hprep : Prepared img s) (hlen : data.length < 2 ^ 32)
    (h : Contained env m s data) : ChunkSafe img env m s data := by
  have hmax : regionEnd = 0x271EC000 := rfl
  by_cases hrefused : Refused s data
  · apply chunkSafe_of_fails
    rw [proc_refused hrefused]
    exact ⟨rfl, _, rfl, xyErr_ne_xyOk⟩
  by_cases hwhole : s.gRecvSize + UInt32.ofNat data.length < UInt32.ofNat headSize
  · obtain ⟨hnowrap, -⟩ := (h.resolve_left hrefused).resolve_left fun hbad => hbad.1 hwhole
    constructor
    · rw [proc_incomplete hrefused hwhole]
      intro op hop
      cases hop
    · intro hleaves
      -- before the header is whole the room that was checked ends at the region's end
      have hpart := (recv_sum_lt_iff hlen hnowrap).mp hwhole
      have hplaced : placed m s data = some s :=
        if_neg fun hboth => absurd hboth.2 (Nat.not_le.mpr hpart)
      have hroom := hprep.room
      unfold Leaves at hleaves
      rw [hplaced, Option.getD_some] at hleaves
      unfold Refused at hrefused
      rw [UInt32.lt_iff_toNat_lt, UInt32.toNat_add, toNat_ofNat_of_lt hlen, Nat.mod_eq_of_lt hnowrap] at hrefused
      omega
  · cases hplaced : placed m s data with
    | none =>
      obtain ⟨u, hproc⟩ := @proc_badHead env m s data hlen hprep.head hrefused hwhole hplaced
      apply chunkSafe_of_fails
      rw [hproc]
      exact ⟨rfl, _, rfl, xyErr_ne_xyOk⟩
    | some t =>
      have hsum := headSize_le_of_not_lt hlen hwhole
      obtain ⟨-, hbound⟩ := (h.resolve_left hrefused).resolve_left fun hbad => by
        rw [hplaced] at hbad
        cases hbad.2
      obtain ⟨hfit, herase⟩ := hbound t hplaced hsum
      obtain ⟨hhead, hbase, hroom, -⟩ := placed_spec hprep hplaced
      obtain ⟨hlength, -, hexact⟩ := placed_length hprep hplaced hsum
      obtain ⟨hlow, haligned, -⟩ := otaFlashInfo_spec himg
      constructor
      · rw [proc_stored hlen hrefused hwhole hplaced]
        apply storeChunk_inside ⟨hlow, haligned⟩ (Nat.le_trans hprep.base_le hbase) (hroom (by omega)) hhead
        · omega
        · exact fun hfirst => herase (hexact.mp hfirst)
      · intro hleaves
        unfold Leaves at hleaves
        rw [hplaced, Option.getD_some] at hleaves
        exact absurd hfit (Nat.not_le.mpr hleaves)

end Chunk

section Runs

variable {c : Call} {s s' : Sys} {t : OtaState}

theorem outcome_of_prepare (hprep : prepare img s.flash c.recvedSize s.ota = some t) :
    outcome img c s = ⟨(otaDownlinkPacketProc c.env s.flash t c.data).ops,
      (otaDownlinkPacketProc c.env s.flash t c.data).ret.map fun r =>
        if r.1 ≠ xyOk then (xyErr, OtaState.init) else (xyOk, r.2)⟩ := by
  rw [outcome, otaWriteToFlash, hprep]

theorem outcome_of_restart (hprep : prepare img s.flash c.recvedSize s.ota = none) :
    outcome img c s = ⟨[], some (xyErrNotAllowed, s.ota)⟩ := by
  rw [outcome, otaWriteToFlash, hprep]

/-- The wrapper turns every failure into the same error and a fresh state. -/
theorem outcome_error_iff (hprep : prepare img s.flash c.recvedSize s.ota = some t) :
    outcome img c s = ⟨[], some (xyErr, OtaState.init)⟩ ↔ Fails (otaDownlinkPacketProc c.env s.flash t c.data) := by
  rw [outcome_of_prepare hprep, Outcome.mk.injEq, Option.map_eq_some_iff]
  apply and_congr_right
  intro _
  apply exists_congr
  intro r
  apply and_congr_right
  intro _
  split
  next herr => exact ⟨fun _ => herr, fun _ => rfl⟩
  next hok =>
    refine ⟨fun h => ?_, fun herr => absurd herr hok⟩
    exact absurd (congrArg Prod.fst h).symm xyErr_ne_xyOk

theorem callSafe_iff (himg : img.Fits) (hinv : Inv img s) : CallSafe img c s ↔ CallContained img c s := by
  constructor
  · intro h t hprep
    apply contained_of_chunkSafe (prepare_prepared himg hinv hprep) c.data_lt
    have hinside := h.inside
    rw [outcome_of_prepare hprep] at hinside
    exact ⟨hinside, fun hleaves => (outcome_error_iff hprep).mp (h.refused t hprep hleaves)⟩
  · intro h
    cases hprep : prepare img s.flash c.recvedSize s.ota with
    | none =>
      constructor
      · rw [outcome_of_restart hprep]
        intro op hop
        cases hop
      · intro t ht
        rw [hprep] at ht
        cases ht
    | some t =>
      have hsafe := chunkSafe_of_contained himg (prepare_prepared himg hinv hprep) c.data_lt (h t hprep)
      constructor
      · rw [outcome_of_prepare hprep]
        exact hsafe.1
      · intro u hu hleaves
        rw [hprep] at hu
        cases hu
        exact (outcome_error_iff hprep).mpr (hsafe.2 hleaves)

theorem inv_init (m : Memory) : Inv img ⟨m, OtaState.init⟩ := Or.inl rfl

/-- A header that is still incomplete was accepted into the room of the region. -/
theorem prepared_incomplete (hprep : Prepared img t) {data : List UInt8} {head : List UInt8}
    (hpart : t.gRecvSize.toNat + data.length < headSize) (hcopy : copyHead t.gHeadInfo t.gRecvSize data = some head)
    (recv : UInt32) : Prepared img { t with gHeadInfo := some head, gRecvSize := recv } := by
  obtain ⟨old, hold, hlen⟩ := hprep.head
  rw [copyHead, hold, Option.bind_some, if_pos (Nat.le_of_lt hpart)] at hcopy
  cases hcopy
  refine ⟨⟨_, rfl, ?_⟩, hprep.base_le, hprep.room, fun _ => hprep.start (by omega)⟩
  rw [splice_length (by omega), hlen]

theorem inv_step (himg : img.Fits) (hinv : Inv img s) (hc : CallContained img c s)
    (hstep : step img c s = some s') : Inv img s' := by
  have hmax : regionEnd = 0x271EC000 := rfl
  obtain ⟨r, hret, rfl⟩ := Option.map_eq_some_iff.mp hstep
  cases hprep : prepare img s.flash c.recvedSize s.ota with
  | none =>
    rw [outcome_of_restart hprep] at hret
    cases hret
    exact hinv
  | some t =>
    have ht := prepare_prepared himg hinv hprep
    by_cases hfails : Fails (otaDownlinkPacketProc c.env s.flash t c.data)
    · rw [(outcome_error_iff hprep).mpr hfails] at hret
      cases hret
      exact inv_init _
    rw [outcome_of_prepare hprep] at hret
    obtain ⟨r', hret', rfl⟩ := Option.map_eq_some_iff.mp hret
    right
    by_cases hrefused : Refused t c.data
    · exact absurd (show Fails _ by rw [proc_refused hrefused]; exact ⟨rfl, _, rfl, xyErr_ne_xyOk⟩) hfails
    by_cases hwhole : t.gRecvSize + UInt32.ofNat c.data.length < UInt32.ofNat headSize
    · obtain ⟨hnowrap, -⟩ := ((hc t hprep).resolve_left hrefused).resolve_left fun hbad => hbad.1 hwhole
      rw [proc_incomplete hrefused hwhole] at hret'
      obtain ⟨head, hcopy, rfl⟩ := Option.map_eq_some_iff.mp hret'
      rw [if_neg fun h => h rfl]
      exact prepared_incomplete ht ((recv_sum_lt_iff c.data_lt hnowrap).mp hwhole) hcopy _
    · cases hplaced : placed s.flash t c.data with
      | none =>
        obtain ⟨u, hproc⟩ := @proc_badHead c.env s.flash t c.data c.data_lt ht.head hrefused hwhole hplaced
        exact absurd (show Fails _ by rw [hproc]; exact ⟨rfl, _, rfl, xyErr_ne_xyOk⟩) hfails
      | some u =>
        have hsum := headSize_le_of_not_lt c.data_lt hwhole
        obtain ⟨hnowrap, hbound⟩ := ((hc t hprep).resolve_left hrefused).resolve_left fun hbad => by
          rw [hplaced] at hbad
          cases hbad.2
        have hfit := (hbound u hplaced hsum).1
        obtain ⟨hhead, hbase, hroom, -⟩ := placed_spec ht hplaced
        obtain ⟨hlength, hwhole', -⟩ := placed_length ht hplaced hsum
        rw [proc_stored c.data_lt hrefused hwhole hplaced] at hret'
        rw [storeChunk_ret hret', if_neg fun h => h rfl]
        refine ⟨hhead, Nat.le_trans ht.base_le hbase, hroom (by omega), fun hpart => ?_⟩
        have hrecv : (u.gRecvSize + UInt32.ofNat (c.data.drop (headSize - t.gRecvSize.toNat)).length).toNat =
            t.gRecvSize.toNat + c.data.length := by
          rw [UInt32.toNat_add, toNat_ofNat_of_lt (by omega), hlength, Nat.mod_eq_of_lt hnowrap]
        have hpart : (u.gRecvSize + UInt32.ofNat (c.data.drop (headSize - t.gRecvSize.toNat)).length).toNat <
            headSize := hpart
        omega

/-- From a fresh start every call stays in the region, and refuses what would leave it,
exactly in the runs in which every call is contained. -/
theorem download_stays_in_region (himg : img.Fits) (m : Memory) (calls : List Call) :
    Along (step img) (CallSafe img) calls ⟨m, OtaState.init⟩ ↔
      Along (step img) (CallContained img) calls ⟨m, OtaState.init⟩ := by
  have hiff : ∀ c s, Inv img s → (CallSafe img c s ↔ CallContained img c s) := fun c s => callSafe_iff himg
  have hkept : ∀ c s s', Inv img s → CallSafe img c s → step img c s = some s' → Inv img s' := by
    intro c s s' hinv hsafe hstep
    exact inv_step himg hinv ((hiff c s hinv).mp hsafe) hstep
  exact along_congr hiff hkept (inv_init m)

def sampleImage : Image := ⟨0x10000, 0x1000, 0x1000⟩

/-- A header with the place `base` for a flash whose version bytes are all zero. -/
def sampleHead (base : UInt32) : List UInt8 :=
  leBytes magicNum ++ List.replicate (fotaPacketBaseOffset - 4) 0 ++ leBytes base ++
    List.replicate (headSize - fotaPacketBaseOffset - 4) 0

theorem sampleHead_length (base : UInt32) : (sampleHead base).length = headSize := by
  simp only [sampleHead, leBytes, List.length_append, List.length_replicate, List.length_cons, List.length_nil]
  rfl

/-- A whole header with 36 bytes of data in one chunk. -/
def sampleCall (base : UInt32) : Call where
  env := ⟨⟨false, false⟩, ⟨false, false⟩, ⟨false, false⟩⟩
  recvedSize := 0
  data := sampleHead base ++ List.replicate 36 7
  data_lt := by
    rw [List.length_append, sampleHead_length, List.length_replicate]
    decide

theorem sample_stays_in_region :
    Along (step sampleImage) (CallSafe sampleImage) [sampleCall 0x27140000] ⟨fun _ => 0, OtaState.init⟩ := by
  have hfits : sampleImage.Fits := by decide
  apply (download_stays_in_region hfits _ _).mpr
  refine ⟨fun t hprep => Or.inr (Or.inr ?_), fun _ _ => trivial⟩
  have hvals : (prepare sampleImage (fun _ => 0) 0 OtaState.init).map
      (fun t => (t.gRecvSize, (placed (fun _ => 0) t (sampleCall 0x27140000).data).map OtaState.gFlashBase)) =
      some (0, some 0x27140000) := by decide +kernel
  have hprep : prepare sampleImage (fun _ => 0) 0 OtaState.init = some t := hprep
  rw [hprep, Option.map_some, Option.some.injEq, Prod.mk.injEq] at hvals
  obtain ⟨hrecv, hbase⟩ := hvals
  rw [hrecv]
  have hlen : (sampleCall 0x27140000).data.length = 200 := by decide +kernel
  rw [hlen]
  refine ⟨by decide, fun u hu _ => ?_⟩
  have hu : placed (fun _ => 0) t (sampleCall 0x27140000).data = some u := hu
  rw [hu, Option.map_some, Option.some.injEq] at hbase
  rw [hbase]
  exact ⟨by decide, fun _ => Or.inr (by decide)⟩

/-- A header that names the end of the region makes its only chunk erase and program behind it. -/
theorem header_at_end_leaves_region :
    ¬ Along (step sampleImage) (CallSafe sampleImage) [sampleCall 0x271EC000] ⟨fun _ => 0, OtaState.init⟩ := by
  intro h
  have hfirst : FlashOp.erase 0x271EC000 ∈
      (outcome sampleImage (sampleCall 0x271EC000) ⟨fun _ => 0, OtaState.init⟩).ops := by
    have hops : (outcome sampleImage (sampleCall 0x271EC000) ⟨fun _ => 0, OtaState.init⟩).ops.head? =
        some (.erase 0x271EC000) := by decide +kernel
    exact List.mem_of_mem_head? hops
  have hinside := h.1.inside _ hfirst
  exact absurd hinside.2 (by decide)

end Runs

end NbiotXY1100.FotaRegion
