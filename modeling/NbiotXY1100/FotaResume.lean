import NbiotXY1100.FotaRegion

/-! # A package in chunks, with restarts between them

Without a restart the bytes in flash and in RAM depend only on the bytes received so far.
A restart takes the start of the region for the place of the package, so it goes on rightly
exactly for packages that lie there. -/
namespace NbiotXY1100.FotaResume
open FlashMemory FlashAdapt XyFlash ByteBuffers FlashRanges FotaDownload StepRuns
open FotaRegion (sampleImage sampleHead sampleHead_length)

/-- A chunk, whether the RAM was lost before it, and the state of the flash interface. -/
structure Part where
  restart : Bool
  env : OtaEnv
  data : List UInt8

/-- Flash, RAM and the number of bytes that the caller counts as stored. -/
structure Download where
  flash : Memory
  ota : OtaState
  stored : Nat

/-- A chunk is handed on; every return value but success ends the download. -/
def step (img : Image) (c : Part) (s : Download) : Option Download :=
  let ota := if c.restart then OtaState.init else s.ota
  let o := otaWriteToFlash c.env img (UInt32.ofNat s.stored) c.data s.flash ota
  o.ret.bind fun r =>
    if r.1 = xyOk then some ⟨applyAll o.ops s.flash, r.2, s.stored + c.data.length⟩ else none

def place (p : List UInt8) : UInt32 := fotaPacketBase (p.take headSize)

/-- The header passes its checks and the package fits between its place and the region's end. -/
structure Accepted (img : Image) (m : Memory) (p : List UInt8) : Prop where
  headSize_le : headSize ≤ p.length
  magic : word (p.take headSize) 0 = magicNum
  version : otaVersionCheck m (p.take headSize) = true
  start_le : (xyGetOtaFlashInfo img).1.toNat ≤ (place p).toNat
  fits : (place p).toNat + p.length ≤ regionEnd

instance (img : Image) (m : Memory) (p : List UInt8) : Decidable (Accepted img m p) :=
  decidable_of_iff (headSize ≤ p.length ∧ word (p.take headSize) 0 = magicNum ∧
      otaVersionCheck m (p.take headSize) = true ∧ (xyGetOtaFlashInfo img).1.toNat ≤ (place p).toNat ∧
      (place p).toNat + p.length ≤ regionEnd)
    ⟨fun h => ⟨h.1, h.2.1, h.2.2.1, h.2.2.2.1, h.2.2.2.2⟩,
      fun h => ⟨h.headSize_le, h.magic, h.version, h.start_le, h.fits⟩⟩

def received (parts : List Part) : List UInt8 := parts.flatMap Part.data

/-- The chunks make up the package, and the RAM is lost only when a whole header is stored. -/
structure Splits (p : List UInt8) (parts : List Part) : Prop where
  joined : received parts = p
  nonempty : ∀ c ∈ parts, c.data ≠ []
  restarts : ∀ before c after, parts = before ++ c :: after → c.restart → headSize ≤ (received before).length

/-- Every call succeeds, the flash holds the package at its place, and the state in RAM is
that of any download of the package in one chunk. -/
def Completes (img : Image) (m : Memory) (p : List UInt8) (parts : List Part) : Prop :=
  ∃ s, run (step img) parts ⟨m, OtaState.init, 0⟩ = some s ∧ read s.flash (place p) p.length = p ∧
    ∀ env u, (otaWriteToFlash env img 0 p m OtaState.init).ret = some (xyOk, u) →
      s.ota.gFlashBase = u.gFlashBase ∧ s.ota.gFlashMaxlen = u.gFlashMaxlen ∧ s.ota.gRecvSize = u.gRecvSize

def Powered (env : OtaEnv) : Prop :=
  env.erase.lowVbat = false ∧ env.head.lowVbat = false ∧ env.rest.lowVbat = false

/-- The erase that a chunk makes returns: it goes through the other core or is aligned. -/
def Erases (p : List UInt8) (env : OtaEnv) : Prop := env.erase.viaDsp ∨ (place p).toNat % 4096 = 0

/-- The package lies at the start of the region, or no restart happens and every chunk that
comes with or just after the end of the header can erase. -/
def Resumable (img : Image) (p : List UInt8) (parts : List Part) : Prop :=
  place p = (xyGetOtaFlashInfo img).1 ∨
    (∀ c ∈ parts, ¬ c.restart) ∧ ∀ before c after, parts = before ++ c :: after →
      (received before).length ≤ headSize → headSize ≤ (received before).length + c.data.length → Erases p c.env

/-- The first `n` bytes of the package are in flash and the rest of its place is erased. -/
def Holds (m : Memory) (a : UInt32) (p : List UInt8) (n : Nat) : Prop :=
  ∀ i < p.length, m (a + UInt32.ofNat i) = (p.take n).getD i 0xFF

theorem holds_program {m : Memory} {a : UInt32} {p data : List UInt8} {n : Nat} (h : Holds m a p n)
    (hdata : data = (p.drop n).take data.length) (hfit : n + data.length ≤ p.length) (hp : p.length < 2 ^ 32) :
    Holds (program m (a + UInt32.ofNat n) data) a p (n + data.length) := by
  intro i hi
  have hoff := toNat_add_ofNat_sub a (show i < 2 ^ 32 by omega)
  have htake : p.take (n + data.length) = p.take n ++ data := by
    rw [List.take_add, ← hdata]
  have hlen : (p.take n).length = n := by
    rw [List.length_take]
    omega
  rw [program, h i hi, htake]
  by_cases hin : i < n
  · have hfar := toNat_sub_add_of_lt (x := a + UInt32.ofNat i) (a := a) (show n < 2 ^ 32 by omega) (by omega)
    rw [List.getD_eq_default data _ (by omega), List.getD_append _ _ _ _ (by omega), UInt8.and_comm, and_ones]
  · have hmoved := toNat_sub_add (x := a + UInt32.ofNat i) (a := a) (i := n) (by omega)
    rw [hmoved, hoff, List.getD_eq_default (p.take n) _ (by omega), and_ones,
      List.getD_append_right _ _ _ _ (by omega), hlen]

theorem holds_read {m : Memory} {a : UInt32} {p : List UInt8} {n k : Nat} (h : Holds m a p n) (hk : k ≤ n)
    (hn : n ≤ p.length) : read m a k = p.take k := by
  apply List.ext_getElem
  · rw [read_length, List.length_take]
    omega
  · intro i hi hi'
    rw [read_length] at hi
    have hget := read_getD hi 0xFF (m := m) (a := a)
    rw [h i (by omega), List.getD_eq_getElem _ _ (by rw [read_length]; exact hi),
      List.getD_eq_getElem _ _ (by rw [List.length_take]; omega)] at hget
    rw [hget, List.getElem_take, List.getElem_take]

/-- Place and room before the header is whole, and after. -/
def placeAfter (img : Image) (p : List UInt8) (n : Nat) : UInt32 × UInt32 :=
  if n < headSize then xyGetOtaFlashInfo img else (place p, UInt32.ofNat (regionEnd - (place p).toNat))

/-- The state in RAM when `n` bytes of the package were received. -/
structure Ready (img : Image) (p : List UInt8) (n : Nat) (t : OtaState) : Prop where
  recv : t.gRecvSize = UInt32.ofNat n
  head : ∃ h, t.gHeadInfo = some h ∧ h.length = headSize ∧ h.take n = (p.take headSize).take n
  base : t.gFlashBase = (placeAfter img p n).1
  maxlen : t.gFlashMaxlen = (placeAfter img p n).2

/-- The flash when `n` bytes were received: the header stays in RAM until it is whole. -/
structure Stored (p : List UInt8) (n : Nat) (m : Memory) : Prop where
  version : n < headSize → otaVersionCheck m (p.take headSize) = true
  holds : headSize ≤ n → Holds m (place p) p n

structure Progress (img : Image) (p : List UInt8) (s : Download) : Prop where
  stored_le : s.stored ≤ p.length
  flash : Stored p s.stored s.flash
  ready : s.stored = 0 ∨ Ready img p s.stored s.ota

theorem inFlash_of_region {addr : UInt32} (hlo : armFlashBaseAddr.toNat ≤ addr.toNat)
    (hhi : addr.toNat ≤ regionEnd) : inFlash addr = true := by
  have hend : (flashBase + flashLength).toNat = 0x27200000 := rfl
  have hbase : flashBase.toNat = 0x27000000 := rfl
  have hfirst : armFlashBaseAddr.toNat = 0x2711F000 := rfl
  unfold regionEnd at hhi
  rw [inFlash, Bool.and_eq_true, decide_eq_true_eq, decide_eq_true_eq, UInt32.le_iff_toNat_le,
    UInt32.le_iff_toNat_le, hend, hbase]
  omega

/-- A fresh start knows the region and has received nothing. -/
theorem ready_zero (img : Image) (p : List UInt8) (flash : Memory) :
    Ready img p 0 (startDownload img flash 0 OtaState.init) :=
  ⟨rfl, ⟨_, rfl, rfl, rfl⟩, rfl, rfl⟩

/-- After a restart the download goes on where a whole header is stored. -/
theorem prepare_restart {img : Image} {flash : Memory} {recvedSize : UInt32} (hsome : recvedSize ≠ 0)
    (hwhole : ¬ recvedSize < UInt32.ofNat headSize) :
    prepare img flash recvedSize OtaState.init = some (startDownload img flash recvedSize OtaState.init) := by
  unfold prepare
  rw [if_neg hsome]
  exact (if_pos rfl).trans (if_neg fun hpart => hwhole hpart.2)

section Package

variable {img : Image} {m : Memory} {p : List UInt8} (himg : img.Fits) (hp : Accepted img m p)
include himg hp

theorem place_ge : 0x2711F000 ≤ (place p).toNat :=
  Nat.le_trans (otaFlashInfo_spec himg).1 hp.start_le

theorem length_lt : p.length < 0xCD000 + 1 := by
  have hfits := hp.fits
  have hge := place_ge himg hp
  unfold regionEnd at hfits
  omega

omit hp in
/-- A package at the start of the region finds the same place and room before and after its header. -/
theorem placeAfter_start (hstart : place p = (xyGetOtaFlashInfo img).1) (n : Nat) :
    placeAfter img p n = xyGetOtaFlashInfo img := by
  obtain ⟨-, -, hend⟩ := otaFlashInfo_spec himg
  unfold placeAfter
  split
  · rfl
  · apply Prod.ext hstart
    have hlen : regionEnd - (place p).toNat = (xyGetOtaFlashInfo img).2.toNat := by
      rw [hstart]
      omega
    show UInt32.ofNat (regionEnd - (place p).toNat) = (xyGetOtaFlashInfo img).2
    rw [hlen, UInt32.ofNat_toNat]

/-- A restart after the header restores the state of a package at the start of the region. -/
theorem ready_resumed {flash : Memory} {n : Nat} (hn : headSize ≤ n) (hle : n ≤ p.length)
    (hflash : Holds flash (place p) p n) (hstart : place p = (xyGetOtaFlashInfo img).1) :
    Ready img p n (startDownload img flash (UInt32.ofNat n) OtaState.init) := by
  have hlt := length_lt himg hp
  have hsize : (UInt32.ofNat headSize).toNat = headSize := rfl
  have hwhole : UInt32.ofNat headSize ≤ OtaState.init.gRecvSize + UInt32.ofNat n := by
    rw [UInt32.le_iff_toNat_le, hsize]
    show headSize ≤ (0 + UInt32.ofNat n).toNat
    rw [UInt32.zero_add, toNat_ofNat_of_lt (by omega)]
    exact hn
  have hin : inFlash (xyGetOtaFlashInfo img).1 = true := by
    obtain ⟨hge, -, hend⟩ := otaFlashInfo_spec himg
    exact inFlash_of_region hge (by omega)
  have hread : (xyFlashRead (xyGetOtaFlashInfo img).1 headSize flash).getD (List.replicate headSize 0) =
      p.take headSize := by
    rw [xyFlashRead, if_pos hin, Option.getD_some, ← hstart, holds_read hflash hn hle]
  have hplace := placeAfter_start himg hstart n
  refine ⟨UInt32.zero_add _, ⟨p.take headSize, ?_, ?_, rfl⟩, ?_, ?_⟩
  · show some (if _ then _ else _) = _
    rw [if_pos hwhole, hread]
  · rw [List.length_take]
    exact Nat.min_eq_left hp.headSize_le
  · rw [hplace]
    rfl
  · rw [hplace]
    rfl

/-- The state in which a call hands its chunk on, with or without a restart. -/
theorem prepare_ready {s : Download} {restart : Bool} (hs : Progress img p s)
    (hrestart : restart → headSize ≤ s.stored ∧ place p = (xyGetOtaFlashInfo img).1) :
    ∃ t, prepare img s.flash (UInt32.ofNat s.stored) (if restart then OtaState.init else s.ota) = some t ∧
      Ready img p s.stored t := by
  have hlt := length_lt himg hp
  have hle := hs.stored_le
  by_cases hzero : s.stored = 0
  · rw [hzero]
    refine ⟨_, ?_, ready_zero img p s.flash⟩
    rfl
  have hsome : UInt32.ofNat s.stored ≠ 0 := by
    intro h
    have hto := congrArg UInt32.toNat h
    rw [toNat_ofNat_of_lt (by omega)] at hto
    exact hzero hto
  have hready := hs.ready.resolve_left hzero
  cases restart with
  | false =>
    refine ⟨s.ota, ?_, hready⟩
    unfold prepare
    rw [if_neg hsome]
    have hrecv : s.ota.gRecvSize ≠ 0 := by
      rw [hready.recv]
      exact hsome
    exact if_neg hrecv
  | true =>
    obtain ⟨hwhole, hstart⟩ := hrestart rfl
    refine ⟨_, ?_, ready_resumed himg hp hwhole hle (hs.flash.holds hwhole) hstart⟩
    apply prepare_restart hsome
    have hsize : (UInt32.ofNat headSize).toNat = headSize := rfl
    rw [UInt32.lt_iff_toNat_lt, toNat_ofNat_of_lt (by omega), hsize]
    exact Nat.not_lt.mpr hwhole

omit himg in
theorem take_headSize_length : (p.take headSize).length = headSize := by
  rw [List.length_take]
  exact Nat.min_eq_left hp.headSize_le

section Store

variable {env : OtaEnv} {t : OtaState} {k : Nat} {input : List UInt8}

omit himg in
theorem Ready.head_whole (h : Ready img p k t) (hk : headSize ≤ k) : t.gHeadInfo = some (p.take headSize) := by
  obtain ⟨head, hsome, hlen, htake⟩ := h.head
  rw [List.take_of_length_le (by omega),
    List.take_of_length_le (by rw [take_headSize_length hp]; exact hk)] at htake
  rw [hsome, htake]

omit himg in
/-- Bytes behind the header move nothing but the count. -/
theorem Ready.advance (h : Ready img p k t) (hk : headSize ≤ k) (n : Nat) :
    Ready img p (k + n) { t with gRecvSize := t.gRecvSize + UInt32.ofNat n } := by
  have hplace : placeAfter img p (k + n) = placeAfter img p k := by
    unfold placeAfter
    rw [if_neg (by omega), if_neg (by omega)]
  refine ⟨?_, ⟨p.take headSize, h.head_whole hp hk, take_headSize_length hp, rfl⟩, ?_, ?_⟩
  · show t.gRecvSize + UInt32.ofNat n = UInt32.ofNat (k + n)
    rw [h.recv, UInt32.ofNat_add]
  · rw [hplace]
    exact h.base
  · rw [hplace]
    exact h.maxlen

theorem Ready.base_whole (h : Ready img p k t) (hk : headSize ≤ k) :
    t.gFlashBase = place p ∧ t.gFlashMaxlen.toNat = regionEnd - (place p).toNat := by
  have hge := place_ge himg hp
  have hbase := h.base
  have hmaxlen := h.maxlen
  rw [placeAfter, if_neg (by omega)] at hbase hmaxlen
  refine ⟨hbase, ?_⟩
  rw [hmaxlen]
  apply toNat_ofNat_of_lt
  unfold regionEnd
  omega

/-- Programming a piece of the package at its offset. -/
theorem write_piece {flashEnv : FlashEnv} (hpower : flashEnv.lowVbat = false) (k : Nat) (input : List UInt8)
    (hle : k + input.length ≤ p.length)
    (hinput : input = (p.drop k).take input.length) :
    ∃ ops, xyFlashWriteNoErase flashEnv (place p + UInt32.ofNat k) input = some (xyOk, ops) ∧
      ∀ flash, Holds flash (place p) p k → Holds (applyAll ops flash) (place p) p (k + input.length) := by
  have hlt := length_lt himg hp
  have hfits := hp.fits
  have hge := place_ge himg hp
  have hmax : regionEnd = 0x271EC000 := rfl
  have hfirst : armFlashBaseAddr.toNat = 0x2711F000 := rfl
  have haddr : (place p + UInt32.ofNat k).toNat = (place p).toNat + k := by
    rw [UInt32.toNat_add, toNat_ofNat_of_lt (by omega), Nat.mod_eq_of_lt (by omega)]
  have hin : inFlash (place p + UInt32.ofNat k) = true := inFlash_of_region (by omega) (by omega)
  obtain ⟨ops, hcall, hprogram, -⟩ := xyFlashWriteNoErase_spec input hpower hin (by omega)
  refine ⟨ops, hcall, fun flash hholds => ?_⟩
  rw [hprogram]
  exact holds_program hholds hinput hle (by omega)

/-- Behind the header a chunk is programmed after the bytes that are there. -/
theorem store_later (hready : Ready img p k t) (hk : headSize < k) (hpower : Powered env)
    (hle : k + input.length ≤ p.length) (hinput : input = (p.drop k).take input.length) :
    ∃ ops, storeChunk env t input =
        ⟨ops, some (xyOk, { t with gRecvSize := t.gRecvSize + UInt32.ofNat input.length })⟩ ∧
      ∀ flash, Holds flash (place p) p k → Holds (applyAll ops flash) (place p) p (k + input.length) := by
  obtain ⟨ops, hcall, hkeep⟩ := write_piece himg hp hpower.2.2 _ input hle hinput
  have hlt := length_lt himg hp
  have hlater : t.gRecvSize ≠ UInt32.ofNat headSize := by
    intro h
    have hto := congrArg UInt32.toNat (hready.recv.symm.trans h)
    rw [toNat_ofNat_of_lt (by omega), toNat_ofNat_of_lt (by decide)] at hto
    omega
  refine ⟨ops, ?_, hkeep⟩
  rw [storeChunk, if_neg hlater, (hready.base_whole himg hp (Nat.le_of_lt hk)).1, hready.recv, hcall]
  show Outcome.mk (ops ++ []) _ = _
  rw [List.append_nil]
  rfl

/-- With the header just whole the rest of the region is erased, then header and chunk are
programmed. -/
theorem store_first (hready : Ready img p headSize t) (hpower : Powered env) (herase : Erases p env)
    (hle : headSize + input.length ≤ p.length) (hinput : input = (p.drop headSize).take input.length) :
    ∃ ops, storeChunk env t input =
        ⟨ops, some (xyOk, { t with gRecvSize := t.gRecvSize + UInt32.ofNat input.length })⟩ ∧
      ∀ flash, Holds (applyAll ops flash) (place p) p (headSize + input.length) := by
  obtain ⟨hbase, hmaxlen⟩ := hready.base_whole himg hp (Nat.le_refl _)
  have hge := place_ge himg hp
  have hfits := hp.fits
  have hmax : regionEnd = 0x271EC000 := rfl
  obtain ⟨erased, herased, hspec⟩ := xyFlashErase_spec hpower.1 herase
    (show t.gFlashMaxlen.toNat < 2 ^ 30 by omega) (by unfold eraseSize; omega)
  have hones : ∀ flash, Holds (applyAll erased flash) (place p) p 0 := by
    intro flash i hi
    have haddr : (place p + UInt32.ofNat i).toNat = (place p).toNat + i := by
      rw [UInt32.toNat_add, toNat_ofNat_of_lt (by omega), Nat.mod_eq_of_lt (by omega)]
    apply hspec.ones
    · omega
    · unfold eraseSize
      omega
  have hheadLen := take_headSize_length hp
  obtain ⟨head, hhead, hheadKeep⟩ := write_piece himg hp hpower.2.1 0 (p.take headSize)
    (by rw [hheadLen]; have := hp.headSize_le; omega) (by rw [hheadLen, List.drop_zero])
  rw [show place p + UInt32.ofNat 0 = place p from UInt32.add_zero _] at hhead
  rw [hheadLen, Nat.zero_add] at hheadKeep
  obtain ⟨rest, hrest, hrestKeep⟩ := write_piece himg hp hpower.2.2 _ input hle hinput
  have hfirst : t.gRecvSize = UInt32.ofNat headSize := hready.recv
  by_cases hnone : input.length > 0
  · refine ⟨erased ++ (head ++ (rest ++ [])), ?_, fun flash => ?_⟩
    · rw [storeChunk, if_pos hfirst, if_pos hnone, hready.head_whole hp (Nat.le_refl _), hbase, herased,
        Option.bind_some, hhead, hrest]
      rfl
    · rw [List.append_nil, applyAll_append, applyAll_append]
      exact hrestKeep _ (hheadKeep _ (hones flash))
  · refine ⟨erased ++ (head ++ []), ?_, fun flash => ?_⟩
    · rw [storeChunk, if_pos hfirst, if_neg hnone, hready.head_whole hp (Nat.le_refl _), hbase, herased,
        Option.bind_some, hhead]
      rfl
    · rw [List.append_nil, applyAll_append, Nat.eq_zero_of_not_pos hnone]
      exact hheadKeep _ (hones flash)

/-- An erase inside a sector by the core itself stops the system. -/
theorem store_first_stops (hready : Ready img p headSize t) (hpower : Powered env) (herase : ¬ Erases p env) :
    (storeChunk env t input).ret = none := by
  obtain ⟨hbase, -⟩ := hready.base_whole himg hp (Nat.le_refl _)
  have hpath := not_or.mp herase
  have hstops : xyFlashErase env.erase (place p) t.gFlashMaxlen = none :=
    xyFlashErase_stops hpower.1 hpath.1 hpath.2
  have hfirst : t.gRecvSize = UInt32.ofNat headSize := hready.recv
  rw [storeChunk, if_pos hfirst, hbase, hstops]
  rfl

end Store

section Chunk

variable {env : OtaEnv} {flash : Memory} {t : OtaState} {n : Nat} {data : List UInt8}

/-- Part of an accepted package always finds room. -/
theorem Ready.room (hready : Ready img p n t) (hle : n + data.length ≤ p.length) :
    ¬ t.gFlashMaxlen < t.gRecvSize + UInt32.ofNat data.length := by
  obtain ⟨-, -, hend⟩ := otaFlashInfo_spec himg
  have hlt := length_lt himg hp
  have hfits := hp.fits
  have hstart := hp.start_le
  have hsum : (t.gRecvSize + UInt32.ofNat data.length).toNat = n + data.length := by
    rw [hready.recv, ← UInt32.ofNat_add, toNat_ofNat_of_lt (by omega)]
  rw [UInt32.lt_iff_toNat_lt, hsum, hready.maxlen, placeAfter]
  split
  · omega
  · have hroom : (UInt32.ofNat (regionEnd - (place p).toNat)).toNat = regionEnd - (place p).toNat := by
      apply toNat_ofNat_of_lt
      unfold regionEnd
      omega
    show ¬ (UInt32.ofNat (regionEnd - (place p).toNat)).toNat < n + data.length
    omega

omit himg hp in
/-- The header in RAM grows by the chunk. -/
theorem Ready.copyHead_eq (hready : Ready img p n t) (hfit : n + data.length ≤ headSize)
    (hdata : data = (p.drop n).take data.length) :
    ∃ head, copyHead t.gHeadInfo t.gRecvSize data = some head ∧ head.length = headSize ∧
      head.take (n + data.length) = (p.take headSize).take (n + data.length) := by
  obtain ⟨old, hold, hlen, htake⟩ := hready.head
  have hrecv : t.gRecvSize.toNat = n := by
    rw [hready.recv, toNat_ofNat_of_lt]
    unfold headSize at hfit
    omega
  refine ⟨splice old n data, ?_, ?_, ?_⟩
  · rw [copyHead, hold, Option.bind_some, hrecv, if_pos hfit]
  · rw [splice_length (by omega), hlen]
  · rw [splice_take (Nat.le_refl _) (by omega), splice, List.take_take, Nat.min_eq_left (Nat.le_add_right _ _), htake,
      List.drop_of_length_le (by rw [List.length_take]; omega), List.append_nil, List.take_take, List.take_take,
      Nat.min_eq_left (by omega), Nat.min_eq_left hfit, List.take_add, ← hdata]

theorem proc_incomplete (hready : Ready img p n t) (hpart : n + data.length < headSize)
    (hdata : data = (p.drop n).take data.length) (hle : n + data.length ≤ p.length) :
    ∃ t', otaDownlinkPacketProc env flash t data = ⟨[], some (xyOk, t')⟩ ∧ Ready img p (n + data.length) t' := by
  have hsize : (UInt32.ofNat headSize).toNat = headSize := rfl
  have hlt := length_lt himg hp
  obtain ⟨head, hcopy, hlen, htake⟩ := hready.copyHead_eq (Nat.le_of_lt hpart) hdata
  have hsum : t.gRecvSize + UInt32.ofNat data.length < UInt32.ofNat headSize := by
    rw [UInt32.lt_iff_toNat_lt, hready.recv, ← UInt32.ofNat_add, toNat_ofNat_of_lt (by omega), hsize]
    exact hpart
  have hplace : placeAfter img p (n + data.length) = placeAfter img p n := by
    unfold placeAfter
    rw [if_pos hpart, if_pos (by omega)]
  refine ⟨{ t with gHeadInfo := some head, gRecvSize := t.gRecvSize + UInt32.ofNat data.length }, ?_, ?_⟩
  · rw [otaDownlinkPacketProc]
    dsimp only
    rw [if_neg (hready.room himg hp hle), if_pos hsum, hcopy]
    rfl
  · refine ⟨?_, ⟨head, rfl, hlen, htake⟩, ?_, ?_⟩
    · show t.gRecvSize + UInt32.ofNat data.length = UInt32.ofNat (n + data.length)
      rw [hready.recv, UInt32.ofNat_add]
    · rw [hplace]
      exact hready.base
    · rw [hplace]
      exact hready.maxlen

/-- The header of an accepted package moves place and room. -/
theorem checkHead_accepted (hready : Ready img p n t) (hn : n < headSize)
    (hversion : otaVersionCheck flash (p.take headSize) = true) :
    ∃ t', checkHead flash { t with gHeadInfo := some (p.take headSize), gRecvSize := UInt32.ofNat headSize }
        (p.take headSize) = some t' ∧ Ready img p headSize t' := by
  obtain ⟨-, -, hend⟩ := otaFlashInfo_spec himg
  have hfits := hp.fits
  have hstart := hp.start_le
  have hbase := hready.base
  have hmaxlen := hready.maxlen
  rw [placeAfter, if_pos hn] at hbase hmaxlen
  have hplace : placeAfter img p headSize = (place p, UInt32.ofNat (regionEnd - (place p).toNat)) :=
    if_neg (Nat.lt_irrefl _)
  have hnot : ¬ fotaPacketBase (p.take headSize) < t.gFlashBase := by
    rw [hbase, UInt32.lt_iff_toNat_lt]
    exact Nat.not_lt.mpr hstart
  refine ⟨⟨place p, t.gFlashMaxlen - (place p - t.gFlashBase), UInt32.ofNat headSize, some (p.take headSize)⟩,
    ?_, ?_⟩
  · rw [checkHead, if_neg (fun h => h hp.magic), hversion, if_neg (by decide), if_neg hnot]
    rfl
  · refine ⟨rfl, ⟨_, rfl, take_headSize_length hp, rfl⟩, ?_, ?_⟩
    · rw [hplace]
    · rw [hplace]
      show t.gFlashMaxlen - (place p - t.gFlashBase) = UInt32.ofNat (regionEnd - (place p).toNat)
      apply UInt32.toNat_inj.mp
      have hmoved : (place p - t.gFlashBase).toNat = (place p).toNat - (xyGetOtaFlashInfo img).1.toNat := by
        rw [hbase, toNat_sub_of_le hstart]
      rw [toNat_sub_of_le (by rw [hmoved, hmaxlen]; omega), hmoved, hmaxlen, toNat_ofNat_of_lt]
      · omega
      · unfold regionEnd
        omega

/-- A chunk that comes with a whole header is stored, less what the header lacked. -/
theorem proc_whole (hready : Ready img p n t) (hstored : Stored p n flash) (hwhole : headSize ≤ n + data.length)
    (hdata : data = (p.drop n).take data.length) (hle : n + data.length ≤ p.length) :
    ∃ t', Ready img p (max n headSize) t' ∧
      otaDownlinkPacketProc env flash t data = storeChunk env t' (data.drop (headSize - n)) := by
  have hsize : (UInt32.ofNat headSize).toNat = headSize := rfl
  have hlt := length_lt himg hp
  have hsum : ¬ t.gRecvSize + UInt32.ofNat data.length < UInt32.ofNat headSize := by
    rw [UInt32.lt_iff_toNat_lt, hready.recv, ← UInt32.ofNat_add, toNat_ofNat_of_lt (by omega), hsize]
    exact Nat.not_lt.mpr hwhole
  have hrecv : t.gRecvSize.toNat = n := by
    rw [hready.recv, toNat_ofNat_of_lt (by omega)]
  rw [otaDownlinkPacketProc]
  dsimp only
  rw [if_neg (hready.room himg hp hle), if_neg hsum, hrecv]
  have hiff : t.gRecvSize < UInt32.ofNat headSize ↔ n < headSize := by
    rw [UInt32.lt_iff_toNat_lt, hrecv, hsize]
  by_cases hn : n < headSize
  · rw [if_pos (hiff.mpr hn), Nat.max_eq_right (Nat.le_of_lt hn)]
    have hmissing : (data.take (headSize - n)).length = headSize - n := by
      rw [List.length_take]
      omega
    obtain ⟨head, hcopy, hlen, htake⟩ := hready.copyHead_eq
      (show n + (data.take (headSize - n)).length ≤ headSize by omega) (by
        rw [hmissing]
        nth_rewrite 1 [hdata]
        rw [List.take_take, Nat.min_eq_left (by omega)])
    have hall : n + (data.take (headSize - n)).length = headSize := by omega
    rw [hall, List.take_of_length_le (Nat.le_of_eq hlen), List.take_take, Nat.min_self] at htake
    subst htake
    obtain ⟨t', hcheck, hready'⟩ := checkHead_accepted himg hp hready hn (hstored.version hn)
    refine ⟨t', hready', ?_⟩
    rw [hcopy]
    dsimp only
    rw [hcheck]
  · rw [if_neg (mt hiff.mp hn), Nat.max_eq_left (Nat.not_lt.mp hn)]
    refine ⟨t, hready, ?_⟩
    rw [Nat.sub_eq_zero_of_le (Nat.not_lt.mp hn), List.drop_zero]

omit himg hp in
/-- What is left of a chunk behind the header, as a piece of the package. -/
theorem rest_piece (hwhole : headSize ≤ n + data.length) (hdata : data = (p.drop n).take data.length) :
    max n headSize + (data.drop (headSize - n)).length = n + data.length ∧
      data.drop (headSize - n) = (p.drop (max n headSize)).take (data.drop (headSize - n)).length := by
  have hmax : n + (headSize - n) = max n headSize := by omega
  constructor
  · rw [List.length_drop]
    omega
  · rw [List.length_drop]
    nth_rewrite 1 [hdata]
    rw [List.drop_take, List.drop_drop, hmax]

theorem proc_progress (hready : Ready img p n t) (hstored : Stored p n flash) (hpower : Powered env)
    (hdata : data = (p.drop n).take data.length) (hle : n + data.length ≤ p.length)
    (herase : n ≤ headSize → headSize ≤ n + data.length → Erases p env) :
    ∃ ops t', otaDownlinkPacketProc env flash t data = ⟨ops, some (xyOk, t')⟩ ∧
      Ready img p (n + data.length) t' ∧ Stored p (n + data.length) (applyAll ops flash) := by
  by_cases hpart : n + data.length < headSize
  · obtain ⟨t', hproc, hready'⟩ := proc_incomplete himg hp hready hpart hdata hle
    refine ⟨[], t', hproc, hready', fun _ => hstored.version (by omega), fun hwhole => ?_⟩
    exact absurd hwhole (Nat.not_le.mpr hpart)
  · have hwhole := Nat.not_lt.mp hpart
    obtain ⟨t', hready', hproc⟩ := proc_whole himg hp hready hstored hwhole hdata hle
    obtain ⟨hlen, hrest⟩ := rest_piece hwhole hdata
    have hstep : ∃ ops, storeChunk env t' (data.drop (headSize - n)) =
        ⟨ops, some (xyOk, { t' with gRecvSize := t'.gRecvSize + UInt32.ofNat (data.drop (headSize - n)).length })⟩ ∧
        Holds (applyAll ops flash) (place p) p (n + data.length) := by
      by_cases hlater : headSize < n
      · rw [Nat.max_eq_left (Nat.le_of_lt hlater)] at hready' hlen hrest
        obtain ⟨ops, hstore, hkeep⟩ := store_later himg hp hready' hlater hpower (by omega) hrest
        rw [hlen] at hkeep
        exact ⟨ops, hstore, hkeep flash (hstored.holds (Nat.le_of_lt hlater))⟩
      · have hfirst := Nat.not_lt.mp hlater
        rw [Nat.max_eq_right hfirst] at hready' hlen hrest
        obtain ⟨ops, hstore, hkeep⟩ := store_first himg hp hready' hpower (herase hfirst hwhole) (by omega) hrest
        rw [hlen] at hkeep
        exact ⟨ops, hstore, hkeep flash⟩
    obtain ⟨ops, hstore, hholds⟩ := hstep
    have hadvance := hready'.advance hp (Nat.le_max_right _ _) (data.drop (headSize - n)).length
    rw [hlen] at hadvance
    exact ⟨ops, _, hproc.trans hstore, hadvance, fun hlt => absurd hlt hpart, fun _ => hholds⟩

theorem proc_stops (hready : Ready img p n t) (hstored : Stored p n flash) (hpower : Powered env)
    (hdata : data = (p.drop n).take data.length) (hle : n + data.length ≤ p.length) (hn : n ≤ headSize)
    (hwhole : headSize ≤ n + data.length) (herase : ¬ Erases p env) :
    (otaDownlinkPacketProc env flash t data).ret = none := by
  obtain ⟨t', hready', hproc⟩ := proc_whole himg hp hready hstored hwhole hdata hle
  rw [Nat.max_eq_right hn] at hready'
  rw [hproc]
  exact store_first_stops himg hp hready' hpower herase

end Chunk

section Steps

variable {c : Part} {s s' : Download} {t : OtaState}

omit himg hp in
theorem step_some {ops : List FlashOp} {t' : OtaState}
    (hprep : prepare img s.flash (UInt32.ofNat s.stored) (if c.restart then OtaState.init else s.ota) = some t)
    (hproc : otaDownlinkPacketProc c.env s.flash t c.data = ⟨ops, some (xyOk, t')⟩) :
    step img c s = some ⟨applyAll ops s.flash, t', s.stored + c.data.length⟩ := by
  unfold step otaWriteToFlash
  dsimp only
  rw [hprep]
  dsimp only
  rw [hproc]
  rfl

omit himg hp in
/-- An accepted call handed its chunk on and the chunk was accepted. -/
theorem step_inv (h : step img c s = some s') :
    ∃ t, prepare img s.flash (UInt32.ofNat s.stored) (if c.restart then OtaState.init else s.ota) = some t ∧
      (otaDownlinkPacketProc c.env s.flash t c.data).ret = some (xyOk, s'.ota) ∧
      s'.stored = s.stored + c.data.length := by
  unfold step otaWriteToFlash at h
  dsimp only at h
  obtain ⟨r, hret, hcode⟩ := Option.bind_eq_some_iff.mp h
  cases hprep : prepare img s.flash (UInt32.ofNat s.stored) (if c.restart then OtaState.init else s.ota) with
  | none =>
    rw [hprep] at hret
    cases hret
    have hrefused : xyErrNotAllowed ≠ xyOk := by decide
    dsimp only at hcode
    rw [if_neg hrefused] at hcode
    cases hcode
  | some t =>
    rw [hprep] at hret hcode
    obtain ⟨⟨code, u⟩, hproc, rfl⟩ := Option.map_eq_some_iff.mp hret
    by_cases hok : code = xyOk
    · subst hok
      refine ⟨t, rfl, ?_, ?_⟩
      · cases hcode
        exact hproc
      · cases hcode
        rfl
    · dsimp only at hcode
      rw [if_pos hok, if_neg xyErr_ne_xyOk] at hcode
      cases hcode

theorem step_progress (hs : Progress img p s)
    (hrestart : c.restart → headSize ≤ s.stored ∧ place p = (xyGetOtaFlashInfo img).1) (hpower : Powered c.env)
    (hdata : c.data = (p.drop s.stored).take c.data.length) (hle : s.stored + c.data.length ≤ p.length)
    (herase : s.stored ≤ headSize → headSize ≤ s.stored + c.data.length → Erases p c.env) :
    ∃ s', step img c s = some s' ∧ Progress img p s' ∧ s'.stored = s.stored + c.data.length := by
  obtain ⟨t, hprep, hready⟩ := prepare_ready himg hp hs hrestart
  obtain ⟨ops, t', hproc, hready', hstored⟩ :=
    proc_progress himg hp hready hs.flash hpower hdata hle herase
  exact ⟨_, step_some hprep hproc, ⟨hle, hstored, Or.inr hready'⟩, rfl⟩

/-- A chunk that has to erase and cannot ends the download. -/
theorem step_stops (hs : Progress img p s) (hrestart : ¬ c.restart) (hpower : Powered c.env)
    (hdata : c.data = (p.drop s.stored).take c.data.length) (hle : s.stored + c.data.length ≤ p.length)
    (hn : s.stored ≤ headSize) (hwhole : headSize ≤ s.stored + c.data.length) (herase : ¬ Erases p c.env) :
    step img c s = none := by
  obtain ⟨t, hprep, hready⟩ := prepare_ready himg hp hs fun h => absurd h hrestart
  have hstop := proc_stops himg hp hready hs.flash hpower hdata hle hn hwhole herase
  cases hstep : step img c s with
  | none => rfl
  | some s' =>
    obtain ⟨u, hu, hret, -⟩ := step_inv hstep
    rw [hprep] at hu
    cases hu
    rw [hstop] at hret
    cases hret

omit himg hp in
/-- The place is the start of the region although a whole header is stored. -/
structure AtStart (img : Image) (s : Download) : Prop where
  base : s.ota.gFlashBase = (xyGetOtaFlashInfo img).1
  recv : s.ota.gRecvSize = UInt32.ofNat s.stored
  whole : headSize ≤ s.stored

omit himg hp in
/-- After a restart the place stays at the start of the region. -/
theorem step_atStart (hs : c.restart = true ∧ headSize ≤ s.stored ∨ AtStart img s)
    (hlt : s.stored + c.data.length < 2 ^ 32) (h : step img c s = some s') : AtStart img s' := by
  have hsize : (UInt32.ofNat headSize).toNat = headSize := rfl
  have hwhole : headSize ≤ s.stored := hs.elim And.right AtStart.whole
  have hhead : headSize = 164 := rfl
  have hto : (UInt32.ofNat s.stored).toNat = s.stored := toNat_ofNat_of_lt (by omega)
  have hsome : UInt32.ofNat s.stored ≠ 0 := by
    intro hzero
    rw [hzero] at hto
    have hnone : (0 : UInt32).toNat = 0 := rfl
    omega
  have hnot : ¬ UInt32.ofNat s.stored < UInt32.ofNat headSize := by
    rw [UInt32.lt_iff_toNat_lt, hto, hsize]
    exact Nat.not_lt.mpr hwhole
  obtain ⟨t, hprep, hproc, hstored⟩ := step_inv h
  have ht : t.gFlashBase = (xyGetOtaFlashInfo img).1 ∧ t.gRecvSize = UInt32.ofNat s.stored := by
    cases hrestart : c.restart with
    | true =>
      rw [hrestart, if_pos rfl, prepare_restart hsome hnot] at hprep
      cases hprep
      exact ⟨rfl, UInt32.zero_add _⟩
    | false =>
      have hstart := hs.resolve_left fun h => by
        rw [hrestart] at h
        cases h.1
      rw [hrestart, if_neg Bool.false_ne_true] at hprep
      unfold prepare at hprep
      rw [if_neg hsome] at hprep
      dsimp only at hprep
      rw [if_neg (by rw [hstart.recv]; exact hsome)] at hprep
      cases hprep
      exact ⟨hstart.base, hstart.recv⟩
  have hsum : ¬ t.gRecvSize + UInt32.ofNat c.data.length < UInt32.ofNat headSize := by
    rw [ht.2, ← UInt32.ofNat_add, UInt32.lt_iff_toNat_lt, toNat_ofNat_of_lt hlt, hsize]
    omega
  rw [otaDownlinkPacketProc] at hproc
  dsimp only at hproc
  split at hproc
  · cases hproc
  · rw [if_neg (by rw [ht.2]; exact hnot)] at hproc
    have hota := congrArg Prod.snd (storeChunk_ret hproc)
    dsimp only at hota
    refine ⟨?_, ?_, ?_⟩
    · rw [hota]
      exact ht.1
    · rw [hota, hstored, UInt32.ofNat_add]
      exact congrArg (· + UInt32.ofNat c.data.length) ht.2
    · omega

end Steps

section Runs

/-- What a call needs for the download to go on rightly after `n` bytes. -/
structure Fine (img : Image) (p : List UInt8) (n : Nat) (c : Part) : Prop where
  restart : c.restart → headSize ≤ n ∧ place p = (xyGetOtaFlashInfo img).1
  power : Powered c.env
  erase : n ≤ headSize → headSize ≤ n + c.data.length → Erases p c.env

omit himg hp in
/-- The chunk and the rest of the chunks, as pieces of the package. -/
theorem received_cons {n : Nat} {c : Part} {cs : List Part} (hn : n ≤ p.length)
    (h : received (c :: cs) = p.drop n) :
    c.data = (p.drop n).take c.data.length ∧ n + c.data.length ≤ p.length ∧
      received cs = p.drop (n + c.data.length) := by
  have hsplit : c.data ++ received cs = p.drop n := h
  have hlen := congrArg List.length hsplit
  rw [List.length_append, List.length_drop] at hlen
  refine ⟨?_, by omega, ?_⟩
  · rw [← hsplit, List.take_left]
  · rw [← List.drop_drop, ← hsplit, List.drop_left]

theorem run_progress {parts : List Part} {s : Download} (hs : Progress img p s)
    (hparts : received parts = p.drop s.stored)
    (hfine : ∀ before c after, parts = before ++ c :: after → Fine img p (s.stored + (received before).length) c) :
    ∃ s', run (step img) parts s = some s' ∧ Progress img p s' ∧ s'.stored = p.length := by
  induction parts generalizing s with
  | nil =>
    have hdone : 0 = (p.drop s.stored).length := congrArg List.length hparts
    rw [List.length_drop] at hdone
    have hle := hs.stored_le
    exact ⟨s, rfl, hs, by omega⟩
  | cons c cs ih =>
    obtain ⟨hdata, hle, hrest⟩ := received_cons hs.stored_le hparts
    have hc := hfine [] c cs rfl
    obtain ⟨s', hstep, hs', hstored⟩ := step_progress himg hp hs hc.restart hc.power hdata hle hc.erase
    rw [← hstored] at hrest
    obtain ⟨s'', hrun, hs'', hall⟩ := ih hs' hrest fun before d after hcs => by
      have hd := hfine (c :: before) d after (by rw [hcs]; rfl)
      have hlen : s.stored + (received (c :: before)).length = s'.stored + (received before).length := by
        rw [hstored, Nat.add_assoc]
        exact congrArg (s.stored + ·) List.length_append
      rw [hlen] at hd
      exact hd
    exact ⟨s'', (run_cons_some _).mpr ⟨s', hstep, hrun⟩, hs'', hall⟩

/-- A download without restarts that gets through made only erases that return. -/
theorem run_erases {parts : List Part} {s s' : Download} (hs : Progress img p s)
    (hparts : received parts = p.drop s.stored) (hrestart : ∀ c ∈ parts, ¬ c.restart)
    (hpower : ∀ c ∈ parts, Powered c.env) (hrun : run (step img) parts s = some s') :
    ∀ before c after, parts = before ++ c :: after → s.stored + (received before).length ≤ headSize →
      headSize ≤ s.stored + (received before).length + c.data.length → Erases p c.env := by
  induction parts generalizing s with
  | nil =>
    intro before c after hnil
    exact absurd hnil.symm (by simp)
  | cons c cs ih =>
    obtain ⟨hdata, hle, hrest⟩ := received_cons hs.stored_le hparts
    have hno := hrestart c List.mem_cons_self
    have hpow := hpower c List.mem_cons_self
    obtain ⟨u, hstep, hrun⟩ := (run_cons_some _).mp hrun
    have herase : s.stored ≤ headSize → headSize ≤ s.stored + c.data.length → Erases p c.env := by
      intro hn hwhole
      apply Classical.byContradiction
      intro hnot
      rw [step_stops himg hp hs hno hpow hdata hle hn hwhole hnot] at hstep
      cases hstep
    obtain ⟨u', hstep', hu, hstored⟩ :=
      step_progress himg hp hs (fun h => absurd h hno) hpow hdata hle herase
    rw [hstep'] at hstep
    cases hstep
    rw [← hstored] at hrest
    have hlater := ih hu hrest (fun d hd => hrestart d (List.mem_cons_of_mem c hd))
      (fun d hd => hpower d (List.mem_cons_of_mem c hd)) hrun
    intro before d after hcs hn hwhole
    cases before with
    | nil =>
      cases hcs
      exact herase hn hwhole
    | cons b before =>
      cases hcs
      have hlen : s.stored + (received (c :: before)).length = u.stored + (received before).length := by
        rw [hstored, Nat.add_assoc]
        exact congrArg (s.stored + ·) List.length_append
      rw [hlen] at hn hwhole
      exact hlater before d after rfl hn hwhole

omit himg hp in
theorem run_stored {parts : List Part} {s s' : Download} (hrun : run (step img) parts s = some s') :
    s'.stored = s.stored + (received parts).length := by
  induction parts generalizing s with
  | nil =>
    cases hrun
    rfl
  | cons c cs ih =>
    obtain ⟨u, hstep, hrun⟩ := (run_cons_some _).mp hrun
    obtain ⟨-, -, -, hstored⟩ := step_inv hstep
    have hlen : (received (c :: cs)).length = c.data.length + (received cs).length := List.length_append
    rw [ih hrun, hstored, hlen, Nat.add_assoc]

omit himg hp in
theorem run_atStart {parts : List Part} {s s' : Download} (hs : AtStart img s)
    (hlt : s.stored + (received parts).length < 2 ^ 32) (hrun : run (step img) parts s = some s') :
    AtStart img s' := by
  induction parts generalizing s with
  | nil =>
    cases hrun
    exact hs
  | cons c cs ih =>
    obtain ⟨u, hstep, hrun⟩ := (run_cons_some _).mp hrun
    have hlen : (received (c :: cs)).length = c.data.length + (received cs).length := List.length_append
    obtain ⟨-, -, -, hstored⟩ := step_inv hstep
    exact ih (step_atStart (Or.inr hs) (by omega) hstep) (by omega) hrun

/-- A whole package in one chunk leaves its place, its room and its length in RAM. -/
theorem single_ready {env : OtaEnv} {u : OtaState}
    (h : (otaWriteToFlash env img 0 p m OtaState.init).ret = some (xyOk, u)) : Ready img p p.length u := by
  have hready := ready_zero img p m
  have hstored : Stored p 0 m := ⟨fun _ => hp.version, fun hwhole => absurd hwhole (by decide)⟩
  obtain ⟨t, ht, hproc⟩ := @proc_whole img m p himg hp env m _ 0 p hready hstored
    (show headSize ≤ 0 + p.length by rw [Nat.zero_add]; exact hp.headSize_le)
    (by rw [List.drop_zero, List.take_length]) (by omega)
  have hprep : prepare img m 0 OtaState.init = some (startDownload img m 0 OtaState.init) := rfl
  unfold otaWriteToFlash at h
  rw [hprep] at h
  dsimp only at h
  rw [hproc] at h
  obtain ⟨r, hret, hr⟩ := Option.map_eq_some_iff.mp h
  rw [storeChunk_ret hret] at hr
  rw [if_neg fun hne => hne rfl] at hr
  cases hr
  have hall : headSize + (p.drop headSize).length = p.length := by
    rw [List.length_drop]
    exact Nat.add_sub_cancel' hp.headSize_le
  have hadvance := ht.advance hp (Nat.le_max_right _ _) (p.drop headSize).length
  rw [Nat.max_eq_right (Nat.zero_le _), hall] at hadvance
  exact hadvance

omit himg in
/-- The start of a download. -/
theorem progress_start : Progress img p ⟨m, OtaState.init, 0⟩ :=
  ⟨Nat.zero_le _, ⟨fun _ => hp.version, fun hwhole => absurd hwhole (show ¬ headSize ≤ 0 by decide)⟩, Or.inl rfl⟩

theorem single_returns {env : OtaEnv} (hpower : Powered env) (herase : Erases p env) :
    ∃ u, (otaWriteToFlash env img 0 p m OtaState.init).ret = some (xyOk, u) := by
  have hstart := progress_start hp
  obtain ⟨s, hstep, -, -⟩ := step_progress himg hp (c := ⟨false, env, p⟩) hstart
    (fun h => absurd h Bool.false_ne_true) hpower (by rw [List.drop_zero, List.take_length])
    (Nat.le_of_eq (Nat.zero_add _)) (fun _ _ => herase)
  obtain ⟨⟨code, u⟩, hret, hcode⟩ := Option.bind_eq_some_iff.mp hstep
  dsimp only at hcode
  split at hcode
  next hok =>
    subst hok
    exact ⟨u, hret⟩
  next => cases hcode

omit hp in
theorem fine_of_resumable {parts : List Part} (hsplit : Splits p parts) (hpower : ∀ c ∈ parts, Powered c.env)
    (h : Resumable img p parts) :
    ∀ before c after, parts = before ++ c :: after → Fine img p (0 + (received before).length) c := by
  intro before c after hparts
  have hmem : c ∈ parts := by
    rw [hparts]
    exact List.mem_append_right _ List.mem_cons_self
  rw [Nat.zero_add]
  rcases h with hstart | ⟨hrestart, herase⟩
  · refine ⟨fun hc => ⟨hsplit.restarts before c after hparts hc, hstart⟩, hpower c hmem, fun _ _ => Or.inr ?_⟩
    rw [hstart]
    exact (otaFlashInfo_spec himg).2.1
  · exact ⟨fun hc => absurd hc (hrestart c hmem), hpower c hmem, herase before c after hparts⟩

theorem completes_of_resumable {parts : List Part} (hsplit : Splits p parts)
    (hpower : ∀ c ∈ parts, Powered c.env) (h : Resumable img p parts) : Completes img m p parts := by
  obtain ⟨s, hrun, hs, hall⟩ := run_progress himg hp (progress_start hp)
    (hsplit.joined.trans List.drop_zero.symm) (fine_of_resumable himg hsplit hpower h)
  have hsome : s.stored ≠ 0 := by
    have hhead := hp.headSize_le
    rw [hall]
    unfold headSize at hhead
    omega
  have hready := hs.ready.resolve_left hsome
  have hholds := hs.flash.holds (by rw [hall]; exact hp.headSize_le)
  rw [hall] at hready hholds
  refine ⟨s, hrun, ?_, fun env u hret => ?_⟩
  · rw [holds_read hholds (Nat.le_refl _) (Nat.le_refl _), List.take_length]
  · have hsingle := single_ready himg hp hret
    exact ⟨hready.base.trans hsingle.base.symm, hready.maxlen.trans hsingle.maxlen.symm,
      hready.recv.trans hsingle.recv.symm⟩

/-- A restart leaves the place at the start of the region up to the end of the download. -/
theorem no_restart_of_completes {parts : List Part} (hsplit : Splits p parts) (h : Completes img m p parts)
    (hplace : place p ≠ (xyGetOtaFlashInfo img).1) : ∀ c ∈ parts, ¬ c.restart := by
  intro c hc hrestart
  obtain ⟨s, hrun, -, hsame⟩ := h
  obtain ⟨before, after, hparts⟩ := List.append_of_mem hc
  have hwhole := hsplit.restarts before c after hparts hrestart
  have hlen : (received before).length + (c.data.length + (received after).length) = p.length := by
    have hjoined := hsplit.joined
    rw [hparts] at hjoined
    rw [← hjoined]
    unfold received
    rw [List.flatMap_append, List.flatMap_cons, List.length_append, List.length_append]
  have hlt := length_lt himg hp
  rw [hparts, run_append] at hrun
  obtain ⟨s₁, hbefore, hrun⟩ := Option.bind_eq_some_iff.mp hrun
  obtain ⟨s₂, hstep, hafter⟩ := (run_cons_some _).mp hrun
  have hstored₁ : s₁.stored = (received before).length := (run_stored hbefore).trans (Nat.zero_add _)
  obtain ⟨-, -, -, hstored₂⟩ := step_inv hstep
  have hat := step_atStart (Or.inl ⟨hrestart, by rw [hstored₁]; exact hwhole⟩) (by omega) hstep
  have hend := run_atStart hat (by omega) hafter
  have hdsp : Erases p ⟨⟨true, false⟩, ⟨true, false⟩, ⟨true, false⟩⟩ := Or.inl rfl
  obtain ⟨u, hret⟩ := single_returns himg hp ⟨rfl, rfl, rfl⟩ hdsp
  have hsingle := (single_ready himg hp hret).base
  rw [placeAfter, if_neg (Nat.not_lt.mpr hp.headSize_le)] at hsingle
  exact hplace (hsingle.symm.trans ((hsame _ u hret).1.symm.trans hend.base))

/-- With good supply voltage a package arrives whole in every chunking and through every
restart exactly under this condition. -/
theorem completes_iff_resumable {parts : List Part} (hsplit : Splits p parts)
    (hpower : ∀ c ∈ parts, Powered c.env) : Completes img m p parts ↔ Resumable img p parts := by
  constructor
  · intro h
    by_cases hplace : place p = (xyGetOtaFlashInfo img).1
    · exact Or.inl hplace
    · have hrestart := no_restart_of_completes himg hp hsplit h hplace
      obtain ⟨s, hrun, -, -⟩ := h
      have herases := run_erases himg hp (progress_start hp) (hsplit.joined.trans List.drop_zero.symm)
        hrestart hpower hrun
      refine Or.inr ⟨hrestart, fun before c after hparts hn hwhole => herases before c after hparts ?_ ?_⟩
      · exact (Nat.zero_add _).symm ▸ hn
      · exact (Nat.zero_add _).symm ▸ hwhole
  · exact completes_of_resumable himg hp hsplit hpower

end Runs

end Package

/-- A package in two chunks, the first with the whole header. -/
theorem splits_pair {head rest : List UInt8} (hhead : headSize ≤ head.length) (hrest : rest ≠ [])
    (env env' : OtaEnv) (restart : Bool) :
    Splits (head ++ rest) [⟨false, env, head⟩, ⟨restart, env', rest⟩] := by
  constructor
  · exact congrArg (head ++ ·) (List.append_nil rest)
  · intro c hc
    rcases List.mem_cons.mp hc with rfl | hc
    · intro hnil
      rw [show head = [] from hnil] at hhead
      exact absurd hhead (by decide)
    · rw [List.mem_singleton.mp hc]
      exact hrest
  · intro before c after hparts hrestart
    cases before with
    | nil =>
      cases hparts
      cases hrestart
    | cons b before =>
      obtain ⟨rfl, -⟩ := List.cons.inj hparts
      show headSize ≤ (head ++ received before).length
      rw [List.length_append]
      omega

/-- A flash interface that is local, with good supply voltage. -/
def sampleEnv : OtaEnv := ⟨⟨false, false⟩, ⟨false, false⟩, ⟨false, false⟩⟩

/-- A package of a header and 36 bytes, with a restart after the header. -/
def sampleParts (base : UInt32) : List Part :=
  [⟨false, sampleEnv, sampleHead base⟩, ⟨true, sampleEnv, List.replicate 36 7⟩]

theorem sampleParts_splits (base : UInt32) :
    Splits (sampleHead base ++ List.replicate 36 7) (sampleParts base) :=
  splits_pair (Nat.le_of_eq (sampleHead_length base).symm) (by decide) _ _ _

theorem sampleParts_powered (base : UInt32) : ∀ c ∈ sampleParts base, Powered c.env := by
  intro c hc
  have henv : c.env = sampleEnv := by
    rcases List.mem_cons.mp hc with rfl | hc
    · rfl
    · rw [List.mem_singleton.mp hc]
  rw [henv]
  exact ⟨rfl, rfl, rfl⟩

/-- At the start of the region the restart does no harm. -/
theorem sample_completes :
    Completes sampleImage (fun _ => 0) (sampleHead 0x27131000 ++ List.replicate 36 7) (sampleParts 0x27131000) :=
  (completes_iff_resumable (show sampleImage.Fits by decide) (by decide +kernel) (sampleParts_splits _)
    (sampleParts_powered _)).mpr (Or.inl (by decide +kernel))

/-- Elsewhere in the region it loses the place of the package. -/
theorem restart_loses_place :
    Accepted sampleImage (fun _ => 0) (sampleHead 0x27140000 ++ List.replicate 36 7) ∧
      Splits (sampleHead 0x27140000 ++ List.replicate 36 7) (sampleParts 0x27140000) ∧
      (∀ c ∈ sampleParts 0x27140000, Powered c.env) ∧
      ¬ Completes sampleImage (fun _ => 0) (sampleHead 0x27140000 ++ List.replicate 36 7)
        (sampleParts 0x27140000) := by
  have haccepted : Accepted sampleImage (fun _ => 0) (sampleHead 0x27140000 ++ List.replicate 36 7) := by
    decide +kernel
  refine ⟨haccepted, sampleParts_splits _, sampleParts_powered _, fun h => ?_⟩
  have hplace : place (sampleHead 0x27140000 ++ List.replicate 36 7) ≠ (xyGetOtaFlashInfo sampleImage).1 := by
    decide +kernel
  exact no_restart_of_completes (show sampleImage.Fits by decide) haccepted (sampleParts_splits _) h hplace
    ⟨true, sampleEnv, List.replicate 36 7⟩ (List.mem_cons_of_mem _ List.mem_cons_self) rfl

end NbiotXY1100.FotaResume
