import NbiotXY1100.XyFlash

/-! # Download of a delta package

The first bytes of a package are its header. The header is put together in RAM from the
chunks; once it is whole and passes its checks it says where the package is kept, the rest
of the region is erased and header and data are programmed. After a restart the download
goes on from what is in flash. -/
namespace NbiotXY1100.FotaDownload
open FlashMemory FlashAdapt XyFlash ByteBuffers

def armFlashBaseAddr : UInt32 := 0x2711F000

def armFlashBaseLen : UInt32 := 0xCD000

def userExtFlashLenMax : UInt32 := 0

def versionMimgSha : UInt32 := 0x270000E0

def magicNum : UInt32 := 3513

def sha1HashSize : Nat := 20

/-- `sizeof(delta_head_info_t)` and the offsets of the fields that are checked. -/
def headSize : Nat := 164

def oldImageVersionShaOffset : Nat := 88

def fotaPacketBaseOffset : Nat := 148

/-- The section sizes that the linker gives. -/
structure Image where
  flashUsed : UInt32
  ramText : UInt32
  ramData : UInt32

def upround (raw base : UInt32) : UInt32 := ((raw + base - 1) / base) * base

/-- Start and length of the region for packages. -/
def xyGetOtaFlashInfo (img : Image) : UInt32 × UInt32 :=
  let addr := armFlashBaseAddr + upround img.flashUsed 4096 + upround (img.ramText + img.ramData) 4096
  (addr, armFlashBaseAddr + armFlashBaseLen - addr - userExtFlashLenMax)

/-- `g_flash_base`, `g_flash_maxlen`, `g_recv_size` and the bytes at `g_head_info`. -/
structure OtaState where
  gFlashBase : UInt32
  gFlashMaxlen : UInt32
  gRecvSize : UInt32
  gHeadInfo : Option (List UInt8)

/-- What every start, restart and failure leaves in RAM. -/
def OtaState.init : OtaState := ⟨0, 0, 0, none⟩

/-- The state of the flash interface at the three flash calls of a chunk. -/
structure OtaEnv where
  erase : FlashEnv
  head : FlashEnv
  rest : FlashEnv

/-- The flash operations of a call, and its return value with the new state, unless an
assertion stopped the system. -/
structure Outcome where
  ops : List FlashOp
  ret : Option (Int × OtaState)

def swapDwords : List UInt8 → List UInt8
  | a :: b :: c :: d :: rest => d :: c :: b :: a :: swapDwords rest
  | rest => rest

def xyRearrangeDword (data : List UInt8) : List UInt8 :=
  if data.length % 4 ≠ 0 then data else swapDwords data

def otaVersionCheck (m : Memory) (head : List UInt8) : Bool :=
  let tempSha := read m versionMimgSha sha1HashSize
  let oldSha := (head.drop oldImageVersionShaOffset).take sha1HashSize
  oldSha == tempSha || oldSha == xyRearrangeDword tempSha

def fotaPacketBase (head : List UInt8) : UInt32 := word head fotaPacketBaseOffset

/-- The checks of a whole header. A header that passes redefines where the package goes
and how much room is left. -/
def checkHead (m : Memory) (s : OtaState) (head : List UInt8) : Option OtaState :=
  if word head 0 ≠ magicNum then none
  else if !otaVersionCheck m head then none
  else if fotaPacketBase head < s.gFlashBase then none
  else some { s with
    gFlashMaxlen := s.gFlashMaxlen - (fotaPacketBase head - s.gFlashBase)
    gFlashBase := fotaPacketBase head }

/-- A copy to the header buffer; past its end the behaviour is undefined. -/
def copyHead (head : Option (List UInt8)) (recv : UInt32) (data : List UInt8) : Option (List UInt8) :=
  head.bind fun h => if recv.toNat + data.length ≤ headSize then some (splice h recv.toNat data) else none

/-- Flash calls one after another, up to the first that stops the system. -/
def sequence : List (Option (Int × List FlashOp)) → List FlashOp × Bool
  | [] => ([], true)
  | none :: _ => ([], false)
  | some call :: rest => (call.2 ++ (sequence rest).1, (sequence rest).2)

/-- The flash part of a chunk: everything after the header is whole. -/
def storeChunk (env : OtaEnv) (s : OtaState) (input : List UInt8) : Outcome :=
  let calls :=
    if s.gRecvSize = UInt32.ofNat headSize then
      [xyFlashErase env.erase s.gFlashBase s.gFlashMaxlen,
        s.gHeadInfo.bind (xyFlashWriteNoErase env.head s.gFlashBase)] ++
      (if input.length > 0 then
        [xyFlashWriteNoErase env.rest (s.gFlashBase + UInt32.ofNat headSize) input] else [])
    else [xyFlashWriteNoErase env.rest (s.gFlashBase + s.gRecvSize) input]
  ⟨(sequence calls).1,
    if (sequence calls).2 then some (xyOk, { s with gRecvSize := s.gRecvSize + UInt32.ofNat input.length })
    else none⟩

def otaDownlinkPacketProc (env : OtaEnv) (m : Memory) (s : OtaState) (data : List UInt8) : Outcome :=
  let size := UInt32.ofNat data.length
  if s.gFlashMaxlen < s.gRecvSize + size then ⟨[], some (xyErr, s)⟩
  else if s.gRecvSize + size < UInt32.ofNat headSize then
    ⟨[], (copyHead s.gHeadInfo s.gRecvSize data).map fun head =>
      (xyOk, { s with gHeadInfo := some head, gRecvSize := s.gRecvSize + size })⟩
  else if s.gRecvSize < UInt32.ofNat headSize then
    let missing := headSize - s.gRecvSize.toNat
    match copyHead s.gHeadInfo s.gRecvSize (data.take missing) with
    | none => ⟨[], none⟩
    | some head =>
      let s := { s with gHeadInfo := some head, gRecvSize := UInt32.ofNat headSize }
      match checkHead m s head with
      | none => ⟨[], some (xyErr, s)⟩
      | some s => storeChunk env s (data.drop missing)
  else storeChunk env s data

/-- The start of a download, or its continuation after the RAM was lost: then the header is
read back from the start of the region. -/
def startDownload (img : Image) (m : Memory) (recvedSize : UInt32) (s : OtaState) : OtaState :=
  let info := xyGetOtaFlashInfo img
  let recv := s.gRecvSize + recvedSize
  let head := List.replicate headSize 0
  let head := if UInt32.ofNat headSize ≤ recv then (xyFlashRead info.1 headSize m).getD head else head
  ⟨info.1, info.2, recv, some head⟩

/-- The state in which a call hands its chunk on, or `none` where it asks for a restart
from the first byte. -/
def prepare (img : Image) (m : Memory) (recvedSize : UInt32) (s : OtaState) : Option OtaState :=
  let s := if recvedSize = 0 then OtaState.init else s
  if s.gRecvSize = 0 then
    if 0 < recvedSize ∧ recvedSize < UInt32.ofNat headSize then none
    else some (startDownload img m recvedSize s)
  else some s

def otaWriteToFlash (env : OtaEnv) (img : Image) (recvedSize : UInt32) (data : List UInt8) (m : Memory)
    (s : OtaState) : Outcome :=
  match prepare img m recvedSize s with
  | none => ⟨[], some (xyErrNotAllowed, s)⟩
  | some s =>
    let o := otaDownlinkPacketProc env m s data
    ⟨o.ops, o.ret.map fun r => if r.1 ≠ xyOk then (xyErr, OtaState.init) else (xyOk, r.2)⟩

/-- The image leaves a region for packages, and the region ends where the backup starts. -/
def Image.Fits (img : Image) : Prop :=
  (img.flashUsed.toNat + 4095) / 4096 * 4096 + (img.ramText.toNat + img.ramData.toNat + 4095) / 4096 * 4096 ≤
    armFlashBaseLen.toNat

instance (img : Image) : Decidable img.Fits := Nat.decLe _ _

def regionEnd : Nat := 0x271EC000

theorem upround_toNat (raw : UInt32) (h : raw.toNat + 4095 < 2 ^ 32) :
    (upround raw 4096).toNat = (raw.toNat + 4095) / 4096 * 4096 := by
  have hsum : (raw + 4096 - 1).toNat = raw.toNat + 4095 := by
    rw [UInt32.toNat_sub, UInt32.toNat_add]
    simp only [UInt32.reduceToNat]
    omega
  rw [upround, UInt32.toNat_mul, UInt32.toNat_div, hsum]
  simp only [UInt32.reduceToNat]
  omega

/-- The region starts at a sector and reaches up to its end. -/
theorem otaFlashInfo_spec {img : Image} (h : img.Fits) :
    armFlashBaseAddr.toNat ≤ (xyGetOtaFlashInfo img).1.toNat ∧
      (xyGetOtaFlashInfo img).1.toNat % 4096 = 0 ∧
      (xyGetOtaFlashInfo img).1.toNat + (xyGetOtaFlashInfo img).2.toNat = regionEnd := by
  have hstart : armFlashBaseAddr.toNat = 0x2711F000 := rfl
  have hlen : armFlashBaseLen.toNat = 0xCD000 := rfl
  have hend : (armFlashBaseAddr + armFlashBaseLen).toNat = 0x271EC000 := rfl
  have hnone : userExtFlashLenMax = 0 := rfl
  unfold Image.Fits at h
  rw [hlen] at h
  have hram : (img.ramText + img.ramData).toNat = img.ramText.toNat + img.ramData.toNat := by
    rw [UInt32.toNat_add]
    omega
  have hflashUp := upround_toNat img.flashUsed (by omega)
  have hramUp := upround_toNat (img.ramText + img.ramData) (by omega)
  rw [hram] at hramUp
  have haddr : (xyGetOtaFlashInfo img).1.toNat = 0x2711F000 + (img.flashUsed.toNat + 4095) / 4096 * 4096 +
      (img.ramText.toNat + img.ramData.toNat + 4095) / 4096 * 4096 := by
    rw [xyGetOtaFlashInfo, UInt32.toNat_add, UInt32.toNat_add, hflashUp, hramUp, hstart]
    omega
  have hsize : (xyGetOtaFlashInfo img).2.toNat = 0x271EC000 - (xyGetOtaFlashInfo img).1.toNat := by
    show (armFlashBaseAddr + armFlashBaseLen - (xyGetOtaFlashInfo img).1 - userExtFlashLenMax).toNat = _
    rw [hnone, UInt32.sub_zero, toNat_sub_of_le (by omega), hend]
  unfold regionEnd
  refine ⟨?_, ?_, ?_⟩
  · omega
  · omega
  · omega

theorem xyErr_ne_xyOk : xyErr ≠ xyOk := by decide

/-- Storing returns only with success, and then with the chunk counted. -/
theorem storeChunk_ret {env : OtaEnv} {s : OtaState} {input : List UInt8} {r : Int × OtaState}
    (h : (storeChunk env s input).ret = some r) :
    r = (xyOk, { s with gRecvSize := s.gRecvSize + UInt32.ofNat input.length }) := by
  unfold storeChunk at h
  dsimp only at h
  generalize (sequence _).2 = returned at h
  cases returned with
  | false => cases h
  | true => exact (Option.some.inj h).symm

end NbiotXY1100.FotaDownload
