import Mathlib.Algebra.BigOperators.Group.List.Basic
import NbiotXY1100.ByteBuffers
import Mathlib.Algebra.GroupWithZero.Nat

/-! # The downlink buffer of the CDP client

`downstream_info` of `agent_tiny_demo.c` with its list of messages, and its copy in the flash area
at `FOTA_BACKUP_BASE`, which is written before a deep sleep. The pointer `tail` is null exactly
when the list is empty. A copy that leaves its block, or a node that is missing, gives no result. -/
namespace NbiotXY1100.CdpDownstream
open ByteBuffers

def dataListMaxLen : ℕ := 8

def downstreamLenMax : ℕ := 1400

def downstreamBufferTotal : ℕ := 2560

/-- The size of the flash area. -/
def areaSize : ℕ := downstreamLenMax * 8

abbrev Message := List UInt8

/-- `downstream_info_t`. -/
structure Downstream where
  bufferedNum : ℤ
  receivedNum : ℤ
  droppedNum : ℤ
  bufferedTotal : ℤ
  list : List Message
  deriving DecidableEq, Repr

def Downstream.zero : Downstream := ⟨0, 0, 0, 0, []⟩

/-- A counter of type `int` plus one. -/
def increment (n : ℤ) : ℤ := (n + 1).bmod (2 ^ 32)

/-- Whether a message can be buffered. -/
def HasRoom (data : Message) (d : Downstream) : Prop :=
  d.bufferedNum < dataListMaxLen ∧ d.bufferedTotal + data.length ≤ downstreamBufferTotal

instance (data : Message) (d : Downstream) : Decidable (HasRoom data d) := inferInstanceAs (Decidable (_ ∧ _))

/-- `new_message_indication` with `cdp_nnmi` 0 or 2. -/
def newMessageIndication (data : Message) (d : Downstream) : Downstream :=
  let received := increment d.receivedNum
  let total := d.bufferedTotal + data.length
  if HasRoom data d then
    { d with receivedNum := received, bufferedTotal := total, list := d.list ++ [data], bufferedNum := d.bufferedNum + 1 }
  else
    { d with receivedNum := received, bufferedTotal := total - data.length, droppedNum := increment d.droppedNum }

/-- A message that is refused changes two counters only. -/
theorem newMessageIndication_refused {data : Message} {d : Downstream} (h : ¬ HasRoom data d) :
    newMessageIndication data d =
      { d with receivedNum := increment d.receivedNum, droppedNum := increment d.droppedNum } := by
  rw [newMessageIndication, if_neg h, Int.add_sub_cancel]

/-- Reading the oldest message, if there is one. -/
def takeMessage (d : Downstream) : Option (Downstream × Option Message) :=
  if 0 < d.bufferedNum then
    match d.list with
    | [] => none
    | data :: rest => some
      ({ d with list := rest, bufferedNum := d.bufferedNum - 1, bufferedTotal := d.bufferedTotal - data.length },
        some data)
  else some (d, none)

def ofInt (n : ℤ) : UInt32 := UInt32.ofBitVec (BitVec.ofInt 32 n)

def toInt (w : UInt32) : ℤ := w.toBitVec.toInt

/-! ### Saving -/

/-- The size of `stream_info`: a length and 1024 bytes. -/
def streamInfoSize : ℕ := 4 + 1024

/-- A length and the data behind it, in memory and in flash. -/
def record (data : Message) : List UInt8 := leBytes (UInt32.ofNat data.length) ++ data

/-- The four counters as they lie in `downstream_info`. -/
def counterBytes (d : Downstream) : List UInt8 :=
  leBytes (ofInt d.bufferedNum) ++ leBytes (ofInt d.receivedNum) ++ leBytes (ofInt d.droppedNum) ++
    leBytes (ofInt d.bufferedTotal)

/-- The loop `while (buffered_num > 0)`: the oldest message goes to the last slot. -/
def unlinkNodes : ℕ → List Message → List UInt8 → Option (List UInt8)
  | 0, _, buf => some buf
  | _ + 1, [], _ => none
  | n + 1, data :: rest, buf =>
    (copyIn buf (n * streamInfoSize) (record data)).bind (unlinkNodes n rest)

/-- The loop that writes the slots from the last one down to the first, each behind the one before. -/
def writeSlots (buf : List UInt8) : ℕ → ℕ → List UInt8 → Option (List UInt8)
  | 0, _, area => some area
  | n + 1, len, area =>
    let datalen := (word buf (n * streamInfoSize)).toNat
    (copyOut buf (n * streamInfoSize) (datalen + 4)).bind fun data =>
      (copyIn area (16 + len) data).bind (writeSlots buf n (len + (datalen + 4)))

def emptySlots : List UInt8 := List.replicate (dataListMaxLen * streamInfoSize) 0

def erasedArea : List UInt8 := List.replicate areaSize 0xFF

/-- `cdp_downbuffered_save`; the result is the flash area. -/
def cdpDownbufferedSave (d : Downstream) (area : List UInt8) : Option (List UInt8) :=
  if 0 < d.receivedNum then
    (copyIn erasedArea 0 (counterBytes d)).bind fun area =>
      (unlinkNodes d.bufferedNum.toNat d.list emptySlots).bind fun buf =>
        writeSlots buf d.bufferedNum.toNat 0 area
  else some area

/-! ### Resuming -/

/-- `cdp_downbuffered_num_resume`; the total is taken as it is. The flag is `XY_OK`. -/
def cdpDownbufferedNumResume (area : List UInt8) (d : Downstream) : Bool × Downstream :=
  let d := { d with
    bufferedNum := max 0 (toInt (word area 0))
    receivedNum := max 0 (toInt (word area 4))
    droppedNum := max 0 (toInt (word area 8))
    bufferedTotal := toInt (word area 12) }
  (decide (d.bufferedNum ≤ (dataListMaxLen : ℤ)), d)

/-- The loop that reads `n` records into the slots from `i` on. -/
def readSlots (area : List UInt8) : ℕ → ℕ → ℕ → List UInt8 → Option (List UInt8)
  | 0, _, _, buf => some buf
  | n + 1, i, len, buf =>
    (copyOut area (16 + len) 4).bind fun datalen =>
      (copyIn buf (i * streamInfoSize) datalen).bind fun buf =>
        (copyOut area (16 + 4 + len) (ofLeBytes datalen).toNat).bind fun data =>
          (copyIn buf (i * streamInfoSize + 4) data).bind fun buf =>
            readSlots area n (i + 1) (len + ((word buf (i * streamInfoSize)).toNat + 4)) buf

/-- The loop that makes a node from each of `n` slots from `i` on. -/
def linkNodes (buf : List UInt8) : ℕ → ℕ → Option (List Message)
  | 0, _ => some []
  | n + 1, i =>
    (copyOut buf (i * streamInfoSize + 4) (word buf (i * streamInfoSize)).toNat).bind fun data =>
      (linkNodes buf n (i + 1)).map (data :: ·)

/-- `cdp_downbuffered_resume` in its first call after a start. The flag is `XY_OK`. -/
def cdpDownbufferedResume (area : List UInt8) (d : Downstream) : Option (Bool × Downstream) :=
  let (ok, d) := cdpDownbufferedNumResume area d
  if ok then
    (readSlots area d.bufferedNum.toNat 0 0 emptySlots).bind fun buf =>
      (linkNodes buf d.bufferedNum.toNat 0).map fun nodes => (true, { d with list := d.list ++ nodes })
  else some (false, d)

/-- With `g_cdp_resume_flag`, after which the calls do nothing. The area may be unknown. -/
def resumeOnce (resumeFlag : Bool) (area : Option (List UInt8)) (d : Downstream) : Option (Bool × Downstream) :=
  if resumeFlag then some (true, d) else area.bind (cdpDownbufferedResume · d)

end NbiotXY1100.CdpDownstream
