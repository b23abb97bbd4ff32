import NbiotXY1100.BigEndian
import Mathlib.Data.List.Basic
import Mathlib.Algebra.Group.Int.Defs

/-! # LwM2M TLV

The resources of an object instance travel as records of a type, an id, a length and a value. Instances and multiple
resources have records again as their value. `tlv.c` writes a tree of such data and reads one from a buffer. -/
namespace NbiotXY1100.LwmTlv
open BigEndian

inductive DataType where
  | undefined
  | object
  | objectInstance
  | multipleResource
  | string
  | opaqueData
  | integer
  | float
  | boolean
  | objectLink
  deriving DecidableEq

structure Signed64 where
  val : ℤ
  le : -2 ^ 63 ≤ val
  lt : val < 2 ^ 63

/-- The bytes of a float, as a `float` or as a `double`. -/
structure FloatBytes where
  bytes : List UInt8
  length : bytes.length = 4 ∨ bytes.length = 8

inductive Value where
  | undefined
  | string (bytes : List UInt8)
  | opaqueData (bytes : List UInt8)
  | integer (v : Signed64)
  | float (v : FloatBytes)
  | boolean (b : Bool)
  | objectLink (objectId objectInstanceId : UInt16)

inductive Container where
  | object
  | objectInstance
  | multipleResource
  deriving DecidableEq

/-- `lwm2m_data_t`. -/
inductive Data where
  | children (type : Container) (id : UInt16) (array : List Data)
  | value (id : UInt16) (value : Value)

def Value.type : Value → DataType
  | .undefined => .undefined
  | .string _ => .string
  | .opaqueData _ => .opaqueData
  | .integer _ => .integer
  | .float _ => .float
  | .boolean _ => .boolean
  | .objectLink _ _ => .objectLink

def Container.type : Container → DataType
  | .object => .object
  | .objectInstance => .objectInstance
  | .multipleResource => .multipleResource

/-! ### Writing -/

def prvEncodeInt (v : ℤ) : List UInt8 :=
  if -2 ^ 7 ≤ v ∧ v < 2 ^ 7 then toSignedBytes 1 v
  else if -2 ^ 15 ≤ v ∧ v < 2 ^ 15 then toSignedBytes 2 v
  else if -2 ^ 31 ≤ v ∧ v < 2 ^ 31 then toSignedBytes 4 v
  else toSignedBytes 8 v

def prvGetHeaderType : DataType → UInt8
  | .object => 0x10
  | .objectInstance => 0x00
  | .multipleResource => 0x80
  | .undefined => 0xFF
  | _ => 0xC0

def prvGetHeaderLength (id : UInt16) (dataLen : ℕ) : ℕ :=
  2 + (if 0xFF < id.toNat then 1 else 0) +
    if 0xFFFF < dataLen then 3 else if 0xFF < dataLen then 2 else if 7 < dataLen then 1 else 0

/-- Above 24 bits the length is not written, and the bytes for it are 0 here. -/
def prvCreateHeader (isInstance : Bool) (type : DataType) (id : UInt16) (dataLen : ℕ) : List UInt8 :=
  let hdrType := if isInstance then 0x40 else prvGetHeaderType type
  let first := hdrType &&& 0xC0
  let first := if 0xFF < id.toNat then first ||| 0x20 else first
  let idBytes := toBytes (if 0xFF < id.toNat then 2 else 1) id.toNat
  if dataLen ≤ 7 then (first + UInt8.ofNat dataLen) :: idBytes
  else if dataLen ≤ 0xFF then (first ||| 0x08) :: (idBytes ++ toBytes 1 dataLen)
  else if dataLen ≤ 0xFFFF then (first ||| 0x10) :: (idBytes ++ toBytes 2 dataLen)
  else if dataLen ≤ 0xFFFFFF then (first ||| 0x18) :: (idBytes ++ toBytes 3 dataLen)
  else first :: (idBytes ++ [0, 0, 0])

/-- The bytes of a value, unless its type is not known. -/
def Value.encode : Value → Option (List UInt8)
  | .undefined => none
  | .string bytes | .opaqueData bytes => some bytes
  | .integer v => some (prvEncodeInt v.val)
  | .float v => some v.bytes
  | .boolean b => some [if b then 1 else 0]
  | .objectLink objectId objectInstanceId => some (toBytes 4 (objectId.toNat * 2 ^ 16 + objectInstanceId.toNat))

mutual
/-- One round of the loop of `prv_getLength`. -/
def itemLength : Data → Option ℕ
  | .children type id array =>
    if type = .object then none
    else (prvGetLength array).map fun subLength => prvGetHeaderLength id subLength + subLength
  | .value id v => v.encode.map fun bytes => prvGetHeaderLength id bytes.length + bytes.length

/-- `none` stands for -1. -/
def prvGetLength : List Data → Option ℕ
  | [] => some 0
  | d :: ds => (itemLength d).bind fun length => (prvGetLength ds).map (length + ·)
end

/-- What a call of `xy_tlv_serialize` gives whose loop writes some bytes. -/
def allocated (dataP : List Data) (written : Option (List UInt8)) : Option (List UInt8) :=
  match prvGetLength dataP with
  | none => none
  | some 0 => some []
  | some _ => written

mutual
/-- One round of the loop of `xy_tlv_serialize`. -/
def writeItem (isInstance : Bool) : Data → Option (List UInt8)
  | .children type id array =>
    if type = .object then none
    else (allocated array (writeItems (isInstance || type = .multipleResource) array)).map fun bytes =>
      prvCreateHeader false type.type id bytes.length ++ bytes
  | .value id v => v.encode.map fun bytes => prvCreateHeader isInstance v.type id bytes.length ++ bytes

def writeItems (isInstance : Bool) : List Data → Option (List UInt8)
  | [] => some []
  | d :: ds => (writeItem isInstance d).bind fun bytes => (writeItems isInstance ds).map (bytes ++ ·)
end

def xyTlvSerialize (isResourceInstance : Bool) (dataP : List Data) : Option (List UInt8) :=
  allocated dataP (writeItems isResourceInstance dataP)

/-! ### Reading -/

def prvGetDataType (type : UInt8) : DataType :=
  if type = 0x10 then .object
  else if type = 0x00 then .objectInstance
  else if type = 0x80 then .multipleResource
  else if type = 0xC0 ∨ type = 0x40 then .opaqueData
  else .undefined

/-- What `lwm2m_decode_TLV` stores. -/
structure Header where
  oType : DataType
  oID : UInt16
  oDataIndex : ℕ
  oDataLen : ℕ

/-- The bytes of the length field. -/
def lengthSize (first : UInt8) : ℕ :=
  if first &&& 0x18 = 0x00 then 0
  else if first &&& 0x18 = 0x08 then 1
  else if first &&& 0x18 = 0x10 then 2
  else 3

def idSize (first : UInt8) : ℕ :=
  if first &&& 0x20 = 0x20 then 2 else 1

theorem idSize_pos (first : UInt8) : 0 < idSize first := by
  rw [idSize]
  split <;> decide

/-- The length of the value, from the first byte or from the field behind the id. -/
def storedLength (first : UInt8) (buffer : List UInt8) : ℕ :=
  if lengthSize first = 0 then (first &&& 0x07).toNat
  else ofBytes ((buffer.drop (idSize first)).take (lengthSize first))

/-- `none` stands for 0. The result of the function is the sum of the index and the length. -/
def lwm2mDecodeTLV : List UInt8 → Option Header
  | [] => none
  | first :: buffer =>
    let oDataIndex := 1 + idSize first + lengthSize first
    let oDataLen := storedLength first buffer
    if buffer.length + 1 < oDataIndex ∨ buffer.length + 1 < oDataIndex + oDataLen then none
    else some {
      oType := prvGetDataType (first &&& 0xC0)
      oID := UInt16.ofNat (ofBytes (buffer.take (idSize first)))
      oDataIndex := oDataIndex
      oDataLen := oDataLen }

/-- The containers that `xy_tlv_parse` reads on in. -/
def container : DataType → Option Container
  | .objectInstance => some .objectInstance
  | .multipleResource => some .multipleResource
  | _ => none

theorem lwm2mDecodeTLV_bounds {buffer : List UInt8} {h : Header} (hdec : lwm2mDecodeTLV buffer = some h) :
    2 ≤ h.oDataIndex ∧ h.oDataIndex + h.oDataLen ≤ buffer.length := by
  cases buffer with
  | nil => exact absurd hdec.symm (Option.some_ne_none h)
  | cons first buffer =>
    rw [lwm2mDecodeTLV] at hdec
    split at hdec
    · exact absurd hdec.symm (Option.some_ne_none h)
    next hlt =>
      obtain rfl := Option.some.inj hdec
      have hid := idSize_pos first
      rw [not_or, Nat.not_lt, Nat.not_lt] at hlt
      exact ⟨by dsimp only; omega, hlt.2⟩

/-- A datum with a header. A container reads `array` from the bytes of its value and is refused if it has none. -/
def itemOf (h : Header) (data : List UInt8) (array : List Data) : Option Data :=
  match container h.oType with
  | none => some (.value h.oID (.opaqueData data))
  | some type => if array.isEmpty then none else some (.children type h.oID array)

/-- The loop of `xy_tlv_parse`. `none` stands for its return from within, which gives 0 and no data. -/
def parseItems (buffer : List UInt8) : Option (List Data) :=
  match hdec : lwm2mDecodeTLV buffer with
  | none => some []
  | some h =>
    have _ := lwm2mDecodeTLV_bounds hdec
    let data := (buffer.drop h.oDataIndex).take h.oDataLen
    (itemOf h data ((parseItems data).getD [])).bind fun d =>
      (parseItems (buffer.drop (h.oDataIndex + h.oDataLen))).map (d :: ·)
termination_by buffer.length
decreasing_by
  · rw [List.length_take, List.length_drop]
    omega
  · rw [List.length_drop]
    omega

def xyTlvParse (buffer : List UInt8) : List Data :=
  (parseItems buffer).getD []

/-! ### What is written is as long as what was allocated -/

theorem prvCreateHeader_length (isInstance : Bool) (type : DataType) (id : UInt16) (dataLen : ℕ) :
    (prvCreateHeader isInstance type id dataLen).length = prvGetHeaderLength id dataLen := by
  rw [prvCreateHeader, prvGetHeaderLength]
  by_cases hid : 0xFF < id.toNat
  · rw [if_pos hid, if_pos hid]
    split_ifs <;> simp <;> omega
  · rw [if_neg hid, if_neg hid]
    split_ifs <;> simp <;> omega

theorem allocated_eq {ds : List Data} {written : Option (List UInt8)}
    (hlen : prvGetLength ds = written.map List.length) : allocated ds written = written := by
  rw [allocated, hlen]
  cases written with
  | none => rfl
  | some bytes =>
    cases bytes with
    | nil => rfl
    | cons b bs => rfl

mutual
theorem itemLength_eq (isInstance : Bool) : ∀ d, itemLength d = (writeItem isInstance d).map List.length
  | .children type id array => by
    have hlen := prvGetLength_eq (isInstance || type = .multipleResource) array
    rw [itemLength, writeItem, allocated_eq hlen, hlen]
    split
    · rfl
    · rw [Option.map_map, Option.map_map]
      refine congrArg (fun f => Option.map f _) (funext fun bytes => ?_)
      rw [Function.comp_apply, Function.comp_apply, List.length_append, prvCreateHeader_length]
  | .value id v => by
    rw [itemLength, writeItem, Option.map_map]
    refine congrArg (fun f => Option.map f _) (funext fun bytes => ?_)
    rw [Function.comp_apply, List.length_append, prvCreateHeader_length]

theorem prvGetLength_eq (isInstance : Bool) : ∀ ds, prvGetLength ds = (writeItems isInstance ds).map List.length
  | [] => by
    rw [prvGetLength, writeItems]
    rfl
  | d :: ds => by
    rw [prvGetLength, writeItems, itemLength_eq isInstance d, prvGetLength_eq isInstance ds]
    cases writeItem isInstance d with
    | none => rfl
    | some bytes =>
      rw [Option.map_some, Option.bind_some, Option.bind_some, Option.map_map, Option.map_map]
      refine congrArg (fun f => Option.map f _) (funext fun rest => ?_)
      exact List.length_append.symm
end

/-- The loop writes as many bytes as were allocated, for every tree. -/
theorem serialize_length (isResourceInstance : Bool) (dataP : List Data) :
    prvGetLength dataP = (xyTlvSerialize isResourceInstance dataP).map List.length := by
  have hlen := prvGetLength_eq isResourceInstance dataP
  rw [xyTlvSerialize, allocated_eq hlen, hlen]

theorem xyTlvSerialize_eq (isResourceInstance : Bool) (dataP : List Data) :
    xyTlvSerialize isResourceInstance dataP = writeItems isResourceInstance dataP :=
  allocated_eq (prvGetLength_eq isResourceInstance dataP)

/-! ### Reading what was written -/

section
variable {first : UInt8} {idBytes lengthBytes data rest : List UInt8}

theorem lwm2mDecodeTLV_parts (hid : idBytes.length = idSize first) (hsize : lengthBytes.length = lengthSize first)
    (hlen : storedLength first (idBytes ++ (lengthBytes ++ (data ++ rest))) = data.length) :
    lwm2mDecodeTLV (first :: (idBytes ++ (lengthBytes ++ (data ++ rest)))) =
      some ⟨prvGetDataType (first &&& 0xC0), UInt16.ofNat (ofBytes idBytes),
        1 + idBytes.length + lengthBytes.length, data.length⟩ := by
  rw [lwm2mDecodeTLV, hlen, ← hid, ← hsize, if_neg, List.take_left]
  simp only [List.length_append]
  omega

theorem storedLength_field (hid : idBytes.length = idSize first) (hsize : lengthBytes.length = lengthSize first)
    (hpos : lengthSize first ≠ 0) : storedLength first (idBytes ++ (lengthBytes ++ rest)) = ofBytes lengthBytes := by
  rw [storedLength, if_neg hpos, ← hid, List.drop_left, ← hsize, List.take_left]

end

/-- The upper two bits of the first byte. -/
def typeBits (isInstance : Bool) (type : DataType) : UInt8 :=
  (if isInstance then 0x40 else prvGetHeaderType type) &&& 0xC0

def firstBits (isInstance : Bool) (type : DataType) (id : UInt16) : UInt8 :=
  if 0xFF < id.toNat then typeBits isInstance type ||| 0x20 else typeBits isInstance type

theorem typeBits_mem (isInstance : Bool) (type : DataType) : typeBits isInstance type ∈ [0x00, 0x40, 0x80, 0xC0] := by
  cases isInstance <;> cases type <;> decide

theorem firstByte_small : ∀ t ∈ ([0x00, 0x40, 0x80, 0xC0] : List UInt8), ∀ w : Bool, ∀ n < 8,
    idSize ((if w then t ||| 0x20 else t) + UInt8.ofNat n) = (if w then 2 else 1) ∧
    lengthSize ((if w then t ||| 0x20 else t) + UInt8.ofNat n) = 0 ∧
    (((if w then t ||| 0x20 else t) + UInt8.ofNat n) &&& 0x07).toNat = n ∧
    ((if w then t ||| 0x20 else t) + UInt8.ofNat n) &&& 0xC0 = t := by
  intro t ht w
  simp only [List.mem_cons, List.not_mem_nil, or_false] at ht
  rcases ht with rfl | rfl | rfl | rfl <;> cases w <;> decide

theorem firstByte_flag : ∀ t ∈ ([0x00, 0x40, 0x80, 0xC0] : List UInt8), ∀ w : Bool,
    ∀ f ∈ ([(0x08, 1), (0x10, 2), (0x18, 3)] : List (UInt8 × ℕ)),
    idSize ((if w then t ||| 0x20 else t) ||| f.1) = (if w then 2 else 1) ∧
    lengthSize ((if w then t ||| 0x20 else t) ||| f.1) = f.2 ∧
    ((if w then t ||| 0x20 else t) ||| f.1) &&& 0xC0 = t := by
  intro t ht w f hf
  simp only [List.mem_cons, List.not_mem_nil, or_false] at ht hf
  rcases ht with rfl | rfl | rfl | rfl <;> cases w <;> rcases hf with rfl | rfl | rfl <;> decide

def idBytes (id : UInt16) : List UInt8 :=
  toBytes (if 0xFF < id.toNat then 2 else 1) id.toNat

theorem ofBytes_idBytes (id : UInt16) : UInt16.ofNat (ofBytes (idBytes id)) = id := by
  have hlt := id.toNat_lt
  have hfit : id.toNat < 256 ^ (if 0xFF < id.toNat then 2 else 1) := by
    split <;> omega
  rw [idBytes, ofBytes_toBytes hfit, UInt16.ofNat_toNat]

section
variable {isInstance : Bool} {type : DataType} {id : UInt16} {data rest : List UInt8}

theorem firstBits_eq : firstBits isInstance type id =
    if decide (0xFF < id.toNat) = true then typeBits isInstance type ||| 0x20 else typeBits isInstance type := by
  rw [firstBits]
  simp only [decide_eq_true_eq]

theorem idBytes_length : (idBytes id).length = if decide (0xFF < id.toNat) = true then 2 else 1 := by
  rw [idBytes, toBytes_length]
  simp only [decide_eq_true_eq]

/-- A length field of `k` bytes, which the bits `f` announce. -/
theorem decode_flag {f : UInt8} {k : ℕ} (hf : (f, k) ∈ ([(0x08, 1), (0x10, 2), (0x18, 3)] : List (UInt8 × ℕ)))
    (hfit : data.length < 256 ^ k) :
    lwm2mDecodeTLV ((firstBits isInstance type id ||| f) :: (idBytes id ++ (toBytes k data.length ++ (data ++ rest)))) =
      some ⟨prvGetDataType (typeBits isInstance type), id, 1 + (idBytes id).length + k, data.length⟩ := by
  obtain ⟨hid, hsize, htype⟩ :=
    firstByte_flag _ (typeBits_mem isInstance type) (decide (0xFF < id.toNat)) (f, k) hf
  rw [← firstBits_eq] at hid hsize htype
  rw [← idBytes_length] at hid
  have hpos : k ≠ 0 := by
    rintro rfl
    simp at hf
  have hfield := (toBytes_length k data.length).trans hsize.symm
  have hstored : storedLength (firstBits isInstance type id ||| f)
      (idBytes id ++ (toBytes k data.length ++ (data ++ rest))) = ofBytes (toBytes k data.length) :=
    storedLength_field hid.symm hfield (hsize ▸ hpos)
  rw [lwm2mDecodeTLV_parts hid.symm hfield (hstored.trans (ofBytes_toBytes hfit)), htype, ofBytes_idBytes,
    toBytes_length]

/-- A length of three bits in the first byte. -/
theorem decode_small (hlen : data.length ≤ 7) :
    lwm2mDecodeTLV ((firstBits isInstance type id + UInt8.ofNat data.length) :: (idBytes id ++ (data ++ rest))) =
      some ⟨prvGetDataType (typeBits isInstance type), id, 1 + (idBytes id).length, data.length⟩ := by
  obtain ⟨hid, hsize, hlow, htype⟩ :=
    firstByte_small _ (typeBits_mem isInstance type) (decide (0xFF < id.toNat)) data.length (Nat.lt_succ_of_le hlen)
  rw [← firstBits_eq] at hid hsize hlow htype
  rw [← idBytes_length] at hid
  have hfield : ([] : List UInt8).length = lengthSize (firstBits isInstance type id + UInt8.ofNat data.length) :=
    hsize.symm
  have hstored : storedLength (firstBits isInstance type id + UInt8.ofNat data.length)
      (idBytes id ++ ([] ++ (data ++ rest))) = data.length := by
    rw [storedLength, if_pos hsize, hlow]
  have hparts := lwm2mDecodeTLV_parts hid.symm hfield hstored
  rw [htype, ofBytes_idBytes] at hparts
  exact hparts

theorem prvCreateHeader_eq (isInstance : Bool) (type : DataType) (id : UInt16) (n : ℕ) :
    prvCreateHeader isInstance type id n =
      if n ≤ 7 then (firstBits isInstance type id + UInt8.ofNat n) :: idBytes id
      else if n ≤ 0xFF then (firstBits isInstance type id ||| 0x08) :: (idBytes id ++ toBytes 1 n)
      else if n ≤ 0xFFFF then (firstBits isInstance type id ||| 0x10) :: (idBytes id ++ toBytes 2 n)
      else if n ≤ 0xFFFFFF then (firstBits isInstance type id ||| 0x18) :: (idBytes id ++ toBytes 3 n)
      else firstBits isInstance type id :: (idBytes id ++ [0, 0, 0]) :=
  rfl

theorem decode_header (isInstance : Bool) (type : DataType) (id : UInt16) (rest : List UInt8)
    (hlen : data.length < 2 ^ 24) :
    lwm2mDecodeTLV (prvCreateHeader isInstance type id data.length ++ (data ++ rest)) =
      some ⟨prvGetDataType (typeBits isInstance type), id, (prvCreateHeader isInstance type id data.length).length,
        data.length⟩ := by
  rw [prvCreateHeader_eq]
  split
  next h7 =>
    rw [List.cons_append, decode_small h7, List.length_cons, Nat.add_comm]
  next h7 =>
    have hwide : ∀ {f : UInt8} {k : ℕ}, (f, k) ∈ ([(0x08, 1), (0x10, 2), (0x18, 3)] : List (UInt8 × ℕ)) →
        data.length < 256 ^ k →
        lwm2mDecodeTLV ((firstBits isInstance type id ||| f) :: (idBytes id ++ toBytes k data.length) ++ (data ++ rest)) =
          some ⟨prvGetDataType (typeBits isInstance type), id,
            ((firstBits isInstance type id ||| f) :: (idBytes id ++ toBytes k data.length)).length, data.length⟩ := by
      intro f k hf hfit
      rw [List.cons_append, List.append_assoc, decode_flag hf hfit, List.length_cons, List.length_append,
        toBytes_length, Nat.add_comm 1, Nat.add_right_comm]
    split
    next h8 => exact hwide (by simp) (by omega)
    next h8 =>
      split
      next h16 => exact hwide (by simp) (by omega)
      next h16 => exact (if_pos (Nat.le_of_lt_succ hlen)).symm ▸ hwide (by simp) (by omega)

end

/-! ### Trees -/

theorem parseItems_nil : parseItems [] = some [] := by
  rw [parseItems]
  rfl

theorem parseItems_some {buffer : List UInt8} {h : Header} (hdec : lwm2mDecodeTLV buffer = some h) :
    parseItems buffer =
      (itemOf h ((buffer.drop h.oDataIndex).take h.oDataLen)
        ((parseItems ((buffer.drop h.oDataIndex).take h.oDataLen)).getD [])).bind fun d =>
        (parseItems (buffer.drop (h.oDataIndex + h.oDataLen))).map (d :: ·) := by
  rw [parseItems]
  split
  next hnone => exact absurd (hdec.symm.trans hnone) (Option.some_ne_none h)
  next h' hsome =>
    obtain rfl := Option.some.inj (hdec.symm.trans hsome)
    rfl

/-- One written datum is read back, and then the rest. -/
theorem parseItems_written (isInstance : Bool) (type : DataType) (id : UInt16) {data : List UInt8} (rest : List UInt8)
    (hlen : data.length < 2 ^ 24) :
    parseItems (prvCreateHeader isInstance type id data.length ++ data ++ rest) =
      (itemOf ⟨prvGetDataType (typeBits isInstance type), id,
          (prvCreateHeader isInstance type id data.length).length, data.length⟩ data ((parseItems data).getD [])).bind
        fun d => (parseItems rest).map (d :: ·) := by
  rw [List.append_assoc, parseItems_some (decode_header isInstance type id rest hlen)]
  dsimp only
  rw [List.drop_left, List.take_left, List.drop_append, List.drop_of_length_le (Nat.le_add_right _ _),
    Nat.add_sub_cancel_left, List.drop_left, List.nil_append]

mutual
/-- The values and the contents of the containers are shorter than 2^24 bytes. -/
def Short : Data → Prop
  | .children _ _ array => (∀ n, prvGetLength array = some n → n < 2 ^ 24) ∧ AllShort array
  | .value _ v => ∀ bytes, v.encode = some bytes → bytes.length < 2 ^ 24

def AllShort : List Data → Prop
  | [] => True
  | d :: ds => Short d ∧ AllShort ds
end

mutual
/-- No container is empty. -/
def filled : Data → Bool
  | .children _ _ array => !array.isEmpty && allFilled array
  | .value _ _ => true

def allFilled : List Data → Bool
  | [] => true
  | d :: ds => filled d && allFilled ds
end

mutual
/-- The tree with the bytes for the values. -/
def untyped : Data → Data
  | .children type id array => .children type id (allUntyped array)
  | .value id v => .value id (.opaqueData (v.encode.getD []))

def allUntyped : List Data → List Data
  | [] => []
  | d :: ds => untyped d :: allUntyped ds
end

theorem container_typeBits {type : Container} (htype : type ≠ .object) :
    container (prvGetDataType (typeBits false type.type)) = some type := by
  cases type with
  | object => exact absurd rfl htype
  | objectInstance => decide
  | multipleResource => decide

theorem container_value (isInstance : Bool) (v : Value) :
    container (prvGetDataType (typeBits isInstance v.type)) = none := by
  have hall : ∀ t ∈ [DataType.undefined, .string, .opaqueData, .integer, .float, .boolean, .objectLink],
      container (prvGetDataType (typeBits isInstance t)) = none := by
    cases isInstance <;> decide
  refine hall v.type ?_
  cases v <;> simp [Value.type]

theorem allUntyped_isEmpty (ds : List Data) : (allUntyped ds).isEmpty = ds.isEmpty := by
  cases ds with
  | nil => rw [allUntyped]
  | cons d ds =>
    rw [allUntyped]
    rfl

mutual
theorem parseItems_item (isInstance : Bool) : ∀ (d : Data) (bytes rest : List UInt8), Short d →
    writeItem isInstance d = some bytes →
    parseItems (bytes ++ rest) = if filled d then (parseItems rest).map (untyped d :: ·) else none
  | .children type id array, bytes, rest, hshort, hwrite => by
    have hlen := prvGetLength_eq (isInstance || type = .multipleResource) array
    rw [Short] at hshort
    rw [writeItem, allocated_eq hlen] at hwrite
    split at hwrite
    next => exact absurd hwrite.symm (Option.some_ne_none bytes)
    next htype =>
      obtain ⟨data, hdata, rfl⟩ := Option.map_eq_some_iff.mp hwrite
      rw [hdata, Option.map_some] at hlen
      rw [parseItems_written false type.type id rest (hshort.1 _ hlen), itemOf, container_typeBits htype,
        parseItems_items _ array data hshort.2 hdata, filled, untyped]
      dsimp only
      cases hall : allFilled array with
      | false =>
        rw [if_neg Bool.false_ne_true, Option.getD_none, Bool.and_false, if_neg Bool.false_ne_true]
        rfl
      | true =>
        rw [if_pos rfl, Option.getD_some, allUntyped_isEmpty, Bool.and_true]
        cases array.isEmpty <;> rfl
  | .value id v, bytes, rest, hshort, hwrite => by
    rw [writeItem] at hwrite
    rw [Short] at hshort
    obtain ⟨data, henc, rfl⟩ := Option.map_eq_some_iff.mp hwrite
    rw [parseItems_written isInstance v.type id rest (hshort data henc), itemOf, container_value, filled, untyped,
      henc]
    rfl

theorem parseItems_items (isInstance : Bool) : ∀ (ds : List Data) (bytes : List UInt8), AllShort ds →
    writeItems isInstance ds = some bytes →
    parseItems bytes = if allFilled ds then some (allUntyped ds) else none
  | [], bytes, _, hwrite => by
    rw [writeItems] at hwrite
    cases hwrite
    rw [parseItems_nil, allFilled, allUntyped]
    rfl
  | d :: ds, bytes, hshort, hwrite => by
    rw [writeItems] at hwrite
    rw [AllShort] at hshort
    obtain ⟨first, hfirst, hrest⟩ := Option.bind_eq_some_iff.mp hwrite
    obtain ⟨rest, hds, rfl⟩ := Option.map_eq_some_iff.mp hrest
    rw [parseItems_item isInstance d first rest hshort.1 hfirst, parseItems_items isInstance ds rest hshort.2 hds,
      allFilled, allUntyped]
    cases filled d <;> cases allFilled ds <;> rfl
end

/-- A written tree is read back with the bytes of its values, or, if it has an empty container anywhere, refused as a
whole. -/
theorem tlv_roundTrip (isResourceInstance : Bool) (ds : List Data) (hshort : AllShort ds) {bytes : List UInt8}
    (hwrite : xyTlvSerialize isResourceInstance ds = some bytes) :
    xyTlvParse bytes = if allFilled ds then allUntyped ds else [] := by
  rw [xyTlvSerialize_eq] at hwrite
  rw [xyTlvParse, parseItems_items isResourceInstance ds bytes hshort hwrite]
  split <;> rfl

def twoNames : List Data :=
  [.children .objectInstance 0 [.value 1 (.string [0x61, 0x62]), .children .multipleResource 300
    [.value 0 (.boolean true)]]]

theorem twoNames_short : AllShort twoNames := by
  have hlen : ∀ {length n : ℕ}, length < 2 ^ 24 → some length = some n → n < 2 ^ 24 :=
    fun hlt h => Option.some.inj h ▸ hlt
  have hvalue : ∀ {bytes data : List UInt8}, bytes.length < 2 ^ 24 → some bytes = some data → data.length < 2 ^ 24 :=
    fun hlt h => Option.some.inj h ▸ hlt
  simp only [twoNames, AllShort, Short]
  exact ⟨⟨fun n => @hlen 10 n (by decide), fun _ => hvalue (by decide),
    ⟨fun n => @hlen 3 n (by decide), fun _ => hvalue (by decide), trivial⟩, trivial⟩, trivial⟩

theorem tlv_roundTrip_nested :
    xyTlvParse [0x08, 0x00, 0x0A, 0xC2, 0x01, 0x61, 0x62, 0xA3, 0x01, 0x2C, 0x41, 0x00, 0x01] =
      [.children .objectInstance 0 [.value 1 (.opaqueData [0x61, 0x62]), .children .multipleResource 300
        [.value 0 (.opaqueData [0x01])]]] :=
  tlv_roundTrip false twoNames twoNames_short rfl

/-! ### Values -/

/-- `xy_utils_textToInt`. The accumulator has 64 bits. -/
def textToInt (buffer : List UInt8) : Option ℤ :=
  let digits := if buffer.head? = some 0x2D then buffer.tail else buffer
  let result := digits.foldlM (fun (result : ℕ) c =>
    if 0x30 ≤ c ∧ c ≤ 0x39 ∧ result ≤ (2 ^ 64 - 1) / 10 then some ((result * 10 + (c.toNat - 0x30)) % 2 ^ 64)
    else none) 0
  if buffer = [] then none
  else result.bind fun result =>
    if 2 ^ 63 - 1 < result then none
    else some (if buffer.head? = some 0x2D then -(result : ℤ) else result)

def lwm2mDataDecodeInt : Data → Option ℤ
  | .value _ (.integer v) => some v.val
  | .value _ (.string bytes) => textToInt bytes
  | .value _ (.opaqueData bytes) =>
    if bytes.length = 1 ∨ bytes.length = 2 ∨ bytes.length = 4 ∨ bytes.length = 8 then some (ofSignedBytes bytes)
    else none
  | _ => none

def lwm2mDataDecodeBool : Data → Option Bool
  | .value _ (.boolean b) => some b
  | .value _ (.string bytes) =>
    if bytes = [0x30] then some false else if bytes = [0x31] then some true else none
  | .value _ (.opaqueData bytes) =>
    if bytes = [0] then some false else if bytes = [1] then some true else none
  | _ => none

theorem prvEncodeInt_signed (v : Signed64) :
    ∃ k, (k = 1 ∨ k = 2 ∨ k = 4 ∨ k = 8) ∧ prvEncodeInt v.val = toSignedBytes k v.val ∧
      -((256 ^ k : ℕ) : ℤ) ≤ v.val * 2 ∧ v.val * 2 < (256 ^ k : ℕ) := by
  have hle := v.le
  have hlt := v.lt
  rw [prvEncodeInt]
  split
  next h => exact ⟨1, by simp, rfl, by omega, by omega⟩
  next =>
    split
    next h => exact ⟨2, by simp, rfl, by omega, by omega⟩
    next =>
      split
      next h => exact ⟨4, by simp, rfl, by omega, by omega⟩
      next => exact ⟨8, by simp, rfl, by omega, by omega⟩

theorem decodeInt_untyped (id : UInt16) (v : Signed64) :
    lwm2mDataDecodeInt (untyped (.value id (.integer v))) = some v.val := by
  obtain ⟨k, hk, henc, hlow, hhigh⟩ := prvEncodeInt_signed v
  rw [untyped, Value.encode, Option.getD_some, lwm2mDataDecodeInt, henc, toSignedBytes_length, if_pos hk,
    ofSignedBytes_toSignedBytes hlow hhigh]

theorem decodeBool_untyped (id : UInt16) (b : Bool) :
    lwm2mDataDecodeBool (untyped (.value id (.boolean b))) = some b := by
  rw [untyped]
  cases b <;> rfl

theorem allUntyped_getElem? (ds : List Data) (i : ℕ) : (allUntyped ds)[i]? = ds[i]?.map untyped := by
  induction ds generalizing i with
  | nil =>
    rw [allUntyped]
    rfl
  | cons d ds ih =>
    rw [allUntyped]
    cases i with
    | zero => rfl
    | succ i => exact ih i

/-- The integers and the booleans of a list without an empty container are the same after it was written and read back,
whatever width an integer was written with. -/
theorem tlv_values {isResourceInstance : Bool} {ds : List Data} (hshort : AllShort ds) (hfilled : allFilled ds = true)
    {bytes : List UInt8} (hwrite : xyTlvSerialize isResourceInstance ds = some bytes) :
    (∀ (i : ℕ) (id : UInt16) (v : Signed64), ds[i]? = some (.value id (.integer v)) →
      (xyTlvParse bytes)[i]?.bind lwm2mDataDecodeInt = some v.val) ∧
    (∀ (i : ℕ) (id : UInt16) (b : Bool), ds[i]? = some (.value id (.boolean b)) →
      (xyTlvParse bytes)[i]?.bind lwm2mDataDecodeBool = some b) := by
  have hparse : xyTlvParse bytes = allUntyped ds := by
    rw [xyTlvSerialize_eq] at hwrite
    rw [xyTlvParse, parseItems_items isResourceInstance ds bytes hshort hwrite, if_pos hfilled, Option.getD_some]
  rw [hparse]
  constructor
  · intro i id v hd
    rw [allUntyped_getElem?, hd, Option.map_some, Option.bind_some, decodeInt_untyped]
  · intro i id b hd
    rw [allUntyped_getElem?, hd, Option.map_some, Option.bind_some, decodeBool_untyped]

def temperature : Signed64 :=
  ⟨-300, by decide, by decide⟩

theorem temperature_short : AllShort [.value 5700 (.integer temperature)] := by
  rw [AllShort, Short, AllShort]
  refine ⟨fun bytes hbytes => ?_, trivial⟩
  obtain rfl := Option.some.inj hbytes
  decide

theorem tlv_values_negative :
    (xyTlvParse [0xE2, 0x16, 0x44, 0xFE, 0xD4])[0]?.bind lwm2mDataDecodeInt = some (-300) :=
  (@tlv_values false _ temperature_short rfl _ rfl).1 0 5700 temperature rfl

end NbiotXY1100.LwmTlv
