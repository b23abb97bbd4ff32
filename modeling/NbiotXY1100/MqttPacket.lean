import Mathlib.Data.List.Basic
import Mathlib.Algebra.GroupWithZero.Nat
import Mathlib.Tactic.Ring

/-! # MQTT packets

The variable-length "remaining length" field, and the PUBLISH and acknowledgement packets that are written and
read with it. A buffer is the list of its bytes. -/
namespace NbiotXY1100.MqttPacket

abbrev Bytes := List UInt8

/-! ### The remaining length -/

/-- `MQTTPacket_encode`. -/
def mqttPacketEncode (length : ℕ) : Bytes :=
  if h : length < 128 then [UInt8.ofNat length]
  else UInt8.ofNat (length % 128 + 128) :: mqttPacketEncode (length / 128)
termination_by length
decreasing_by omega

/-- The loop of `MQTTPacket_decode`: it may read `left` more bytes and returns how many were asked for, the value
and the bytes behind the ones it read. -/
def decodeLoop : ℕ → ℕ → ℕ → ℕ → Bytes → ℕ × ℕ × Bytes
  | 0, len, _, value, bytes => (len + 1, value, bytes)
  | _ + 1, len, _, value, [] => (len + 1, value, [])
  | left + 1, len, multiplier, value, c :: bytes =>
    let value := value + c.toNat % 128 * multiplier
    if 128 ≤ c.toNat then decodeLoop left (len + 1) (multiplier * 128) value bytes else (len + 1, value, bytes)

def maxNoOfRemainingLengthBytes : ℕ := 4

/-- `MQTTPacket_decode`. -/
def mqttPacketDecode (bytes : Bytes) : ℕ × ℕ × Bytes :=
  decodeLoop maxNoOfRemainingLengthBytes 0 1 0 bytes

/-- `MQTTPacket_len`. -/
def mqttPacketLen (remLen : ℕ) : ℕ :=
  let remLen := remLen + 1
  if remLen < 128 then remLen + 1
  else if remLen < 16384 then remLen + 2
  else if remLen < 2097151 then remLen + 3
  else remLen + 4

theorem encode_of_lt {n : ℕ} (h : n < 128) : mqttPacketEncode n = [UInt8.ofNat n] := by
  rw [mqttPacketEncode, dif_pos h]

theorem encode_of_le {n : ℕ} (h : 128 ≤ n) :
    mqttPacketEncode n = UInt8.ofNat (n % 128 + 128) :: mqttPacketEncode (n / 128) := by
  rw [mqttPacketEncode, dif_neg (Nat.not_lt_of_le h)]

theorem toNat_ofNat {n : ℕ} (h : n < 256) : (UInt8.ofNat n).toNat = n :=
  UInt8.toNat_ofNat_of_lt' h

theorem encode_ne_nil (n : ℕ) : mqttPacketEncode n ≠ [] := by
  rw [mqttPacketEncode]
  split
  · exact List.cons_ne_nil _ _
  · exact List.cons_ne_nil _ _

/-- The length of an encoding is the number of its base-128 digits. -/
theorem encode_length_le {n k : ℕ} (hk : 0 < k) : (mqttPacketEncode n).length ≤ k ↔ n < 128 ^ k := by
  induction k generalizing n with
  | zero => exact absurd hk (Nat.lt_irrefl 0)
  | succ k ih =>
    by_cases hn : n < 128
    · have hpow : 128 ≤ 128 ^ (k + 1) := Nat.le_self_pow (Nat.succ_ne_zero k) 128
      rw [encode_of_lt hn]
      exact iff_of_true (Nat.succ_le_succ (Nat.zero_le k)) (Nat.lt_of_lt_of_le hn hpow)
    · rw [encode_of_le (Nat.not_lt.mp hn), List.length_cons, Nat.succ_le_succ_iff, Nat.pow_succ,
        ← Nat.div_lt_iff_lt_mul (by decide)]
      cases k with
      | zero =>
        have hlen := List.length_pos_iff.mpr (encode_ne_nil (n / 128))
        have hdiv : 1 ≤ n / 128 := (Nat.one_le_div_iff (by decide)).mpr (Nat.not_lt.mp hn)
        refine iff_of_false (Nat.not_le_of_lt hlen) ?_
        rw [Nat.pow_zero]
        exact Nat.not_lt_of_le hdiv
      | succ k => exact ih (Nat.succ_pos k)

/-- What the decoder makes of an encoding: the length, or what fits into the bytes that it may read. -/
theorem decodeLoop_encode (left len multiplier value n : ℕ) (rest : Bytes) (hleft : 0 < left) :
    decodeLoop left len multiplier value (mqttPacketEncode n ++ rest) =
      if n < 128 ^ left then (len + (mqttPacketEncode n).length, value + n * multiplier, rest)
      else (len + left + 1, value + n % 128 ^ left * multiplier, (mqttPacketEncode n).drop left ++ rest) := by
  induction left generalizing len multiplier value n with
  | zero => exact absurd hleft (Nat.lt_irrefl 0)
  | succ left ih =>
    by_cases hn : n < 128
    · have hpow : n < 128 ^ (left + 1) := Nat.lt_of_lt_of_le hn (Nat.le_self_pow (Nat.succ_ne_zero left) 128)
      rw [encode_of_lt hn, if_pos hpow, List.singleton_append, decodeLoop, toNat_ofNat (by omega),
        if_neg (Nat.not_le_of_lt hn), Nat.mod_eq_of_lt hn]
      rfl
    · have hn' := Nat.not_lt.mp hn
      have hbyte : (UInt8.ofNat (n % 128 + 128)).toNat = n % 128 + 128 := toNat_ofNat (by omega)
      have hdigit : (n % 128 + 128) % 128 = n % 128 := by omega
      rw [encode_of_le hn', List.cons_append, decodeLoop, hbyte, if_pos (Nat.le_add_left _ _), hdigit]
      cases left with
      | zero =>
        rw [decodeLoop, if_neg (by simpa using hn)]
        rfl
      | succ left =>
        have hlt : n / 128 < 128 ^ (left + 1) ↔ n < 128 ^ (left + 1 + 1) := by
          rw [Nat.pow_succ _ (left + 1), Nat.div_lt_iff_lt_mul (by decide)]
        rw [ih _ _ _ _ (Nat.succ_pos left)]
        by_cases hpow : n < 128 ^ (left + 1 + 1)
        · rw [if_pos (hlt.mpr hpow), if_pos hpow, List.length_cons]
          refine Prod.ext (by dsimp only; omega) (Prod.ext ?_ rfl)
          dsimp only
          have hsplit := Nat.div_add_mod n 128
          calc value + n % 128 * multiplier + n / 128 * (multiplier * 128)
              = value + (128 * (n / 128) + n % 128) * multiplier := by ring
            _ = value + n * multiplier := by rw [hsplit]
        · rw [if_neg (fun h => hpow (hlt.mp h)), if_neg hpow]
          refine Prod.ext (by dsimp only; omega) (Prod.ext ?_ rfl)
          dsimp only
          have hmod : n % 128 ^ (left + 1 + 1) = n % 128 + 128 * (n / 128 % 128 ^ (left + 1)) := by
            have hpow' : 128 ^ (left + 1 + 1) = 128 * 128 ^ (left + 1) := Nat.pow_succ'
            rw [hpow', Nat.mod_mul]
          rw [hmod]
          ring

theorem decode_encode {n : ℕ} (hn : n < 2 ^ 28) (rest : Bytes) :
    mqttPacketDecode (mqttPacketEncode n ++ rest) = ((mqttPacketEncode n).length, n, rest) := by
  rw [mqttPacketDecode, decodeLoop_encode _ _ _ _ _ _ (by decide), maxNoOfRemainingLengthBytes, if_pos (by omega),
    Nat.zero_add, Nat.zero_add, Nat.mul_one]

/-- A length that is too long for the field loses its upper bits. -/
theorem decode_encode_long {n : ℕ} (hn : 2 ^ 28 ≤ n) (rest : Bytes) :
    mqttPacketDecode (mqttPacketEncode n ++ rest) = (5, n % 2 ^ 28, (mqttPacketEncode n).drop 4 ++ rest) := by
  have hpow : 128 ^ 4 = 2 ^ 28 := rfl
  rw [mqttPacketDecode, decodeLoop_encode _ _ _ _ _ _ (by decide), maxNoOfRemainingLengthBytes, if_neg (by omega),
    Nat.zero_add, Nat.zero_add, Nat.mul_one, hpow]

/-- `MQTTPacket_len` is at least the length of a packet, which is all that the callers need. -/
theorem length_le_mqttPacketLen {n : ℕ} (hn : n < 2 ^ 28) : 1 + (mqttPacketEncode n).length + n ≤ mqttPacketLen n := by
  have hone : (mqttPacketEncode n).length ≤ 1 ↔ n < 128 := @encode_length_le n 1 (by decide)
  have htwo := @encode_length_le n 2 (by decide)
  have hthree := @encode_length_le n 3 (by decide)
  have hfour := @encode_length_le n 4 (by decide)
  unfold mqttPacketLen
  dsimp only
  split
  · omega
  · split
    · omega
    · split
      · omega
      · omega

/-! ### Packets -/

/-- The first byte of a packet, made of its bit fields. -/
def mqttHeader (type dup qos retain : ℕ) : UInt8 :=
  UInt8.ofNat (type % 16 * 16 + dup % 2 * 8 + qos % 4 * 2 + retain % 2)

def headerType (byte : UInt8) : ℕ := byte.toNat / 16
def headerDup (byte : UInt8) : ℕ := byte.toNat / 8 % 2
def headerQos (byte : UInt8) : ℕ := byte.toNat / 2 % 4
def headerRetain (byte : UInt8) : ℕ := byte.toNat % 2

def publish : ℕ := 3
def pubrel : ℕ := 6

/-- `writeInt`: the upper byte is cut to 8 bits. -/
def writeInt (n : ℕ) : Bytes :=
  [UInt8.ofNat (n / 256), UInt8.ofNat (n % 256)]

/-- `readInt`, which reads two bytes without looking at the end of the packet. -/
def readInt : Bytes → Option (ℕ × Bytes)
  | hi :: lo :: rest => some (256 * hi.toNat + lo.toNat, rest)
  | _ => none

/-- `MQTTString`; a C string is the bytes before its zero. -/
structure MqttString where
  cstring : Option Bytes
  lenstring : Bytes
  deriving DecidableEq

/-- `MQTTstrlen`. -/
def mqttStrlen (s : MqttString) : ℕ :=
  match s.cstring with
  | some c => c.length
  | none => s.lenstring.length

/-- `writeMQTTString`. -/
def writeMqttString (s : MqttString) : Bytes :=
  if 0 < s.lenstring.length then writeInt s.lenstring.length ++ s.lenstring
  else match s.cstring with
    | some c => writeInt c.length ++ c
    | none => writeInt 0

/-- `readMQTTLenString` in front of the end of the packet, which is `left` bytes away. -/
def readMqttLenString (left : ℕ) (bytes : Bytes) : Option (MqttString × ℕ × Bytes) :=
  if 1 < left then
    (readInt bytes).bind fun (len, rest) =>
      if len ≤ left - 2 then some (⟨none, rest.take len⟩, left - 2 - len, rest.drop len) else none
  else none

/-- The message that a PUBLISH packet is made of. -/
structure Message where
  dup : ℕ
  qos : ℕ
  retained : ℕ
  packetid : ℕ
  topicName : MqttString
  payload : Bytes
  deriving DecidableEq

/-- `MQTTSerialize_publishLength`. -/
def mqttSerializePublishLength (m : Message) : ℕ :=
  2 + mqttStrlen m.topicName + m.payload.length + if 0 < m.qos then 2 else 0

/-- `MQTTSerialize_publish`; `none` is `MQTTPACKET_BUFFER_TOO_SHORT`. -/
def mqttSerializePublish (buflen : ℕ) (m : Message) : Option Bytes :=
  let remLen := mqttSerializePublishLength m
  if buflen < mqttPacketLen remLen then none
  else some (mqttHeader publish m.dup m.qos m.retained :: (mqttPacketEncode remLen ++ (writeMqttString m.topicName ++
    ((if 0 < m.qos then writeInt m.packetid else []) ++ m.payload))))

/-- What `MQTTDeserialize_publish` stores through its pointers; `payload` is the buffer from the payload on. -/
structure Received where
  dup : ℕ
  qos : ℕ
  retained : ℕ
  packetid : Option ℕ
  topicName : MqttString
  payloadlen : ℤ
  payload : Bytes

/-- `MQTTDeserialize_publish`. An error holds the code that is returned: for a topic that does not fit it is the
length of the length field. Reading behind the buffer is refused. -/
def mqttDeserializePublish : Bytes → Option (Except ℕ Received)
  | [] => none
  | header :: rest =>
    if headerType header ≠ publish then some (.error 0)
    else
      let (len, mylen, _) := mqttPacketDecode rest
      match readMqttLenString mylen (rest.drop len) with
      | none => some (.error len)
      | some (topicName, left, rest) =>
        if 0 < headerQos header then
          (readInt rest).map fun (packetid, rest) =>
            .ok ⟨headerDup header, headerQos header, headerRetain header, some packetid, topicName, left - 2, rest⟩
        else some (.ok ⟨headerDup header, headerQos header, headerRetain header, none, topicName, left, rest⟩)

/-- The bytes of the topic. -/
def topicBytes (s : MqttString) : Bytes :=
  s.cstring.getD s.lenstring

/-- The message is read as it was written. -/
structure Received.Carries (r : Received) (m : Message) : Prop where
  dup : r.dup = m.dup
  qos : r.qos = m.qos
  retained : r.retained = m.retained
  packetid : 0 < m.qos → r.packetid = some m.packetid
  topicName : r.topicName = ⟨none, topicBytes m.topicName⟩
  payloadlen : r.payloadlen = m.payload.length
  payload : r.payload.take m.payload.length = m.payload

/-- The values that fit into their bit fields, and a topic in one of its two forms. -/
structure Message.Fits (m : Message) : Prop where
  dup : m.dup < 2
  qos : m.qos < 4
  retained : m.retained < 2
  packetid : m.packetid < 2 ^ 16
  topicName : m.topicName.cstring = none ∨ m.topicName.lenstring = []

theorem header_toNat {type dup qos retain : ℕ} (htype : type < 16) (hdup : dup < 2) (hqos : qos < 4)
    (hretain : retain < 2) : (mqttHeader type dup qos retain).toNat = type * 16 + dup * 8 + qos * 2 + retain := by
  rw [mqttHeader, toNat_ofNat (by omega)]
  omega

theorem readInt_writeInt {n : ℕ} (hn : n < 2 ^ 16) (rest : Bytes) : readInt (writeInt n ++ rest) = some (n, rest) := by
  have hhi : (UInt8.ofNat (n / 256)).toNat = n / 256 := toNat_ofNat (by omega)
  have hlo : (UInt8.ofNat (n % 256)).toNat = n % 256 := toNat_ofNat (by omega)
  rw [writeInt, List.cons_append, List.cons_append, readInt, hhi, hlo, Nat.div_add_mod]
  rfl

theorem readInt_lt {bytes rest : Bytes} {n : ℕ} (h : readInt bytes = some (n, rest)) : n < 2 ^ 16 := by
  rcases bytes with _ | ⟨hi, _ | ⟨lo, tail⟩⟩
  · cases h
  · cases h
  · cases h
    have hhi := hi.toNat_lt
    have hlo := lo.toNat_lt
    omega

theorem topicBytes_length (s : MqttString) : (topicBytes s).length = mqttStrlen s := by
  unfold topicBytes mqttStrlen
  cases s.cstring with
  | none => rfl
  | some c => rfl

theorem writeMqttString_eq {s : MqttString} (h : s.cstring = none ∨ s.lenstring = []) :
    writeMqttString s = writeInt (mqttStrlen s) ++ topicBytes s := by
  unfold writeMqttString mqttStrlen topicBytes
  rcases h with h | h
  · rw [h]
    split
    · rfl
    next hzero =>
      have hnil : s.lenstring = [] := List.length_eq_zero_iff.mp (Nat.eq_zero_of_not_pos hzero)
      simp [hnil]
  · rw [h, List.length_nil, if_neg (Nat.lt_irrefl 0)]
    cases s.cstring with
    | none => rfl
    | some c => rfl

theorem readMqttLenString_write {s : MqttString} (h : s.cstring = none ∨ s.lenstring = []) (hlen : mqttStrlen s < 2 ^ 16)
    (left : ℕ) (rest : Bytes) :
    readMqttLenString (2 + mqttStrlen s + left) (writeMqttString s ++ rest) =
      some (⟨none, topicBytes s⟩, left, rest) := by
  have hleft : 2 + mqttStrlen s + left - 2 = mqttStrlen s + left := by omega
  rw [readMqttLenString, if_pos (by omega), writeMqttString_eq h, List.append_assoc, readInt_writeInt hlen,
    Option.bind_some, hleft]
  dsimp only
  rw [if_pos (Nat.le_add_right _ _), ← topicBytes_length, List.take_left', List.drop_left', Nat.add_sub_cancel_left]
  · rfl
  · rfl

section
variable {m : Message} {buflen : ℕ} {bytes : Bytes}

/-- What stands behind the topic in a PUBLISH packet. -/
def afterTopic (m : Message) : Bytes :=
  (if 0 < m.qos then writeInt m.packetid else []) ++ m.payload

theorem serialize_eq (h : mqttSerializePublish buflen m = some bytes) :
    bytes = mqttHeader publish m.dup m.qos m.retained ::
      (mqttPacketEncode (mqttSerializePublishLength m) ++ (writeMqttString m.topicName ++ afterTopic m)) := by
  unfold mqttSerializePublish at h
  dsimp only at h
  split at h
  · cases h
  · cases h
    rfl

theorem Message.Fits.header (hm : m.Fits) :
    headerType (mqttHeader publish m.dup m.qos m.retained) = publish ∧
      headerDup (mqttHeader publish m.dup m.qos m.retained) = m.dup ∧
      headerQos (mqttHeader publish m.dup m.qos m.retained) = m.qos ∧
      headerRetain (mqttHeader publish m.dup m.qos m.retained) = m.retained := by
  have hdup := hm.dup
  have hqos := hm.qos
  have hretained := hm.retained
  unfold headerType headerDup headerQos headerRetain
  rw [header_toNat (by decide) hdup hqos hretained, publish]
  omega

/-- What is written stays inside the buffer, as the length that is checked is not too small. -/
theorem serializePublish_length_le (hm : m.Fits) (hlen : mqttSerializePublishLength m < 2 ^ 28)
    (h : mqttSerializePublish buflen m = some bytes) : bytes.length ≤ buflen := by
  have hchecked : mqttPacketLen (mqttSerializePublishLength m) ≤ buflen := by
    unfold mqttSerializePublish at h
    dsimp only at h
    split at h
    · cases h
    · next hroom => exact Nat.not_lt.mp hroom
  have hafter : (afterTopic m).length = (if 0 < m.qos then 2 else 0) + m.payload.length := by
    rw [afterTopic, List.length_append]
    split <;> rfl
  have htopic : (writeMqttString m.topicName).length = 2 + mqttStrlen m.topicName := by
    rw [writeMqttString_eq hm.topicName, List.length_append, topicBytes_length]
    rfl
  have hsum : mqttSerializePublishLength m =
      2 + mqttStrlen m.topicName + m.payload.length + if 0 < m.qos then 2 else 0 := rfl
  have hle := length_le_mqttPacketLen hlen
  rw [serialize_eq h, List.length_cons, List.length_append, List.length_append, htopic, hafter]
  omega

/-- A packet whose parts fit is read as it was written. -/
theorem deserialize_serialize (hm : m.Fits) (h : mqttSerializePublish buflen m = some bytes)
    (htopic : mqttStrlen m.topicName < 2 ^ 16) (hlen : mqttSerializePublishLength m < 2 ^ 28) (rest : Bytes) :
    ∃ r, mqttDeserializePublish (bytes ++ rest) = some (.ok r) ∧ r.Carries m := by
  obtain ⟨htype, hdup, hqos, hretained⟩ := hm.header
  have hread : readMqttLenString (mqttSerializePublishLength m)
      (writeMqttString m.topicName ++ (afterTopic m ++ rest)) =
      some (⟨none, topicBytes m.topicName⟩, m.payload.length + if 0 < m.qos then 2 else 0, afterTopic m ++ rest) := by
    have hsum : mqttSerializePublishLength m =
        2 + mqttStrlen m.topicName + (m.payload.length + if 0 < m.qos then 2 else 0) := by
      rw [mqttSerializePublishLength, Nat.add_assoc (2 + _)]
    rw [hsum]
    exact readMqttLenString_write hm.topicName htopic _ _
  rw [serialize_eq h, List.cons_append, List.append_assoc, List.append_assoc, mqttDeserializePublish,
    if_neg (not_not_intro htype), decode_encode hlen]
  dsimp only
  rw [List.drop_left, hread]
  dsimp only
  rw [hqos, hdup, hretained]
  by_cases hpos : 0 < m.qos
  · rw [if_pos hpos, if_pos hpos, afterTopic, if_pos hpos, List.append_assoc, readInt_writeInt hm.packetid]
    refine ⟨_, rfl, rfl, rfl, rfl, fun _ => rfl, rfl, ?_, List.take_left⟩
    dsimp only
    omega
  · rw [if_neg hpos, if_neg hpos, afterTopic, if_neg hpos]
    exact ⟨_, rfl, rfl, rfl, rfl, fun h => absurd h hpos, rfl, rfl, List.take_left⟩

theorem readMqttLenString_some {left left' : ℕ} {input rest : Bytes} {s : MqttString}
    (h : readMqttLenString left input = some (s, left', rest)) :
    s.lenstring.length < 2 ^ 16 ∧ 2 + s.lenstring.length + left' ≤ left := by
  unfold readMqttLenString at h
  split at h
  next hleft =>
    obtain ⟨⟨len, tail⟩, hint, h⟩ := Option.bind_eq_some_iff.mp h
    dsimp only at h
    split at h
    next hle =>
      cases h
      have hlen := readInt_lt hint
      have htake : (tail.take len).length ≤ len := List.length_take_le len tail
      dsimp only
      omega
    · cases h
  · cases h

/-- What is read never has more than the remaining length says, nor a topic of more than 16 bits of length. -/
theorem deserialize_bounds {input : Bytes} {header : UInt8} {r : Received}
    (h : mqttDeserializePublish (header :: input) = some (.ok r)) :
    r.topicName.lenstring.length < 2 ^ 16 ∧
      2 + r.topicName.lenstring.length + r.payloadlen + (if 0 < r.qos then 2 else 0) ≤ (mqttPacketDecode input).2.1 := by
  rw [mqttDeserializePublish] at h
  dsimp only at h
  split at h
  · cases h
  · cases hread : readMqttLenString (mqttPacketDecode input).2.1 (input.drop (mqttPacketDecode input).1) with
    | none =>
      rw [hread] at h
      cases h
    | some read =>
      obtain ⟨topicName, left, rest⟩ := read
      obtain ⟨htopic, hle⟩ := readMqttLenString_some hread
      rw [hread] at h
      dsimp only at h
      by_cases hpos : 0 < headerQos header
      · rw [if_pos hpos] at h
        obtain ⟨⟨packetid, tail⟩, -, h⟩ := Option.map_eq_some_iff.mp h
        cases h
        refine ⟨htopic, ?_⟩
        dsimp only
        rw [if_pos hpos]
        omega
      · rw [if_neg hpos] at h
        cases h
        refine ⟨htopic, ?_⟩
        dsimp only
        rw [if_neg hpos]
        omega

/-- A PUBLISH packet that was serialised is read back as the same message, whatever stands behind it in the buffer,
exactly when the length of its topic fits into 16 bits and the remaining length into four bytes of 7 bits. The
serialiser checks neither. -/
theorem publish_roundTrip_iff (m : Message) (hm : m.Fits) (buflen : ℕ) (bytes rest : Bytes)
    (h : mqttSerializePublish buflen m = some bytes) :
    (∃ r, mqttDeserializePublish (bytes ++ rest) = some (.ok r) ∧ r.Carries m) ↔
      mqttStrlen m.topicName < 2 ^ 16 ∧ mqttSerializePublishLength m < 2 ^ 28 := by
  constructor
  · rintro ⟨r, hr, hcarries⟩
    rw [serialize_eq h, List.cons_append, List.append_assoc] at hr
    obtain ⟨htopic, hle⟩ := deserialize_bounds hr
    rw [hcarries.topicName, topicBytes_length, hcarries.payloadlen, hcarries.qos] at hle
    rw [hcarries.topicName, topicBytes_length] at htopic
    refine ⟨htopic, Nat.lt_of_not_le fun hlong => ?_⟩
    rw [decode_encode_long hlong] at hle
    have hmod := Nat.mod_lt (mqttSerializePublishLength m) (Nat.two_pow_pos 28)
    have hsum : mqttSerializePublishLength m =
      2 + mqttStrlen m.topicName + m.payload.length + if 0 < m.qos then 2 else 0 := rfl
    dsimp only at hle
    by_cases hpos : 0 < m.qos
    · rw [if_pos hpos] at hle hsum
      omega
    · rw [if_neg hpos] at hle hsum
      omega
  · rintro ⟨htopic, hlen⟩
    exact deserialize_serialize hm h htopic hlen rest

end

def shortMessage : Message :=
  { dup := 0, qos := 1, retained := 0, packetid := 7, topicName := ⟨some [97], []⟩, payload := [1, 2] }

def shortPacket : Bytes :=
  mqttHeader publish 0 1 0 :: (mqttPacketEncode 7 ++ [0, 1, 97, 0, 7, 1, 2])

theorem shortMessage_fits : shortMessage.Fits :=
  ⟨by decide, by decide, by decide, by decide, Or.inr rfl⟩

theorem publish_roundTrip_short :
    ∃ r, mqttDeserializePublish (shortPacket ++ [255]) = some (.ok r) ∧ r.Carries shortMessage :=
  (publish_roundTrip_iff shortMessage shortMessage_fits 64 shortPacket [255] rfl).mpr ⟨by decide, by decide⟩

end NbiotXY1100.MqttPacket
