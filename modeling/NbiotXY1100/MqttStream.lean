import NbiotXY1100.MqttPacket

/-! # The MQTT byte stream

Packets are cut out of the TCP stream by `mqttReadPacket`, one byte of the header after the other. -/
namespace NbiotXY1100.MqttStream
open MqttPacket

/-! ### Acknowledgements -/

/-- `MQTTSerialize_ack`; `none` is `MQTTPACKET_BUFFER_TOO_SHORT`. -/
def mqttSerializeAck (buflen packettype dup packetid : ℕ) : Option Bytes :=
  if buflen < 4 then none
  else some (mqttHeader packettype dup (if packettype = pubrel then 1 else 0) 0 ::
    (mqttPacketEncode 2 ++ writeInt packetid))

/-- `MQTTDeserialize_ack`: packet type, DUP flag and packet id. An error holds the code that is returned. -/
def mqttDeserializeAck : Bytes → Option (Except ℕ (ℕ × ℕ × ℕ))
  | [] => none
  | header :: rest =>
    let (len, mylen, _) := mqttPacketDecode rest
    if mylen < 2 then some (.error len)
    else (readInt (rest.drop len)).map fun (packetid, _) => .ok (headerType header, headerDup header, packetid)

/-! ### Reading -/

/-- What the socket gives: bytes, and calls that time out, fail or find it closed. -/
inductive SocketEvent where
  | byte (b : UInt8)
  | again
  | error
  | closed
  deriving DecidableEq

/-- `xy_mqtt_read` with the bytes that it has so far: the value that it returns, these bytes and what is left. -/
def xyMqttRead : Bytes → ℕ → List SocketEvent → ℤ × Bytes × List SocketEvent
  | got, 0, events => (got.length, got, events)
  | got, _ + 1, [] => (got.length, got, [])
  | got, n + 1, .byte b :: events => xyMqttRead (got ++ [b]) n events
  | got, _ + 1, .again :: events => (got.length, got, events)
  | got, _ + 1, .error :: events => (-1, got, events)
  | got, _ + 1, .closed :: events => (0, got, events)

/-- The loop of `mqttDecodePacket`, which has the value so far when a read fails. -/
def mqttDecodePacket : ℕ → ℕ → ℕ → List SocketEvent → ℕ × List SocketEvent
  | 0, _, value, events => (value, events)
  | left + 1, multiplier, value, events =>
    let (rc, got, events) := xyMqttRead [] 1 events
    if rc ≠ 1 then (value, events)
    else
      let c := (got.headD 0).toNat
      let value := value + c % 128 * multiplier
      if 128 ≤ c then mqttDecodePacket left (multiplier * 128) value events else (value, events)

def bufferOverflow : ℤ := -2

/-- `mqttReadPacket`: the packet type or an error, the read buffer and what is left of the stream. The buffer has
room for a header at least. -/
def mqttReadPacket (readbufSize : ℕ) (events : List SocketEvent) : ℤ × Bytes × List SocketEvent :=
  let (rc, got, events) := xyMqttRead [] 1 events
  if rc ≠ 1 then (rc, got, events)
  else
    let header := got.headD 0
    let (remLen, events) := mqttDecodePacket maxNoOfRemainingLengthBytes 1 0 events
    let start := header :: mqttPacketEncode remLen
    if readbufSize < start.length + remLen then (bufferOverflow, start, events)
    else if 0 < remLen then
      let (rc, body, events) := xyMqttRead [] remLen events
      if rc ≠ remLen then (0, start ++ body, events) else (headerType header, start ++ body, events)
    else (headerType header, start, events)

/-- The results of as many calls. -/
def readPackets (readbufSize : ℕ) : ℕ → List SocketEvent → List (ℤ × Bytes) × List SocketEvent
  | 0, events => ([], events)
  | n + 1, events =>
    let (rc, buf, events) := mqttReadPacket readbufSize events
    let (later, events) := readPackets readbufSize n events
    ((rc, buf) :: later, events)

/-! ### What the server sends -/

theorem xyMqttRead_bytes (got bytes : Bytes) (events : List SocketEvent) :
    xyMqttRead got bytes.length (bytes.map .byte ++ events) =
      (((got ++ bytes).length : ℤ), got ++ bytes, events) := by
  induction bytes generalizing got with
  | nil =>
    rw [List.append_nil]
    rfl
  | cons b bytes ih =>
    rw [List.length_cons, List.map_cons, List.cons_append, xyMqttRead, ih, List.append_assoc]
    rfl

theorem xyMqttRead_byte (b : UInt8) (events : List SocketEvent) :
    xyMqttRead [] 1 (.byte b :: events) = (1, [b], events) :=
  rfl

/-- From the socket an encoded length is read as it is from a buffer. -/
theorem mqttDecodePacket_encode (left multiplier value n : ℕ) (events : List SocketEvent) (hn : n < 128 ^ left)
    (hleft : 0 < left) :
    mqttDecodePacket left multiplier value ((mqttPacketEncode n).map .byte ++ events) =
      (value + n * multiplier, events) := by
  induction left generalizing multiplier value n with
  | zero => exact absurd hleft (Nat.lt_irrefl 0)
  | succ left ih =>
    by_cases hshort : n < 128
    · have hbyte : ([UInt8.ofNat n].headD 0).toNat = n := toNat_ofNat (by omega)
      rw [encode_of_lt hshort, List.map_singleton, List.singleton_append, mqttDecodePacket, xyMqttRead_byte]
      dsimp only
      rw [if_neg (fun h => h rfl), hbyte, if_neg (Nat.not_le_of_lt hshort), Nat.mod_eq_of_lt hshort]
    · have hlong := Nat.not_lt.mp hshort
      have hbyte : ([UInt8.ofNat (n % 128 + 128)].headD 0).toNat = n % 128 + 128 := toNat_ofNat (by omega)
      have hdigit : (n % 128 + 128) % 128 = n % 128 := by omega
      have hdiv : n / 128 < 128 ^ left := (Nat.div_lt_iff_lt_mul (by decide)).mpr hn
      have hleft' : 0 < left := by
        rcases Nat.eq_zero_or_pos left with hzero | hpos
        · rw [hzero] at hdiv
          omega
        · exact hpos
      rw [encode_of_le hlong, List.map_cons, List.cons_append, mqttDecodePacket, xyMqttRead_byte]
      dsimp only
      rw [if_neg (fun h => h rfl), hbyte, if_pos (Nat.le_add_left _ _), hdigit, ih _ _ _ hdiv hleft']
      refine Prod.ext ?_ rfl
      dsimp only
      have hsplit := Nat.div_add_mod n 128
      calc value + n % 128 * multiplier + n / 128 * (multiplier * 128)
          = value + (128 * (n / 128) + n % 128) * multiplier := by ring
        _ = value + n * multiplier := by rw [hsplit]

/-- The bytes of a packet. -/
def packet (header : UInt8) (body : Bytes) : Bytes :=
  header :: (mqttPacketEncode body.length ++ body)

/-- A packet that has come as a whole is read as a whole. -/
theorem mqttReadPacket_packet {readbufSize : ℕ} {header : UInt8} {body : Bytes} (hlen : body.length < 2 ^ 28)
    (hsize : (packet header body).length ≤ readbufSize) (events : List SocketEvent) :
    mqttReadPacket readbufSize ((packet header body).map .byte ++ events) =
      ((headerType header : ℤ), packet header body, events) := by
  have hfits : ¬readbufSize < (header :: mqttPacketEncode body.length).length + body.length := by
    refine Nat.not_lt_of_le ?_
    rw [← List.length_append]
    exact hsize
  have hdecode := mqttDecodePacket_encode maxNoOfRemainingLengthBytes 1 0 body.length
    (body.map .byte ++ events) (by rw [maxNoOfRemainingLengthBytes]; omega) (by decide)
  rw [packet, List.map_cons, List.map_append, List.cons_append, List.append_assoc, mqttReadPacket, xyMqttRead_byte]
  dsimp only [List.headD_cons]
  rw [if_neg (fun h => h rfl), hdecode, Nat.zero_add, Nat.mul_one]
  dsimp only
  rw [if_neg hfits]
  by_cases hpos : 0 < body.length
  · rw [if_pos hpos, xyMqttRead_bytes]
    dsimp only
    rw [List.nil_append, if_neg (fun h => h rfl)]
    rfl
  · have hnil : body = [] := List.length_eq_zero_iff.mp (Nat.eq_zero_of_not_pos hpos)
    subst hnil
    rw [if_neg hpos, List.append_nil]
    rfl

/-- What comes from the server between two looks at the socket: nothing, or a packet that its side has serialised
into a buffer of some length. -/
inductive Sent where
  | nothing
  | publish (m : Message) (bytes : Bytes)
  | ack (packettype dup packetid : ℕ) (bytes : Bytes)

def Sent.events : Sent → List SocketEvent
  | .nothing => [.again]
  | .publish _ bytes | .ack _ _ _ bytes => bytes.map .byte

/-- The packet was serialised, its parts fit into their fields, and it fits into the read buffer. -/
inductive Sent.Valid (readbufSize : ℕ) : Sent → Prop where
  | nothing : Valid readbufSize .nothing
  | publish {m : Message} {bytes : Bytes} (buflen : ℕ) (hbytes : mqttSerializePublish buflen m = some bytes)
      (hfits : m.Fits) (htopic : mqttStrlen m.topicName < 2 ^ 16) (hlen : mqttSerializePublishLength m < 2 ^ 28)
      (hsize : bytes.length ≤ readbufSize) : Valid readbufSize (.publish m bytes)
  | ack {packettype dup packetid : ℕ} {bytes : Bytes} (buflen : ℕ)
      (hbytes : mqttSerializeAck buflen packettype dup packetid = some bytes) (htype : packettype < 16) (hdup : dup < 2)
      (hpacketid : packetid < 2 ^ 16) (hsize : bytes.length ≤ readbufSize) :
      Valid readbufSize (.ack packettype dup packetid bytes)

/-- The client reads what was sent: the packet type, and a buffer that gives back the message. -/
inductive Reads : Sent → ℤ × Bytes → Prop where
  | nothing : Reads .nothing (0, [])
  | publish {m : Message} {bytes : Bytes} (r : Received) (hread : mqttDeserializePublish bytes = some (.ok r))
      (hcarries : r.Carries m) : Reads (.publish m bytes) (MqttPacket.publish, bytes)
  | ack {packettype dup packetid : ℕ} {bytes : Bytes}
      (hread : mqttDeserializeAck bytes = some (.ok (packettype, dup, packetid))) :
      Reads (.ack packettype dup packetid bytes) (packettype, bytes)

theorem afterTopic_length (m : Message) (hm : m.Fits) :
    (writeMqttString m.topicName ++ afterTopic m).length = mqttSerializePublishLength m := by
  rw [writeMqttString_eq hm.topicName, mqttSerializePublishLength, ← topicBytes_length]
  simp only [List.length_append, afterTopic, writeInt, List.length_cons, List.length_nil]
  split
  · simp only [List.length_cons, List.length_nil]
    omega
  · simp only [List.length_nil]
    omega

theorem deserializeAck_serialize {buflen packettype dup packetid : ℕ} {bytes : Bytes} (htype : packettype < 16)
    (hdup : dup < 2) (hpacketid : packetid < 2 ^ 16)
    (h : mqttSerializeAck buflen packettype dup packetid = some bytes) :
    ∃ header, bytes = packet header (writeInt packetid) ∧ headerType header = packettype ∧
      mqttDeserializeAck bytes = some (.ok (packettype, dup, packetid)) := by
  unfold mqttSerializeAck at h
  split at h
  · cases h
  · have hbits : ∀ qos, qos < 4 → headerType (mqttHeader packettype dup qos 0) = packettype ∧
        headerDup (mqttHeader packettype dup qos 0) = dup := by
      intro qos hqos
      unfold headerType headerDup
      rw [header_toNat htype hdup hqos (by decide)]
      omega
    have hqos : (if packettype = pubrel then 1 else 0) < 4 := by
      split
      · decide
      · decide
    obtain ⟨htype', hdup'⟩ := hbits _ hqos
    cases h
    refine ⟨_, rfl, htype', ?_⟩
    have hread : readInt (writeInt packetid) = some (packetid, []) := by
      have h := readInt_writeInt hpacketid []
      rwa [List.append_nil] at h
    rw [mqttDeserializeAck, decode_encode (by decide)]
    dsimp only
    rw [if_neg (Nat.lt_irrefl 2), List.drop_left, hread, htype', hdup']
    rfl

/-- One call of the client. -/
theorem mqttReadPacket_sent {readbufSize : ℕ} {s : Sent} (hs : s.Valid readbufSize) (events : List SocketEvent) :
    ∃ result, mqttReadPacket readbufSize (s.events ++ events) = (result.1, result.2, events) ∧ Reads s result := by
  cases hs with
  | nothing => exact ⟨(0, []), rfl, .nothing⟩
  | @publish m bytes buflen hbytes hfits htopic hlen hsize =>
    obtain ⟨r, hread, hcarries⟩ := deserialize_serialize hfits hbytes htopic hlen []
    rw [List.append_nil] at hread
    have hpacket : bytes = packet (mqttHeader publish m.dup m.qos m.retained)
        (writeMqttString m.topicName ++ afterTopic m) := by
      rw [packet, afterTopic_length m hfits]
      exact serialize_eq hbytes
    have hsize' := hsize
    rw [hpacket] at hsize'
    refine ⟨(publish, bytes), ?_, .publish r hread hcarries⟩
    rw [Sent.events, hpacket, mqttReadPacket_packet (by rw [afterTopic_length m hfits]; exact hlen) hsize',
      hfits.header.1]
  | @ack packettype dup packetid bytes buflen hbytes htype hdup hpacketid hsize =>
    obtain ⟨header, hpacket, htype', hread⟩ := deserializeAck_serialize htype hdup hpacketid hbytes
    have hsize' := hsize
    rw [hpacket] at hsize'
    refine ⟨(packettype, bytes), ?_, .ack hread⟩
    have hlen : (writeInt packetid).length < 2 ^ 28 := Nat.lt_of_le_of_lt (Nat.le_refl 2) (by decide)
    rw [Sent.events, hpacket, mqttReadPacket_packet hlen hsize', htype']

/-- Whatever packets the server sends that fit into the read buffer, and however often the client looks in vain between
two of them, the client reads these packets in their order, each with the message that was put into it. -/
theorem readPackets_sent (readbufSize : ℕ) (sent : List Sent) (hsent : ∀ s ∈ sent, s.Valid readbufSize)
    (events : List SocketEvent) :
    ∃ results, readPackets readbufSize sent.length (sent.flatMap Sent.events ++ events) = (results, events) ∧
      List.Forall₂ Reads sent results := by
  induction sent with
  | nil => exact ⟨[], rfl, .nil⟩
  | cons s sent ih =>
    obtain ⟨results, hresults, hall⟩ := ih fun s' hs' => hsent s' (List.mem_cons_of_mem s hs')
    obtain ⟨result, hresult, hreads⟩ :=
      mqttReadPacket_sent (hsent s List.mem_cons_self) (sent.flatMap Sent.events ++ events)
    refine ⟨result :: results, ?_, .cons hreads hall⟩
    rw [List.flatMap_cons, List.append_assoc, List.length_cons, readPackets, hresult]
    dsimp only
    rw [hresults]

/-- A PUBLISH packet of QoS 1 with the topic "a", between two looks in vain. -/
def shortSent : List Sent :=
  [.nothing, .publish shortMessage shortPacket, .nothing]

theorem readPackets_short : ∃ results,
    readPackets 64 shortSent.length (shortSent.flatMap Sent.events ++ []) = (results, []) ∧
      List.Forall₂ Reads shortSent results := by
  refine readPackets_sent 64 shortSent ?_ []
  rw [shortSent, List.forall_mem_cons, List.forall_mem_cons]
  refine ⟨.nothing, ?_, ?_⟩
  · refine .publish 64 rfl shortMessage_fits (by decide) (by decide) ?_
    rw [shortPacket, encode_of_lt (by decide)]
    decide
  · intro s hs
    cases List.mem_singleton.mp hs
    exact .nothing

end NbiotXY1100.MqttStream
