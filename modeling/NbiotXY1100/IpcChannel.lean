import NbiotXY1100.IpcRingBuffer
import NbiotXY1100.StepRuns

/-! # The channel between the two cores

One core calls `IpcMsg_Write` and the other `IpcMsg_Read`, each one call after the other.
The steps of the two interleave freely: every byte is stored and loaded in a step of its
own, and each core works on the copy of the positions that it took in the step before. -/
namespace NbiotXY1100.IpcChannel
open IpcRingBuffer CyclicBuffer StepRuns

/-- What a call of `IpcMsg_Read` returns. -/
structure Delivery where
  flag : ℕ
  resultLen : ℕ
  buf : List UInt8
  deriving DecidableEq

def delivery (m : IpcMsg) : Delivery := ⟨m.flag, m.len, m.payload⟩

/-- A call of `IpcMsg_Write`: the stores still to be made, and the copied positions. -/
inductive Producer where
  | idle
  | copying (m : IpcMsg) (todo : List (ℕ × UInt8)) (ring : RingBuf)

/-- A call of `IpcMsg_Read` with a buffer of `len` bytes. -/
inductive Consumer where
  | idle
  | waiting (len : ℕ)
  | ready (len : ℕ)
  | head (len : ℕ) (todo : List ℕ) (got : List UInt8) (ring : RingBuf)
  | body (dataFlag dataLen : ℕ) (todo : List ℕ) (got : List UInt8) (ring : RingBuf)

structure Channel where
  ring : RingBuf
  mem : ℕ → UInt8
  producer : Producer
  consumer : Consumer
  sent : List IpcMsg
  received : List Delivery

inductive Action where
  | write (m : IpcMsg)
  | store
  | publish
  | read (len : ℕ)
  | wake
  | snapshot
  | load
  | decode
  | finish

/-- One step of one core; it is refused where that core is at another point of its call,
or where an assertion fails. -/
def channelStep : Action → Channel → Option Channel
  | .write m, s =>
    match s.producer with
    | .idle =>
      match ipcMsgWrite s.ring m with
      | some (todo, ring) => some { s with producer := .copying m todo ring }
      | none => some s
    | _ => none
  | .store, s =>
    match s.producer with
    | .copying m ((address, byte) :: todo) ring =>
      some { s with mem := Function.update s.mem address byte, producer := .copying m todo ring }
    | _ => none
  | .publish, s =>
    match s.producer with
    | .copying m [] ring =>
      some { s with
        ring := { s.ring with writePos := ring.writePos }, producer := .idle, sent := s.sent ++ [m] }
    | _ => none
  | .read len, s =>
    match s.consumer with
    | .idle => some { s with consumer := if isRingbufEmpty s.ring then .waiting len else .ready len }
    | _ => none
  | .wake, s =>
    match s.consumer with
    | .waiting len => some { s with consumer := if isRingbufEmpty s.ring then .idle else .ready len }
    | _ => none
  | .snapshot, s =>
    match s.consumer with
    | .ready len => some { s with consumer := .head len (ipcMsgReadHead s.ring).1 [] (ipcMsgReadHead s.ring).2 }
    | _ => none
  | .load, s =>
    match s.consumer with
    | .head len (address :: todo) got ring =>
      some { s with consumer := .head len todo (got ++ [s.mem address]) ring }
    | .body dataFlag dataLen (address :: todo) got ring =>
      some { s with consumer := .body dataFlag dataLen todo (got ++ [s.mem address]) ring }
    | _ => none
  | .decode, s =>
    match s.consumer with
    | .head len [] got ring =>
      let (dataLen, dataFlag) := decodeHead got
      if len < dataLen then none
      else
        let (todo, ring) := ipcMsgReadBody ring dataLen
        some { s with consumer := .body dataFlag dataLen todo [] ring }
    | _ => none
  | .finish, s =>
    match s.consumer with
    | .body dataFlag dataLen [] got ring =>
      some { s with
        ring := { s.ring with readPos := ring.readPos }, consumer := .idle,
        received := s.received ++ [⟨dataFlag, dataLen, got⟩] }
    | _ => none

/-- The channel after `IpcMsg_Buf_init`. -/
def channelInit (size : ℕ) (mem : ℕ → UInt8) : Channel := ⟨⟨size, 0, 0⟩, mem, .idle, .idle, [], []⟩

/-- All bytes of the slots of the messages, one after the other. -/
def streamAt : List IpcMsg → ℕ → UInt8
  | [], _ => 0
  | m :: ms, i => if i < m.slotSize then m.slot i else streamAt ms (i - m.slotSize)

def total (ms : List IpcMsg) : ℕ := (ms.map IpcMsg.slotSize).sum

@[simp] theorem total_nil : total [] = 0 := rfl

@[simp] theorem total_cons (m : IpcMsg) (ms : List IpcMsg) : total (m :: ms) = m.slotSize + total ms := rfl

@[simp] theorem total_append (ms ms' : List IpcMsg) : total (ms ++ ms') = total ms + total ms' := by
  simp [total]

theorem dvd_total (ms : List IpcMsg) : 32 ∣ total ms := by
  induction ms with
  | nil => exact dvd_zero 32
  | cons m ms ih => exact Nat.dvd_add (Nat.dvd_mul_left 32 _) ih

theorem slotSize_bounds (m : IpcMsg) : m.len + 4 ≤ m.slotSize ∧ 32 ≤ m.slotSize := by
  have := m.len_pos
  simp only [IpcMsg.slotSize]
  omega

theorem total_eq_zero_iff (ms : List IpcMsg) : total ms = 0 ↔ ms = [] := by
  cases ms with
  | nil => simp
  | cons m ms =>
    have := (slotSize_bounds m).2
    simp only [total_cons, reduceCtorEq, iff_false]
    omega

theorem streamAt_append_of_lt {ms ms' : List IpcMsg} {i : ℕ} (h : i < total ms) :
    streamAt (ms ++ ms') i = streamAt ms i := by
  induction ms generalizing i with
  | nil => simp at h
  | cons m ms ih =>
    simp only [List.cons_append, streamAt]
    split_ifs with hi
    · rfl
    · exact ih (by rw [total_cons] at h; omega)

theorem streamAt_append_total (ms ms' : List IpcMsg) (i : ℕ) :
    streamAt (ms ++ ms') (total ms + i) = streamAt ms' i := by
  induction ms with
  | nil => simp
  | cons m ms ih =>
    rw [List.cons_append, streamAt, if_neg (by rw [total_cons]; omega), total_cons, Nat.add_assoc,
      Nat.add_sub_cancel_left, ih]

theorem streamAt_cons {m : IpcMsg} {i : ℕ} (h : i < m.slotSize) (ms : List IpcMsg) :
    streamAt (m :: ms) i = m.slot i :=
  if_pos h

/-- What the producer still has to do, with the stream stored up to the next byte. -/
def ProducerInv (size : ℕ) (done rest : List IpcMsg) (mem : ℕ → UInt8) : Producer → Prop
  | .idle => Holds size mem (streamAt (done ++ rest)) (total done) (total done + total rest)
  | .copying m todo ring =>
    total rest + m.slotSize < size ∧
      ring.writePos = (total done + total rest + m.slotSize) % size ∧
      ∃ k ≤ m.slotSize, todo = (storesAt size (total done + total rest) m.slotSize m.slot).drop k ∧
        Holds size mem (streamAt (done ++ rest ++ [m])) (total done) (total done + total rest + k)

/-- The copied positions of a reader that has loaded the header of `m`, or is about to. -/
def HeadRing (size : ℕ) (done : List IpcMsg) (m : IpcMsg) (ring : RingBuf) : Prop :=
  ∃ copied : RingBuf, Readable copied m.slotSize ∧ copied.size = size ∧
    copied.readPos = total done % size ∧ ring = { copied with readPos := copied.readPos + 4 }

def ConsumerInv (size : ℕ) (done rest : List IpcMsg) : Consumer → Prop
  | .idle => True
  | .waiting _ => True
  | .ready _ => rest ≠ []
  | .head _ todo got ring => ∃ m rest', rest = m :: rest' ∧ HeadRing size done m ring ∧
      ∃ k ≤ 4, todo = (loadsAt size (total done) 4).drop k ∧ got = (List.range k).map m.head
  | .body dataFlag dataLen todo got ring => ∃ m rest', rest = m :: rest' ∧ dataFlag = m.flag ∧ dataLen = m.len ∧
      ring.readPos = (total done + m.slotSize) % size ∧
      ∃ k ≤ m.len, todo = (loadsAt size (total done + 4) m.len).drop k ∧ got = (List.range k).map m.buf

/-- The messages before `rest` were read, those in `rest` are in the ring. -/
structure Carries (size : ℕ) (done rest : List IpcMsg) (s : Channel) : Prop where
  size_eq : s.ring.size = size
  sent_eq : s.sent = done ++ rest
  received_eq : s.received = done.map delivery
  readPos_eq : s.ring.readPos = total done % size
  writePos_eq : s.ring.writePos = (total done + total rest) % size
  room : total rest < size
  producer : ProducerInv size done rest s.mem s.producer
  consumer : ConsumerInv size done rest s.consumer

private theorem cons_eq_drop {α : Type*} {l : List α} {k : ℕ} {a : α} {t : List α} (h : a :: t = l.drop k) :
    ∃ hk : k < l.length, l[k] = a ∧ t = l.drop (k + 1) := by
  have hk : k < l.length := by
    by_contra hge
    simp [List.drop_of_length_le (not_lt.mp hge)] at h
  rw [List.drop_eq_getElem_cons hk, List.cons.injEq] at h
  exact ⟨hk, h.1.symm, h.2⟩

/-- A message more behind the unread ones does not disturb a reader. -/
theorem ConsumerInv.append {size : ℕ} {done rest : List IpcMsg} {c : Consumer} (h : ConsumerInv size done rest c)
    (m : IpcMsg) : ConsumerInv size done (rest ++ [m]) c := by
  cases c with
  | idle => trivial
  | waiting len => trivial
  | ready len => exact List.append_ne_nil_of_left_ne_nil h _
  | head len todo got ring =>
    obtain ⟨first, rest', rfl, hhead⟩ := h
    exact ⟨first, rest' ++ [m], rfl, hhead⟩
  | body dataFlag dataLen todo got ring =>
    obtain ⟨first, rest', rfl, hbody⟩ := h
    exact ⟨first, rest' ++ [m], rfl, hbody⟩

/-- The producer does not depend on the oldest message being in the ring. -/
theorem ProducerInv.pop {size : ℕ} {done rest : List IpcMsg} {m : IpcMsg} {mem : ℕ → UInt8} {p : Producer}
    (h : ProducerInv size done (m :: rest) mem p) : ProducerInv size (done ++ [m]) rest mem p := by
  have htotal : total (done ++ [m]) + total rest = total done + total (m :: rest) := by
    simp [Nat.add_assoc]
  have hlists : done ++ [m] ++ rest = done ++ m :: rest := by simp
  have hle : total done ≤ total (done ++ [m]) := by simp
  cases p with
  | idle =>
    simp only [ProducerInv] at h ⊢
    rw [htotal, hlists]
    exact h.mono hle le_rfl
  | copying next todo ring =>
    obtain ⟨hroom, hpos, k, hk, htodo, hholds⟩ := h
    have hless : total rest ≤ total (m :: rest) := by simp
    refine ⟨by omega, by rw [htotal, hpos], k, hk, by rw [htotal, htodo], ?_⟩
    rw [htotal, hlists]
    exact hholds.mono hle le_rfl

section
variable {size : ℕ} (hsize : size < 2 ^ 32) (hdvd : 32 ∣ size)
variable {done rest : List IpcMsg} {s s' : Channel}

theorem Carries.holds (h : Carries size done rest s) :
    Holds size s.mem (streamAt (done ++ rest)) (total done) (total done + total rest) := by
  have hp := h.producer
  cases hprod : s.producer with
  | idle => rwa [hprod] at hp
  | copying m todo ring =>
    rw [hprod] at hp
    obtain ⟨-, -, k, -, -, hholds⟩ := hp
    refine (hholds.mono le_rfl (by omega)).congr fun i _ hi => streamAt_append_of_lt ?_
    rwa [total_append]

include hsize hdvd in
theorem Carries.aligned (h : Carries size done rest s) : Aligned s.ring := by
  have hpos : 0 < size := (Nat.zero_le _).trans_lt h.room
  have hr := Nat.mod_lt (total done) hpos
  have hw := Nat.mod_lt (total done + total rest) hpos
  have hr32 := (Nat.dvd_mod_iff hdvd).mpr (dvd_total done)
  have hw32 := (Nat.dvd_mod_iff hdvd).mpr (Nat.dvd_add (dvd_total done) (dvd_total rest))
  rw [← h.readPos_eq] at hr hr32
  rw [← h.writePos_eq] at hw hw32
  refine ⟨?_, ?_, ?_, hw32, ?_, hr32⟩ <;> rw [h.size_eq] <;> assumption

/-- The positions coincide exactly when every message was read. -/
theorem Carries.isRingbufEmpty_iff (h : Carries size done rest s) : isRingbufEmpty s.ring = true ↔ rest = [] := by
  have hroom := h.room
  rw [isRingbufEmpty, decide_eq_true_iff, h.readPos_eq, h.writePos_eq,
    mod_eq_mod_iff_of_lt (by omega) (by omega), ← total_eq_zero_iff]
  omega

theorem Carries.freeSpace_eq (h : Carries size done rest s) : freeSpace s.ring = size - total rest := by
  have hroom : CyclicBuffer.room size (total done) (total done + total rest) = _ :=
    room_eq (by omega) (by have := h.room; omega)
  rw [Nat.add_sub_cancel_left] at hroom
  rw [freeSpace, h.readPos_eq, h.writePos_eq, h.size_eq]
  exact hroom

/-- The bytes of the oldest unread message are in their cells. -/
theorem Carries.mem_eq {m : IpcMsg} (h : Carries size done (m :: rest) s) {k : ℕ} (hk : k < m.slotSize) :
    s.mem ((total done + k) % size) = m.slot k := by
  rw [h.holds (total done + k) (by omega) (by rw [total_cons]; omega), streamAt_append_total, streamAt_cons hk]

include hsize hdvd in
theorem Carries.write (h : Carries size done rest s) {m : IpcMsg} (hstep : channelStep (.write m) s = some s') :
    Carries size done rest s' := by
  simp only [channelStep] at hstep
  split at hstep
  · next hidle =>
    rw [ipcMsgWrite_eq (h.aligned hsize hdvd)] at hstep
    split at hstep
    · next todo ring hwrite =>
      split_ifs at hwrite with hfree
      cases hwrite
      cases hstep
      have hp := h.producer
      rw [hidle] at hp
      rw [h.freeSpace_eq] at hfree
      refine { h with producer := ⟨by omega, ?_, 0, Nat.zero_le _, ?_, ?_⟩ }
      · rw [h.size_eq, h.writePos_eq, Nat.mod_add_mod]
      · rw [h.size_eq, h.writePos_eq, storesAt_mod, List.drop_zero]
      · refine Holds.congr hp fun i _ hi => (streamAt_append_of_lt ?_).symm
        rwa [total_append]
    · next hnone =>
      cases hstep
      exact h
  · cases hstep

theorem Carries.store (h : Carries size done rest s) (hstep : channelStep .store s = some s') :
    Carries size done rest s' := by
  simp only [channelStep] at hstep
  split at hstep
  · next m address byte todo ring hcopying =>
    cases hstep
    have hp := h.producer
    rw [hcopying] at hp
    obtain ⟨hroom, hpos, k, -, htodo, hholds⟩ := hp
    obtain ⟨hk, hhead, htail⟩ := cons_eq_drop htodo
    have hk' : k < m.slotSize := by simpa [storesAt] using hk
    simp only [storesAt, List.getElem_map, List.getElem_range, Prod.mk.injEq] at hhead
    refine { h with producer := ⟨hroom, hpos, k + 1, hk', htail, ?_⟩ }
    have hbyte : streamAt (done ++ rest ++ [m]) (total done + total rest + k) = byte := by
      rw [← total_append, streamAt_append_total, streamAt_cons hk', hhead.2]
    rw [← hhead.1, ← hbyte]
    exact hholds.snoc (by omega)
  · cases hstep

theorem Carries.publish (h : Carries size done rest s) (hstep : channelStep .publish s = some s') :
    ∃ m, Carries size done (rest ++ [m]) s' := by
  simp only [channelStep] at hstep
  split at hstep
  · next m ring hcopying =>
    cases hstep
    have hp := h.producer
    rw [hcopying] at hp
    obtain ⟨hroom, hpos, k, hk, htodo, hholds⟩ := hp
    have hall : k = m.slotSize := by
      have := congrArg List.length htodo
      simp [storesAt] at this
      omega
    subst hall
    have htotal : total (rest ++ [m]) = total rest + m.slotSize := by simp
    refine ⟨m, h.size_eq, ?_, h.received_eq, h.readPos_eq, ?_, by rwa [htotal], ?_, h.consumer.append m⟩
    · rw [h.sent_eq, List.append_assoc]
    · rw [htotal, ← Nat.add_assoc, hpos]
    · simp only [ProducerInv]
      rw [htotal, ← Nat.add_assoc, ← List.append_assoc]
      exact hholds
  · cases hstep

theorem Carries.read {len : ℕ} (h : Carries size done rest s) (hstep : channelStep (.read len) s = some s') :
    Carries size done rest s' := by
  simp only [channelStep] at hstep
  split at hstep
  · cases hstep
    refine { h with consumer := ?_ }
    simp only
    split_ifs with hempty
    · trivial
    · exact h.isRingbufEmpty_iff.not.mp hempty
  · cases hstep

theorem Carries.wake (h : Carries size done rest s) (hstep : channelStep .wake s = some s') :
    Carries size done rest s' := by
  simp only [channelStep] at hstep
  split at hstep
  · cases hstep
    refine { h with consumer := ?_ }
    simp only
    split_ifs with hempty
    · trivial
    · exact h.isRingbufEmpty_iff.not.mp hempty
  · cases hstep

include hsize hdvd in
/-- With a message unread, the copied positions let its slot be read. -/
theorem Carries.readable {m : IpcMsg} (h : Carries size done (m :: rest) s) : Readable s.ring m.slotSize := by
  have hroom := h.room
  rw [total_cons] at hroom
  refine { h.aligned hsize hdvd with slot_le := by rw [h.size_eq]; omega, unread := ?_ }
  have hpos := Nat.mod_lt (total done) (show 0 < size by omega)
  rw [h.size_eq, h.readPos_eq, h.writePos_eq, total_cons]
  rcases Nat.lt_or_ge size (total done % size + m.slotSize) with hwrap | hwhole
  · right
    rw [add_mod_of_ge (by omega) (by omega) hpos]
    omega
  · exact .inl hwhole

include hsize hdvd in
theorem Carries.snapshot (h : Carries size done rest s) (hstep : channelStep .snapshot s = some s') :
    Carries size done rest s' := by
  simp only [channelStep] at hstep
  split at hstep
  · next len hready =>
    cases hstep
    have hc := h.consumer
    rw [hready] at hc
    obtain ⟨m, rest', rfl⟩ := List.exists_cons_of_ne_nil hc
    have hread := ipcMsgReadHead_eq (h.aligned hsize hdvd)
    refine { h with consumer := ⟨m, rest', rfl, ⟨s.ring, h.readable hsize hdvd, h.size_eq, h.readPos_eq, ?_⟩,
      0, Nat.zero_le _, ?_, rfl⟩ }
    · rw [hread]
    · rw [hread, h.size_eq, h.readPos_eq, loadsAt_mod, List.drop_zero]
  · cases hstep

theorem Carries.load (h : Carries size done rest s) (hstep : channelStep .load s = some s') :
    Carries size done rest s' := by
  have hc := h.consumer
  simp only [channelStep] at hstep
  split at hstep
  · next len address todo got ring hhead =>
    cases hstep
    rw [hhead] at hc
    obtain ⟨m, rest', rfl, hring, k, -, htodo, hgot⟩ := hc
    obtain ⟨hk, haddress, htail⟩ := cons_eq_drop htodo
    simp only [loadsAt, List.getElem_map, List.getElem_range] at haddress
    have hk' : k < 4 := by simpa [loadsAt] using hk
    have hslot := (slotSize_bounds m).2
    refine { h with consumer := ⟨m, rest', rfl, hring, k + 1, hk', htail, ?_⟩ }
    rw [hgot, ← haddress, h.mem_eq (by omega), List.range_succ, List.map_append]
    simp [IpcMsg.slot, hk']
  · next dataFlag dataLen address todo got ring hbody =>
    cases hstep
    rw [hbody] at hc
    obtain ⟨m, rest', rfl, hflag, hlen, hpos, k, -, htodo, hgot⟩ := hc
    obtain ⟨hk, haddress, htail⟩ := cons_eq_drop htodo
    simp only [loadsAt, List.getElem_map, List.getElem_range] at haddress
    have hk' : k < m.len := by simpa [loadsAt] using hk
    have hslot := (slotSize_bounds m).1
    refine { h with consumer := ⟨m, rest', rfl, hflag, hlen, hpos, k + 1, hk', htail, ?_⟩ }
    rw [hgot, ← haddress, Nat.add_assoc, h.mem_eq (by omega), List.range_succ, List.map_append]
    simp [IpcMsg.slot]
  · cases hstep

theorem Carries.decode (h : Carries size done rest s) (hstep : channelStep .decode s = some s') :
    Carries size done rest s' := by
  have hc := h.consumer
  simp only [channelStep] at hstep
  split at hstep
  · next len got ring hhead =>
    rw [hhead] at hc
    obtain ⟨m, rest', rfl, ⟨copied, hreadable, hcopied, hpos, rfl⟩, k, hk, htodo, rfl⟩ := hc
    have hall : k = 4 := by
      have := congrArg List.length htodo
      simp [loadsAt] at this
      omega
    subst hall
    rw [decodeHead_head] at hstep
    simp only at hstep
    split_ifs at hstep with hlen
    cases hstep
    rw [ipcMsgReadBody_eq hreadable]
    refine { h with consumer := ⟨m, rest', rfl, rfl, rfl, ?_, 0, Nat.zero_le _, ?_, rfl⟩ }
    · simp only
      rw [hcopied, hpos, Nat.mod_add_mod]
    · simp only
      rw [hcopied, hpos, ← loadsAt_mod, Nat.mod_add_mod, loadsAt_mod, List.drop_zero]
  · cases hstep

theorem Carries.finish (h : Carries size done rest s) (hstep : channelStep .finish s = some s') :
    ∃ m rest', rest = m :: rest' ∧ Carries size (done ++ [m]) rest' s' := by
  have hc := h.consumer
  simp only [channelStep] at hstep
  split at hstep
  · next dataFlag dataLen got ring hbody =>
    cases hstep
    rw [hbody] at hc
    obtain ⟨m, rest', rfl, rfl, rfl, hpos, k, hk, htodo, rfl⟩ := hc
    have hall : k = m.len := by
      have := congrArg List.length htodo
      simp [loadsAt] at this
      omega
    subst hall
    have hroom := h.room
    rw [total_cons] at hroom
    refine ⟨m, rest', rfl, h.size_eq, ?_, ?_, ?_, ?_, by omega, h.producer.pop, trivial⟩
    · rw [h.sent_eq, List.append_assoc, List.singleton_append]
    · simp only
      rw [h.received_eq, List.map_append]
      rfl
    · simpa using hpos
    · have := h.writePos_eq
      simpa [Nat.add_assoc] using this
  · cases hstep

include hsize hdvd in
/-- Every step of either core leaves the read messages read and the others in the ring. -/
theorem Carries.step (h : Carries size done rest s) {a : Action} (hstep : channelStep a s = some s') :
    ∃ done' rest', Carries size done' rest' s' := by
  cases a with
  | write m => exact ⟨done, rest, h.write hsize hdvd hstep⟩
  | store => exact ⟨done, rest, h.store hstep⟩
  | publish =>
    obtain ⟨m, hm⟩ := h.publish hstep
    exact ⟨done, rest ++ [m], hm⟩
  | read len => exact ⟨done, rest, h.read hstep⟩
  | wake => exact ⟨done, rest, h.wake hstep⟩
  | snapshot => exact ⟨done, rest, h.snapshot hsize hdvd hstep⟩
  | load => exact ⟨done, rest, h.load hstep⟩
  | decode => exact ⟨done, rest, h.decode hstep⟩
  | finish =>
    obtain ⟨m, rest', -, hm⟩ := h.finish hstep
    exact ⟨done ++ [m], rest', hm⟩

end

/-- The consumer can come to return the message `m`. -/
private def CanDeliver (m : IpcMsg) (s : Channel) : Prop :=
  ∃ actions t, run channelStep actions s = some t ∧ t.received = s.received ++ [delivery m]

private theorem CanDeliver.of_step {m : IpcMsg} {s s' : Channel} {a : Action} (hstep : channelStep a s = some s')
    (hreceived : s'.received = s.received) (h : CanDeliver m s') : CanDeliver m s := by
  obtain ⟨actions, t, hrun, ht⟩ := h
  exact ⟨a :: actions, t, by rw [run_cons, hstep]; exact hrun, by rw [ht, hreceived]⟩

private theorem canDeliver_body {size : ℕ} {done rest : List IpcMsg} {m : IpcMsg} {s : Channel}
    {dataFlag dataLen : ℕ} {todo : List ℕ} {got : List UInt8} {ring : RingBuf}
    (h : Carries size done (m :: rest) s) (hbody : s.consumer = .body dataFlag dataLen todo got ring) :
    CanDeliver m s := by
  induction todo generalizing s got with
  | nil =>
    obtain ⟨s', hfinish⟩ : ∃ s', channelStep .finish s = some s' := by
      simp only [channelStep, hbody]
      exact ⟨_, rfl⟩
    obtain ⟨m', rest', heq, h'⟩ := h.finish hfinish
    cases heq
    refine ⟨[.finish], _, by rw [run_cons, hfinish]; rfl, ?_⟩
    rw [h'.received_eq, h.received_eq, List.map_append]
    rfl
  | cons address todo ih =>
    have hload : channelStep .load s = some { s with
        consumer := .body dataFlag dataLen todo (got ++ [s.mem address]) ring } := by
      simp only [channelStep, hbody]
    exact .of_step hload rfl (ih (h.load hload) rfl)

private theorem canDeliver_head {size : ℕ} {done rest : List IpcMsg} {m : IpcMsg} {s : Channel} {len : ℕ}
    (hlen : m.len ≤ len) {todo : List ℕ} {got : List UInt8} {ring : RingBuf}
    (h : Carries size done (m :: rest) s) (hhead : s.consumer = .head len todo got ring) : CanDeliver m s := by
  induction todo generalizing s got with
  | nil =>
    have hgot : decodeHead got = (m.len, m.flag) := by
      have hc := h.consumer
      rw [hhead] at hc
      obtain ⟨m', rest', heq, -, k, hk, htodo, rfl⟩ := hc
      cases heq
      have hall : k = 4 := by
        have := congrArg List.length htodo
        simp [loadsAt] at this
        omega
      rw [hall, decodeHead_head]
    have hdecode : channelStep .decode s = some { s with
        consumer := .body m.flag m.len (ipcMsgReadBody ring m.len).1 [] (ipcMsgReadBody ring m.len).2 } := by
      simp only [channelStep, hhead, hgot, if_neg (not_lt.mpr hlen)]
    exact .of_step hdecode rfl (canDeliver_body (h.decode hdecode) rfl)
  | cons address todo ih =>
    have hload : channelStep .load s = some { s with
        consumer := .head len todo (got ++ [s.mem address]) ring } := by
      simp only [channelStep, hhead]
    exact .of_step hload rfl (ih (h.load hload) rfl)

/-- A call of `IpcMsg_Read` with a buffer that is large enough comes back with the oldest
unread message, even if the other core does nothing more. -/
theorem Carries.read_delivers {size : ℕ} (hsize : size < 2 ^ 32) (hdvd : 32 ∣ size) {done rest : List IpcMsg}
    {m : IpcMsg} {s : Channel} (h : Carries size done (m :: rest) s) (hidle : s.consumer = .idle) {len : ℕ}
    (hlen : m.len ≤ len) :
    ∃ actions t, run channelStep actions s = some t ∧ t.received = s.received ++ [delivery m] := by
  have hempty : isRingbufEmpty s.ring = false := by
    simpa using h.isRingbufEmpty_iff.not.mpr (List.cons_ne_nil m rest)
  have hread : channelStep (.read len) s = some { s with consumer := .ready len } := by
    simp [channelStep, hidle, hempty]
  have hsnapshot : channelStep .snapshot { s with consumer := .ready len } = some _ := rfl
  have hcan := canDeliver_head hlen ((h.read hread).snapshot hsize hdvd hsnapshot) rfl
  exact CanDeliver.of_step hread rfl (.of_step hsnapshot rfl hcan)

/-- The cells between the read position and the write position. -/
def Unread (ring : RingBuf) (address : ℕ) : Prop :=
  if ring.readPos ≤ ring.writePos then ring.readPos ≤ address ∧ address < ring.writePos
  else (ring.readPos ≤ address ∧ address < ring.size) ∨ address < ring.writePos

/-- The channel has lost, repeated and changed nothing, and cannot do so in its next step. -/
structure Lossless (s : Channel) : Prop where
  fifo : s.received <+: s.sent.map delivery
  isEmpty_iff : isRingbufEmpty s.ring = true ↔ s.received.length = s.sent.length
  stores_not_unread : ∀ m todo ring, s.producer = .copying m todo ring → ∀ store ∈ todo, ¬Unread s.ring store.1
  writes_head_whole : ∀ m todo ring, ipcMsgWrite s.ring m = some (todo, ring) →
    todo.take 4 = memcpyStores s.ring.writePos m.head 4 ∧ s.ring.writePos + 4 ≤ s.ring.size
  reads_head_whole : isRingbufEmpty s.ring = false →
    (ipcMsgReadHead s.ring).1 = memcpyLoads s.ring.readPos 4 ∧ s.ring.readPos + 4 ≤ s.ring.size
  reads_return : s.consumer = .idle → isRingbufEmpty s.ring = false →
    ∃ actions t, run channelStep actions s = some t ∧ t.received.length = s.received.length + 1

private theorem not_unread_of_behind {size r d j : ℕ} {ring : RingBuf} (hsize : ring.size = size)
    (hr : ring.readPos = r % size) (hw : ring.writePos = (r + d) % size) (hfit : d + j < size) :
    ¬Unread ring ((r + d + j) % size) := by
  have hpos := Nat.mod_lt r (show 0 < size by omega)
  simp only [Unread, hsize, hr, hw, Nat.add_assoc r d j]
  rcases Nat.lt_or_ge (r % size + d) size with hd | hd
  · rw [add_mod_of_lt hd, if_pos (Nat.le_add_right _ _)]
    rcases Nat.lt_or_ge (r % size + (d + j)) size with hj | hj
    · rw [add_mod_of_lt hj]
      omega
    · rw [add_mod_of_ge hj (by omega) hpos]
      omega
  · rw [add_mod_of_ge hd (by omega) hpos, add_mod_of_ge (by omega) (by omega) hpos, if_neg (by omega)]
    omega

theorem Carries.lossless {size : ℕ} (hsize : size < 2 ^ 32) (hdvd : 32 ∣ size) {done rest : List IpcMsg}
    {s : Channel} (h : Carries size done rest s) : Lossless s := by
  have haligned := h.aligned hsize hdvd
  obtain ⟨-, hsize32, hw, hw32, hr, hr32⟩ := id haligned
  refine ⟨?_, ?_, ?_, ?_, ?_, ?_⟩
  · rw [h.received_eq, h.sent_eq, List.map_append]
    exact List.prefix_append _ _
  · rw [h.isRingbufEmpty_iff, h.received_eq, h.sent_eq, List.length_map, List.length_append,
      ← List.length_eq_zero_iff]
    omega
  · intro m todo ring hcopying store hstore
    have hp := h.producer
    rw [hcopying] at hp
    obtain ⟨hroom, -, k, -, rfl, -⟩ := hp
    obtain ⟨j, hj, rfl⟩ := List.mem_map.mp (List.mem_of_mem_drop hstore)
    rw [List.mem_range] at hj
    exact not_unread_of_behind h.size_eq h.readPos_eq h.writePos_eq (by omega)
  · intro m todo ring hwrite
    rw [ipcMsgWrite_eq haligned] at hwrite
    split_ifs at hwrite
    cases hwrite
    have hwhole : s.ring.writePos + 4 ≤ s.ring.size := by omega
    refine ⟨?_, hwhole⟩
    rw [storesAt_take ((Nat.le_add_left 4 m.len).trans (slotSize_bounds m).1), memcpyStores_eq _ hwhole]
    exact storesAt_congr fun k hk => if_pos hk
  · intro _
    have hwhole : s.ring.readPos + 4 ≤ s.ring.size := by omega
    rw [ipcMsgReadHead_eq haligned, memcpyLoads_eq _ hwhole]
    exact ⟨rfl, hwhole⟩
  · intro hidle hempty
    have hrest : rest ≠ [] := h.isRingbufEmpty_iff.not.mp (by simp [hempty])
    obtain ⟨m, rest', rfl⟩ := List.exists_cons_of_ne_nil hrest
    obtain ⟨actions, t, hrun, ht⟩ := h.read_delivers hsize hdvd hidle le_rfl
    exact ⟨actions, t, hrun, by rw [ht, List.length_append, List.length_singleton]⟩

/-- A ring without cells takes no message. -/
structure Closed (s : Channel) : Prop where
  ring_eq : s.ring = ⟨0, 0, 0⟩
  producer_eq : s.producer = .idle
  consumer_eq : s.consumer = .idle ∨ ∃ len, s.consumer = .waiting len
  sent_eq : s.sent = []
  received_eq : s.received = []

private theorem ipcMsgWrite_closed (m : IpcMsg) : ipcMsgWrite ⟨0, 0, 0⟩ m = none := by
  simp [ipcMsgWrite, isRingbufChFreeSpace, addU32, subU32]

theorem Closed.step {s s' : Channel} (h : Closed s) {a : Action} (hstep : channelStep a s = some s') :
    Closed s' := by
  obtain ⟨hring, hproducer, hconsumer, hsent, hreceived⟩ := h
  cases a with
  | write m =>
    simp only [channelStep, hproducer, hring, ipcMsgWrite_closed] at hstep
    cases hstep
    exact ⟨hring, hproducer, hconsumer, hsent, hreceived⟩
  | store => simp [channelStep, hproducer] at hstep
  | publish => simp [channelStep, hproducer] at hstep
  | read len =>
    rcases hconsumer with hc | ⟨n, hc⟩
    · simp only [channelStep, hc, hring] at hstep
      cases hstep
      exact ⟨rfl, hproducer, .inr ⟨len, rfl⟩, hsent, hreceived⟩
    · simp [channelStep, hc] at hstep
  | wake =>
    rcases hconsumer with hc | ⟨n, hc⟩
    · simp [channelStep, hc] at hstep
    · simp only [channelStep, hc, hring] at hstep
      cases hstep
      exact ⟨rfl, hproducer, .inl rfl, hsent, hreceived⟩
  | snapshot => rcases hconsumer with hc | ⟨n, hc⟩ <;> simp [channelStep, hc] at hstep
  | load => rcases hconsumer with hc | ⟨n, hc⟩ <;> simp [channelStep, hc] at hstep
  | decode => rcases hconsumer with hc | ⟨n, hc⟩ <;> simp [channelStep, hc] at hstep
  | finish => rcases hconsumer with hc | ⟨n, hc⟩ <;> simp [channelStep, hc] at hstep

theorem Closed.lossless {s : Channel} (h : Closed s) : Lossless s := by
  obtain ⟨hring, hproducer, -, hsent, hreceived⟩ := h
  refine ⟨by simp [hreceived], by simp [isRingbufEmpty, hring, hsent, hreceived], ?_, ?_, ?_, ?_⟩
  · simp [hproducer]
  · simp [hring, ipcMsgWrite_closed]
  · simp [isRingbufEmpty, hring]
  · simp [isRingbufEmpty, hring]

theorem carries_channelInit {size : ℕ} (h : 0 < size) (mem : ℕ → UInt8) :
    Carries size [] [] (channelInit size mem) := by
  refine ⟨rfl, rfl, rfl, by simp [channelInit], by simp [channelInit], h, ?_, trivial⟩
  intro i _ hi
  simp at hi

/-- Whatever the two cores do, in whatever order, the messages read are the messages
written, in order. -/
theorem lossless_run {size : ℕ} (hsize : size < 2 ^ 32) (hdvd : cacheLine ∣ size) (mem : ℕ → UInt8)
    (actions : List Action) {s : Channel} (hrun : run channelStep actions (channelInit size mem) = some s) :
    Lossless s := by
  rcases Nat.eq_zero_or_pos size with rfl | hpos
  · have hclosed : Closed s := run_invariant (P := fun _ _ => True) (fun _ _ _ h _ hstep => h.step hstep)
      ⟨rfl, rfl, .inl rfl, rfl, rfl⟩ (along_true _ _ _) hrun
    exact hclosed.lossless
  · have hstep : ∀ a t t', (∃ done rest, Carries size done rest t) → True → channelStep a t = some t' →
        ∃ done rest, Carries size done rest t' := fun _ _ _ ⟨_, _, h⟩ _ hat => h.step hsize hdvd hat
    obtain ⟨done, rest, h⟩ := run_invariant hstep ⟨[], [], carries_channelInit hpos mem⟩
      (along_true _ _ _) hrun
    exact h.lossless hsize hdvd

def sampleMsg : IpcMsg :=
  ⟨2, 3, fun k => UInt8.ofNat k, by decide, by decide, by decide⟩

/-- The reader finds the ring empty while the writer is still storing, and is woken when the position is out. -/
def readDuringWrite : List Action :=
  [Action.write sampleMsg, .store, .read 64] ++ List.replicate 31 Action.store ++ [Action.publish, .wake, .snapshot] ++
    List.replicate 4 Action.load ++ [Action.decode] ++ List.replicate 3 Action.load ++ [Action.finish]

theorem readDuringWrite_received :
    (run channelStep readDuringWrite (channelInit (getIpcmsgBufLen .normal) fun _ => 0)).map Channel.received =
      some [⟨2, 3, [0, 1, 2]⟩] := by
  decide

/-- The message comes out as it went in. -/
theorem lossless_run_write :
    ∃ s, run channelStep readDuringWrite (channelInit (getIpcmsgBufLen .normal) fun _ => 0) = some s ∧
      s.received = [⟨2, 3, [0, 1, 2]⟩] ∧ Lossless s := by
  obtain ⟨s, hs, hreceived⟩ := Option.map_eq_some_iff.mp readDuringWrite_received
  exact ⟨s, hs, hreceived, lossless_run (by decide) (cacheLine_dvd_getIpcmsgBufLen .normal) _ _ hs⟩

end NbiotXY1100.IpcChannel
