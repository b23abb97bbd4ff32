import NbiotXY1100.CdpDownstream

/-! # Saving the downlink buffer and resuming it

Where every message fits its slot, what is resumed from the flash area is what was saved. -/
namespace NbiotXY1100.CdpDownstream
open ByteBuffers

/-- No message runs into a slot that is in use. -/
def FitsSlots (messages : List Message) : Prop :=
  messages.length ≤ 1 ∨ ∀ data ∈ messages, data.length ≤ 1024

/-- What the queue keeps at all times. -/
structure Bounded (messages : List Message) : Prop where
  num : messages.length ≤ dataListMaxLen
  each : ∀ data ∈ messages, data.length ≤ downstreamLenMax
  total : (messages.map List.length).sum ≤ downstreamBufferTotal

/-- The records one behind the other. -/
def encode (messages : List Message) : List UInt8 := messages.flatMap record

@[simp] theorem encode_nil : encode [] = [] := rfl

theorem encode_cons (data : Message) (rest : List Message) : encode (data :: rest) = record data ++ encode rest := rfl

@[simp] theorem record_length (data : Message) : (record data).length = data.length + 4 := by
  rw [record, List.length_append, leBytes_length, Nat.add_comm]

theorem encode_length (messages : List Message) :
    (encode messages).length = (messages.map List.length).sum + 4 * messages.length := by
  induction messages with
  | nil => rfl
  | cons data rest ih =>
    rw [encode_cons, List.length_append, record_length, ih, List.map_cons, List.sum_cons, List.length_cons]
    omega

theorem record_ne_nil (data : Message) : record data ≠ [] := by
  intro h
  have hlen := congrArg List.length h
  simp at hlen

/-- The length word of a record. -/
theorem word_of_record {bs : List UInt8} {o : ℕ} {data : Message} (h : Holds bs o (record data))
    (hlen : data.length ≤ downstreamLenMax) : (word bs o).toNat = data.length := by
  have hword : (bs.drop o).take 4 = leBytes (UInt32.ofNat data.length) := (holds_append.mp h).1
  have hlt : data.length < 2 ^ 32 := by
    simp only [downstreamLenMax] at hlen
    omega
  rw [word, hword, ofLeBytes_leBytes, UInt32.toNat_ofNat', Nat.mod_eq_of_lt hlt]

/-! ### Saving -/

/-- The slots hold the messages, the oldest one in the last slot. -/
def Descending (buf : List UInt8) : List Message → Prop
  | [] => True
  | data :: rest => Holds buf (rest.length * streamInfoSize) (record data) ∧ Descending buf rest

theorem unlinkNodes_short (messages : List Message) (hshort : ∀ data ∈ messages, data.length ≤ 1024)
    {buf : List UInt8} (hbuf : messages.length * streamInfoSize ≤ buf.length) :
    ∃ slots, unlinkNodes messages.length messages buf = some slots ∧ slots.length = buf.length ∧
      Descending slots messages ∧
      ∀ o other, messages.length * streamInfoSize ≤ o → Holds buf o other → Holds slots o other := by
  induction messages generalizing buf with
  | nil => exact ⟨buf, rfl, rfl, trivial, fun _ _ _ h => h⟩
  | cons data rest ih =>
    have hdata := hshort data (List.mem_cons_self ..)
    have hrec : (record data).length ≤ streamInfoSize := by
      rw [record_length, streamInfoSize]
      omega
    rw [List.length_cons, Nat.succ_mul] at hbuf
    have hin : rest.length * streamInfoSize + (record data).length ≤ buf.length := by omega
    have hlen : (splice buf (rest.length * streamInfoSize) (record data)).length = buf.length := splice_length hin
    have hroom : rest.length * streamInfoSize ≤ (splice buf (rest.length * streamInfoSize) (record data)).length := by
      omega
    obtain ⟨slots, hrun, hslots, hdesc, hframe⟩ := ih (fun other h => hshort other (List.mem_cons_of_mem _ h)) hroom
    refine ⟨slots, ?_, hslots.trans hlen, ⟨?_, hdesc⟩, ?_⟩
    · simp only [List.length_cons, unlinkNodes, copyIn, if_pos hin]
      exact hrun
    · exact hframe _ _ (Nat.le_refl _) (holds_splice (by omega))
    · intro o other ho hother
      rw [List.length_cons, Nat.succ_mul] at ho
      exact hframe o other (by omega) (hother.splice_of_disjoint hin (.inr (by omega)))

theorem unlinkNodes_emptySlots {messages : List Message} (hbounded : Bounded messages) (hfits : FitsSlots messages) :
    ∃ slots, unlinkNodes messages.length messages emptySlots = some slots ∧ Descending slots messages := by
  have hempty : emptySlots.length = dataListMaxLen * streamInfoSize := List.length_replicate
  obtain hone | hshort := hfits
  · match messages, hone with
    | [], _ => exact ⟨emptySlots, rfl, trivial⟩
    | [data], _ =>
      have hdata := hbounded.each data (List.mem_singleton_self data)
      have hin : 0 * streamInfoSize + (record data).length ≤ emptySlots.length := by
        simp only [record_length, hempty, dataListMaxLen, streamInfoSize, downstreamLenMax] at hdata ⊢
        omega
      refine ⟨splice emptySlots (0 * streamInfoSize) (record data), ?_, holds_splice (by omega), trivial⟩
      simp only [List.length_singleton, unlinkNodes, copyIn, if_pos hin, Option.bind_some]
  · have hroom : messages.length * streamInfoSize ≤ emptySlots.length :=
      hempty.symm ▸ Nat.mul_le_mul_right _ hbounded.num
    obtain ⟨slots, hrun, -, hdesc, -⟩ := unlinkNodes_short messages hshort hroom
    exact ⟨slots, hrun, hdesc⟩

theorem splice_nil {α : Type*} (bs : List α) (o : ℕ) : splice bs o [] = bs := by
  simp [splice]

theorem writeSlots_eq {buf : List UInt8} (messages : List Message)
    (heach : ∀ data ∈ messages, data.length ≤ downstreamLenMax) (hdesc : Descending buf messages) {len : ℕ}
    {area : List UInt8} (harea : 16 + len + (encode messages).length ≤ area.length) :
    writeSlots buf messages.length len area = some (splice area (16 + len) (encode messages)) := by
  induction messages generalizing len area with
  | nil => rw [encode_nil, splice_nil]; rfl
  | cons data rest ih =>
    obtain ⟨hrec, hrest⟩ := hdesc
    have hword := word_of_record hrec (heach data (List.mem_cons_self ..))
    have hout : copyOut buf (rest.length * streamInfoSize) (data.length + 4) = some (record data) := by
      rw [← record_length]
      exact hrec.copyOut (hrec.length_le (record_ne_nil data))
    rw [encode_cons, List.length_append] at harea
    have hin : 16 + len + (record data).length ≤ area.length := by omega
    have hlen : (splice area (16 + len) (record data)).length = area.length := splice_length hin
    have hroom : 16 + (len + (data.length + 4)) + (encode rest).length ≤
        (splice area (16 + len) (record data)).length := by
      rw [hlen, ← record_length]
      omega
    have hnext := ih (fun other h => heach other (List.mem_cons_of_mem _ h)) hrest hroom
    rw [List.length_cons, writeSlots]
    simp only [hword, hout, Option.bind_some, copyIn, if_pos hin, hnext]
    rw [encode_cons, ← splice_append (by omega), record_length, Nat.add_assoc]

theorem counterBytes_length (d : Downstream) : (counterBytes d).length = 16 := rfl

/-- The flash area after a save. -/
def savedArea (d : Downstream) : List UInt8 := splice erasedArea 0 (counterBytes d ++ encode d.list)

theorem encode_length_le {messages : List Message} (h : Bounded messages) : 16 + (encode messages).length ≤ areaSize := by
  have hnum := h.num
  have htotal := h.total
  simp only [dataListMaxLen, downstreamBufferTotal] at hnum htotal
  rw [encode_length, areaSize, downstreamLenMax]
  omega

theorem cdpDownbufferedSave_eq {d : Downstream} (hreceived : 0 < d.receivedNum) (hnum : d.bufferedNum = d.list.length)
    (hbounded : Bounded d.list) (hfits : FitsSlots d.list) (area : List UInt8) :
    cdpDownbufferedSave d area = some (savedArea d) := by
  have harea := encode_length_le hbounded
  have herased : erasedArea.length = areaSize := List.length_replicate
  have hcounters : 0 + (counterBytes d).length ≤ erasedArea.length := by
    rw [counterBytes_length, herased, areaSize, downstreamLenMax]
    omega
  obtain ⟨slots, hunlink, hdesc⟩ := unlinkNodes_emptySlots hbounded hfits
  have hlen : (splice erasedArea 0 (counterBytes d)).length = areaSize := (splice_length hcounters).trans herased
  have hroom : 16 + 0 + (encode d.list).length ≤ (splice erasedArea 0 (counterBytes d)).length := by omega
  have hwrite := writeSlots_eq d.list hbounded.each hdesc hroom
  rw [cdpDownbufferedSave, if_pos hreceived, copyIn, if_pos hcounters, Option.bind_some, hnum, Int.toNat_natCast,
    hunlink, Option.bind_some, hwrite, savedArea,
    ← splice_append (by rw [counterBytes_length, herased]; omega), counterBytes_length]

/-! ### Resuming -/

/-- The slots from `i` on hold the messages, the oldest one first. -/
def Ascending (buf : List UInt8) : ℕ → List Message → Prop
  | _, [] => True
  | i, data :: rest => Holds buf (i * streamInfoSize) (record data) ∧ Ascending buf (i + 1) rest

/-- One round of the loop that reads records. -/
theorem readSlots_record {area buf : List UInt8} {n i len : ℕ} {data : Message}
    (hdata : data.length ≤ downstreamLenMax) (harea : 16 + len + (record data).length ≤ area.length)
    (hrec : Holds area (16 + len) (record data)) (hin : i * streamInfoSize + (record data).length ≤ buf.length) :
    readSlots area (n + 1) i len buf =
      readSlots area n (i + 1) (len + (record data).length) (splice buf (i * streamInfoSize) (record data)) := by
  obtain ⟨hlength, hbytes⟩ := holds_append.mp hrec
  rw [record_length] at harea hin
  have hword : (ofLeBytes (leBytes (UInt32.ofNat data.length))).toNat = data.length := by
    rw [ofLeBytes_leBytes, UInt32.toNat_ofNat', Nat.mod_eq_of_lt]
    simp only [downstreamLenMax] at hdata
    omega
  have hout : copyOut area (16 + len) 4 = some (leBytes (UInt32.ofNat data.length)) :=
    hlength.copyOut (by rw [leBytes_length]; omega)
  have hout' : copyOut area (16 + 4 + len) data.length = some data := by
    rw [Nat.add_right_comm]
    exact hbytes.copyOut (by rw [leBytes_length]; omega)
  have hin4 : i * streamInfoSize + (leBytes (UInt32.ofNat data.length)).length ≤ buf.length := by
    rw [leBytes_length]
    omega
  have hin' : i * streamInfoSize + 4 + data.length ≤
      (splice buf (i * streamInfoSize) (leBytes (UInt32.ofNat data.length))).length := by
    rw [splice_length hin4]
    omega
  have hsplice : splice (splice buf (i * streamInfoSize) (leBytes (UInt32.ofNat data.length)))
      (i * streamInfoSize + 4) data = splice buf (i * streamInfoSize) (record data) :=
    splice_append (by rw [leBytes_length]; omega)
  have hslot := word_of_record (@holds_splice _ buf (record data) (i * streamInfoSize) (by omega)) hdata
  rw [readSlots, hout, Option.bind_some, copyIn, if_pos hin4, Option.bind_some, hword, hout', Option.bind_some,
    copyIn, if_pos hin', Option.bind_some, hsplice, hslot, record_length]

theorem readSlots_short {area : List UInt8} (messages : List Message)
    (hshort : ∀ data ∈ messages, data.length ≤ 1024) {i len : ℕ} {buf : List UInt8}
    (harea : 16 + len + (encode messages).length ≤ area.length) (henc : Holds area (16 + len) (encode messages))
    (hbuf : (i + messages.length) * streamInfoSize ≤ buf.length) :
    ∃ slots, readSlots area messages.length i len buf = some slots ∧ Ascending slots i messages ∧
      ∀ o other, o + other.length ≤ i * streamInfoSize → Holds buf o other → Holds slots o other := by
  induction messages generalizing i len buf with
  | nil => exact ⟨buf, rfl, trivial, fun _ _ _ h => h⟩
  | cons data rest ih =>
    have hdata := hshort data (List.mem_cons_self ..)
    rw [encode_cons, List.length_append] at harea
    rw [encode_cons] at henc
    obtain ⟨hrec, hrest⟩ := holds_append.mp henc
    rw [List.length_cons, ← Nat.add_assoc, Nat.add_right_comm, Nat.add_mul] at hbuf
    have hslot : (i + 1) * streamInfoSize = i * streamInfoSize + streamInfoSize := Nat.succ_mul ..
    have hsize : (record data).length ≤ streamInfoSize := by
      rw [record_length, streamInfoSize]
      omega
    have hin : i * streamInfoSize + (record data).length ≤ buf.length := by omega
    have hlen : (splice buf (i * streamInfoSize) (record data)).length = buf.length := splice_length hin
    have hroom : (i + 1 + rest.length) * streamInfoSize ≤ (splice buf (i * streamInfoSize) (record data)).length := by
      rw [hlen, Nat.add_mul]
      exact hbuf
    rw [Nat.add_assoc] at hrest
    obtain ⟨slots, hrun, hasc, hframe⟩ :=
      ih (fun other h => hshort other (List.mem_cons_of_mem _ h)) (by omega) hrest hroom
    refine ⟨slots, ?_, ⟨?_, hasc⟩, ?_⟩
    · have hmax : data.length ≤ downstreamLenMax := by
        rw [downstreamLenMax]
        omega
      rw [List.length_cons, readSlots_record hmax (by omega) hrec hin]
      exact hrun
    · exact hframe _ _ (by omega) (holds_splice (by omega))
    · intro o other ho hother
      exact hframe o other (by omega) (hother.splice_of_disjoint hin (.inl ho))

theorem readSlots_emptySlots {area : List UInt8} {messages : List Message} (hbounded : Bounded messages)
    (hfits : FitsSlots messages) (harea : 16 + (encode messages).length ≤ area.length)
    (henc : Holds area 16 (encode messages)) :
    ∃ slots, readSlots area messages.length 0 0 emptySlots = some slots ∧ Ascending slots 0 messages := by
  have hempty : emptySlots.length = dataListMaxLen * streamInfoSize := List.length_replicate
  obtain hone | hshort := hfits
  · match messages, hone with
    | [], _ => exact ⟨emptySlots, rfl, trivial⟩
    | [data], _ =>
      have hdata := hbounded.each data (List.mem_singleton_self data)
      have hin : 0 * streamInfoSize + (record data).length ≤ emptySlots.length := by
        simp only [record_length, hempty, dataListMaxLen, streamInfoSize, downstreamLenMax] at hdata ⊢
        omega
      rw [encode_cons, encode_nil, List.append_nil] at harea henc
      refine ⟨splice emptySlots (0 * streamInfoSize) (record data), ?_, holds_splice (by omega), trivial⟩
      exact readSlots_record hdata harea henc hin
  · have hroom : (0 + messages.length) * streamInfoSize ≤ emptySlots.length := by
      rw [hempty, Nat.zero_add]
      exact Nat.mul_le_mul_right _ hbounded.num
    obtain ⟨slots, hrun, hasc, -⟩ := @readSlots_short area messages hshort 0 0 emptySlots harea henc hroom
    exact ⟨slots, hrun, hasc⟩

theorem linkNodes_eq {buf : List UInt8} (messages : List Message)
    (heach : ∀ data ∈ messages, data.length ≤ downstreamLenMax) {i : ℕ} (hasc : Ascending buf i messages) :
    linkNodes buf messages.length i = some messages := by
  induction messages generalizing i with
  | nil => rfl
  | cons data rest ih =>
    obtain ⟨hrec, hrest⟩ := hasc
    have hword := word_of_record hrec (heach data (List.mem_cons_self ..))
    have hroom := hrec.length_le (record_ne_nil data)
    rw [record_length] at hroom
    have hout : copyOut buf (i * streamInfoSize + 4) data.length = some data :=
      (holds_append.mp hrec).2.copyOut (by rw [leBytes_length]; omega)
    have hnext := ih (fun other h => heach other (List.mem_cons_of_mem _ h)) hrest
    rw [List.length_cons, linkNodes, hword, hout, Option.bind_some, hnext, Option.map_some]

/-- An `int` in the range of the type comes back from its four bytes. -/
theorem toInt_word {bs : List UInt8} {o : ℕ} {n : ℤ} (h : Holds bs o (leBytes (ofInt n))) (hlow : -2 ^ 31 ≤ n)
    (hhigh : n < 2 ^ 31) : toInt (word bs o) = n := by
  have hword : (bs.drop o).take 4 = leBytes (ofInt n) := h
  rw [word, hword, ofLeBytes_leBytes]
  exact BitVec.toInt_ofInt_eq_self (by decide) hlow hhigh

/-- The counters are those that a save keeps. -/
structure CountersKept (d : Downstream) : Prop where
  num : d.bufferedNum = d.list.length
  received : 0 < d.receivedNum
  receivedMax : d.receivedNum < 2 ^ 31
  dropped : 0 ≤ d.droppedNum
  droppedMax : d.droppedNum < 2 ^ 31
  total : d.bufferedTotal = (d.list.map List.length).sum

theorem savedArea_holds (d : Downstream) : Holds (savedArea d) 0 (counterBytes d ++ encode d.list) :=
  holds_splice (Nat.zero_le _)

theorem cdpDownbufferedNumResume_savedArea {d : Downstream} (hcounters : CountersKept d) (hbounded : Bounded d.list) :
    cdpDownbufferedNumResume (savedArea d) .zero = (true, { d with list := [] }) := by
  obtain ⟨hwords, hholds3⟩ := holds_append.mp (holds_append.mp (savedArea_holds d)).1
  obtain ⟨hwords, hholds2⟩ := holds_append.mp hwords
  obtain ⟨hholds0, hholds1⟩ := holds_append.mp hwords
  obtain ⟨num, received, receivedMax, dropped, droppedMax, total⟩ := hcounters
  have hnumMax := hbounded.num
  have htotalMax := hbounded.total
  simp only [dataListMaxLen, downstreamBufferTotal] at hnumMax htotalMax
  have hnum : toInt (word (savedArea d) 0) = d.bufferedNum := toInt_word hholds0 (by omega) (by omega)
  have hreceived : toInt (word (savedArea d) 4) = d.receivedNum := toInt_word hholds1 (by omega) receivedMax
  have hdropped : toInt (word (savedArea d) 8) = d.droppedNum := toInt_word hholds2 (by omega) droppedMax
  have htotal : toInt (word (savedArea d) 12) = d.bufferedTotal := toInt_word hholds3 (by omega) (by omega)
  have hok : d.bufferedNum ≤ (dataListMaxLen : ℤ) := by
    rw [num, dataListMaxLen]
    omega
  have hnonneg : 0 ≤ d.bufferedNum := by omega
  simp only [cdpDownbufferedNumResume, hnum, hreceived, hdropped, htotal, Int.max_eq_right hnonneg,
    Int.max_eq_right (Int.le_of_lt received), Int.max_eq_right dropped, decide_eq_true hok]
  rfl

/-- What was saved is resumed: the counters and the messages. -/
theorem cdpDownbufferedResume_savedArea {d : Downstream} (hcounters : CountersKept d) (hbounded : Bounded d.list)
    (hfits : FitsSlots d.list) : cdpDownbufferedResume (savedArea d) .zero = some (true, d) := by
  have harea := encode_length_le hbounded
  have herased : erasedArea.length = areaSize := List.length_replicate
  have hlen : (savedArea d).length = areaSize := by
    refine (splice_length ?_).trans herased
    rw [List.length_append, counterBytes_length, herased]
    omega
  have hrecords := (holds_append.mp (savedArea_holds d)).2
  obtain ⟨slots, hread, hasc⟩ := readSlots_emptySlots hbounded hfits (hlen ▸ harea) hrecords
  have hlink := linkNodes_eq d.list hbounded.each hasc
  rw [cdpDownbufferedResume, cdpDownbufferedNumResume_savedArea hcounters hbounded]
  simp only [if_true, hcounters.num, Int.toNat_natCast, hread, Option.bind_some, hlink, Option.map_some,
    List.nil_append]
  rw [← hcounters.num]

end NbiotXY1100.CdpDownstream
