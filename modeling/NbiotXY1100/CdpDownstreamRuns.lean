import NbiotXY1100.CdpDownstreamSave
import NbiotXY1100.StepRuns

/-! # The downlink buffer over deep sleeps

Messages come in and are read, and the system sleeps and wakes up, in any order. After a sleep the
buffer is resumed by `cdp_init` or by the first read. -/
namespace NbiotXY1100.CdpDownstreamRuns
open ByteBuffers CdpDownstream StepRuns

/-- The memory and the flash area. `needRecovery` is `NET_NEED_RECOVERY(CDP_TASK)`, which a sleep of a
running client sets. `accepted` and `returned` are all messages that were buffered and read so far,
and `atSleep` is what was in memory at the last sleep. -/
structure State where
  downstream : Option Downstream
  resumeFlag : Bool
  needRecovery : Bool
  area : List UInt8
  fault : Bool
  accepted : List Message
  returned : List Message
  atSleep : Downstream

def State.init (area : List UInt8) : State := ⟨none, false, false, area, false, [], [], .zero⟩

inductive Action where
  | newMessage (data : Message)
  | getMessage
  | sleep
  | cdpInit
  deriving DecidableEq, Repr

def fail (s : State) : State := { s with fault := true }

def newMessage (data : Message) (s : State) (d : Downstream) : State :=
  { s with
    downstream := some (newMessageIndication data d)
    accepted := if HasRoom data d then s.accepted ++ [data] else s.accepted }

def readMessage (s : State) (d : Downstream) : State :=
  match takeMessage d with
  | none => fail s
  | some (d, data) => { s with downstream := some d, returned := s.returned ++ data.toList }

/-- `get_message_via_lwm2m`. -/
def getMessage (s : State) : State :=
  match s.downstream with
  | some d => readMessage s d
  | none =>
    if s.needRecovery then
      match resumeOnce s.resumeFlag s.area .zero with
      | none => fail s
      | some (false, d) => { s with downstream := some d, resumeFlag := true }
      | some (true, d) => readMessage { s with resumeFlag := true } d
    else s

/-- `cdp_downbuffered_save` and the loss of the memory. -/
def sleep (s : State) : State :=
  match s.downstream with
  | none => { s with resumeFlag := false }
  | some d =>
    match cdpDownbufferedSave d s.area with
    | none => fail s
    | some area => { s with downstream := none, resumeFlag := false, needRecovery := true, area := area, atSleep := d }

/-- What `cdp_init` does with the downlink buffer. -/
def cdpInit (s : State) : State :=
  let d := s.downstream.getD .zero
  if s.needRecovery then
    match resumeOnce s.resumeFlag s.area d with
    | none => fail s
    | some (ok, d) => { s with downstream := some (if ok then d else .zero), resumeFlag := true }
  else { s with downstream := some d }

/-- Messages come in only while the client runs, and with at most `DOWNSTREAM_LEN_MAX` bytes. -/
def step (action : Action) (s : State) : Option State :=
  if s.fault then none
  else match action with
    | .newMessage data =>
      if 1 ≤ data.length ∧ data.length ≤ downstreamLenMax then s.downstream.map (newMessage data s) else none
    | .getMessage => some (getMessage s)
    | .sleep => some (sleep s)
    | .cdpInit => some (cdpInit s)

/-- The messages in the queue are those that were accepted and not yet returned, and the counters
are right. -/
structure Queued (accepted returned : List Message) (d : Downstream) : Prop where
  messages : accepted = returned ++ d.list
  num : d.bufferedNum = d.list.length
  numMax : d.list.length ≤ dataListMaxLen
  total : d.bufferedTotal = (d.list.map List.length).sum
  totalMax : (d.list.map List.length).sum ≤ downstreamBufferTotal

/-- The queue is right, in memory or after the resume that follows a sleep; this gives back the
messages and all counters from before the sleep. -/
def Exact (s : State) : Prop :=
  s.fault = false ∧
    match s.downstream with
    | some d => Queued s.accepted s.returned d
    | none =>
      if s.needRecovery then
        resumeOnce s.resumeFlag s.area .zero = some (true, s.atSleep) ∧ Queued s.accepted s.returned s.atSleep
      else s.accepted = s.returned

/-- The counters are positive and no message runs into a slot that is in use. -/
def Saveable (d : Downstream) : Prop := 0 < d.receivedNum ∧ 0 ≤ d.droppedNum ∧ FitsSlots d.list

def SleepsSaveable : Action → State → Prop
  | .sleep, s => ∀ d, s.downstream = some d → Saveable d
  | _, _ => True

/-! ### The invariant -/

def InRange (n : ℤ) : Prop := -2 ^ 31 ≤ n ∧ n < 2 ^ 31

structure Valid (accepted returned : List Message) (d : Downstream) : Prop where
  queued : Queued accepted returned d
  each : ∀ data ∈ d.list, data.length ≤ downstreamLenMax
  received : InRange d.receivedNum
  dropped : InRange d.droppedNum

structure Inv (s : State) : Prop where
  fault : s.fault = false
  memory : ∀ d, s.downstream = some d → Valid s.accepted s.returned d ∧ (s.needRecovery → s.resumeFlag)
  asleep : s.downstream = none → s.needRecovery →
    s.resumeFlag = false ∧ Valid s.accepted s.returned s.atSleep ∧ Saveable s.atSleep ∧ s.area = savedArea s.atSleep
  fresh : s.downstream = none → s.needRecovery = false → s.accepted = s.returned

theorem inRange_increment (n : ℤ) : InRange (increment n) := by
  have hle := @Int.le_bmod (n + 1) (2 ^ 32) (by decide)
  have hlt := @Int.bmod_lt (n + 1) (2 ^ 32) (by decide)
  simp only [InRange, increment]
  omega

theorem Valid.bounded {accepted returned : List Message} {d : Downstream} (h : Valid accepted returned d) : Bounded d.list :=
  ⟨h.queued.numMax, h.each, h.queued.totalMax⟩

theorem Valid.countersKept {accepted returned : List Message} {d : Downstream} (h : Valid accepted returned d)
    (hsave : Saveable d) : CountersKept d :=
  ⟨h.queued.num, hsave.1, h.received.2, hsave.2.1, h.dropped.2, h.queued.total⟩

theorem Valid.save {accepted returned : List Message} {d : Downstream} (h : Valid accepted returned d)
    (hsave : Saveable d) (area : List UInt8) :
    cdpDownbufferedSave d area = some (savedArea d) :=
  cdpDownbufferedSave_eq hsave.1 h.queued.num h.bounded hsave.2.2 area

theorem Valid.resume {accepted returned : List Message} {d : Downstream} (h : Valid accepted returned d)
    (hsave : Saveable d) :
    cdpDownbufferedResume (savedArea d) .zero = some (true, d) :=
  cdpDownbufferedResume_savedArea (h.countersKept hsave) h.bounded hsave.2.2

theorem Inv.resumeOnce {s : State} (h : Inv s) (hnone : s.downstream = none) (hrec : s.needRecovery = true) :
    resumeOnce s.resumeFlag s.area .zero = some (true, s.atSleep) := by
  obtain ⟨hflag, hvalid, hsave, harea⟩ := h.asleep hnone hrec
  rw [CdpDownstream.resumeOnce, hflag, harea]
  exact hvalid.resume hsave

theorem Inv.exact {s : State} (h : Inv s) : Exact s := by
  refine ⟨h.fault, ?_⟩
  cases hd : s.downstream with
  | some d => exact (h.memory d hd).1.queued
  | none =>
    dsimp only
    split
    · next hrec => exact ⟨h.resumeOnce hd hrec, (h.asleep hd hrec).2.1.queued⟩
    · next hrec => exact h.fresh hd (Bool.eq_false_iff.mpr hrec)

theorem inv_init (area : List UInt8) : Inv (.init area) :=
  ⟨rfl, fun _ hd => absurd hd (by simp [State.init]), fun _ hrec => absurd hrec (by simp [State.init]), fun _ _ => rfl⟩

/-! ### The steps -/

theorem inv_of_valid {s : State} {d : Downstream} (hfault : s.fault = false) (hd : s.downstream = some d)
    (hvalid : Valid s.accepted s.returned d) (hflag : s.needRecovery → s.resumeFlag) : Inv s where
  fault := hfault
  memory d' hd' := by
    obtain rfl : d = d' := Option.some.inj (hd.symm.trans hd')
    exact ⟨hvalid, hflag⟩
  asleep hnone := absurd (hd.symm.trans hnone) (by simp)
  fresh hnone := absurd (hd.symm.trans hnone) (by simp)

theorem valid_newMessage {s : State} {d : Downstream} {data : Message} (h : Valid s.accepted s.returned d)
    (hlen : data.length ≤ downstreamLenMax) : Valid (newMessage data s d).accepted s.returned (newMessageIndication data d) := by
  by_cases hroom : HasRoom data d
  · obtain ⟨⟨hmessages, hnum, hnumMax, htotal, htotalMax⟩, heach, hreceived, hdropped⟩ := h
    have hlt : (d.list.length : ℤ) < dataListMaxLen := hnum ▸ hroom.1
    have hle : ((d.list.map List.length).sum : ℤ) + data.length ≤ downstreamBufferTotal := htotal ▸ hroom.2
    simp only [newMessage, newMessageIndication, if_pos hroom]
    refine ⟨⟨?_, ?_, ?_, ?_, ?_⟩, ?_, inRange_increment _, hdropped⟩
    · simp only [hmessages, List.append_assoc]
    · simp only [List.length_append, List.length_singleton, hnum]
      omega
    · simp only [List.length_append, List.length_singleton]
      omega
    · simp only [List.map_append, List.map_cons, List.map_nil, List.sum_append, List.sum_cons, List.sum_nil, htotal]
      omega
    · simp only [List.map_append, List.map_cons, List.map_nil, List.sum_append, List.sum_cons, List.sum_nil]
      omega
    · intro other hother
      obtain hother | hother := List.mem_append.mp hother
      · exact heach other hother
      · rwa [List.mem_singleton.mp hother]
  · rw [newMessageIndication_refused hroom]
    simp only [newMessage, if_neg hroom]
    obtain ⟨hqueued, heach, hreceived, hdropped⟩ := h
    exact ⟨⟨hqueued.messages, hqueued.num, hqueued.numMax, hqueued.total, hqueued.totalMax⟩, heach,
      inRange_increment _, inRange_increment _⟩

theorem inv_readMessage {s : State} {d : Downstream} (hfault : s.fault = false) (h : Valid s.accepted s.returned d)
    (hflag : s.needRecovery → s.resumeFlag) : Inv (readMessage s d) := by
  obtain ⟨⟨hmessages, hnum, hnumMax, htotal, htotalMax⟩, heach, hreceived, hdropped⟩ := h
  obtain ⟨num, received, dropped, total, list⟩ := d
  cases list with
  | nil =>
    have hzero : ¬ 0 < num := by
      simp only [List.length_nil] at hnum
      omega
    simp only [readMessage, takeMessage, if_neg hzero, Option.toList_none, List.append_nil]
    exact inv_of_valid hfault rfl
      ⟨⟨hmessages, hnum, hnumMax, htotal, htotalMax⟩, heach, hreceived, hdropped⟩ hflag
  | cons data rest =>
    simp only [List.length_cons, List.map_cons, List.sum_cons] at hnum hnumMax htotal htotalMax
    have hpos : 0 < num := by omega
    simp only [readMessage, takeMessage, if_pos hpos, Option.toList_some]
    refine inv_of_valid hfault rfl ⟨⟨?_, ?_, ?_, ?_, ?_⟩, ?_, hreceived, hdropped⟩ hflag
    · simpa only [List.append_assoc, List.singleton_append] using hmessages
    · simp only [hnum]
      omega
    · exact Nat.le_of_succ_le hnumMax
    · simp only [htotal]
      omega
    · exact Nat.le_of_add_left_le htotalMax
    · exact fun other hother => heach other (List.mem_cons_of_mem _ hother)

theorem inv_getMessage {s : State} (h : Inv s) : Inv (getMessage s) := by
  cases hd : s.downstream with
  | some d =>
    obtain ⟨hvalid, hflag⟩ := h.memory d hd
    simp only [getMessage, hd]
    exact inv_readMessage h.fault hvalid hflag
  | none =>
    by_cases hrec : s.needRecovery = true
    · have hvalid := (h.asleep hd hrec).2.1
      simp only [getMessage, hd, hrec, if_true, h.resumeOnce hd hrec]
      exact inv_readMessage h.fault hvalid fun _ => rfl
    · simpa only [getMessage, hd, if_neg hrec] using h

theorem inv_sleep {s : State} (h : Inv s) (hsave : ∀ d, s.downstream = some d → Saveable d) : Inv (sleep s) := by
  cases hd : s.downstream with
  | some d =>
    have hvalid := (h.memory d hd).1
    simp only [sleep, hd, hvalid.save (hsave d hd) s.area]
    refine ⟨h.fault, fun _ hsome => absurd hsome (by simp), fun _ _ => ⟨rfl, hvalid, hsave d hd, rfl⟩, ?_⟩
    exact fun _ hrec => absurd hrec (by simp)
  | none =>
    simp only [sleep, hd]
    refine ⟨h.fault, fun _ hsome => absurd hsome (by simp), fun _ hrec => ?_, fun _ => h.fresh hd⟩
    obtain ⟨-, hvalid, hsaveable, harea⟩ := h.asleep hd hrec
    exact ⟨rfl, hvalid, hsaveable, harea⟩

theorem inv_cdpInit {s : State} (h : Inv s) : Inv (cdpInit s) := by
  cases hd : s.downstream with
  | some d =>
    obtain ⟨hvalid, hflag⟩ := h.memory d hd
    by_cases hrec : s.needRecovery = true
    · simp only [cdpInit, hd, hrec, if_true, Option.getD_some, resumeOnce, hflag hrec]
      exact inv_of_valid h.fault rfl hvalid fun _ => rfl
    · simp only [cdpInit, hd, if_neg hrec, Option.getD_some]
      exact inv_of_valid h.fault rfl hvalid hflag
  | none =>
    by_cases hrec : s.needRecovery = true
    · have hvalid := (h.asleep hd hrec).2.1
      simp only [cdpInit, hd, hrec, if_true, Option.getD_none, h.resumeOnce hd hrec]
      exact inv_of_valid h.fault rfl hvalid fun _ => rfl
    · have hfresh := h.fresh hd (Bool.eq_false_iff.mpr hrec)
      simp only [cdpInit, hd, if_neg hrec, Option.getD_none]
      refine inv_of_valid h.fault rfl ⟨⟨?_, rfl, Nat.zero_le _, rfl, Nat.zero_le _⟩, ?_, ?_, ?_⟩ fun hn => absurd hn hrec
      · exact hfresh.trans (List.append_nil _).symm
      · exact fun _ hmem => absurd hmem List.not_mem_nil
      · exact ⟨by decide, by decide⟩
      · exact ⟨by decide, by decide⟩

theorem inv_step (action : Action) (s s' : State) (h : Inv s) (hsave : SleepsSaveable action s)
    (hstep : step action s = some s') : Inv s' := by
  have hgo : ¬ s.fault = true := by simp [h.fault]
  unfold step at hstep
  rw [if_neg hgo] at hstep
  cases action with
  | newMessage data =>
    dsimp only at hstep
    split at hstep
    · next hlen =>
      obtain ⟨d, hd, rfl⟩ := Option.map_eq_some_iff.mp hstep
      obtain ⟨hvalid, hflag⟩ := h.memory d hd
      exact inv_of_valid h.fault rfl (valid_newMessage hvalid hlen.2) hflag
    · exact absurd hstep (by simp)
  | getMessage =>
    cases hstep
    exact inv_getMessage h
  | sleep =>
    cases hstep
    exact inv_sleep h hsave
  | cdpInit =>
    cases hstep
    exact inv_cdpInit h

/-- A refused message changes two counters only, and in every run whose sleeps find a buffer that
can be saved, what is read is what was accepted, in order, with the right counters. -/
theorem downstream_exact (data : Message) (d : Downstream) (area : List UInt8) (actions : List Action) :
    (¬ HasRoom data d → newMessageIndication data d =
      { d with receivedNum := increment d.receivedNum, droppedNum := increment d.droppedNum }) ∧
    (Along step SleepsSaveable actions (.init area) → Always step Exact actions (.init area)) := by
  refine ⟨fun h => newMessageIndication_refused h, fun hsave => ?_⟩
  exact always_imp (fun s h => h.exact) (always_of_along inv_step (inv_init area) hsave)

theorem sleepsSaveable_oneMessage :
    Along step SleepsSaveable [.cdpInit, .newMessage [7], .sleep, .getMessage] (.init []) := by
  refine ⟨trivial, fun s hs => ⟨trivial, fun s' hs' => ⟨fun d hd => ?_, fun _ _ => ⟨trivial, fun _ _ => trivial⟩⟩⟩⟩
  cases hs
  cases hs'
  cases hd
  exact ⟨by decide, by decide, .inl (Nat.le_refl 1)⟩

theorem downstream_exact_oneMessage :
    Always step Exact [.cdpInit, .newMessage [7], .sleep, .getMessage] (.init []) :=
  (downstream_exact [7] ⟨0, 0, 0, 0, []⟩ [] _).2 sleepsSaveable_oneMessage

/-! ### Two messages of which the newer one is too long for its slot -/

def longMessage : Message := List.replicate 1100 0x55

def twoMessages (data : Message) : Downstream := ⟨2, 2, 0, 1101, [[7], data]⟩

/-- The newer message overwrites the length of the older one. -/
theorem word_twoMessages (buf : List UInt8) :
    word (splice buf 0 (record longMessage)) streamInfoSize = 0x55555555 := by
  have hsplit : record longMessage =
      (leBytes 1100 ++ List.replicate 1024 0x55) ++ (List.replicate 4 0x55 ++ List.replicate 72 0x55) := by
    simp only [record, longMessage, List.length_replicate, List.append_assoc, List.replicate_append_replicate]
    rfl
  have hall : Holds (splice buf 0 (record longMessage)) 0 (record longMessage) := holds_splice (Nat.zero_le _)
  rw [hsplit] at hall
  have hword := (holds_append.mp (holds_append.mp hall).2).1
  rw [← hsplit] at hword
  simp only [List.length_append, leBytes_length, List.length_replicate] at hword
  rw [Holds, List.length_replicate] at hword
  rw [word, streamInfoSize, ← Nat.zero_add (4 + 1024), hword]
  decide

theorem save_twoMessages (area : List UInt8) : cdpDownbufferedSave (twoMessages longMessage) area = none := by
  have hempty : emptySlots.length = 8224 := List.length_replicate
  have hfirst : 1 * streamInfoSize + (record [7]).length ≤ emptySlots.length := by
    rw [hempty, record_length, streamInfoSize]
    decide
  have hsecond : ∀ buf : List UInt8, buf.length = 8224 → 0 * streamInfoSize + (record longMessage).length ≤ buf.length := by
    intro buf hbuf
    rw [hbuf, record_length, longMessage, List.length_replicate]
    decide
  have hwrite : ∀ area, (unlinkNodes 2 [[7], longMessage] emptySlots).bind
      (fun buf => writeSlots buf 2 0 area) = none := by
    intro area
    have hlen := (splice_length hfirst).trans hempty
    simp only [unlinkNodes, copyIn, if_pos hfirst, Option.bind_some, if_pos (hsecond _ hlen)]
    have hlong : ¬ streamInfoSize + ((0x55555555 : UInt32).toNat + 4) ≤
        (splice (splice emptySlots streamInfoSize (record [7])) 0 (record longMessage)).length := by
      rw [Nat.one_mul] at hlen
      rw [splice_length (by simpa using hsecond _ hlen), hlen]
      decide
    rw [writeSlots, Nat.one_mul, Nat.zero_mul, word_twoMessages, copyOut, if_neg hlong, Option.bind_none]
  rw [cdpDownbufferedSave, if_pos (by decide)]
  exact Option.bind_eq_none_iff.mpr fun area _ => hwrite area

def twoMessagesState (data : Message) : State :=
  { State.init [] with downstream := some (twoMessages data), accepted := [[7], data] }

theorem run_twoMessages {data : Message} (hlen : data.length = 1100) :
    run step [.cdpInit, .newMessage [7], .newMessage data] (.init []) = some (twoMessagesState data) := by
  have hroom : HasRoom data ⟨1, 1, 0, 1, [[7]]⟩ := by
    simp only [HasRoom, hlen]
    decide
  have hfirst : run step [.cdpInit, .newMessage [7]] (.init []) =
      some { State.init [] with downstream := some ⟨1, 1, 0, 1, [[7]]⟩, accepted := [[7]] } := rfl
  have hnew : step (.newMessage data)
      { State.init [] with downstream := some ⟨1, 1, 0, 1, [[7]]⟩, accepted := [[7]] } =
      some (twoMessagesState data) := by
    simp [step, State.init, hlen, newMessage, newMessageIndication, if_pos hroom, twoMessages, twoMessagesState,
      downstreamLenMax, increment]
  refine (run_append step [.cdpInit, .newMessage [7]] [.newMessage data] _).trans ?_
  rw [hfirst, Option.bind_some, run_cons, hnew]
  rfl

theorem not_exact_twoMessages {data : Message} (hlen : data.length = 1100)
    (hsave : cdpDownbufferedSave (twoMessages data) [] = none) :
    ¬ Always step Exact ([.cdpInit, .newMessage [7], .newMessage data] ++ [.sleep]) (.init []) := by
  intro h
  have hsleep : sleep (twoMessagesState data) = fail (twoMessagesState data) := by
    simp only [sleep, twoMessagesState, State.init, hsave]
  have hrun : run step ([.cdpInit, .newMessage [7], .newMessage data] ++ [.sleep]) (.init []) =
      some (fail (twoMessagesState data)) := by
    rw [run_append, run_twoMessages hlen, Option.bind_some, run_cons, ← hsleep]
    rfl
  exact Bool.noConfusion (h 4 (fail (twoMessagesState data)) hrun).1

theorem not_alwaysExact : ¬ ∀ (area : List UInt8) (actions : List Action), Always step Exact actions (.init area) :=
  fun h => not_exact_twoMessages List.length_replicate (save_twoMessages []) (h [] _)

end NbiotXY1100.CdpDownstreamRuns
