import NbiotXY1100.CdpUpstream
import NbiotXY1100.StepRuns
import Mathlib.Data.List.Perm.Subperm

/-! # The uplink counters over runs

Messages are sent, moved on, acknowledged, reported by the air interface and dropped by an
unsubscription in any order. -/
namespace NbiotXY1100.CdpUpstreamRuns
open CdpUpstream StepRuns

/-- `sendMessage` is `send_message_via_lwm2m` from the callers that have no sequence number;
`cdp_send_data` calls it for any. The other actions are named after their functions. -/
inductive Action where
  | sendData (ready memory : Bool) (len : ℕ) (msgType : CdpMsgType) (seqNum : UInt8)
  | sendMessage (memory : Bool) (dataLen : ℕ) (type : CdpMsgType)
  | appDataReport (bufMemory nodeMemory : Bool)
  | observeAppStep (active : Bool)
  | unsubscribe (conSendFlag : Bool)
  | observeHandleAck (i : ℕ) (ackReceived rst : Bool) (retransCounter : ℕ)
  | seqCallback (usIpSn : UInt16) (ucStatus : IpsnStatus) (socCtxId : Option ℕ)
  deriving DecidableEq, Repr

/-- `maxCnt` is that of the report queue, if the queue exists. -/
def State.init (maxCnt : Option ℕ) (nextMID : UInt16) (sendStatus : ℕ) : State :=
  ⟨0, 0, 0, [], maxCnt.map fun n => ⟨n, []⟩, [], nextMID, [], sendStatus, [], [], 0, []⟩

/-- A transaction ends once: it leaves the list. -/
def step : Action → State → Option State
  | .sendData ready memory len msgType seqNum, s => some (cdpSendData ready memory len msgType seqNum s).2
  | .sendMessage memory dataLen type, s => some (sendMessageViaLwm2m memory dataLen type 0 s).2
  | .appDataReport bufMemory nodeMemory, s => some (appDataReport bufMemory nodeMemory s)
  | .observeAppStep active, s => some (observeAppStep active s)
  | .unsubscribe conSendFlag, s => some (unsubscribe conSendFlag s)
  | .observeHandleAck i ackReceived rst retransCounter, s =>
    s.transactions[i]?.map fun transaction =>
      observeHandleAck ackReceived rst retransCounter transaction { s with transactions := s.transactions.eraseIdx i }
  | .seqCallback usIpSn ucStatus socCtxId, s => some (seqCallback usIpSn ucStatus socCtxId s)

def reports (s : State) : List DataReport := (s.rptList.map (·.nodes)).getD []

/-- The messages that are queued or in flight. -/
def places (s : State) : List ℕ :=
  s.upstream.map (·.index) ++ (reports s).map (·.index) ++ s.transactions.map (·.index) ++ s.air

/-- The accepted messages that are confirmable or have a sequence number, and whose outcome has not
been counted. -/
def waiting (s : State) : List ℕ :=
  (List.range s.accepted.length).filter fun i =>
    (s.accepted[i]?.any fun m => !m.1.isNon || m.2 ≠ 0) && i ∉ s.counted

structure Accounted (s : State) : Prop where
  pending : s.pendingNum = (waiting s).length
  nonneg : 0 ≤ s.pendingNum
  atMostOnce : s.counted.Nodup
  finished : ∀ i < s.accepted.length, i ∉ places s → i ∈ s.counted
  counters : s.sentNum + s.errorNum = s.refused + s.counted.length
  idle : places s = [] → s.pendingNum = 0

/-- The message is handed on, or its outcome is counted already. A report that an unsubscription
drops is counted only if it is confirmable and its sequence number belongs to a message that is not. -/
def Kept : Action → State → Prop
  | .appDataReport bufMemory nodeMemory, s =>
    ∀ head ∈ s.upstream.head?,
      (atinyDataReport bufMemory nodeMemory head.report s.rptList).1 = .ok ∨ head.index ∈ s.counted
  | .observeAppStep active, s => active ∨ ∀ data ∈ (reports s).head?, data.index ∈ s.counted
  | .unsubscribe _, s =>
    ∀ data ∈ reports s, (data.callback ∧ cdpCheckConNode data.cookie s.cdpSnInfo = false) ∨ data.index ∈ s.counted
  | _, _ => True

/-! ### The outcomes that are still to come -/

/-- The messages that some callback is still to count. -/
def owed (s : State) : List ℕ :=
  (s.upstream.filter (!·.type.isNon)).map (·.index) ++ ((reports s).filter (·.callback)).map (·.index) ++
    s.transactions.map (·.index) ++ (s.cdpSnInfo.filter (·.msgType.isNon)).map (·.index)

/-- What holds whether or not messages are lost. -/
structure Traced (s : State) : Prop where
  apart : (places s).Nodup
  once : (s.counted ++ owed s).Nodup
  bound : ∀ i ∈ places s ++ (s.counted ++ owed s), i < s.accepted.length
  queued : ∀ m ∈ s.upstream, m.type.isNon → m.seqNum = 0 → m.index ∈ s.counted
  reported : ∀ r ∈ reports s, r.callback = false → r.cookie = 0 → r.index ∈ s.counted
  numbers : (s.cdpSnInfo.map (·.sequence)).Nodup
  silent : ∀ i m, s.accepted[i]? = some m → m.1.isNon → m.2 = 0 → i ∈ s.counted
  pending : s.pendingNum = s.accepted.length - s.counted.length
  counters : s.sentNum + s.errorNum = s.refused + s.counted.length

/-- Each message is still somewhere or was counted. -/
def NoneLost (s : State) : Prop := ∀ i < s.accepted.length, i ∈ places s ∨ i ∈ s.counted

theorem Traced.counted_nodup {s : State} (h : Traced s) : s.counted.Nodup := h.once.of_append_left

theorem Traced.counted_subset {s : State} (h : Traced s) : s.counted ⊆ List.range s.accepted.length := by
  intro i hi
  apply List.mem_range.mpr
  apply h.bound
  simp [hi]

theorem Traced.waiting_eq {s : State} (h : Traced s) :
    waiting s = (List.range s.accepted.length).filter (· ∉ s.counted) := by
  apply List.filter_congr
  intro i hi
  rw [List.mem_range] at hi
  by_cases hc : i ∈ s.counted
  · simp [hc]
  · rw [List.getElem?_eq_getElem hi]
    have hsilent := h.silent i _ (List.getElem?_eq_getElem hi)
    cases hnon : s.accepted[i].1.isNon with
    | false => simp [hc, hnon]
    | true =>
      have : s.accepted[i].2 ≠ 0 := fun h0 => hc (hsilent hnon h0)
      simp [hc, this]

theorem Traced.pending_eq {s : State} (h : Traced s) : s.pendingNum = (waiting s).length := by
  have hsplit := List.length_eq_length_filter_add (l := List.range s.accepted.length) (· ∈ s.counted)
  have hperm : ((List.range s.accepted.length).filter (· ∈ s.counted)).Perm s.counted := by
    apply (List.perm_ext_iff_of_nodup (List.nodup_range.filter _) h.counted_nodup).mpr
    intro i
    simp only [List.mem_filter, decide_eq_true_eq]
    exact ⟨And.right, fun hi => ⟨h.counted_subset hi, hi⟩⟩
  have hlen := hperm.length_eq
  rw [h.pending, h.waiting_eq]
  simp only [List.length_range, decide_not] at hsplit ⊢
  omega

theorem accounted_iff {s : State} (h : Traced s) : Accounted s ↔ NoneLost s := by
  constructor
  · intro ha i hi
    have := ha.finished i hi
    tauto
  · intro hlost
    have hpending := h.pending_eq
    refine ⟨hpending, by omega, h.counted_nodup, ?_, h.counters, ?_⟩
    · intro i hi hnot
      have := hlost i hi
      tauto
    · intro hempty
      have hnil : waiting s = [] := by
        rw [h.waiting_eq]
        apply List.filter_eq_nil_iff.mpr
        intro i hi
        have := hlost i (List.mem_range.mp hi)
        simpa [hempty] using this
      rw [hpending, hnil]
      rfl

/-! ### Places change -/

/-- Messages move on, or leave without an outcome. -/
theorem Traced.move {s t : State} (h : Traced s) (hplaces : (places t).Subperm (places s))
    (howed : (owed t).Subperm (owed s)) (hupstream : t.upstream ⊆ s.upstream)
    (hreports : ∀ r ∈ reports t, r.callback = false → r.cookie = 0 → r.index ∈ s.counted)
    (hinfo : t.cdpSnInfo.Sublist s.cdpSnInfo) (haccepted : t.accepted = s.accepted) (hcounted : t.counted = s.counted)
    (hrefused : t.refused = s.refused) (hpending : t.pendingNum = s.pendingNum) (hsent : t.sentNum = s.sentNum)
    (herror : t.errorNum = s.errorNum) : Traced t := by
  have hall : (t.counted ++ owed t).Subperm (s.counted ++ owed s) := by
    rw [hcounted]
    exact (List.Subperm.refl _).append howed
  constructor
  · obtain ⟨l, hl, hsub⟩ := hplaces
    exact hl.nodup_iff.mp (h.apart.sublist hsub)
  · obtain ⟨l, hl, hsub⟩ := hall
    exact hl.nodup_iff.mp (h.once.sublist hsub)
  · intro i hi
    rw [haccepted]
    apply h.bound
    exact (hplaces.append hall).subset hi
  · intro m hm
    rw [hcounted]
    exact h.queued m (hupstream hm)
  · rwa [hcounted]
  · exact h.numbers.sublist (hinfo.map _)
  · rw [haccepted, hcounted]
    exact h.silent
  · rw [hpending, haccepted, hcounted, h.pending]
  · rw [hsent, herror, hrefused, hcounted, h.counters]

/-! ### Outcomes are counted -/

/-- What `ack_callback` changes, when it counts the outcomes of these messages. -/
structure Counts (indexes : List ℕ) (s t : State) : Prop where
  eq : t = { s with
    pendingNum := s.pendingNum - indexes.length
    sentNum := t.sentNum
    errorNum := t.errorNum
    sendStatus := t.sendStatus
    counted := s.counted ++ indexes }
  sum : t.sentNum + t.errorNum = s.sentNum + s.errorNum + indexes.length

theorem Counts.none (s : State) : Counts [] s s := ⟨by simp, by simp⟩

theorem Counts.append {is js : List ℕ} {s t u : State} (h : Counts is s t) (h' : Counts js t u) :
    Counts (is ++ js) s u := by
  constructor
  · rw [h'.eq, h.eq]
    simp only [List.length_append, List.append_assoc, Int.natCast_add]
    congr 1
    omega
  · have hsum := h.sum
    have hsum' := h'.sum
    rw [List.length_append]
    omega

theorem Traced.count {is : List ℕ} {s t : State} (h : Traced s) (hcounts : Counts is s t)
    (honce : (is ++ (s.counted ++ owed s)).Nodup) (hbound : ∀ i ∈ is, i < s.accepted.length) : Traced t := by
  have heq := hcounts.eq
  have hcounted : t.counted = s.counted ++ is := by rw [heq]
  have haccepted : t.accepted = s.accepted := by rw [heq]
  have hplaces : places t = places s := by rw [heq]; rfl
  have howed : owed t = owed s := by rw [heq]; rfl
  have hperm : (is ++ (s.counted ++ owed s)).Perm (t.counted ++ owed t) := by
    rw [hcounted, howed, ← List.append_assoc]
    exact List.perm_append_comm.append_right _
  constructor
  · rw [hplaces]
    exact h.apart
  · exact hperm.nodup_iff.mp honce
  · intro i hi
    rw [haccepted]
    rw [hplaces, hcounted, howed] at hi
    by_cases his : i ∈ is
    · exact hbound i his
    · apply h.bound
      simpa [his] using hi
  · intro m hm hnon h0
    rw [heq] at hm
    rw [hcounted]
    exact List.mem_append_left _ (h.queued m hm hnon h0)
  · intro r hr hcallback h0
    rw [heq] at hr
    rw [hcounted]
    exact List.mem_append_left _ (h.reported r hr hcallback h0)
  · rw [heq]
    exact h.numbers
  · intro i m hm hnon h0
    rw [haccepted] at hm
    rw [hcounted]
    exact List.mem_append_left _ (h.silent i m hm hnon h0)
  · have hpending : t.pendingNum = s.pendingNum - is.length := by rw [heq]
    rw [hpending, haccepted, hcounted, h.pending, List.length_append]
    omega
  · have hrefused : t.refused = s.refused := by rw [heq]
    have hsum := hcounts.sum
    have hcounters := h.counters
    rw [hrefused, hcounted, List.length_append]
    omega

def IsOutcome (status : DataSendStatus) : Prop :=
  status = .sentSuccess ∨ status = .sentTimeOut ∨ status = .sentFail ∨ status = .sentGetRst

theorem ackCallback_counts {status : DataSendStatus} (h : IsOutcome status) (index : ℕ) (cookie : UInt8) (mid : ℤ)
    (s : State) :
    Counts (if mid = -1 ∧ cdpCheckConNode cookie s.cdpSnInfo then [] else [index]) s
      (ackCallback index cookie status mid s) := by
  by_cases hskip : mid = -1 ∧ cdpCheckConNode cookie s.cdpSnInfo
  · rw [ackCallback.eq_def, if_pos hskip, if_pos hskip]
    exact Counts.none s
  · rw [ackCallback.eq_def, if_neg hskip, if_neg hskip]
    rcases h with rfl | rfl | rfl | rfl <;> constructor
    · by_cases hmid : mid = -1 <;> by_cases h5 : s.sendStatus = 5 <;> simp [hmid, h5]
    · by_cases hmid : mid = -1 <;> by_cases h5 : s.sendStatus = 5 <;> simp [hmid, h5] <;> omega
    all_goals by_cases hmid : mid = -1 <;> simp [hmid] <;> omega

theorem isOutcome_ackStatus (ackReceived rst : Bool) (retransCounter : ℕ) :
    IsOutcome (ackStatus ackReceived rst retransCounter) := by
  unfold ackStatus IsOutcome
  split_ifs <;> simp

theorem isOutcome_sentFail : IsOutcome .sentFail := Or.inr (Or.inr (Or.inl rfl))

theorem isOutcome_airStatus (ucStatus : IpsnStatus) : IsOutcome (airStatus ucStatus) := by
  cases ucStatus
  · exact Or.inr (Or.inl rfl)
  · exact Or.inl rfl

/-! ### Messages are accepted -/

def enqueue (b : Buffer) (sendStatus : ℕ) (s : State) : State :=
  let counted := if b.type.isNon ∧ b.seqNum = 0 then [b.index] else []
  { s with
    pendingNum := s.pendingNum + 1 - counted.length
    sentNum := s.sentNum + counted.length
    upstream := s.upstream ++ [b]
    sendStatus := sendStatus
    accepted := s.accepted ++ [(b.type, b.seqNum)]
    counted := s.counted ++ counted }

theorem sendMessageViaLwm2m_cases (memory : Bool) (dataLen : ℕ) (type : CdpMsgType) (seqNum : UInt8) (s : State) :
    dataLen = 0 ∧ sendMessageViaLwm2m memory dataLen type seqNum s = (true, s) ∨
    sendMessageViaLwm2m memory dataLen type seqNum s =
      (false, { s with errorNum := s.errorNum + 1, refused := s.refused + 1 }) ∨
    ∃ sendStatus, sendMessageViaLwm2m memory dataLen type seqNum s =
      (true, enqueue ⟨dataLen, type, seqNum, s.accepted.length⟩ sendStatus s) := by
  by_cases hlen : dataLen = 0
  · left
    exact ⟨hlen, if_pos hlen⟩
  · right
    rw [sendMessageViaLwm2m, if_neg hlen]
    by_cases hfull : s.pendingNum ≥ dataListMaxLen ∨ memory = false
    · left
      rw [if_pos hfull]
    · right
      rw [if_neg hfull]
      cases hnon : type.isNon with
      | false => exact ⟨1, by simp [enqueue, hnon]⟩
      | true =>
        by_cases h0 : seqNum = 0
        · exact ⟨s.sendStatus, by simp [enqueue, hnon, h0]⟩
        · exact ⟨s.sendStatus, by simp [enqueue, hnon, h0]⟩

theorem Traced.fresh {s : State} (h : Traced s) : s.accepted.length ∉ places s ++ (s.counted ++ owed s) := by
  intro hmem
  have := h.bound _ hmem
  omega

theorem Traced.enqueued {s : State} (h : Traced s) {b : Buffer} (hindex : b.index = s.accepted.length) (sendStatus : ℕ) :
    Traced (enqueue b sendStatus s) := by
  have hfresh := hindex ▸ h.fresh
  have hplaces : (places (enqueue b sendStatus s)).Perm (b.index :: places s) := by
    apply List.perm_iff_count.mpr
    intro i
    simp [places, reports, enqueue, List.count_cons]
    omega
  have hall : ((enqueue b sendStatus s).counted ++ owed (enqueue b sendStatus s)).Subperm
      (b.index :: (s.counted ++ owed s)) := by
    apply List.subperm_iff_count.mpr
    intro i
    cases hnon : b.type.isNon with
    | false =>
      simp [owed, reports, enqueue, List.count_cons, hnon]
      omega
    | true =>
      by_cases h0 : b.seqNum = 0
      · simp [owed, reports, enqueue, List.count_cons, hnon, h0]
        omega
      · simp [owed, reports, enqueue, List.count_cons, hnon, h0]
  have hlen : (enqueue b sendStatus s).accepted.length = s.accepted.length + 1 := by
    simp [enqueue]
  constructor
  · refine hplaces.nodup_iff.mpr (List.nodup_cons.mpr ⟨fun hmem => hfresh ?_, h.apart⟩)
    exact List.mem_append_left _ hmem
  · obtain ⟨l, hl, hsub⟩ := hall
    refine hl.nodup_iff.mp (List.Nodup.sublist hsub (List.nodup_cons.mpr ⟨fun hmem => hfresh ?_, h.once⟩))
    exact List.mem_append_right _ hmem
  · intro i hi
    rw [hlen]
    rcases List.mem_append.mp hi with hi | hi
    · rcases List.mem_cons.mp (hplaces.subset hi) with rfl | hi
      · omega
      · have := h.bound i (List.mem_append_left _ hi)
        omega
    · rcases List.mem_cons.mp (hall.subset hi) with rfl | hi
      · omega
      · have := h.bound i (List.mem_append_right _ hi)
        omega
  · intro m hm hnon h0
    rcases List.mem_append.mp hm with hm | hm
    · exact List.mem_append_left _ (h.queued m hm hnon h0)
    · rw [List.mem_singleton] at hm
      subst hm
      simp [enqueue, hnon, h0]
  · intro r hr hcallback h0
    exact List.mem_append_left _ (h.reported r hr hcallback h0)
  · exact h.numbers
  · intro i m hm hnon h0
    change (s.accepted ++ [(b.type, b.seqNum)])[i]? = some m at hm
    rcases Nat.lt_or_ge i s.accepted.length with hi | hi
    · rw [List.getElem?_append_left hi] at hm
      exact List.mem_append_left _ (h.silent i m hm hnon h0)
    · rw [List.getElem?_append_right hi, List.getElem?_singleton] at hm
      split_ifs at hm with hlast
      cases hm
      apply List.mem_append_right
      rw [if_pos ⟨hnon, h0⟩, hindex, List.mem_singleton]
      omega
  · have hpending := h.pending
    simp only [enqueue, List.length_append, List.length_singleton]
    omega
  · have hcounters := h.counters
    simp only [enqueue, List.length_append]
    omega

theorem NoneLost.enqueued {s : State} (h : NoneLost s) {b : Buffer} (hindex : b.index = s.accepted.length)
    (sendStatus : ℕ) : NoneLost (enqueue b sendStatus s) := by
  intro i hi
  simp only [enqueue, List.length_append, List.length_singleton] at hi
  rcases Nat.lt_succ_iff_lt_or_eq.mp hi with hi | hi
  · rcases h i hi with hmem | hmem
    · left
      simp only [places, List.mem_append] at hmem
      simp only [places, reports, enqueue, List.map_append, List.mem_append]
      tauto
    · right
      exact List.mem_append_left _ hmem
  · left
    simp [places, enqueue, hindex, hi]

theorem Traced.refuse {s : State} (h : Traced s) :
    Traced { s with errorNum := s.errorNum + 1, refused := s.refused + 1 } := by
  refine ⟨h.apart, h.once, h.bound, h.queued, h.reported, h.numbers, h.silent, h.pending, ?_⟩
  have hcounters := h.counters
  dsimp only
  omega

theorem Traced.sendStatus {s : State} (h : Traced s) (sendStatus : ℕ) : Traced { s with sendStatus := sendStatus } :=
  ⟨h.apart, h.once, h.bound, h.queued, h.reported, h.numbers, h.silent, h.pending, h.counters⟩

/-- A message is refused or queued, and none is lost. -/
theorem sendMessageViaLwm2m_traced (memory : Bool) (dataLen : ℕ) (type : CdpMsgType) (seqNum : UInt8) {s : State}
    (h : Traced s) (hlost : NoneLost s) :
    Traced (sendMessageViaLwm2m memory dataLen type seqNum s).2 ∧
      NoneLost (sendMessageViaLwm2m memory dataLen type seqNum s).2 := by
  rcases sendMessageViaLwm2m_cases memory dataLen type seqNum s with ⟨-, heq⟩ | heq | ⟨sendStatus, heq⟩
  · rw [heq]
    exact ⟨h, hlost⟩
  · rw [heq]
    exact ⟨h.refuse, hlost⟩
  · rw [heq]
    exact ⟨h.enqueued rfl sendStatus, hlost.enqueued rfl sendStatus⟩

theorem cdpFindMatchUdpNode_false {sequence : UInt8} {info : List SnInfo} (h0 : sequence ≠ 0)
    (h : cdpFindMatchUdpNode sequence info = false) : sequence ∉ info.map (·.sequence) := by
  simpa [cdpFindMatchUdpNode, h0] using h

/-- The number of a message that was just queued is registered. -/
theorem Traced.register {s : State} (h : Traced s) {b : Buffer} (hindex : b.index = s.accepted.length)
    (hfree : cdpFindMatchUdpNode b.seqNum s.cdpSnInfo = false) (sendStatus : ℕ) {t : State}
    (ht : t = { enqueue b sendStatus s with
      cdpSnInfo := cdpAddSninfoNode b.seqNum b.type b.index s.cdpSnInfo }) : Traced t := by
  have htraced := h.enqueued hindex sendStatus
  by_cases h0 : b.seqNum = 0
  · rw [cdpAddSninfoNode, if_pos h0] at ht
    rw [ht]
    exact htraced
  · rw [cdpAddSninfoNode, if_neg h0] at ht
    have hfresh := hindex ▸ h.fresh
    have hplaces : places t = places (enqueue b sendStatus s) := by rw [ht]; rfl
    have hall : (t.counted ++ owed t).Perm (b.index :: (s.counted ++ owed s)) := by
      apply List.perm_iff_count.mpr
      intro i
      cases hnon : b.type.isNon with
      | false =>
        simp [ht, owed, reports, enqueue, List.count_cons, hnon]
        omega
      | true =>
        simp [ht, owed, reports, enqueue, List.count_cons, hnon, h0]
        omega
    have hlen : t.accepted.length = s.accepted.length + 1 := by simp [ht, enqueue]
    constructor
    · rw [hplaces]
      exact htraced.apart
    · refine hall.nodup_iff.mpr (List.nodup_cons.mpr ⟨fun hmem => hfresh ?_, h.once⟩)
      exact List.mem_append_right _ hmem
    · intro i hi
      rw [hlen]
      rcases List.mem_append.mp hi with hi | hi
      · have := htraced.bound i (List.mem_append_left _ (hplaces ▸ hi))
        simpa [enqueue] using this
      · rcases List.mem_cons.mp (hall.subset hi) with rfl | hi
        · omega
        · have := h.bound i (List.mem_append_right _ hi)
          omega
    · rw [ht]
      exact htraced.queued
    · rw [ht]
      exact htraced.reported
    · rw [ht, List.map_append]
      apply List.nodup_append.mpr
      refine ⟨h.numbers, List.nodup_singleton _, fun a ha a' ha' heq => ?_⟩
      rw [List.map_singleton, List.mem_singleton] at ha'
      subst heq
      rw [ha'] at ha
      exact cdpFindMatchUdpNode_false h0 hfree ha
    · rw [ht]
      exact htraced.silent
    · rw [ht]
      exact htraced.pending
    · rw [ht]
      exact htraced.counters

theorem cdpSendData_traced (ready memory : Bool) (len : ℕ) (msgType : CdpMsgType) (seqNum : UInt8) {s : State}
    (h : Traced s) (hlost : NoneLost s) :
    Traced (cdpSendData ready memory len msgType seqNum s).2 ∧
      NoneLost (cdpSendData ready memory len msgType seqNum s).2 := by
  by_cases hlen : len > maxReportDataLen ∨ len = 0
  · rw [cdpSendData, if_pos hlen]
    exact ⟨h, hlost⟩
  rw [cdpSendData, if_neg hlen]
  cases hfind : cdpFindMatchUdpNode seqNum s.cdpSnInfo with
  | true => exact ⟨h, hlost⟩
  | false =>
    rw [if_neg Bool.false_ne_true]
    by_cases hready : ready = false
    · rw [if_pos hready]
      exact ⟨h, hlost⟩
    rw [if_neg hready]
    by_cases hfull : s.pendingNum ≥ 8
    · rw [if_pos hfull]
      exact ⟨h, hlost⟩
    rw [if_neg hfull]
    have h' := h.sendStatus 0
    rcases sendMessageViaLwm2m_cases memory len msgType seqNum { s with sendStatus := 0 } with
      ⟨h0, -⟩ | heq | ⟨sendStatus, heq⟩
    · exact absurd (Or.inr h0) hlen
    · rw [heq]
      exact ⟨h'.refuse, hlost⟩
    · rw [heq]
      refine ⟨h'.register rfl hfind sendStatus rfl, ?_⟩
      exact hlost.enqueued rfl sendStatus

/-! ### Messages move on -/

/-- When the messages `is` leave their places, none is lost exactly when their outcomes are counted. -/
theorem noneLost_iff {s t : State} (h : Traced s) (hlost : NoneLost s) (is : List ℕ)
    (hplaces : (places s).Perm (is ++ places t)) (haccepted : t.accepted = s.accepted)
    (hcounted : s.counted ⊆ t.counted) : NoneLost t ↔ ∀ i ∈ is, i ∈ t.counted := by
  have hnodup := hplaces.nodup_iff.mp h.apart
  constructor
  · intro ht i hi
    have hbound : i < t.accepted.length := by
      rw [haccepted]
      exact h.bound i (List.mem_append_left _ (hplaces.symm.subset (List.mem_append_left _ hi)))
    rcases ht i hbound with hmem | hmem
    · exact absurd hmem (List.disjoint_of_nodup_append hnodup hi)
    · exact hmem
  · intro his i hi
    rw [haccepted] at hi
    rcases hlost i hi with hmem | hmem
    · rcases List.mem_append.mp (hplaces.subset hmem) with hmem | hmem
      · exact Or.inr (his i hmem)
      · exact Or.inl hmem
    · exact Or.inr (hcounted hmem)

/-- The message is at the end of the list `l` after it was queued. -/
def Appended (data : DataReport) (rptList : Option RptList) (result : AtinyResult × Option RptList) : Prop :=
  result.1 = .ok ∧ ∃ l, rptList = some l ∧ result.2 = some { l with nodes := l.nodes ++ [data] }

theorem atinyQueueRptData_cases (memory : Bool) (data : DataReport) (rptList : Option RptList) :
    Appended data rptList (atinyQueueRptData memory data rptList) ∨
    ((atinyQueueRptData memory data rptList).1 ≠ .ok ∧ (atinyQueueRptData memory data rptList).2 = rptList) := by
  cases rptList with
  | none => simp [atinyQueueRptData]
  | some l =>
    rw [atinyQueueRptData]
    split_ifs
    · simp
    · simp
    · exact Or.inl ⟨rfl, l, rfl, rfl⟩

theorem atinyDataReport_cases (bufMemory nodeMemory : Bool) (data : DataReport) (rptList : Option RptList) :
    Appended data rptList (atinyDataReport bufMemory nodeMemory data rptList) ∨
    ((atinyDataReport bufMemory nodeMemory data rptList).1 ≠ .ok ∧
      (atinyDataReport bufMemory nodeMemory data rptList).2 = rptList) := by
  rw [atinyDataReport]
  split_ifs
  · simp
  · simp
  · exact atinyQueueRptData_cases nodeMemory data rptList

theorem appDataReport_traced (bufMemory nodeMemory : Bool) {s : State} (h : Traced s) (hlost : NoneLost s) :
    Traced (appDataReport bufMemory nodeMemory s) ∧
      (NoneLost (appDataReport bufMemory nodeMemory s) ↔ Kept (.appDataReport bufMemory nodeMemory) s) := by
  cases hup : s.upstream with
  | nil => simp [appDataReport, hup, Kept, h, hlost]
  | cons head next =>
    have hnext : next ⊆ s.upstream := hup ▸ List.subset_cons_self head next
    have hkept : Kept (.appDataReport bufMemory nodeMemory) s ↔
        (atinyDataReport bufMemory nodeMemory head.report s.rptList).1 = .ok ∨ head.index ∈ s.counted := by
      simp [Kept, hup]
    rw [hkept]
    have heq : appDataReport bufMemory nodeMemory s = { s with
        upstream := next
        rptList := (atinyDataReport bufMemory nodeMemory head.report s.rptList).2 } := by
      rw [appDataReport, hup]
    rcases atinyDataReport_cases bufMemory nodeMemory head.report s.rptList with ⟨hok, l, hl, hres⟩ | ⟨hfail, hres⟩
    · rw [heq, hres]
      set t : State := { s with upstream := next, rptList := some { l with nodes := l.nodes ++ [head.report] } } with ht
      have hplaces : (places s).Perm (places t) := by
        apply List.perm_iff_count.mpr
        intro i
        simp [ht, places, reports, hup, hl, Buffer.report, List.count_cons]
        omega
      have howed : (owed s).Perm (owed t) := by
        apply List.perm_iff_count.mpr
        intro i
        cases hnon : head.type.isNon <;>
          simp [ht, owed, reports, hup, hl, Buffer.report, List.count_cons, hnon]
        omega
      constructor
      · apply h.move hplaces.symm.subperm howed.symm.subperm hnext ?_ (List.Sublist.refl _) <;> try rfl
        intro r hr hcallback h0
        rcases List.mem_append.mp hr with hr | hr
        · exact h.reported r (by simpa [reports, hl] using hr) hcallback h0
        · rw [List.mem_singleton] at hr
          subst hr
          exact h.queued head (by simp [hup]) (by simpa [Buffer.report] using hcallback) h0
      · have := noneLost_iff h hlost (t := t) [] hplaces rfl (List.Subset.refl _)
        simpa [hok] using this
    · rw [heq, hres]
      set t : State := { s with upstream := next } with ht
      have hplaces : places s = head.index :: places t := by simp [ht, places, reports, hup]
      have howed : (owed t).Sublist (owed s) := by
        simp only [owed, hup, List.append_assoc]
        apply List.Sublist.append_right
        exact ((List.sublist_cons_self head next).filter _).map _
      constructor
      · apply h.move ?_ howed.subperm hnext h.reported (List.Sublist.refl _) <;> try rfl
        rw [hplaces]
        exact (List.sublist_cons_self _ _).subperm
      · have := noneLost_iff h hlost (t := t) [head.index] (hplaces ▸ List.Perm.refl _) rfl (List.Subset.refl _)
        simpa [hfail] using this

theorem atinyDequeueRptData_some {s : State} {data : DataReport} {l : RptList}
    (h : atinyDequeueRptData s.rptList = some (data, l)) : s.rptList = some { l with nodes := data :: l.nodes } := by
  obtain ⟨⟨maxCnt, nodes⟩, hlist⟩ : ∃ l, s.rptList = some l := by
    cases hnone : s.rptList with
    | none => simp [hnone, atinyDequeueRptData] at h
    | some l => exact ⟨l, rfl⟩
  cases nodes with
  | nil => simp [hlist, atinyDequeueRptData] at h
  | cons data' nodes =>
    simp only [hlist, atinyDequeueRptData, Option.some.injEq, Prod.mk.injEq] at h
    obtain ⟨rfl, rfl⟩ := h
    exact hlist

theorem atinyDequeueRptData_none {s : State} (h : atinyDequeueRptData s.rptList = none) : reports s = [] := by
  cases hlist : s.rptList with
  | none => simp [reports, hlist]
  | some l =>
    obtain ⟨maxCnt, nodes⟩ := l
    cases nodes with
    | nil => simp [reports, hlist]
    | cons data nodes => simp [hlist, atinyDequeueRptData] at h

theorem observeAppStep_traced (active : Bool) {s : State} (h : Traced s) (hlost : NoneLost s) :
    Traced (observeAppStep active s) ∧ (NoneLost (observeAppStep active s) ↔ Kept (.observeAppStep active) s) := by
  cases hdequeue : atinyDequeueRptData s.rptList with
  | none =>
    have hnil := atinyDequeueRptData_none hdequeue
    simp [observeAppStep, hdequeue, Kept, hnil, h, hlost]
  | some d =>
    obtain ⟨data, l⟩ := d
    have hlist := atinyDequeueRptData_some hdequeue
    have hcons : reports s = data :: l.nodes := by simp [reports, hlist]
    have hmem : data ∈ reports s := by simp [hcons]
    have hkept : Kept (.observeAppStep active) s ↔ active ∨ data.index ∈ s.counted := by simp [Kept, hcons]
    rw [hkept]
    have hrest : ∀ r ∈ l.nodes, r.callback = false → r.cookie = 0 → r.index ∈ s.counted := by
      intro r hr
      exact h.reported r (by simp [hcons, hr])
    -- A message that no callback is to count and that has no number was counted when it was accepted.
    have hdrop : data.callback = false → data.cookie = 0 → data.index ∈ s.counted := h.reported data hmem
    cases active with
    | false =>
      set t : State := { s with rptList := some l } with ht
      have heq : observeAppStep false s = t := by simp [observeAppStep, hdequeue, ht]
      have hplaces : (places s).Perm (data.index :: places t) := by
        apply List.perm_iff_count.mpr
        intro i
        simp [ht, places, hlist, reports, List.count_cons]
        omega
      have howed : (owed t).Subperm (owed s) := by
        apply List.subperm_iff_count.mpr
        intro i
        cases hcallback : data.callback <;> simp [ht, owed, hlist, reports, List.count_cons, hcallback]
      rw [heq]
      constructor
      · apply h.move ?_ howed (List.Subset.refl _) hrest (List.Sublist.refl _) <;> try rfl
        exact (List.sublist_cons_self _ _).subperm.trans hplaces.symm.subperm
      · simpa using noneLost_iff h hlost (t := t) [data.index] hplaces rfl (List.Subset.refl _)
    | true =>
      cases hcallback : data.callback with
      | true =>
        set t : State := { s with
          rptList := some l
          nextMID := s.nextMID + 1
          transactions := s.transactions ++ [⟨s.nextMID, data.cookie, data.index⟩] } with ht
        have heq : observeAppStep true s = t := by simp [observeAppStep, hdequeue, hcallback, ht]
        have hplaces : (places s).Perm (places t) := by
          apply List.perm_iff_count.mpr
          intro i
          simp [ht, places, hlist, reports, List.count_cons]
          omega
        have howed : (owed s).Perm (owed t) := by
          apply List.perm_iff_count.mpr
          intro i
          simp [ht, owed, hlist, reports, List.count_cons, hcallback]
          omega
        rw [heq]
        constructor
        · apply h.move hplaces.symm.subperm howed.symm.subperm (List.Subset.refl _) hrest (List.Sublist.refl _) <;> rfl
        · simpa using noneLost_iff h hlost (t := t) [] hplaces rfl (List.Subset.refl _)
      | false =>
        by_cases h0 : data.cookie = 0
        · set t : State := { s with rptList := some l, nextMID := s.nextMID + 1 } with ht
          have heq : observeAppStep true s = t := by simp [observeAppStep, hdequeue, hcallback, h0, ht]
          have hplaces : (places s).Perm (data.index :: places t) := by
            apply List.perm_iff_count.mpr
            intro i
            simp [ht, places, hlist, reports, List.count_cons]
            omega
          have howed : (owed s).Perm (owed t) := by
            apply List.perm_iff_count.mpr
            intro i
            simp [ht, owed, hlist, reports, hcallback]
          rw [heq]
          constructor
          · apply h.move ?_ howed.symm.subperm (List.Subset.refl _) hrest (List.Sublist.refl _) <;> try rfl
            exact (List.sublist_cons_self _ _).subperm.trans hplaces.symm.subperm
          · have hiff := noneLost_iff h hlost (t := t) [data.index] hplaces rfl (List.Subset.refl _)
            exact iff_of_true (hiff.mpr (by simpa using hdrop hcallback h0)) (Or.inl rfl)
        · set t : State := { s with
            rptList := some l
            nextMID := s.nextMID + 1
            air := s.air ++ [data.index] } with ht
          have heq : observeAppStep true s = t := by simp [observeAppStep, hdequeue, hcallback, h0, ht]
          have hplaces : (places s).Perm (places t) := by
            apply List.perm_iff_count.mpr
            intro i
            simp [ht, places, hlist, reports, List.count_cons]
            omega
          have howed : (owed s).Perm (owed t) := by
            apply List.perm_iff_count.mpr
            intro i
            simp [ht, owed, hlist, reports, hcallback]
          rw [heq]
          constructor
          · apply h.move hplaces.symm.subperm howed.symm.subperm (List.Subset.refl _) hrest (List.Sublist.refl _) <;> rfl
          · simpa using noneLost_iff h hlost (t := t) [] hplaces rfl (List.Subset.refl _)

/-! ### Outcomes -/

/-- The reports whose outcome an unsubscription counts. -/
def clearedReports (s : State) (nodes : List DataReport) : List DataReport :=
  nodes.filter fun data => data.callback && !cdpCheckConNode data.cookie s.cdpSnInfo

theorem clearRptNodes_counts (nodes : List DataReport) (s : State) :
    Counts ((clearedReports s nodes).map (·.index)) s (clearRptNodes .sentFail nodes s) := by
  induction nodes generalizing s with
  | nil => exact Counts.none s
  | cons data nodes ih =>
    rw [clearRptNodes]
    cases hcallback : data.callback with
    | false =>
      have := ih s
      simpa [clearedReports, hcallback] using this
    | true =>
      have hack := ackCallback_counts isOutcome_sentFail data.index data.cookie (-1) s
      have hrest := ih (ackCallback data.index data.cookie .sentFail (-1) s)
      have hinfo : (ackCallback data.index data.cookie .sentFail (-1) s).cdpSnInfo = s.cdpSnInfo := by rw [hack.eq]
      rw [clearedReports, hinfo] at hrest
      have := hack.append hrest
      cases hcheck : cdpCheckConNode data.cookie s.cdpSnInfo <;>
        simpa [clearedReports, hcallback, hcheck] using this

theorem atinyClearRptData_traced {s : State} (h : Traced s) (hlost : NoneLost s) :
    Traced (atinyClearRptData .sentFail s) ∧
      (NoneLost (atinyClearRptData .sentFail s) ↔ ∀ data ∈ reports s,
        (data.callback ∧ cdpCheckConNode data.cookie s.cdpSnInfo = false) ∨ data.index ∈ s.counted) := by
  cases hlist : s.rptList with
  | none =>
    have hnil : reports s = [] := by simp [reports, hlist]
    rw [atinyClearRptData, hlist]
    exact ⟨h, by simpa [hnil] using hlost⟩
  | some l =>
    have hreports : reports s = l.nodes := by simp [reports, hlist]
    set u : State := { s with rptList := some { l with nodes := [] } } with hu
    have heq : atinyClearRptData .sentFail s = clearRptNodes .sentFail l.nodes u := by rw [atinyClearRptData, hlist]
    rw [heq]
    have hcounts := clearRptNodes_counts l.nodes u
    set t := clearRptNodes .sentFail l.nodes u with ht
    have hplaces : (places s).Perm (l.nodes.map (·.index) ++ places u) := by
      apply List.perm_iff_count.mpr
      intro i
      simp [hu, places, hlist, reports]
      omega
    have howed : (owed s).Perm ((l.nodes.filter (·.callback)).map (·.index) ++ owed u) := by
      apply List.perm_iff_count.mpr
      intro i
      simp [hu, owed, hlist, reports]
      omega
    have hu' : Traced u := by
      apply h.move (t := u) ?_ ?_ (List.Subset.refl _) (by simp [hu, reports]) (List.Sublist.refl _) <;> try rfl
      · exact (List.sublist_append_right _ _).subperm.trans hplaces.symm.subperm
      · exact (List.sublist_append_right _ _).subperm.trans howed.symm.subperm
    have hsub : ((clearedReports u l.nodes).map (·.index)).Sublist ((l.nodes.filter (·.callback)).map (·.index)) := by
      apply List.Sublist.map
      apply List.monotone_filter_right
      intro data hdata
      exact (Bool.and_eq_true_iff.mp hdata).1
    have hplacesT : places t = places u := by rw [hcounts.eq]; rfl
    have hcountedT : t.counted = s.counted ++ (clearedReports u l.nodes).map (·.index) := by rw [hcounts.eq]
    constructor
    · apply hu'.count hcounts
      · have hperm : ((l.nodes.filter (·.callback)).map (·.index) ++ (s.counted ++ owed u)).Perm (s.counted ++ owed s) := by
          rw [← List.append_assoc]
          refine (List.perm_append_comm.append_right _).trans ?_
          rw [List.append_assoc]
          exact howed.symm.append_left _
        exact (hperm.nodup_iff.mpr h.once).sublist (hsub.append_right _)
      · intro i hi
        apply h.bound
        refine List.mem_append_right _ (List.mem_append_right _ (howed.symm.subset ?_))
        exact List.mem_append_left _ (hsub.subset hi)
    · have hiff := noneLost_iff h hlost (t := t) (l.nodes.map (·.index)) (by rwa [hplacesT]) (by rw [hcounts.eq])
        (by rw [hcountedT]; exact List.subset_append_left _ _)
      have hinj := List.inj_on_of_nodup_map (hplaces.nodup_iff.mp h.apart).of_append_left
      rw [hiff, hcountedT, hreports]
      constructor
      · intro hall data hdata
        rcases List.mem_append.mp (hall _ (List.mem_map_of_mem hdata)) with hmem | hmem
        · exact Or.inr hmem
        · left
          obtain ⟨data', hdata', hindex⟩ := List.mem_map.mp hmem
          obtain ⟨hdata', hcheck⟩ := List.mem_filter.mp hdata'
          rw [hinj hdata' hdata hindex] at hcheck
          simpa [hu] using hcheck
      · intro hall i hi
        obtain ⟨data, hdata, rfl⟩ := List.mem_map.mp hi
        rcases hall data hdata with hcheck | hmem
        · apply List.mem_append_right
          apply List.mem_map_of_mem
          apply List.mem_filter.mpr
          exact ⟨hdata, by simpa [hu] using hcheck⟩
        · exact List.mem_append_left _ hmem

theorem unsubscribe_traced (conSendFlag : Bool) {s : State} (h : Traced s) (hlost : NoneLost s) :
    Traced (unsubscribe conSendFlag s) ∧ (NoneLost (unsubscribe conSendFlag s) ↔ Kept (.unsubscribe conSendFlag) s) := by
  cases conSendFlag with
  | false => exact atinyClearRptData_traced h hlost
  | true => exact atinyClearRptData_traced (h.sendStatus 5) hlost

theorem observeHandleAck_traced {s : State} (h : Traced s) (hlost : NoneLost s) {i : ℕ} {transaction : Transaction}
    (hi : s.transactions[i]? = some transaction) (ackReceived rst : Bool) (retransCounter : ℕ) {t : State}
    (ht : t = observeHandleAck ackReceived rst retransCounter transaction
      { s with transactions := s.transactions.eraseIdx i }) : Traced t ∧ NoneLost t := by
  obtain ⟨hlt, hget⟩ := List.getElem?_eq_some_iff.mp hi
  have hperm : s.transactions.Perm (transaction :: s.transactions.eraseIdx i) :=
    hget ▸ (List.getElem_cons_eraseIdx_perm hlt).symm
  set u : State := { s with transactions := s.transactions.eraseIdx i } with hu
  have hplaces : (places s).Perm (transaction.index :: places u) := by
    apply List.perm_iff_count.mpr
    intro j
    have := (hperm.map (·.index)).count_eq j
    simp [hu, places, reports, List.count_cons] at this ⊢
    omega
  have howed : (owed s).Perm (transaction.index :: owed u) := by
    apply List.perm_iff_count.mpr
    intro j
    have := (hperm.map (·.index)).count_eq j
    simp [hu, owed, reports, List.count_cons] at this ⊢
    omega
  have hu' : Traced u := by
    apply h.move (t := u) ?_ ?_ (List.Subset.refl _) h.reported (List.Sublist.refl _) <;> try rfl
    · exact (List.sublist_cons_self _ _).subperm.trans hplaces.symm.subperm
    · exact (List.sublist_cons_self _ _).subperm.trans howed.symm.subperm
  have hcounts := ackCallback_counts (isOutcome_ackStatus ackReceived rst retransCounter) transaction.index
    transaction.cookie transaction.mID.toNat u
  have hmid : ¬ ((transaction.mID.toNat : ℤ) = -1 ∧ cdpCheckConNode transaction.cookie u.cdpSnInfo) := by omega
  rw [if_neg hmid] at hcounts
  change Counts _ u (observeHandleAck ackReceived rst retransCounter transaction u) at hcounts
  rw [← ht] at hcounts
  have hcountedT : t.counted = s.counted ++ [transaction.index] := by rw [hcounts.eq]
  constructor
  · apply hu'.count hcounts
    · have hall : (transaction.index :: (s.counted ++ owed u)).Perm (s.counted ++ owed s) :=
        List.perm_middle.symm.trans (howed.symm.append_left _)
      exact hall.nodup_iff.mpr h.once
    · intro j hj
      rw [List.mem_singleton.mp hj]
      apply h.bound
      exact List.mem_append_left _ (hplaces.symm.subset List.mem_cons_self)
  · have hplacesT : places t = places u := by rw [hcounts.eq]; rfl
    refine (noneLost_iff h hlost [transaction.index] (by rwa [hplacesT]) (by rw [hcounts.eq]) ?_).mpr ?_
    · rw [hcountedT]
      exact List.subset_append_left _ _
    · rw [hcountedT]
      exact List.subset_append_right _ _

/-- The air interface reports on a number in use: the message is counted unless it is confirmable, and
the number is free again. -/
theorem airReport_traced {s : State} (h : Traced s) (hlost : NoneLost s) {seqNum : UInt8} {node : SnInfo}
    (hfind : s.cdpSnInfo.find? (·.sequence = seqNum) = some node) {status : DataSendStatus} (hstatus : IsOutcome status)
    {acked t : State} (hacked : acked = ackCallback node.index seqNum status (-1) s) (ht : t = { acked with
      cdpSnInfo := cdpDelSninfoNode seqNum acked.cdpSnInfo
      air := if node.msgType.isNon then acked.air.erase node.index else acked.air }) : Traced t ∧ NoneLost t := by
  obtain ⟨hseq, before, after, hinfo, hbefore⟩ := List.find?_eq_some_iff_append.mp hfind
  have hnode : node ∈ s.cdpSnInfo := by simp [hinfo]
  have hdel : cdpDelSninfoNode seqNum s.cdpSnInfo = before ++ after := by
    rw [cdpDelSninfoNode, hinfo, List.eraseP_append_right]
    · exact congrArg (before ++ ·) (List.eraseP_cons_of_pos hseq)
    · intro b hb
      simpa using hbefore b hb
  rw [decide_eq_true_eq] at hseq
  have hsub : (before ++ after).Sublist s.cdpSnInfo := by
    rw [hinfo]
    exact (List.sublist_cons_self _ _).append_left _
  have hcounts := ackCallback_counts hstatus node.index seqNum (-1) s
  rw [← hacked] at hcounts
  have hackedInfo : acked.cdpSnInfo = s.cdpSnInfo := by rw [hcounts.eq]
  have hackedAir : acked.air = s.air := by rw [hcounts.eq]
  rw [hackedInfo, hackedAir, hdel] at ht
  cases hnon : node.msgType.isNon with
  | false =>
    have hcheck : cdpCheckConNode seqNum s.cdpSnInfo = true := by
      simp only [cdpCheckConNode, Bool.not_eq_true', List.any_eq_false]
      intro other hother hand
      obtain ⟨hnum, htype⟩ := Bool.and_eq_true_iff.mp hand
      have : other = node := List.inj_on_of_nodup_map h.numbers hother hnode (by simpa [hseq] using hnum)
      rw [this, hnon] at htype
      exact Bool.false_ne_true htype
    have hskip : acked = s := by
      rw [hacked, ackCallback.eq_def, if_pos ⟨rfl, hcheck⟩]
    rw [hskip, hnon, if_neg Bool.false_ne_true] at ht
    have howed : (owed t).Sublist (owed s) := by
      rw [ht]
      exact List.Sublist.append_left ((hsub.filter _).map _) _
    subst ht
    refine ⟨?_, hlost⟩
    exact h.move (List.Subperm.refl _) howed.subperm (List.Subset.refl _) h.reported hsub rfl rfl rfl rfl rfl rfl
  | true =>
    have hcheck : cdpCheckConNode seqNum s.cdpSnInfo = false := by
      simp only [cdpCheckConNode, Bool.not_eq_false', List.any_eq_true]
      exact ⟨node, hnode, by simp [hseq, hnon]⟩
    rw [if_neg (by simp [hcheck])] at hcounts
    rw [hnon, if_pos rfl] at ht
    set u : State := { s with cdpSnInfo := before ++ after, air := s.air.erase node.index } with hu
    have howed : (owed s).Perm (node.index :: owed u) := by
      apply List.perm_iff_count.mpr
      intro i
      simp [hu, owed, reports, hinfo, hnon, List.count_cons]
      omega
    have hu' : Traced u := by
      apply h.move (t := u) ?_ ?_ (List.Subset.refl _) h.reported hsub <;> try rfl
      · exact (List.Sublist.append_left List.erase_sublist _).subperm
      · exact (List.sublist_cons_self _ _).subperm.trans howed.symm.subperm
    have hcounts' : Counts [node.index] u t := by
      constructor
      · rw [ht]
        rw [hcounts.eq]
      · rw [ht]
        exact hcounts.sum
    have hcountedT : t.counted = s.counted ++ [node.index] := by rw [hcounts'.eq]
    have hplacesT : places t = places u := by rw [hcounts'.eq]; rfl
    constructor
    · apply hu'.count hcounts'
      · have hall : (node.index :: (s.counted ++ owed u)).Perm (s.counted ++ owed s) :=
          List.perm_middle.symm.trans (howed.symm.append_left _)
        exact hall.nodup_iff.mpr h.once
      · intro j hj
        rw [List.mem_singleton.mp hj]
        apply h.bound
        refine List.mem_append_right _ (List.mem_append_right _ (howed.symm.subset List.mem_cons_self))
    · have hsubset : s.counted ⊆ t.counted := by
        rw [hcountedT]
        exact List.subset_append_left _ _
      by_cases hair : node.index ∈ s.air
      · have hplaces : (places s).Perm ([node.index] ++ places t) := by
          rw [hplacesT]
          exact ((List.perm_cons_erase hair).append_left _).trans List.perm_middle
        refine (noneLost_iff h hlost _ hplaces (by rw [hcounts'.eq]) hsubset).mpr ?_
        rw [hcountedT]
        exact List.subset_append_right _ _
      · -- The report came before the message left the queues, where it stays.
        have hplaces : (places s).Perm ([] ++ places t) := by
          rw [hplacesT, hu, List.erase_of_not_mem hair]
          exact List.Perm.refl _
        exact (noneLost_iff h hlost _ hplaces (by rw [hcounts'.eq]) hsubset).mpr (by simp)

theorem seqCallback_traced (usIpSn : UInt16) (ucStatus : IpsnStatus) (socCtxId : Option ℕ) {s : State} (h : Traced s)
    (hlost : NoneLost s) :
    Traced (seqCallback usIpSn ucStatus socCtxId s) ∧ NoneLost (seqCallback usIpSn ucStatus socCtxId s) := by
  by_cases h0 : (usIpSn &&& 0x00FF).toUInt8 = 0
  · rw [seqCallback.eq_def, if_pos h0]
    exact ⟨h, hlost⟩
  rw [seqCallback.eq_def, if_neg h0]
  cases hfind : s.cdpSnInfo.find? (·.sequence = (usIpSn &&& 0x00FF).toUInt8) with
  | none => exact ⟨h, hlost⟩
  | some node =>
    dsimp only
    by_cases hsocket : socCtxId = some ((usIpSn &&& 0xFF00) >>> 8).toNat
    · rw [if_pos hsocket]
      exact airReport_traced h hlost hfind (isOutcome_airStatus ucStatus) rfl rfl
    · rw [if_neg hsocket]
      exact ⟨h, hlost⟩

/-! ### Runs -/

theorem step_traced (a : Action) (s t : State) (h : Traced s) (hlost : NoneLost s) (ha : step a s = some t) :
    Traced t ∧ (NoneLost t ↔ Kept a s) := by
  cases a with
  | sendData ready memory len msgType seqNum =>
    cases ha
    have ⟨ht, hlost'⟩ := cdpSendData_traced ready memory len msgType seqNum h hlost
    exact ⟨ht, iff_of_true hlost' trivial⟩
  | sendMessage memory dataLen type =>
    cases ha
    have ⟨ht, hlost'⟩ := sendMessageViaLwm2m_traced memory dataLen type 0 h hlost
    exact ⟨ht, iff_of_true hlost' trivial⟩
  | appDataReport bufMemory nodeMemory =>
    cases ha
    exact appDataReport_traced bufMemory nodeMemory h hlost
  | observeAppStep active =>
    cases ha
    exact observeAppStep_traced active h hlost
  | unsubscribe conSendFlag =>
    cases ha
    exact unsubscribe_traced conSendFlag h hlost
  | observeHandleAck i ackReceived rst retransCounter =>
    obtain ⟨transaction, hi, rfl⟩ := Option.map_eq_some_iff.mp ha
    have ⟨ht, hlost'⟩ := observeHandleAck_traced h hlost hi ackReceived rst retransCounter rfl
    exact ⟨ht, iff_of_true hlost' trivial⟩
  | seqCallback usIpSn ucStatus socCtxId =>
    cases ha
    have ⟨ht, hlost'⟩ := seqCallback_traced usIpSn ucStatus socCtxId h hlost
    exact ⟨ht, iff_of_true hlost' trivial⟩

theorem kept_of_refused (a : Action) (s : State) (ha : step a s = none) : Kept a s := by
  cases a with
  | observeHandleAck => trivial
  | _ => exact absurd ha (Option.some_ne_none _)

theorem traced_init (maxCnt : Option ℕ) (nextMID : UInt16) (sendStatus : ℕ) :
    Traced (State.init maxCnt nextMID sendStatus) := by
  cases maxCnt <;> constructor <;> simp [State.init, places, owed, reports]

theorem noneLost_init (maxCnt : Option ℕ) (nextMID : UInt16) (sendStatus : ℕ) :
    NoneLost (State.init maxCnt nextMID sendStatus) := by
  intro i hi
  exact absurd hi (Nat.not_lt_zero i)

/-- The counters are right in every state of a run exactly when each message that leaves a queue is
handed on or has been counted. -/
theorem alwaysAccounted_iff (maxCnt : Option ℕ) (nextMID : UInt16) (sendStatus : ℕ) (as : List Action) :
    Always step Accounted as (State.init maxCnt nextMID sendStatus) ↔
      Along step Kept as (State.init maxCnt nextMID sendStatus) := by
  have htraced := traced_init maxCnt nextMID sendStatus
  refine always_iff_along_of (fun a s t (h : Traced s) hs ha => ?_) (fun a s _ _ => kept_of_refused a s) htraced ?_
  · have ⟨ht, hiff⟩ := step_traced a s t h ((accounted_iff h).mp hs) ha
    exact ⟨ht, (accounted_iff ht).trans hiff⟩
  · exact (accounted_iff htraced).mpr (noneLost_init maxCnt nextMID sendStatus)

/-- The server cancels the observation while a confirmable message waits in the report queue. -/
def canceledReport : List Action := [.sendData true true 4 .con 7, .appDataReport true true, .unsubscribe true]

theorem not_alwaysAccounted :
    ¬ ∀ (maxCnt : Option ℕ) (nextMID : UInt16) (sendStatus : ℕ) (as : List Action),
      Always step Accounted as (State.init maxCnt nextMID sendStatus) := by
  intro h
  have hidle := (h (some 8) 0 0 canceledReport 3 _ rfl).idle
  revert hidle
  decide

end NbiotXY1100.CdpUpstreamRuns
