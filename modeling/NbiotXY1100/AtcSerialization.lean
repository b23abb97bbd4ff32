import NbiotXY1100.AtcRequests

/-! # Requests one after another

The task serves the requests in the order of their arrival, one at a time, and each gets its
own result once. -/
namespace NbiotXY1100.AtcSerialization
open AtcTask AtcNodes AtcRequests StepRuns

variable {done : List (DataReq × CmdRst)} {cur : Option DataReq} {s : Sys} {req : DataReq}

/-! ### The task between two requests and with one at hand -/

/-- No request is at hand; after a report the next saved one is due. -/
structure Idle (done : List (DataReq × CmdRst)) (s : Sys) : Prop where
  waits : s.atc.ucWaitOKOrErrorFlg = s.atc.listProcDue
  list : s.atc.listProcDue = false → s.atc.stAtcDataReqList = []
  tempSeq : s.atc.ucTempSeqNum = 0
  inflight : inflight s.atc = []
  answered : s.answered = done

/-- One request waits for the stack or for the callback task. -/
structure Serving (done : List (DataReq × CmdRst)) (req : DataReq) (s : Sys) : Prop where
  waits : s.atc.ucWaitOKOrErrorFlg = true
  due : s.atc.listProcDue = false
  single : s.atc.atCascateInfo.ucCascadeAtCnt = 1
  user : s.atc.ucUserAtFlg = decide (req.ulSemaId ≠ 0)
  tempSeq : req.ulSemaId = 0 → s.atc.ucTempSeqNum = 0
  inflight : ∃ rst : Option CmdRst,
    inflight s.atc = [(if req.ulSemaId = 0 then 0 else s.atc.appSeqNum, req, rst)] ∧
      s.answered = done ++ rst.toList.map fun rst => (req, rst)

def Phase (done : List (DataReq × CmdRst)) (s : Sys) : Option DataReq → Prop
  | none => Idle done s
  | some req => Serving done req s

structure Flow (done : List (DataReq × CmdRst)) (cur : Option DataReq) (s : Sys) : Prop where
  accounts : Accounts done cur s
  arrived : s.arrived = taken done cur ++ waiting s.atc
  event : currEventChkIsWaitSmsPdu s.atc.usCurrEvent = false
  cascade : s.atc.atCascateInfo.ucCascadeAtFlg = false
  phase : Phase done s cur

def Inv (s : Sys) : Prop := ∃ done cur, Flow done cur s

theorem inv_init : Inv .init := by
  refine ⟨[], none, accounts_init, rfl, rfl, rfl, rfl, fun _ => rfl, rfl, rfl, rfl⟩

/-- The task is free for a request. -/
structure Free (done : List (DataReq × CmdRst)) (req : DataReq) (s : Sys) : Prop where
  accounts : Accounts done none s
  arrived : s.arrived = done.map Prod.fst ++ req :: waiting s.atc
  event : currEventChkIsWaitSmsPdu s.atc.usCurrEvent = false
  cascade : s.atc.atCascateInfo.ucCascadeAtFlg = false
  waits : s.atc.ucWaitOKOrErrorFlg = false
  due : s.atc.listProcDue = false
  tempSeq : s.atc.ucTempSeqNum = 0
  inflight : inflight s.atc = []
  answered : s.answered = done

theorem taken_none (done : List (DataReq × CmdRst)) : taken done none = done.map Prod.fst := List.append_nil _

/-- A request that has its result leaves the task free for the next one. -/
theorem flow_of_finish (h : Accounts done (some req) s) {results : List (DataReq × CmdRst)} {rst : CmdRst}
    (harrived : s.arrived = taken done (some req) ++ waiting s.atc) (hwaits : s.atc.ucWaitOKOrErrorFlg = true)
    (hinflight : AtcRequests.inflight s.atc = []) (hanswered : s.answered ++ results = done ++ [(req, rst)]) :
    Flow (done ++ [(req, rst)]) none (afterTask s results (finished req rst s.atc)) := by
  refine ⟨h.finish results rst, ?_, rfl, rfl, hwaits, fun hdue => (nomatch hdue), rfl, hinflight, hanswered⟩
  rw [taken_append]
  exact harrived

/-- What the task keeps when it takes up a request. -/
structure Accepted (req : DataReq) (s t : AtcApInfo) : Prop where
  waits : t.ucWaitOKOrErrorFlg = true
  user : t.ucUserAtFlg = decide (req.ulSemaId ≠ 0)
  tempSeq : t.ucTempSeqNum = if req.ulSemaId = 0 then s.ucTempSeqNum else t.appSeqNum
  due : t.listProcDue = s.listProcDue
  list : t.stAtcDataReqList = s.stAtcDataReqList
  msgInfo : t.msgInfo = s.msgInfo
  callbacks : t.msgInfoEventCb = s.msgInfoEventCb
  stack : t.stack = s.stack
  cascade : t.atCascateInfo = s.atCascateInfo
  releases : t.releases = s.releases

theorem accepted_spec (req : DataReq) (s : AtcApInfo) : Accepted req s (accepted req s) := by
  by_cases hsema : req.ulSemaId = 0
  · rw [accepted_external hsema]
    exact ⟨rfl, by simp [hsema], (if_pos hsema).symm, rfl, rfl, rfl, rfl, rfl, rfl, rfl⟩
  · rw [accepted_api hsema]
    exact ⟨rfl, by simp [hsema, addAppInterfaceInfo], (if_neg hsema).symm, rfl, rfl, rfl, rfl, rfl, rfl, rfl⟩

theorem Free.command (h : Free done req s) : IsCommand req :=
  h.accounts.commands req (h.arrived ▸ List.mem_append_right _ List.mem_cons_self)

theorem afterTask_started {atc u : AtcApInfo} {results : List (DataReq × CmdRst)}
    (h : atc.releases = s.atc.releases) : afterTask { s with atc } results u = afterTask s results u := by
  unfold afterTask
  dsimp only
  rw [h]

theorem inflight_sent {atc : AtcApInfo} (h : inflight atc = []) :
    inflight (sndDataReqToShm req atc) = [(if atc.ucUserAtFlg then atc.appSeqNum else 0, req, none)] := by
  obtain ⟨hstack, hrest⟩ := List.append_eq_nil_iff.mp h
  show (atc.stack ++ [_]).map _ ++ returning atc = _
  rw [List.map_append, hstack, hrest]
  rfl

theorem inv_of_flow {atc : AtcApInfo} {answered results : List (DataReq × CmdRst)}
    {bound : ℕ} (hreleases : atc.releases = s.atc.releases) (hanswered : s.answered ++ results = answered)
    (hload : load { s with atc } < bound) (h : Flow done cur { s with atc, answered }) :
    Inv (afterTask s results atc) ∧ load (afterTask s results atc) < bound := by
  rw [afterTask_same hreleases, hanswered]
  exact ⟨⟨done, cur, h⟩, hload⟩

theorem load_finished {atc : AtcApInfo} {results : List (DataReq × CmdRst)} {rst : CmdRst}
    (hreleases : atc.releases = s.atc.releases) :
    load (afterTask s results (finished req rst atc)) ≤ load { s with atc } + 2 := by
  have htokens : (afterTask s results (finished req rst atc)).tokens.length ≤ s.tokens.length + 1 := by
    by_cases hsema : req.ulSemaId = 0
    · simp [afterTask, finished, hsema, hreleases]
    · simp [afterTask, finished, hsema, hreleases]
  have hdue : (afterTask s results (finished req rst atc)).atc.listProcDue.toNat ≤ atc.listProcDue.toNat + 1 := by
    simp [afterTask, finished]
  unfold load at *
  simp only [afterTask, finished] at htokens hdue ⊢
  omega

/-- A free task takes up a request: the stack gets its command, or it has its result. -/
theorem Free.take (h : Free done req s) (a : PlainAnalysis)
    (hage : req.ulSemaId ≠ 0 → ∀ n ∈ s.atc.appNodes, s.atc.accepts < n.accept + 254) :
    Inv (afterTask s (takes (some req) a.analysis) (msgProcAtcApDataReq a.analysis req s.atc)) ∧
      load (afterTask s (takes (some req) a.analysis) (msgProcAtcApDataReq a.analysis req s.atc)) < load s + 8 := by
  have hspec := accepted_spec req s.atc
  have hnext : taken done (some req) <+: s.arrived := by
    rw [h.arrived, ← List.singleton_append, ← List.append_assoc]
    exact List.prefix_append _ _
  have hstart := h.accounts.start hnext hage a.analysis.usEvent
  have hwaiting : waiting (started a.analysis.usEvent req (accepted req s.atc)) = waiting s.atc := by
    unfold waiting started
    rw [hspec.list, hspec.msgInfo]
  have harrived : s.arrived = taken done (some req) ++ waiting (started a.analysis.usEvent req (accepted req s.atc)) := by
    rw [hwaiting, h.arrived, taken_some, taken_none, List.append_assoc, List.singleton_append]
  have hinflight : AtcRequests.inflight (started a.analysis.usEvent req (accepted req s.atc)) = [] := by
    refine Eq.trans ?_ h.inflight
    unfold AtcRequests.inflight returning started
    rw [hspec.stack, hspec.msgInfo, hspec.callbacks]
  have hload : load { s with atc := started a.analysis.usEvent req (accepted req s.atc) } = load s := by
    unfold load started
    dsimp only
    rw [hspec.msgInfo, hspec.list, hspec.stack, hspec.callbacks, hspec.due]
  have htemp := hspec.tempSeq
  rw [h.tempSeq] at htemp
  rw [msgProcAtcApDataReq_free h.command h.cascade h.event h.waits]
  cases hlocal : localResult a.analysis.answer with
  | some rst =>
    have htakes : takes (some req) a.analysis = [(req, rst)] := by
      simp only [takes, hlocal]
    have hproc := hstart.msgProcAtCmdRst rfl hspec.user htemp rst
    dsimp only at hproc ⊢
    have hreleases : (started a.analysis.usEvent req (accepted req s.atc)).releases = s.atc.releases := hspec.releases
    rw [htakes, hproc, ← afterTask_started hreleases]
    constructor
    · exact ⟨_, none, flow_of_finish hstart harrived hspec.waits hinflight (congrArg (· ++ [(req, rst)]) h.answered)⟩
    · rw [afterTask_started hreleases]
      have hle := @load_finished s req _ [(req, rst)] rst hreleases
      omega
  | none =>
    have htakes : takes (some req) a.analysis = [] := by
      simp only [takes, hlocal]
    have hsent : (sndDataReqToShm req (started a.analysis.usEvent req (accepted req s.atc))).releases =
        s.atc.releases := hspec.releases
    dsimp only
    rw [htakes, afterTask_same hsent]
    refine ⟨⟨done, some req, hstart.congr rfl rfl rfl rfl rfl rfl, harrived, a.plain, ?_, hspec.waits,
      hspec.due.trans h.due, rfl, hspec.user, ?_, none, ?_, ?_⟩, ?_⟩
    · exact (congrArg _ hspec.cascade).trans h.cascade
    · exact fun hsema => htemp.trans (if_pos hsema)
    · rw [inflight_sent hinflight]
      have huser : (started a.analysis.usEvent req (accepted req s.atc)).ucUserAtFlg = decide (req.ulSemaId ≠ 0) :=
        hspec.user
      rw [huser]
      by_cases hsema : req.ulSemaId = 0
      · simp [hsema]
      · simp [hsema, sndDataReqToShm]
    · rw [h.answered]
      rfl
    · unfold load sndDataReqToShm at *
      simp only [List.length_append, List.length_singleton] at hload ⊢
      omega

/-! ### The steps -/

theorem inflight_callback {atc : AtcApInfo} {ind : DataInd} {rest : List DataInd}
    (hcb : atc.msgInfoEventCb = ind :: rest) (hseq : ind.ucSeqNum = 0) :
    ∃ before after, inflight atc = before ++ brings ind :: after ∧
      inflight { atc with msgInfoEventCb := rest } = before ++ after := by
  refine ⟨(atc.stack.map fun cmd => (cmd.1, cmd.2, none)) ++ (atc.msgInfo.filterMap Msg.ind?).map brings,
    (rest.filter fun ind => ind.ucSeqNum = 0).map brings, ?_, ?_⟩
  · have hhead : (ind :: rest).filter (fun ind => ind.ucSeqNum = 0) =
        ind :: rest.filter fun ind => ind.ucSeqNum = 0 := List.filter_cons_of_pos (by simp [hseq])
    unfold inflight returning
    rw [hcb, hhead, List.map_append, List.append_assoc]
    rfl
  · unfold inflight returning
    rw [List.map_append, ← List.append_assoc]

theorem inflight_task {atc : AtcApInfo} {ind : DataInd} {rest : List Msg} (hqueue : atc.msgInfo = .dataInd ind :: rest) :
    ∃ before after, inflight atc = before ++ brings ind :: after ∧
      inflight { atc with msgInfo := rest } = before ++ after := by
  refine ⟨atc.stack.map fun cmd => (cmd.1, cmd.2, none), returning { atc with msgInfo := rest }, ?_, rfl⟩
  unfold inflight returning
  rw [hqueue]
  rfl

theorem inflight_stack {atc : AtcApInfo} {i : ℕ} {cmd : UInt8 × DataReq} (hcmd : atc.stack[i]? = some cmd) :
    ∃ before after, inflight atc = before ++ (cmd.1, cmd.2, none) :: after ∧
      inflight { atc with stack := atc.stack.eraseIdx i } = before ++ after := by
  obtain ⟨hi, rfl⟩ := List.getElem?_eq_some_iff.mp hcmd
  refine ⟨(atc.stack.take i).map fun cmd => (cmd.1, cmd.2, none),
    ((atc.stack.drop (i + 1)).map fun cmd => (cmd.1, cmd.2, none)) ++ returning atc, ?_, ?_⟩
  · unfold inflight
    nth_rewrite 1 [← List.take_append_drop i atc.stack]
    rw [List.drop_eq_getElem_cons hi, List.map_append, List.append_assoc]
    rfl
  · unfold inflight
    rw [List.eraseIdx_eq_take_drop_succ, List.map_append, List.append_assoc]
    rfl

theorem inflight_eq_nil {atc : AtcApInfo} (h : inflight atc = []) : atc.stack = [] ∧ returning atc = [] := by
  obtain ⟨hstack, hreturning⟩ := List.append_eq_nil_iff.mp h
  exact ⟨List.map_eq_nil_iff.mp hstack, hreturning⟩

theorem rest_eq_nil {α : Type*} {x y : α} {before after : List α} (h : before ++ x :: after = [y]) :
    x = y ∧ before ++ after = [] := by
  rcases List.append_eq_singleton_iff.mp h with ⟨rfl, hx⟩ | ⟨-, hnil⟩
  · obtain ⟨rfl, rfl⟩ := List.cons.inj hx
    exact ⟨rfl, rfl⟩
  · cases hnil

/-- A message moves between the queues. -/
theorem Flow.queues (h : Flow done cur s) {msgInfo : List Msg} {msgInfoEventCb : List DataInd}
    {stAtcDataReqList : List DataReq}
    (hwaiting : waiting { s.atc with msgInfo, msgInfoEventCb, stAtcDataReqList } = waiting s.atc)
    (hinflight : inflight { s.atc with msgInfo, msgInfoEventCb, stAtcDataReqList } = inflight s.atc)
    (hlist : s.atc.ucWaitOKOrErrorFlg = false → stAtcDataReqList = s.atc.stAtcDataReqList) :
    Flow done cur { s with atc := { s.atc with msgInfo, msgInfoEventCb, stAtcDataReqList } } := by
  refine ⟨h.accounts.congr rfl rfl rfl rfl rfl rfl, ?_, h.event, h.cascade, ?_⟩
  · rw [h.arrived, ← hwaiting]
  · have hphase := h.phase
    cases cur with
    | none =>
      refine ⟨hphase.waits, fun hdue => ?_, hphase.tempSeq, hinflight.trans hphase.inflight, hphase.answered⟩
      exact (hlist (hphase.waits.trans hdue)).trans (hphase.list hdue)
    | some req =>
      obtain ⟨rst, hrst, hanswered⟩ := hphase.inflight
      exact ⟨hphase.waits, hphase.due, hphase.single, hphase.user, hphase.tempSeq, rst, hinflight.trans hrst, hanswered⟩

/-- The result that comes back is the one of the request at hand. -/
theorem Flow.serves (h : Flow done cur s) {seq : UInt8} {owner : DataReq} {rst : CmdRst}
    (hmem : (seq, owner, some rst) ∈ inflight s.atc) :
    cur = some owner ∧ inflight s.atc = [(seq, owner, some rst)] ∧
      seq = (if owner.ulSemaId = 0 then 0 else s.atc.appSeqNum) ∧ s.answered = done ++ [(owner, rst)] := by
  have hphase := h.phase
  cases cur with
  | none =>
    rw [hphase.inflight] at hmem
    cases hmem
  | some req =>
    obtain ⟨rst', hrst, hanswered⟩ := hphase.inflight
    rw [hrst] at hmem
    cases List.mem_singleton.mp hmem
    exact ⟨rfl, hrst, rfl, hanswered⟩

theorem Flow.seq_eq_zero (h : Flow done (some req) s) {seq : UInt8}
    (hseq : seq = if req.ulSemaId = 0 then 0 else s.atc.appSeqNum) : seq = 0 ↔ req.ulSemaId = 0 := by
  by_cases hsema : req.ulSemaId = 0
  · rw [if_pos hsema] at hseq
    exact iff_of_true hseq hsema
  · rw [if_neg hsema] at hseq
    obtain ⟨n, -, -, -, hne⟩ := h.accounts.current_node hsema
    exact iff_of_false (hseq ▸ hne) hsema

/-- The result of the request at hand ends it. -/
theorem Flow.finish (h : Flow done (some req) s) {rst : CmdRst} {ucTempSeqNum : UInt8} {msgInfo : List Msg}
    {msgInfoEventCb : List DataInd} (hanswered : s.answered = done ++ [(req, rst)])
    (htemp : ucTempSeqNum = if req.ulSemaId = 0 then 0 else s.atc.appSeqNum)
    (hwaiting : waiting { s.atc with msgInfo, msgInfoEventCb } = waiting s.atc)
    (hinflight : inflight { s.atc with msgInfo, msgInfoEventCb } = []) :
    AtcTask.msgProcAtCmdRst rst { s.atc with msgInfo, msgInfoEventCb, ucTempSeqNum } =
        finished req rst { s.atc with msgInfo, msgInfoEventCb, ucTempSeqNum } ∧
      Flow (done ++ [(req, rst)]) none
        (afterTask s [] (finished req rst { s.atc with msgInfo, msgInfoEventCb, ucTempSeqNum })) := by
  have hphase : Serving done req s := h.phase
  have haccounts : Accounts done (some req) { s with atc := { s.atc with msgInfo, msgInfoEventCb, ucTempSeqNum } } :=
    h.accounts.congr rfl rfl rfl rfl rfl rfl
  refine ⟨haccounts.msgProcAtCmdRst hphase.single hphase.user htemp rst, ?_⟩
  refine flow_of_finish haccounts ?_ hphase.waits hinflight ((List.append_nil _).trans hanswered)
  rw [h.arrived, ← hwaiting]
  rfl

theorem inv_callback {t : Sys} (h : Inv s) (hstep : step .callback s = some t) : Inv t ∧ load t < load s := by
  obtain ⟨done, cur, h⟩ := h
  obtain ⟨u, hu, rfl⟩ := Option.map_eq_some_iff.mp hstep
  unfold taskEntryEventCallback at hu
  split at hu
  next => cases hu
  next ind rest hcb =>
    split at hu
    next => cases hu
    next hdue =>
      cases hu
      unfold eventCallback
      by_cases hseq : ind.ucSeqNum = 0
      · rw [if_pos hseq]
        obtain ⟨before, after, hsome, hrest⟩ := inflight_callback hcb hseq
        have hmem : brings ind ∈ inflight s.atc := hsome ▸ List.mem_append_right _ List.mem_cons_self
        obtain ⟨rfl, hinflight, hnum, hanswered⟩ := h.serves hmem
        have hphase : Serving done ind.owner s := h.phase
        have hsema := (h.seq_eq_zero hnum).mp hseq
        have htemp : s.atc.ucTempSeqNum = if ind.owner.ulSemaId = 0 then 0 else s.atc.appSeqNum := by
          rw [hphase.tempSeq hsema, if_pos hsema]
        have hnone := hrest.trans (rest_eq_nil (hsome.symm.trans hinflight)).2
        obtain ⟨hproc, hflow⟩ :=
          @Flow.finish _ _ _ h ind.rst s.atc.ucTempSeqNum s.atc.msgInfo rest hanswered htemp rfl hnone
        dsimp only at hproc ⊢
        rw [hproc]
        refine ⟨⟨_, none, hflow⟩, Nat.lt_of_le_of_lt (load_finished rfl) ?_⟩
        unfold load
        simp only [hcb, List.length_cons]
        omega
      · rw [if_neg hseq]
        have hrest : load { s with atc := { s.atc with msgInfoEventCb := rest } } < load s := by
          unfold load
          simp only [hcb, List.length_cons]
          omega
        refine inv_of_flow rfl (List.append_nil _) hrest (h.queues rfl ?_ fun _ => rfl)
        have htail : (ind :: rest).filter (fun ind => ind.ucSeqNum = 0) = rest.filter fun ind => ind.ucSeqNum = 0 :=
          List.filter_cons_of_neg (by simp [hseq])
        unfold inflight returning
        rw [hcb, htail]

theorem inv_stack {i : ℕ} {rst : CmdRst} {t : Sys} (h : Inv s) (hstep : step (.stack i rst) s = some t) :
    Inv t ∧ load t < load s := by
  obtain ⟨done, cur, h⟩ := h
  obtain ⟨u, hu, rfl⟩ := Option.map_eq_some_iff.mp hstep
  obtain ⟨cmd, hcmd, rfl⟩ := Option.map_eq_some_iff.mp hu
  obtain ⟨before, after, hsome, hrest⟩ := inflight_stack hcmd
  have hphase := h.phase
  cases cur with
  | none =>
    have hnil := hphase.inflight
    rw [hsome] at hnil
    simp at hnil
  | some req =>
    obtain ⟨rst', hrst, hanswered⟩ := hphase.inflight
    obtain ⟨hcmd', hnil⟩ := rest_eq_nil (hsome.symm.trans hrst)
    simp only [Prod.mk.injEq] at hcmd'
    obtain ⟨hseq, rfl, rfl⟩ := hcmd'
    obtain ⟨hstack, hreturning⟩ := inflight_eq_nil (hrest.trans hnil)
    have hlast : s.answered ++ [(cmd.2, rst)] = done ++ [(cmd.2, rst)] :=
      hanswered ▸ congrArg (· ++ [(cmd.2, rst)]) (List.append_nil _)
    rw [hcmd]
    have hless : load { s with atc := { s.atc with
        stack := s.atc.stack.eraseIdx i, msgInfo := s.atc.msgInfo ++ [.dataInd ⟨cmd.1, rst, cmd.2⟩] } } < load s := by
      have hlength := List.length_eraseIdx_add_one (List.getElem?_eq_some_iff.mp hcmd).1
      unfold load
      simp only [List.filterMap_append, List.length_append, List.filterMap_cons, List.filterMap_nil, Msg.req?, Msg.ind?,
        List.length_cons, List.length_nil]
      omega
    refine @inv_of_flow done (some cmd.2) _ _ _ _ _ rfl hlast hless
      ⟨h.accounts.congr rfl rfl rfl rfl rfl rfl, ?_, h.event, h.cascade, ?_⟩
    · rw [h.arrived]
      unfold waiting
      rw [List.filterMap_append]
      exact congrArg _ (congrArg _ (List.append_nil _).symm)
    · refine ⟨hphase.waits, hphase.due, hphase.single, hphase.user, hphase.tempSeq, some rst, ?_, rfl⟩
      unfold returning at hreturning
      unfold inflight returning
      obtain ⟨hinds, hcallbacks⟩ := List.append_eq_nil_iff.mp (List.map_eq_nil_iff.mp hreturning)
      dsimp only at hstack hinds hcallbacks ⊢
      rw [hstack, List.filterMap_append, hinds, hcallbacks, ← hseq]
      rfl

theorem inv_post {news : List DataReq} (h : Inv s) (hcommand : IsCommand req)
    (hticket : req.ticket = s.arrived.length) (hnews : news = if req.ulSemaId = 0 then [] else [req])
    (hfresh : req.ulSemaId ≠ 0 → req.ulSemaId ≠ noCaller ∧ req.ulSemaId ∉ s.calls.map DataReq.ulSemaId) :
    Inv { post req s with calls := s.calls ++ news } := by
  obtain ⟨done, cur, h⟩ := h
  have hinflight : inflight (post req s).atc = inflight s.atc := by
    unfold inflight returning
    show _ ++ ((s.atc.msgInfo ++ [Msg.dataReq req]).filterMap Msg.ind? ++ _).map brings = _
    rw [List.filterMap_append]
    exact congrArg _ (congrArg _ (congrArg (· ++ _) (List.append_nil _)))
  refine ⟨done, cur, h.accounts.post hcommand hticket hnews hfresh, ?_, h.event, h.cascade, ?_⟩
  · show s.arrived ++ [req] = taken done cur ++ (s.atc.stAtcDataReqList ++
      (s.atc.msgInfo ++ [Msg.dataReq req]).filterMap Msg.req?)
    rw [h.arrived, List.filterMap_append, waiting, List.append_assoc, List.append_assoc]
    rfl
  · have hphase := h.phase
    cases cur with
    | none => exact ⟨hphase.waits, hphase.list, hphase.tempSeq, hinflight.trans hphase.inflight, hphase.answered⟩
    | some req' =>
      obtain ⟨rst, hrst, hanswered⟩ := hphase.inflight
      exact ⟨hphase.waits, hphase.due, hphase.single, hphase.user, hphase.tempSeq, rst, hinflight.trans hrst, hanswered⟩

theorem inv_ret {sema : ℕ} {t : Sys} (h : Inv s) (hstep : step (.ret sema) s = some t) :
    Inv t ∧ load t < load s := by
  obtain ⟨done, cur, h⟩ := h
  unfold step at hstep
  dsimp only at hstep
  split at hstep
  next htoken =>
    obtain ⟨req, rst, hdone, rfl, hcall, hfind, hend, herase⟩ := h.accounts.ret (List.contains_iff_mem.mp htoken)
    rw [hfind, hend] at hstep
    cases hstep
    have hfewer : (s.tokens.filter (· ≠ req.ulSemaId)).length < s.tokens.length := by
      refine List.length_filter_lt_length_iff_exists.mpr ⟨req.ulSemaId, List.contains_iff_mem.mp htoken, ?_⟩
      simp
    refine ⟨⟨done, cur, h.accounts.remove hdone hcall herase, h.arrived, h.event, h.cascade, ?_⟩,
      Nat.add_lt_add_left hfewer _⟩
    have hphase := h.phase
    cases cur with
    | none => exact ⟨hphase.waits, hphase.list, hphase.tempSeq, hphase.inflight, hphase.answered⟩
    | some req' =>
      obtain ⟨rst', hrst, hanswered⟩ := hphase.inflight
      refine ⟨hphase.waits, hphase.due, hphase.single, hphase.user, hphase.tempSeq, rst', hrst.trans ?_, hanswered⟩
      by_cases hsema : req'.ulSemaId = 0
      · rw [if_pos hsema, if_pos hsema]
      · -- the node of the request at hand stays, so the count goes on
        obtain ⟨n, hn, howner, -⟩ := h.accounts.current_node hsema
        have hstays : n ∈ s.atc.appNodes.eraseP fun n => n.ulSemaphore = req.ulSemaId := by
          rw [herase, List.mem_filter, decide_eq_true_eq, howner]
          refine ⟨hn, fun heq => h.accounts.not_mem_done ?_⟩
          exact heq ▸ List.mem_map_of_mem hdone
        have hne : s.atc.appNodes.eraseP (fun n => n.ulSemaphore = req.ulSemaId) ≠ [] := List.ne_nil_of_mem hstays
        simp only [delAppInterfaceResult, if_neg hne]
  next => cases hstep

theorem inv_proceed {a : PlainAnalysis} {t : Sys} (h : Inv s) (htimely : Timely (.proceed a) s)
    (hstep : step (.proceed a) s = some t) : Inv t ∧ load t < load s := by
  obtain ⟨done, cur, h⟩ := h
  obtain ⟨u, hu, rfl⟩ := Option.map_eq_some_iff.mp hstep
  unfold taskContinue at hu
  split at hu
  next hdue =>
    cases hu
    have hphase := h.phase
    cases cur with
    | some req =>
      rw [hphase.due] at hdue
      cases hdue
    | none =>
      have htaken : takenUp (.proceed a) s.atc = s.atc.stAtcDataReqList.head? := rfl
      rw [htaken]
      unfold atcDataReqListProc
      dsimp only
      cases hlist : s.atc.stAtcDataReqList with
      | nil =>
        have hless : load { s with atc := { s.atc with
            ucWaitOKOrErrorFlg := false, listProcDue := false, stAtcDataReqList := [] } } < load s := by
          unfold load
          simp only [hdue, hlist, Bool.toNat_true, Bool.toNat_false]
          omega
        refine @inv_of_flow done none _ _ _ _ _ rfl (List.append_nil _) hless
          ⟨h.accounts.congr rfl rfl rfl rfl rfl rfl, ?_, h.event, h.cascade, ?_⟩
        · rw [h.arrived, waiting, hlist]
          rfl
        · exact ⟨rfl, fun _ => rfl, hphase.tempSeq, hphase.inflight, hphase.answered⟩
      | cons req rest =>
        have haccounts : Accounts done none { s with atc := { s.atc with
            ucWaitOKOrErrorFlg := false, listProcDue := false, stAtcDataReqList := rest } } :=
          h.accounts.congr rfl rfl rfl rfl rfl rfl
        have hfree : Free done req { s with atc := { s.atc with
            ucWaitOKOrErrorFlg := false, listProcDue := false, stAtcDataReqList := rest } } := by
          refine ⟨haccounts, ?_, h.event, h.cascade, rfl, rfl, hphase.tempSeq, hphase.inflight, hphase.answered⟩
          rw [h.arrived, taken_none, waiting, hlist]
          rfl
        have hless : load { s with atc := { s.atc with
            ucWaitOKOrErrorFlg := false, listProcDue := false, stAtcDataReqList := rest } } + 8 < load s := by
          unfold load
          simp only [hdue, hlist, Bool.toNat_true, Bool.toNat_false, List.length_cons]
          omega
        rw [hlist] at htaken
        have htake := hfree.take a fun hsema => htimely req htaken hsema
        exact htake.imp_right fun hload => hload.trans hless
  next => cases hu

/-- The task takes a request from its queue: it saves it for later or takes it up. -/
theorem Flow.dataReq (h : Flow done cur s) {a : PlainAnalysis} {rest : List Msg}
    (hqueue : s.atc.msgInfo = .dataReq req :: rest) (hdue : s.atc.listProcDue = false)
    (htimely : Timely (.task a) s) :
    Inv (afterTask s (takes (takenUp (.task a) s.atc) a.analysis)
        (msgProcAtcApDataReq a.analysis req { s.atc with msgInfo := rest })) ∧
      load (afterTask s (takes (takenUp (.task a) s.atc) a.analysis)
        (msgProcAtcApDataReq a.analysis req { s.atc with msgInfo := rest })) < load s := by
  have hwaiting : waiting s.atc = s.atc.stAtcDataReqList ++ req :: rest.filterMap Msg.req? := by
    rw [waiting, hqueue]
    rfl
  have hinflight : inflight { s.atc with msgInfo := rest } = inflight s.atc := by
    unfold inflight returning
    rw [hqueue]
    rfl
  have hcommand : IsCommand req := h.accounts.commands req (by simp [h.arrived, hwaiting])
  have htaken : takenUp (.task a) s.atc = if s.atc.ucWaitOKOrErrorFlg then none else some req := by
    rw [takenUp, headReq, hqueue]
  have hphase := h.phase
  cases hwait : s.atc.ucWaitOKOrErrorFlg with
  | true =>
    rw [hwait, if_pos rfl] at htaken
    have hsaved : msgProcAtcApDataReq a.analysis req { s.atc with msgInfo := rest } =
        { s.atc with msgInfo := rest, stAtcDataReqList := s.atc.stAtcDataReqList ++ [req] } := by
      unfold msgProcAtcApDataReq
      rw [if_pos hcommand.external, if_neg (by simp [h.event]), if_pos hwait]
      rfl
    have hless : load { s with atc := { s.atc with
        msgInfo := rest, stAtcDataReqList := s.atc.stAtcDataReqList ++ [req] } } < load s := by
      unfold load
      simp only [hqueue, List.filterMap_cons, Msg.req?, Msg.ind?, List.length_cons, List.length_append, List.length_nil]
      omega
    rw [htaken, hsaved]
    refine inv_of_flow rfl (List.append_nil _) hless (h.queues ?_ hinflight fun hfree => ?_)
    · rw [hwaiting, waiting, List.append_assoc]
      rfl
    · rw [hwait] at hfree
      cases hfree
  | false =>
    rw [hwait, if_neg Bool.false_ne_true] at htaken
    cases cur with
    | some req' =>
      rw [hphase.waits] at hwait
      cases hwait
    | none =>
      have hfree : Free done req { s with atc := { s.atc with msgInfo := rest } } := by
        refine ⟨h.accounts.congr rfl rfl rfl rfl rfl rfl, ?_, h.event, h.cascade, hwait, hdue, hphase.tempSeq,
          hinflight.trans hphase.inflight, hphase.answered⟩
        rw [h.arrived, taken_none, hwaiting, waiting, hphase.list hdue]
        rfl
      have hless : load { s with atc := { s.atc with msgInfo := rest } } + 8 < load s := by
        unfold load
        simp only [hqueue, List.filterMap_cons, Msg.req?, Msg.ind?, List.length_cons]
        omega
      have htake := hfree.take a fun hsema => htimely req htaken hsema
      rw [htaken]
      exact htake.imp_right fun hload => hload.trans hless

/-- The task takes a result from its queue. Only with a number it belongs to an API request. -/
theorem Flow.dataInd (h : Flow done cur s) {ind : DataInd} {rest : List Msg}
    (hqueue : s.atc.msgInfo = .dataInd ind :: rest) :
    Inv (afterTask s [] (msgProcAtcApDataInd ind { s.atc with msgInfo := rest })) ∧
      load (afterTask s [] (msgProcAtcApDataInd ind { s.atc with msgInfo := rest })) < load s := by
  have hless : ∀ ucTempSeqNum, load { s with atc := { s.atc with
      msgInfo := rest, msgInfoEventCb := s.atc.msgInfoEventCb ++ [ind], ucTempSeqNum } } + 2 < load s := by
    intro ucTempSeqNum
    unfold load
    simp only [hqueue, List.filterMap_cons, Msg.req?, Msg.ind?, List.length_cons, List.length_append, List.length_nil]
    omega
  obtain ⟨before, after, hsome, hrest⟩ := inflight_task hqueue
  have hmem : brings ind ∈ inflight s.atc := hsome ▸ List.mem_append_right _ List.mem_cons_self
  obtain ⟨rfl, hinflight, hnum, hanswered⟩ := h.serves hmem
  have hnone := hrest.trans (rest_eq_nil (hsome.symm.trans hinflight)).2
  have hwaiting : waiting { s.atc with msgInfo := rest } = waiting s.atc := by
    rw [waiting, waiting, hqueue]
    rfl
  obtain ⟨hstack, hreturning⟩ := inflight_eq_nil hnone
  obtain ⟨hinds, hcallbacks⟩ := List.append_eq_nil_iff.mp (List.map_eq_nil_iff.mp hreturning)
  dsimp only at hstack hinds hcallbacks
  unfold msgProcAtcApDataInd
  by_cases hseq : ind.ucSeqNum = 0
  · rw [if_pos hseq]
    refine inv_of_flow rfl (List.append_nil _) (Nat.lt_of_add_right_lt (hless s.atc.ucTempSeqNum))
      (h.queues hwaiting ?_ fun _ => rfl)
    have hlast : [ind].filter (fun ind => ind.ucSeqNum = 0) = [ind] := List.filter_cons_of_pos (by simp [hseq])
    rw [hinflight]
    unfold inflight returning
    dsimp only
    rw [hstack, hinds, List.filter_append, hcallbacks, hlast]
    rfl
  · rw [if_neg hseq]
    have hlast : [ind].filter (fun ind => ind.ucSeqNum = 0) = [] := List.filter_cons_of_neg (by simp [hseq])
    have hqueued : inflight { s.atc with msgInfo := rest, msgInfoEventCb := s.atc.msgInfoEventCb ++ [ind] } = [] := by
      unfold inflight returning
      dsimp only
      rw [hstack, hinds, List.filter_append, hcallbacks, hlast]
      rfl
    obtain ⟨hproc, -⟩ :=
      @Flow.finish _ _ _ h ind.rst ind.ucSeqNum rest s.atc.msgInfoEventCb hanswered hnum hwaiting hnone
    obtain ⟨-, hflow⟩ :=
      @Flow.finish _ _ _ h ind.rst ind.ucSeqNum rest (s.atc.msgInfoEventCb ++ [ind]) hanswered hnum hwaiting hqueued
    have hle := @load_finished s ind.owner { s.atc with
      msgInfo := rest, msgInfoEventCb := s.atc.msgInfoEventCb ++ [ind], ucTempSeqNum := ind.ucSeqNum } [] ind.rst rfl
    dsimp only at hproc ⊢
    rw [hproc]
    exact ⟨⟨_, none, hflow⟩, Nat.lt_of_le_of_lt hle (hless ind.ucSeqNum)⟩

theorem inv_task {a : PlainAnalysis} {t : Sys} (h : Inv s) (htimely : Timely (.task a) s)
    (hstep : step (.task a) s = some t) : Inv t ∧ load t < load s := by
  obtain ⟨done, cur, h⟩ := h
  obtain ⟨u, hu, rfl⟩ := Option.map_eq_some_iff.mp hstep
  unfold taskEntry at hu
  split at hu
  next => cases hu
  next msg rest hqueue =>
    split at hu
    next => cases hu
    next hdue =>
      cases hu
      cases msg with
      | dataReq req => exact h.dataReq hqueue (Bool.eq_false_iff.mpr hdue) htimely
      | dataInd ind =>
        have htaken : takenUp (.task a) s.atc = none := by
          rw [takenUp, headReq, hqueue]
        rw [htaken]
        exact h.dataInd hqueue

theorem inv_request {action : Action} {t : Sys} (h : Inv s) (hrequest : action.isRequest = true)
    (hstep : step action s = some t) : Inv t := by
  cases action with
  | request cmd =>
    cases hstep
    have hpost := @inv_post s _ [] h (cmd.isCommand s.arrived.length 0) rfl rfl (absurd rfl)
    rw [List.append_nil] at hpost
    exact hpost
  | call sema cmd =>
    unfold step at hstep
    dsimp only at hstep
    split at hstep
    next hfresh =>
      cases hstep
      unfold freshSema at hfresh
      simp only [Bool.and_eq_true, decide_eq_true_eq, Bool.not_eq_true', List.contains_eq_mem,
        decide_eq_false_iff_not] at hfresh
      exact inv_post h (cmd.isCommand s.arrived.length sema) rfl (if_neg hfresh.1.1).symm fun _ => ⟨hfresh.1.2, hfresh.2⟩
    next => cases hstep
  | task _ => cases hrequest
  | callback => cases hrequest
  | proceed _ => cases hrequest
  | stack _ _ => cases hrequest
  | ret _ => cases hrequest

/-- Every other step brings the task nearer to rest. -/
theorem inv_service {action : Action} {t : Sys} (h : Inv s) (htimely : Timely action s)
    (hservice : action.isRequest = false) (hstep : step action s = some t) : Inv t ∧ load t < load s := by
  cases action with
  | request cmd => cases hservice
  | call sema cmd => cases hservice
  | task a => exact inv_task h htimely hstep
  | callback => exact inv_callback h hstep
  | proceed a => exact inv_proceed h htimely hstep
  | stack i rst => exact inv_stack h hstep
  | ret sema => exact inv_ret h hstep

theorem inv_step (action : Action) (s t : Sys) (h : Inv s) (htimely : Timely action s)
    (hstep : step action s = some t) : Inv t := by
  cases hrequest : action.isRequest with
  | true => exact inv_request h hrequest hstep
  | false => exact (inv_service h htimely hrequest hstep).1

/-! ### Runs -/

theorem inv_run {actions : List Action} {t : Sys} (htimely : Along step Timely actions .init)
    (hrun : run step actions .init = some t) : Inv t :=
  run_invariant inv_step inv_init htimely hrun

theorem service_bounded {actions : List Action} {t : Sys} (h : Inv s) (htimely : Along step Timely actions s)
    (hservice : ∀ action ∈ actions, action.isRequest = false) (hrun : run step actions s = some t) :
    actions.length + load t ≤ load s := by
  induction actions generalizing s with
  | nil =>
    cases hrun
    exact Nat.le_of_eq (Nat.zero_add _)
  | cons action actions ih =>
    obtain ⟨s', hstep, hrest⟩ := (run_cons_some step).mp hrun
    obtain ⟨hinv, hless⟩ := inv_service h htimely.1 (hservice action List.mem_cons_self) hstep
    have hle := ih hinv (htimely.2 s' hstep) (fun b hb => hservice b (List.mem_cons_of_mem _ hb)) hrest
    rw [List.length_cons]
    omega

/-- Only new requests can change anything. -/
def Quiescent (s : Sys) : Prop :=
  (∀ a, step (.task a) s = none) ∧ step .callback s = none ∧ (∀ a, step (.proceed a) s = none) ∧
    (∀ i rst, step (.stack i rst) s = none) ∧ ∀ sema, step (.ret sema) s = none

/-- The requests are served one at a time in the order of their arrival, and each has its
own result once. -/
structure Serialised (s : Sys) : Prop where
  /-- The texts that were analysed are those of the first requests. -/
  order : s.atc.analysed <+: s.arrived.map DataReq.aucMsgData
  /-- The final results are those of the first requests: all that were analysed but the last one at most. -/
  results : ∃ done : List (DataReq × CmdRst),
    done <+: s.answered ∧ done.map Prod.fst <+: s.arrived ∧
    s.atc.rsps = (done.filter fun p => p.1.ulSemaId = 0).map Prod.snd ∧
    s.atc.releases = (done.filter fun p => p.1.ulSemaId ≠ 0).map (fun p => (p.1.ulSemaId, resultCode p.2)) ∧
    done.length ≤ s.atc.analysed.length ∧ s.atc.analysed.length ≤ done.length + 1 ∧
    (∀ p ∈ s.returned, ∃ rst, (p.1, rst) ∈ done ∧ p.2 = some (resultCode rst)) ∧
    (Quiescent s → done.map Prod.fst = s.arrived ∧
      ∀ req ∈ s.arrived, req.ulSemaId ≠ 0 → req ∈ s.returned.map Prod.fst)
  once : s.arrived.Nodup ∧ (s.answered.map Prod.fst).Nodup ∧ (s.returned.map Prod.fst).Nodup
  list : s.atc.stAtcDataReqList ≠ [] → s.atc.ucWaitOKOrErrorFlg = true

theorem Quiescent.queues (h : Quiescent s) :
    s.atc.listProcDue = false ∧ s.atc.msgInfo = [] ∧ s.atc.msgInfoEventCb = [] ∧ s.atc.stack = [] := by
  obtain ⟨htask, hcallback, hproceed, hstack, -⟩ := h
  have hdue : s.atc.listProcDue = false := by
    by_contra hdue
    have hnone := Option.map_eq_none_iff.mp (hproceed ⟨⟨.other 0, .excuted⟩, rfl⟩)
    rw [taskContinue, if_pos (Bool.not_eq_false _ ▸ hdue)] at hnone
    cases hnone
  refine ⟨hdue, ?_, ?_, ?_⟩
  · have hnone := Option.map_eq_none_iff.mp (htask ⟨⟨.other 0, .excuted⟩, rfl⟩)
    cases hqueue : s.atc.msgInfo with
    | nil => rfl
    | cons msg rest => simp [taskEntry, hqueue, hdue] at hnone
  · have hnone := Option.map_eq_none_iff.mp hcallback
    cases hqueue : s.atc.msgInfoEventCb with
    | nil => rfl
    | cons ind rest => simp [taskEntryEventCallback, hqueue, hdue] at hnone
  · have hnone := Option.map_eq_none_iff.mp (hstack 0 .ok)
    cases hcmds : s.atc.stack with
    | nil => rfl
    | cons cmd rest => simp [stackAnswer, hcmds] at hnone

/-- When nothing can move, every request is served and every call has returned. -/
theorem Flow.quiescent (h : Flow done cur s) (hquiet : Quiescent s) :
    done.map Prod.fst = s.arrived ∧ ∀ req ∈ s.arrived, req.ulSemaId ≠ 0 → req ∈ s.returned.map Prod.fst := by
  obtain ⟨hdue, hqueue, hcallbacks, hstack⟩ := hquiet.queues
  have hphase := h.phase
  cases cur with
  | some req =>
    obtain ⟨rst, hrst, -⟩ := hphase.inflight
    unfold inflight returning at hrst
    rw [hqueue, hcallbacks, hstack] at hrst
    cases hrst
  | none =>
    have harrived : s.arrived = done.map Prod.fst := by
      rw [h.arrived, taken_none, waiting, hphase.list hdue, hqueue]
      exact List.append_nil _
    refine ⟨harrived.symm, fun req hreq hsema => ?_⟩
    rcases h.accounts.calls req hreq hsema with hcall | hreturned
    · have htoken : req.ulSemaId ∈ s.tokens := by
        rw [h.accounts.tokens]
        refine List.mem_map_of_mem (List.mem_filter.mpr ⟨harrived ▸ hreq, decide_eq_true hcall⟩)
      obtain ⟨r, rst, -, -, -, hfind, -, -⟩ := h.accounts.ret htoken
      have hnone := hquiet.2.2.2.2 req.ulSemaId
      unfold step at hnone
      dsimp only at hnone
      rw [if_pos (List.contains_iff_mem.mpr htoken), hfind] at hnone
      cases hnone
    · exact hreturned

theorem Flow.serialised (h : Flow done cur s) : Serialised s := by
  have hphase := h.phase
  have hdone : done.map Prod.fst <+: s.arrived := (List.prefix_append _ _).trans h.accounts.arrived
  have hanswered : done <+: s.answered ∧ (s.answered.map Prod.fst).Nodup := by
    cases cur with
    | none =>
      rw [hphase.answered]
      exact ⟨List.prefix_rfl, h.accounts.arrived_nodup.sublist hdone.sublist⟩
    | some req =>
      obtain ⟨rst, -, hanswered⟩ := hphase.inflight
      rw [hanswered]
      refine ⟨List.prefix_append _ _, ?_⟩
      cases rst with
      | none =>
        rw [Option.toList_none, List.map_nil, List.append_nil]
        exact h.accounts.arrived_nodup.sublist hdone.sublist
      | some rst =>
        rw [List.map_append]
        exact h.accounts.taken_nodup
  have hcount : s.atc.analysed.length = done.length + cur.toList.length := by
    rw [h.accounts.analysed, List.length_map, taken, List.length_append, List.length_map]
  have hcur : cur.toList.length ≤ 1 := by
    cases cur with
    | none => exact Nat.zero_le 1
    | some req => exact Nat.le_refl 1
  refine ⟨?_, ⟨done, hanswered.1, hdone, h.accounts.rsps, h.accounts.releases, by omega, by omega, ?_, h.quiescent⟩,
    ⟨h.accounts.arrived_nodup, hanswered.2, h.accounts.once.1⟩, fun hlist => ?_⟩
  · rw [h.accounts.analysed]
    exact h.accounts.arrived.map _
  · intro p hp
    obtain ⟨rst, hmem, -, hcode⟩ := h.accounts.returned p hp
    exact ⟨rst, hmem, hcode⟩
  · cases cur with
    | none =>
      by_contra hwait
      exact hlist (hphase.list (hphase.waits ▸ Bool.eq_false_iff.mpr hwait))
    | some req => exact hphase.waits

/-- Whatever the interleaving, the task serves the requests in the order of their arrival, one
at a time, and gives each its own result once; without new requests it comes to rest. -/
theorem requests_serialised (actions : List Action) (t : Sys) (htimely : Along step Timely actions .init)
    (hrun : run step actions .init = some t) :
    Serialised t ∧
      ∀ services u, (∀ action ∈ services, action.isRequest = false) → Along step Timely services t →
        run step services t = some u → services.length ≤ load t := by
  have hinv := inv_run htimely hrun
  obtain ⟨done, cur, h⟩ := hinv
  refine ⟨h.serialised, fun services u hservice htimely hrun => ?_⟩
  exact Nat.le_of_add_right_le (service_bounded ⟨done, cur, h⟩ htimely hservice hrun)

/-- A call arrives while a request waits for the stack. -/
def requestAndCall : List Action :=
  [.request ⟨[65, 84, 43, 65, 13], by decide, by decide, by decide⟩, .task ⟨⟨.other 1, .sent⟩, rfl⟩, .call 7 ⟨[65, 84, 43, 66, 13], by decide, by decide, by decide⟩,
    .task ⟨⟨.other 2, .excuted⟩, rfl⟩, .stack 0 (.cmee 50), .task ⟨⟨.other 2, .excuted⟩, rfl⟩, .callback,
    .proceed ⟨⟨.other 2, .excuted⟩, rfl⟩, .proceed ⟨⟨.other 3, .excuted⟩, rfl⟩, .ret 7]

theorem request_and_call_serialised :
    ∃ t, run step requestAndCall .init = some t ∧ Serialised t ∧ t.atc.rsps = [.cmee 50] ∧
      t.returned.map Prod.snd = [some appInterfaceResultSucc] :=
  ⟨_, rfl, (requests_serialised requestAndCall _ (by decide +kernel) rfl).1, rfl, rfl⟩

end NbiotXY1100.AtcSerialization
