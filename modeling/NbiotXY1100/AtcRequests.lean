import NbiotXY1100.AtcCascade
import NbiotXY1100.AtcNodes
import Mathlib.Data.List.Infix

/-! # The requests that reach the task

Any number of external requests and API calls reach the task, in any interleaving with the
answers of the protocol stack and with the threads that wait for a result. What the task
analysed, reported and released belongs to the requests that it has taken up. -/
namespace NbiotXY1100.AtcRequests
open AtcTask AtcNodes KeyedLists StepRuns

/-- A single command: its length is passed in 16 bits and it has no semicolon. -/
structure Command where
  text : List UInt8
  ne_nil : text ≠ []
  length_lt : text.length < 2 ^ 16
  single : semicolon ∉ text

/-- What becomes of a command that does not wait for a short message. -/
structure PlainAnalysis where
  analysis : Analysis
  plain : currEventChkIsWaitSmsPdu analysis.usEvent = false

/-- The task with its surroundings: the requests that arrived and the results of their
commands as the task or the stack determined them, the API calls that have not returned,
the semaphores that were released and not taken, and what the API calls returned. -/
structure Sys where
  atc : AtcApInfo
  arrived : List DataReq
  answered : List (DataReq × CmdRst)
  calls : List DataReq
  tokens : List ℕ
  returned : List (DataReq × Option ℕ)

def Sys.init : Sys := ⟨.init, [], [], [], [], []⟩

inductive Action where
  /-- `xy_atc_data_req` -/
  | request (cmd : Command)
  /-- `xy_atc_interface_call` up to its wait for the semaphore -/
  | call (sema : ℕ) (cmd : Command)
  | task (a : PlainAnalysis)
  | callback
  | proceed (a : PlainAnalysis)
  | stack (i : ℕ) (rst : CmdRst)
  /-- `xy_atc_interface_call` from its wait on -/
  | ret (sema : ℕ)

def Action.isRequest : Action → Bool
  | .request _ | .call _ _ => true
  | _ => false

def resultRst (ucResult : ℕ) : CmdRst :=
  if ucResult = commandEnd then .ok
  else if ucResult = commandParameterError ∨ ucResult = commandTooManyParameters then .cmee cmeIncorrectParameters
  else if ucResult = commandError then .cmee cmeOperNotSupported
  else .cmee cmeUnknown

/-- The result of a command that the stack does not get. -/
def localResult : Answer → Option CmdRst
  | .result ucResult => some (resultRst ucResult)
  | .excuted => some .ok
  | .sent => none
  | .notSent => some (.cmee cmeUnknown)

def resultCode : CmdRst → ℕ
  | .ok => appInterfaceResultSucc
  | _ => appInterfaceResultFail

def post (req : DataReq) (s : Sys) : Sys :=
  { s with
    atc := { s.atc with msgInfo := s.atc.msgInfo ++ [.dataReq req] }
    arrived := s.arrived ++ [req] }

def takes (req : Option DataReq) (a : Analysis) : List (DataReq × CmdRst) :=
  match req, localResult a.answer with
  | some req, some rst => [(req, rst)]
  | _, _ => []

/-- The task has run: its releases count, and a command that it executed itself has a result. -/
def afterTask (s : Sys) (results : List (DataReq × CmdRst)) (atc : AtcApInfo) : Sys :=
  { s with
    atc
    answered := s.answered ++ results
    tokens := s.tokens ++ (atc.releases.drop s.atc.releases.length).map Prod.fst }

/-- The request at the head of the queue, unless the task will save it. -/
def headReq (s : AtcApInfo) : Option DataReq :=
  match s.msgInfo with
  | .dataReq req :: _ => if s.ucWaitOKOrErrorFlg then none else some req
  | _ => none

/-- The request that a step of the task takes up. -/
def takenUp : Action → AtcApInfo → Option DataReq
  | .task _, s => headReq s
  | .proceed _, s => s.stAtcDataReqList.head?
  | _, _ => none

/-- A new semaphore has a handle that no other call uses. -/
def freshSema (sema : ℕ) (s : Sys) : Bool :=
  sema ≠ 0 && sema ≠ noCaller && !(s.calls.map DataReq.ulSemaId).contains sema

def step (action : Action) (s : Sys) : Option Sys :=
  match action with
  | .request cmd => some (post ⟨s.arrived.length, true, 0, cmd.text⟩ s)
  | .call sema cmd =>
    if freshSema sema s then
      let req := ⟨s.arrived.length, true, sema, cmd.text⟩
      some { post req s with calls := s.calls ++ [req] }
    else none
  | .task a => (taskEntry a.analysis s.atc).map (afterTask s (takes (takenUp action s.atc) a.analysis))
  | .callback => (taskEntryEventCallback s.atc).map (afterTask s [])
  | .proceed a => (taskContinue a.analysis s.atc).map (afterTask s (takes (takenUp action s.atc) a.analysis))
  | .stack i rst =>
    (stackAnswer i rst s.atc).map (afterTask s (s.atc.stack[i]?.toList.map fun cmd => (cmd.2, rst)))
  | .ret sema =>
    if s.tokens.contains sema then
      (s.calls.find? fun req => req.ulSemaId = sema).map fun req =>
        { s with
          atc := (appInterfaceCallEnd sema s.atc).2
          calls := s.calls.filter (· ≠ req)
          tokens := s.tokens.filter (· ≠ sema)
          returned := s.returned ++ [(req, (appInterfaceCallEnd sema s.atc).1)] }
    else none

/-- When an API request is accepted, no node of the list is 254 such requests old. -/
def Timely (action : Action) (s : Sys) : Prop :=
  ∀ req, takenUp action s.atc = some req → req.ulSemaId ≠ 0 →
    ∀ n ∈ s.atc.appNodes, s.atc.accepts < n.accept + 254

instance (action : Action) (s : Sys) : Decidable (Timely action s) :=
  decidable_of_iff (∀ req ∈ takenUp action s.atc, req.ulSemaId ≠ 0 →
    ∀ n ∈ s.atc.appNodes, s.atc.accepts < n.accept + 254) Iff.rfl

def Msg.req? : Msg → Option DataReq
  | .dataReq req => some req
  | .dataInd _ => none

def Msg.ind? : Msg → Option DataInd
  | .dataReq _ => none
  | .dataInd ind => some ind

/-- The requests that the task has not taken up, in order. -/
def waiting (s : AtcApInfo) : List DataReq := s.stAtcDataReqList ++ s.msgInfo.filterMap Msg.req?

/-- The message `ind` brings the result of a command. -/
def brings (ind : DataInd) : UInt8 × DataReq × Option CmdRst := (ind.ucSeqNum, ind.owner, some ind.rst)

/-- The results on their way from the stack. -/
def returning (s : AtcApInfo) : List (UInt8 × DataReq × Option CmdRst) :=
  (s.msgInfo.filterMap Msg.ind? ++ s.msgInfoEventCb.filter fun ind => ind.ucSeqNum = 0).map brings

/-- The commands that the stack has, and the results on their way from it. -/
def inflight (s : AtcApInfo) : List (UInt8 × DataReq × Option CmdRst) :=
  (s.stack.map fun cmd => (cmd.1, cmd.2, none)) ++ returning s

/-- A bound for the steps until nothing can move, when no request arrives. -/
def load (s : Sys) : ℕ :=
  9 * (s.atc.msgInfo.filterMap Msg.req?).length + 8 * s.atc.stAtcDataReqList.length + 7 * s.atc.stack.length +
    6 * (s.atc.msgInfo.filterMap Msg.ind?).length + 3 * s.atc.msgInfoEventCb.length + s.atc.listProcDue.toNat +
    s.tokens.length

/-! ### One request -/

structure IsCommand (req : DataReq) : Prop where
  external : req.ucExternalFlg = true
  ne_nil : req.aucMsgData ≠ []
  single : semicolon ∉ req.aucMsgData

theorem Command.isCommand (cmd : Command) (ticket sema : ℕ) : IsCommand ⟨ticket, true, sema, cmd.text⟩ :=
  ⟨rfl, cmd.ne_nil, cmd.single⟩

theorem isCascateAtChk_single {req : DataReq} {s : AtcApInfo} (h : IsCommand req)
    (hcascade : s.atCascateInfo.ucCascadeAtFlg = false) (hevent : currEventChkIsWaitSmsPdu s.usCurrEvent = false) :
    isCascateAtChk req s = (false, { s with atCascateInfo := { s.atCascateInfo with ucCascadeAtCnt := 1 } }) := by
  have hpos : 0 < req.aucMsgData.length := List.length_pos_iff.mpr h.ne_nil
  have hfst : (countSemicolons req.aucMsgData 0 (0, 0)).1 = 0 := by
    rw [AtcCascade.countSemicolons_fst, List.count_eq_zero.mpr h.single]
    rfl
  have hsnd := @AtcCascade.countSemicolons_snd_lt req.aucMsgData 0 _ (0, 0) hpos (Nat.le_of_eq (Nat.zero_add _))
  unfold isCascateAtChk
  rw [if_neg (by simp [h.external]), if_neg (by simp [hcascade]), if_neg (by simp [hevent])]
  dsimp only
  rw [if_pos hsnd, hfst]
  rfl

/-- The task has taken up a request. -/
def accepted (req : DataReq) (s : AtcApInfo) : AtcApInfo :=
  if req.ulSemaId = 0 then { s with ucWaitOKOrErrorFlg := true, ucUserAtFlg := false }
  else addAppInterfaceInfo req { s with ucWaitOKOrErrorFlg := true, ucUserAtFlg := true }

/-- The text of a single command was analysed. -/
def started (usEvent : CurrEvent) (req : DataReq) (s : AtcApInfo) : AtcApInfo :=
  { s with
    usCurrEvent := usEvent
    analysed := s.analysed ++ [req.aucMsgData]
    atCascateInfo := { s.atCascateInfo with ucCascadeAtCnt := 1 } }

theorem dataReqResultHandle_resultRst (ucResult : ℕ) :
    dataReqResultHandle ucResult = msgProcAtCmdRst (resultRst ucResult) := by
  unfold dataReqResultHandle resultRst
  split
  · rfl
  · split
    · rfl
    · split
      · rfl
      · rfl

theorem dataReqProcAtCmd_single {a : Analysis} {req : DataReq} {s : AtcApInfo} (h : IsCommand req)
    (hcascade : s.atCascateInfo.ucCascadeAtFlg = false) (hevent : currEventChkIsWaitSmsPdu s.usCurrEvent = false) :
    dataReqProcAtCmd a req s =
      match localResult a.answer with
      | some rst => msgProcAtCmdRst rst (started a.usEvent req s)
      | none => sndDataReqToShm req (started a.usEvent req s) := by
  rw [dataReqProcAtCmd, isCascateAtChk_single h hcascade hevent]
  cases ha : a.answer with
  | result r => exact congrFun (dataReqResultHandle_resultRst r) _
  | excuted => rfl
  | sent => rfl
  | notSent => rfl

theorem accepted_external {req : DataReq} {s : AtcApInfo} (h : req.ulSemaId = 0) :
    accepted req s = { s with ucWaitOKOrErrorFlg := true, ucUserAtFlg := false } := if_pos h

theorem accepted_api {req : DataReq} {s : AtcApInfo} (h : req.ulSemaId ≠ 0) :
    accepted req s = addAppInterfaceInfo req { s with ucWaitOKOrErrorFlg := true, ucUserAtFlg := true } := if_neg h

/-- A free task takes up a request. -/
theorem msgProcAtcApDataReq_free {a : Analysis} {req : DataReq} {s : AtcApInfo} (h : IsCommand req)
    (hcascade : s.atCascateInfo.ucCascadeAtFlg = false) (hevent : currEventChkIsWaitSmsPdu s.usCurrEvent = false)
    (hfree : s.ucWaitOKOrErrorFlg = false) :
    msgProcAtcApDataReq a req s =
      match localResult a.answer with
      | some rst => msgProcAtCmdRst rst (started a.usEvent req (accepted req s))
      | none => sndDataReqToShm req (started a.usEvent req (accepted req s)) := by
  have hproc : msgProcAtcApDataReq a req s = dataReqProcAtCmd a req (accepted req s) := by
    unfold msgProcAtcApDataReq
    rw [if_pos h.external, if_neg (by simp [hevent]), if_neg (by simp [hfree])]
    rfl
  rw [hproc]
  by_cases hsema : req.ulSemaId = 0
  · rw [accepted_external hsema]
    exact dataReqProcAtCmd_single h hcascade hevent
  · rw [accepted_api hsema]
    exact dataReqProcAtCmd_single h hcascade hevent

/-- With a single command every result is reported. -/
theorem msgProcAtCmdRst_single {s : AtcApInfo} (hcnt : s.atCascateInfo.ucCascadeAtCnt = 1) (rst : CmdRst) :
    msgProcAtCmdRst rst s = reportResult (resultCode rst) rst { s with usCurrEvent := .other 0xFFFF } := by
  have hne : s.atCascateInfo.ucCascadeAtCnt ≠ 0 := by simp [hcnt]
  cases rst with
  | ok => exact AtcCascade.sendOkRsp_last (by simp [hcnt]) hne
  | cmee code => exact AtcCascade.sendErr_report hne _
  | cms code => exact AtcCascade.sendErr_report hne _

/-! ### Requests and their results -/

/-- The requests that were taken up: those with a result and the one at hand. -/
def taken (done : List (DataReq × CmdRst)) (cur : Option DataReq) : List DataReq :=
  done.map Prod.fst ++ cur.toList

/-- What was analysed, reported and released belongs to the requests that were taken up. -/
structure Accounts (done : List (DataReq × CmdRst)) (cur : Option DataReq) (s : Sys) : Prop where
  arrived : taken done cur <+: s.arrived
  commands : ∀ req ∈ s.arrived, IsCommand req
  tickets : s.arrived.map DataReq.ticket = List.range s.arrived.length
  analysed : s.atc.analysed = (taken done cur).map DataReq.aucMsgData
  rsps : s.atc.rsps = (done.filter fun p => p.1.ulSemaId = 0).map Prod.snd
  releases : s.atc.releases =
    (done.filter fun p => p.1.ulSemaId ≠ 0).map fun p => (p.1.ulSemaId, resultCode p.2)
  numbered : ∃ base, Numbered s.atc base
  owners : s.atc.appNodes.map AppInterfaceNode.owner = (taken done cur).filter (· ∈ s.calls)
  semaphores : ∀ n ∈ s.atc.appNodes, n.ulSemaphore = n.owner.ulSemaId
  codes : ∀ n ∈ s.atc.appNodes, ∀ rst, (n.owner, rst) ∈ done → n.ucResult = resultCode rst
  newest : ∀ n ∈ s.atc.appNodes, cur = some n.owner → n.accept + 1 = s.atc.accepts
  callers : ∀ req ∈ s.calls, req ∈ s.arrived ∧ req.ulSemaId ≠ 0 ∧ req.ulSemaId ≠ noCaller
  semas : (s.calls.map DataReq.ulSemaId).Nodup
  calls : ∀ req ∈ s.arrived, req.ulSemaId ≠ 0 → req ∈ s.calls ∨ req ∈ s.returned.map Prod.fst
  tokens : s.tokens = ((done.map Prod.fst).filter (· ∈ s.calls)).map DataReq.ulSemaId
  returned : ∀ p ∈ s.returned, ∃ rst, (p.1, rst) ∈ done ∧ p.1.ulSemaId ≠ 0 ∧ p.2 = some (resultCode rst)
  once : (s.returned.map Prod.fst).Nodup ∧ ∀ p ∈ s.returned, p.1 ∉ s.calls

theorem accounts_init : Accounts [] none .init := by
  refine ⟨List.nil_prefix, ?_, rfl, rfl, rfl, rfl, ⟨0, numbered_init⟩, rfl, ?_, ?_, ?_, ?_, .nil, ?_, rfl, ?_, .nil, ?_⟩
  all_goals exact fun _ h => (List.not_mem_nil h).elim

variable {done : List (DataReq × CmdRst)} {cur : Option DataReq} {s : Sys} {req : DataReq}

/-- Other parts of the task may change. -/
theorem Accounts.congr {atc : AtcApInfo} {answered : List (DataReq × CmdRst)} (h : Accounts done cur s) (hanalysed : atc.analysed = s.atc.analysed)
    (hrsps : atc.rsps = s.atc.rsps) (hreleases : atc.releases = s.atc.releases)
    (hseq : atc.appSeqNum = s.atc.appSeqNum) (haccepts : atc.accepts = s.atc.accepts)
    (hnodes : atc.appNodes = s.atc.appNodes) : Accounts done cur { s with atc, answered } := by
  obtain ⟨base, hnum⟩ := h.numbered
  refine ⟨h.arrived, h.commands, h.tickets, hanalysed.trans h.analysed, hrsps.trans h.rsps,
    hreleases.trans h.releases, ⟨base, hnum.congr hseq haccepts hnodes⟩, ?_, ?_, ?_, ?_, h.callers, h.semas, h.calls,
    h.tokens, h.returned, h.once⟩
  · exact (congrArg _ hnodes).trans h.owners
  · exact fun n hn => h.semaphores n (hnodes ▸ hn)
  · exact fun n hn => h.codes n (hnodes ▸ hn)
  · exact fun n hn hcur => (h.newest n (hnodes ▸ hn) hcur).trans haccepts.symm

theorem Accounts.arrived_nodup (h : Accounts done cur s) : s.arrived.Nodup :=
  List.Nodup.of_map DataReq.ticket (h.tickets ▸ List.nodup_range)

theorem Accounts.taken_nodup (h : Accounts done cur s) : (taken done cur).Nodup :=
  h.arrived_nodup.sublist h.arrived.sublist

theorem Accounts.mem_arrived (h : Accounts done cur s) (hreq : req ∈ taken done cur) : req ∈ s.arrived :=
  h.arrived.subset hreq

theorem Accounts.not_mem_done (h : Accounts done (some req) s) : req ∉ done.map Prod.fst := by
  intro hmem
  exact (List.nodup_append.mp h.taken_nodup).2.2 req hmem req (List.mem_singleton_self req) rfl

/-- A call that is at hand has not returned. -/
theorem Accounts.mem_calls (h : Accounts done (some req) s) (hsema : req.ulSemaId ≠ 0) : req ∈ s.calls := by
  have harrived := h.mem_arrived (List.mem_append_right (done.map Prod.fst) (List.mem_singleton_self req))
  rcases h.calls req harrived hsema with hcall | hreturned
  · exact hcall
  · obtain ⟨p, hp, rfl⟩ := List.mem_map.mp hreturned
    obtain ⟨rst, hdone, -, -⟩ := h.returned p hp
    exact absurd (List.mem_map_of_mem hdone) h.not_mem_done

theorem Accounts.mem_owners (h : Accounts done cur s) {n : AppInterfaceNode} (hn : n ∈ s.atc.appNodes) :
    n.owner ∈ taken done cur ∧ n.owner ∈ s.calls := by
  have hmem : n.owner ∈ (taken done cur).filter (· ∈ s.calls) := h.owners ▸ List.mem_map_of_mem hn
  rw [List.mem_filter, decide_eq_true_eq] at hmem
  exact hmem

theorem Accounts.owners_nodup (h : Accounts done cur s) : (s.atc.appNodes.map AppInterfaceNode.owner).Nodup :=
  h.owners ▸ h.taken_nodup.filter _

theorem Accounts.not_mem_calls (h : Accounts done cur s) (hsema : req.ulSemaId = 0) : req ∉ s.calls :=
  fun hcall => (h.callers req hcall).2.1 hsema

theorem taken_append (done : List (DataReq × CmdRst)) (req : DataReq) (rst : CmdRst) :
    taken (done ++ [(req, rst)]) none = taken done (some req) := by
  simp [taken]

theorem taken_some (done : List (DataReq × CmdRst)) (req : DataReq) :
    taken done (some req) = taken done none ++ [req] := by
  simp [taken]

/-- The next request is taken up. -/
theorem Accounts.start (h : Accounts done none s) (hnext : taken done (some req) <+: s.arrived)
    (hage : req.ulSemaId ≠ 0 → ∀ n ∈ s.atc.appNodes, s.atc.accepts < n.accept + 254) (usEvent : CurrEvent) :
    Accounts done (some req) { s with atc := started usEvent req (accepted req s.atc) } := by
  have hnodup : (taken done (some req)).Nodup := h.arrived_nodup.sublist hnext.sublist
  have hnot : req ∉ taken done none := by
    intro hmem
    rw [taken_some] at hnodup
    exact (List.nodup_append.mp hnodup).2.2 req hmem req (List.mem_singleton_self req) rfl
  have hanalysed : s.atc.analysed ++ [req.aucMsgData] = (taken done (some req)).map DataReq.aucMsgData := by
    rw [h.analysed, taken_some, List.map_append]
    rfl
  obtain ⟨base, hnum⟩ := h.numbered
  by_cases hsema : req.ulSemaId = 0
  · rw [accepted_external hsema]
    refine ⟨hnext, h.commands, h.tickets, hanalysed, h.rsps, h.releases, ⟨base, hnum.congr rfl rfl rfl⟩, ?_,
      h.semaphores, h.codes, ?_, h.callers, h.semas, h.calls, h.tokens, h.returned, h.once⟩
    · have hcall : [req].filter (· ∈ s.calls) = [] := by
        rw [List.filter_singleton]
        simp [h.not_mem_calls hsema]
      rw [taken_some, List.filter_append, hcall, List.append_nil]
      exact h.owners
    · intro n hn hcur
      exact absurd (Option.some.inj hcur ▸ (h.mem_owners hn).2) (h.not_mem_calls hsema)
  · have harrived : req ∈ s.arrived := hnext.subset (by simp [taken])
    have hcall : req ∈ s.calls := by
      rcases h.calls req harrived hsema with hcall | hreturned
      · exact hcall
      · obtain ⟨p, hp, rfl⟩ := List.mem_map.mp hreturned
        obtain ⟨rst, hdone, -, -⟩ := h.returned p hp
        exact absurd (List.mem_append_left _ (List.mem_map_of_mem hdone)) hnot
    have hnum' : Numbered { s.atc with ucWaitOKOrErrorFlg := true, ucUserAtFlg := true } base :=
      hnum.congr rfl rfl rfl
    rw [accepted_api hsema]
    refine ⟨hnext, h.commands, h.tickets, hanalysed, h.rsps, h.releases,
      ⟨base, (hnum'.add (hage hsema) req).congr rfl rfl rfl⟩, ?_, ?_, ?_, ?_, h.callers, h.semas, h.calls, h.tokens,
      h.returned, h.once⟩
    · have hkept : [req].filter (· ∈ s.calls) = [req] := by
        rw [List.filter_singleton]
        simp [hcall]
      rw [taken_some, List.filter_append, hkept, ← h.owners]
      exact List.map_append
    · intro n hn
      rcases List.mem_append.mp hn with hn | hn
      · exact h.semaphores n hn
      · rw [List.mem_singleton.mp hn]
    · intro n hn rst hdone
      rcases List.mem_append.mp hn with hn | hn
      · exact h.codes n hn rst hdone
      · rw [List.mem_singleton.mp hn] at hdone
        exact absurd (List.mem_append_left _ (List.mem_map_of_mem hdone)) hnot
    · intro n hn hcur
      rcases List.mem_append.mp hn with hn | hn
      · exact absurd (Option.some.inj hcur ▸ (h.mem_owners hn).1) hnot
      · rw [List.mem_singleton.mp hn]
        rfl

/-- The request has its result: the task goes on with the next one. -/
def finished (req : DataReq) (rst : CmdRst) (s : AtcApInfo) : AtcApInfo :=
  { s with
    usCurrEvent := .other 0xFFFF
    ucTempSeqNum := 0
    atCascateInfo := .zero
    listProcDue := true
    appNodes := s.appNodes.map fun n => if n.owner = req then { n with ucResult := resultCode rst } else n
    rsps := if req.ulSemaId = 0 then s.rsps ++ [rst] else s.rsps
    releases := if req.ulSemaId = 0 then s.releases else s.releases ++ [(req.ulSemaId, resultCode rst)] }

/-- The node of the call that is at hand. -/
theorem Accounts.current_node (h : Accounts done (some req) s) (hsema : req.ulSemaId ≠ 0) :
    ∃ n ∈ s.atc.appNodes, n.owner = req ∧ n.ucSeqNum = s.atc.appSeqNum ∧ s.atc.appSeqNum ≠ 0 := by
  have howner : req ∈ s.atc.appNodes.map AppInterfaceNode.owner := by
    rw [h.owners, List.mem_filter]
    exact ⟨by simp [taken], decide_eq_true (h.mem_calls hsema)⟩
  obtain ⟨n, hn, rfl⟩ := List.mem_map.mp howner
  obtain ⟨base, hnum⟩ := h.numbered
  exact ⟨n, hn, rfl, hnum.newest hn (h.newest n hn rfl)⟩

/-- The result of an API request goes into the node with its number, and its caller is released. -/
theorem Accounts.cmdRstProc (h : Accounts done (some req) s) (hsema : req.ulSemaId ≠ 0) (code : ℕ) :
    appInterfaceInfoCmdRstProc s.atc.appSeqNum code s.atc =
      { s.atc with
        appNodes := s.atc.appNodes.map fun n => if n.owner = req then { n with ucResult := code } else n
        releases := s.atc.releases ++ [(req.ulSemaId, code)] } := by
  obtain ⟨n, hn, howner, hseq, -⟩ := h.current_node hsema
  obtain ⟨base, hnum⟩ := h.numbered
  have hcaller : n.ulSemaphore = req.ulSemaId := by rw [h.semaphores n hn, howner]
  have hfind := find?_key hnum.nodup hn
  have hupdate := updateFirst_key hnum.nodup n.ucSeqNum fun n => { n with ucResult := code }
  rw [hseq] at hfind hupdate
  have hsame : (s.atc.appNodes.map fun m => if m.ucSeqNum = s.atc.appSeqNum then { m with ucResult := code } else m) =
      s.atc.appNodes.map fun m => if m.owner = req then { m with ucResult := code } else m := by
    apply List.map_congr_left
    intro m hm
    have hiff : m.ucSeqNum = s.atc.appSeqNum ↔ m.owner = req := by
      rw [← hseq, ← howner]
      constructor
      · exact fun heq => congrArg _ (List.inj_on_of_nodup_map hnum.nodup hm hn heq)
      · exact fun heq => congrArg _ (List.inj_on_of_nodup_map h.owners_nodup hm hn heq)
    simp only [hiff]
  unfold appInterfaceInfoCmdRstProc
  rw [hfind]
  dsimp only
  rw [if_pos (hcaller ▸ (h.callers req (h.mem_calls hsema)).2.2), hupdate, hsame, hcaller]

theorem Accounts.msgProcAtCmdRst (h : Accounts done (some req) s) (hcnt : s.atc.atCascateInfo.ucCascadeAtCnt = 1)
    (huser : s.atc.ucUserAtFlg = decide (req.ulSemaId ≠ 0))
    (htemp : s.atc.ucTempSeqNum = if req.ulSemaId = 0 then 0 else s.atc.appSeqNum) (rst : CmdRst) :
    AtcTask.msgProcAtCmdRst rst s.atc = finished req rst s.atc := by
  rw [msgProcAtCmdRst_single hcnt, finished]
  by_cases hsema : req.ulSemaId = 0
  · have hsame : (s.atc.appNodes.map fun n => if n.owner = req then { n with ucResult := resultCode rst } else n) =
        s.atc.appNodes := by
      rw [List.map_congr_left (fun n hn => if_neg fun howner => ?_), List.map_id']
      exact h.not_mem_calls hsema (howner ▸ (h.mem_owners hn).2)
    simp only [hsema, if_true] at htemp
    simp only [reportResult, huser, htemp, hsema, hsame]
    rfl
  · obtain ⟨n, hn, howner, hseq, hne⟩ := h.current_node hsema
    have hproc := @Accounts.cmdRstProc done { s with atc := { s.atc with usCurrEvent := .other 0xFFFF } } req
      (h.congr rfl rfl rfl rfl rfl rfl) hsema (resultCode rst)
    rw [if_neg hsema] at htemp
    dsimp only at hproc
    rw [htemp] at hproc
    rw [reportResult]
    dsimp only
    rw [htemp, if_pos hne, hproc]
    simp only [huser, hsema, ne_eq, not_false_eq_true, decide_true, if_true, if_false]

theorem afterTask_same {results : List (DataReq × CmdRst)} {atc : AtcApInfo} (h : atc.releases = s.atc.releases) :
    afterTask s results atc = { s with atc, answered := s.answered ++ results } := by
  simp [afterTask, h]

/-- A request that has its result is accounted for, and its caller may go on. -/
theorem Accounts.finish (h : Accounts done (some req) s) (results : List (DataReq × CmdRst)) (rst : CmdRst) :
    Accounts (done ++ [(req, rst)]) none (afterTask s results (finished req rst s.atc)) := by
  have htaken := taken_append done req rst
  obtain ⟨base, hnum⟩ := h.numbered
  have hset : ∀ (n : AppInterfaceNode), (if n.owner = req then { n with ucResult := resultCode rst } else n).owner = n.owner :=
    fun n => by split <;> rfl
  refine ⟨htaken ▸ h.arrived, h.commands, h.tickets, ?_, ?_, ?_, ⟨base, ?_⟩, ?_, ?_, ?_, fun _ _ hcur => (nomatch hcur),
    h.callers, h.semas, h.calls, ?_, ?_, h.once⟩
  · rw [htaken]
    exact h.analysed
  · rw [List.filter_append, List.map_append, ← h.rsps]
    by_cases hsema : req.ulSemaId = 0
    · simp [afterTask, finished, hsema]
    · simp [afterTask, finished, hsema]
  · rw [List.filter_append, List.map_append, ← h.releases]
    by_cases hsema : req.ulSemaId = 0
    · simp [afterTask, finished, hsema]
    · simp [afterTask, finished, hsema]
  · refine (hnum.update _ ?_ ?_).congr rfl rfl rfl
    · exact fun n => by split <;> rfl
    · exact fun n => by split <;> rfl
  · rw [htaken]
    refine Eq.trans ?_ h.owners
    show (s.atc.appNodes.map _).map AppInterfaceNode.owner = _
    rw [List.map_map]
    exact List.map_congr_left fun n _ => hset n
  · intro m hm
    obtain ⟨n, hn, rfl⟩ := List.mem_map.mp hm
    have hsame := h.semaphores n hn
    split
    · exact hsame
    · exact hsame
  · intro m hm rst' hdone
    obtain ⟨n, hn, rfl⟩ := List.mem_map.mp hm
    rw [hset] at hdone
    by_cases howner : n.owner = req
    · rw [if_pos howner]
      rw [howner] at hdone
      rcases List.mem_append.mp hdone with hdone | hdone
      · exact absurd (List.mem_map_of_mem hdone) h.not_mem_done
      · cases List.mem_singleton.mp hdone
        rfl
    · rw [if_neg howner]
      rcases List.mem_append.mp hdone with hdone | hdone
      · exact h.codes n hn rst' hdone
      · exact absurd (congrArg Prod.fst (List.mem_singleton.mp hdone)) howner
  · have hfst : (done ++ [(req, rst)]).map Prod.fst = done.map Prod.fst ++ [req] := List.map_append
    show s.tokens ++ ((finished req rst s.atc).releases.drop s.atc.releases.length).map Prod.fst =
      (((done ++ [(req, rst)]).map Prod.fst).filter (· ∈ s.calls)).map DataReq.ulSemaId
    rw [hfst, List.filter_append, List.map_append, ← h.tokens, List.filter_singleton]
    by_cases hsema : req.ulSemaId = 0
    · have hcall := h.not_mem_calls hsema
      simp [finished, hsema, hcall]
    · have hcall := h.mem_calls hsema
      simp [finished, hsema, hcall]
  · intro p hp
    obtain ⟨rst', hdone, hsema, hcode⟩ := h.returned p hp
    exact ⟨rst', List.mem_append_left _ hdone, hsema, hcode⟩

/-- A request reaches the queue of the task, from a caller if it is an API request. -/
theorem Accounts.post (h : Accounts done cur s) {news : List DataReq} (hcommand : IsCommand req)
    (hticket : req.ticket = s.arrived.length) (hnews : news = if req.ulSemaId = 0 then [] else [req])
    (hfresh : req.ulSemaId ≠ 0 → req.ulSemaId ≠ noCaller ∧ req.ulSemaId ∉ s.calls.map DataReq.ulSemaId) :
    Accounts done cur { post req s with calls := s.calls ++ news } := by
  have hnew : ∀ r ∈ news, r = req ∧ req.ulSemaId ≠ 0 := by
    intro r hr
    rw [hnews] at hr
    split at hr
    next => cases hr
    next hsema => exact ⟨List.mem_singleton.mp hr, hsema⟩
  have hunknown : req ∉ s.arrived := by
    intro hmem
    have hrange := List.mem_map_of_mem (f := DataReq.ticket) hmem
    rw [h.tickets, List.mem_range, hticket] at hrange
    exact Nat.lt_irrefl _ hrange
  have hcalls : ∀ r ∈ s.arrived, (r ∈ s.calls ++ news ↔ r ∈ s.calls) := by
    intro r hr
    rw [List.mem_append, or_iff_left]
    exact fun hmem => hunknown ((hnew r hmem).1 ▸ hr)
  have hfilter : ∀ l : List DataReq, (∀ r ∈ l, r ∈ s.arrived) →
      l.filter (· ∈ s.calls ++ news) = l.filter (· ∈ s.calls) := by
    intro l hl
    apply List.filter_congr
    intro r hr
    rw [decide_eq_decide]
    exact hcalls r (hl r hr)
  refine ⟨h.arrived.trans (List.prefix_append _ _), ?_, ?_, h.analysed, h.rsps, h.releases, ?_, ?_, h.semaphores,
    h.codes, h.newest, ?_, ?_, ?_, ?_, h.returned, h.once.1, ?_⟩
  · intro r hr
    rcases List.mem_append.mp hr with hr | hr
    · exact h.commands r hr
    · exact List.mem_singleton.mp hr ▸ hcommand
  · show (s.arrived ++ [req]).map DataReq.ticket = List.range (s.arrived ++ [req]).length
    rw [List.map_append, h.tickets, List.length_append, List.length_singleton, List.range_succ, ← hticket]
    rfl
  · obtain ⟨base, hnum⟩ := h.numbered
    exact ⟨base, hnum.congr rfl rfl rfl⟩
  · exact h.owners.trans (hfilter _ fun r hr => h.mem_arrived hr).symm
  · intro r hr
    rcases List.mem_append.mp hr with hr | hr
    · exact ⟨List.mem_append_left _ (h.callers r hr).1, (h.callers r hr).2⟩
    · obtain ⟨rfl, hsema⟩ := hnew r hr
      exact ⟨List.mem_append_right _ (List.mem_singleton_self r), hsema, (hfresh hsema).1⟩
  · show ((s.calls ++ news).map DataReq.ulSemaId).Nodup
    rw [List.map_append, hnews]
    split
    next => simpa using h.semas
    next hsema =>
      refine List.nodup_append.mpr ⟨h.semas, List.nodup_singleton _, fun x hx y hy heq => ?_⟩
      exact (hfresh hsema).2 (List.mem_singleton.mp hy ▸ heq ▸ hx)
  · intro r hr hsema
    rcases List.mem_append.mp hr with hr | hr
    · exact (h.calls r hr hsema).imp_left (List.mem_append_left _)
    · obtain rfl := List.mem_singleton.mp hr
      refine Or.inl (List.mem_append_right _ ?_)
      rw [hnews, if_neg hsema]
      exact List.mem_singleton_self r
  · refine h.tokens.trans (congrArg _ (hfilter _ fun r hr => ?_).symm)
    exact h.mem_arrived (List.mem_append_left _ hr)
  · intro p hp hmem
    obtain ⟨rst, hdone, -, -⟩ := h.returned p hp
    have harrived : p.1 ∈ s.arrived := h.mem_arrived (List.mem_append_left _ (List.mem_map_of_mem hdone))
    exact h.once.2 p hp ((hcalls p.1 harrived).mp hmem)

/-- A call returns the result of its own request. -/
theorem Accounts.ret (h : Accounts done cur s) {sema : ℕ} (htoken : sema ∈ s.tokens) :
    ∃ req rst, (req, rst) ∈ done ∧ req.ulSemaId = sema ∧ req ∈ s.calls ∧
      (s.calls.find? fun r => r.ulSemaId = sema) = some req ∧
      appInterfaceCallEnd sema s.atc =
        (some (resultCode rst), delAppInterfaceResult (fun n => n.ulSemaphore = sema) s.atc) ∧
      s.atc.appNodes.eraseP (fun n => n.ulSemaphore = sema) = s.atc.appNodes.filter fun n => n.owner ≠ req := by
  rw [h.tokens] at htoken
  obtain ⟨req, hreq, rfl⟩ := List.mem_map.mp htoken
  rw [List.mem_filter, decide_eq_true_eq] at hreq
  obtain ⟨hdone, hcall⟩ := hreq
  obtain ⟨p, hp, rfl⟩ := List.mem_map.mp hdone
  have howner : p.1 ∈ s.atc.appNodes.map AppInterfaceNode.owner := by
    rw [h.owners, List.mem_filter]
    exact ⟨List.mem_append_left _ hdone, decide_eq_true hcall⟩
  obtain ⟨n, hn, hnowner⟩ := List.mem_map.mp howner
  have hsemas : ∀ m ∈ s.atc.appNodes, ∀ k ∈ s.atc.appNodes, m.ulSemaphore = k.ulSemaphore → m.owner = k.owner := by
    intro m hm k hk heq
    rw [h.semaphores m hm, h.semaphores k hk] at heq
    exact List.inj_on_of_nodup_map h.semas (h.mem_owners hm).2 (h.mem_owners hk).2 heq
  have hnodup : (s.atc.appNodes.map AppInterfaceNode.ulSemaphore).Nodup := by
    refine List.Nodup.map_on (fun m hm k hk heq => ?_) (List.Nodup.of_map _ h.owners_nodup)
    exact List.inj_on_of_nodup_map h.owners_nodup hm hk (hsemas m hm k hk heq)
  have hsema : n.ulSemaphore = p.1.ulSemaId := by rw [h.semaphores n hn, hnowner]
  have hfind := find?_key hnodup hn
  rw [hsema] at hfind
  refine ⟨p.1, p.2, hp, rfl, hcall, find?_key h.semas hcall, ?_, ?_⟩
  · rw [appInterfaceCallEnd, hfind]
    dsimp only
    rw [h.codes n hn p.2 (hnowner.symm ▸ hp)]
  · rw [eraseP_key hnodup]
    apply List.filter_congr
    intro m hm
    rw [decide_eq_decide, not_iff_not, ← hsema, ← hnowner]
    constructor
    · exact hsemas m hm n hn
    · exact fun heq => by rw [h.semaphores m hm, h.semaphores n hn, heq]

/-- The node of a call that returned leaves the list. -/
theorem Accounts.remove (h : Accounts done cur s) {rst : CmdRst} (hdone : (req, rst) ∈ done) (hcall : req ∈ s.calls)
    {test : AppInterfaceNode → Bool}
    (herase : s.atc.appNodes.eraseP test = s.atc.appNodes.filter fun n => n.owner ≠ req) :
    Accounts done cur { s with
      atc := delAppInterfaceResult test s.atc
      calls := s.calls.filter (· ≠ req)
      tokens := s.tokens.filter (· ≠ req.ulSemaId)
      returned := s.returned ++ [(req, some (resultCode rst))] } := by
  have hsub : s.atc.appNodes.eraseP test ⊆ s.atc.appNodes := List.eraseP_subset
  have hmem : ∀ r, r ∈ s.calls.filter (· ≠ req) ↔ r ∈ s.calls ∧ r ≠ req := by
    intro r
    rw [List.mem_filter, decide_eq_true_eq]
  have hfilter : ∀ l : List DataReq,
      l.filter (· ∈ s.calls.filter (· ≠ req)) = (l.filter (· ∈ s.calls)).filter (· ≠ req) := by
    intro l
    rw [List.filter_filter]
    apply List.filter_congr
    intro r _
    rw [← Bool.decide_and, decide_eq_decide, hmem, and_comm]
  obtain ⟨base, hnum⟩ := h.numbered
  refine ⟨h.arrived, h.commands, h.tickets, h.analysed, h.rsps, h.releases, hnum.del test, ?_,
    fun n hn => h.semaphores n (hsub hn), fun n hn => h.codes n (hsub hn), fun n hn => h.newest n (hsub hn), ?_, ?_, ?_,
    ?_, ?_, ?_, ?_⟩
  · show (s.atc.appNodes.eraseP test).map AppInterfaceNode.owner =
      (taken done cur).filter (· ∈ s.calls.filter (· ≠ req))
    rw [herase, hfilter, ← h.owners, List.filter_map]
    rfl
  · exact fun r hr => h.callers r ((hmem r).mp hr).1
  · exact h.semas.sublist (List.filter_sublist.map _)
  · intro r hr hsema
    show r ∈ s.calls.filter (· ≠ req) ∨ r ∈ (s.returned ++ [(req, some (resultCode rst))]).map Prod.fst
    rw [hmem, List.map_append, List.mem_append]
    by_cases heq : r = req
    · exact Or.inr (Or.inr (heq ▸ List.mem_singleton_self r))
    · exact (h.calls r hr hsema).imp (⟨·, heq⟩) Or.inl
  · show s.tokens.filter (· ≠ req.ulSemaId) = _
    rw [h.tokens, hfilter, List.filter_map]
    congr 1
    apply List.filter_congr
    intro r hr
    rw [List.mem_filter, decide_eq_true_eq] at hr
    rw [Function.comp_apply, decide_eq_decide, not_iff_not]
    exact ⟨List.inj_on_of_nodup_map h.semas hr.2 hcall, congrArg _⟩
  · intro p hp
    rcases List.mem_append.mp hp with hp | hp
    · exact h.returned p hp
    · obtain rfl := List.mem_singleton.mp hp
      exact ⟨rst, hdone, (h.callers req hcall).2.1, rfl⟩
  · show ((s.returned ++ [(req, some (resultCode rst))]).map Prod.fst).Nodup
    rw [List.map_append]
    refine List.nodup_append.mpr ⟨h.once.1, List.nodup_singleton _, fun r hr r' hr' heq => ?_⟩
    obtain ⟨p, hp, rfl⟩ := List.mem_map.mp hr
    exact h.once.2 p hp ((heq.trans (List.mem_singleton.mp hr')).symm ▸ hcall)
  · intro p hp hcall'
    rcases List.mem_append.mp hp with hp | hp
    · exact h.once.2 p hp ((hmem p.1).mp hcall').1
    · obtain rfl := List.mem_singleton.mp hp
      exact ((hmem req).mp hcall').2 rfl

end NbiotXY1100.AtcRequests
