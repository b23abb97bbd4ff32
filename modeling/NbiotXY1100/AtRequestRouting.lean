import NbiotXY1100.AtUtils
import NbiotXY1100.StepRuns
import Mathlib.Data.List.Infix
import Mathlib.Data.List.Perm.Subperm
import Mathlib.Logic.Function.Basic
import Mathlib.Tactic.SplitIfs

/-! # Forwarding requests to the protocol stack and routing its answers

The `at_ctl` thread takes requests of the UART and of `at_ReqAndRsp_to_ps` callers from one
queue and forwards them through the single nearps context, whose link says where the next
answer goes. Time-outs run beside it. Requests of the command tables are answered by the
proxy thread and are not forwarded here. -/
namespace NbiotXY1100.AtRequestRouting
open AtUtils StepRuns

/-- `FARPS_UART_FD` and the user contexts; user 0 is `FARPS_USER_PROXY`. -/
inductive Fd where
  | uart
  | user (k : Fin 5)
  deriving DecidableEq, Repr

/-- A request with the context that sent it and the call of `at_ReqAndRsp_to_ps` that owned
the context then. -/
structure Request where
  fd : Fd
  call : ℕ
  data : List UInt8
  deriving DecidableEq, Repr

/-- The messages of `at_msg_q`; `answers` is the request whose final result this is. -/
inductive AtMsg where
  | fromFarps (req : Request)
  | fromNearps (data : List UInt8) (answers : Option Request)
  deriving DecidableEq, Repr

/-- What a caller finds in its queue. -/
inductive Rsp where
  | text (data : List UInt8)
  | waitTimeout
  deriving DecidableEq, Repr

structure NearpsCtx where
  sendReqNow : Bool
  fwdCtx : Option Fd
  atCmdPrefix : List UInt8
  deriving DecidableEq, Repr

structure UartCtx where
  rcvReqNow : Bool
  retransCount : ℕ
  deriving DecidableEq, Repr

/-- A context in the dictionary together with the queue and the timer of its call. -/
structure UserCtx where
  call : ℕ
  rspQueue : List Rsp
  timerRuns : Bool
  retransCount : ℕ
  deriving DecidableEq, Repr

/-- `resending` is a request in the delay before it is queued again, and `stack` are the
forwarded requests that the protocol stack has not answered. The queues are unbounded, so
no sender waits. -/
structure RoutingState where
  nearps : NearpsCtx
  uart : UartCtx
  users : Fin 5 → Option UserCtx
  atMsgQ : List AtMsg
  resending : Option Request
  stack : List Request
  calls : ℕ

/-- What the routing takes from texts: `at_get_prefix_and_param` with its flag `is_all`,
`is_result_at`, the number that `at_is_rsp_err` finds, and the text of
`ATERR_INVALID_PREFIX`. -/
structure AtText where
  prefixOf : Bool → List UInt8 → List UInt8
  isResultAt : List UInt8 → Bool
  rspErr : List UInt8 → ℕ
  invalidPrefix : List UInt8

def atCheckSmsFun (atCmdPrefix : List UInt8) : Bool :=
  [bytes ['C', 'M', 'G', 'S'], bytes ['C', 'M', 'G', 'C'], bytes ['C', 'N', 'M', 'A']].any fun s =>
    s <:+: atCmdPrefix

/-- `RETRANS_MAX_NUM`. -/
def retransMaxNum : ℕ := 40

/-- `ATERR_CHANNEL_BUSY`. -/
def aterrChannelBusy : ℕ := 8007

/-- A context after `reset_ctx`. -/
def NearpsCtx.idle : NearpsCtx := ⟨false, none, []⟩

def UartCtx.idle : UartCtx := ⟨false, 0⟩

/-- The context at the address is still allocated. -/
def RoutingState.Live (s : RoutingState) : Fd → Prop
  | .uart => True
  | .user k => (s.users k).isSome

instance (s : RoutingState) (fd : Fd) : Decidable (s.Live fd) := by
  cases fd <;> simp only [RoutingState.Live] <;> infer_instance

def RoutingState.retransCount (s : RoutingState) : Fd → ℕ
  | .uart => s.uart.retransCount
  | .user k => ((s.users k).map UserCtx.retransCount).getD 0

def RoutingState.setUser (s : RoutingState) (k : Fin 5) (u : Option UserCtx) : RoutingState :=
  { s with users := Function.update s.users k u }

def RoutingState.setRetrans (s : RoutingState) (fd : Fd) (n : ℕ) : RoutingState :=
  match fd with
  | .uart => { s with uart := { s.uart with retransCount := n } }
  | .user k => s.setUser k ((s.users k).map fun u => { u with retransCount := n })

/-- `reset_ctx` of a context that sends requests. -/
def resetCtx (fd : Fd) (s : RoutingState) : RoutingState :=
  match fd with
  | .uart => { s with uart := .idle }
  | .user _ => s.setRetrans fd 0

section
variable (text : AtText)

/-- A result that is written to the UART resets its context, see `at_farps_fd_write`. A
context that was given up is freed memory, where a run ends. -/
def atWriteByCtx (fd : Fd) (data : List UInt8) (s : RoutingState) : Option RoutingState :=
  match fd with
  | .uart => some (if text.isResultAt data then { s with uart := .idle } else s)
  | .user k => (s.users k).map fun u =>
      s.setUser k (some { u with rspQueue := u.rspQueue ++ [.text data] })

def forwardReqAtProc (req : Request) (s : RoutingState) : Option RoutingState :=
  if s.nearps.sendReqNow ∧ isCriticalReq req.data = false then
    if retransMaxNum ≤ s.retransCount req.fd then some (resetCtx req.fd s)
    else some ({ s with resending := some req }.setRetrans req.fd (s.retransCount req.fd + 1))
  else
    let atCmdPrefix := text.prefixOf false req.data
    if atCmdPrefix = [] then
      atWriteByCtx text req.fd text.invalidPrefix { s with nearps := { s.nearps with atCmdPrefix := [] } }
    else some { s with nearps := ⟨true, some req.fd, atCmdPrefix⟩, stack := s.stack ++ [req] }

def procFromFarps (req : Request) (s : RoutingState) : Option RoutingState :=
  if s.Live req.fd then
    if text.prefixOf true req.data = [] then atWriteByCtx text req.fd text.invalidPrefix s
    else forwardReqAtProc text req s
  else none

/-- Where a text of the protocol stack goes: to the linked context, or, as news for
everybody, to the UART without changing its context. -/
def rspTarget (data : List UInt8) (nearps : NearpsCtx) : Option Fd :=
  let atPrefix := text.prefixOf false data
  if nearps.atCmdPrefix ≠ [] ∧ atCheckSmsFun nearps.atCmdPrefix ∧ nearps.fwdCtx.isSome then nearps.fwdCtx
  else if text.isResultAt data = false ∧ atPrefix ≠ [] ∧
      (nearps.atCmdPrefix = [] ∨ atStrncasecmp atPrefix nearps.atCmdPrefix = false) then none
  else nearps.fwdCtx

def procFromNearps (data : List UInt8) (s : RoutingState) : Option RoutingState :=
  let written := match rspTarget text data s.nearps with
    | some fd => atWriteByCtx text fd data s
    | none => some s
  written.map fun s =>
    if text.isResultAt data ∧ text.rspErr data ≠ aterrChannelBusy then { s with nearps := .idle } else s

/-- `get_avail_atctx_4_user`. -/
def getAvailAtctx4User (users : Fin 5 → Option UserCtx) (fromProxy : Bool) : Option (Fin 5) :=
  if fromProxy then if users 0 = none then some 0 else none
  else [1, 2, 3, 4].find? fun k => (users k).isNone

def waitNearpsRspTimeoutProc (u : UserCtx) (k : Fin 5) (s : RoutingState) : RoutingState :=
  let nearps := if s.nearps.fwdCtx = none then s.nearps else .idle
  let user : UserCtx := { u with rspQueue := u.rspQueue ++ [.waitTimeout], timerRuns := false }
  { s with nearps := nearps, users := Function.update s.users k (some user) }

/-- The caller returns at a result, at a time-out and at a text that does not parse. -/
def endsCall (parsed : Bool) : Rsp → Bool
  | .text data => text.isResultAt data || !parsed
  | .waitTimeout => true

inductive Action where
  | uartRequest (data : List UInt8)
  | userRequest (fromProxy : Bool) (data : List UInt8)
  | atCtl
  | resend
  | stackInfo (data : List UInt8)
  | stackAnswer (data : List UInt8)
  | timeout (k : Fin 5)
  | userReceive (k : Fin 5) (parsed : Bool)

/-- One step of a thread. `none` stands for a thread that waits, a failed assertion, or a
write to a context that was given up. -/
def step : Action → RoutingState → Option RoutingState
  | .uartRequest data, s =>
    if s.uart.rcvReqNow ∧ isCriticalReq data = false then some s
    else some { s with
      uart := { s.uart with rcvReqNow := true }
      atMsgQ := s.atMsgQ ++ [.fromFarps ⟨.uart, 0, data⟩] }
  | .userRequest fromProxy data, s =>
    if text.prefixOf false data = [] then some s
    else (getAvailAtctx4User s.users fromProxy).map fun k =>
      { s.setUser k (some ⟨s.calls, [], true, 0⟩) with
        atMsgQ := s.atMsgQ ++ [.fromFarps ⟨.user k, s.calls, data⟩]
        calls := s.calls + 1 }
  | .atCtl, s =>
    match s.resending, s.atMsgQ with
    | none, .fromFarps req :: queue => procFromFarps text req { s with atMsgQ := queue }
    | none, .fromNearps data _ :: queue => procFromNearps text data { s with atMsgQ := queue }
    | _, _ => none
  | .resend, s => s.resending.map fun req =>
      { s with resending := none, atMsgQ := s.atMsgQ ++ [.fromFarps req] }
  | .stackInfo data, s =>
    if text.isResultAt data then none else some { s with atMsgQ := s.atMsgQ ++ [.fromNearps data none] }
  | .stackAnswer data, s =>
    match s.stack with
    | req :: stack =>
      if text.isResultAt data then
        some { s with stack := stack, atMsgQ := s.atMsgQ ++ [.fromNearps data (some req)] }
      else none
    | [] => none
  | .timeout k, s => do
    let u ← s.users k
    if u.timerRuns then some (waitNearpsRspTimeoutProc u k s) else none
  | .userReceive k parsed, s => do
    let u ← s.users k
    match u.rspQueue with
    | [] => none
    | rsp :: queue =>
      some (s.setUser k (if endsCall text parsed rsp then none else some { u with rspQueue := queue }))

end

def start : RoutingState := ⟨.idle, .idle, fun _ => none, [], none, [], 0⟩

def AtMsg.request : AtMsg → Option Request
  | .fromFarps req => some req
  | .fromNearps _ _ => none

def AtMsg.answered : AtMsg → Option Request
  | .fromFarps _ => none
  | .fromNearps _ answers => answers

/-- The forwarded requests whose final result has not been delivered, oldest first. -/
def RoutingState.unanswered (s : RoutingState) : List Request := s.atMsgQ.filterMap AtMsg.answered ++ s.stack

/-- The requests that wait to be forwarded. -/
def RoutingState.waiting (s : RoutingState) : List Request :=
  s.atMsgQ.filterMap AtMsg.request ++ s.resending.toList

def RoutingState.pending (s : RoutingState) : List Request := s.waiting ++ s.unanswered

def RoutingState.pendingOf (s : RoutingState) (k : Fin 5) : ℕ := s.pending.countP (·.fd = .user k)

/-- The context that sent the request still belongs to the call that sent it. -/
def RoutingState.Owns (s : RoutingState) (req : Request) : Prop :=
  match req.fd with
  | .uart => True
  | .user k => ∃ u, s.users k = some u ∧ u.call = req.call

/-- A final result that is next in the queue will be delivered to the context whose request
produced it, and at most one forwarded request is unanswered. -/
structure Routed (text : AtText) (s : RoutingState) : Prop where
  delivered : ∀ data req queue fd, s.atMsgQ = .fromNearps data (some req) :: queue →
    rspTarget text data s.nearps = some fd → fd = req.fd ∧ s.Owns req
  one : s.unanswered.length ≤ 1

/-- No critical request is forwarded and no time-out runs while a forwarded request is
unanswered, and a call does not give up while its request is pending. -/
def Orderly (text : AtText) : Action → RoutingState → Prop
  | .atCtl, s => ∀ req queue, s.atMsgQ = .fromFarps req :: queue → isCriticalReq req.data = true →
      s.unanswered = []
  | .timeout _, s => s.unanswered = []
  | .userReceive k parsed, s => ∀ u rsp queue, s.users k = some u → u.rspQueue = rsp :: queue →
      endsCall text parsed rsp = true → (∃ data, rsp = .text data ∧ text.isResultAt data = true) ∨ s.pendingOf k = 0
  | _, _ => True

/-- The invariant: the link of a busy nearps context is the owner of the unanswered request,
and a call that has its result has no request left. -/
structure Linked (text : AtText) (s : RoutingState) : Prop where
  one : s.unanswered.length ≤ 1
  busy : ∀ req ∈ s.unanswered, s.nearps.sendReqNow = true ∧ s.nearps.fwdCtx = some req.fd
  owned : ∀ req ∈ s.pending, s.Owns req
  single : ∀ k, s.pendingOf k ≤ 1
  done : ∀ k u data, s.users k = some u → .text data ∈ u.rspQueue → text.isResultAt data = true → s.pendingOf k = 0
  results : ∀ data answers, .fromNearps data answers ∈ s.atMsgQ → answers.isSome = text.isResultAt data

section
variable {text : AtText} {s s' : RoutingState}

/-- A text goes to the linked context or to nobody. -/
theorem fwdCtx_of_rspTarget {data : List UInt8} {nearps : NearpsCtx} {fd : Fd}
    (h : rspTarget text data nearps = some fd) : nearps.fwdCtx = some fd := by
  simp only [rspTarget] at h
  split_ifs at h
  · exact h
  · exact h

theorem Linked.routed (h : Linked text s) : Routed text s where
  one := h.one
  delivered := by
    intro data req queue fd hqueue htarget
    have hmem : req ∈ s.unanswered := by simp [RoutingState.unanswered, hqueue, AtMsg.answered]
    have hfwd := fwdCtx_of_rspTarget htarget
    rw [(h.busy req hmem).2] at hfwd
    cases hfwd
    exact ⟨rfl, h.owned req (List.mem_append_right _ hmem)⟩

theorem linked_start (text : AtText) : Linked text start where
  one := by simp [RoutingState.unanswered, start]
  busy := by simp [RoutingState.unanswered, start]
  owned := by simp [RoutingState.pending, RoutingState.unanswered, RoutingState.waiting, start]
  single := by simp [RoutingState.pendingOf, RoutingState.pending, RoutingState.unanswered, RoutingState.waiting, start]
  done := by simp [start]
  results := by simp [start]

theorem owns_of_users (husers : s'.users = s.users) (req : Request) : s'.Owns req ↔ s.Owns req := by
  simp only [RoutingState.Owns, husers]

/-- Requests may leave and change places as long as the unanswered one stays linked. -/
theorem Linked.mono (h : Linked text s) (husers : s'.users = s.users) (hpending : s'.pending.Subperm s.pending)
    (hone : s'.unanswered.length ≤ 1)
    (hbusy : ∀ req ∈ s'.unanswered, s'.nearps.sendReqNow = true ∧ s'.nearps.fwdCtx = some req.fd)
    (hresults : ∀ data answers, .fromNearps data answers ∈ s'.atMsgQ → answers.isSome = text.isResultAt data) :
    Linked text s' where
  one := hone
  busy := hbusy
  owned req hreq := (owns_of_users husers req).mpr (h.owned req (hpending.subset hreq))
  single k := (hpending.countP_le _).trans (h.single k)
  done k u data hu hdata hresult := by
    rw [husers] at hu
    exact Nat.le_zero.mp ((hpending.countP_le _).trans (h.done k u data hu hdata hresult).le)
  results := hresults

/-- The same with the nearps context and the unanswered requests as they were. -/
theorem Linked.congr (h : Linked text s) (husers : s'.users = s.users) (hnearps : s'.nearps = s.nearps)
    (hunanswered : s'.unanswered = s.unanswered) (hwaiting : s'.waiting.Subperm s.waiting)
    (hresults : ∀ data answers, .fromNearps data answers ∈ s'.atMsgQ → answers.isSome = text.isResultAt data) :
    Linked text s' := by
  apply h.mono husers
  · simp only [RoutingState.pending, hunanswered]
    exact hwaiting.append (List.Subperm.refl _)
  · rw [hunanswered]
    exact h.one
  · rw [hunanswered, hnearps]
    exact h.busy
  · exact hresults

/-- The nearps context is free to change while nothing is unanswered. -/
theorem Linked.setNearps (h : Linked text s) (hnone : s.unanswered = []) (nearps : NearpsCtx) :
    Linked text { s with nearps := nearps } := by
  have hnone' : RoutingState.unanswered { s with nearps := nearps } = [] := hnone
  exact @Linked.mono text s { s with nearps := nearps } h rfl (List.Subperm.refl _) (by simp [hnone'])
    (by simp [hnone']) h.results

@[simp] theorem setUser_self (s : RoutingState) (k : Fin 5) (v : Option UserCtx) : (s.setUser k v).users k = v := by
  simp [RoutingState.setUser]

@[simp] theorem setUser_of_ne {j k : Fin 5} (h : j ≠ k) (s : RoutingState) (v : Option UserCtx) :
    (s.setUser k v).users j = s.users j := by
  simp [RoutingState.setUser, h]

/-- A user context keeps its call while it has a request. -/
theorem Linked.setUser (h : Linked text s) {k : Fin 5} {v : Option UserCtx}
    (hcall : s.pendingOf k ≠ 0 → ∃ u u', s.users k = some u ∧ v = some u' ∧ u'.call = u.call)
    (hdone : ∀ u' data, v = some u' → .text data ∈ u'.rspQueue → text.isResultAt data = true → s.pendingOf k = 0) :
    Linked text (s.setUser k v) where
  one := h.one
  busy := h.busy
  single := h.single
  results := h.results
  owned := by
    intro req hreq
    have howns := h.owned req hreq
    simp only [RoutingState.Owns] at howns ⊢
    cases hfd : req.fd with
    | uart => trivial
    | user j =>
      rw [hfd] at howns
      obtain ⟨u, hu, hucall⟩ := howns
      cases decEq j k with
      | isFalse hne => exact ⟨u, (setUser_of_ne hne s v).trans hu, hucall⟩
      | isTrue heq =>
        subst heq
        have hpos : s.pendingOf j ≠ 0 :=
          (List.countP_pos_iff.mpr ⟨req, hreq, by simpa using hfd⟩).ne'
        obtain ⟨u₀, u', hu₀, hv, hcall'⟩ := hcall hpos
        cases hu.symm.trans hu₀
        exact ⟨u', (setUser_self s j v).trans hv, hcall'.trans hucall⟩
  done := by
    intro j u data hu hdata hresult
    cases decEq j k with
    | isFalse hne => exact h.done j u data ((setUser_of_ne hne s v).symm.trans hu) hdata hresult
    | isTrue heq =>
      subst heq
      exact hdone u data ((setUser_self s j v).symm.trans hu) hdata hresult

/-- A new request is queued. -/
theorem Linked.request (h : Linked text s) {req : Request} (howns : s.Owns req)
    (hnew : ∀ k, req.fd = .user k → s.pendingOf k = 0 ∧ ∀ u data, s.users k = some u →
      .text data ∈ u.rspQueue → text.isResultAt data = true → False) :
    Linked text { s with atMsgQ := s.atMsgQ ++ [.fromFarps req] } := by
  have hunanswered : RoutingState.unanswered { s with atMsgQ := s.atMsgQ ++ [.fromFarps req] } = s.unanswered := by
    simp [RoutingState.unanswered, AtMsg.answered]
  have hperm : (RoutingState.pending { s with atMsgQ := s.atMsgQ ++ [.fromFarps req] }).Perm (req :: s.pending) := by
    simp only [RoutingState.pending, hunanswered, RoutingState.waiting, List.filterMap_append]
    simp [AtMsg.request]
  have hcount : ∀ k, RoutingState.pendingOf { s with atMsgQ := s.atMsgQ ++ [.fromFarps req] } k =
      s.pendingOf k + if req.fd = .user k then 1 else 0 := by
    intro k
    rw [RoutingState.pendingOf, hperm.countP_eq, List.countP_cons]
    simp [RoutingState.pendingOf]
  constructor
  · rw [hunanswered]
    exact h.one
  · rw [hunanswered]
    exact h.busy
  · intro r hr
    rcases List.mem_cons.mp (hperm.subset hr) with rfl | hr
    · exact howns
    · exact h.owned r hr
  · intro k
    have hsingle := h.single k
    rw [hcount]
    split_ifs with hk
    · rw [(hnew k hk).1]
    · omega
  · intro k u data hu hdata hresult
    rw [hcount, h.done k u data hu hdata hresult]
    split_ifs with hk
    · exact ((hnew k hk).2 u data hu hdata hresult).elim
    · rfl
  · intro data answers hmsg
    exact h.results data answers (by simpa using hmsg)

theorem Linked.setRetrans (h : Linked text s) (fd : Fd) (n : ℕ) : Linked text (s.setRetrans fd n) := by
  cases fd with
  | uart => exact @Linked.congr text s (s.setRetrans .uart n) h rfl rfl rfl (List.Subperm.refl _) h.results
  | user k =>
    apply h.setUser
    · intro hpos
      obtain ⟨req, hreq, hfd⟩ := List.countP_pos_iff.mp (Nat.pos_of_ne_zero hpos)
      have howns := h.owned req hreq
      rw [RoutingState.Owns, of_decide_eq_true hfd] at howns
      obtain ⟨u, hu, -⟩ := howns
      exact ⟨u, { u with retransCount := n }, hu, by rw [hu]; rfl, rfl⟩
    · intro u' data hu' hdata hresult
      obtain ⟨u, hu, rfl⟩ := Option.map_eq_some_iff.mp hu'
      exact h.done k u data hu hdata hresult

theorem Linked.resetCtx (h : Linked text s) (fd : Fd) : Linked text (resetCtx fd s) := by
  cases fd with
  | uart => exact @Linked.congr text s (AtRequestRouting.resetCtx .uart s) h rfl rfl rfl (List.Subperm.refl _) h.results
  | user k => exact h.setRetrans (.user k) 0

/-- A result may be written to a context that has no request left. -/
theorem Linked.write (h : Linked text s) {fd : Fd} {data : List UInt8}
    (hwrite : atWriteByCtx text fd data s = some s')
    (hdone : text.isResultAt data = true → ∀ k, fd = .user k → s.pendingOf k = 0) : Linked text s' := by
  cases fd with
  | uart =>
    cases hwrite
    split_ifs
    · exact h.resetCtx .uart
    · exact h
  | user k =>
    obtain ⟨u, hu, rfl⟩ := Option.map_eq_some_iff.mp hwrite
    apply h.setUser
    · exact fun _ => ⟨u, _, hu, rfl, rfl⟩
    · intro u' data' hu' hdata hresult
      cases hu'
      rcases List.mem_append.mp hdata with hdata | hdata
      · exact h.done k u data' hu hdata hresult
      · cases List.mem_singleton.mp hdata
        exact hdone hresult k rfl

/-- Taking a request from the queue leaves no other one of its context. -/
theorem Linked.takeFarps (h : Linked text s) {req : Request} {queue : List AtMsg}
    (hqueue : s.atMsgQ = .fromFarps req :: queue) :
    Linked text { s with atMsgQ := queue } ∧ s.Owns req ∧
      ∀ k, req.fd = .user k → RoutingState.pendingOf { s with atMsgQ := queue } k = 0 := by
  have hpending : s.pending = req :: RoutingState.pending { s with atMsgQ := queue } := by
    simp [RoutingState.pending, RoutingState.waiting, RoutingState.unanswered, hqueue, List.filterMap_cons, AtMsg.request,
      AtMsg.answered]
  have hunanswered : s.unanswered = RoutingState.unanswered { s with atMsgQ := queue } := by
    simp [RoutingState.unanswered, hqueue, List.filterMap_cons, AtMsg.answered]
  refine ⟨?_, h.owned req (by simp [hpending]), fun k hk => ?_⟩
  · apply @Linked.mono text s { s with atMsgQ := queue } h rfl
    · rw [hpending]
      exact (List.sublist_cons_self _ _).subperm
    · exact hunanswered ▸ h.one
    · exact hunanswered ▸ h.busy
    · exact fun data answers hmsg => h.results data answers (hqueue ▸ List.mem_cons_of_mem _ hmsg)
  · have hsingle := h.single k
    rw [RoutingState.pendingOf, hpending, List.countP_cons, if_pos (by simpa using hk)] at hsingle
    exact Nat.le_zero.mp (Nat.le_of_succ_le_succ hsingle)

/-- Taking a final result from the queue leaves nothing unanswered and no other request of
the context that gets it. -/
theorem Linked.takeNearps (h : Linked text s) {data : List UInt8} {answers : Option Request} {queue : List AtMsg}
    (hqueue : s.atMsgQ = .fromNearps data answers :: queue) :
    Linked text { s with atMsgQ := queue } ∧
      ∀ req, answers = some req → RoutingState.unanswered { s with atMsgQ := queue } = [] ∧
        s.nearps.fwdCtx = some req.fd ∧
        ∀ k, req.fd = .user k → RoutingState.pendingOf { s with atMsgQ := queue } k = 0 := by
  have hunanswered : s.unanswered = answers.toList ++ RoutingState.unanswered { s with atMsgQ := queue } := by
    cases answers <;> simp [RoutingState.unanswered, hqueue, List.filterMap_cons, AtMsg.answered]
  have hwaiting : s.waiting = RoutingState.waiting { s with atMsgQ := queue } := by
    simp [RoutingState.waiting, hqueue, List.filterMap_cons, AtMsg.request]
  have hsub : (RoutingState.unanswered { s with atMsgQ := queue }).Sublist s.unanswered := by
    rw [hunanswered]
    exact List.sublist_append_right _ _
  refine ⟨?_, ?_⟩
  · apply @Linked.mono text s { s with atMsgQ := queue } h rfl
    · rw [RoutingState.pending, RoutingState.pending, hwaiting]
      exact (List.Sublist.append (List.Sublist.refl _) hsub).subperm
    · exact hsub.length_le.trans h.one
    · exact fun req hreq => h.busy req (hsub.subset hreq)
    · exact fun data answers hmsg => h.results data answers (hqueue ▸ List.mem_cons_of_mem _ hmsg)
  · rintro req rfl
    have hone := h.one
    rw [hunanswered] at hone
    have hnone : RoutingState.unanswered { s with atMsgQ := queue } = [] := by
      simpa using hone
    have hmem : req ∈ s.unanswered := by simp [hunanswered]
    refine ⟨hnone, (h.busy req hmem).2, fun k hk => ?_⟩
    have hsingle := h.single k
    have hcount : s.pendingOf k = RoutingState.pendingOf { s with atMsgQ := queue } k + 1 := by
      simp [RoutingState.pendingOf, RoutingState.pending, hunanswered, ← hwaiting, hk, hnone]
    omega

theorem unanswered_atWriteByCtx {fd : Fd} {data : List UInt8} (h : atWriteByCtx text fd data s = some s') :
    s'.unanswered = s.unanswered := by
  cases fd with
  | uart =>
    cases h
    split_ifs <;> rfl
  | user k =>
    obtain ⟨u, -, rfl⟩ := Option.map_eq_some_iff.mp h
    rfl

theorem Linked.procFromNearps (h : Linked text s) {data : List UInt8} {answers : Option Request}
    (hanswers : answers.isSome = text.isResultAt data)
    (hanswered : ∀ req, answers = some req → s.unanswered = [] ∧ s.nearps.fwdCtx = some req.fd ∧
      ∀ k, req.fd = .user k → s.pendingOf k = 0)
    (hproc : procFromNearps text data s = some s') : Linked text s' := by
  obtain ⟨s₁, hwrite, hreset⟩ := Option.map_eq_some_iff.mp hproc
  have hs₁ : Linked text s₁ ∧ s₁.unanswered = s.unanswered := by
    cases htarget : rspTarget text data s.nearps with
    | none =>
      rw [htarget] at hwrite
      cases hwrite
      exact ⟨h, rfl⟩
    | some fd =>
      rw [htarget] at hwrite
      refine ⟨h.write hwrite fun hresult k hk => ?_, unanswered_atWriteByCtx hwrite⟩
      obtain ⟨req, hreq⟩ := Option.isSome_iff_exists.mp (hanswers.trans hresult)
      obtain ⟨-, hfwd, hlast⟩ := hanswered req hreq
      rw [fwdCtx_of_rspTarget htarget] at hfwd
      exact hlast k ((Option.some.inj hfwd).symm.trans hk)
  cases hreset
  split_ifs with hresult
  · obtain ⟨req, hreq⟩ := Option.isSome_iff_exists.mp (hanswers.trans hresult.1)
    exact hs₁.1.setNearps (hs₁.2.trans (hanswered req hreq).1) _
  · exact hs₁.1

/-- A request moves from the queue to the protocol stack. -/
theorem Linked.forward (h : Linked text s) {req : Request} {queue : List AtMsg}
    (hqueue : s.atMsgQ = .fromFarps req :: queue) (hnone : s.unanswered = []) (atCmdPrefix : List UInt8) :
    Linked text { s with
      atMsgQ := queue
      nearps := ⟨true, some req.fd, atCmdPrefix⟩
      stack := s.stack ++ [req] } := by
  obtain ⟨hanswered, hstack⟩ := List.append_eq_nil_iff.mp hnone
  have hanswered' : queue.filterMap AtMsg.answered = [] := by
    simpa [hqueue, List.filterMap_cons, AtMsg.answered] using hanswered
  refine @Linked.mono text s _ h rfl ?_ ?_ ?_ ?_
  · simp only [RoutingState.pending, RoutingState.waiting, RoutingState.unanswered, hqueue, hstack, hanswered',
      List.filterMap_cons, AtMsg.request, AtMsg.answered]
    simp only [List.nil_append, List.append_nil]
    exact (List.perm_append_singleton req _).subperm
  · simp [RoutingState.unanswered, hanswered', hstack]
  · simp [RoutingState.unanswered, hanswered', hstack]
  · exact fun data answers hmsg => h.results data answers (hqueue ▸ List.mem_cons_of_mem _ hmsg)

/-- A busy request moves from the queue to the delay. -/
theorem Linked.busyAgain (h : Linked text s) {req : Request} {queue : List AtMsg}
    (hqueue : s.atMsgQ = .fromFarps req :: queue) (hresending : s.resending = none) :
    Linked text { s with atMsgQ := queue, resending := some req } := by
  refine @Linked.congr text s _ h rfl rfl ?_ ?_ ?_
  · simp [RoutingState.unanswered, hqueue, List.filterMap_cons, AtMsg.answered]
  · simp only [RoutingState.waiting, hqueue, hresending, List.filterMap_cons, AtMsg.request]
    simp only [Option.toList_some, Option.toList_none, List.append_nil]
    exact (List.perm_append_singleton req _).subperm
  · exact fun data answers hmsg => h.results data answers (hqueue ▸ List.mem_cons_of_mem _ hmsg)

theorem Linked.procFromFarps (h : Linked text s) {req : Request} {queue : List AtMsg}
    (hqueue : s.atMsgQ = .fromFarps req :: queue) (hresending : s.resending = none)
    (hcritical : isCriticalReq req.data = true → s.unanswered = [])
    (hproc : procFromFarps text req { s with atMsgQ := queue } = some s') : Linked text s' := by
  obtain ⟨htaken, -, hlast⟩ := h.takeFarps hqueue
  simp only [AtRequestRouting.procFromFarps] at hproc
  split_ifs at hproc with hlive hprefix
  · exact htaken.write hproc fun _ => hlast
  · simp only [forwardReqAtProc] at hproc
    have hnone : ¬(s.nearps.sendReqNow = true ∧ isCriticalReq req.data = false) → s.unanswered = [] := by
      intro hfree
      cases hcrit : isCriticalReq req.data with
      | true => exact hcritical hcrit
      | false => exact List.eq_nil_iff_forall_not_mem.mpr fun r hr => hfree ⟨(h.busy r hr).1, hcrit⟩
    split_ifs at hproc with hbusy hcount hempty
    · cases hproc
      exact htaken.resetCtx req.fd
    · cases hproc
      exact (h.busyAgain hqueue hresending).setRetrans req.fd _
    · have htakenNone : RoutingState.unanswered { s with atMsgQ := queue } = [] := by
        simpa [RoutingState.unanswered, hqueue, List.filterMap_cons, AtMsg.answered] using hnone hbusy
      exact (htaken.setNearps htakenNone { s.nearps with atCmdPrefix := [] }).write hproc fun _ => hlast
    · cases hproc
      exact h.forward hqueue (hnone hbusy) _

private theorem pendingOf_free (h : Linked text s) {k : Fin 5} (hfree : s.users k = none) : s.pendingOf k = 0 := by
  refine List.countP_eq_zero.mpr fun req hreq hfd => ?_
  have howns := h.owned req hreq
  rw [RoutingState.Owns, of_decide_eq_true hfd] at howns
  obtain ⟨u, hu, -⟩ := howns
  cases hfree.symm.trans hu

/-- A call takes a free context and queues its request. -/
theorem Linked.userRequest (h : Linked text s) {data : List UInt8} {k : Fin 5} (hfree : s.users k = none) :
    Linked text { s.setUser k (some ⟨s.calls, [], true, 0⟩) with
      atMsgQ := s.atMsgQ ++ [.fromFarps ⟨.user k, s.calls, data⟩]
      calls := s.calls + 1 } := by
  have hzero := pendingOf_free h hfree
  have huser : Linked text (s.setUser k (some ⟨s.calls, [], true, 0⟩)) := by
    apply h.setUser
    · exact fun hpos => absurd hzero hpos
    · exact fun _ _ _ _ _ => hzero
  have hrequest := @Linked.request text _ huser ⟨.user k, s.calls, data⟩ ⟨_, setUser_self s k _, rfl⟩ (by
    rintro j hj
    cases hj
    refine ⟨hzero, fun u data hu hdata _ => ?_⟩
    rw [setUser_self] at hu
    cases hu
    cases hdata)
  exact @Linked.congr text _ _ hrequest rfl rfl rfl (List.Subperm.refl _) hrequest.results

theorem getAvailAtctx4User_free {users : Fin 5 → Option UserCtx} {fromProxy : Bool} {k : Fin 5}
    (h : getAvailAtctx4User users fromProxy = some k) : users k = none := by
  simp only [getAvailAtctx4User] at h
  split_ifs at h with hproxy hfree
  · cases h
    exact hfree
  · simpa using List.find?_some h

/-- Every step that meets the condition keeps the link right. -/
theorem linked_step {a : Action} (h : Linked text s) (horderly : Orderly text a s)
    (hstep : step text a s = some s') : Linked text s' := by
  cases a with
  | uartRequest data =>
    simp only [step] at hstep
    split_ifs at hstep
    · cases hstep
      exact h
    · cases hstep
      have hrequest := @Linked.request text s h ⟨.uart, 0, data⟩ trivial (by
        rintro k hk
        cases hk)
      exact @Linked.congr text _ _ hrequest rfl rfl rfl (List.Subperm.refl _) hrequest.results
  | userRequest fromProxy data =>
    simp only [step] at hstep
    split_ifs at hstep
    · cases hstep
      exact h
    · obtain ⟨k, hk, rfl⟩ := Option.map_eq_some_iff.mp hstep
      exact h.userRequest (getAvailAtctx4User_free hk)
  | atCtl =>
    simp only [step] at hstep
    split at hstep
    · next req queue hresending hqueue =>
      exact h.procFromFarps hqueue hresending (horderly req queue hqueue) hstep
    · next data answers queue hresending hqueue =>
      obtain ⟨htaken, hanswered⟩ := h.takeNearps hqueue
      exact htaken.procFromNearps (h.results data answers (by simp [hqueue])) hanswered hstep
    · cases hstep
  | resend =>
    obtain ⟨req, hreq, rfl⟩ := Option.map_eq_some_iff.mp hstep
    refine @Linked.congr text s _ h rfl rfl ?_ ?_ ?_
    · simp [RoutingState.unanswered, AtMsg.answered]
    · exact (List.Perm.of_eq (by simp [RoutingState.waiting, hreq, AtMsg.request])).subperm
    · exact fun data answers hmsg => h.results data answers (by simpa using hmsg)
  | stackInfo data =>
    simp only [step] at hstep
    split_ifs at hstep with hresult
    cases hstep
    refine @Linked.congr text s _ h rfl rfl ?_ ?_ ?_
    · simp [RoutingState.unanswered, AtMsg.answered]
    · exact (List.Perm.of_eq (by simp [RoutingState.waiting, AtMsg.request])).subperm
    · intro data' answers hmsg
      rcases List.mem_append.mp hmsg with hmsg | hmsg
      · exact h.results data' answers hmsg
      · cases List.mem_singleton.mp hmsg
        simp [hresult]
  | stackAnswer data =>
    simp only [step] at hstep
    split at hstep
    · next req stack hstack =>
      split_ifs at hstep with hresult
      cases hstep
      refine @Linked.congr text s _ h rfl rfl ?_ ?_ ?_
      · simp [RoutingState.unanswered, hstack, AtMsg.answered]
      · exact (List.Perm.of_eq (by simp [RoutingState.waiting, AtMsg.request])).subperm
      · intro data' answers hmsg
        rcases List.mem_append.mp hmsg with hmsg | hmsg
        · exact h.results data' answers hmsg
        · cases List.mem_singleton.mp hmsg
          simp [hresult]
    · cases hstep
  | timeout k =>
    obtain ⟨u, hu, htimer⟩ := Option.bind_eq_some_iff.mp hstep
    split_ifs at htimer
    cases htimer
    have hnone : s.unanswered = [] := horderly
    refine Linked.setUser (h.setNearps hnone _) ?_ ?_
    · exact fun _ => ⟨u, _, hu, rfl, rfl⟩
    · intro u' data hu' hdata hresult
      cases hu'
      refine h.done k u data hu ?_ hresult
      simpa using hdata
  | userReceive k parsed =>
    obtain ⟨u, hu, hrsp⟩ := Option.bind_eq_some_iff.mp hstep
    split at hrsp
    · cases hrsp
    · next rsp queue hqueue =>
      cases hrsp
      split_ifs with hends
      · have hzero : s.pendingOf k = 0 := by
          rcases horderly u rsp queue hu hqueue hends with ⟨data, rfl, hresult⟩ | hzero
          · exact h.done k u data hu (by simp [hqueue]) hresult
          · exact hzero
        exact h.setUser (fun hpos => absurd hzero hpos) fun u' data hu' _ _ => hzero
      · apply h.setUser
        · exact fun _ => ⟨u, _, hu, rfl, rfl⟩
        · intro u' data hu' hdata hresult
          cases hu'
          exact h.done k u data hu (by simp [hqueue, hdata]) hresult

/-- In every run whose steps meet the condition, every final result is delivered to the
context whose request produced it, and at most one forwarded request is unanswered. -/
theorem always_routed (text : AtText) {as : List Action} (h : Along (step text) (Orderly text) as start) :
    Always (step text) (Routed text) as start := by
  have hlinked := always_of_along (fun _ _ _ hinv horderly hstep => linked_step hinv horderly hstep)
    (linked_start text) h
  exact fun n t hrun => (hlinked n t hrun).routed

end

/-- The texts of commands without parameters and of a plain result. -/
def plainText : AtText where
  prefixOf isAll data :=
    if atStrncasecmp data (bytes ['A', 'T']) then
      ((if isAll then data else data.drop 2).takeWhile (· ≠ 13))
    else []
  isResultAt data := data = bytes ['\r', '\n', 'O', 'K', '\r', '\n']
  rspErr _ := 0
  invalidPrefix := bytes ['\r', '\n', 'E', 'R', 'R', 'O', 'R', '\r', '\n']

/-- A request of the UART is forwarded and answered. -/
theorem always_routed_uart : Always (step plainText) (Routed plainText)
    [.uartRequest (bytes ['A', 'T', '+', 'C', 'I', 'M', 'I', '\r']), .atCtl,
      .stackAnswer (bytes ['\r', '\n', 'O', 'K', '\r', '\n']), .atCtl] start := by
  apply always_routed
  refine ⟨trivial, fun s₁ h₁ => ⟨?_, fun s₂ h₂ => ⟨trivial, fun s₃ h₃ => ⟨?_, fun s₄ _ => trivial⟩⟩⟩⟩
  · cases h₁
    intro req queue hqueue hcritical
    rfl
  · cases h₁
    cases h₂
    cases h₃
    intro req queue hqueue
    cases hqueue

/-- A critical request takes the link from the request before it, whose result then goes to
the wrong context. -/
theorem not_always_routed_critical :
    ¬∀ text as, Always (step text) (Routed text) as start := by
  intro h
  have hrun := h plainText
    [.uartRequest (bytes ['A', 'T', '+', 'C', 'I', 'M', 'I', '\r']), .atCtl,
      .userRequest false (bytes ['A', 'T', '+', 'R', 'B', 'X', '\r']), .atCtl,
      .stackAnswer (bytes ['\r', '\n', 'O', 'K', '\r', '\n'])] 5 _ rfl
  exact absurd (hrun.delivered _ _ _ (.user 1) rfl rfl).1 (by decide)

end NbiotXY1100.AtRequestRouting
