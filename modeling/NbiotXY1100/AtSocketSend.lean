import NbiotXY1100.AtSocketContext
import NbiotXY1100.KeyedLists
import NbiotXY1100.StepRuns

/-! # Sending on TCP sockets

A send reads the next number of the stream, hands its data to the stack, adds a node to the
list of sends and then marks its sequence. An acknowledgement is reported with its number in
the stream and ends the send whose node ends there. -/
namespace NbiotXY1100.AtSocketSend
open AtSocketContext SlotTables StepRuns

inductive SendPhase where
  | checked
  | sent (ret : UInt32)
  | added
  deriving DecidableEq, Repr

/-- `bc26_socket_send_data` before `send2`, `add_sninfo_node` or the change of the state. -/
structure SendTask where
  len : UInt32
  sequence : UInt8
  preSn : UInt32
  phase : SendPhase
  deriving DecidableEq, Repr

/-- A send whose data the stack took, with their position in the stream. -/
structure Accepted where
  sequence : UInt8
  len : UInt32
  start : ℕ
  deriving DecidableEq, Repr

def Accepted.fin (a : Accepted) : ℕ := a.start + a.len.toNat

/-- The connection of a slot. Positions in its stream count from its first byte: `queued` bytes
were handed to the stack, `snd_nxt` is the end of what it transmitted, and `lastack` was
the last acknowledgement to be reported while the socket had its context. -/
structure Conn where
  sockId : UInt8
  fd : UInt8
  isn : UInt32
  queued : ℕ
  sndNxt : ℕ
  lastack : ℕ
  tasks : List SendTask
  accepted : List Accepted

/-- The number of a position in the stream. -/
def Conn.sn (c : Conn) (pos : ℕ) : UInt32 := c.isn + UInt32.ofNat pos

structure Sys where
  sockets : Sockets
  conns : Fin sockNum → Conn
  fault : Bool

/-- The sockets before the first send: which slots have a context, and their numbers. -/
structure Setup where
  ctx : Fin sockNum → Option SocketContext
  sockId : Fin sockNum → UInt8
  fd : Fin sockNum → UInt8
  isn : Fin sockNum → UInt32
  sockId_injective : Function.Injective sockId
  fd_injective : Function.Injective fd

/-- A context that `AT+QIOPEN` made for a TCP socket. -/
def openedCtx (sockId fd : UInt8) (ctx : SocketContext) : SocketContext :=
  { ctx with sockId, fd, netType := 0, sendedSize := 0, acked := 0, sequenceState := fun _ => .failed }

def Sys.init (setup : Setup) : Sys where
  sockets := { Sockets.init with sockCtx := fun k => (setup.ctx k).map (openedCtx (setup.sockId k) (setup.fd k)) }
  conns k := ⟨setup.sockId k, setup.fd k, setup.isn k, 0, 0, 0, [], []⟩
  fault := false

def Sys.setConn (k : Fin sockNum) (c : Conn) (s : Sys) : Sys := { s with conns := Function.update s.conns k c }

def bc26GetFreeSequence (ctx : SocketContext) : Option UInt8 :=
  ((List.finRange sequenceMax).find? fun i => ctx.sequenceState i ≠ .sending).map fun i => UInt8.ofNat (i.val + 1)

/-- `bc26_socket_send_data` up to `send2`. Only a socket with a context is sent on. The data have
the length and the digits that the mode asks for, or not. -/
def sendBegin (k : Fin sockNum) (len : UInt32) (wellFormed : Bool) (s : Sys) : Option Sys :=
  (s.sockets.sockCtx k).map fun (ctx : SocketContext) =>
    let s := { s with sockets := s.sockets.modify k fun ctx => { ctx with zeroFlag := 0 } }
    match (findSockCtxIdBySockId ctx.sockId s.sockets).bind s.sockets.sockCtx with
    | none => s
    | some found =>
      match bc26GetFreeSequence found with
      | none => s
      | some sequence =>
        if ctx.netType = 0 ∧ len = 0 then
          { s with sockets := s.sockets.modify k fun ctx => { ctx with zeroFlag := 1 } }
        else if wellFormed = false then s
        else
          let c := s.conns k
          let preSn := if ctx.netType = 0 then c.sn c.sndNxt else 0
          s.setConn k { c with tasks := c.tasks ++ [⟨len, sequence, preSn, .checked⟩] }

/-- The stack takes some of the data or fails. -/
def sendSend2 (k : Fin sockNum) (i : ℕ) (ret : Option UInt32) (s : Sys) : Option Sys :=
  let c := s.conns k
  match c.tasks[i]? with
  | some ⟨len, sequence, preSn, .checked⟩ =>
    if (s.sockets.sockCtx k).isNone then some { s with fault := true }
    else
      match ret with
      | none =>
        let s := { s with sockets := s.sockets.modify k (SocketContext.setSequence sequence .failed) }
        some (s.setConn k { c with tasks := c.tasks.eraseIdx i })
      | some ret =>
        if 0 < ret ∧ ret ≤ len then
          some (s.setConn k { c with
            queued := c.queued + ret.toNat
            tasks := c.tasks.set i ⟨len, sequence, preSn, .sent ret⟩
            accepted := c.accepted ++ [⟨sequence, ret, c.queued⟩] })
        else none
  | _ => none

def sendAdd (k : Fin sockNum) (i : ℕ) (s : Sys) : Option Sys :=
  let c := s.conns k
  match c.tasks[i]? with
  | some ⟨len, sequence, preSn, .sent ret⟩ =>
    match s.sockets.sockCtx k with
    | none => some { s with fault := true }
    | some ctx =>
      let sockets := s.sockets.modify k fun ctx => { ctx with sendedSize := ctx.sendedSize + ret }
      match addSninfoNode ctx.sockId ret sequence preSn sockets with
      | none => some { s with fault := true }
      | some sockets =>
        some ({ s with sockets }.setConn k { c with tasks := c.tasks.set i ⟨len, sequence, preSn, .added⟩ })
  | _ => none

def sendFinish (k : Fin sockNum) (i : ℕ) (s : Sys) : Option Sys :=
  let c := s.conns k
  match c.tasks[i]? with
  | some ⟨_, sequence, _, .added⟩ =>
    if (s.sockets.sockCtx k).isNone then some { s with fault := true }
    else
      let s := { s with sockets := s.sockets.modify k (SocketContext.setSequence sequence .sending) }
      some (s.setConn k { c with tasks := c.tasks.eraseIdx i })
  | _ => none

def transmit (k : Fin sockNum) (n : ℕ) (s : Sys) : Option Sys :=
  let c := s.conns k
  if c.sndNxt + n ≤ c.queued then some (s.setConn k { c with sndNxt := c.sndNxt + n }) else none

/-- `tcp_receive` reports an acknowledgement of new data. -/
def tcpack (k : Fin sockNum) (pos : ℕ) (s : Sys) : Option Sys :=
  let c := s.conns k
  if c.lastack < pos ∧ pos ≤ c.sndNxt then
    let lastack := if (s.sockets.sockCtx k).isSome then pos else c.lastack
    some ({ s with sockets := atTCPACKInfo c.fd (c.sn pos) s.sockets }.setConn k { c with lastack })
  else none

def deleteCtx (k : Fin sockNum) (report : Bool) (s : Sys) : Sys :=
  match delSocketCtxByIndex k report s.sockets with
  | none => { s with fault := true }
  | some sockets => { s with sockets }

inductive Action where
  | send (k : Fin sockNum) (len : UInt32) (wellFormed : Bool)
  | send2 (k : Fin sockNum) (i : ℕ) (ret : Option UInt32)
  | add (k : Fin sockNum) (i : ℕ)
  | finish (k : Fin sockNum) (i : ℕ)
  | transmit (k : Fin sockNum) (n : ℕ)
  | tcpack (k : Fin sockNum) (pos : ℕ)
  | delete (k : Fin sockNum) (report : Bool)

def step : Action → Sys → Option Sys
  | .send k len wellFormed, s => sendBegin k len wellFormed s
  | .send2 k i ret, s => sendSend2 k i ret s
  | .add k i, s => sendAdd k i s
  | .finish k i, s => sendFinish k i s
  | .transmit k n, s => transmit k n s
  | .tcpack k pos, s => tcpack k pos s
  | .delete k report, s => some (deleteCtx k report s)

/-- What the report of an accepted send has to say, once there is one. -/
def outcome (c : Conn) (closed : Bool) (a : Accepted) : Option SendStatus :=
  if a.fin ≤ c.lastack then some .success else if closed then some .failed else none

/-- Every accepted send has one final report, and the counters are those of the stream. -/
structure Exact (s : Sys) : Prop where
  reports : ∀ k sequence,
    (s.sockets.reports.filter fun r => r.socketId = (s.conns k).sockId ∧ r.sequence = sequence).map SendReport.status =
      ((s.conns k).accepted.filter fun a => a.sequence = sequence).filterMap
        (outcome (s.conns k) (s.sockets.sockCtx k).isNone)
  acked : ∀ k ctx, s.sockets.sockCtx k = some ctx →
    ctx.acked.toNat = (s.conns k).lastack ∧ ctx.acked ≤ ctx.sendedSize
  noFault : s.fault = false

/-- Deleting a socket changes the states of no other one and removes its own nodes. -/
def DeletesOwn (action : Action) (s : Sys) : Prop :=
  match action with
  | .delete k _ => ∀ ctx t, s.sockets.sockCtx k = some ctx → step action s = some t →
      (∀ j ≠ k, (t.sockets.sockCtx j).map SocketContext.sequenceState =
        (s.sockets.sockCtx j).map SocketContext.sequenceState) ∧
      t.sockets.snInfo = s.sockets.snInfo.filter fun node => node.socketId ≠ ctx.sockId
  | _ => True

/-- The oldest accepted send that is not acknowledged. -/
def Conn.oldest (c : Conn) : Option Accepted := c.accepted.find? fun a => c.lastack < a.fin

/-- The data that the stack took for a send without a node. -/
def SendTask.sentKey (task : SendTask) : Option (UInt8 × UInt32) :=
  match task.phase with
  | .sent ret => some (task.sequence, ret)
  | _ => none

/-- One send of a socket at a time, each acknowledged alone and with its node in the list, and
no socket deleted while a send needs it. -/
def Orderly (action : Action) (s : Sys) : Prop :=
  match action with
  | .send k _ _ => (s.conns k).tasks = []
  | .send2 k _ _ => (s.sockets.sockCtx k).isSome
  | .add k _ => (s.sockets.sockCtx k).isSome ∧ (s.conns k).queued < 2 ^ 32
  | .finish k _ => (s.sockets.sockCtx k).isSome
  | .transmit _ _ => True
  | .tcpack k pos => (s.sockets.sockCtx k).isSome → ∃ a ∈ (s.conns k).oldest, a.fin = pos ∧
      ⟨(s.conns k).sn a.start, a.len, (s.conns k).sockId, a.sequence, 0⟩ ∈ s.sockets.snInfo
  | .delete k _ => (∀ task ∈ (s.conns k).tasks, task.sentKey = none) ∧
      ∀ node ∈ s.sockets.snInfo, node.socketId = (s.conns k).sockId → WritesOwn (s.conns k).sockId k node s.sockets

instance (action : Action) (s : Sys) : Decidable (Orderly action s) := by
  cases action <;> unfold Orderly <;> infer_instance

/-! ### One connection -/

/-- Sends follow each other in the stream from one position to another. -/
def Chain : ℕ → List Accepted → ℕ → Prop
  | p, [], q => p = q
  | p, a :: as, q => a.start = p ∧ 0 < a.len.toNat ∧ Chain a.fin as q

section Chain

variable {p q r : ℕ} {a : Accepted} {as bs : List Accepted}

theorem Chain.append (h : Chain p as q) (hbs : Chain q bs r) : Chain p (as ++ bs) r := by
  induction as generalizing p with
  | nil =>
    obtain rfl : p = q := h
    exact hbs
  | cons a as ih => exact ⟨h.1, h.2.1, ih h.2.2⟩

theorem Chain.le (h : Chain p as q) : p ≤ q := by
  induction as generalizing p with
  | nil => exact Nat.le_of_eq h
  | cons a as ih =>
    have hle : a.fin ≤ q := ih h.2.2
    have hstart : a.start = p := h.1
    unfold Accepted.fin at hle
    omega

theorem Chain.mem (h : Chain p as q) (ha : a ∈ as) : p < a.fin ∧ a.fin ≤ q := by
  induction as generalizing p with
  | nil => cases ha
  | cons b as ih =>
    obtain ⟨hstart, hpos, htail⟩ := h
    have hfin : b.fin = p + b.len.toNat := by rw [Accepted.fin, hstart]
    rcases List.mem_cons.mp ha with rfl | ha
    · exact ⟨by omega, htail.le⟩
    · have hmem := ih htail ha
      exact ⟨by omega, hmem.2⟩

end Chain

def Accepted.key (a : Accepted) : UInt8 × UInt32 := (a.sequence, a.len)

def nodeKey (node : SockSnNode) : UInt8 × UInt32 := (node.sequence, node.dataLen)

def nodesOf (id : UInt8) (s : Sockets) : List SockSnNode := s.snInfo.filter fun node => node.socketId = id

def reportsOf (id : UInt8) (s : Sockets) : List SendReport := s.reports.filter fun r => r.socketId = id

def Conn.report (c : Conn) (status : SendStatus) (a : Accepted) : SendReport := ⟨c.sockId, a.sequence, status⟩

/-- A socket with a context: the acknowledged sends were reported, the others wait in order, all
but the last one with their nodes. -/
structure Live (ctx : SocketContext) (nodes : List SockSnNode) (reports : List SendReport) (c : Conn)
    (done listed fresh : List Accepted) (mid : ℕ) : Prop where
  accepted : c.accepted = done ++ (listed ++ fresh)
  doneChain : Chain 0 done c.lastack
  listedChain : Chain c.lastack listed mid
  freshChain : Chain mid fresh c.queued
  transmitted : c.sndNxt ≤ c.queued
  small : mid < 2 ^ 32
  oneTask : c.tasks.length ≤ 1
  sent : fresh.map Accepted.key = c.tasks.filterMap SendTask.sentKey
  unsent : ∀ task ∈ c.tasks, task.phase = .checked → ∀ a ∈ listed ++ fresh, a.sequence ≠ task.sequence
  distinct : ((listed ++ fresh).map Accepted.sequence).Nodup
  sending : ∀ a ∈ listed ++ fresh, (∃ task ∈ c.tasks, task.sequence = a.sequence) ∨ ctx.HasStatus a.sequence .sending
  reports : reports = done.map (c.report .success)
  nodes : nodes.map nodeKey = listed.map Accepted.key
  sockId : ctx.sockId = c.sockId
  fd : ctx.fd = c.fd
  netType : ctx.netType = 0
  acked : ctx.acked = UInt32.ofNat c.lastack
  sendedSize : ctx.sendedSize = UInt32.ofNat mid

/-- A socket without a context: what was not acknowledged has failed. -/
structure Closed (nodes : List SockSnNode) (reports : List SendReport) (c : Conn) (done lost : List Accepted) : Prop where
  accepted : c.accepted = done ++ lost
  doneChain : Chain 0 done c.lastack
  unacked : ∀ a ∈ lost, c.lastack < a.fin
  reports : reports = done.map (c.report .success) ++ lost.map (c.report .failed)
  nodes : nodes = []

def Tracked (ctx : Option SocketContext) (nodes : List SockSnNode) (reports : List SendReport) (c : Conn) : Prop :=
  match ctx with
  | some ctx => ∃ done listed fresh mid, Live ctx nodes reports c done listed fresh mid
  | none => ∃ done lost, Closed nodes reports c done lost

structure Inv (s : Sys) : Prop where
  ids : Function.Injective fun k => (s.conns k).sockId
  fds : Function.Injective fun k => (s.conns k).fd
  noFault : s.fault = false
  tracked : ∀ k, Tracked (s.sockets.sockCtx k) (nodesOf (s.conns k).sockId s.sockets)
    (reportsOf (s.conns k).sockId s.sockets) (s.conns k)

variable {s t : Sys} {k : Fin sockNum} {ctx : SocketContext} {nodes : List SockSnNode} {reports : List SendReport}
  {c : Conn} {done listed fresh lost : List Accepted} {mid : ℕ}

/-! ### What the invariant says of reports and counters -/

section Outcome

variable {closed : Bool} {as : List Accepted}

theorem status_reports {status : SendStatus} (h : ∀ a ∈ as, outcome c closed a = some status) (sequence : UInt8) :
    ((as.map (c.report status)).filter fun r => r.sequence = sequence).map SendReport.status =
      (as.filter fun a => a.sequence = sequence).filterMap (outcome c closed) := by
  induction as with
  | nil => rfl
  | cons a as ih =>
    have hrest := ih fun b hb => h b (List.mem_cons_of_mem a hb)
    rw [List.map_cons]
    by_cases ha : a.sequence = sequence
    · rw [List.filter_cons_of_pos (by simp [Conn.report, ha]), List.filter_cons_of_pos (by simp [ha]), List.map_cons,
        List.filterMap_cons_some (h a List.mem_cons_self), hrest]
      rfl
    · rw [List.filter_cons_of_neg (by simp [Conn.report, ha]), List.filter_cons_of_neg (by simp [ha]), hrest]

theorem no_outcome (h : ∀ a ∈ as, outcome c closed a = none) (sequence : UInt8) :
    (as.filter fun a => a.sequence = sequence).filterMap (outcome c closed) = [] :=
  List.filterMap_eq_nil_iff.mpr fun a ha => h a (List.mem_of_mem_filter ha)

theorem outcome_done (hdone : Chain 0 as c.lastack) : ∀ a ∈ as, outcome c closed a = some .success :=
  fun _ ha => if_pos (hdone.mem ha).2

end Outcome

theorem Live.unacked (h : Live ctx nodes reports c done listed fresh mid) : ∀ a ∈ listed ++ fresh, c.lastack < a.fin :=
  fun _ ha => ((h.listedChain.append h.freshChain).mem ha).1

theorem Live.statuses (h : Live ctx nodes reports c done listed fresh mid) (sequence : UInt8) :
    (reports.filter fun r => r.sequence = sequence).map SendReport.status =
      (c.accepted.filter fun a => a.sequence = sequence).filterMap (outcome c false) := by
  have hpending : ∀ a ∈ listed ++ fresh, outcome c false a = none :=
    fun a ha => if_neg (Nat.not_le.mpr (h.unacked a ha))
  rw [h.reports, h.accepted, List.filter_append, List.filterMap_append, no_outcome hpending, List.append_nil,
    status_reports (outcome_done h.doneChain)]

theorem Closed.statuses (h : Closed nodes reports c done lost) (sequence : UInt8) :
    (reports.filter fun r => r.sequence = sequence).map SendReport.status =
      (c.accepted.filter fun a => a.sequence = sequence).filterMap (outcome c true) := by
  have hlost : ∀ a ∈ lost, outcome c true a = some .failed :=
    fun a ha => if_neg (Nat.not_le.mpr (h.unacked a ha))
  rw [h.reports, h.accepted, List.filter_append, List.filter_append, List.map_append, List.filterMap_append,
    status_reports (outcome_done h.doneChain), status_reports hlost]

theorem Live.counters (h : Live ctx nodes reports c done listed fresh mid) :
    ctx.acked.toNat = c.lastack ∧ ctx.acked ≤ ctx.sendedSize := by
  have hle := h.listedChain.le
  have hmid := h.small
  have hnat : ∀ n < 2 ^ 32, (UInt32.ofNat n).toNat = n := fun n hn => UInt32.toNat_ofNat_of_lt' hn
  rw [UInt32.le_iff_toNat_le, h.acked, h.sendedSize, hnat _ (by omega), hnat _ hmid]
  exact ⟨rfl, hle⟩

theorem Inv.exact (h : Inv s) : Exact s := by
  refine ⟨fun k sequence => ?_, fun k ctx hctx => ?_, h.noFault⟩
  · have hfilter : (s.sockets.reports.filter fun r => r.socketId = (s.conns k).sockId ∧ r.sequence = sequence) =
        (reportsOf (s.conns k).sockId s.sockets).filter fun r => r.sequence = sequence := by
      unfold reportsOf
      rw [List.filter_filter]
      refine congrArg (fun p => List.filter p _) (funext fun r => ?_)
      rw [Bool.and_comm, Bool.decide_and]
    rw [hfilter]
    have htracked := h.tracked k
    cases hctx : s.sockets.sockCtx k with
    | none =>
      rw [hctx] at htracked
      obtain ⟨done, lost, hclosed⟩ := htracked
      exact hclosed.statuses sequence
    | some ctx =>
      rw [hctx] at htracked
      obtain ⟨done, listed, fresh, mid, hlive⟩ := htracked
      exact hlive.statuses sequence
  · have htracked := h.tracked k
    rw [hctx] at htracked
    obtain ⟨done, listed, fresh, mid, hlive⟩ := htracked
    exact hlive.counters

theorem inv_init (setup : Setup) : Inv (.init setup) := by
  refine ⟨setup.sockId_injective, setup.fd_injective, rfl, fun k => ?_⟩
  show Tracked ((setup.ctx k).map (openedCtx (setup.sockId k) (setup.fd k))) [] [] ⟨_, _, _, 0, 0, 0, [], []⟩
  cases setup.ctx k with
  | none => exact ⟨[], [], rfl, rfl, fun _ ha => (List.not_mem_nil ha).elim, rfl, rfl⟩
  | some ctx =>
    refine ⟨[], [], [], 0, rfl, rfl, rfl, rfl, Nat.le_refl 0, Nat.two_pow_pos 32, Nat.zero_le 1, rfl, ?_, .nil, ?_, rfl,
      rfl, rfl, rfl, rfl, rfl, rfl⟩
    · exact fun _ htask => (List.not_mem_nil htask).elim
    · exact fun _ ha => (List.not_mem_nil ha).elim

/-! ### What a step leaves alone -/

/-- A step at one slot keeps the invariant when it keeps what belongs to the other ones. -/
theorem Inv.at_slot (h : Inv s) {c : Conn} (hconns : t.conns = Function.update s.conns k c)
    (hid : c.sockId = (s.conns k).sockId) (hfd : c.fd = (s.conns k).fd) (hfault : t.fault = false)
    (hslots : ∀ j ≠ k, t.sockets.sockCtx j = s.sockets.sockCtx j)
    (hnodes : ∀ id ≠ (s.conns k).sockId, nodesOf id t.sockets = nodesOf id s.sockets)
    (hreports : ∀ id ≠ (s.conns k).sockId, reportsOf id t.sockets = reportsOf id s.sockets)
    (htracked : Tracked (t.sockets.sockCtx k) (nodesOf (s.conns k).sockId t.sockets)
      (reportsOf (s.conns k).sockId t.sockets) c) : Inv t := by
  have hids : (fun j => (t.conns j).sockId) = fun j => (s.conns j).sockId := by
    funext j
    rw [hconns]
    by_cases hj : j = k
    · rw [hj, Function.update_self, hid]
    · rw [Function.update_of_ne hj]
  have hfds : (fun j => (t.conns j).fd) = fun j => (s.conns j).fd := by
    funext j
    rw [hconns]
    by_cases hj : j = k
    · rw [hj, Function.update_self, hfd]
    · rw [Function.update_of_ne hj]
  refine ⟨hids ▸ h.ids, hfds ▸ h.fds, hfault, fun j => ?_⟩
  rw [congrFun hids j, hconns]
  by_cases hj : j = k
  · rw [hj, Function.update_self]
    exact htracked
  · have hne : (s.conns j).sockId ≠ (s.conns k).sockId := fun heq => hj (h.ids heq)
    rw [Function.update_of_ne hj, hslots j hj, hnodes _ hne, hreports _ hne]
    exact h.tracked j

theorem Inv.live (h : Inv s) (hctx : s.sockets.sockCtx k = some ctx) :
    ∃ done listed fresh mid, Live ctx (nodesOf (s.conns k).sockId s.sockets) (reportsOf (s.conns k).sockId s.sockets)
      (s.conns k) done listed fresh mid := by
  have htracked := h.tracked k
  rw [hctx] at htracked
  exact htracked

theorem Inv.distinct_sockId (h : Inv s) : Distinct SocketContext.sockId s.sockets.sockCtx := by
  intro i j x y hi hj heq
  obtain ⟨_, _, _, _, hx⟩ := h.live hi
  obtain ⟨_, _, _, _, hy⟩ := h.live hj
  exact h.ids (hx.sockId.symm.trans (heq.trans hy.sockId))

theorem Inv.distinct_fd (h : Inv s) : Distinct SocketContext.fd s.sockets.sockCtx := by
  intro i j x y hi hj heq
  obtain ⟨_, _, _, _, hx⟩ := h.live hi
  obtain ⟨_, _, _, _, hy⟩ := h.live hj
  exact h.fds (hx.fd.symm.trans (heq.trans hy.fd))

/-- A socket is found by its number, also while its context changes. -/
theorem Inv.find_modify (h : Inv s) (hctx : s.sockets.sockCtx k = some ctx) {f : SocketContext → SocketContext}
    (hf : ∀ ctx, (f ctx).sockId = ctx.sockId) : findSockCtxIdBySockId ctx.sockId (s.sockets.modify k f) = some k := by
  have hown : (s.sockets.modify k f).sockCtx k = some (f ctx) := by
    rw [Sockets.modify_self, hctx]
    rfl
  have hdistinct : Distinct SocketContext.sockId (s.sockets.modify k f).sockCtx := by
    refine h.distinct_sockId.modify fun i x hi => ?_
    by_cases hik : i = k
    · rw [hik, hown] at hi
      cases hi
      exact ⟨ctx, hik ▸ hctx, (hf ctx).symm⟩
    · rw [Sockets.modify_of_ne hik] at hi
      exact ⟨x, hi, rfl⟩
  rw [← hf ctx]
  exact hdistinct.findSlot hown

/-- A change of the fields that the invariant does not read. -/
theorem Live.congr {ctx' : SocketContext} (h : Live ctx nodes reports c done listed fresh mid)
    (hid : ctx'.sockId = ctx.sockId) (hfd : ctx'.fd = ctx.fd) (hnet : ctx'.netType = ctx.netType)
    (hacked : ctx'.acked = ctx.acked) (hsended : ctx'.sendedSize = ctx.sendedSize)
    (hstate : ctx'.sequenceState = ctx.sequenceState) : Live ctx' nodes reports c done listed fresh mid := by
  refine { h with
    sockId := hid.trans h.sockId
    fd := hfd.trans h.fd
    netType := hnet.trans h.netType
    acked := hacked.trans h.acked
    sendedSize := hsended.trans h.sendedSize
    sending := fun a ha => (h.sending a ha).imp_right fun hstatus i hi => ?_ }
  rw [hstate]
  exact hstatus i hi

/-! ### A send begins -/

theorem free_not_sending {sequence : UInt8} (h : bc26GetFreeSequence ctx = some sequence) :
    ¬ ctx.HasStatus sequence .sending := by
  obtain ⟨i, hfind, rfl⟩ := Option.map_eq_some_iff.mp h
  have hfree := List.find?_some hfind
  have hlt : i.val + 1 < 2 ^ 8 := Nat.lt_of_le_of_lt i.isLt (by decide)
  intro hstatus
  have hsending := hstatus i (UInt8.toNat_ofNat_of_lt' hlt).symm
  rw [hsending] at hfree
  cases hfree

theorem Inv.zeroFlag (h : Inv s) (k : Fin sockNum) (v : UInt16) :
    Inv { s with sockets := s.sockets.modify k fun ctx => { ctx with zeroFlag := v } } := by
  refine h.at_slot (Function.update_eq_self k s.conns).symm rfl rfl h.noFault (fun j hj => Sockets.modify_of_ne hj)
    (fun _ _ => rfl) (fun _ _ => rfl) ?_
  dsimp only
  rw [Sockets.modify_self]
  have htracked := h.tracked k
  cases hctx : s.sockets.sockCtx k with
  | none =>
    rw [hctx] at htracked
    exact htracked
  | some ctx =>
    rw [hctx] at htracked
    obtain ⟨done, listed, fresh, mid, hlive⟩ := htracked
    exact ⟨done, listed, fresh, mid, hlive.congr rfl rfl rfl rfl rfl rfl⟩

theorem Inv.begin (h : Inv s) (hctx : s.sockets.sockCtx k = some ctx) {sequence : UInt8}
    (hfree : bc26GetFreeSequence ctx = some sequence) (htasks : (s.conns k).tasks = []) (len preSn : UInt32) :
    Inv (s.setConn k { s.conns k with tasks := (s.conns k).tasks ++ [⟨len, sequence, preSn, .checked⟩] }) := by
  obtain ⟨done, listed, fresh, mid, hlive⟩ := h.live hctx
  refine h.at_slot rfl rfl rfl h.noFault (fun _ _ => rfl) (fun _ _ => rfl) (fun _ _ => rfl) ?_
  show Tracked (s.sockets.sockCtx k) _ _ _
  rw [hctx, htasks]
  have hsent := hlive.sent
  rw [htasks] at hsent
  refine ⟨done, listed, fresh, mid, { hlive with
    oneTask := Nat.le_refl 1
    sent := hsent
    unsent := fun task htask _ a ha heq => ?_
    sending := fun a ha => (hlive.sending a ha).imp_left fun ⟨task, htask, _⟩ => ?_ }⟩
  · obtain rfl := List.mem_singleton.mp htask
    rcases hlive.sending a ha with ⟨task, htask, -⟩ | hstatus
    · rw [htasks] at htask
      cases htask
    · rw [heq] at hstatus
      exact free_not_sending hfree hstatus
  · rw [htasks] at htask
    cases htask

theorem send_inv (h : Inv s) {len : UInt32} {wellFormed : Bool} (htasks : (s.conns k).tasks = [])
    (hstep : sendBegin k len wellFormed s = some t) : Inv t := by
  unfold sendBegin at hstep
  obtain ⟨ctx, hctx, rfl⟩ := Option.map_eq_some_iff.mp hstep
  have h' := h.zeroFlag k 0
  dsimp only
  have hfind := h.find_modify (f := fun ctx => { ctx with zeroFlag := 0 }) hctx fun _ => rfl
  rw [hfind, Option.bind_some, Sockets.modify_self, hctx, Option.map_some]
  dsimp only
  split
  · exact h'
  next sequence hfree =>
    split
    · exact h'.zeroFlag k 1
    · split
      · exact h'
      · refine h'.begin ?_ hfree htasks len _
        rw [Sockets.modify_self, hctx]
        rfl

/-! ### The steps of a send -/

theorem Live.single (h : Live ctx nodes reports c done listed fresh mid) {i : ℕ} {task : SendTask}
    (htask : c.tasks[i]? = some task) : i = 0 ∧ c.tasks = [task] := by
  have hlen := h.oneTask
  match htasks : c.tasks with
  | [] =>
    rw [htasks] at htask
    cases htask
  | [only] =>
    rw [htasks] at htask
    cases i with
    | zero => exact ⟨rfl, congrArg (fun x => [x]) (Option.some.inj htask)⟩
    | succ i => cases htask
  | _ :: _ :: _ =>
    rw [htasks] at hlen
    simp at hlen

/-- A change of one context, with what it does to the connection. -/
theorem Inv.at_ctx (h : Inv s) {f : SocketContext → SocketContext} {c : Conn} (hctx : s.sockets.sockCtx k = some ctx)
    (hid : c.sockId = (s.conns k).sockId) (hfd : c.fd = (s.conns k).fd)
    (hlive : ∃ done listed fresh mid, Live (f ctx) (nodesOf (s.conns k).sockId s.sockets)
      (reportsOf (s.conns k).sockId s.sockets) c done listed fresh mid) :
    Inv ({ s with sockets := s.sockets.modify k f }.setConn k c) := by
  refine h.at_slot rfl hid hfd h.noFault (fun j hj => Sockets.modify_of_ne hj) (fun _ _ => rfl) (fun _ _ => rfl) ?_
  show Tracked ((s.sockets.modify k f).sockCtx k) _ _ _
  rw [Sockets.modify_self, hctx]
  exact hlive

section Task

variable {len sequence : _} {preSn : UInt32}

theorem Live.checked (h : Live ctx nodes reports c done listed fresh mid)
    (htasks : c.tasks = [⟨len, sequence, preSn, .checked⟩]) :
    fresh = [] ∧ ∀ a ∈ listed ++ fresh, a.sequence ≠ sequence ∧ ctx.HasStatus a.sequence .sending := by
  have hsent := h.sent
  rw [htasks] at hsent
  refine ⟨List.map_eq_nil_iff.mp hsent, fun a ha => ?_⟩
  have hne : a.sequence ≠ sequence :=
    h.unsent ⟨len, sequence, preSn, .checked⟩ (htasks ▸ List.mem_singleton_self _) rfl a ha
  refine ⟨hne, (h.sending a ha).resolve_left ?_⟩
  rintro ⟨task, htask, heq⟩
  rw [htasks, List.mem_singleton] at htask
  subst htask
  exact hne heq.symm

/-- The stack takes no data. -/
theorem Live.refuse (h : Live ctx nodes reports c done listed fresh mid)
    (htasks : c.tasks = [⟨len, sequence, preSn, .checked⟩]) :
    Live (ctx.setSequence sequence .failed) nodes reports { c with tasks := [] } done listed fresh mid := by
  obtain ⟨rfl, hpending⟩ := h.checked htasks
  refine { h with
    oneTask := Nat.zero_le 1
    sent := rfl
    unsent := fun _ htask => (List.not_mem_nil htask).elim
    sending := fun a ha => Or.inr ?_ }
  exact (SocketContext.setSequence_of_ne (hpending a ha).1).mpr (hpending a ha).2

/-- The stack takes the next data of its stream. -/
theorem Live.accept (h : Live ctx nodes reports c done listed fresh mid)
    (htasks : c.tasks = [⟨len, sequence, preSn, .checked⟩]) {ret : UInt32} (hret : 0 < ret) :
    Live ctx nodes reports { c with
      queued := c.queued + ret.toNat
      tasks := [⟨len, sequence, preSn, .sent ret⟩]
      accepted := c.accepted ++ [⟨sequence, ret, c.queued⟩] } done listed [⟨sequence, ret, c.queued⟩] mid := by
  obtain ⟨rfl, hpending⟩ := h.checked htasks
  rw [List.append_nil] at hpending
  have hmid : mid = c.queued := h.freshChain
  have hmem : ∀ a ∈ listed ++ [(⟨sequence, ret, c.queued⟩ : Accepted)], a ∈ listed ∨ a = ⟨sequence, ret, c.queued⟩ :=
    fun a ha => (List.mem_append.mp ha).imp_right List.mem_singleton.mp
  refine { h with
    accepted := ?_
    freshChain := ⟨hmid.symm, UInt32.lt_iff_toNat_lt.mp hret, rfl⟩
    transmitted := Nat.le_add_right_of_le h.transmitted
    oneTask := Nat.le_refl 1
    sent := rfl
    unsent := fun task htask hphase => ?_
    distinct := ?_
    sending := fun a ha => ?_ }
  · show c.accepted ++ _ = _
    rw [h.accepted, List.append_nil, List.append_assoc]
  · obtain rfl := List.mem_singleton.mp htask
    cases hphase
  · have hdistinct := h.distinct
    rw [List.append_nil] at hdistinct
    rw [List.map_append]
    refine List.nodup_append.mpr ⟨hdistinct, List.nodup_singleton _, fun x hx y hy => ?_⟩
    obtain ⟨a, ha, rfl⟩ := List.mem_map.mp hx
    obtain rfl := List.mem_singleton.mp hy
    exact (hpending a ha).1
  · rcases hmem a ha with ha | rfl
    · exact Or.inr (hpending a ha).2
    · exact Or.inl ⟨_, List.mem_singleton_self _, rfl⟩

/-- The node of the last send is added. -/
theorem Live.list (h : Live ctx nodes reports c done listed fresh mid) {ret : UInt32} {node : SockSnNode}
    (htasks : c.tasks = [⟨len, sequence, preSn, .sent ret⟩]) (hnode : nodeKey node = (sequence, ret))
    (hsmall : c.queued < 2 ^ 32) :
    Live { ctx with sendedSize := ctx.sendedSize + ret } (nodes ++ [node]) reports
      { c with tasks := [⟨len, sequence, preSn, .added⟩] } done (listed ++ fresh) [] c.queued := by
  have hsent := h.sent
  rw [htasks] at hsent
  obtain ⟨a, rfl, hkey⟩ := List.map_eq_singleton_iff.mp hsent
  obtain ⟨hstart, -, hfin⟩ := h.freshChain
  have hqueued : c.queued = mid + ret.toNat := by
    have hlen : a.len = ret := congrArg Prod.snd hkey
    have hend : a.fin = c.queued := hfin
    rw [← hend, Accepted.fin, hstart, hlen]
  refine { h with
    accepted := by
      rw [List.append_nil]
      exact h.accepted
    listedChain := h.listedChain.append h.freshChain
    freshChain := rfl
    small := hsmall
    oneTask := Nat.le_refl 1
    sent := rfl
    unsent := fun task htask hphase => ?_
    distinct := by
      rw [List.append_nil]
      exact h.distinct
    sending := fun b hb => ?_
    nodes := ?_
    sendedSize := ?_ }
  · obtain rfl := List.mem_singleton.mp htask
    cases hphase
  · rw [List.append_nil] at hb
    refine (h.sending b hb).imp_left fun ⟨task, htask, heq⟩ => ?_
    rw [htasks, List.mem_singleton] at htask
    subst htask
    exact ⟨_, List.mem_singleton_self _, heq⟩
  · rw [List.map_append, List.map_append, h.nodes]
    exact congrArg (fun key => _ ++ [key]) (hnode.trans hkey.symm)
  · show ctx.sendedSize + ret = _
    rw [h.sendedSize, hqueued, UInt32.ofNat_add, UInt32.ofNat_toNat]

/-- The sequence of the last send is marked. -/
theorem Live.mark (h : Live ctx nodes reports c done listed fresh mid)
    (htasks : c.tasks = [⟨len, sequence, preSn, .added⟩]) :
    Live (ctx.setSequence sequence .sending) nodes reports { c with tasks := [] } done listed fresh mid := by
  have hsent := h.sent
  rw [htasks] at hsent
  refine { h with
    oneTask := Nat.zero_le 1
    sent := hsent
    unsent := fun _ htask => (List.not_mem_nil htask).elim
    sending := fun a ha => Or.inr ?_ }
  by_cases heq : a.sequence = sequence
  · rw [heq]
    exact SocketContext.setSequence_self
  · refine (SocketContext.setSequence_of_ne heq).mpr ((h.sending a ha).resolve_left ?_)
    rintro ⟨task, htask, hseq⟩
    rw [htasks, List.mem_singleton] at htask
    subst htask
    exact heq hseq.symm

end Task

theorem send2_inv (h : Inv s) {i : ℕ} {ret : Option UInt32} (hopen : (s.sockets.sockCtx k).isSome)
    (hstep : sendSend2 k i ret s = some t) : Inv t := by
  obtain ⟨ctx, hctx⟩ := Option.isSome_iff_exists.mp hopen
  obtain ⟨done, listed, fresh, mid, hlive⟩ := h.live hctx
  unfold sendSend2 at hstep
  dsimp only at hstep
  split at hstep
  next len sequence preSn htask =>
    obtain ⟨rfl, htasks⟩ := hlive.single htask
    rw [hctx, if_neg (by simp), htasks] at hstep
    cases ret with
    | none =>
      cases hstep
      exact h.at_ctx hctx rfl rfl ⟨done, listed, fresh, mid, hlive.refuse htasks⟩
    | some ret =>
      dsimp only at hstep
      split at hstep
      next hret =>
        cases hstep
        refine h.at_slot rfl rfl rfl h.noFault (fun _ _ => rfl) (fun _ _ => rfl) (fun _ _ => rfl) ?_
        show Tracked (s.sockets.sockCtx k) _ _ _
        rw [hctx]
        exact ⟨done, listed, _, mid, hlive.accept htasks hret.1⟩
      next => cases hstep
  next => cases hstep

/-- A node that is added shows among the nodes of its socket only. -/
theorem nodesOf_append (id : UInt8) (node : SockSnNode) (sockets : Sockets) :
    nodesOf id { sockets with snInfo := sockets.snInfo ++ [node] } =
      if node.socketId = id then nodesOf id sockets ++ [node] else nodesOf id sockets := by
  unfold nodesOf
  rw [List.filter_append]
  split
  next hid => rw [List.filter_cons_of_pos (by simp [hid]), List.filter_nil]
  next hid => rw [List.filter_cons_of_neg (by simp [hid]), List.filter_nil, List.append_nil]

theorem reportsOf_append (id : UInt8) (r : SendReport) (sockets : Sockets) :
    reportsOf id { sockets with reports := sockets.reports ++ [r] } =
      if r.socketId = id then reportsOf id sockets ++ [r] else reportsOf id sockets := by
  unfold reportsOf
  rw [List.filter_append]
  split
  next hid => rw [List.filter_cons_of_pos (by simp [hid]), List.filter_nil]
  next hid => rw [List.filter_cons_of_neg (by simp [hid]), List.filter_nil, List.append_nil]

theorem add_inv (h : Inv s) {i : ℕ} (hopen : (s.sockets.sockCtx k).isSome) (hsmall : (s.conns k).queued < 2 ^ 32)
    (hstep : sendAdd k i s = some t) : Inv t := by
  obtain ⟨ctx, hctx⟩ := Option.isSome_iff_exists.mp hopen
  obtain ⟨done, listed, fresh, mid, hlive⟩ := h.live hctx
  unfold sendAdd at hstep
  dsimp only at hstep
  split at hstep
  next len sequence preSn ret htask =>
    obtain ⟨rfl, htasks⟩ := hlive.single htask
    have hfind := h.find_modify (f := fun ctx => { ctx with sendedSize := ctx.sendedSize + ret }) hctx fun _ => rfl
    rw [hctx, htasks] at hstep
    unfold addSninfoNode at hstep
    dsimp only at hstep
    rw [hfind] at hstep
    dsimp only at hstep
    rw [Sockets.modify_self, hctx] at hstep
    cases hstep
    refine h.at_slot rfl rfl rfl h.noFault (fun j hj => Sockets.modify_of_ne hj) (fun id hid => ?_) (fun _ _ => rfl) ?_
    · refine (nodesOf_append id _ _).trans (if_neg ?_)
      rw [hlive.sockId]
      exact hid.symm
    · have hnodes := (nodesOf_append (s.conns k).sockId ⟨preSn, ret, ctx.sockId, sequence, ctx.netType⟩
        (s.sockets.modify k fun ctx => { ctx with sendedSize := ctx.sendedSize + ret })).trans (if_pos hlive.sockId)
      dsimp only [Sys.setConn] at hnodes ⊢
      rw [Sockets.modify_self, hctx, hnodes]
      exact ⟨done, listed ++ fresh, [], (s.conns k).queued, hlive.list htasks rfl hsmall⟩
  next => cases hstep

theorem finish_inv (h : Inv s) {i : ℕ} (hopen : (s.sockets.sockCtx k).isSome) (hstep : sendFinish k i s = some t) :
    Inv t := by
  obtain ⟨ctx, hctx⟩ := Option.isSome_iff_exists.mp hopen
  obtain ⟨done, listed, fresh, mid, hlive⟩ := h.live hctx
  unfold sendFinish at hstep
  dsimp only at hstep
  split at hstep
  next len sequence preSn htask =>
    obtain ⟨rfl, htasks⟩ := hlive.single htask
    rw [hctx, if_neg (by simp), htasks] at hstep
    cases hstep
    exact h.at_ctx hctx rfl rfl ⟨done, listed, fresh, mid, hlive.mark htasks⟩
  next => cases hstep

theorem transmit_inv (h : Inv s) {n : ℕ} (hstep : transmit k n s = some t) : Inv t := by
  unfold transmit at hstep
  dsimp only at hstep
  split at hstep
  next hle =>
    cases hstep
    refine h.at_slot rfl rfl rfl h.noFault (fun _ _ => rfl) (fun _ _ => rfl) (fun _ _ => rfl) ?_
    have htracked := h.tracked k
    show Tracked (s.sockets.sockCtx k) _ _ _
    cases hctx : s.sockets.sockCtx k with
    | none =>
      rw [hctx] at htracked
      obtain ⟨done, lost, hclosed⟩ := htracked
      exact ⟨done, lost, { hclosed with }⟩
    | some ctx =>
      rw [hctx] at htracked
      obtain ⟨done, listed, fresh, mid, hlive⟩ := htracked
      exact ⟨done, listed, fresh, mid, { hlive with transmitted := hle }⟩
  next => cases hstep

/-! ### An acknowledgement -/

section Ack

variable {a : Accepted} {node : SockSnNode}

theorem Live.oldest_eq (h : Live ctx nodes reports c done listed fresh mid) (ha : c.oldest = some a) :
    ∃ rest, listed ++ fresh = a :: rest := by
  unfold Conn.oldest at ha
  have hdone : done.find? (fun a => c.lastack < a.fin) = none :=
    List.find?_eq_none.mpr fun b hb => by
      rw [decide_eq_true_eq, Nat.not_lt]
      exact (h.doneChain.mem hb).2
  rw [h.accepted, List.find?_append, hdone, Option.none_or] at ha
  have hunacked := h.unacked
  revert ha hunacked
  generalize listed ++ fresh = pending
  intro ha hunacked
  cases pending with
  | nil => cases ha
  | cons b rest =>
    rw [List.find?_cons_of_pos (by simp [hunacked b List.mem_cons_self])] at ha
    cases ha
    exact ⟨rest, rfl⟩

/-- The node of the oldest send is the first one of its socket. -/
theorem Live.oldest_node (h : Live ctx nodes reports c done listed fresh mid) (ha : c.oldest = some a)
    (hnode : node ∈ nodes) (hkey : nodeKey node = a.key) : ∃ rest as, nodes = node :: rest ∧ listed = a :: as := by
  obtain ⟨pending, hpending⟩ := h.oldest_eq ha
  have hmap := h.nodes
  have hdistinct := h.distinct
  cases listed with
  | nil =>
    obtain rfl := List.map_eq_nil_iff.mp hmap
    cases hnode
  | cons b as =>
    obtain rfl : b = a := (List.cons.inj hpending).1
    cases nodes with
    | nil => cases hnode
    | cons first rest =>
      rcases List.mem_cons.mp hnode with rfl | hrest
      · exact ⟨rest, as, rfl, rfl⟩
      · have hmem : nodeKey node ∈ as.map Accepted.key := (List.cons.inj hmap).2 ▸ List.mem_map_of_mem hrest
        obtain ⟨other, hother, hsame⟩ := List.mem_map.mp hmem
        have hseq : other.sequence = b.sequence := congrArg Prod.fst (hsame.trans hkey)
        rw [List.cons_append, List.map_cons, List.nodup_cons] at hdistinct
        refine absurd ?_ hdistinct.1
        rw [← hseq]
        exact List.mem_map_of_mem (List.mem_append_left fresh hother)

theorem sn_sub (c : Conn) (a : Accepted) : c.sn a.fin - c.sn a.start = a.len := by
  unfold Conn.sn Accepted.fin
  rw [UInt32.ofNat_add, UInt32.ofNat_toNat]
  grind

/-- The oldest send ends. -/
theorem Live.ack {as : List Accepted} {rest : List SockSnNode}
    (h : Live ctx (node :: rest) reports c done (a :: as) fresh mid) :
    Live (SocketContext.setSequence a.sequence .success { ctx with acked := ctx.acked + a.len }) rest
      (reports ++ [⟨c.sockId, a.sequence, .success⟩]) { c with lastack := a.fin } (done ++ [a]) as fresh mid := by
  obtain ⟨hstart, hpos, htail⟩ := h.listedChain
  have hdistinct := h.distinct
  rw [List.cons_append, List.map_cons, List.nodup_cons] at hdistinct
  refine { h with
    accepted := ?_
    doneChain := h.doneChain.append ⟨hstart, hpos, rfl⟩
    listedChain := htail
    unsent := fun task htask hphase b hb => h.unsent task htask hphase b (List.mem_cons_of_mem a hb)
    distinct := hdistinct.2
    sending := fun b hb => (h.sending b (List.mem_cons_of_mem a hb)).imp_right fun hstatus => ?_
    reports := ?_
    nodes := (List.cons.inj h.nodes).2
    acked := ?_ }
  · show c.accepted = _
    rw [h.accepted, List.append_assoc]
    rfl
  · have hne : b.sequence ≠ a.sequence := fun heq => hdistinct.1 (heq ▸ List.mem_map_of_mem hb)
    exact (SocketContext.setSequence_of_ne hne).mpr hstatus
  · rw [h.reports, List.map_append]
    rfl
  · show ctx.acked + a.len = UInt32.ofNat a.fin
    rw [h.acked, Accepted.fin, hstart, UInt32.ofNat_add, UInt32.ofNat_toNat]

end Ack

/-- A connection whose socket was deleted is not found. -/
theorem Inv.find_fd_closed (h : Inv s) (hctx : s.sockets.sockCtx k = none) :
    findSlot (fun ctx => ctx.fd = (s.conns k).fd) s.sockets.sockCtx = none := by
  refine findSlot_none.mpr fun j ctx hj => decide_eq_false fun hfd => ?_
  obtain ⟨_, _, _, _, hlive⟩ := h.live hj
  obtain rfl : j = k := h.fds (hlive.fd.symm.trans hfd)
  rw [hctx] at hj
  cases hj

theorem Inv.find_fd (h : Inv s) (hctx : s.sockets.sockCtx k = some ctx) :
    findSlot (fun ctx => ctx.fd = (s.conns k).fd) s.sockets.sockCtx = some k := by
  obtain ⟨_, _, _, _, hlive⟩ := h.live hctx
  rw [← hlive.fd]
  exact h.distinct_fd.findSlot hctx

/-- The acknowledgement ends the oldest send and changes nothing for the other sockets. -/
theorem tcpack_open_inv (h : Inv s) {a : Accepted} (hctx : s.sockets.sockCtx k = some ctx) (ha : (s.conns k).oldest = some a)
    (hmem : ⟨(s.conns k).sn a.start, a.len, (s.conns k).sockId, a.sequence, 0⟩ ∈ s.sockets.snInfo) :
    Inv ({ s with sockets := atTCPACKInfo (s.conns k).fd ((s.conns k).sn a.fin) s.sockets }.setConn k
      { s.conns k with lastack := a.fin }) := by
  obtain ⟨done, listed, fresh, mid, hlive⟩ := h.live hctx
  let node : SockSnNode := ⟨(s.conns k).sn a.start, a.len, (s.conns k).sockId, a.sequence, 0⟩
  have hown : node ∈ nodesOf (s.conns k).sockId s.sockets := List.mem_filter.mpr ⟨hmem, by simp [node]⟩
  obtain ⟨rest, as, hnodes, rfl⟩ := hlive.oldest_node ha hown rfl
  have hfilter : s.sockets.snInfo.filter (fun other => other.socketId = (s.conns k).sockId) = node :: rest := hnodes
  have hfound : s.sockets.snInfo.find? (fun other => other.netType = 0 ∧ other.socketId = ctx.sockId ∧
      (s.conns k).sn a.fin - other.perSn = other.dataLen) = some node := by
    have hkeep : ∀ other : SockSnNode,
        decide (other.netType = 0 ∧ other.socketId = ctx.sockId ∧ (s.conns k).sn a.fin - other.perSn = other.dataLen) →
          decide (other.socketId = (s.conns k).sockId) := by
      intro other hother
      rw [decide_eq_true_eq] at hother ⊢
      exact hother.2.1.trans hlive.sockId
    rw [← KeyedLists.find?_filter_of_keep hkeep, hfilter, List.find?_cons_of_pos]
    exact decide_eq_true ⟨rfl, hlive.sockId.symm, sn_sub _ a⟩
  have hid : findSockCtxIdBySockId ctx.sockId s.sockets = some k := h.distinct_sockId.findSlot hctx
  rw [atTCPACKInfo_found (h.find_fd hctx) hctx hid hfound, hlive.sockId]
  refine h.at_slot rfl rfl rfl h.noFault (fun j hj => Sockets.modify_of_ne hj) (fun id hne => ?_) (fun id hne => ?_) ?_
  · refine KeyedLists.filter_eraseP_of_drop (fun other hother => ?_) _
    rw [decide_eq_true_eq] at hother ⊢
    exact fun heq => hne (heq.symm.trans hother.1)
  · exact (reportsOf_append id _ _).trans (if_neg hne.symm)
  · have hnodes' : nodesOf (s.conns k).sockId { s.sockets with
        snInfo := s.sockets.snInfo.eraseP fun other => other.socketId = (s.conns k).sockId ∧ other.sequence = a.sequence } =
          rest := by
      refine (KeyedLists.filter_eraseP_of_keep (fun other hother => ?_) _).trans ?_
      · rw [decide_eq_true_eq] at hother ⊢
        exact hother.1
      · rw [hfilter, List.eraseP_cons_of_pos (by simp [node])]
    have hreports : reportsOf (s.conns k).sockId { s.sockets with
        reports := s.sockets.reports ++ [⟨(s.conns k).sockId, a.sequence, .success⟩] } =
          reportsOf (s.conns k).sockId s.sockets ++ [⟨(s.conns k).sockId, a.sequence, .success⟩] :=
      (reportsOf_append _ _ _).trans (if_pos rfl)
    rw [hnodes] at hlive
    show Tracked ((s.sockets.modify k _).sockCtx k) (nodesOf (s.conns k).sockId { s.sockets with
        snInfo := s.sockets.snInfo.eraseP fun other => other.socketId = (s.conns k).sockId ∧ other.sequence = a.sequence })
      (reportsOf (s.conns k).sockId { s.sockets with
        reports := s.sockets.reports ++ [⟨(s.conns k).sockId, a.sequence, .success⟩] }) _
    rw [Sockets.modify_self, hctx, hnodes', hreports]
    exact ⟨done ++ [a], as, fresh, mid, hlive.ack⟩

theorem tcpack_inv (h : Inv s) {pos : ℕ}
    (horderly : (s.sockets.sockCtx k).isSome → ∃ a ∈ (s.conns k).oldest, a.fin = pos ∧
      ⟨(s.conns k).sn a.start, a.len, (s.conns k).sockId, a.sequence, 0⟩ ∈ s.sockets.snInfo)
    (hstep : tcpack k pos s = some t) : Inv t := by
  unfold tcpack at hstep
  dsimp only at hstep
  split at hstep
  · cases hctx : s.sockets.sockCtx k with
    | none =>
      have hsame : atTCPACKInfo (s.conns k).fd ((s.conns k).sn pos) s.sockets = s.sockets := by
        unfold atTCPACKInfo
        rw [h.find_fd_closed hctx]
      rw [hctx, hsame] at hstep
      cases hstep
      refine h.at_slot rfl rfl rfl h.noFault (fun _ _ => rfl) (fun _ _ => rfl) (fun _ _ => rfl) ?_
      exact h.tracked k
    | some ctx =>
      obtain ⟨a, ha, rfl, hmem⟩ := horderly (by rw [hctx]; rfl)
      rw [hctx] at hstep
      cases hstep
      exact tcpack_open_inv h hctx ha hmem
  · cases hstep

/-! ### A socket is deleted -/

theorem delete_closed {report : Bool} (hctx : s.sockets.sockCtx k = none) : deleteCtx k report s = s := by
  unfold deleteCtx delSocketCtxByIndex
  rw [hctx]

/-- Nothing waits but sends with nodes, and they are reported. -/
theorem Live.close (h : Live ctx nodes reports c done listed fresh mid) (htasks : ∀ task ∈ c.tasks, task.sentKey = none) :
    Closed [] (reports ++ nodes.map fun node => ⟨c.sockId, node.sequence, .failed⟩) c done listed := by
  have hfresh : fresh = [] := by
    have hsent := h.sent
    rw [List.filterMap_eq_nil_iff.mpr htasks] at hsent
    exact List.map_eq_nil_iff.mp hsent
  have haccepted := h.accepted
  have hunacked := h.unacked
  rw [hfresh, List.append_nil] at haccepted hunacked
  refine ⟨haccepted, h.doneChain, hunacked, ?_, rfl⟩
  have hmap := congrArg (List.map fun key : UInt8 × UInt32 => (⟨c.sockId, key.1, .failed⟩ : SendReport)) h.nodes
  rw [List.map_map, List.map_map] at hmap
  rw [h.reports]
  exact congrArg (_ ++ ·) hmap

section Delete

variable {report : Bool} (h : Inv s) (hctx : s.sockets.sockCtx k = some ctx)
  (hwrites : ∀ node ∈ s.sockets.snInfo, node.socketId = (s.conns k).sockId →
    WritesOwn (s.conns k).sockId k node s.sockets)
include h hctx hwrites

/-- What is deleted, by the number of the connection. -/
theorem delete_spec (report : Bool) :
    ∃ sockets, deleteCtx k report s = { s with sockets } ∧
      sockets.sockCtx = Function.update s.sockets.sockCtx k none ∧
      sockets.snInfo = s.sockets.snInfo.filter (fun node => node.socketId ≠ (s.conns k).sockId) ∧
      sockets.reports = s.sockets.reports ++ (nodesOf (s.conns k).sockId s.sockets).map fun node =>
        ⟨(s.conns k).sockId, node.sequence, .failed⟩ := by
  obtain ⟨_, _, _, _, hlive⟩ := h.live hctx
  rw [← hlive.sockId] at hwrites ⊢
  obtain ⟨sockets, hdel, hslots, hinfo, hreports⟩ := delSocketCtxByIndex_spec report hctx hwrites
  refine ⟨sockets, ?_, hslots, hinfo, hreports⟩
  unfold deleteCtx
  rw [hdel]

theorem delete_open_inv (htasks : ∀ task ∈ (s.conns k).tasks, task.sentKey = none) : Inv (deleteCtx k report s) := by
  obtain ⟨done, listed, fresh, mid, hlive⟩ := h.live hctx
  obtain ⟨sockets, heq, hslots, hinfo, hreports⟩ := delete_spec h hctx hwrites report
  rw [heq]
  have hfilter : ∀ id, reportsOf id sockets = reportsOf id s.sockets ++
      if (s.conns k).sockId = id then (nodesOf id s.sockets).map fun node => ⟨id, node.sequence, .failed⟩ else [] := by
    intro id
    unfold reportsOf
    rw [hreports, List.filter_append, List.filter_map]
    split
    next hid =>
      subst hid
      exact congrArg (fun l => _ ++ List.map _ l) (List.filter_eq_self.mpr fun _ _ => decide_eq_true rfl)
    next hid =>
      refine congrArg (_ ++ ·) (List.map_eq_nil_iff.mpr (List.filter_eq_nil_iff.mpr fun _ _ => ?_))
      exact Bool.eq_false_iff.mp (decide_eq_false hid)
  refine h.at_slot (Function.update_eq_self k s.conns).symm rfl rfl h.noFault (fun j hj => ?_) (fun id hid => ?_)
    (fun id hid => ?_) ?_
  · show sockets.sockCtx j = _
    rw [hslots, Function.update_of_ne hj]
  · show sockets.snInfo.filter _ = _
    rw [hinfo, List.filter_filter]
    refine List.filter_congr fun node _ => ?_
    by_cases hnode : node.socketId = id
    · simp [hnode, hid]
    · simp [hnode]
  · refine (hfilter id).trans ?_
    rw [if_neg hid.symm, List.append_nil]
  · have hnone : sockets.sockCtx k = none := by rw [hslots, Function.update_self]
    have hnodes : nodesOf (s.conns k).sockId sockets = [] := by
      unfold nodesOf
      rw [hinfo, List.filter_filter]
      exact List.filter_eq_nil_iff.mpr fun node _ => by simp
    show Tracked (sockets.sockCtx k) (nodesOf _ sockets) (reportsOf _ sockets) _
    rw [hnone, hnodes, hfilter, if_pos rfl]
    exact ⟨done, listed, hlive.close htasks⟩

theorem delete_own : DeletesOwn (.delete k report) s := by
  intro ctx' t hctx' hstep
  obtain rfl : ctx = ctx' := Option.some.inj (hctx.symm.trans hctx')
  obtain ⟨_, _, _, _, hlive⟩ := h.live hctx
  obtain ⟨sockets, heq, hslots, hinfo, -⟩ := delete_spec h hctx hwrites report
  obtain rfl : deleteCtx k report s = t := Option.some.inj hstep
  rw [heq, hlive.sockId]
  refine ⟨fun j hj => ?_, hinfo⟩
  show (sockets.sockCtx j).map _ = _
  rw [hslots, Function.update_of_ne hj]

end Delete

/-! ### Runs -/

theorem step_inv (action : Action) (s t : Sys) (h : Inv s) (horderly : Orderly action s) (hstep : step action s = some t) :
    Inv t := by
  cases action with
  | send k len wellFormed => exact send_inv h horderly hstep
  | send2 k i ret => exact send2_inv h horderly hstep
  | add k i => exact add_inv h horderly.1 horderly.2 hstep
  | finish k i => exact finish_inv h horderly hstep
  | transmit k n => exact transmit_inv h hstep
  | tcpack k pos => exact tcpack_inv h horderly hstep
  | delete k report =>
    cases hstep
    cases hctx : s.sockets.sockCtx k with
    | none =>
      rw [delete_closed hctx]
      exact h
    | some ctx => exact delete_open_inv h hctx horderly.2 horderly.1

theorem step_deletesOwn (action : Action) (s : Sys) (h : Inv s) (horderly : Orderly action s) : DeletesOwn action s := by
  cases action with
  | delete k report =>
    intro ctx t hctx
    exact delete_own h hctx horderly.2 ctx t hctx
  | _ => trivial

/-- In a run of orderly steps every accepted send has its one final report in every state, and
every deletion is that of one socket. -/
theorem sends_exact (setup : Setup) (actions : List Action) (h : Along step Orderly actions (.init setup)) :
    Always step Exact actions (.init setup) ∧ Along step DeletesOwn actions (.init setup) := by
  have hinv := inv_init setup
  constructor
  · exact always_imp (fun _ => Inv.exact) (always_of_along step_inv hinv h)
  · exact along_imp step_deletesOwn step_inv hinv h

/-- The first slot has a socket; its stream begins a few bytes before its numbers wrap. -/
def sampleSetup : Setup where
  ctx k := if k.val = 0 then some (SocketContext.zero 0) else none
  sockId k := UInt8.ofNat k.val
  fd k := UInt8.ofNat (k.val + 3)
  isn _ := 4294967280
  sockId_injective := by
    unfold Function.Injective
    decide
  fd_injective := by
    unfold Function.Injective
    decide

/-- All steps of a send of ten bytes. -/
def sendTen : List Action :=
  let k : Fin sockNum := ⟨0, sockNum_pos⟩
  [.send k 10 true, .send2 k 0 (some 10), .transmit k 10, .add k 0, .finish k 0]

/-- Two sends are acknowledged one by one, the third one fails with its socket. -/
def orderlyRun : List Action :=
  let k : Fin sockNum := ⟨0, sockNum_pos⟩
  sendTen ++ [.tcpack k 10] ++ sendTen ++ [.tcpack k 20] ++ sendTen ++ [.delete k true]

theorem sends_exact_orderlyRun : Always step Exact orderlyRun (.init sampleSetup) ∧
    Along step DeletesOwn orderlyRun (.init sampleSetup) :=
  sends_exact sampleSetup orderlyRun (by decide +kernel)

/-- Two sends are acknowledged together: only the second one is reported. -/
theorem shared_ack_not_reported : ¬ ∀ setup actions, Always step Exact actions (.init setup) ∧
    Along step DeletesOwn actions (.init setup) := by
  intro h
  have hexact := (h sampleSetup (sendTen ++ sendTen ++ [.tcpack ⟨0, sockNum_pos⟩ 20])).1 11 _ rfl
  exact absurd (hexact.reports ⟨0, sockNum_pos⟩ 1) (by decide +kernel)

end NbiotXY1100.AtSocketSend
