import Mathlib.Data.List.Perm.Subperm
import NbiotXY1100.AtSocketContext
import NbiotXY1100.StepRuns

/-! # Opening sockets in parallel

`AT+QIOPEN` checks that a slot is empty and that no socket has the number, and starts a
thread. The thread chooses the first empty slot, connects for any time, and only then puts
its context into the slot that it chose. -/
namespace NbiotXY1100.AtSocketOpen
open AtSocketContext SlotTables StepRuns

/-- The parameters of `AT+QIOPEN=<contextID>,<connectID>,<service_type>,<host>,<remote_port>
[,<local_port>[,<access_mode>]]`, as `at_parse_param` accepts them. -/
structure QiopenParam where
  socketId : Fin sockNum
  serviceType : List UInt8
  host : List UInt8
  remotePort : UInt16
  localPort : UInt16
  accessMode : UInt8

inductive OpenPhase where
  | created
  | connecting (ctxId : Fin sockNum)
  | connected
  deriving DecidableEq, Repr

/-- A thread of `bc26_socket_open_task`. -/
structure OpenTask where
  ctx : SocketContext
  phase : OpenPhase

/-- `+QIOPEN: <connectID>,<err>` of the thread with this context. -/
structure OpenUrc where
  ticket : ℕ
  sockId : UInt8
  ret : ℕ
  deriving DecidableEq, Repr

/-- The sockets, the threads that open one, what they reported, and the contexts that were
put into a slot and have not been deleted. -/
structure Sys where
  sockets : Sockets
  workingCid : UInt8
  requests : ℕ
  tasks : List OpenTask
  urcs : List OpenUrc
  live : List (ℕ × UInt8)

def Sys.init (workingCid : UInt8) : Sys := ⟨.init, workingCid, 0, [], [], []⟩

def netOpOk : ℕ := 0

def netOpNotAllow : ℕ := 572

/-- The errors of a thread before its socket is connected. -/
inductive OpenError where
  | create
  | bind
  | connect
  deriving DecidableEq, Repr

def OpenError.code : OpenError → ℕ
  | .create => 554
  | .bind => 556
  | .connect => 566

def tcp : List UInt8 := [84, 67, 80]

def udp : List UInt8 := [85, 68, 80]

/-- `net_type` of a service type, which only has to begin with the name. -/
def netTypeOf (serviceType : List UInt8) : Option UInt8 :=
  if tcp.isPrefixOf serviceType then some 0 else if udp.isPrefixOf serviceType then some 1 else none

/-- The context of an accepted request. -/
def qiopenCtx (param : QiopenParam) (netType : UInt8) (s : Sys) : SocketContext :=
  { SocketContext.zero s.requests with
    sockId := UInt8.ofNat param.socketId.val
    accessmode := param.accessMode
    cid := s.workingCid
    netType
    remotePort := param.remotePort
    localPort := param.localPort
    localPortOri := param.localPort
    recvCtl := 1
    remoteIp := param.host }

/-- The answer is an error or the thread was started. -/
def atQIOPENReq (param : QiopenParam) (s : Sys) : Bool × Sys :=
  let socketId := UInt8.ofNat param.socketId.val
  match netTypeOf param.serviceType with
  | none => (false, s)
  | some netType =>
    if param.host = [] then (false, s)
    else if (getFreeSockId s.sockets).isNone then (false, s)
    else if (findSockCtxIdBySockId socketId s.sockets).isSome then (false, s)
    else
      (true, { s with
        sockets := setSocketSequenceDefaultState socketId s.sockets
        requests := s.requests + 1
        tasks := s.tasks ++ [⟨qiopenCtx param netType s, .created⟩] })

/-- The thread reports its result and ends. -/
def openTaskExit (i : ℕ) (task : OpenTask) (ret : ℕ) (s : Sys) : Sys :=
  { s with
    tasks := s.tasks.eraseIdx i
    urcs := s.urcs ++ [⟨task.ctx.ticket, task.ctx.sockId, ret⟩] }

/-- The thread chooses its slot. -/
def openTaskStart (i : ℕ) (s : Sys) : Option Sys :=
  match s.tasks[i]? with
  | some ⟨ctx, .created⟩ =>
    match getFreeSockId s.sockets with
    | none => some (openTaskExit i ⟨ctx, .created⟩ netOpNotAllow s)
    | some ctxId => some { s with tasks := s.tasks.set i ⟨ctx, .connecting ctxId⟩ }
  | _ => none

/-- `getaddrinfo`, `socket`, `bind` or `connect` fails. -/
def openTaskFail (i : ℕ) (err : OpenError) (s : Sys) : Option Sys :=
  match s.tasks[i]? with
  | some ⟨ctx, .connecting ctxId⟩ => some (openTaskExit i ⟨ctx, .connecting ctxId⟩ err.code s)
  | _ => none

/-- The context of a thread goes into the slot. -/
def publish (i : ℕ) (ctxId : Fin sockNum) (ctx : SocketContext) (s : Sys) : Sys :=
  { s with
    sockets := { s.sockets with sockCtx := Function.update s.sockets.sockCtx ctxId (some ctx) }
    tasks := s.tasks.set i ⟨ctx, .connected⟩
    live := s.live ++ [(ctx.ticket, ctx.sockId)] }

/-- The socket is connected. -/
def openTaskConnect (i : ℕ) (afType fd : UInt8) (localPort : UInt16) (s : Sys) : Option Sys :=
  match s.tasks[i]? with
  | some ⟨ctx, .connecting ctxId⟩ =>
    some (publish i ctxId { ctx with afType, fd, localPort, sockState := .connected } s)
  | _ => none

def openTaskReport (i : ℕ) (s : Sys) : Option Sys :=
  match s.tasks[i]? with
  | some ⟨ctx, .connected⟩ => some (openTaskExit i ⟨ctx, .connected⟩ netOpOk s)
  | _ => none

/-- The thread that receives will delete the context. -/
def closeCtx (ctx : SocketContext) : SocketContext := { ctx with quit := 1, sockState := .closing }

def atQICLOSEReq (sockId : Fin sockNum) (s : Sys) : Sys :=
  match findSockCtxIdBySockId (UInt8.ofNat sockId.val) s.sockets with
  | none => s
  | some idx => { s with sockets := s.sockets.modify idx closeCtx }

def deleteCtx (idx : Fin sockNum) (report : Bool) (s : Sys) : Option Sys :=
  (delSocketCtxByIndex idx report s.sockets).map fun sockets =>
    { s with sockets, live := s.live.filter fun l => (s.sockets.sockCtx idx).all fun ctx => l.1 ≠ ctx.ticket }

inductive Action where
  | qiopen (param : QiopenParam)
  | start (i : ℕ)
  | fail (i : ℕ) (err : OpenError)
  | connect (i : ℕ) (afType fd : UInt8) (localPort : UInt16)
  | report (i : ℕ)
  | qiclose (sockId : Fin sockNum)
  | delete (idx : Fin sockNum) (report : Bool)

def step : Action → Sys → Option Sys
  | .qiopen param, s => some (atQIOPENReq param s).2
  | .start i, s => openTaskStart i s
  | .fail i err, s => openTaskFail i err s
  | .connect i afType fd localPort, s => openTaskConnect i afType fd localPort s
  | .report i, s => openTaskReport i s
  | .qiclose sockId, s => some (atQICLOSEReq sockId s)
  | .delete idx report, s => deleteCtx idx report s

/-- The context `ticket` is in a slot. -/
def InSlot (ticket : ℕ) (s : Sys) : Prop := ∃ i, (s.sockets.sockCtx i).any fun ctx => ctx.ticket = ticket

/-- No socket is lost and none is there twice. -/
structure Kept (s : Sys) : Prop where
  /-- A context that was reported as open is found by its number until it is deleted. -/
  found : ∀ urc ∈ s.urcs, urc.ret = netOpOk → urc.ticket ∈ s.live.map Prod.fst →
    (findSockCtxIdBySockId urc.sockId s.sockets).any fun i =>
      (s.sockets.sockCtx i).any fun ctx => ctx.ticket = urc.ticket
  /-- No context is overwritten before it is deleted. -/
  inSlot : ∀ l ∈ s.live, InSlot l.1 s
  distinct : (s.live.map Prod.snd).Nodup
  atMost : s.live.length ≤ sockNum

/-- When a thread puts its context into the slot that it chose, the slot is still empty and no
socket has got the number. -/
def StillFree (action : Action) (s : Sys) : Prop :=
  match action with
  | .connect i _ _ _ =>
    match s.tasks[i]? with
    | some ⟨ctx, .connecting ctxId⟩ =>
      s.sockets.sockCtx ctxId = none ∧ findSockCtxIdBySockId ctx.sockId s.sockets = none
    | _ => True
  | _ => True

/-! ### Where contexts are -/

def identity (ctx : SocketContext) : ℕ × UInt8 := (ctx.ticket, ctx.sockId)

/-- Every ticket belongs to one request, and every entry of the table is a context that was
put there and not deleted. -/
structure Traced (s : Sys) : Prop where
  slots : ∀ i ctx, s.sockets.sockCtx i = some ctx → identity ctx ∈ s.live
  oneSlot : Distinct SocketContext.ticket s.sockets.sockCtx
  liveTickets : (s.live.map Prod.fst).Nodup
  liveLt : ∀ l ∈ s.live, l.1 < s.requests
  taskTickets : (s.tasks.map fun task => task.ctx.ticket).Nodup
  taskLt : ∀ task ∈ s.tasks, task.ctx.ticket < s.requests
  pending : ∀ task ∈ s.tasks, task.phase ≠ .connected → ∀ l ∈ s.live, l.1 ≠ task.ctx.ticket
  taskId : ∀ task ∈ s.tasks, ∀ l ∈ s.live, l.1 = task.ctx.ticket → l.2 = task.ctx.sockId
  urcId : ∀ urc ∈ s.urcs, ∀ l ∈ s.live, l.1 = urc.ticket → l.2 = urc.sockId
  urcLt : ∀ urc ∈ s.urcs, urc.ticket < s.requests
  ended : ∀ urc ∈ s.urcs, ∀ task ∈ s.tasks, task.ctx.ticket ≠ urc.ticket
  nodes : s.sockets.snInfo = []

theorem traced_init (workingCid : UInt8) : Traced (.init workingCid) := by
  refine ⟨fun _ _ hi => (nomatch hi), distinct_empty, .nil, ?_, .nil, ?_, ?_, ?_, ?_, ?_, ?_, rfl⟩
  all_goals exact fun _ h => (List.not_mem_nil h).elim

variable {s t : Sys} {i : ℕ}

theorem any_ticket {o : Option SocketContext} {ticket : ℕ} :
    (o.any fun ctx => ctx.ticket = ticket) = true ↔ ∃ ctx, o = some ctx ∧ ctx.ticket = ticket := by
  cases o with
  | none => exact iff_of_false Bool.false_ne_true fun ⟨_, h, _⟩ => (nomatch h)
  | some ctx =>
    constructor
    · exact fun h => ⟨ctx, rfl, of_decide_eq_true h⟩
    · rintro ⟨_, ⟨⟩, h⟩
      exact decide_eq_true h

theorem Traced.live_eq (h : Traced s) {l m : ℕ × UInt8} (hl : l ∈ s.live) (hm : m ∈ s.live) (heq : l.1 = m.1) : l = m :=
  List.inj_on_of_nodup_map h.liveTickets hl hm heq

/-- Different contexts with different numbers are found by their numbers. -/
theorem Traced.distinct_sockId (h : Traced s) (hids : (s.live.map Prod.snd).Nodup) :
    Distinct SocketContext.sockId s.sockets.sockCtx := by
  intro i j x y hi hj heq
  have hsame : identity x = identity y :=
    List.inj_on_of_nodup_map hids (h.slots i x hi) (h.slots j y hj) heq
  exact h.oneSlot i j x y hi hj (congrArg Prod.fst hsame)

theorem Traced.kept_iff (h : Traced s) :
    Kept s ↔ (∀ l ∈ s.live, InSlot l.1 s) ∧ (s.live.map Prod.snd).Nodup := by
  constructor
  · exact fun hkept => ⟨hkept.inSlot, hkept.distinct⟩
  · rintro ⟨hslot, hids⟩
    refine ⟨fun urc hurc _ hlive => ?_, hslot, hids, ?_⟩
    · obtain ⟨l, hl, hticket⟩ := List.mem_map.mp hlive
      obtain ⟨i, hi⟩ := hslot l hl
      obtain ⟨ctx, hctx, hctxTicket⟩ := any_ticket.mp hi
      have hid : ctx.sockId = urc.sockId := by
        have heq := h.live_eq (h.slots i ctx hctx) hl hctxTicket
        rw [← h.urcId urc hurc l hl hticket, ← heq]
        rfl
      have hfind : findSockCtxIdBySockId urc.sockId s.sockets = some i := by
        have hslot := (h.distinct_sockId hids).findSlot hctx
        rw [hid] at hslot
        exact hslot
      rw [hfind, ← hticket]
      exact hi
    · have hsub : s.live.map Prod.fst ⊆ (entries s.sockets.sockCtx).map SocketContext.ticket := by
        intro ticket hmem
        obtain ⟨l, hl, rfl⟩ := List.mem_map.mp hmem
        obtain ⟨i, hi⟩ := hslot l hl
        obtain ⟨ctx, hctx, hticket⟩ := any_ticket.mp hi
        exact List.mem_map.mpr ⟨ctx, mem_entries.mpr ⟨i, hctx⟩, hticket⟩
      have hle := (List.subperm_of_subset h.liveTickets hsub).length_le
      rw [List.length_map, List.length_map] at hle
      exact hle.trans (length_entries_le _)

/-! ### The steps -/

/-- A step that keeps the tickets and numbers in the table, the live contexts and the requests. -/
theorem Traced.congr (h : Traced s)
    (hslots : ∀ i, (t.sockets.sockCtx i).map identity = (s.sockets.sockCtx i).map identity)
    (hlive : t.live = s.live) (hrequests : t.requests = s.requests) (hnodes : t.sockets.snInfo = s.sockets.snInfo)
    (htasks : ∀ task ∈ t.tasks, ∃ old ∈ s.tasks, old.ctx = task.ctx ∧ (task.phase ≠ .connected → old.phase ≠ .connected))
    (hnodup : (t.tasks.map fun task => task.ctx.ticket).Nodup)
    (hurcs : ∀ urc ∈ t.urcs, urc ∈ s.urcs ∨ ∃ old ∈ s.tasks, old.ctx.ticket = urc.ticket ∧ old.ctx.sockId = urc.sockId ∧
      ∀ task ∈ t.tasks, task.ctx.ticket ≠ urc.ticket) : Traced t := by
  have hsome : ∀ i ctx, t.sockets.sockCtx i = some ctx →
      ∃ old, s.sockets.sockCtx i = some old ∧ identity old = identity ctx := by
    intro i ctx hi
    have hmap := hslots i
    rw [hi] at hmap
    exact Option.map_eq_some_iff.mp hmap.symm
  refine ⟨?_, ?_, hlive ▸ h.liveTickets, ?_, hnodup, ?_, ?_, ?_, ?_, ?_, ?_, hnodes.trans h.nodes⟩
  · intro i ctx hi
    obtain ⟨old, hold, hid⟩ := hsome i ctx hi
    rw [hlive, ← hid]
    exact h.slots i old hold
  · refine h.oneSlot.modify fun i ctx hi => ?_
    obtain ⟨old, hold, hid⟩ := hsome i ctx hi
    exact ⟨old, hold, congrArg Prod.fst hid⟩
  · rw [hlive, hrequests]
    exact h.liveLt
  · intro task htask
    obtain ⟨old, hold, hctx, -⟩ := htasks task htask
    rw [hrequests, ← hctx]
    exact h.taskLt old hold
  · intro task htask hphase
    obtain ⟨old, hold, hctx, hpending⟩ := htasks task htask
    rw [hlive, ← hctx]
    exact h.pending old hold (hpending hphase)
  · intro task htask
    obtain ⟨old, hold, hctx, -⟩ := htasks task htask
    rw [hlive, ← hctx]
    exact h.taskId old hold
  · intro urc hurc
    rw [hlive]
    rcases hurcs urc hurc with hurc | ⟨old, hold, hticket, hid, -⟩
    · exact h.urcId urc hurc
    · rw [← hticket, ← hid]
      exact h.taskId old hold
  · intro urc hurc
    rw [hrequests]
    rcases hurcs urc hurc with hurc | ⟨old, hold, hticket, -, -⟩
    · exact h.urcLt urc hurc
    · rw [← hticket]
      exact h.taskLt old hold
  · intro urc hurc task htask
    rcases hurcs urc hurc with hurc | ⟨-, -, -, -, hended⟩
    · obtain ⟨old, hold, hctx, -⟩ := htasks task htask
      rw [← hctx]
      exact h.ended urc hurc old hold
    · exact hended task htask

theorem inSlot_congr (hslots : ∀ i, (t.sockets.sockCtx i).map identity = (s.sockets.sockCtx i).map identity)
    {ticket : ℕ} (h : InSlot ticket s) : InSlot ticket t := by
  obtain ⟨i, hi⟩ := h
  obtain ⟨ctx, hctx, hticket⟩ := any_ticket.mp hi
  have hmap := hslots i
  rw [hctx] at hmap
  obtain ⟨new, hnew, hid⟩ := Option.map_eq_some_iff.mp hmap
  exact ⟨i, any_ticket.mpr ⟨new, hnew, (congrArg Prod.fst hid).trans hticket⟩⟩

/-- What such a step does to the sockets keeps them all. -/
theorem Kept.congr (hkept : Kept s) (ht : Traced t)
    (hslots : ∀ i, (t.sockets.sockCtx i).map identity = (s.sockets.sockCtx i).map identity)
    (hlive : t.live = s.live) : Kept t := by
  rw [ht.kept_iff, hlive]
  exact ⟨fun l hl => inSlot_congr hslots (hkept.inSlot l hl), hkept.distinct⟩

theorem modify_identity (k : Fin sockNum) (f : SocketContext → SocketContext) (hf : ∀ ctx, identity (f ctx) = identity ctx)
    (sockets : Sockets) (i : Fin sockNum) :
    ((sockets.modify k f).sockCtx i).map identity = (sockets.sockCtx i).map identity := by
  unfold Sockets.modify
  dsimp only
  rw [Function.update_apply]
  split
  next hik =>
    rw [hik, Option.map_map]
    exact congrArg (fun g => Option.map g _) (funext hf)
  next => rfl

theorem defaultState_identity (sockId : UInt8) (sockets : Sockets) (i : Fin sockNum) :
    ((setSocketSequenceDefaultState sockId sockets).sockCtx i).map identity = (sockets.sockCtx i).map identity := by
  unfold setSocketSequenceDefaultState
  dsimp only
  rw [Option.map_map]
  refine congrArg (fun g => Option.map g _) (funext fun ctx => ?_)
  rw [Function.comp_apply]
  split
  · rfl
  · rfl

/-- A thread ends: what it reported is no longer pending. -/
theorem Traced.exit (h : Traced s) {task : OpenTask} (htask : s.tasks[i]? = some task) (ret : ℕ) :
    Traced (openTaskExit i task ret s) := by
  have hmem : task ∈ s.tasks := List.mem_of_getElem? htask
  obtain ⟨hi, hget⟩ := List.getElem?_eq_some_iff.mp htask
  have hsub : (s.tasks.eraseIdx i).Sublist s.tasks := List.eraseIdx_sublist s.tasks i
  refine h.congr (fun _ => rfl) rfl rfl rfl ?_ (h.taskTickets.sublist (hsub.map _)) ?_
  · exact fun other hother => ⟨other, hsub.subset hother, rfl, id⟩
  · intro urc hurc
    rcases List.mem_append.mp hurc with hurc | hurc
    · exact Or.inl hurc
    · obtain rfl := List.mem_singleton.mp hurc
      refine Or.inr ⟨task, hmem, rfl, rfl, fun other hother heq => ?_⟩
      -- the tickets of the threads are different, so no other thread has the one that ended
      have hperm := (List.getElem_cons_eraseIdx_perm hi).map fun task => task.ctx.ticket
      have hnodup := hperm.nodup_iff.mpr h.taskTickets
      rw [hget, List.map_cons, List.nodup_cons] at hnodup
      exact hnodup.1 (List.mem_map.mpr ⟨other, hother, heq⟩)

theorem exit_kept (h : Traced s) (hkept : Kept s) {task : OpenTask} (htask : s.tasks[i]? = some task) (ret : ℕ) :
    Kept (openTaskExit i task ret s) :=
  hkept.congr (h.exit htask ret) (fun _ => rfl) rfl

/-- A request gets a ticket of its own. -/
theorem Traced.accept (h : Traced s) {ctx : SocketContext} (hticket : ctx.ticket = s.requests) :
    Traced { s with requests := s.requests + 1, tasks := s.tasks ++ [⟨ctx, .created⟩] } := by
  have hnew : ∀ {P : OpenTask → Prop}, (∀ task ∈ s.tasks, P task) → P ⟨ctx, .created⟩ →
      ∀ task ∈ s.tasks ++ [⟨ctx, .created⟩], P task := by
    intro P hold hlast task htask
    rcases List.mem_append.mp htask with htask | htask
    · exact hold task htask
    · exact List.mem_singleton.mp htask ▸ hlast
  have hlive : ∀ l ∈ s.live, l.1 ≠ ctx.ticket := fun l hl => hticket ▸ Nat.ne_of_lt (h.liveLt l hl)
  refine ⟨h.slots, h.oneSlot, h.liveTickets, fun l hl => Nat.lt_succ_of_lt (h.liveLt l hl), ?_, ?_, ?_, ?_, h.urcId,
    fun urc hurc => Nat.lt_succ_of_lt (h.urcLt urc hurc), ?_, h.nodes⟩
  · show ((s.tasks ++ [OpenTask.mk ctx .created]).map fun task => task.ctx.ticket).Nodup
    rw [List.map_append]
    refine List.nodup_append.mpr ⟨h.taskTickets, List.nodup_singleton _, fun x hx y hy heq => ?_⟩
    obtain ⟨task, htask, rfl⟩ := List.mem_map.mp hx
    rw [List.mem_singleton.mp hy] at heq
    exact Nat.ne_of_lt (h.taskLt task htask) (heq.trans hticket)
  · exact hnew (fun task htask => Nat.lt_succ_of_lt (h.taskLt task htask)) (hticket ▸ Nat.lt_succ_self _)
  · exact hnew h.pending fun _ => hlive
  · exact hnew h.taskId fun l hl heq => absurd heq (hlive l hl)
  · intro urc hurc
    refine hnew (h.ended urc hurc) fun heq => ?_
    exact Nat.ne_of_lt (h.urcLt urc hurc) (heq.symm.trans hticket)

theorem qiopen_kept (h : Traced s) (hkept : Kept s) (param : QiopenParam) :
    Traced (atQIOPENReq param s).2 ∧ Kept (atQIOPENReq param s).2 := by
  unfold atQIOPENReq
  dsimp only
  split
  · exact ⟨h, hkept⟩
  · split_ifs
    · exact ⟨h, hkept⟩
    · exact ⟨h, hkept⟩
    · exact ⟨h, hkept⟩
    next netType _ _ _ _ =>
      have hslots := defaultState_identity (UInt8.ofNat param.socketId.val) s.sockets
      have haccept := @Traced.accept s h (qiopenCtx param netType s) rfl
      have ht : Traced { s with
          sockets := setSocketSequenceDefaultState (UInt8.ofNat param.socketId.val) s.sockets
          requests := s.requests + 1
          tasks := s.tasks ++ [⟨qiopenCtx param netType s, .created⟩] } :=
        haccept.congr hslots rfl rfl rfl (fun task htask => ⟨task, htask, rfl, id⟩) haccept.taskTickets
          fun urc hurc => Or.inl hurc
      exact ⟨ht, hkept.congr ht hslots rfl⟩

/-- A thread that goes on keeps its context. -/
theorem Traced.set (h : Traced s) {ctx : SocketContext} {phase : OpenPhase} (htask : s.tasks[i]? = some ⟨ctx, phase⟩)
    (hphase : phase ≠ .connected) (next : OpenPhase) : Traced { s with tasks := s.tasks.set i ⟨ctx, next⟩ } := by
  obtain ⟨hi, hget⟩ := List.getElem?_eq_some_iff.mp htask
  have hmem : ⟨ctx, phase⟩ ∈ s.tasks := List.mem_of_getElem? htask
  have hlen : i < (s.tasks.map fun task => task.ctx.ticket).length := by
    rw [List.length_map]
    exact hi
  have hsame := List.set_getElem_self hlen
  rw [List.getElem_map, hget] at hsame
  refine h.congr (fun _ => rfl) rfl rfl rfl (fun task htask => ?_) ?_ fun urc hurc => Or.inl hurc
  · rcases List.mem_or_eq_of_mem_set htask with hold | rfl
    · exact ⟨task, hold, rfl, id⟩
    · exact ⟨_, hmem, rfl, fun _ => hphase⟩
  · show ((s.tasks.set i ⟨ctx, next⟩).map fun task => task.ctx.ticket).Nodup
    rw [List.map_set, hsame]
    exact h.taskTickets

theorem start_kept (h : Traced s) (hkept : Kept s) (hstep : openTaskStart i s = some t) : Traced t ∧ Kept t := by
  unfold openTaskStart at hstep
  split at hstep
  next ctx htask =>
    split at hstep
    · cases hstep
      exact ⟨h.exit htask _, exit_kept h hkept htask _⟩
    next ctxId _ =>
      cases hstep
      have ht := h.set htask (by simp) (.connecting ctxId)
      exact ⟨ht, hkept.congr ht (fun _ => rfl) rfl⟩
  next => cases hstep

theorem fail_kept (h : Traced s) (hkept : Kept s) {err : OpenError} (hstep : openTaskFail i err s = some t) :
    Traced t ∧ Kept t := by
  unfold openTaskFail at hstep
  split at hstep
  next ctx ctxId htask =>
    cases hstep
    exact ⟨h.exit htask _, exit_kept h hkept htask _⟩
  next => cases hstep

theorem report_kept (h : Traced s) (hkept : Kept s) (hstep : openTaskReport i s = some t) : Traced t ∧ Kept t := by
  unfold openTaskReport at hstep
  split at hstep
  next ctx htask =>
    cases hstep
    exact ⟨h.exit htask _, exit_kept h hkept htask _⟩
  next => cases hstep

theorem qiclose_kept (h : Traced s) (hkept : Kept s) (sockId : Fin sockNum) :
    Traced (atQICLOSEReq sockId s) ∧ Kept (atQICLOSEReq sockId s) := by
  unfold atQICLOSEReq
  split
  · exact ⟨h, hkept⟩
  next idx _ =>
    have hslots := modify_identity idx closeCtx (fun _ => rfl) s.sockets
    have ht : Traced { s with sockets := s.sockets.modify idx closeCtx } :=
      h.congr hslots rfl rfl rfl (fun task htask => ⟨task, htask, rfl, id⟩) h.taskTickets fun urc hurc => Or.inl hurc
    exact ⟨ht, hkept.congr ht hslots rfl⟩

/-- With no send under way only the slot is emptied. -/
theorem delSocketCtxByIndex_idle {sockets u : Sockets} {idx : Fin sockNum} {report : Bool} (hnodes : sockets.snInfo = [])
    (hdel : delSocketCtxByIndex idx report sockets = some u) :
    u.sockCtx = Function.update sockets.sockCtx idx none ∧ u.snInfo = [] := by
  unfold delSocketCtxByIndex at hdel
  split at hdel
  next hnone =>
    cases hdel
    exact ⟨(Function.update_eq_self_iff.mpr hnone.symm).symm, hnodes⟩
  next ctx _ =>
    rw [hnodes, delAllsnnodeBySocketid, Option.map_some] at hdel
    cases hdel
    unfold atReportSocketState
    dsimp only
    split
    · split
      · exact ⟨rfl, rfl⟩
      · exact ⟨rfl, rfl⟩
    · exact ⟨rfl, rfl⟩

theorem delete_kept {idx : Fin sockNum} {report : Bool} (h : Traced s) (hkept : Kept s)
    (hstep : deleteCtx idx report s = some t) : Traced t ∧ Kept t := by
  unfold deleteCtx at hstep
  obtain ⟨sockets, hdel, rfl⟩ := Option.map_eq_some_iff.mp hstep
  obtain ⟨hctx, hnodes⟩ := delSocketCtxByIndex_idle h.nodes hdel
  have hlive : ∀ l, l ∈ s.live.filter (fun l => (s.sockets.sockCtx idx).all fun ctx => l.1 ≠ ctx.ticket) ↔
      l ∈ s.live ∧ ∀ ctx, s.sockets.sockCtx idx = some ctx → l.1 ≠ ctx.ticket := by
    intro l
    rw [List.mem_filter]
    cases hidx : s.sockets.sockCtx idx with
    | none => simp
    | some ctx => simp
  have hslot : ∀ i ctx, sockets.sockCtx i = some ctx → i ≠ idx ∧ s.sockets.sockCtx i = some ctx := by
    intro i ctx hi
    rw [hctx, Function.update_apply] at hi
    split at hi
    next => cases hi
    next hne => exact ⟨hne, hi⟩
  have ht : Traced { s with
      sockets, live := s.live.filter fun l => (s.sockets.sockCtx idx).all fun ctx => l.1 ≠ ctx.ticket } := by
    refine ⟨fun i ctx hi => ?_, hctx ▸ h.oneSlot.remove idx, h.liveTickets.sublist (List.filter_sublist.map _),
      fun l hl => h.liveLt l ((hlive l).mp hl).1, h.taskTickets, h.taskLt,
      fun task htask hphase l hl => h.pending task htask hphase l ((hlive l).mp hl).1,
      fun task htask l hl => h.taskId task htask l ((hlive l).mp hl).1,
      fun urc hurc l hl => h.urcId urc hurc l ((hlive l).mp hl).1, h.urcLt, h.ended, hnodes⟩
    obtain ⟨hne, hold⟩ := hslot i ctx hi
    refine (hlive _).mpr ⟨h.slots i ctx hold, fun other hother heq => ?_⟩
    exact hne (h.oneSlot i idx ctx other hold hother heq)
  refine ⟨ht, ht.kept_iff.mpr ⟨fun l hl => ?_, hkept.distinct.sublist (List.filter_sublist.map _)⟩⟩
  obtain ⟨hmem, hother⟩ := (hlive l).mp hl
  obtain ⟨i, hi⟩ := hkept.inSlot l hmem
  obtain ⟨ctx, hsome, hticket⟩ := any_ticket.mp hi
  have hne : i ≠ idx := by
    rintro rfl
    exact hother ctx hsome hticket.symm
  refine ⟨i, any_ticket.mpr ⟨ctx, ?_, hticket⟩⟩
  show sockets.sockCtx i = some ctx
  rw [hctx, Function.update_of_ne hne]
  exact hsome

section Publish

variable {old ctx : SocketContext} {ctxId : Fin sockNum}

theorem publish_slot {k : Fin sockNum} {c : SocketContext} (hne : k ≠ ctxId) :
    (publish i ctxId ctx s).sockets.sockCtx k = some c ↔ s.sockets.sockCtx k = some c := by
  show Function.update s.sockets.sockCtx ctxId (some ctx) k = some c ↔ _
  rw [Function.update_of_ne hne]

theorem publish_own : (publish i ctxId ctx s).sockets.sockCtx ctxId = some ctx := Function.update_self _ _ _

variable (h : Traced s)
  (htask : s.tasks[i]? = some ⟨old, .connecting ctxId⟩) (hid : identity old = identity ctx)
include h htask hid

theorem publish_new : ∀ l ∈ s.live, l.1 ≠ ctx.ticket := by
  intro l hl
  have hne := h.pending _ (List.mem_of_getElem? htask) (by simp) l hl
  exact fun heq => hne (heq.trans (congrArg Prod.fst hid).symm)

theorem publish_traced : Traced (publish i ctxId ctx s) := by
  obtain ⟨hi, hget⟩ := List.getElem?_eq_some_iff.mp htask
  have hmem : ⟨old, .connecting ctxId⟩ ∈ s.tasks := List.mem_of_getElem? htask
  have hticket : old.ticket = ctx.ticket := congrArg Prod.fst hid
  have hnew := publish_new h htask hid
  have hlive : ∀ l ∈ s.live ++ [(ctx.ticket, ctx.sockId)], l ∈ s.live ∨ l = (ctx.ticket, ctx.sockId) :=
    fun l hl => (List.mem_append.mp hl).imp_right List.mem_singleton.mp
  have hlen : i < (s.tasks.map fun task => task.ctx.ticket).length := by
    rw [List.length_map]
    exact hi
  have hsame := List.set_getElem_self hlen
  rw [List.getElem_map, hget] at hsame
  have htickets : ((s.tasks.set i ⟨ctx, .connected⟩).map fun task => task.ctx.ticket).Nodup := by
    rw [List.map_set, ← hticket, hsame]
    exact h.taskTickets
  have hown : ∀ task ∈ s.tasks.set i ⟨ctx, .connected⟩, task.ctx.ticket = ctx.ticket → task = ⟨ctx, .connected⟩ :=
    fun task htask heq => List.inj_on_of_nodup_map htickets htask (List.mem_set hi _) heq
  have hold : ∀ task ∈ s.tasks.set i ⟨ctx, .connected⟩, task ∈ s.tasks ∨ task = ⟨ctx, .connected⟩ :=
    fun task htask => List.mem_or_eq_of_mem_set htask
  refine ⟨fun k c hk => ?_, ?_, ?_, fun l hl => ?_, htickets, fun task htask => ?_, fun task htask hphase l hl => ?_,
    fun task htask l hl heq => ?_, fun urc hurc l hl heq => ?_, h.urcLt, fun urc hurc task htask => ?_, h.nodes⟩
  · by_cases hkid : k = ctxId
    · rw [hkid, publish_own] at hk
      cases hk
      exact List.mem_append_right _ (List.mem_singleton_self _)
    · exact List.mem_append_left _ (h.slots k c ((publish_slot hkid).mp hk))
  · exact h.oneSlot.insert fun k y _ hk => hnew _ (h.slots k y hk)
  · show ((s.live ++ [(ctx.ticket, ctx.sockId)]).map Prod.fst).Nodup
    rw [List.map_append]
    refine List.nodup_append.mpr ⟨h.liveTickets, List.nodup_singleton _, fun x hx y hy heq => ?_⟩
    obtain ⟨l, hl, rfl⟩ := List.mem_map.mp hx
    exact hnew l hl (heq.trans (List.mem_singleton.mp hy))
  · rcases hlive l hl with hl | rfl
    · exact h.liveLt l hl
    · exact hticket ▸ h.taskLt _ hmem
  · rcases hold task htask with htask | rfl
    · exact h.taskLt task htask
    · exact hticket ▸ h.taskLt _ hmem
  · rcases hold task htask with htask' | rfl
    · rcases hlive l hl with hl | rfl
      · exact h.pending task htask' hphase l hl
      · intro heq
        rw [hown task htask heq.symm] at hphase
        exact hphase rfl
    · exact absurd rfl hphase
  · rcases hlive l hl with hl | rfl
    · rcases hold task htask with htask | rfl
      · exact h.taskId task htask l hl heq
      · exact absurd heq (hnew l hl)
    · rw [hown task htask heq.symm]
  · rcases hlive l hl with hl | rfl
    · exact h.urcId urc hurc l hl heq
    · exact absurd (hticket.trans heq) (h.ended urc hurc _ hmem)
  · rcases hold task htask with htask | rfl
    · exact h.ended urc hurc task htask
    · exact hticket ▸ h.ended urc hurc _ hmem

/-- The sockets stay when the slot and the number are still free, and only then. -/
theorem publish_kept_iff (hkept : Kept s) :
    Kept (publish i ctxId ctx s) ↔
      s.sockets.sockCtx ctxId = none ∧ findSockCtxIdBySockId ctx.sockId s.sockets = none := by
  have hnew := publish_new h htask hid
  rw [(publish_traced h htask hid).kept_iff]
  constructor
  · rintro ⟨hslot, hids⟩
    constructor
    · cases hc : s.sockets.sockCtx ctxId with
      | none => rfl
      | some c =>
        obtain ⟨k, hk⟩ := hslot _ (List.mem_append_left _ (h.slots ctxId c hc))
        obtain ⟨other, hother, hticket⟩ := any_ticket.mp hk
        by_cases hkid : k = ctxId
        · rw [hkid, publish_own] at hother
          cases hother
          exact absurd hticket.symm (hnew _ (h.slots ctxId c hc))
        · exact absurd (h.oneSlot k ctxId other c ((publish_slot hkid).mp hother) hc hticket) hkid
    · refine findSlot_none.mpr fun k c hk => decide_eq_false fun heq => ?_
      have hdisjoint : (s.live.map Prod.snd ++ [ctx.sockId]).Nodup := by
        have hmap : (s.live ++ [(ctx.ticket, ctx.sockId)]).map Prod.snd = s.live.map Prod.snd ++ [ctx.sockId] :=
          List.map_append
        exact hmap ▸ hids
      refine (List.nodup_append.mp hdisjoint).2.2 c.sockId ?_ ctx.sockId (List.mem_singleton_self _) heq
      exact List.mem_map.mpr ⟨_, h.slots k c hk, rfl⟩
  · rintro ⟨hempty, hfree⟩
    constructor
    · intro l hl
      rcases List.mem_append.mp hl with hl | hl
      · obtain ⟨k, hk⟩ := hkept.inSlot l hl
        obtain ⟨c, hc, hticket⟩ := any_ticket.mp hk
        have hkid : k ≠ ctxId := by
          rintro rfl
          rw [hempty] at hc
          cases hc
        exact ⟨k, any_ticket.mpr ⟨c, (publish_slot hkid).mpr hc, hticket⟩⟩
      · obtain rfl := List.mem_singleton.mp hl
        exact ⟨ctxId, any_ticket.mpr ⟨ctx, publish_own, rfl⟩⟩
    · show ((s.live ++ [(ctx.ticket, ctx.sockId)]).map Prod.snd).Nodup
      rw [List.map_append]
      refine List.nodup_append.mpr ⟨hkept.distinct, List.nodup_singleton _, fun x hx y hy heq => ?_⟩
      obtain ⟨l, hl, rfl⟩ := List.mem_map.mp hx
      obtain ⟨k, hk⟩ := hkept.inSlot l hl
      obtain ⟨c, hc, hticket⟩ := any_ticket.mp hk
      have hsame := h.live_eq (h.slots k c hc) hl hticket
      have hused := findSlot_none.mp hfree k c hc
      have hnumber : y = ctx.sockId := List.mem_singleton.mp hy
      have hfound : c.sockId = l.2 := congrArg Prod.snd hsame
      exact of_decide_eq_false hused (hfound.trans (heq.trans hnumber))

end Publish

/-! ### Runs -/

/-- A step keeps the sockets if and only if it puts no context where one is by now. -/
theorem step_kept (action : Action) (s t : Sys) (h : Traced s) (hkept : Kept s) (hstep : step action s = some t) :
    Traced t ∧ (Kept t ↔ StillFree action s) := by
  cases action with
  | qiopen param =>
    cases hstep
    exact (qiopen_kept h hkept param).imp_right fun hkept => iff_of_true hkept trivial
  | start i => exact (start_kept h hkept hstep).imp_right fun hkept => iff_of_true hkept trivial
  | fail i err => exact (fail_kept h hkept hstep).imp_right fun hkept => iff_of_true hkept trivial
  | report i => exact (report_kept h hkept hstep).imp_right fun hkept => iff_of_true hkept trivial
  | qiclose sockId =>
    cases hstep
    exact (qiclose_kept h hkept sockId).imp_right fun hkept => iff_of_true hkept trivial
  | delete idx report => exact (delete_kept h hkept hstep).imp_right fun hkept => iff_of_true hkept trivial
  | connect i afType fd localPort =>
    unfold step openTaskConnect at hstep
    unfold StillFree
    dsimp only at hstep ⊢
    split at hstep
    next ctx ctxId htask =>
      cases hstep
      exact ⟨publish_traced h htask rfl, publish_kept_iff h htask rfl hkept⟩
    next => cases hstep

theorem stillFree_of_refused (action : Action) (s : Sys) (h : step action s = none) : StillFree action s := by
  cases action with
  | connect i afType fd localPort =>
    unfold step openTaskConnect at h
    unfold StillFree
    dsimp only at h ⊢
    split at h
    · cases h
    · trivial
  | _ => trivial

theorem kept_init (workingCid : UInt8) : Kept (.init workingCid) :=
  ⟨fun _ h => (List.not_mem_nil h).elim, fun _ h => (List.not_mem_nil h).elim, .nil, Nat.zero_le _⟩

/-- No socket is lost or there twice in any state of a run if and only if every thread finds its
slot and its number still free when it puts its context there. -/
theorem sockets_kept_iff (workingCid : UInt8) (actions : List Action) :
    Always step Kept actions (.init workingCid) ↔ Along step StillFree actions (.init workingCid) :=
  always_iff_along_of step_kept (fun a s _ _ => stillFree_of_refused a s) (traced_init workingCid) (kept_init workingCid)

def sampleParam (socketId : Fin sockNum) : QiopenParam := ⟨socketId, tcp, [49], 80, 0, 1⟩

/-- Two threads choose the first slot before either of them is connected. -/
def parallelOpen : List Action :=
  [.qiopen (sampleParam ⟨0, sockNum_pos⟩), .qiopen (sampleParam ⟨1, one_lt_sockNum⟩), .start 0, .start 1, .connect 0 0 3 5000, .connect 1 0 4 5001,
    .report 0, .report 0]

theorem parallel_open_loses_socket : ¬ ∀ workingCid actions, Always step Kept actions (.init workingCid) := by
  intro h
  have hkept := h 0 parallelOpen 8 _ rfl
  exact absurd (hkept.found ⟨0, 0, netOpOk⟩ (by decide +kernel) rfl (by decide +kernel)) (by decide +kernel)

end NbiotXY1100.AtSocketOpen
