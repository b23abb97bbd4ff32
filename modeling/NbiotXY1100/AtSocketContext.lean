import NbiotXY1100.SlotTables
import Mathlib.Algebra.GroupWithZero.Nat

/-! # The contexts of the AT sockets

A socket that an AT command opened has a context in one of the slots of a table. The user
gives the socket its number; the slot is the first empty one. The sends that wait for their
acknowledgement are in one list for all sockets. -/
namespace NbiotXY1100.AtSocketContext
open SlotTables

/-- `SOCK_NUM` of the build that has `AT+QIOPEN`. -/
def sockNum : ℕ := 5

theorem sockNum_pos : 0 < sockNum := by decide

theorem one_lt_sockNum : 1 < sockNum := by decide

def sequenceMax : ℕ := 255

/-- `sequence_send_status_e`. -/
inductive SendStatus where
  | unused
  | failed
  | success
  | sending
  deriving DecidableEq, Repr

/-- `BC26_SOCKET_STATE_T`. -/
inductive SockState where
  | initial
  | connecting
  | connected
  | closing
  | remoteClosing
  deriving DecidableEq, Repr

/-- `socket_context_t` without the list of received data. No function reads the ticket,
which tells contexts apart. -/
structure SocketContext where
  ticket : ℕ
  sockId : UInt8
  afType : UInt8
  isDeact : UInt8
  quit : UInt8
  fd : UInt8
  recvCtl : UInt8
  netType : UInt8
  remotePort : UInt16
  localPort : UInt16
  sendedSize : UInt32
  remoteIp : List UInt8
  acked : UInt32
  localPortOri : UInt16
  zeroFlag : UInt16
  accessmode : UInt8
  cid : UInt8
  sockState : SockState
  sequenceState : Fin sequenceMax → SendStatus

/-- A context from `xy_zalloc`. -/
def SocketContext.zero (ticket : ℕ) : SocketContext :=
  ⟨ticket, 0, 0, 0, 0, 0, 0, 0, 0, 0, 0, [], 0, 0, 0, 0, 0, .initial, fun _ => .failed⟩

/-- `sock_sn_node`: a send that waits for its acknowledgement. -/
structure SockSnNode where
  perSn : UInt32
  dataLen : UInt32
  socketId : UInt8
  sequence : UInt8
  netType : UInt8
  deriving DecidableEq, Repr

/-- What is reported for a send: `SEND OK` or `SEND FAIL`. -/
structure SendReport where
  socketId : UInt8
  sequence : UInt8
  status : SendStatus
  deriving DecidableEq, Repr

/-- `sock_ctx` and `sn_info` with what was reported: the results of sends, and the sockets
that were closed without a request. -/
structure Sockets where
  sockCtx : Fin sockNum → Option SocketContext
  snInfo : List SockSnNode
  reports : List SendReport
  closed : List UInt8

def Sockets.init : Sockets := ⟨fun _ => none, [], [], []⟩

def findSockCtxIdBySockId (sockId : UInt8) (s : Sockets) : Option (Fin sockNum) :=
  findSlot (fun ctx => ctx.sockId = sockId) s.sockCtx

def getFreeSockId (s : Sockets) : Option (Fin sockNum) := freeSlot s.sockCtx

def SocketContext.setSequence (sequence : UInt8) (status : SendStatus) (ctx : SocketContext) : SocketContext :=
  { ctx with sequenceState := fun i => if i.val + 1 = sequence.toNat then status else ctx.sequenceState i }

/-- What is noted for a sequence, of which there is one for each number from 1 on. -/
def SocketContext.HasStatus (sequence : UInt8) (status : SendStatus) (ctx : SocketContext) : Prop :=
  ∀ i : Fin sequenceMax, i.val + 1 = sequence.toNat → ctx.sequenceState i = status

instance (sequence : UInt8) (status : SendStatus) (ctx : SocketContext) : Decidable (ctx.HasStatus sequence status) :=
  inferInstanceAs (Decidable (∀ i : Fin sequenceMax, i.val + 1 = sequence.toNat → ctx.sequenceState i = status))

def setSocketSequenceDefaultState (sockId : UInt8) (s : Sockets) : Sockets :=
  { s with sockCtx := fun i => (s.sockCtx i).map fun ctx =>
      if ctx.sockId = sockId then { ctx with sequenceState := fun _ => .unused } else ctx }

def Sockets.modify (i : Fin sockNum) (f : SocketContext → SocketContext) (s : Sockets) : Sockets :=
  { s with sockCtx := Function.update s.sockCtx i ((s.sockCtx i).map f) }

/-- There is no context with the number: an assertion fails. -/
def addSninfoNode (socketId : UInt8) (len : UInt32) (sequence : UInt8) (preSn : UInt32) (s : Sockets) : Option Sockets :=
  match findSockCtxIdBySockId socketId s with
  | none => none
  | some idx => (s.sockCtx idx).map fun ctx =>
      { s with snInfo := s.snInfo ++ [⟨preSn, len, socketId, sequence, ctx.netType⟩] }

def delSninfoNode (socketId sequence : UInt8) (s : Sockets) : Sockets :=
  { s with snInfo := s.snInfo.eraseP fun node => node.socketId = socketId ∧ node.sequence = sequence }

/-- The first node whose data end at the acknowledged position. -/
def findMatchTcpNode (socketId : UInt8) (ack : UInt32) (s : Sockets) : Option (UInt8 × Sockets) :=
  (s.snInfo.find? fun node => node.netType = 0 ∧ node.socketId = socketId ∧ ack - node.perSn = node.dataLen).map
    fun node =>
      (node.sequence, match findSockCtxIdBySockId socketId s with
        | none => s
        | some i => s.modify i fun ctx => { ctx with acked := ctx.acked + node.dataLen })

/-- `+TCPACK:<conn_socket>,<ack>`. -/
def atTCPACKInfo (connSocket : UInt8) (ack : UInt32) (s : Sockets) : Sockets :=
  match findSlot (fun ctx => ctx.fd = connSocket) s.sockCtx with
  | none => s
  | some idx =>
    match s.sockCtx idx with
    | none => s
    | some ctx =>
      match findMatchTcpNode ctx.sockId ack s with
      | none => s
      | some (sequence, s) =>
        let s := delSninfoNode ctx.sockId sequence (s.modify idx (SocketContext.setSequence sequence .success))
        { s with reports := s.reports ++ [⟨ctx.sockId, sequence, .success⟩] }

/-- The nodes with the number of a socket are reported as failed. The slot whose state is
written has this number; the write faults where the slot is empty or there is no such slot. -/
def delAllsnnodeBySocketid (socketId : UInt8) (s : Sockets) : List SockSnNode → Option Sockets
  | [] => some { s with snInfo := [] }
  | node :: nodes =>
    if node.socketId = socketId then
      if h : socketId.toNat < sockNum then
        if (s.sockCtx ⟨socketId.toNat, h⟩).isSome then
          let s := s.modify ⟨socketId.toNat, h⟩ (SocketContext.setSequence node.sequence .failed)
          delAllsnnodeBySocketid socketId { s with reports := s.reports ++ [⟨socketId, node.sequence, .failed⟩] } nodes
        else none
      else none
    else
      (delAllsnnodeBySocketid socketId s nodes).map fun s => { s with snInfo := node :: s.snInfo }

/-- Only the end of a TCP connection is reported. -/
def atReportSocketState (id netType : UInt8) (s : Sockets) : Sockets :=
  if netType = 1 then s else { s with closed := s.closed ++ [id] }

def delSocketCtxByIndex (idx : Fin sockNum) (report : Bool) (s : Sockets) : Option Sockets :=
  match s.sockCtx idx with
  | none => some s
  | some ctx =>
    (delAllsnnodeBySocketid ctx.sockId s s.snInfo).map fun s =>
      let s := { s with sockCtx := Function.update s.sockCtx idx none }
      if report then atReportSocketState ctx.sockId ctx.netType s else s

section Sequences

variable {ctx : SocketContext} {sequence other : UInt8} {status status' : SendStatus}

theorem SocketContext.setSequence_self : (ctx.setSequence sequence status).HasStatus sequence status :=
  fun _ hi => if_pos hi

theorem SocketContext.setSequence_of_ne (hne : other ≠ sequence) :
    (ctx.setSequence sequence status).HasStatus other status' ↔ ctx.HasStatus other status' := by
  have hkeep : ∀ i : Fin sequenceMax, i.val + 1 = other.toNat →
      (ctx.setSequence sequence status).sequenceState i = ctx.sequenceState i :=
    fun i hi => if_neg fun heq => hne (UInt8.toNat_inj.mp (hi.symm.trans heq))
  constructor
  · exact fun h i hi => (hkeep i hi).symm.trans (h i hi)
  · exact fun h i hi => (hkeep i hi).trans (h i hi)

theorem SocketContext.setSequence_eq_self (h : ctx.HasStatus sequence status) : ctx.setSequence sequence status = ctx := by
  have hstate : (ctx.setSequence sequence status).sequenceState = ctx.sequenceState := by
    funext i
    unfold setSequence
    dsimp only
    split
    next hi => exact (h i hi).symm
    next => rfl
  cases ctx
  unfold setSequence at hstate ⊢
  rw [SocketContext.mk.injEq]
  exact ⟨rfl, rfl, rfl, rfl, rfl, rfl, rfl, rfl, rfl, rfl, rfl, rfl, rfl, rfl, rfl, rfl, rfl, rfl, hstate⟩

end Sequences

section Modify

variable {s : Sockets} {i j : Fin sockNum} {f : SocketContext → SocketContext}

theorem Sockets.modify_self : (s.modify i f).sockCtx i = (s.sockCtx i).map f := Function.update_self i _ _

theorem Sockets.modify_of_ne (hne : j ≠ i) : (s.modify i f).sockCtx j = s.sockCtx j := Function.update_of_ne hne _ _

theorem Sockets.modify_modify {g : SocketContext → SocketContext} : (s.modify i f).modify i g = s.modify i (g ∘ f) := by
  unfold modify
  dsimp only
  rw [Function.update_idem, Function.update_self, Option.map_map]

theorem Sockets.modify_eq_self (h : ∀ ctx, s.sockCtx i = some ctx → f ctx = ctx) : s.modify i f = s := by
  have hmap : (s.sockCtx i).map f = s.sockCtx i := by
    cases hi : s.sockCtx i with
    | none => rfl
    | some ctx => exact congrArg some (h ctx hi)
  unfold modify
  rw [hmap, Function.update_eq_self]

end Modify

/-- An acknowledgement that ends a send counts its data, marks its sequence, removes its node and
is reported. -/
theorem atTCPACKInfo_found {s : Sockets} {k : Fin sockNum} {ctx : SocketContext} {node : SockSnNode} {connSocket : UInt8}
    {ack : UInt32} (hfd : findSlot (fun ctx => ctx.fd = connSocket) s.sockCtx = some k) (hctx : s.sockCtx k = some ctx)
    (hid : findSockCtxIdBySockId ctx.sockId s = some k)
    (hnode : s.snInfo.find? (fun node => node.netType = 0 ∧ node.socketId = ctx.sockId ∧ ack - node.perSn = node.dataLen) =
      some node) :
    atTCPACKInfo connSocket ack s =
      { s.modify k fun ctx =>
          SocketContext.setSequence node.sequence .success { ctx with acked := ctx.acked + node.dataLen } with
        snInfo := s.snInfo.eraseP fun other => other.socketId = ctx.sockId ∧ other.sequence = node.sequence
        reports := s.reports ++ [⟨ctx.sockId, node.sequence, .success⟩] } := by
  unfold atTCPACKInfo findMatchTcpNode
  rw [hfd]
  dsimp only
  rw [hctx]
  dsimp only
  rw [hnode, hid, Option.map_some]
  dsimp only
  rw [Sockets.modify_modify]
  rfl

/-- Where the write for a node goes: into the slot that is numbered like the socket. It changes no
other socket when that is the slot of the socket, or when what is written is there already. -/
def WritesOwn (socketId : UInt8) (idx : Fin sockNum) (node : SockSnNode) (s : Sockets) : Prop :=
  ∃ i : Fin sockNum, i.val = socketId.toNat ∧
    (i = idx ∨ (s.sockCtx i).any fun ctx => ctx.HasStatus node.sequence .failed)

instance (socketId : UInt8) (idx : Fin sockNum) (node : SockSnNode) (s : Sockets) : Decidable (WritesOwn socketId idx node s) :=
  inferInstanceAs (Decidable (∃ i : Fin sockNum, i.val = socketId.toNat ∧
    (i = idx ∨ (s.sockCtx i).any fun ctx => ctx.HasStatus node.sequence .failed)))

section Delete

variable {socketId : UInt8} {idx : Fin sockNum} {s : Sockets}

/-- One write leaves the other slots as they are, and the own one with a context. -/
theorem WritesOwn.modify {node : SockSnNode} (h : WritesOwn socketId idx node s) (hidx : (s.sockCtx idx).isSome) :
    ∃ hlt : socketId.toNat < sockNum, (s.sockCtx ⟨socketId.toNat, hlt⟩).isSome ∧
      let t := s.modify ⟨socketId.toNat, hlt⟩ (SocketContext.setSequence node.sequence .failed)
      (t.sockCtx idx).isSome ∧ ∀ j ≠ idx, t.sockCtx j = s.sockCtx j := by
  obtain ⟨i, hi, hwrite⟩ := h
  have hlt : socketId.toNat < sockNum := hi ▸ i.isLt
  obtain rfl : i = ⟨socketId.toNat, hlt⟩ := Fin.ext hi
  refine ⟨hlt, ?_⟩
  rcases hwrite with rfl | hany
  · refine ⟨hidx, ?_, fun j hj => Sockets.modify_of_ne hj⟩
    rw [Sockets.modify_self, Option.isSome_map]
    exact hidx
  · have hsame : s.modify ⟨socketId.toNat, hlt⟩ (SocketContext.setSequence node.sequence .failed) = s := by
      refine Sockets.modify_eq_self fun ctx hctx => SocketContext.setSequence_eq_self ?_
      rw [hctx, Option.any_some, decide_eq_true_eq] at hany
      exact hany
    refine ⟨Option.isSome_of_any hany, ?_⟩
    dsimp only
    rw [hsame]
    exact ⟨hidx, fun _ _ => rfl⟩

theorem WritesOwn.congr {node : SockSnNode} {t : Sockets} (h : WritesOwn socketId idx node s)
    (hctx : ∀ j ≠ idx, t.sockCtx j = s.sockCtx j) : WritesOwn socketId idx node t := by
  obtain ⟨i, hi, hwrite⟩ := h
  refine ⟨i, hi, ?_⟩
  by_cases hidx : i = idx
  · exact Or.inl hidx
  · rw [hctx i hidx]
    exact hwrite

/-- The nodes of a socket are removed and reported. -/
theorem delAllsnnodeBySocketid_spec {nodes : List SockSnNode} (hidx : (s.sockCtx idx).isSome)
    (hnodes : ∀ node ∈ nodes, node.socketId = socketId → WritesOwn socketId idx node s) :
    ∃ t, delAllsnnodeBySocketid socketId s nodes = some t ∧
      (∀ j ≠ idx, t.sockCtx j = s.sockCtx j) ∧
      t.snInfo = nodes.filter (fun node => node.socketId ≠ socketId) ∧
      t.reports = s.reports ++ (nodes.filter fun node => node.socketId = socketId).map fun node =>
        ⟨socketId, node.sequence, .failed⟩ := by
  induction nodes generalizing s with
  | nil => exact ⟨_, rfl, fun _ _ => rfl, rfl, (List.append_nil _).symm⟩
  | cons node nodes ih =>
    have hrest : ∀ node' ∈ nodes, node'.socketId = socketId → WritesOwn socketId idx node' s :=
      fun node' hmem => hnodes node' (List.mem_cons_of_mem _ hmem)
    by_cases hnode : node.socketId = socketId
    · obtain ⟨hlt, hsome, hidx', hframe⟩ := (hnodes node List.mem_cons_self hnode).modify hidx
      let s' := s.modify ⟨socketId.toNat, hlt⟩ (SocketContext.setSequence node.sequence .failed)
      obtain ⟨t, hdel, hctx, hinfo, hreports⟩ :=
        @ih { s' with reports := s.reports ++ [⟨socketId, node.sequence, .failed⟩] } hidx'
          fun node' hmem hown => (hrest node' hmem hown).congr hframe
      refine ⟨t, ?_, fun j hj => (hctx j hj).trans (hframe j hj), ?_, ?_⟩
      · rw [delAllsnnodeBySocketid, if_pos hnode, dif_pos hlt, if_pos hsome]
        exact hdel
      · rw [hinfo, List.filter_cons_of_neg (by simp [hnode])]
      · rw [hreports, List.filter_cons_of_pos (by simp [hnode]), List.map_cons]
        exact List.append_assoc _ _ _
    · obtain ⟨t, hdel, hctx, hinfo, hreports⟩ := ih hidx hrest
      refine ⟨{ t with snInfo := node :: t.snInfo }, ?_, hctx, ?_, ?_⟩
      · rw [delAllsnnodeBySocketid, if_neg hnode, hdel, Option.map_some]
      · rw [List.filter_cons_of_pos (by simp [hnode]), hinfo]
      · rw [List.filter_cons_of_neg (by simp [hnode])]
        exact hreports

theorem delSocketCtxByIndex_spec {ctx : SocketContext} (report : Bool) (hctx : s.sockCtx idx = some ctx)
    (hnodes : ∀ node ∈ s.snInfo, node.socketId = ctx.sockId → WritesOwn ctx.sockId idx node s) :
    ∃ t, delSocketCtxByIndex idx report s = some t ∧ t.sockCtx = Function.update s.sockCtx idx none ∧
      t.snInfo = s.snInfo.filter (fun node => node.socketId ≠ ctx.sockId) ∧
      t.reports = s.reports ++ (s.snInfo.filter fun node => node.socketId = ctx.sockId).map fun node =>
        ⟨ctx.sockId, node.sequence, .failed⟩ := by
  have hsome : (s.sockCtx idx).isSome := by
    rw [hctx]
    rfl
  obtain ⟨t, hdel, hframe, hinfo, hreports⟩ := delAllsnnodeBySocketid_spec hsome hnodes
  have hslots : Function.update t.sockCtx idx none = Function.update s.sockCtx idx none := by
    funext j
    by_cases hj : j = idx
    · rw [hj, Function.update_self, Function.update_self]
    · rw [Function.update_of_ne hj, Function.update_of_ne hj, hframe j hj]
  unfold delSocketCtxByIndex
  rw [hctx]
  dsimp only
  rw [hdel, Option.map_some]
  refine ⟨_, rfl, ?_⟩
  unfold atReportSocketState
  dsimp only
  split
  · split
    · exact ⟨hslots, hinfo, hreports⟩
    · exact ⟨hslots, hinfo, hreports⟩
  · exact ⟨hslots, hinfo, hreports⟩

end Delete

end NbiotXY1100.AtSocketContext
