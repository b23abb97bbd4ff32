import Mathlib.Data.Int.Notation
import Mathlib.Data.List.Nodup

/-! # Uplink messages of the CDP client

A message waits in `upstream_info`, then in the report queue of /19/0/0, and ends with a CoAP
transaction or, when it is not confirmable but has a sequence number, with a report of the air
interface. Each message carries the place at which it was accepted, so that the outcomes that are
counted can be told apart; the code has no such field. -/
namespace NbiotXY1100.CdpUpstream

inductive CdpMsgType where
  | con
  | non
  | nonRai
  | conRai
  | conWaitReplyRai
  | nonWaitReplyRai
  deriving DecidableEq, Repr

/-- The test for `cdp_NON`, `cdp_NON_RAI` and `cdp_NON_WAIT_REPLY_RAI`. -/
def CdpMsgType.isNon : CdpMsgType → Bool
  | .non | .nonRai | .nonWaitReplyRai => true
  | .con | .conRai | .conWaitReplyRai => false

inductive DataSendStatus where
  | notSent
  | sentWaitResponse
  | sentFail
  | sentTimeOut
  | sentSuccess
  | sentGetRst
  | sendPending
  deriving DecidableEq, Repr

inductive AtinyResult where
  | ok
  | argInvalid
  | resourceNotFound
  | resourceNotEnough
  | mallocFailed
  deriving DecidableEq, Repr

inductive IpsnStatus where
  | fail
  | succ
  deriving DecidableEq, Repr

/-- `buffer_list_t`. -/
structure Buffer where
  dataLen : ℕ
  type : CdpMsgType
  seqNum : UInt8
  index : ℕ
  deriving DecidableEq, Repr

/-- `data_report_t` of an `APP_DATA` report. `callback` tells `ack_callback` from `NULL`. -/
structure DataReport where
  len : ℕ
  msgType : CdpMsgType
  cookie : UInt8
  callback : Bool
  index : ℕ
  deriving DecidableEq, Repr

/-- `atiny_rpt_list_t`; `rpt_node_cnt` is the length of the list. -/
structure RptList where
  maxCnt : ℕ
  nodes : List DataReport
  deriving DecidableEq, Repr

structure Transaction where
  mID : UInt16
  cookie : UInt8
  index : ℕ
  deriving DecidableEq, Repr

/-- An entry of `cdp_sn_info`. -/
structure SnInfo where
  sequence : UInt8
  msgType : CdpMsgType
  index : ℕ
  deriving DecidableEq, Repr

/-- `upstream_info`, the report queue, the transactions and `cdp_sn_info`. Then what the code does
not keep: the messages accepted so far, those whose outcome was counted, the number of messages
refused, and the messages that wait for a report of the air interface. -/
structure State where
  pendingNum : ℤ
  sentNum : ℤ
  errorNum : ℤ
  upstream : List Buffer
  rptList : Option RptList
  transactions : List Transaction
  nextMID : UInt16
  cdpSnInfo : List SnInfo
  sendStatus : ℕ
  accepted : List (CdpMsgType × UInt8)
  counted : List ℕ
  refused : ℕ
  air : List ℕ
  deriving DecidableEq, Repr

def dataListMaxLen : ℤ := 8
def maxReportDataLen : ℕ := 1024
def coapMaxRetransmit : ℕ := 4

/-! ### The sequence numbers in use -/

def cdpAddSninfoNode (sequence : UInt8) (msgType : CdpMsgType) (index : ℕ) (info : List SnInfo) : List SnInfo :=
  if sequence = 0 then info else info ++ [⟨sequence, msgType, index⟩]

def cdpDelSninfoNode (sequence : UInt8) (info : List SnInfo) : List SnInfo :=
  info.eraseP (·.sequence = sequence)

def cdpFindMatchUdpNode (sequence : UInt8) (info : List SnInfo) : Bool :=
  sequence ≠ 0 && info.any (·.sequence = sequence)

/-- `XY_OK` unless a message that is not confirmable has the number. -/
def cdpCheckConNode (sequence : UInt8) (info : List SnInfo) : Bool :=
  !info.any fun node => node.sequence = sequence && node.msgType.isNon

/-! ### A message is accepted -/

/-- `memory` tells whether both `xy_malloc` succeed. The result is `false` for -1. -/
def sendMessageViaLwm2m (memory : Bool) (dataLen : ℕ) (type : CdpMsgType) (seqNum : UInt8) (s : State) : Bool × State :=
  if dataLen = 0 then (true, s)
  else if s.pendingNum ≥ dataListMaxLen ∨ memory = false then
    (false, { s with errorNum := s.errorNum + 1, refused := s.refused + 1 })
  else
    let index := s.accepted.length
    let s := { s with
      upstream := s.upstream ++ [Buffer.mk dataLen type seqNum index]
      accepted := s.accepted ++ [(type, seqNum)] }
    if type.isNon then
      if seqNum = 0 then (true, { s with sentNum := s.sentNum + 1, counted := s.counted ++ [index] })
      else (true, { s with pendingNum := s.pendingNum + 1 })
    else (true, { s with pendingNum := s.pendingNum + 1, sendStatus := 1 })

/-- `ready` stands for the checks of the network and of the registration. -/
def cdpSendData (ready memory : Bool) (len : ℕ) (msgType : CdpMsgType) (seqNum : UInt8) (s : State) : Bool × State :=
  if len > maxReportDataLen ∨ len = 0 then (false, s)
  else if cdpFindMatchUdpNode seqNum s.cdpSnInfo then (false, s)
  else if ready = false then (false, s)
  else if s.pendingNum ≥ 8 then (false, s)
  else
    let index := s.accepted.length
    let (ok, s) := sendMessageViaLwm2m memory len msgType seqNum { s with sendStatus := 0 }
    if ok then (true, { s with cdpSnInfo := cdpAddSninfoNode seqNum msgType index s.cdpSnInfo })
    else (false, s)

/-! ### An outcome is counted -/

/-- `index` tells whose outcome it is. A transaction passes its `mID`; the report queue and the air
interface pass -1. -/
def ackCallback (index : ℕ) (cookie : UInt8) (status : DataSendStatus) (mid : ℤ) (s : State) : State :=
  if mid = -1 ∧ cdpCheckConNode cookie s.cdpSnInfo then s
  else
    match status with
    | .sentSuccess =>
      let s :=
        if mid ≠ -1 then
          if s.sendStatus = 5 then { s with sentNum := s.sentNum - 1, errorNum := s.errorNum + 1 }
          else { s with sendStatus := 4 }
        else s
      { s with sentNum := s.sentNum + 1, pendingNum := s.pendingNum - 1, counted := s.counted ++ [index] }
    | .sentTimeOut =>
      let s := if mid ≠ -1 then { s with sendStatus := 3 } else s
      { s with errorNum := s.errorNum + 1, pendingNum := s.pendingNum - 1, counted := s.counted ++ [index] }
    | .sentFail =>
      let s := if mid ≠ -1 then { s with sendStatus := 2 } else s
      { s with errorNum := s.errorNum + 1, pendingNum := s.pendingNum - 1, counted := s.counted ++ [index] }
    | .sentGetRst =>
      { s with errorNum := s.errorNum + 1, pendingNum := s.pendingNum - 1, counted := s.counted ++ [index] }
    | .notSent | .sentWaitResponse | .sendPending => s

/-! ### The report queue -/

def atinyQueueRptData (memory : Bool) (data : DataReport) (rptList : Option RptList) : AtinyResult × Option RptList :=
  match rptList with
  | none => (.resourceNotFound, none)
  | some l =>
    if l.nodes.length ≥ l.maxCnt then (.resourceNotEnough, some l)
    else if memory = false then (.mallocFailed, some l)
    else (.ok, some { l with nodes := l.nodes ++ [data] })

def atinyDataReport (bufMemory nodeMemory : Bool) (data : DataReport) (rptList : Option RptList) :
    AtinyResult × Option RptList :=
  if data.len = 0 ∨ data.len > maxReportDataLen then (.argInvalid, rptList)
  else if bufMemory = false then (.mallocFailed, rptList)
  else atinyQueueRptData nodeMemory data rptList

def Buffer.report (head : Buffer) : DataReport :=
  ⟨head.dataLen, head.type, head.seqNum, !head.type.isNon, head.index⟩

/-- The head leaves the queue whatever `atiny_data_report` returns. -/
def appDataReport (bufMemory nodeMemory : Bool) (s : State) : State :=
  match s.upstream with
  | [] => s
  | head :: next =>
    { s with upstream := next, rptList := (atinyDataReport bufMemory nodeMemory head.report s.rptList).2 }

def atinyDequeueRptData : Option RptList → Option (DataReport × RptList)
  | some ⟨maxCnt, data :: nodes⟩ => some (data, ⟨maxCnt, nodes⟩)
  | _ => none

/-- A turn of `observe_app_step`. `active` tells whether the server, which is the only one, observes the
resource. The order of the transactions does not matter here. -/
def observeAppStep (active : Bool) (s : State) : State :=
  match atinyDequeueRptData s.rptList with
  | none => s
  | some (data, rptList) =>
    let s := { s with rptList := some rptList }
    if active then
      let mid := s.nextMID
      let s := { s with nextMID := mid + 1 }
      if data.callback then { s with transactions := s.transactions ++ [⟨mid, data.cookie, data.index⟩] }
      else if data.cookie ≠ 0 then { s with air := s.air ++ [data.index] }
      else s
    else s

/-- `atiny_free_list` with `atiny_clear_rpt_list_node_data`. -/
def clearRptNodes (result : DataSendStatus) : List DataReport → State → State
  | [], s => s
  | data :: nodes, s =>
    clearRptNodes result nodes (if data.callback then ackCallback data.index data.cookie result (-1) s else s)

def atinyClearRptData (result : DataSendStatus) (s : State) : State :=
  match s.rptList with
  | none => s
  | some l => clearRptNodes result l.nodes { s with rptList := some { l with nodes := [] } }

/-- The server cancels the observation of /19/0/0. `conSendFlag` is `g_conEX_send_flag`. -/
def unsubscribe (conSendFlag : Bool) (s : State) : State :=
  atinyClearRptData .sentFail (if conSendFlag then { s with sendStatus := 5 } else s)

/-! ### Outcomes -/

/-- The status with which `observe_handle_ack` calls back. -/
def ackStatus (ackReceived rst : Bool) (retransCounter : ℕ) : DataSendStatus :=
  if ackReceived then if rst then .sentGetRst else .sentSuccess
  else if retransCounter > coapMaxRetransmit then .sentTimeOut
  else .sentFail

def observeHandleAck (ackReceived rst : Bool) (retransCounter : ℕ) (transaction : Transaction) (s : State) : State :=
  ackCallback transaction.index transaction.cookie (ackStatus ackReceived rst retransCounter) transaction.mID.toNat s

/-- The status with which `seq_callback` calls back. -/
def airStatus : IpsnStatus → DataSendStatus
  | .succ => .sentSuccess
  | .fail => .sentTimeOut

/-- `socCtxId` is the socket of the connection, if there is one. The number is at most `SEQUENCE_MAX`
already by its width, and `find?` stands for `cdp_find_match_udp_node`. -/
def seqCallback (usIpSn : UInt16) (ucStatus : IpsnStatus) (socCtxId : Option ℕ) (s : State) : State :=
  let socketFd := ((usIpSn &&& 0xFF00) >>> 8).toNat
  let seqNum := (usIpSn &&& 0x00FF).toUInt8
  if seqNum = 0 then s
  else
    match s.cdpSnInfo.find? (·.sequence = seqNum) with
    | none => s
    | some node =>
      if socCtxId = some socketFd then
        let s := ackCallback node.index seqNum (airStatus ucStatus) (-1) s
        { s with
          cdpSnInfo := cdpDelSninfoNode seqNum s.cdpSnInfo
          air := if node.msgType.isNon then s.air.erase node.index else s.air }
      else s

end NbiotXY1100.CdpUpstream
