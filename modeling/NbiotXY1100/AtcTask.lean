import Mathlib.Data.List.Basic
import NbiotXY1100.KeyedLists
import NbiotXY1100.StepRuns
import Mathlib.Algebra.GroupWithZero.Nat

/-! # The task that takes AT commands for the protocol stack

Requests and results reach the task in one queue. It takes up one external request at a
time, cuts a line of several commands into requests of its own, executes a command itself
or passes it to the protocol stack, and reports one result for each external request. The
results of commands without a sequence number are taken up by the callback task; a lock
keeps the two tasks apart. -/
namespace NbiotXY1100.AtcTask
open KeyedLists

/-- `ATC_AP_MSG_DATA_REQ_STRU`, whose length field is the length of the data. No function
of the task reads the ticket, which tells requests apart. -/
structure DataReq where
  ticket : ℕ
  ucExternalFlg : Bool
  ulSemaId : ℕ
  aucMsgData : List UInt8
  deriving DecidableEq, Repr

/-- `ST_ATC_AP_CMD_RST`. -/
inductive CmdRst where
  | ok
  | cmee (usErrCode : ℕ)
  | cms (usErrCode : ℕ)
  deriving DecidableEq, Repr

/-- An `ATC_MSG_DATA_IND_STRU` with the result of a command of the request `owner`. -/
structure DataInd where
  ucSeqNum : UInt8
  rst : CmdRst
  owner : DataReq
  deriving DecidableEq, Repr

inductive Msg where
  | dataReq (req : DataReq)
  | dataInd (ind : DataInd)
  deriving DecidableEq, Repr

/-- The events of commands; the three named ones wait for the text of a short message. -/
inductive CurrEvent where
  | cmgs
  | cmgc
  | cnma
  | other (usEvent : ℕ)
  deriving DecidableEq, Repr

structure CascadeAtInfo where
  ucCascadeAtFlg : Bool
  ucCascadeAtCnt : UInt8
  pCasaadeAtBuff : Option (List UInt8)
  usLen : ℕ
  offset : ℕ
  deriving DecidableEq, Repr

def CascadeAtInfo.zero : CascadeAtInfo := ⟨false, 0, none, 0, 0⟩

def appInterfaceResultSucc : ℕ := 0

def appInterfaceResultFail : ℕ := 1

/-- `ST_ATC_AP_APP_INTERFACE_NODE` with the request that it is for and the number of API
requests that were accepted before it, which no function reads. -/
structure AppInterfaceNode where
  ucSeqNum : UInt8
  ulSemaphore : ℕ
  ucResult : ℕ
  owner : DataReq
  accept : ℕ
  deriving DecidableEq, Repr

/-- `g_AtcApInfo` with what leaves the task: the commands that the stack has not answered,
the texts given to `ATC_Command_Analysis`, the final result strings and the semaphores
released with the result for their caller. `listProcDue` is set between the report of a
result and the end of its function, where the lock is still held. -/
structure AtcApInfo where
  usCurrEvent : CurrEvent
  ucUserAtFlg : Bool
  ucWaitOKOrErrorFlg : Bool
  ucTempSeqNum : UInt8
  atCascateInfo : CascadeAtInfo
  msgInfo : List Msg
  msgInfoEventCb : List DataInd
  appSeqNum : UInt8
  appNodes : List AppInterfaceNode
  stAtcDataReqList : List DataReq
  listProcDue : Bool
  accepts : ℕ
  stack : List (UInt8 × DataReq)
  analysed : List (List UInt8)
  rsps : List CmdRst
  releases : List (ℕ × ℕ)

def AtcApInfo.init : AtcApInfo :=
  ⟨.other 0, false, false, 0, .zero, [], [], 0, [], [], false, 0, [], [], [], []⟩

def semicolon : UInt8 := 59

def cr : UInt8 := 13

def atPrefix : List UInt8 := [65, 84]

def commandError : ℕ := 1

def commandParameterError : ℕ := 2

def commandEnd : ℕ := 3

def commandTooManyParameters : ℕ := 8

def cmeUnknown : ℕ := 100

def cmeIncorrectParameters : ℕ := 50

def cmeOperNotSupported : ℕ := 4

/-- What becomes of a text: `ATC_Command_Analysis` refuses or ends it, a function of
`AtcAp_CmdProcTable` executes it and reports success, or it goes to the stack, which the
link between the cores can refuse. -/
inductive Answer where
  | result (ucResult : ℕ)
  | excuted
  | sent
  | notSent
  deriving DecidableEq, Repr

structure Analysis where
  usEvent : CurrEvent
  answer : Answer
  deriving DecidableEq, Repr

def currEventChkIsWaitSmsPdu : CurrEvent → Bool
  | .cmgs | .cmgc | .cnma => true
  | .other _ => false

def sendApDataReq (external : Bool) (sema : ℕ) (data : List UInt8) (s : AtcApInfo) : AtcApInfo :=
  { s with msgInfo := s.msgInfo ++ [.dataReq ⟨0, external, sema, data⟩] }

def addAppInterfaceInfo (req : DataReq) (s : AtcApInfo) : AtcApInfo :=
  let seq := if s.appSeqNum + 1 = 0 then s.appSeqNum + 1 + 1 else s.appSeqNum + 1
  { s with
    appSeqNum := seq
    appNodes := s.appNodes ++ [⟨seq, req.ulSemaId, appInterfaceResultSucc, req, s.accepts⟩]
    accepts := s.accepts + 1
    ucTempSeqNum := seq }

/-- The list without the first node that passes the test; an empty list starts counting anew. -/
def delAppInterfaceResult (test : AppInterfaceNode → Bool) (s : AtcApInfo) : AtcApInfo :=
  let nodes := s.appNodes.eraseP test
  { s with appNodes := nodes, appSeqNum := if nodes = [] then 0 else s.appSeqNum }

def noCaller : ℕ := 0xffffffff

def appInterfaceInfoCmdRstProc (seq : UInt8) (ucResult : ℕ) (s : AtcApInfo) : AtcApInfo :=
  match s.appNodes.find? fun n => n.ucSeqNum = seq with
  | none => s
  | some node =>
    if node.ulSemaphore ≠ noCaller then
      { s with
        appNodes := updateFirst (fun n => n.ucSeqNum = seq) (fun n => { n with ucResult }) s.appNodes
        releases := s.releases ++ [(node.ulSemaphore, ucResult)] }
    else delAppInterfaceResult (fun n => n.ucSeqNum = seq) s

/-- What a caller of the API does when it holds its semaphore: it takes the result from
its node and removes the node. -/
def appInterfaceCallEnd (sema : ℕ) (s : AtcApInfo) : Option ℕ × AtcApInfo :=
  match s.appNodes.find? fun n => n.ulSemaphore = sema with
  | none => (none, s)
  | some node => (some node.ucResult, delAppInterfaceResult (fun n => n.ulSemaphore = sema) s)

/-- The next command of a line is sent to the task's own queue. -/
def cascadeAtProcNextAt (s : AtcApInfo) : AtcApInfo :=
  if s.atCascateInfo.ucCascadeAtFlg = false then s
  else
    match s.atCascateInfo.pCasaadeAtBuff with
    | none => s
    | some buff =>
      let info := s.atCascateInfo
      let rest := (buff.drop info.offset).take (info.usLen - info.offset)
      let i := rest.idxOf semicolon
      if i < rest.length then
        let data := (if info.offset = 0 then [] else atPrefix) ++ rest.take i ++ [cr]
        let offset := info.offset + (i + 1)
        let info :=
          if offset = info.usLen then { info with offset, pCasaadeAtBuff := none, usLen := 0 }
          else { info with offset }
        sendApDataReq false 0 data { s with atCascateInfo := info }
      else
        sendApDataReq false 0 (atPrefix ++ rest ++ [cr])
          { s with atCascateInfo := { info with pCasaadeAtBuff := none, usLen := 0 } }

/-- The common end of the functions that report a result, up to the point from which
applications may run. -/
def reportResult (ucResult : ℕ) (rst : CmdRst) (s : AtcApInfo) : AtcApInfo :=
  let s := if s.ucTempSeqNum ≠ 0 then appInterfaceInfoCmdRstProc s.ucTempSeqNum ucResult s else s
  { s with
    ucTempSeqNum := 0
    atCascateInfo := .zero
    rsps := if s.ucUserAtFlg then s.rsps else s.rsps ++ [rst]
    listProcDue := true }

def sendOkRsp (s : AtcApInfo) : AtcApInfo :=
  let s := { s with usCurrEvent := .other 0xFFFF }
  let cnt := s.atCascateInfo.ucCascadeAtCnt
  if 1 < cnt then
    cascadeAtProcNextAt { s with atCascateInfo := { s.atCascateInfo with ucCascadeAtCnt := cnt - 1 } }
  else if cnt = 0 then s
  else reportResult appInterfaceResultSucc .ok s

def sendErr (rst : CmdRst) (s : AtcApInfo) : AtcApInfo :=
  let s := { s with usCurrEvent := .other 0xFFFF }
  if s.atCascateInfo.ucCascadeAtCnt = 0 then s else reportResult appInterfaceResultFail rst s

def sendCmeeErr (usErrCode : ℕ) : AtcApInfo → AtcApInfo := sendErr (.cmee usErrCode)

def sendCmsErr (usErrCode : ℕ) : AtcApInfo → AtcApInfo := sendErr (.cms usErrCode)

def sendErrorRsp : AtcApInfo → AtcApInfo := sendCmeeErr cmeUnknown

def msgProcAtCmdRst : CmdRst → AtcApInfo → AtcApInfo
  | .ok => sendOkRsp
  | .cmee code => sendCmeeErr code
  | .cms code => sendCmsErr code

/-- The number of semicolons, in eight bits, and the place of the last one. -/
def countSemicolons : List UInt8 → ℕ → UInt8 × ℕ → UInt8 × ℕ
  | [], _, found => found
  | b :: bs, i, found => countSemicolons bs (i + 1) (if b = semicolon then (found.1 + 1, i) else found)

def isCascateAtChk (req : DataReq) (s : AtcApInfo) : Bool × AtcApInfo :=
  if req.ucExternalFlg = false then (false, s)
  else if s.atCascateInfo.ucCascadeAtFlg then (true, sendErrorRsp s)
  else if currEventChkIsWaitSmsPdu s.usCurrEvent then (false, s)
  else
    let found := countSemicolons req.aucMsgData 0 (0, 0)
    let cnt := if found.2 < req.aucMsgData.length then found.1 + 1 else found.1
    if 1 < cnt then
      (true, cascadeAtProcNextAt
        { s with atCascateInfo := ⟨true, cnt, some req.aucMsgData, req.aucMsgData.length, 0⟩ })
    else (false, { s with atCascateInfo := { s.atCascateInfo with ucCascadeAtCnt := cnt } })

def dataReqResultHandle (ucResult : ℕ) : AtcApInfo → AtcApInfo :=
  if ucResult = commandEnd then sendOkRsp
  else if ucResult = commandParameterError ∨ ucResult = commandTooManyParameters then
    sendCmeeErr cmeIncorrectParameters
  else if ucResult = commandError then sendCmeeErr cmeOperNotSupported
  else sendErrorRsp

/-- A command goes to the stack with the number of the API request that it is of. -/
def sndDataReqToShm (req : DataReq) (s : AtcApInfo) : AtcApInfo :=
  { s with stack := s.stack ++ [(if s.ucUserAtFlg then s.appSeqNum else 0, req)] }

def dataReqProcAtCmd (a : Analysis) (req : DataReq) (s : AtcApInfo) : AtcApInfo :=
  let chk := isCascateAtChk req s
  if chk.1 then chk.2
  else
    let s := { chk.2 with usCurrEvent := a.usEvent, analysed := chk.2.analysed ++ [req.aucMsgData] }
    match a.answer with
    | .result ucResult => dataReqResultHandle ucResult s
    | .excuted => sendOkRsp s
    | .sent => sndDataReqToShm req s
    | .notSent => sendErrorRsp s

def saveAtcDataReq2List (req : DataReq) (s : AtcApInfo) : AtcApInfo :=
  { s with stAtcDataReqList := s.stAtcDataReqList ++ [req] }

def msgProcAtcApDataReq (a : Analysis) (req : DataReq) (s : AtcApInfo) : AtcApInfo :=
  if req.ucExternalFlg then
    if currEventChkIsWaitSmsPdu s.usCurrEvent then
      if req.ulSemaId ≠ 0 then saveAtcDataReq2List req s else dataReqProcAtCmd a req s
    else if s.ucWaitOKOrErrorFlg then saveAtcDataReq2List req s
    else
      let s := { s with ucWaitOKOrErrorFlg := true }
      dataReqProcAtCmd a req <|
        if req.ulSemaId = 0 then { s with ucUserAtFlg := false }
        else addAppInterfaceInfo req { s with ucUserAtFlg := true }
  else dataReqProcAtCmd a req s

/-- The end of the functions that report a result: the next saved request is taken up. -/
def atcDataReqListProc (a : Analysis) (s : AtcApInfo) : AtcApInfo :=
  let s := { s with ucWaitOKOrErrorFlg := false, listProcDue := false }
  match s.stAtcDataReqList with
  | [] => s
  | req :: rest => msgProcAtcApDataReq a req { s with stAtcDataReqList := rest }

def msgProcAtcApDataInd (ind : DataInd) (s : AtcApInfo) : AtcApInfo :=
  let s := if ind.ucSeqNum = 0 then s else msgProcAtCmdRst ind.rst { s with ucTempSeqNum := ind.ucSeqNum }
  { s with msgInfoEventCb := s.msgInfoEventCb ++ [ind] }

def normalMsgDistribute (a : Analysis) : Msg → AtcApInfo → AtcApInfo
  | .dataReq req => msgProcAtcApDataReq a req
  | .dataInd ind => msgProcAtcApDataInd ind

def eventCallback (ind : DataInd) (s : AtcApInfo) : AtcApInfo :=
  if ind.ucSeqNum = 0 then msgProcAtCmdRst ind.rst s else s

/-- The task takes the first message of its queue, once the lock is free. -/
def taskEntry (a : Analysis) (s : AtcApInfo) : Option AtcApInfo :=
  match s.msgInfo with
  | [] => none
  | msg :: rest => if s.listProcDue then none else some (normalMsgDistribute a msg { s with msgInfo := rest })

def taskEntryEventCallback (s : AtcApInfo) : Option AtcApInfo :=
  match s.msgInfoEventCb with
  | [] => none
  | ind :: rest => if s.listProcDue then none else some (eventCallback ind { s with msgInfoEventCb := rest })

/-- The holder of the lock ends the function that reported a result. -/
def taskContinue (a : Analysis) (s : AtcApInfo) : Option AtcApInfo :=
  if s.listProcDue then some (atcDataReqListProc a s) else none

/-- The protocol stack answers one of its commands with one result. -/
def stackAnswer (i : ℕ) (rst : CmdRst) (s : AtcApInfo) : Option AtcApInfo :=
  s.stack[i]?.map fun cmd =>
    { s with stack := s.stack.eraseIdx i, msgInfo := s.msgInfo ++ [.dataInd ⟨cmd.1, rst, cmd.2⟩] }

end NbiotXY1100.AtcTask
