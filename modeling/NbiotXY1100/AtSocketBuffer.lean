import NbiotXY1100.CStrings
import NbiotXY1100.HexStrParameter

/-! # The receive buffer of an AT socket

A datagram that the receive thread takes is put behind the others, unless the buffer is full. AT+NSORF
takes data from the first datagram and answers with a text: the remote address, the data in hexadecimal
and the length of what comes next. -/
namespace NbiotXY1100.AtSocketBuffer
open CStrings

def sockRcvBufMax : ℕ := 4000

def comma : UInt8 := 44

inductive SinFamily
  | inet
  | inet6
  deriving DecidableEq, Repr

/-- `sockaddr_in`, the port as `ntohs` gives it. -/
structure SockaddrIn where
  sinFamily : SinFamily
  sinPort : UInt16
  sinAddr : UInt8 × UInt8 × UInt8 × UInt8
  deriving DecidableEq

/-- `rcv_data_nod`; its length is that of the data. -/
structure RcvDataNod where
  data : List UInt8
  sockaddrInfo : SockaddrIn

def RcvDataNod.len (nod : RcvDataNod) : ℕ := nod.data.length

/-- The fields of `sock_context` that reception and reading use. -/
structure SockContext where
  sockId : ℕ
  afType : ℕ
  recvCtl : ℕ
  firtRecv : ℕ
  dataList : List RcvDataNod

inductive AtSckReportMode
  | bufferNoHint
  | bufferWithHint
  | hintWithRemoteInfo
  | hintNoRemoteInfo
  deriving DecidableEq, Repr

/-- `VER_QUECTEL`, the answer of `xy_Remote_AT_Req` to a datagram, and what `inet_ntop` for IPv6 prints of the
memory at `sin_addr`. -/
structure Build where
  verQuectel : Bool
  xyRemoteAtReq : List UInt8 → Bool
  inetNtop6 : SockaddrIn → List UInt8

/-- `inet_ntop` for IPv4. -/
def inetNtop4 (addr : UInt8 × UInt8 × UInt8 × UInt8) : List UInt8 :=
  decimal addr.1.toNat ++ 46 :: (decimal addr.2.1.toNat ++ 46 :: (decimal addr.2.2.1.toNat ++
    46 :: decimal addr.2.2.2.toNat))

/-- The text of a remote address. -/
def remoteIp (build : Build) (s : SockContext) (info : SockaddrIn) : List UInt8 :=
  if s.afType = 1 then build.inetNtop6 info else inetNtop4 info.sinAddr

/-- "0123456789ABCDEF". -/
def tab : List UInt8 := [48, 49, 50, 51, 52, 53, 54, 55, 56, 57, 65, 66, 67, 68, 69, 70]

def bytes2hexstr (src : List UInt8) : List UInt8 :=
  src.flatMap fun (b : UInt8) => [tab.getD (b >>> 4).toNat 0, tab.getD (b &&& 0x0f).toNat 0]

def digitValue (c : UInt8) : Option UInt8 :=
  if 97 ≤ c ∧ c ≤ 102 then some (c - 97 + 10)
  else if 48 ≤ c ∧ c ≤ 57 then some (c - 48)
  else if 65 ≤ c ∧ c ≤ 70 then some (c - 65 + 10)
  else none

def hexstr2bytes : List UInt8 → Option (List UInt8)
  | [] => some []
  | [_] => none
  | c :: d :: src =>
    (digitValue c).bind fun high => (digitValue d).bind fun low => (hexstr2bytes src).map fun bytes =>
      (high <<< 4 ||| low) :: bytes

/-- "\r\n+NSONMI:%d,%d\r\n". -/
def nsonmi (sktIndex len : ℕ) : List UInt8 :=
  [13, 10, 43, 78, 83, 79, 78, 77, 73, 58] ++ (decimal sktIndex ++ comma :: (decimal len ++ [13, 10]))

/-- "\r\n+NSORF:%d,%s,%d,%d," with the data, or without the name. -/
def nsorf (build : Build) (sktIndex : ℕ) (ip : List UInt8) (port : UInt16) (data : List UInt8) : List UInt8 :=
  (if build.verQuectel then [13, 10] else [13, 10, 43, 78, 83, 79, 82, 70, 58]) ++
    (decimal sktIndex ++ comma :: (ip ++ comma :: (decimal port.toNat ++ comma :: (decimal data.length ++
      comma :: bytes2hexstr data))))

/-- ",%d\r\n" and "\r\nOK\r\n". -/
def nsorfEnd (remaining : ℕ) : List UInt8 := comma :: (decimal remaining ++ [13, 10] ++ [13, 10, 79, 75, 13, 10])

def addNewRcvDataNode (nod : RcvDataNod) (s : SockContext) : Bool × SockContext :=
  match s.dataList with
  | [] => (true, { s with dataList := [nod] })
  | temp :: rest =>
    if ((temp :: rest).map RcvDataNod.len).sum + nod.len < sockRcvBufMax then
      (true, { s with dataList := s.dataList ++ [nod] })
    else (false, s)

def getRemainingSocketBufferSize (s : SockContext) : ℕ :=
  match s.dataList with
  | [] => 0
  | temp :: _ => temp.len

/-- What is allocated for the answer, before the datagram is cut. -/
def rspSize (temp : RcvDataNod) : ℕ := 120 + temp.len * 2

/-- The answer with the new context; there is none when nothing is buffered. -/
def readDataFromSocketBuffer (build : Build) (mode : AtSckReportMode) (sktIndex preadLen : ℕ) (s : SockContext) :
    Option (List UInt8) × SockContext :=
  match s.dataList with
  | [] => (none, s)
  | temp :: next =>
    let ip := remoteIp build s temp.sockaddrInfo
    let port := temp.sockaddrInfo.sinPort
    if temp.len ≤ preadLen then
      let s := { s with dataList := next }
      let rsp := nsorf build sktIndex ip port temp.data ++ nsorfEnd (getRemainingSocketBufferSize s)
      match next with
      | [] => (some rsp, { s with firtRecv := 0 })
      | head :: _ => (some (if mode = .bufferWithHint then rsp ++ nsonmi sktIndex head.len else rsp), s)
    else
      let s := { s with dataList := { temp with data := temp.data.drop preadLen } :: next }
      (some (nsorf build sktIndex ip port (temp.data.take preadLen) ++ nsorfEnd (getRemainingSocketBufferSize s)), s)

/-- What the receive thread does with a datagram. -/
inductive Fate
  | dropped
  | reported
  | rejected
  | accepted
  deriving DecidableEq, Repr

/-- One datagram in the receive thread. -/
def atSockRecv (build : Build) (mode : AtSckReportMode) (nod : RcvDataNod) (s : SockContext) : Fate × SockContext :=
  if nod.sockaddrInfo.sinFamily ≠ .inet then (.dropped, s)
  else if s.recvCtl = 0 then (.dropped, s)
  else if build.xyRemoteAtReq nod.data then (.dropped, s)
  else if mode = .hintWithRemoteInfo ∨ mode = .hintNoRemoteInfo then (.reported, s)
  else
    let r := addNewRcvDataNode nod s
    if r.1 then
      (.accepted, if mode = .bufferWithHint ∧ r.2.firtRecv = 0 then { r.2 with firtRecv := 1 } else r.2)
    else (.rejected, r.2)

end NbiotXY1100.AtSocketBuffer
