import NbiotXY1100.AtSocketContext

/-! # Saving and resuming network applications

Before a deep sleep the UDP sockets are written to the record of network applications, and a
flag notes that they are to be resumed. After the wake-up a resume request puts them back. -/
namespace NbiotXY1100.NetAppResume
open AtSocketContext

/-- `struct udp_context_fd` with what is saved of a socket; the other fields of its `net_infos_t`
are not read. -/
structure UdpContextFd where
  localPort : UInt16
  remotePort : UInt16
  remoteIp : List UInt8
  socketIdx : UInt8
  afType : UInt8
  recvCtl : UInt8
  deriving DecidableEq, Repr

/-- `udp_context_t`. -/
structure UdpContext where
  udpSocket : Fin sockNum → UdpContextFd
  dataMode : UInt32

/-- The `socket_idx` of an entry without a socket, `(char)-1`. -/
def noSocket : UInt8 := 255

def UdpContextFd.zero : UdpContextFd := ⟨0, 0, [], 0, 0, 0⟩

def UdpContext.zero : UdpContext := ⟨fun _ => .zero, 0⟩

/-- The bits of `app_recovery_flag`. -/
structure RecoveryFlag where
  socket : Bool
  onenet : Bool
  cdp : Bool
  deriving DecidableEq, Repr

def RecoveryFlag.clear : RecoveryFlag := ⟨false, false, false⟩

/-- What saving and resuming read and write: the sockets, whether `at_rcv_thread_id` and
`g_udp_context` are set, whether `g_backup_udp_once` is no longer -1, the recovery flag and
the record in flash. -/
structure NetApp where
  sockets : Sockets
  rcvThread : Bool
  udpContext : Option UdpContext
  backupUdpOnce : Bool
  reportMode : UInt32
  workMode : ℕ
  flag : RecoveryFlag
  nv : UdpContext

/-- The length of `remote_ip` in `net_infos_t`. -/
def remoteIpLen : ℕ := 40

/-- The entry of a slot; only the socket number of an entry without a UDP socket is written. -/
def saveEntry (ctx : Option SocketContext) (old : UdpContextFd) : UdpContextFd :=
  match ctx with
  | none => { old with socketIdx := noSocket }
  | some ctx =>
    if ctx.netType = 0 then { old with socketIdx := noSocket }
    else ⟨ctx.localPort, ctx.remotePort, ctx.remoteIp.take remoteIpLen, ctx.sockId, ctx.afType, ctx.recvCtl⟩

def clearStaleEntry (entry : UdpContextFd) : UdpContextFd :=
  if entry.localPort ≠ 0 ∧ entry.socketIdx = noSocket then { UdpContextFd.zero with socketIdx := noSocket } else entry

def isAllSocketExit (s : Sockets) : Bool := (List.finRange sockNum).all fun i => (s.sockCtx i).isNone

/-- The result is `CLOUD_SAVE_NEED_WRITE`, with the record to write, or `CLOUD_SAVE_NONEED_WRITE`. -/
def saveUdpContextDeepsleep (s : NetApp) : Option UdpContext × NetApp :=
  let old := s.udpContext.getD .zero
  let saved : UdpContext := ⟨fun i => saveEntry (s.sockets.sockCtx i) (old.udpSocket i), s.reportMode.toUInt8.toUInt32⟩
  if isAllSocketExit s.sockets then (none, { s with udpContext := some saved })
  else
    let saved : UdpContext := { saved with udpSocket := fun i => clearStaleEntry (saved.udpSocket i) }
    (some saved, { s with udpContext := some saved })

/-- The arguments are the results of `onenet_write_regInfo` and `cdp_write_regInfo`. -/
def saveNetAppInfos (onenetWrite cdpWrite : Bool) (s : NetApp) : NetApp :=
  let (saved, s) := saveUdpContextDeepsleep s
  let flag : RecoveryFlag :=
    ⟨s.flag.socket || saved.isSome, s.flag.onenet || onenetWrite, s.flag.cdp || cdpWrite⟩
  if flag = .clear then { s with flag } else { s with flag, nv := saved.getD s.nv }

/-- The first four bytes are those of erased flash. -/
def UdpContext.blank (u : UdpContext) : Bool :=
  (u.udpSocket ⟨0, sockNum_pos⟩).localPort = 65535 ∧ (u.udpSocket ⟨0, sockNum_pos⟩).remotePort = 65535

/-- The entry is of a socket that is to be restored. -/
def UdpContextFd.used (entry : UdpContextFd) : Bool := entry.socketIdx ≠ noSocket ∧ entry.localPort ≠ 0

/-- A restored socket. Its host is resolved again. -/
def restoredCtx (family : List UInt8 → UInt8) (fd : UInt8) (entry : UdpContextFd) : SocketContext :=
  { SocketContext.zero 0 with
    sockId := entry.socketIdx
    fd
    localPort := entry.localPort
    netType := 1
    afType := family entry.remoteIp
    recvCtl := entry.recvCtl
    remoteIp := entry.remoteIp
    remotePort := entry.remotePort
    accessmode := entry.recvCtl }

/-- A socket goes into the slot that is numbered like it. An assertion fails when there is no
such slot or it is not empty. -/
def restoreEntry (family : List UInt8 → UInt8) (fd : UInt8) (entry : UdpContextFd) (s : Sockets) : Option Sockets :=
  if entry.used then
    if h : entry.socketIdx.toNat < sockNum then
      if (s.sockCtx ⟨entry.socketIdx.toNat, h⟩).isSome then none
      else
        let ctx := restoredCtx family fd entry
        some (setSocketSequenceDefaultState entry.socketIdx
          { s with sockCtx := Function.update s.sockCtx ⟨entry.socketIdx.toNat, h⟩ (some ctx) })
    else none
  else some s

def restoreEntries (family : List UInt8 → UInt8) (fd : Fin sockNum → UInt8) (u : UdpContext) :
    List (Fin sockNum) → Sockets → Option Sockets
  | [], s => some s
  | i :: is, s => (restoreEntry family (fd i) (u.udpSocket i) s).bind (restoreEntries family fd u is)

def restoreUdpContextThread (family : List UInt8 → UInt8) (fd : Fin sockNum → UInt8) (s : NetApp) : Option NetApp :=
  match s.udpContext with
  | none => some s
  | some u =>
    if u.blank then some s
    else
      (restoreEntries family fd u (List.finRange sockNum) s.sockets).map fun sockets =>
        { s with
          sockets
          reportMode := if (List.finRange sockNum).any fun i => (u.udpSocket i).used then u.dataMode else s.reportMode
          rcvThread := s.rcvThread || !isAllSocketExit sockets }

def creatUdpBackupContext (family : List UInt8 → UInt8) (fd : Fin sockNum → UInt8) (s : NetApp) : Option NetApp :=
  if s.rcvThread ∨ s.udpContext.isNone then some s
  else if s.backupUdpOnce then some s
  else (restoreUdpContextThread family fd s).map fun s => { s with backupUdpOnce := true }

def resumeSocketApp (family : List UInt8 → UInt8) (fd : Fin sockNum → UInt8) (s : NetApp) : Option NetApp :=
  creatUdpBackupContext family fd { s with udpContext := some s.nv }

/-- `resume_net_app(SOCKET_TASK)`. -/
def resumeSocketTask (family : List UInt8 → UInt8) (fd : Fin sockNum → UInt8) (s : NetApp) : Option NetApp :=
  if s.workMode ≠ 0 ∨ s.flag.socket = false then some s
  else (resumeSocketApp family fd s).map fun s => { s with flag := { s.flag with socket := false } }

end NbiotXY1100.NetAppResume
