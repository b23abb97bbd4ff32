import NbiotXY1100.ByteBuffers
import NbiotXY1100.CStrings

/-! # The backup of a CDP registration

`cdp_bak_regInfo` and `cdp_resume_regInfo` of `cdp_backup_proc.c`, with `prv_findObserved` of the
client library. The connection to a server is a parameter, and allocation succeeds. -/
namespace NbiotXY1100.CdpBackup
open ByteBuffers CStrings

def observeMax : ℕ := 4

def watcherpMax : ℕ := 4

structure Uri where
  flag : UInt8
  objectId : UInt16
  instanceId : UInt16
  resourceId : UInt16
  deriving DecidableEq, Repr

def Uri.isSetInstance (uri : Uri) : Bool := uri.flag &&& 0x02 != 0

def Uri.isSetResource (uri : Uri) : Bool := uri.flag &&& 0x01 != 0

inductive MediaType where
  | contentText | contentLink | contentOpaque | contentTlvOld | contentTlv | contentJsonOld | contentJson
  deriving DecidableEq, Repr

/-- `lwm2m_watcher_t`; `server` is the `secObjInstID` of its server, `lastValue` the bits of the
union. -/
structure Watcher where
  active : Bool
  update : Bool
  server : Option UInt16
  format : MediaType
  token : List UInt8
  tokenLen : ℕ
  lastTime : UInt32
  counter : UInt32
  lastMid : UInt16
  lastValue : UInt64
  deriving DecidableEq, Repr

structure Observed where
  uri : Uri
  watcherList : List Watcher
  deriving DecidableEq, Repr

inductive ServerStatus where
  | deregistered | registered | other
  deriving DecidableEq, Repr

structure Server where
  secObjInstID : UInt16
  sessionH : Option ℕ
  status : ServerStatus
  registration : UInt32
  lifetime : UInt32
  location : List UInt8
  deriving DecidableEq, Repr

inductive ClientState where
  | initial | bootstrapRequired | bootstrapping | registerRequired | registering | ready
  deriving DecidableEq, Repr

/-- `lwm2m_context_t`; `bsState` is `bsCtrl.state`. -/
structure Context where
  state : ClientState
  bsState : ClientState
  endpointName : List UInt8
  nextMid : UInt16
  serverList : List Server
  observedList : List Observed
  deriving DecidableEq, Repr

structure BackupWatcher where
  active : Bool
  update : Bool
  format : MediaType
  token : List UInt8
  tokenLen : ℕ
  lastTime : UInt32
  counter : UInt32
  lastMid : UInt16
  lastValue : UInt64
  deriving DecidableEq, Repr

def BackupWatcher.zero : BackupWatcher := ⟨false, false, .contentText, List.replicate 8 0, 0, 0, 0, 0, 0⟩

structure BackupObserved where
  uri : Uri
  watherCount : ℕ
  watcherList : List BackupWatcher
  deriving DecidableEq, Repr

def BackupObserved.zero : BackupObserved := ⟨⟨0, 0, 0, 0⟩, 0, List.replicate watcherpMax .zero⟩

structure NetInfo where
  remotePort : UInt16
  remoteIp : List UInt8
  localPort : UInt16
  localIp : List UInt8
  deriving DecidableEq, Repr

structure RegInfo where
  netInfo : NetInfo
  resumeFlag : ℕ
  endpointname : List UInt8
  regtime : UInt32
  lifetime : UInt32
  locationLen : ℕ
  serverLocation : List UInt8
  observed : List BackupObserved
  observedCount : ℕ
  deriving DecidableEq, Repr

def RegInfo.zero : RegInfo where
  netInfo := ⟨0, [], 0, []⟩
  resumeFlag := 0
  endpointname := List.replicate 256 0
  regtime := 0
  lifetime := 0
  locationLen := 0
  serverLocation := List.replicate 64 0
  observed := List.replicate observeMax .zero
  observedCount := 0

/-! ### The backup -/

/-- One watcher into its place. The format is not among the fields that are copied. -/
def backupWatcher (watcher : Watcher) (old : BackupWatcher) : BackupWatcher :=
  { old with
    active := watcher.active
    update := watcher.update
    token := splice old.token 0 (watcher.token.take 8)
    tokenLen := watcher.tokenLen
    lastTime := watcher.lastTime
    counter := watcher.counter
    lastMid := watcher.lastMid
    lastValue := watcher.lastValue }

/-- The loop over one `watcherList`; `none` when the write goes past the array. -/
def bakWatchers : List Watcher → BackupObserved → Option BackupObserved
  | [], observed => some observed
  | watcher :: rest, observed =>
    if watcherpMax ≤ observed.watherCount then none
    else bakWatchers rest { observed with
      watcherList := observed.watcherList.modify observed.watherCount (backupWatcher watcher)
      watherCount := observed.watherCount + 1 }

def bakObserved : List Observed → RegInfo → Option RegInfo
  | [], info => some info
  | observed :: rest, info =>
    if observeMax ≤ info.observedCount then none
    else
      match bakWatchers observed.watcherList ⟨observed.uri, 0, List.replicate watcherpMax .zero⟩ with
      | none => none
      | some backup => bakObserved rest { info with
          observed := info.observed.set info.observedCount backup
          observedCount := info.observedCount + 1 }

/-- `cdp_bak_obsvInfo` without `cdpNextMid`. -/
def cdpBakObsvInfo (context : Context) (info : RegInfo) : Option RegInfo :=
  bakObserved context.observedList
    { info with observedCount := 0, observed := List.replicate observeMax .zero }

def cdpBakSvrInfo (net : NetInfo) (server : Server) (info : RegInfo) : RegInfo :=
  let num := min (server.location.length + 1) 63
  { info with
    netInfo := net
    regtime := server.registration
    lifetime := server.lifetime
    locationLen := num
    serverLocation := splice info.serverLocation 0 ((server.location ++ [0]).take num) }

/-- `pastArray` stands for a write past an array of the record, or one through `NULL`. -/
inductive BackupResult where
  | noneedWrite
  | pastArray
  | needWrite (info : RegInfo) (cdpNextMid : UInt16)
  deriving DecidableEq, Repr

def cdpBakRegInfo (net : NetInfo) : Option Context → BackupResult
  | none => .noneedWrite
  | some context =>
    if context.state ≠ .ready then .noneedWrite
    else if 256 < context.endpointName.length then .pastArray
    else
      let info := { RegInfo.zero with
        resumeFlag := 1
        endpointname := splice RegInfo.zero.endpointname 0 context.endpointName }
      match cdpBakObsvInfo context info, context.serverList with
      | some info, server :: _ => .needWrite (cdpBakSvrInfo net server info) context.nextMid
      | _, _ => .pastArray

/-! ### The resume -/

def sameUri (uri other : Uri) : Bool :=
  other.objectId == uri.objectId && other.flag == uri.flag &&
    (!uri.isSetInstance || other.instanceId == uri.instanceId) &&
    (!uri.isSetResource || other.resourceId == uri.resourceId)

def resumeLocation (info : RegInfo) : List UInt8 :=
  cString (info.serverLocation.take info.locationLen ++ [0])

/-- The loop over `serverList`; `none` when a connection fails. -/
def resumeServers (connect : UInt16 → Option ℕ) (info : RegInfo) : List Server → Option (List Server)
  | [] => some []
  | server :: rest =>
    match connect server.secObjInstID with
    | none => none
    | some sessionH => (resumeServers connect info rest).map fun rest =>
        { server with
          sessionH := some sessionH
          status := .registered
          registration := info.regtime
          lifetime := info.lifetime
          location := resumeLocation info } :: rest

/-- A new watcher, only if the list has none. -/
def resumeWatcher (server : Option UInt16) (watchers : List Watcher) (backup : BackupWatcher) : List Watcher :=
  if watchers = [] then
    [{ active := backup.active
       update := backup.update
       server := server
       format := backup.format
       token := splice (List.replicate 8 0) 0 (backup.token.take backup.tokenLen)
       tokenLen := backup.tokenLen
       lastTime := backup.lastTime
       counter := backup.counter
       lastMid := backup.lastMid
       lastValue := backup.lastValue }]
  else watchers

def resumeWatchers (server : Option UInt16) (backup : BackupObserved) (observed : Observed) : Observed :=
  { observed with
    watcherList := (backup.watcherList.take backup.watherCount).foldl (resumeWatcher server) observed.watcherList }

/-- `prv_findObserved`, the new entry if there is none, and the loop over its watchers. -/
def resumeObserved (server : Option UInt16) (list : List Observed) (backup : BackupObserved) : List Observed :=
  let list := if list.any (fun target => sameUri backup.uri target.uri) then list else ⟨backup.uri, []⟩ :: list
  list.modify (list.findIdx fun target => sameUri backup.uri target.uri) (resumeWatchers server backup)

/-- `cdp_resume_regInfo`; `none` is the result -1. -/
def cdpResumeRegInfo (connect : UInt16 → Option ℕ) (info : RegInfo) (cdpNextMid : UInt16) (context : Context) :
    Option Context :=
  (resumeServers connect info context.serverList).map fun serverList =>
    { context with
      state := .ready
      bsState := .initial
      nextMid := cdpNextMid
      serverList := serverList
      observedList := (info.observed.take info.observedCount).foldl
        (resumeObserved (serverList.head?.map (·.secObjInstID))) context.observedList }

end NbiotXY1100.CdpBackup
