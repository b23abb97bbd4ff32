import NbiotXY1100.ByteBuffers

/-! # The backup of a OneNET registration

`onenet_bak_allInfo` and `resume_onenet_context` of `onenet_backup_proc.c`, with the list functions
of the client library. A token is the eight bytes of the field. Which objects are standard objects
depends on the build. -/
namespace NbiotXY1100.OnenetBackup
open ByteBuffers

def observeBackupMax : ℕ := 8

def objectBackupMax : ℕ := 8

/-- `st_uri_t`. -/
structure Uri where
  flag : UInt8
  objectId : UInt16
  instanceId : UInt16
  resourceId : UInt16
  deriving DecidableEq, Repr

def Uri.zero : Uri := ⟨0, 0, 0, 0⟩

def Uri.isSetInstance (uri : Uri) : Bool := uri.flag &&& 0x02 != 0

def Uri.isSetResource (uri : Uri) : Bool := uri.flag &&& 0x01 != 0

inductive MediaType where
  | contentText | contentLink | contentOpaque | contentTlv | contentTlvNew | contentJson | contentJsonNew
  deriving DecidableEq, Repr

/-- `st_observed_t`. -/
structure Observed where
  msgid : UInt32
  uri : Uri
  actived : Bool
  token : List UInt8
  tokenLen : ℕ
  lastTime : UInt32
  counter : UInt32
  lastMid : UInt16
  format : MediaType
  deriving DecidableEq, Repr

/-- `st_object_t`. -/
structure CisObject where
  objID : UInt16
  instBitmapBytes : ℕ
  instBitmapCount : ℕ
  instBitmap : List UInt8
  instValidCount : ℕ
  attributeCount : UInt16
  actionCount : UInt16
  deriving DecidableEq, Repr

inductive PumpState where
  | halt | initial | bootstrapping | connecting | registerRequired | registering | ready | disconnected | unregister
  deriving DecidableEq, Repr

/-- `st_server_t`; `host` is the one of its session. -/
structure Server where
  host : List UInt8
  registration : UInt32
  location : List UInt8
  registered : Bool
  deriving DecidableEq, Repr

/-- `security_instance_dup_t`. -/
structure SecurityInstance where
  instanceId : UInt32
  host : List UInt8
  isBootstrap : Bool
  shortID : UInt16
  clientHoldOffTime : UInt32
  securityMode : UInt8
  deriving DecidableEq, Repr

/-- `st_context_t`; `isUser` is the result of `is_user_onenet_context`. -/
structure Context where
  isUser : Bool
  stateStep : PumpState
  registerEnabled : Bool
  endpointName : List UInt8
  server : Option Server
  serverPort : UInt16
  lifetime : UInt32
  nextMid : UInt16
  cloudPlatform : UInt8
  platformCommonType : UInt8
  objectList : List CisObject
  instSecurity : List SecurityInstance
  observedList : List Observed
  deriving DecidableEq, Repr

/-- `onenet_object_t`; the bitmap has room for 32 bytes. -/
structure BackupObject where
  objID : UInt16
  instBitmapBytes : ℕ
  instBitmapCount : ℕ
  instBitmap : List UInt8
  instValidCount : ℕ
  attributeCount : UInt16
  actionCount : UInt16
  deriving DecidableEq, Repr

def BackupObject.zero : BackupObject := ⟨0, 0, 0, List.replicate 32 0, 0, 0, 0⟩

/-- `onenet_observed_t`. -/
structure BackupObserved where
  uri : Uri
  msgid : UInt32
  tokenLen : ℕ
  token : List UInt8
  lastTime : UInt32
  counter : UInt32
  lastMid : UInt16
  format : MediaType
  deriving DecidableEq, Repr

def BackupObserved.zero : BackupObserved := ⟨.zero, 0, 0, List.replicate 8 0, 0, 0, 0, .contentText⟩

/-- `onenet_regInfo_t`, with the field `onenetNextMid` of the other store. Strings are without
their ends. -/
structure RegInfo where
  localPort : UInt16
  remotePort : UInt16
  remoteIp : List UInt8
  localIp : List UInt8
  ref : ℕ
  flag : ℕ
  endpointname : List UInt8
  location : List UInt8
  objectCount : ℕ
  objects : List BackupObject
  security : SecurityInstance
  observedCount : ℕ
  observed : List BackupObserved
  lastUpdateTime : UInt32
  lifeTime : UInt32
  cloudPlatform : UInt8
  platformCommonType : UInt8
  deriving DecidableEq, Repr

def RegInfo.zero : RegInfo where
  localPort := 0
  remotePort := 0
  remoteIp := []
  localIp := []
  ref := 0
  flag := 0
  endpointname := []
  location := []
  objectCount := 0
  objects := List.replicate objectBackupMax .zero
  security := ⟨0, [], false, 0, 0, 0⟩
  observedCount := 0
  observed := List.replicate observeBackupMax .zero
  lastUpdateTime := 0
  lifeTime := 0
  cloudPlatform := 0
  platformCommonType := 0

/-- The ports and the address that the backup takes from elsewhere. -/
structure NetInfo where
  localPort : UInt16
  remotePort : UInt16
  localIp : List UInt8
  deriving DecidableEq, Repr

variable (isStdObject : UInt16 → Bool)

/-! ### The backup -/

/-- One object into its place; the bitmap goes over what was there. -/
def backupObject (object : CisObject) (old : BackupObject) : BackupObject where
  objID := object.objID
  instBitmapBytes := object.instBitmapBytes
  instBitmapCount := object.instBitmapCount
  instBitmap := splice old.instBitmap 0 (object.instBitmap.take object.instBitmapBytes)
  instValidCount := object.instValidCount
  attributeCount := object.attributeCount
  actionCount := object.actionCount

/-- The loop over `objectList`; `none` when there is no place left. -/
def bakObjects : List CisObject → RegInfo → Option RegInfo
  | [], info => some info
  | object :: rest, info =>
    if isStdObject object.objID then bakObjects rest info
    else if objectBackupMax ≤ info.objectCount then none
    else bakObjects rest { info with
      objects := info.objects.modify info.objectCount (backupObject object)
      objectCount := info.objectCount + 1 }

/-- One observation into its place, if it is active. -/
def backupObserved (observed : Observed) (old : BackupObserved) : BackupObserved :=
  if observed.actived then
    { uri := observed.uri
      msgid := observed.msgid
      tokenLen := observed.tokenLen
      token := splice old.token 0 (observed.token.take observed.tokenLen)
      lastTime := observed.lastTime
      counter := observed.counter
      lastMid := observed.lastMid
      format := observed.format }
  else old

/-- The loop over `observedList`, which counts every entry. -/
def bakObserved : List Observed → RegInfo → Option RegInfo
  | [], info => some info
  | observed :: rest, info =>
    if observeBackupMax ≤ info.observedCount then none
    else bakObserved rest { info with
      observed := info.observed.modify info.observedCount (backupObserved observed)
      observedCount := info.observedCount + 1 }

/-- The first security instance that is no bootstrap server. -/
def bakSecurity (instances : List SecurityInstance) (info : RegInfo) : RegInfo :=
  match instances.find? (fun target => !target.isBootstrap) with
  | some target => { info with security := target }
  | none => info

/-- The result `CLOUD_SAVE_NEED_WRITE`, the record, and `onenetNextMid`. -/
structure BackupResult where
  needWrite : Bool
  info : RegInfo
  nextMid : UInt16
  deriving DecidableEq, Repr

/-- `onenet_bak_allInfo`. `old` is what the record holds before. -/
def onenetBakAllInfo (net : NetInfo) (old : RegInfo) (oldMid : UInt16) (context : Context) : BackupResult :=
  match context.server with
  | none => ⟨false, .zero, oldMid⟩
  | some server =>
    if context.isUser = false ∨ context.stateStep ≠ .ready ∨ context.endpointName = [] then ⟨false, .zero, oldMid⟩
    else
      let info := { old with
        endpointname := context.endpointName
        localPort := net.localPort
        remotePort := net.remotePort
        remoteIp := server.host
        localIp := net.localIp
        ref := 0
        lastUpdateTime := server.registration
        lifeTime := context.lifetime
        location := server.location
        objectCount := 0 }
      match bakObjects isStdObject context.objectList info with
      | none => ⟨false, .zero, context.nextMid⟩
      | some info =>
        let info := { bakSecurity context.instSecurity info with
          observedCount := 0
          observed := List.replicate observeBackupMax .zero }
        match bakObserved context.observedList info with
        | none => ⟨false, .zero, context.nextMid⟩
        | some info =>
          ⟨true, { info with
            flag := 1
            cloudPlatform := context.cloudPlatform
            platformCommonType := context.platformCommonType }, context.nextMid⟩

/-! ### The list functions of the client library -/

/-- The part of `cis_list_add` behind the head. -/
def insertAfter {α : Type*} (id : α → ℕ) (node : α) : List α → List α
  | [] => [node]
  | target :: rest => if id target < id node then target :: insertAfter id node rest else node :: target :: rest

/-- `cis_list_add`. -/
def cisListAdd {α : Type*} (id : α → ℕ) (node : α) : List α → List α
  | [] => [node]
  | head :: rest => if id node < id head then node :: head :: rest else head :: insertAfter id node rest

/-- `cis_list_find`. -/
def cisListFind {α : Type*} (id : α → ℕ) (n : ℕ) (list : List α) : Option α :=
  match list.dropWhile (fun node => id node < n) with
  | [] => none
  | node :: _ => if id node = n then some node else none

def objectCheckInstExisted (bitmap : List UInt8) (iid : ℕ) : Bool :=
  (bitmap.getD (iid / 8) 0 >>> UInt8.ofNat (7 - iid % 8)) &&& 0x01 != 0

/-- The loop that counts the instances. -/
def instValidCount (bitmap : List UInt8) (count : ℕ) : ℕ := (List.range count).countP (objectCheckInstExisted bitmap)

/-- `cis_addobject` with a bitmap; without the checks on memory. -/
def cisAddobject (objID : UInt16) (instanceCount instanceBytes : ℕ) (bitmap : List UInt8)
    (attrCount actCount : UInt16) (context : Context) : Context :=
  if instanceBytes = 0 ∨ instanceCount = 0 ∨ instanceBytes ≠ (instanceCount - 1) / 8 + 1 then context
  else if (cisListFind (fun object => object.objID.toNat) objID.toNat context.objectList).isSome then context
  else if instValidCount (bitmap.take instanceBytes) instanceCount = 0 then context
  else { context with
    objectList := cisListAdd (fun object => object.objID.toNat)
      { objID := objID
        instBitmapBytes := instanceBytes
        instBitmapCount := instanceCount
        instBitmap := bitmap.take instanceBytes
        instValidCount := instValidCount (bitmap.take instanceBytes) instanceCount
        attributeCount := attrCount
        actionCount := actCount } context.objectList }

/-- The condition of `prv_findObserved`. -/
def sameUri (uri other : Uri) : Bool :=
  other.objectId == uri.objectId &&
    ((!uri.isSetInstance && !other.isSetInstance) ||
      (uri.isSetInstance && other.isSetInstance && uri.instanceId == other.instanceId)) &&
    ((uri.isSetResource && other.isSetResource && uri.resourceId == other.resourceId) ||
      (!uri.isSetResource && !other.isSetResource))

/-- The entry of `prv_getObserved` for a URI that has none. -/
def newObserved (uri : Uri) : Observed := ⟨0, uri, false, List.replicate 8 0, 0, 0, 0, 0, .contentText⟩

/-- `prv_getObserved` and what is done with the entry. -/
def modifyObserved (uri : Uri) (f : Observed → Observed) (list : List Observed) : List Observed :=
  let list :=
    if list.any (fun target => sameUri uri target.uri) then list
    else cisListAdd (fun target => target.msgid.toNat) (newObserved uri) list
  list.modify (list.findIdx fun target => sameUri uri target.uri) f

/-! ### The resume -/

def resumeObserved (backup : BackupObserved) (observed : Observed) : Observed :=
  { observed with
    actived := true
    msgid := backup.msgid
    tokenLen := backup.tokenLen
    token := splice observed.token 0 (backup.token.take backup.tokenLen)
    lastTime := backup.lastTime
    counter := backup.counter
    lastMid := backup.lastMid
    format := backup.format }

def resumeObject (backup : BackupObject) (context : Context) : Context :=
  cisAddobject backup.objID backup.instBitmapCount backup.instBitmapBytes backup.instBitmap
    backup.attributeCount backup.actionCount context

def resumeSecurity (security : SecurityInstance) (instances : List SecurityInstance) : List SecurityInstance :=
  instances.modify (instances.findIdx fun target => target.instanceId == security.instanceId) fun _ => security

/-- `resume_onenet_context`. -/
def resumeOnenetContext (info : RegInfo) (nextMid : UInt16) (context : Context) : Context :=
  let context := { context with
    cloudPlatform := info.cloudPlatform
    platformCommonType := info.platformCommonType
    lifetime := info.lifeTime }
  let context := (info.objects.take info.objectCount).foldl (fun context backup => resumeObject backup context) context
  { context with
    instSecurity := resumeSecurity info.security context.instSecurity
    server := some ⟨info.remoteIp, info.lastUpdateTime, info.location, true⟩
    serverPort := info.remotePort
    nextMid := nextMid
    observedList := (info.observed.take info.observedCount).foldl
      (fun list backup => modifyObserved backup.uri (resumeObserved backup) list) context.observedList
    stateStep := .ready
    registerEnabled := true }

end NbiotXY1100.OnenetBackup
