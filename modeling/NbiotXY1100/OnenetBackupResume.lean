import NbiotXY1100.ArrayPlaces
import NbiotXY1100.OnenetBackup

/-! # What a OneNET registration is after backup and resume

The objects always come back. The observations come back exactly when all of them are active: the
backup counts an inactive one, and the resume takes its empty place for an observation of `/0`. -/
namespace NbiotXY1100.OnenetBackup
open ByteBuffers ArrayPlaces

/-! ### Lists of the client library -/

theorem insertAfter_split {α : Type*} (id : α → ℕ) (node : α) (list : List α) :
    ∃ l r, list = l ++ r ∧ insertAfter id node list = l ++ node :: r := by
  induction list with
  | nil => exact ⟨[], [], rfl, rfl⟩
  | cons target rest ih =>
    rw [insertAfter]
    split
    · obtain ⟨l, r, hlist, hinsert⟩ := ih
      exact ⟨target :: l, r, by rw [hlist]; rfl, by rw [hinsert]; rfl⟩
    · exact ⟨[], target :: rest, rfl, rfl⟩

theorem cisListAdd_split {α : Type*} (id : α → ℕ) (node : α) (list : List α) :
    ∃ l r, list = l ++ r ∧ cisListAdd id node list = l ++ node :: r := by
  cases list with
  | nil => exact ⟨[], [], rfl, rfl⟩
  | cons head rest =>
    rw [cisListAdd]
    split
    · exact ⟨[], head :: rest, rfl, rfl⟩
    · obtain ⟨l, r, hlist, hinsert⟩ := insertAfter_split id node rest
      exact ⟨head :: l, r, by rw [hlist]; rfl, by rw [hinsert]; rfl⟩

theorem mem_cisListAdd {α : Type*} {id : α → ℕ} {node x : α} {list : List α} :
    x ∈ cisListAdd id node list ↔ x = node ∨ x ∈ list := by
  obtain ⟨l, r, hlist, hadd⟩ := cisListAdd_split id node list
  rw [hadd, hlist, List.mem_append, List.mem_cons, List.mem_append]
  tauto

theorem cisListFind_eq_none {α : Type*} {id : α → ℕ} {n : ℕ} {list : List α} (h : ∀ x ∈ list, id x ≠ n) :
    cisListFind id n list = none := by
  rw [cisListFind]
  split
  · rfl
  · next node rest hdrop =>
    have hmem : node ∈ list := (List.dropWhile_sublist _).subset (hdrop ▸ List.mem_cons_self ..)
    exact if_neg (h node hmem)

/-! ### The loops of the backup -/

variable {isStdObject : UInt16 → Bool}

def ownObjects (isStdObject : UInt16 → Bool) (list : List CisObject) : List CisObject :=
  list.filter fun object => !isStdObject object.objID

theorem bakObjects_some (list : List CisObject) {info : RegInfo} {done old : List BackupObject}
    (hobjects : info.objects = done ++ old) (hcount : info.objectCount = done.length)
    (hall : done.length + old.length = objectBackupMax) (hroom : (ownObjects isStdObject list).length ≤ old.length) :
    bakObjects isStdObject list info = some { info with
      objects := done ++ (List.zipWith backupObject (ownObjects isStdObject list) old ++
        old.drop (ownObjects isStdObject list).length)
      objectCount := done.length + (ownObjects isStdObject list).length } := by
  induction list generalizing info done old with
  | nil =>
    simp only [ownObjects, List.filter_nil, List.zipWith_nil_left, List.nil_append, List.length_nil, List.drop_zero,
      Nat.add_zero, ← hobjects, ← hcount]
    rfl
  | cons object list ih =>
    cases hstd : isStdObject object.objID with
    | true =>
      have hown : ownObjects isStdObject (object :: list) = ownObjects isStdObject list := by simp [ownObjects, hstd]
      rw [hown] at hroom ⊢
      rw [bakObjects, if_pos hstd]
      exact ih hobjects hcount hall hroom
    | false =>
      have hown : ownObjects isStdObject (object :: list) = object :: ownObjects isStdObject list := by
        simp [ownObjects, hstd]
      rw [hown, List.length_cons] at hroom
      obtain ⟨place, old, rfl⟩ : ∃ b o, old = b :: o := List.exists_cons_of_length_pos (by omega)
      rw [List.length_cons] at hall hroom
      have hnot : ¬ isStdObject object.objID = true := by simp [hstd]
      have hplace : ¬ objectBackupMax ≤ info.objectCount := by omega
      have hmodify : info.objects.modify info.objectCount (backupObject object) =
          done ++ [backupObject object place] ++ old := by
        rw [hobjects, hcount, modify_append, List.append_assoc]
        rfl
      have hdone : (done ++ [backupObject object place]).length = done.length + 1 := by simp
      rw [bakObjects, if_neg hnot, if_neg hplace, ih hmodify (by rw [hdone, ← hcount]) (by omega) (by omega), hown]
      simp only [hdone, List.length_cons, List.zipWith_cons_cons, List.drop_succ_cons, List.append_assoc,
        List.cons_append, List.nil_append, Nat.add_assoc, Nat.add_comm 1]

theorem bakObjects_none (list : List CisObject) {info : RegInfo}
    (hfull : objectBackupMax < info.objectCount + (ownObjects isStdObject list).length)
    (hcount : info.objectCount ≤ objectBackupMax) : bakObjects isStdObject list info = none := by
  induction list generalizing info with
  | nil =>
    simp only [ownObjects, List.filter_nil, List.length_nil] at hfull
    omega
  | cons object list ih =>
    cases hstd : isStdObject object.objID with
    | true =>
      have hown : ownObjects isStdObject (object :: list) = ownObjects isStdObject list := by simp [ownObjects, hstd]
      rw [hown] at hfull
      rw [bakObjects, if_pos hstd]
      exact ih hfull hcount
    | false =>
      have hown : ownObjects isStdObject (object :: list) = object :: ownObjects isStdObject list := by
        simp [ownObjects, hstd]
      rw [hown, List.length_cons] at hfull
      have hnot : ¬ isStdObject object.objID = true := by simp [hstd]
      rw [bakObjects, if_neg hnot]
      split
      · rfl
      · next hplace => exact ih (by simp only; omega) (by simp only; omega)

theorem bakObserved_some (list : List Observed) {info : RegInfo} {done : List BackupObserved} {k : ℕ}
    (hobserved : info.observed = done ++ List.replicate k .zero) (hcount : info.observedCount = done.length)
    (hall : done.length + k = observeBackupMax) (hroom : list.length ≤ k) :
    bakObserved list info = some { info with
      observed := done ++ (list.map (backupObserved · .zero) ++ List.replicate (k - list.length) .zero)
      observedCount := done.length + list.length } := by
  induction list generalizing info done k with
  | nil =>
    simp only [List.map_nil, List.nil_append, List.length_nil, Nat.sub_zero, Nat.add_zero, ← hobserved, ← hcount]
    rfl
  | cons observed list ih =>
    rw [List.length_cons] at hroom
    obtain ⟨k, rfl⟩ : ∃ m, k = m + 1 := ⟨k - 1, by omega⟩
    have hplace : ¬ observeBackupMax ≤ info.observedCount := by omega
    have hmodify : info.observed.modify info.observedCount (backupObserved observed) =
        done ++ [backupObserved observed .zero] ++ List.replicate k .zero := by
      rw [hobserved, hcount, List.replicate_succ, modify_append, List.append_assoc]
      rfl
    have hdone : (done ++ [backupObserved observed .zero]).length = done.length + 1 := by simp
    rw [bakObserved, if_neg hplace, ih hmodify (by simp only; omega) (by omega) (by omega)]
    simp only [hdone, List.length_cons, List.map_cons, List.append_assoc, List.cons_append, List.nil_append,
      Nat.add_assoc, Nat.add_comm 1, Nat.add_sub_add_right]

theorem bakObserved_none (list : List Observed) {info : RegInfo}
    (hfull : observeBackupMax < info.observedCount + list.length) (hcount : info.observedCount ≤ observeBackupMax) :
    bakObserved list info = none := by
  induction list generalizing info with
  | nil =>
    rw [List.length_nil] at hfull
    omega
  | cons observed list ih =>
    rw [List.length_cons] at hfull
    rw [bakObserved]
    split
    · rfl
    · next hplace => exact ih (by simp only; omega) (by simp only; omega)

/-! ### What has to come back -/

/-- An observation without its place in the list. -/
structure ObservedView where
  uri : Uri
  msgid : UInt32
  token : List UInt8
  lastTime : UInt32
  counter : UInt32
  lastMid : UInt16
  format : MediaType
  deriving DecidableEq, Repr

def viewObserved (observed : Observed) : ObservedView where
  uri := observed.uri
  msgid := observed.msgid
  token := observed.token.take observed.tokenLen
  lastTime := observed.lastTime
  counter := observed.counter
  lastMid := observed.lastMid
  format := observed.format

structure ObjectView where
  objID : UInt16
  instBitmapBytes : ℕ
  instBitmapCount : ℕ
  instBitmap : List UInt8
  attributeCount : UInt16
  actionCount : UInt16
  deriving DecidableEq, Repr

def viewObject (object : CisObject) : ObjectView where
  objID := object.objID
  instBitmapBytes := object.instBitmapBytes
  instBitmapCount := object.instBitmapCount
  instBitmap := object.instBitmap.take object.instBitmapBytes
  attributeCount := object.attributeCount
  actionCount := object.actionCount

def ActiveView (context : Context) (v : ObservedView) : Prop :=
  ∃ observed ∈ context.observedList, observed.actived = true ∧ viewObserved observed = v

def OwnView (isStdObject : UInt16 → Bool) (context : Context) (v : ObjectView) : Prop :=
  ∃ object ∈ context.objectList, isStdObject object.objID = false ∧ viewObject object = v

/-- `cis_addobject` takes the object. -/
structure Addable (object : CisObject) : Prop where
  bytesPos : object.instBitmapBytes ≠ 0
  countPos : object.instBitmapCount ≠ 0
  bytes : object.instBitmapBytes = (object.instBitmapCount - 1) / 8 + 1
  valid : instValidCount (object.instBitmap.take object.instBitmapBytes) object.instBitmapCount ≠ 0

/-- What the client library keeps of a registered context, with strings and bitmaps that fit the
record. An observation of the security object is refused by `management_handleRequest`. -/
structure Registered (isStdObject : UInt16 → Bool) (context : Context) : Prop where
  user : context.isUser = true
  ready : context.stateStep = .ready
  endpointName : context.endpointName ≠ []
  server : ∃ server, context.server = some server ∧ server.location.length < 24
  token : ∀ observed ∈ context.observedList, observed.token.length = 8 ∧ observed.tokenLen ≤ 8
  uris : context.observedList.Pairwise fun a b => sameUri b.uri a.uri = false
  notSecurity : ∀ observed ∈ context.observedList, observed.uri.objectId ≠ 0
  ids : context.objectList.Pairwise fun a b => a.objID ≠ b.objID
  objects : ∀ object ∈ context.objectList, isStdObject object.objID = false →
    object.instBitmap.length = object.instBitmapBytes ∧ object.instBitmapBytes ≤ 32 ∧ Addable object

/-- A context of a fresh start has its standard objects only. -/
structure Fresh (isStdObject : UInt16 → Bool) (context : Context) : Prop where
  observedList : context.observedList = []
  objects : ∀ object ∈ context.objectList, isStdObject object.objID = true

/-- A record of any content. -/
structure RecordShape (info : RegInfo) : Prop where
  objects : info.objects.length = objectBackupMax
  bitmap : ∀ object ∈ info.objects, object.instBitmap.length = 32

/-- Too many objects or observations. -/
def LimitExceeded (isStdObject : UInt16 → Bool) (context : Context) : Prop :=
  objectBackupMax < (ownObjects isStdObject context.objectList).length ∨
    observeBackupMax < context.observedList.length

/-! ### The observations -/

theorem backupObserved_inactive {observed : Observed} (h : observed.actived = false) :
    backupObserved observed .zero = .zero := by
  rw [backupObserved, if_neg (by simp [h])]

/-- The entry that comes back for an active observation. -/
def resumedObserved (observed : Observed) : Observed :=
  resumeObserved (backupObserved observed .zero) (newObserved observed.uri)

theorem viewObserved_resumedObserved {observed : Observed} (h : observed.actived = true)
    (htoken : observed.token.length = 8) (hlen : observed.tokenLen ≤ 8) :
    viewObserved (resumedObserved observed) = viewObserved observed := by
  rw [← htoken] at hlen
  simp only [viewObserved, resumedObserved, resumeObserved, backupObserved, h, if_true, newObserved,
    splice_zero_take hlen]

/-- An entry for a URI that has none is new. -/
theorem mem_modifyObserved_new {uri : Uri} {list : List Observed} (f : Observed → Observed)
    (hnew : ∀ target ∈ list, sameUri uri target.uri = false) (hsame : sameUri uri uri = true) {x : Observed} :
    x ∈ modifyObserved uri f list ↔ x = f (newObserved uri) ∨ x ∈ list := by
  have hany : ¬ (list.any fun target => sameUri uri target.uri) = true := by simpa using hnew
  obtain ⟨l, r, rfl, hadd⟩ := cisListAdd_split (fun target : Observed => target.msgid.toNat) (newObserved uri) list
  have hl : ∀ target ∈ l, sameUri uri target.uri = false := fun target h => hnew target (List.mem_append_left _ h)
  simp only [modifyObserved, if_neg hany, hadd]
  rw [@modify_findIdx _ (fun target : Observed => sameUri uri target.uri) l hl (newObserved uri) hsame r f]
  simp only [List.mem_append, List.mem_cons]
  tauto

theorem sameUri_self (uri : Uri) : sameUri uri uri = true := by
  simp only [sameUri]
  cases uri.isSetInstance <;> cases uri.isSetResource <;> simp

theorem mem_resume_active (list : List Observed) {acc : List Observed} (hactive : ∀ o ∈ list, o.actived = true)
    (huris : list.Pairwise fun a b => sameUri b.uri a.uri = false)
    (hacc : ∀ o ∈ list, ∀ target ∈ acc, sameUri o.uri target.uri = false) {x : Observed} :
    x ∈ (list.map (backupObserved · .zero)).foldl
        (fun list backup => modifyObserved backup.uri (resumeObserved backup) list) acc ↔
      (∃ o ∈ list, x = resumedObserved o) ∨ x ∈ acc := by
  induction list generalizing acc with
  | nil => simp
  | cons o list ih =>
    have hone := hactive o (List.mem_cons_self ..)
    have huri : (backupObserved o .zero).uri = o.uri := by simp only [backupObserved, hone, if_true]
    obtain ⟨hfirst, hrest⟩ := List.pairwise_cons.mp huris
    have hmem : ∀ y, y ∈ modifyObserved o.uri (resumeObserved (backupObserved o .zero)) acc ↔
        y = resumedObserved o ∨ y ∈ acc :=
      fun y => mem_modifyObserved_new _ (hacc o (List.mem_cons_self ..)) (sameUri_self o.uri)
    have hnext : ∀ o' ∈ list, ∀ target ∈ modifyObserved o.uri (resumeObserved (backupObserved o .zero)) acc,
        sameUri o'.uri target.uri = false := by
      intro o' ho' target htarget
      obtain rfl | htarget := (hmem target).mp htarget
      · exact hfirst o' ho'
      · exact hacc o' (List.mem_cons_of_mem _ ho') target htarget
    rw [List.map_cons, List.foldl_cons, huri,
      ih (fun o' h => hactive o' (List.mem_cons_of_mem _ h)) hrest hnext, hmem, List.exists_mem_cons_iff, or_left_comm,
      or_assoc]

/-! ### The place of an inactive observation -/

/-- There is an active observation of the security object. -/
def HasSecurity (list : List Observed) : Prop := ∃ target ∈ list, target.uri.objectId = 0 ∧ target.actived = true

theorem HasSecurity.modifyObserved {list : List Observed} (h : HasSecurity list) (uri : Uri) (backup : BackupObserved) :
    HasSecurity (modifyObserved uri (resumeObserved backup) list) := by
  obtain ⟨target, hmem, hid, hactive⟩ := h
  have hmem' : target ∈ if list.any (fun target => sameUri uri target.uri) then list
      else cisListAdd (fun target => target.msgid.toNat) (newObserved uri) list := by
    split
    · exact hmem
    · exact mem_cisListAdd.mpr (.inr hmem)
  obtain h | h := mem_modify hmem' _ (resumeObserved backup)
  · exact ⟨target, h, hid, hactive⟩
  · exact ⟨_, h, hid, rfl⟩

/-- The empty place makes one. -/
theorem hasSecurity_modifyObserved_zero (list : List Observed) (backup : BackupObserved) :
    HasSecurity (OnenetBackup.modifyObserved .zero (resumeObserved backup) list) := by
  by_cases hany : (list.any fun target => sameUri .zero target.uri) = true
  · obtain ⟨l, y, r, rfl, hl, hy⟩ := exists_first hany
    simp only [OnenetBackup.modifyObserved, if_pos hany]
    rw [@modify_findIdx _ (fun target : Observed => sameUri .zero target.uri) l hl y hy r]
    refine ⟨resumeObserved backup y, by simp, ?_, rfl⟩
    have hid : y.uri.objectId == Uri.zero.objectId := by
      simp only [sameUri, Bool.and_eq_true] at hy
      exact hy.1.1
    exact eq_of_beq hid
  · have hnew : ∀ target ∈ list, sameUri .zero target.uri = false := by simpa using hany
    exact ⟨_, (mem_modifyObserved_new _ hnew (sameUri_self .zero)).mpr (.inl rfl), rfl, rfl⟩

theorem hasSecurity_resume_inactive (list : List Observed) {acc : List Observed}
    (h : HasSecurity acc ∨ ∃ o ∈ list, o.actived = false) :
    HasSecurity ((list.map (backupObserved · .zero)).foldl
      (fun list backup => OnenetBackup.modifyObserved backup.uri (resumeObserved backup) list) acc) := by
  induction list generalizing acc with
  | nil => exact h.resolve_right (by simp)
  | cons o list ih =>
    rw [List.map_cons, List.foldl_cons]
    apply ih
    obtain h | ⟨o', ho', hinactive⟩ := h
    · exact .inl (h.modifyObserved _ _)
    · obtain rfl | ho' := List.mem_cons.mp ho'
      · rw [backupObserved_inactive hinactive]
        exact .inl (hasSecurity_modifyObserved_zero acc _)
      · exact .inr ⟨o', ho', hinactive⟩

/-! ### The objects -/

/-- The object that comes back. -/
def resumedObject (object : CisObject) : CisObject :=
  { object with
    instBitmap := object.instBitmap.take object.instBitmapBytes
    instValidCount := instValidCount (object.instBitmap.take object.instBitmapBytes) object.instBitmapCount }

theorem viewObject_resumedObject (object : CisObject) : viewObject (resumedObject object) = viewObject object := by
  simp only [viewObject, resumedObject, List.take_take, Nat.min_self]

theorem mem_resumeObject {object : CisObject} (hlen : object.instBitmap.length = object.instBitmapBytes)
    (hadd : Addable object) (old : BackupObject) {context : Context}
    (hnew : ∀ x ∈ context.objectList, x.objID ≠ object.objID) {x : CisObject} :
    x ∈ (resumeObject (backupObject object old) context).objectList ↔
      x = resumedObject object ∨ x ∈ context.objectList := by
  have hbytes : ¬ (object.instBitmapBytes = 0 ∨ object.instBitmapCount = 0 ∨
      object.instBitmapBytes ≠ (object.instBitmapCount - 1) / 8 + 1) := by
    have := hadd.bytes
    have := hadd.bytesPos
    have := hadd.countPos
    omega
  have hfind : cisListFind (fun object => object.objID.toNat) object.objID.toNat context.objectList = none :=
    cisListFind_eq_none fun x hx heq => hnew x hx (UInt16.toNat_inj.mp heq)
  have hnone : ¬ (cisListFind (fun object => object.objID.toNat) object.objID.toNat context.objectList).isSome := by
    simp [hfind]
  have hlen' : object.instBitmapBytes ≤ object.instBitmap.length := Nat.le_of_eq hlen.symm
  simp only [resumeObject, backupObject, cisAddobject, splice_zero_take hlen']
  rw [if_neg hbytes, if_neg hnone, if_neg hadd.valid]
  show x ∈ cisListAdd (fun object : CisObject => object.objID.toNat) (resumedObject object) context.objectList ↔ _
  exact mem_cisListAdd

theorem mem_resumeObjects (objects : List CisObject) {old : List BackupObject} (hold : objects.length ≤ old.length)
    (hlen : ∀ o ∈ objects, o.instBitmap.length = o.instBitmapBytes) (hadd : ∀ o ∈ objects, Addable o)
    (hids : objects.Pairwise fun a b => a.objID ≠ b.objID) {context : Context}
    (hnew : ∀ o ∈ objects, ∀ x ∈ context.objectList, x.objID ≠ o.objID) {x : CisObject} :
    x ∈ ((List.zipWith backupObject objects old).foldl (fun context backup => resumeObject backup context)
        context).objectList ↔
      (∃ o ∈ objects, x = resumedObject o) ∨ x ∈ context.objectList := by
  induction objects generalizing old context with
  | nil => simp
  | cons o objects ih =>
    obtain ⟨place, old, rfl⟩ : ∃ b l, old = b :: l := List.exists_cons_of_length_pos (Nat.lt_of_lt_of_le (by simp) hold)
    obtain ⟨hfirst, hrest⟩ := List.pairwise_cons.mp hids
    have hmem : ∀ y, y ∈ (resumeObject (backupObject o place) context).objectList ↔
        y = resumedObject o ∨ y ∈ context.objectList := fun y =>
      mem_resumeObject (hlen o (List.mem_cons_self ..)) (hadd o (List.mem_cons_self ..)) place
        (hnew o (List.mem_cons_self ..))
    have hnext : ∀ o' ∈ objects, ∀ x ∈ (resumeObject (backupObject o place) context).objectList,
        x.objID ≠ o'.objID := by
      intro o' ho' y hy
      obtain rfl | hy := (hmem y).mp hy
      · exact hfirst o' ho'
      · exact hnew o' (List.mem_cons_of_mem _ ho') y hy
    rw [List.zipWith_cons_cons, List.foldl_cons,
      ih (Nat.le_of_succ_le_succ hold) (fun o' h => hlen o' (List.mem_cons_of_mem _ h))
        (fun o' h => hadd o' (List.mem_cons_of_mem _ h)) hrest hnext,
      hmem, List.exists_mem_cons_iff, or_left_comm, or_assoc]

theorem resumeObject_observedList (backup : BackupObject) (context : Context) :
    (resumeObject backup context).observedList = context.observedList := by
  simp only [resumeObject, cisAddobject]
  split
  · rfl
  · split
    · rfl
    · split <;> rfl

theorem resumeObjects_observedList (backups : List BackupObject) (context : Context) :
    (backups.foldl (fun context backup => resumeObject backup context) context).observedList =
      context.observedList := by
  induction backups generalizing context with
  | nil => rfl
  | cons backup backups ih => exact (ih _).trans (resumeObject_observedList backup context)

/-! ### Backup and resume -/

/-- The active observations and the own objects are those of the first context. -/
def Lossless (isStdObject : UInt16 → Bool) (context resumed : Context) : Prop :=
  (∀ v, ActiveView resumed v ↔ ActiveView context v) ∧
    ∀ v, OwnView isStdObject resumed v ↔ OwnView isStdObject context v

/-- Within the limits the record is to be written, and the resume of a fresh context gives back what
there was. Beyond them nothing is written, and the record is empty. -/
def BackupKept (isStdObject : UInt16 → Bool) (net : NetInfo) (old : RegInfo) (oldMid : UInt16)
    (context fresh : Context) : Prop :=
  let r := onenetBakAllInfo isStdObject net old oldMid context
  (¬ LimitExceeded isStdObject context →
    r.needWrite = true ∧ Lossless isStdObject context (resumeOnenetContext r.info r.nextMid fresh)) ∧
  (LimitExceeded isStdObject context → r.needWrite = false ∧ r.info = .zero)

theorem bakObjects_start {info : RegInfo} (hshape : RecordShape info) (hcount : info.objectCount = 0)
    (list : List CisObject) (hroom : (ownObjects isStdObject list).length ≤ objectBackupMax) :
    bakObjects isStdObject list info = some { info with
      objects := List.zipWith backupObject (ownObjects isStdObject list) info.objects ++
        info.objects.drop (ownObjects isStdObject list).length
      objectCount := (ownObjects isStdObject list).length } := by
  have h := @bakObjects_some isStdObject list info [] info.objects rfl hcount
    ((Nat.zero_add _).trans hshape.objects) (hshape.objects ▸ hroom)
  simpa only [List.nil_append, List.length_nil, Nat.zero_add] using h

theorem bakObserved_start {info : RegInfo} (hobserved : info.observed = List.replicate observeBackupMax .zero)
    (hcount : info.observedCount = 0) (list : List Observed) (hroom : list.length ≤ observeBackupMax) :
    bakObserved list info = some { info with
      observed := list.map (backupObserved · .zero) ++ List.replicate (observeBackupMax - list.length) .zero
      observedCount := list.length } := by
  have h := @bakObserved_some list info [] observeBackupMax hobserved hcount (Nat.zero_add _) hroom
  simpa only [List.nil_append, List.length_nil, Nat.zero_add] using h

@[simp] theorem bakSecurity_objects (instances : List SecurityInstance) (info : RegInfo) :
    (bakSecurity instances info).objects = info.objects := by
  rw [bakSecurity]
  split <;> rfl

@[simp] theorem bakSecurity_objectCount (instances : List SecurityInstance) (info : RegInfo) :
    (bakSecurity instances info).objectCount = info.objectCount := by
  rw [bakSecurity]
  split <;> rfl

/-- What the record holds after a backup within the limits. -/
theorem onenetBakAllInfo_within (net : NetInfo) {old : RegInfo} (oldMid : UInt16) {context : Context}
    (hctx : Registered isStdObject context) (hold : RecordShape old) (h : ¬ LimitExceeded isStdObject context) :
    ∃ info, onenetBakAllInfo isStdObject net old oldMid context = ⟨true, info, context.nextMid⟩ ∧
      info.objects.take info.objectCount =
        List.zipWith backupObject (ownObjects isStdObject context.objectList) old.objects ∧
      info.observed.take info.observedCount = context.observedList.map (backupObserved · .zero) := by
  rw [LimitExceeded, not_or, Nat.not_lt, Nat.not_lt] at h
  obtain ⟨server, hserver, -⟩ := hctx.server
  have hguard : ¬ (context.isUser = false ∨ context.stateStep ≠ .ready ∨ context.endpointName = []) := by
    simp [hctx.user, hctx.ready, hctx.endpointName]
  simp only [onenetBakAllInfo, hserver]
  rw [if_neg hguard, bakObjects_start (by exact ⟨hold.objects, hold.bitmap⟩) rfl _ h.1]
  simp only
  rw [bakObserved_start rfl rfl _ h.2]
  refine ⟨_, rfl, ?_, ?_⟩
  · simp only [bakSecurity_objects, bakSecurity_objectCount]
    apply List.take_left'
    rw [List.length_zipWith, hold.objects, Nat.min_eq_left h.1]
  · exact List.take_left' (List.length_map _)

theorem onenetBakAllInfo_exceeded (net : NetInfo) {old : RegInfo} (oldMid : UInt16) {context : Context}
    (hctx : Registered isStdObject context) (hold : RecordShape old) (h : LimitExceeded isStdObject context) :
    onenetBakAllInfo isStdObject net old oldMid context = ⟨false, .zero, context.nextMid⟩ := by
  obtain ⟨server, hserver, -⟩ := hctx.server
  have hguard : ¬ (context.isUser = false ∨ context.stateStep ≠ .ready ∨ context.endpointName = []) := by
    simp [hctx.user, hctx.ready, hctx.endpointName]
  simp only [onenetBakAllInfo, hserver]
  rw [if_neg hguard]
  by_cases hobjects : objectBackupMax < (ownObjects isStdObject context.objectList).length
  · rw [bakObjects_none _ (by simpa using hobjects) (Nat.zero_le _)]
  · have hobserved := h.resolve_left hobjects
    rw [bakObjects_start (by exact ⟨hold.objects, hold.bitmap⟩) rfl _ (Nat.not_lt.mp hobjects)]
    simp only
    rw [bakObserved_none _ (by simpa using hobserved) (Nat.zero_le _)]

/-! ### The result -/

theorem mem_ownObjects {context : Context} {object : CisObject} :
    object ∈ ownObjects isStdObject context.objectList ↔
      object ∈ context.objectList ∧ isStdObject object.objID = false := by
  simp [ownObjects]

theorem ownView_resumed {info : RegInfo} {nextMid : UInt16} {context fresh : Context} {old : List BackupObject}
    (hctx : Registered isStdObject context) (hfresh : Fresh isStdObject fresh)
    (hold : (ownObjects isStdObject context.objectList).length ≤ old.length)
    (hinfo : info.objects.take info.objectCount = List.zipWith backupObject (ownObjects isStdObject context.objectList) old)
    (v : ObjectView) :
    OwnView isStdObject (resumeOnenetContext info nextMid fresh) v ↔ OwnView isStdObject context v := by
  have hown : ∀ o ∈ ownObjects isStdObject context.objectList, isStdObject o.objID = false := fun o ho =>
    (mem_ownObjects.mp ho).2
  have hobject : ∀ o ∈ ownObjects isStdObject context.objectList,
      o.instBitmap.length = o.instBitmapBytes ∧ o.instBitmapBytes ≤ 32 ∧ Addable o := fun o ho =>
    hctx.objects o (mem_ownObjects.mp ho).1 (mem_ownObjects.mp ho).2
  have hmem : ∀ x, x ∈ (resumeOnenetContext info nextMid fresh).objectList ↔
      (∃ o ∈ ownObjects isStdObject context.objectList, x = resumedObject o) ∨ x ∈ fresh.objectList := by
    intro x
    simp only [resumeOnenetContext, hinfo]
    refine mem_resumeObjects _ hold (fun o ho => (hobject o ho).1) (fun o ho => (hobject o ho).2.2)
      (hctx.ids.filter _) ?_
    -- an object of its own has another id than every standard object
    intro o ho y hy heq
    have hstd := hfresh.objects y hy
    rw [heq, hown o ho] at hstd
    exact Bool.noConfusion hstd
  constructor
  · rintro ⟨x, hx, hstd, rfl⟩
    obtain ⟨o, ho, rfl⟩ | hx := (hmem x).mp hx
    · exact ⟨o, (mem_ownObjects.mp ho).1, (mem_ownObjects.mp ho).2, (viewObject_resumedObject o).symm⟩
    · rw [hfresh.objects x hx] at hstd
      exact Bool.noConfusion hstd
  · rintro ⟨o, ho, hstd, rfl⟩
    exact ⟨resumedObject o, (hmem _).mpr (.inl ⟨o, mem_ownObjects.mpr ⟨ho, hstd⟩, rfl⟩), hstd,
      viewObject_resumedObject o⟩

theorem resumeOnenetContext_observedList (info : RegInfo) (nextMid : UInt16) (context : Context) :
    (resumeOnenetContext info nextMid context).observedList =
      (info.observed.take info.observedCount).foldl
        (fun list backup => modifyObserved backup.uri (resumeObserved backup) list) context.observedList := by
  simp only [resumeOnenetContext, resumeObjects_observedList]

theorem activeView_resumed {info : RegInfo} {nextMid : UInt16} {context fresh : Context}
    (hctx : Registered isStdObject context) (hfresh : Fresh isStdObject fresh)
    (hinfo : info.observed.take info.observedCount = context.observedList.map (backupObserved · .zero))
    (hactive : ∀ o ∈ context.observedList, o.actived = true) (v : ObservedView) :
    ActiveView (resumeOnenetContext info nextMid fresh) v ↔ ActiveView context v := by
  have hmem : ∀ x, x ∈ (resumeOnenetContext info nextMid fresh).observedList ↔
      ∃ o ∈ context.observedList, x = resumedObserved o := by
    intro x
    rw [resumeOnenetContext_observedList, hinfo, hfresh.observedList,
      mem_resume_active _ hactive hctx.uris (fun _ _ _ h => absurd h List.not_mem_nil)]
    simp
  have hview : ∀ o ∈ context.observedList, viewObserved (resumedObserved o) = viewObserved o := fun o ho =>
    viewObserved_resumedObserved (hactive o ho) (hctx.token o ho).1 (hctx.token o ho).2
  constructor
  · rintro ⟨x, hx, -, rfl⟩
    obtain ⟨o, ho, rfl⟩ := (hmem x).mp hx
    exact ⟨o, ho, hactive o ho, (hview o ho).symm⟩
  · rintro ⟨o, ho, -, rfl⟩
    exact ⟨resumedObserved o, (hmem _).mpr ⟨o, ho, rfl⟩, rfl, hview o ho⟩

/-- An inactive observation comes back as an active one of the security object, which no registered
context has. -/
theorem activeView_inactive {info : RegInfo} {nextMid : UInt16} {context fresh : Context}
    (hctx : Registered isStdObject context)
    (hinfo : info.observed.take info.observedCount = context.observedList.map (backupObserved · .zero))
    {o : Observed} (ho : o ∈ context.observedList) (hinactive : o.actived = false) :
    ∃ v, ActiveView (resumeOnenetContext info nextMid fresh) v ∧ ¬ ActiveView context v := by
  have hsecurity : HasSecurity (resumeOnenetContext info nextMid fresh).observedList := by
    rw [resumeOnenetContext_observedList, hinfo]
    exact hasSecurity_resume_inactive _ (.inr ⟨o, ho, hinactive⟩)
  obtain ⟨target, hmem, hid, hactive⟩ := hsecurity
  refine ⟨viewObserved target, ⟨target, hmem, hactive, rfl⟩, ?_⟩
  rintro ⟨other, hother, -, hview⟩
  have huri : other.uri = target.uri := congrArg ObservedView.uri hview
  exact hctx.notSecurity other hother (huri ▸ hid)

theorem backupKept_iff (net : NetInfo) {old : RegInfo} (oldMid : UInt16) {context fresh : Context}
    (hctx : Registered isStdObject context) (hfresh : Fresh isStdObject fresh) (hold : RecordShape old) :
    BackupKept isStdObject net old oldMid context fresh ↔
      LimitExceeded isStdObject context ∨ ∀ o ∈ context.observedList, o.actived = true := by
  by_cases hlimit : LimitExceeded isStdObject context
  · refine iff_of_true ⟨fun h => absurd hlimit h, fun _ => ?_⟩ (.inl hlimit)
    rw [onenetBakAllInfo_exceeded net oldMid hctx hold hlimit]
    exact ⟨rfl, rfl⟩
  · obtain ⟨info, hbackup, hobjects, hobserved⟩ := onenetBakAllInfo_within net oldMid hctx hold hlimit
    have hroom : (ownObjects isStdObject context.objectList).length ≤ old.objects.length := by
      rw [hold.objects]
      exact Nat.not_lt.mp (not_or.mp hlimit).1
    rw [BackupKept, hbackup]
    constructor
    · rintro ⟨hkept, -⟩
      obtain ⟨-, hactive, -⟩ := hkept hlimit
      refine .inr fun o ho => ?_
      by_contra hinactive
      obtain ⟨v, hv, hnot⟩ := activeView_inactive hctx hobserved ho (Bool.eq_false_iff.mpr hinactive)
      exact hnot ((hactive v).mp hv)
    · rintro (h | hactive)
      · exact absurd h hlimit
      · exact ⟨fun _ => ⟨rfl, activeView_resumed hctx hfresh hobserved hactive,
          ownView_resumed hctx hfresh hroom hobjects⟩, fun h => absurd h hlimit⟩

/-! ### Runs on one context -/

/-- Only the security object is a standard object. -/
def onlySecurity (objID : UInt16) : Bool := objID == 0

def exampleFresh : Context where
  isUser := true
  stateStep := .initial
  registerEnabled := false
  endpointName := [56, 54]
  server := none
  serverPort := 0
  lifetime := 0
  nextMid := 0
  cloudPlatform := 0
  platformCommonType := 0
  objectList := [⟨0, 1, 1, [0x80], 1, 0, 0⟩]
  instSecurity := [⟨0, [49], false, 0, 0, 3⟩]
  observedList := []

/-- One object and one observation of it. -/
def exampleContext (actived : Bool) : Context :=
  { exampleFresh with
    stateStep := .ready
    registerEnabled := true
    server := some ⟨[49], 100, [47, 114], true⟩
    lifetime := 86400
    objectList := [⟨0, 1, 1, [0x80], 1, 0, 0⟩, ⟨3200, 1, 1, [0x80], 1, 2, 1⟩]
    observedList := [⟨7, ⟨0x07, 3200, 0, 5⟩, actived, [1, 2, 3, 4, 5, 6, 7, 8], 8, 100, 1, 9, .contentText⟩] }

theorem registered_exampleContext (actived : Bool) : Registered onlySecurity (exampleContext actived) where
  user := rfl
  ready := rfl
  endpointName := by simp [exampleContext, exampleFresh]
  server := ⟨_, rfl, by decide⟩
  token := by simp [exampleContext]
  uris := by simp [exampleContext]
  notSecurity := by simp [exampleContext]
  ids := by simp [exampleContext]
  objects := by
    intro object hobject hstd
    simp only [exampleContext, List.mem_cons, List.not_mem_nil, or_false] at hobject
    obtain rfl | rfl := hobject
    · exact absurd hstd (by decide)
    · exact ⟨rfl, by decide, by decide, by decide, by decide, by decide +kernel⟩

theorem fresh_exampleFresh : Fresh onlySecurity exampleFresh :=
  ⟨rfl, by simp [exampleFresh, onlySecurity]⟩

theorem recordShape_zero : RecordShape .zero :=
  ⟨rfl, fun object h => by rw [List.eq_of_mem_replicate h]; rfl⟩

theorem backupKept_iff_active : BackupKept onlySecurity ⟨1, 2, []⟩ .zero 0 (exampleContext true) exampleFresh :=
  (backupKept_iff ⟨1, 2, []⟩ 0 (registered_exampleContext true) fresh_exampleFresh recordShape_zero).mpr
    (.inr (by simp [exampleContext]))

theorem not_alwaysKept :
    ¬ ∀ (isStdObject : UInt16 → Bool) (net : NetInfo) (old : RegInfo) (oldMid : UInt16) (context fresh : Context),
      Registered isStdObject context → Fresh isStdObject fresh → RecordShape old →
        BackupKept isStdObject net old oldMid context fresh := by
  intro h
  have hkept := h onlySecurity ⟨1, 2, []⟩ .zero 0 (exampleContext false) exampleFresh (registered_exampleContext false)
    fresh_exampleFresh recordShape_zero
  obtain ⟨-, hactive, -⟩ := hkept.1 (by simp [LimitExceeded, exampleContext, exampleFresh, ownObjects, onlySecurity,
    objectBackupMax, observeBackupMax])
  -- the observation that came back is the one of the zeroed place
  obtain ⟨observed, hmem, hon, -⟩ := (hactive _).mp
    ⟨resumedObserved ⟨0, .zero, true, List.replicate 8 0, 0, 0, 0, 0, .contentText⟩, by decide +kernel, rfl, rfl⟩
  simp only [exampleContext, List.mem_singleton] at hmem
  rw [hmem] at hon
  exact Bool.noConfusion hon

end NbiotXY1100.OnenetBackup
