import Mathlib.Data.List.Pairwise
import NbiotXY1100.NetAppResume
import NbiotXY1100.StepRuns

/-! # UDP sockets over a deep sleep

Sockets are opened and closed, their contexts are saved, the system sleeps and wakes up, and
the saved sockets are resumed, in any order. The host of a socket has one address family,
whenever it is resolved. -/
namespace NbiotXY1100.UdpDeepSleep
open AtSocketContext NetAppResume StepRuns

/-- What a socket has to keep. -/
structure SocketView where
  sockId : UInt8
  localPort : UInt16
  remotePort : UInt16
  afType : UInt8
  recvCtl : UInt8
  netType : UInt8
  remoteIp : List UInt8
  deriving DecidableEq, Repr

def viewOf (ctx : SocketContext) : SocketView :=
  ⟨ctx.sockId, ctx.localPort, ctx.remotePort, ctx.afType, ctx.recvCtl, ctx.netType, ctx.remoteIp⟩

/-- What holds of every socket that was bound: its number is one of `AT+QIOPEN`, and its local
port is set. -/
structure Bound (family : List UInt8 → UInt8) (v : SocketView) : Prop where
  sockId : v.sockId.toNat < sockNum
  localPort : v.localPort ≠ 0
  netType : v.netType = 0 ∨ v.netType = 1
  afType : v.afType = family v.remoteIp

/-- The socket is neither being closed nor without its network. -/
def IsOpen (ctx : SocketContext) : Prop := ctx.netType = 1 ∧ ctx.quit ≠ 1 ∧ ctx.isDeact ≠ 1

instance (ctx : SocketContext) : Decidable (IsOpen ctx) :=
  inferInstanceAs (Decidable (ctx.netType = 1 ∧ ctx.quit ≠ 1 ∧ ctx.isDeact ≠ 1))

variable (family : List UInt8 → UInt8)

inductive Action where
  | open (i : Fin sockNum) (ctx : SocketContext) (bound : Bound family (viewOf ctx))
  | qiclose (i : Fin sockNum)
  | netifDown
  | delete (i : Fin sockNum)
  | rcvThreadExit
  | save (onenetWrite cdpWrite : Bool)
  | sleep (onenetWrite cdpWrite : Bool)
  | resume (fd : Fin sockNum → UInt8)
  | restart (nv : UdpContext)

/-- The state of a start of the system; the report mode is `BUFFER_WITH_HINT`. -/
def wake (s : NetApp) : NetApp :=
  { s with sockets := .init, rcvThread := false, udpContext := none, backupUdpOnce := false, reportMode := 1 }

def NetApp.start (workMode : ℕ) (nv : UdpContext) : NetApp :=
  ⟨.init, false, none, false, 1, workMode, .clear, nv⟩

/-- A socket is opened in any slot. Its context is marked when it is to be deleted, and the thread
that receives deletes it and ends when there is no socket. The sleep after `save` is given up. -/
def step : Action family → NetApp → Option NetApp
  | .open i ctx _, s => some
    { s with sockets := { s.sockets with sockCtx := Function.update s.sockets.sockCtx i (some ctx) }, rcvThread := true }
  | .qiclose i, s => some { s with sockets := s.sockets.modify i fun ctx => { ctx with quit := 1, sockState := .closing } }
  | .netifDown, s => some { s with sockets :=
      { s.sockets with sockCtx := fun i => (s.sockets.sockCtx i).map fun ctx => { ctx with isDeact := 1 } } }
  | .delete i, s => some { s with sockets := { s.sockets with sockCtx := Function.update s.sockets.sockCtx i none } }
  | .rcvThreadExit, s => if isAllSocketExit s.sockets then some { s with rcvThread := false } else none
  | .save onenetWrite cdpWrite, s => some (saveNetAppInfos onenetWrite cdpWrite s)
  | .sleep onenetWrite cdpWrite, s => some (wake (saveNetAppInfos onenetWrite cdpWrite s))
  | .resume fd, s => resumeSocketTask family fd s
  | .restart nv, s => some (NetApp.start s.workMode nv)

/-- A save now, the sleep, the wake-up and a resume request leave exactly the open UDP sockets. -/
def Survive (s : NetApp) : Prop :=
  ∀ onenetWrite cdpWrite fd, ∃ t,
    resumeSocketTask family fd (wake (saveNetAppInfos onenetWrite cdpWrite s)) = some t ∧
    ∀ v, (∃ i ctx, t.sockets.sockCtx i = some ctx ∧ viewOf ctx = v) ↔
      ∃ i ctx, s.sockets.sockCtx i = some ctx ∧ IsOpen ctx ∧ viewOf ctx = v

/-- The UDP sockets have different numbers, none of them is to be deleted, and their hosts fit
into the record. -/
structure Storable (s : NetApp) : Prop where
  distinct : ∀ i j x y, s.sockets.sockCtx i = some x → s.sockets.sockCtx j = some y → x.netType = 1 → y.netType = 1 →
    x.sockId = y.sockId → i = j
  isOpen : ∀ i ctx, s.sockets.sockCtx i = some ctx → ctx.netType = 1 → IsOpen ctx
  host : ∀ i ctx, s.sockets.sockCtx i = some ctx → ctx.netType = 1 → ctx.remoteIp.length ≤ remoteIpLen

/-- The first slot makes the record look like erased flash. -/
def FirstErased (s : NetApp) : Prop :=
  ∃ ctx, s.sockets.sockCtx ⟨0, sockNum_pos⟩ = some ctx ∧ ctx.netType = 1 ∧ ctx.localPort = 65535 ∧ ctx.remotePort = 65535

/-- With sockets in the table, those of UDP can be stored and are resumed, or none of them is
open. With an empty table nothing that was saved before is resumed. -/
def Survivable (s : NetApp) : Prop :=
  (isAllSocketExit s.sockets = true ∧
    (s.workMode = 0 → s.flag.socket = true → s.nv.blank = false → ∀ i, (s.nv.udpSocket i).used = false)) ∨
  (isAllSocketExit s.sockets = false ∧ s.workMode = 0 ∧ ¬ FirstErased s ∧ Storable s) ∨
  (isAllSocketExit s.sockets = false ∧ ¬ (s.workMode = 0 ∧ ¬ FirstErased s) ∧
    ∀ i ctx, s.sockets.sockCtx i = some ctx → ¬ IsOpen ctx)

/-! ### Restoring the entries of a record -/

section Restore

variable {family} {u : UdpContext} {fd : Fin sockNum → UInt8} {is : List (Fin sockNum)} {s t : Sockets}

def views (s : Sockets) (k : Fin sockNum) : Option SocketView := (s.sockCtx k).map viewOf

/-- The socket that an entry stands for. -/
def entryView (family : List UInt8 → UInt8) (entry : UdpContextFd) : SocketView :=
  ⟨entry.socketIdx, entry.localPort, entry.remotePort, family entry.remoteIp, entry.recvCtl, 1, entry.remoteIp⟩

theorem views_setSocketSequenceDefaultState (sockId : UInt8) (s : Sockets) :
    views (setSocketSequenceDefaultState sockId s) = views s := by
  funext k
  unfold views setSocketSequenceDefaultState
  dsimp only
  rw [Option.map_map]
  refine congrArg (fun f => Option.map f _) (funext fun ctx => ?_)
  rw [Function.comp_apply]
  split
  · rfl
  · rfl

theorem views_update (k : Fin sockNum) (ctx : Option SocketContext) (s : Sockets) :
    views { s with sockCtx := Function.update s.sockCtx k ctx } = Function.update (views s) k (ctx.map viewOf) := by
  funext j
  unfold views
  dsimp only
  by_cases hj : j = k
  · rw [hj, Function.update_self, Function.update_self]
  · rw [Function.update_of_ne hj, Function.update_of_ne hj]

/-- An entry is passed over, or its socket goes into its empty slot. -/
theorem restoreEntry_some {fd : UInt8} {entry : UdpContextFd} (h : restoreEntry family fd entry s = some t) :
    (entry.used = false ∧ t = s) ∨
      (entry.used = true ∧ ∃ k : Fin sockNum, k.val = entry.socketIdx.toNat ∧ views s k = none ∧
        views t = Function.update (views s) k (some (entryView family entry))) := by
  unfold restoreEntry at h
  split at h
  next hused =>
    split at h
    next hlt =>
      split at h
      · cases h
      next hfree =>
        cases h
        refine Or.inr ⟨hused, ⟨_, hlt⟩, rfl, ?_, ?_⟩
        · unfold views
          rw [Option.not_isSome_iff_eq_none.mp hfree]
          rfl
        · rw [views_setSocketSequenceDefaultState, views_update]
          rfl
    next => cases h
  next hused =>
    cases h
    exact Or.inl ⟨Bool.eq_false_iff.mpr hused, rfl⟩

theorem restoreEntry_isSome {fd : UInt8} {entry : UdpContextFd}
    (h : entry.used = true → ∃ k : Fin sockNum, k.val = entry.socketIdx.toNat ∧ views s k = none) :
    ∃ t, restoreEntry family fd entry s = some t := by
  unfold restoreEntry
  split
  next hused =>
    obtain ⟨k, hk, hfree⟩ := h hused
    have hlt : entry.socketIdx.toNat < sockNum := hk ▸ k.isLt
    obtain rfl : k = ⟨entry.socketIdx.toNat, hlt⟩ := Fin.ext hk
    unfold views at hfree
    rw [dif_pos hlt, Option.map_eq_none_iff.mp hfree]
    exact ⟨_, rfl⟩
  next => exact ⟨s, rfl⟩

/-- The slots of the used entries exist, are empty and are different. -/
def Placeable (u : UdpContext) (is : List (Fin sockNum)) (s : Sockets) : Prop :=
  (∀ i ∈ is, (u.udpSocket i).used = true →
    ∃ k : Fin sockNum, k.val = (u.udpSocket i).socketIdx.toNat ∧ views s k = none) ∧
  is.Pairwise fun i j => (u.udpSocket i).used = true → (u.udpSocket j).used = true →
    (u.udpSocket i).socketIdx ≠ (u.udpSocket j).socketIdx

theorem restoreEntries_views (h : restoreEntries family fd u is s = some t) (k : Fin sockNum) (v : SocketView) :
    views t k = some v ↔ views s k = some v ∨
      ∃ i ∈ is, (u.udpSocket i).used = true ∧ k.val = (u.udpSocket i).socketIdx.toNat ∧ entryView family (u.udpSocket i) = v := by
  induction is generalizing s with
  | nil =>
    cases h
    simp
  | cons i is ih =>
    obtain ⟨s', hentry, hrest⟩ := Option.bind_eq_some_iff.mp h
    rw [ih hrest]
    rcases restoreEntry_some hentry with ⟨hunused, rfl⟩ | ⟨hused, k', hk', hfree, hviews⟩
    · simp [hunused]
    · rw [hviews]
      by_cases hk : k = k'
      · subst hk
        rw [Function.update_self, hfree]
        simp [hused, hk']
      · have hne : k.val ≠ (u.udpSocket i).socketIdx.toNat := fun heq => hk (Fin.ext (heq.trans hk'.symm))
        rw [Function.update_of_ne hk]
        simp [hne]

theorem placeable_of_restoreEntries (h : restoreEntries family fd u is s = some t) : Placeable u is s := by
  induction is generalizing s with
  | nil => exact ⟨fun _ hi => (List.not_mem_nil hi).elim, .nil⟩
  | cons i is ih =>
    obtain ⟨s', hentry, hrest⟩ := Option.bind_eq_some_iff.mp h
    obtain ⟨hslots, hpairs⟩ := ih hrest
    rcases restoreEntry_some hentry with ⟨hunused, rfl⟩ | ⟨hused, k, hk, hfree, hviews⟩
    · have hnot : ¬ (u.udpSocket i).used = true := Bool.eq_false_iff.mp hunused
      refine ⟨fun j hj => ?_, .cons (fun _ _ hused => absurd hused hnot) hpairs⟩
      rcases List.mem_cons.mp hj with rfl | hj
      · exact fun hused => absurd hused hnot
      · exact hslots j hj
    · have hother : ∀ j ∈ is, (u.udpSocket j).used = true →
          ∃ k' : Fin sockNum, k'.val = (u.udpSocket j).socketIdx.toNat ∧ k' ≠ k ∧ views s k' = none := by
        intro j hj hj'
        obtain ⟨k', hk', hfree'⟩ := hslots j hj hj'
        have hne : k' ≠ k := by
          rintro rfl
          rw [hviews, Function.update_self] at hfree'
          cases hfree'
        rw [hviews, Function.update_of_ne hne] at hfree'
        exact ⟨k', hk', hne, hfree'⟩
      refine ⟨fun j hj hj' => ?_, .cons (fun j hj _ hj' heq => ?_) hpairs⟩
      · rcases List.mem_cons.mp hj with rfl | hj
        · exact ⟨k, hk, hfree⟩
        · obtain ⟨k', hk', -, hfree'⟩ := hother j hj hj'
          exact ⟨k', hk', hfree'⟩
      · obtain ⟨k', hk', hne, -⟩ := hother j hj hj'
        exact hne (Fin.ext (by rw [hk', hk, heq]))

theorem restoreEntries_isSome (h : Placeable u is s) : ∃ t, restoreEntries family fd u is s = some t := by
  induction is generalizing s with
  | nil => exact ⟨s, rfl⟩
  | cons i is ih =>
    obtain ⟨hslots, hpairs⟩ := h
    obtain ⟨hfirst, hpairs⟩ := List.pairwise_cons.mp hpairs
    obtain ⟨s', hentry⟩ := @restoreEntry_isSome family s (fd i) _ (hslots i List.mem_cons_self)
    have hplace : Placeable u is s' := by
      refine ⟨fun j hj hj' => ?_, hpairs⟩
      obtain ⟨k, hk, hfree⟩ := hslots j (List.mem_cons_of_mem i hj) hj'
      refine ⟨k, hk, ?_⟩
      rcases restoreEntry_some hentry with ⟨-, rfl⟩ | ⟨hused, k', hk', -, hviews⟩
      · exact hfree
      · have hne : k ≠ k' := by
          rintro rfl
          exact hfirst j hj hused hj' (UInt8.toNat_inj.mp (hk'.symm.trans hk))
        rw [hviews, Function.update_of_ne hne]
        exact hfree
    obtain ⟨t, ht⟩ := ih hplace
    exact ⟨t, Option.bind_eq_some_iff.mpr ⟨s', hentry, ht⟩⟩

end Restore

/-! ### A resume request after the wake-up -/

variable {family} {s t : NetApp}

/-- The entries of a record can all be restored into an empty table. -/
def Restorable (u : UdpContext) : Prop :=
  (∀ i, (u.udpSocket i).used = true → (u.udpSocket i).socketIdx.toNat < sockNum) ∧
  ∀ i j, (u.udpSocket i).used = true → (u.udpSocket j).used = true →
    (u.udpSocket i).socketIdx = (u.udpSocket j).socketIdx → i = j

theorem placeable_init {u : UdpContext} : Placeable u (List.finRange sockNum) .init ↔ Restorable u := by
  constructor
  · rintro ⟨hslots, hpairs⟩
    refine ⟨fun i hi => ?_, fun i j hi hj heq => ?_⟩
    · obtain ⟨k, hk, -⟩ := hslots i (List.mem_finRange i) hi
      exact hk ▸ k.isLt
    · by_contra hne
      have : Std.Symm fun i j => (u.udpSocket i).used = true → (u.udpSocket j).used = true →
          (u.udpSocket i).socketIdx ≠ (u.udpSocket j).socketIdx := ⟨fun _ _ h hi hj => (h hj hi).symm⟩
      exact hpairs.forall (List.mem_finRange i) (List.mem_finRange j) hne hi hj heq
  · rintro ⟨hslots, hinj⟩
    refine ⟨fun i _ hi => ⟨⟨_, hslots i hi⟩, rfl, rfl⟩, ?_⟩
    refine (List.nodup_finRange sockNum).imp fun {i j} hne hi hj heq => hne (hinj i j hi hj heq)

/-- A request resumes the sockets of the record when they were saved and the record is not taken
for erased flash. -/
def Resumes (s : NetApp) : Prop := s.workMode = 0 ∧ s.flag.socket = true ∧ s.nv.blank = false

theorem resume_wake_idle (h : ¬ Resumes s) (fd : Fin sockNum → UInt8) :
    ∃ t, resumeSocketTask family fd (wake s) = some t ∧ views t.sockets = fun _ => none := by
  unfold resumeSocketTask
  split
  · exact ⟨_, rfl, rfl⟩
  next hon =>
    have hblank : s.nv.blank = true := by
      rw [not_or, not_not, Bool.not_eq_false] at hon
      exact Bool.not_eq_false _ ▸ fun hblank => h ⟨hon.1, hon.2, hblank⟩
    unfold resumeSocketApp creatUdpBackupContext restoreUdpContextThread wake
    dsimp only
    rw [if_neg (by simp), if_neg Bool.false_ne_true, if_pos hblank]
    exact ⟨_, rfl, rfl⟩

theorem resume_wake (h : Resumes s) (fd : Fin sockNum → UInt8) :
    (resumeSocketTask family fd (wake s)).map NetApp.sockets =
      restoreEntries family fd s.nv (List.finRange sockNum) .init := by
  obtain ⟨hmode, hflag, hblank⟩ := h
  have hon : ¬ (s.workMode ≠ 0 ∨ s.flag.socket = false) := by simp [hmode, hflag]
  have hnot : ¬ s.nv.blank = true := by simp [hblank]
  unfold resumeSocketTask resumeSocketApp creatUdpBackupContext restoreUdpContextThread wake
  dsimp only
  rw [if_neg hon, if_neg (by simp), if_neg Bool.false_ne_true, if_neg hnot, Option.map_map, Option.map_map, Option.map_map]
  exact Option.map_id'

theorem restored_views {u : UdpContext} {fd : Fin sockNum → UInt8} {sockets : Sockets}
    (h : restoreEntries family fd u (List.finRange sockNum) .init = some sockets) (v : SocketView) :
    (∃ k, views sockets k = some v) ↔ ∃ i, (u.udpSocket i).used = true ∧ entryView family (u.udpSocket i) = v := by
  have hslots := (placeable_init.mp (placeable_of_restoreEntries h)).1
  constructor
  · rintro ⟨k, hk⟩
    rcases (restoreEntries_views h k v).mp hk with hinit | ⟨i, -, hused, -, hview⟩
    · cases hinit
    · exact ⟨i, hused, hview⟩
  · rintro ⟨i, hused, hview⟩
    refine ⟨⟨_, hslots i hused⟩, (restoreEntries_views h _ v).mpr (Or.inr ⟨i, List.mem_finRange i, hused, rfl, hview⟩)⟩

/-- What is there after a resume request. -/
theorem resumed_iff (fd : Fin sockNum → UInt8) (Q : SocketView → Prop) :
    (∃ t, resumeSocketTask family fd (wake s) = some t ∧ ∀ v, (∃ k, views t.sockets k = some v) ↔ Q v) ↔
      (Resumes s ∧ Restorable s.nv ∧
        ∀ v, (∃ i, (s.nv.udpSocket i).used = true ∧ entryView family (s.nv.udpSocket i) = v) ↔ Q v) ∨
      (¬ Resumes s ∧ ∀ v, ¬ Q v) := by
  by_cases hresumes : Resumes s
  · have hsockets := @resume_wake family s hresumes fd
    constructor
    · rintro ⟨t, ht, hviews⟩
      rw [ht, Option.map_some] at hsockets
      refine Or.inl ⟨hresumes, placeable_init.mp (placeable_of_restoreEntries hsockets.symm), fun v => ?_⟩
      rw [← restored_views hsockets.symm, hviews]
    · rintro (⟨-, hrestorable, hviews⟩ | ⟨hnot, -⟩)
      · obtain ⟨sockets, hrestore⟩ := @restoreEntries_isSome family s.nv fd _ _ (placeable_init.mpr hrestorable)
        rw [hrestore] at hsockets
        obtain ⟨t, ht, rfl⟩ := Option.map_eq_some_iff.mp hsockets
        refine ⟨t, ht, fun v => ?_⟩
        rw [restored_views hrestore, hviews]
      · exact absurd hresumes hnot
  · obtain ⟨t, ht, hviews⟩ := @resume_wake_idle family s hresumes fd
    constructor
    · rintro ⟨t', ht', hiff⟩
      obtain rfl := Option.some.inj (ht.symm.trans ht')
      refine Or.inr ⟨hresumes, fun v hQ => ?_⟩
      obtain ⟨k, hk⟩ := (hiff v).mpr hQ
      rw [hviews] at hk
      cases hk
    · rintro (⟨hyes, -⟩ | ⟨-, hnone⟩)
      · exact absurd hyes hresumes
      · refine ⟨t, ht, fun v => iff_of_false ?_ (hnone v)⟩
        rintro ⟨k, hk⟩
        rw [hviews] at hk
        cases hk

/-! ### What is saved -/

/-- What holds of every socket in the table. -/
def Valid (family : List UInt8 → UInt8) (s : Sockets) : Prop := ∀ k v, views s k = some v → Bound family v

/-- The slot holds no UDP socket. -/
def NotUdp (ctx : Option SocketContext) : Prop := ∀ c, ctx = some c → c.netType = 0

theorem Valid.bound {sockets : Sockets} (h : Valid family sockets) {i : Fin sockNum} {ctx : SocketContext}
    (hctx : sockets.sockCtx i = some ctx) : Bound family (viewOf ctx) := by
  refine h i _ ?_
  unfold views
  rw [hctx]
  rfl

theorem Valid.notUdp {sockets : Sockets} (h : Valid family sockets) {i : Fin sockNum}
    (hnone : ¬ ∃ ctx, sockets.sockCtx i = some ctx ∧ ctx.netType = 1) : NotUdp (sockets.sockCtx i) :=
  fun ctx hctx => (h.bound hctx).netType.resolve_right fun hudp => hnone ⟨ctx, hctx, hudp⟩

/-- The entry of a slot in the record, when there is a socket in any slot. -/
def savedEntry (s : NetApp) (i : Fin sockNum) : UdpContextFd :=
  clearStaleEntry (saveEntry (s.sockets.sockCtx i) ((s.udpContext.getD .zero).udpSocket i))

theorem saveNetAppInfos_idle (hidle : isAllSocketExit s.sockets = true) (onenetWrite cdpWrite : Bool) :
    (saveNetAppInfos onenetWrite cdpWrite s).workMode = s.workMode ∧
      (saveNetAppInfos onenetWrite cdpWrite s).flag.socket = s.flag.socket ∧
      (saveNetAppInfos onenetWrite cdpWrite s).nv = s.nv := by
  unfold saveNetAppInfos saveUdpContextDeepsleep
  dsimp only
  rw [if_pos hidle]
  dsimp only
  split
  · exact ⟨rfl, Bool.or_false _, rfl⟩
  · exact ⟨rfl, Bool.or_false _, rfl⟩

theorem saveNetAppInfos_open (hopen : isAllSocketExit s.sockets = false) (onenetWrite cdpWrite : Bool) :
    (saveNetAppInfos onenetWrite cdpWrite s).workMode = s.workMode ∧
      (saveNetAppInfos onenetWrite cdpWrite s).flag.socket = true ∧
      (saveNetAppInfos onenetWrite cdpWrite s).nv.udpSocket = savedEntry s := by
  unfold saveNetAppInfos saveUdpContextDeepsleep
  dsimp only
  rw [if_neg (Bool.eq_false_iff.mp hopen)]
  dsimp only
  split
  next hclear =>
    have hflag := congrArg RecoveryFlag.socket hclear
    simp [RecoveryFlag.clear] at hflag
  next => exact ⟨rfl, Bool.or_true _, rfl⟩

theorem savedEntry_notUdp {i : Fin sockNum} (h : NotUdp (s.sockets.sockCtx i)) :
    (savedEntry s i).used = false ∧ (savedEntry s i).localPort = 0 := by
  have hentry : ∀ old : UdpContextFd, saveEntry (s.sockets.sockCtx i) old = { old with socketIdx := noSocket } := by
    intro old
    unfold saveEntry
    split
    · rfl
    next ctx hctx => exact if_pos (h ctx hctx)
  unfold savedEntry clearStaleEntry
  rw [hentry]
  split
  · exact ⟨rfl, rfl⟩
  next hstale =>
    have hport : ((s.udpContext.getD .zero).udpSocket i).localPort = 0 := by
      by_contra hne
      exact hstale ⟨hne, rfl⟩
    exact ⟨by simp [UdpContextFd.used], hport⟩

theorem savedEntry_udp {i : Fin sockNum} {ctx : SocketContext} (hvalid : Bound family (viewOf ctx))
    (hctx : s.sockets.sockCtx i = some ctx) (hudp : ctx.netType = 1) :
    savedEntry s i = ⟨ctx.localPort, ctx.remotePort, ctx.remoteIp.take remoteIpLen, ctx.sockId, ctx.afType, ctx.recvCtl⟩ ∧
      (savedEntry s i).used = true := by
  have hne : ctx.sockId ≠ noSocket := by
    intro heq
    have hlt := hvalid.sockId
    rw [show (viewOf ctx).sockId = noSocket from heq] at hlt
    exact absurd hlt (by decide)
  have hport : ctx.localPort ≠ 0 := hvalid.localPort
  have hentry : savedEntry s i =
      ⟨ctx.localPort, ctx.remotePort, ctx.remoteIp.take remoteIpLen, ctx.sockId, ctx.afType, ctx.recvCtl⟩ := by
    unfold savedEntry saveEntry
    rw [hctx]
    dsimp only
    rw [if_neg (by rw [hudp]; decide)]
    exact if_neg fun hstale => hne hstale.2
  refine ⟨hentry, ?_⟩
  rw [hentry]
  unfold UdpContextFd.used
  exact decide_eq_true ⟨hne, hport⟩

/-- An entry is used where there is a UDP socket. -/
theorem savedEntry_used_iff (hvalid : Valid family s.sockets) (i : Fin sockNum) :
    (savedEntry s i).used = true ↔ ∃ ctx, s.sockets.sockCtx i = some ctx ∧ ctx.netType = 1 := by
  constructor
  · intro hused
    by_contra hnone
    rw [(savedEntry_notUdp (hvalid.notUdp hnone)).1] at hused
    cases hused
  · rintro ⟨ctx, hctx, hudp⟩
    exact (savedEntry_udp (hvalid.bound hctx) hctx hudp).2

theorem savedRecord_blank_iff (hvalid : Valid family s.sockets) {u : UdpContext} (hu : u.udpSocket = savedEntry s) :
    u.blank = true ↔ FirstErased s := by
  unfold UdpContext.blank FirstErased
  rw [decide_eq_true_eq, hu]
  constructor
  · rintro ⟨hlocal, hremote⟩
    by_cases hused : ∃ ctx, s.sockets.sockCtx ⟨0, sockNum_pos⟩ = some ctx ∧ ctx.netType = 1
    · obtain ⟨ctx, hctx, hudp⟩ := hused
      rw [(savedEntry_udp (hvalid.bound hctx) hctx hudp).1] at hlocal hremote
      exact ⟨ctx, hctx, hudp, hlocal, hremote⟩
    · rw [(savedEntry_notUdp (hvalid.notUdp hused)).2] at hlocal
      exact absurd hlocal (by decide)
  · rintro ⟨ctx, hctx, hudp, hlocal, hremote⟩
    rw [(savedEntry_udp (hvalid.bound hctx) hctx hudp).1]
    exact ⟨hlocal, hremote⟩

def OpenView (s : NetApp) (v : SocketView) : Prop :=
  ∃ i ctx, s.sockets.sockCtx i = some ctx ∧ IsOpen ctx ∧ viewOf ctx = v

theorem entryView_saved {i : Fin sockNum} {ctx : SocketContext} (hvalid : Bound family (viewOf ctx))
    (hctx : s.sockets.sockCtx i = some ctx) (hudp : ctx.netType = 1) (hhost : ctx.remoteIp.length ≤ remoteIpLen) :
    entryView family (savedEntry s i) = viewOf ctx := by
  have hfamily : ctx.afType = family ctx.remoteIp := hvalid.afType
  rw [(savedEntry_udp hvalid hctx hudp).1, List.take_of_length_le hhost]
  unfold entryView viewOf
  dsimp only
  rw [hfamily, hudp]

/-- The record stands for the open UDP sockets if and only if it can hold all of the table. -/
theorem saved_iff_storable (hvalid : Valid family s.sockets) {u : UdpContext} (hu : u.udpSocket = savedEntry s) :
    (Restorable u ∧ ∀ v, (∃ i, (u.udpSocket i).used = true ∧ entryView family (u.udpSocket i) = v) ↔ OpenView s v) ↔
      Storable s := by
  unfold Restorable
  rw [hu]
  constructor
  · rintro ⟨⟨-, hinj⟩, hviews⟩
    have hdistinct : ∀ i j x y, s.sockets.sockCtx i = some x → s.sockets.sockCtx j = some y → x.netType = 1 →
        y.netType = 1 → x.sockId = y.sockId → i = j := by
      intro i j x y hi hj hx hy heq
      have hxi := savedEntry_udp (hvalid.bound hi) hi hx
      have hyj := savedEntry_udp (hvalid.bound hj) hj hy
      refine hinj i j hxi.2 hyj.2 ?_
      rw [hxi.1, hyj.1]
      exact heq
    -- the socket that its own entry is restored as has the same number, so it is the same one
    have hself : ∀ i ctx, s.sockets.sockCtx i = some ctx → ctx.netType = 1 →
        IsOpen ctx ∧ viewOf ctx = entryView family (savedEntry s i) := by
      intro i ctx hctx hudp
      have hsaved := savedEntry_udp (hvalid.bound hctx) hctx hudp
      obtain ⟨j, other, hother, hopen, hview⟩ := (hviews _).mp ⟨i, hsaved.2, rfl⟩
      have hid : other.sockId = ctx.sockId := by
        have hnumber := congrArg SocketView.sockId hview
        rw [hsaved.1] at hnumber
        exact hnumber
      obtain rfl := hdistinct j i other ctx hother hctx hopen.1 hudp hid
      obtain rfl := Option.some.inj (hctx.symm.trans hother)
      exact ⟨hopen, hview⟩
    refine ⟨hdistinct, fun i ctx hctx hudp => (hself i ctx hctx hudp).1, fun i ctx hctx hudp => ?_⟩
    have hhost := congrArg SocketView.remoteIp (hself i ctx hctx hudp).2
    rw [(savedEntry_udp (hvalid.bound hctx) hctx hudp).1] at hhost
    have htake : ctx.remoteIp = ctx.remoteIp.take remoteIpLen := hhost
    rw [htake]
    exact List.length_take_le _ _
  · intro h
    refine ⟨⟨fun i hused => ?_, fun i j hi hj heq => ?_⟩, fun v => ?_⟩
    · obtain ⟨ctx, hctx, hudp⟩ := (savedEntry_used_iff hvalid i).mp hused
      rw [(savedEntry_udp (hvalid.bound hctx) hctx hudp).1]
      exact (hvalid.bound hctx).sockId
    · obtain ⟨x, hx, hxudp⟩ := (savedEntry_used_iff hvalid i).mp hi
      obtain ⟨y, hy, hyudp⟩ := (savedEntry_used_iff hvalid j).mp hj
      rw [(savedEntry_udp (hvalid.bound hx) hx hxudp).1, (savedEntry_udp (hvalid.bound hy) hy hyudp).1] at heq
      exact h.distinct i j x y hx hy hxudp hyudp heq
    · constructor
      · rintro ⟨i, hused, rfl⟩
        obtain ⟨ctx, hctx, hudp⟩ := (savedEntry_used_iff hvalid i).mp hused
        refine ⟨i, ctx, hctx, h.isOpen i ctx hctx hudp, ?_⟩
        exact (entryView_saved (hvalid.bound hctx) hctx hudp (h.host i ctx hctx hudp)).symm
      · rintro ⟨i, ctx, hctx, hopen, rfl⟩
        refine ⟨i, (savedEntry_udp (hvalid.bound hctx) hctx hopen.1).2, ?_⟩
        exact entryView_saved (hvalid.bound hctx) hctx hopen.1 (h.host i ctx hctx hopen.1)

/-! ### Runs -/

theorem exists_views (sockets : Sockets) (v : SocketView) :
    (∃ k, views sockets k = some v) ↔ ∃ i ctx, sockets.sockCtx i = some ctx ∧ viewOf ctx = v := by
  unfold views
  simp only [Option.map_eq_some_iff]

theorem isAllSocketExit_iff {sockets : Sockets} : isAllSocketExit sockets = true ↔ ∀ i, sockets.sockCtx i = none := by
  unfold isAllSocketExit
  rw [List.all_eq_true]
  constructor
  · exact fun h i => Option.isNone_iff_eq_none.mp (h i (List.mem_finRange i))
  · exact fun h i _ => Option.isNone_iff_eq_none.mpr (h i)

/-- The record after a save decides. -/
def Stands (family : List UInt8 → UInt8) (s t : NetApp) : Prop :=
  (Resumes t ∧ Restorable t.nv ∧
    ∀ v, (∃ i, (t.nv.udpSocket i).used = true ∧ entryView family (t.nv.udpSocket i) = v) ↔ OpenView s v) ∨
  (¬ Resumes t ∧ ∀ v, ¬ OpenView s v)

theorem survive_iff_stands :
    Survive family s ↔ ∀ onenetWrite cdpWrite, Stands family s (saveNetAppInfos onenetWrite cdpWrite s) := by
  unfold Survive
  simp only [← exists_views]
  constructor
  · exact fun h onenetWrite cdpWrite => (resumed_iff (fun _ => 0) (OpenView s)).mp (h onenetWrite cdpWrite _)
  · exact fun h onenetWrite cdpWrite fd => (resumed_iff fd (OpenView s)).mpr (h onenetWrite cdpWrite)

theorem stands_idle_iff {t : NetApp} (hidle : isAllSocketExit s.sockets = true) (hmode : t.workMode = s.workMode)
    (hflag : t.flag.socket = s.flag.socket) (hnv : t.nv = s.nv) :
    Stands family s t ↔
      (s.workMode = 0 → s.flag.socket = true → s.nv.blank = false → ∀ i, (s.nv.udpSocket i).used = false) := by
  have hnone : ∀ v, ¬ OpenView s v := by
    rintro v ⟨i, ctx, hctx, -⟩
    rw [isAllSocketExit_iff.mp hidle i] at hctx
    cases hctx
  unfold Stands Resumes
  rw [hmode, hflag, hnv]
  constructor
  · rintro (⟨-, -, hviews⟩ | ⟨hnot, -⟩) hmode hflag hblank i
    · exact Bool.eq_false_iff.mpr fun hused => hnone _ ((hviews _).mp ⟨i, hused, rfl⟩)
    · exact absurd ⟨hmode, hflag, hblank⟩ hnot
  · intro h
    by_cases hresumes : s.workMode = 0 ∧ s.flag.socket = true ∧ s.nv.blank = false
    · have hunused := h hresumes.1 hresumes.2.1 hresumes.2.2
      have hnot : ∀ i, ¬ (s.nv.udpSocket i).used = true := fun i => Bool.eq_false_iff.mp (hunused i)
      refine Or.inl ⟨hresumes, ⟨fun i hi => absurd hi (hnot i), fun i _ hi => absurd hi (hnot i)⟩, fun v => ?_⟩
      exact iff_of_false (fun ⟨i, hi, _⟩ => hnot i hi) (hnone v)
    · exact Or.inr ⟨hresumes, hnone⟩

theorem stands_open_iff {t : NetApp} (hvalid : Valid family s.sockets) (hmode : t.workMode = s.workMode)
    (hflag : t.flag.socket = true) (hnv : t.nv.udpSocket = savedEntry s) :
    Stands family s t ↔ (s.workMode = 0 ∧ ¬ FirstErased s ∧ Storable s) ∨
      (¬ (s.workMode = 0 ∧ ¬ FirstErased s) ∧ ∀ i ctx, s.sockets.sockCtx i = some ctx → ¬ IsOpen ctx) := by
  have hresumes : Resumes t ↔ s.workMode = 0 ∧ ¬ FirstErased s := by
    unfold Resumes
    rw [hmode, ← savedRecord_blank_iff hvalid hnv, Bool.not_eq_true]
    exact ⟨fun h => ⟨h.1, h.2.2⟩, fun h => ⟨h.1, hflag, h.2⟩⟩
  have hnone : (∀ v, ¬ OpenView s v) ↔ ∀ i ctx, s.sockets.sockCtx i = some ctx → ¬ IsOpen ctx := by
    constructor
    · exact fun h i ctx hctx hopen => h _ ⟨i, ctx, hctx, hopen, rfl⟩
    · rintro h v ⟨i, ctx, hctx, hopen, -⟩
      exact h i ctx hctx hopen
  unfold Stands
  rw [hresumes, saved_iff_storable hvalid hnv, hnone, and_assoc]

theorem survive_iff_of_valid (hvalid : Valid family s.sockets) : Survive family s ↔ Survivable s := by
  rw [survive_iff_stands]
  unfold Survivable
  cases hexit : isAllSocketExit s.sockets with
  | true =>
    have hiff := fun onenetWrite cdpWrite =>
      have hsave := saveNetAppInfos_idle hexit onenetWrite cdpWrite
      @stands_idle_iff family s _ hexit hsave.1 hsave.2.1 hsave.2.2
    simp only [hiff, forall_const, true_and, Bool.true_eq_false, false_and, or_false]
  | false =>
    have hiff := fun onenetWrite cdpWrite =>
      have hsave := saveNetAppInfos_open hexit onenetWrite cdpWrite
      stands_open_iff hvalid hsave.1 hsave.2.1 hsave.2.2
    simp only [hiff, forall_const, true_and, Bool.false_eq_true, false_and, false_or]

/-! ### The sockets of every state are bound -/

theorem restoreEntries_valid {u : UdpContext} {fd : Fin sockNum → UInt8} {is : List (Fin sockNum)} {sockets t : Sockets}
    (h : Valid family sockets) (hrestore : restoreEntries family fd u is sockets = some t) : Valid family t := by
  intro k v hk
  rcases (restoreEntries_views hrestore k v).mp hk with hold | ⟨i, -, hused, hidx, rfl⟩
  · exact h k v hold
  · unfold UdpContextFd.used at hused
    rw [decide_eq_true_eq] at hused
    exact ⟨hidx ▸ k.isLt, hused.2, Or.inr rfl, rfl⟩

theorem views_map {sockets t : Sockets} {f : Fin sockNum → SocketContext → SocketContext}
    (hf : ∀ k ctx, viewOf (f k ctx) = viewOf ctx) (ht : ∀ k, t.sockCtx k = (sockets.sockCtx k).map (f k)) : views t = views sockets := by
  funext k
  unfold views
  rw [ht, Option.map_map]
  exact congrArg (fun g => Option.map g _) (funext (hf k))

theorem saveNetAppInfos_sockets (onenetWrite cdpWrite : Bool) : (saveNetAppInfos onenetWrite cdpWrite s).sockets = s.sockets := by
  unfold saveNetAppInfos saveUdpContextDeepsleep
  dsimp only
  split
  · split
    · rfl
    · rfl
  · split
    · rfl
    · rfl

theorem resumeSocketTask_sockets {fd : Fin sockNum → UInt8} (h : resumeSocketTask family fd s = some t) :
    t.sockets = s.sockets ∨ restoreEntries family fd s.nv (List.finRange sockNum) s.sockets = some t.sockets := by
  unfold resumeSocketTask at h
  split at h
  · cases h
    exact Or.inl rfl
  · obtain ⟨t', hresume, rfl⟩ := Option.map_eq_some_iff.mp h
    unfold resumeSocketApp creatUdpBackupContext at hresume
    split at hresume
    · cases hresume
      exact Or.inl rfl
    · split at hresume
      · cases hresume
        exact Or.inl rfl
      · obtain ⟨t'', hrestore, rfl⟩ := Option.map_eq_some_iff.mp hresume
        unfold restoreUdpContextThread at hrestore
        dsimp only at hrestore
        split at hrestore
        · cases hrestore
          exact Or.inl rfl
        · obtain ⟨sockets, hentries, rfl⟩ := Option.map_eq_some_iff.mp hrestore
          exact Or.inr hentries

theorem valid_init : Valid family .init := fun _ _ hk => nomatch hk

theorem step_valid (action : Action family) (s t : NetApp) (h : Valid family s.sockets) (hstep : step family action s = some t) :
    Valid family t.sockets := by
  cases action with
  | «open» i ctx bound =>
    cases hstep
    intro k v hk
    rw [views_update] at hk
    by_cases hki : k = i
    · rw [hki, Function.update_self] at hk
      cases hk
      exact bound
    · rw [Function.update_of_ne hki] at hk
      exact h k v hk
  | qiclose i =>
    cases hstep
    intro k v hk
    rw [views_map (f := fun k ctx => if k = i then { ctx with quit := 1, sockState := .closing } else ctx)
      (fun k ctx => by split <;> rfl) fun k => ?_] at hk
    · exact h k v hk
    · by_cases hki : k = i
      · subst hki
        simp only [if_pos]
        exact Sockets.modify_self
      · simp only [if_neg hki]
        exact (Sockets.modify_of_ne hki).trans Option.map_id'.symm
  | netifDown =>
    cases hstep
    intro k v hk
    rw [views_map (f := fun _ ctx => { ctx with isDeact := 1 }) (fun _ _ => rfl) fun _ => rfl] at hk
    exact h k v hk
  | delete i =>
    cases hstep
    intro k v hk
    rw [views_update] at hk
    by_cases hki : k = i
    · rw [hki, Function.update_self] at hk
      cases hk
    · rw [Function.update_of_ne hki] at hk
      exact h k v hk
  | rcvThreadExit =>
    dsimp only [step] at hstep
    split at hstep
    · cases hstep
      exact h
    · cases hstep
  | save onenetWrite cdpWrite =>
    cases hstep
    rw [saveNetAppInfos_sockets]
    exact h
  | sleep onenetWrite cdpWrite =>
    cases hstep
    exact valid_init
  | resume fd =>
    rcases resumeSocketTask_sockets hstep with hsame | hrestore
    · rw [hsame]
      exact h
    · exact restoreEntries_valid h hrestore
  | restart nv =>
    cases hstep
    exact valid_init

/-- In every state that a history reaches, exactly the open UDP sockets outlast a deep sleep if
and only if the record can hold them, or there is none and nothing older is resumed. -/
theorem udp_survive_iff (workMode : ℕ) (nv : UdpContext) (actions : List (Action family)) (s : NetApp)
    (hrun : run (step family) actions (NetApp.start workMode nv) = some s) : Survive family s ↔ Survivable s := by
  apply survive_iff_of_valid
  have hstart : Valid family (NetApp.start workMode nv).sockets := valid_init
  exact run_invariant (P := fun _ _ => True) (fun action s t h _ => step_valid action s t h) hstart
    (along_true (step family) actions _) hrun

/-- A UDP socket with a host of the given length. -/
def sampleCtx (hostLen : ℕ) : SocketContext :=
  { SocketContext.zero 0 with
    localPort := 5000, remotePort := 80, netType := 1, recvCtl := 1, remoteIp := List.replicate hostLen 97 }

def openSample (hostLen : ℕ) : Action fun _ => 0 :=
  .open ⟨0, sockNum_pos⟩ (sampleCtx hostLen) ⟨(by decide : (0 : UInt8).toNat < sockNum), (by decide : (5000 : UInt16) ≠ 0), Or.inr rfl, rfl⟩

/-- A socket is saved and then closed. -/
def sampleHistory : List (Action fun _ => 0) := [openSample 12, .save false false, .delete ⟨0, sockNum_pos⟩]

theorem udp_survive_iff_sample : ∃ s, run (step fun _ => 0) sampleHistory (NetApp.start 0 .zero) = some s ∧
    (Survive (fun _ => 0) s ↔ Survivable s) :=
  ⟨_, rfl, udp_survive_iff 0 .zero sampleHistory _ rfl⟩

/-- The end of a long host is not saved. -/
theorem long_host_is_cut : ¬ ∀ (family : List UInt8 → UInt8) workMode nv (actions : List (Action family)) s,
    run (step family) actions (NetApp.start workMode nv) = some s → Survive family s := by
  intro h
  have hsurvive := h (fun _ => 0) 0 .zero [openSample 41] _ rfl
  have hvalid := step_valid (openSample 41) (NetApp.start 0 .zero) _ valid_init rfl
  rcases (survive_iff_of_valid hvalid).mp hsurvive with ⟨hidle, -⟩ | ⟨-, -, -, hstorable⟩ | ⟨-, -, hnone⟩
  · exact absurd hidle (by decide)
  · exact absurd (hstorable.host ⟨0, sockNum_pos⟩ (sampleCtx 41) rfl rfl) (by decide)
  · exact hnone ⟨0, sockNum_pos⟩ (sampleCtx 41) rfl (by decide)

end NbiotXY1100.UdpDeepSleep
