import NbiotXY1100.CdpDownstreamSave
import NbiotXY1100.LpmDeepsleep
import NbiotXY1100.UdpDeepSleep

/-! # A deep sleep that is given up

`nv_write_to_flash` saves the network applications and the downlink buffer of the CDP client before
`LPM_Deepsleep_Process` looks at the UTC interrupt for the last time. Saving empties the buffer in
memory, so a sleep that is given up after it loses the messages; sockets and sessions are not made a
second time. -/
namespace NbiotXY1100.LpmGivenUp
open AtSocketContext NetAppResume CdpDownstream LpmDeepsleep StepRuns

/-- The network applications, `downstream_info`, the flash area of the downlink buffer,
`g_cdp_resume_flag`, and how many tasks of the CDP client there are. The content of the area is not
known after a copy has left its block. -/
structure Apps where
  net : NetApp
  downstream : Option Downstream
  area : Option (List UInt8)
  resumeFlag : Bool
  cdpTasks : ℕ

/-! ### Saving -/

/-- `cdpWrite` is the result of `cdp_write_regInfo`. -/
structure SaveConfig where
  offtime : ℕ
  fastOff : ℤ
  cdpWrite : Bool
  deriving DecidableEq, Repr

/-- What `cdp_downbuffered_save` leaves of the buffer in memory. -/
def drain (d : Downstream) : Downstream :=
  if 0 < d.receivedNum then
    { d with bufferedNum := min d.bufferedNum 0, list := d.list.drop d.bufferedNum.toNat }
  else d

/-- The record of erased flash. -/
def erasedRecord : UdpContext := ⟨fun _ => ⟨65535, 65535, List.replicate remoteIpLen 255, 255, 255, 255⟩, 0xFFFFFFFF⟩

/-- The branch of `g_fast_off`. -/
def eraseNetData (s : Apps) : Apps :=
  { s with net := { s.net with nv := erasedRecord, flag := .clear }, area := some erasedArea }

/-- `save_net_app_infos` and `cdp_downbuffered_save`. -/
def saveNetData (cfg : SaveConfig) (s : Apps) : Apps :=
  { s with
    net := saveNetAppInfos false cfg.cdpWrite s.net
    downstream := s.downstream.map drain
    area := match s.downstream with
      | none => s.area
      | some d => s.area.bind (cdpDownbufferedSave d) }

/-- What `nv_write_to_flash` does to the applications. -/
def nvWriteToFlash (cfg : SaveConfig) (s : Apps) : Apps :=
  if cfg.offtime = 0 then if cfg.fastOff ≠ -1 then eraseNetData s else saveNetData cfg s
  else s

/-! ### Reading and resuming later -/

def readMessage (s : Apps) (d : Downstream) : Option (Option Message × Apps) :=
  (takeMessage d).map fun (d, data) => (data, { s with downstream := some d })

/-- `get_message_via_lwm2m`. -/
def getMessageViaLwm2m (s : Apps) : Option (Option Message × Apps) :=
  match s.downstream with
  | some d => readMessage s d
  | none =>
    if s.net.flag.cdp then
      (resumeOnce s.resumeFlag s.area .zero).bind fun (ok, d) =>
        if ok then readMessage { s with resumeFlag := true } d
        else some (none, { s with downstream := some d, resumeFlag := true })
    else some (none, s)

/-- What a number of calls return. -/
def readMessages : ℕ → Apps → Option (List Message)
  | 0, _ => some []
  | n + 1, s => (getMessageViaLwm2m s).bind fun (data, s) => (readMessages n s).map (data.toList ++ ·)

/-- `resume_net_app(CDP_TASK)`. `ready` tells whether the client has got past `STATE_REGISTERING`. -/
def resumeCdpTask (ready : Bool) (s : Apps) : Apps :=
  let handleExist := decide (0 < s.cdpTasks)
  if s.net.workMode ≠ 0 ∨ s.net.flag.cdp = false then s
  else
    let s := if handleExist && ready then s else if handleExist then s else { s with cdpTasks := s.cdpTasks + 1 }
    { s with net := { s.net with flag := { s.net.flag with cdp := false } } }

/-! ### What must not be lost -/

/-- The messages that are buffered, in memory or for the first read. -/
def buffered (s : Apps) : List Message :=
  match s.downstream with
  | some d => d.list
  | none =>
    if s.net.flag.cdp then ((resumeOnce s.resumeFlag s.area .zero).map fun result => result.2.list).getD [] else []

/-- The buffer is the one of before and every message is read once and in order; and whatever happens
to the sockets then, resuming makes no second copy of a socket or a session. -/
structure Kept (s t : Apps) : Prop where
  downstream : t.downstream = s.downstream
  messages : ∀ n, readMessages n t = some ((buffered s).take n)
  sockets : ∀ (family : List UInt8 → UInt8) (actions : List (UdpDeepSleep.Action family)) (fd : Fin sockNum → UInt8)
    (u v : NetApp), run (UdpDeepSleep.step family) actions t.net = some u → (∃ i, u.sockets.sockCtx i ≠ none) →
      resumeSocketTask family fd u = some v → v.sockets = u.sockets
  session : ∀ ready, 0 < t.cdpTasks → (resumeCdpTask ready t).cdpTasks = t.cdpTasks

/-- The numbers are those of the queues, the thread that receives runs while there is a socket, and a
session whose buffer was dropped has had its area erased. -/
structure Consistent (cfg : SaveConfig) (s : Apps) : Prop where
  queue : ∀ d, s.downstream = some d → d.bufferedNum = d.list.length
  flash : s.downstream = none → s.net.flag.cdp = true →
    ∃ d, resumeOnce s.resumeFlag s.area .zero = some (true, d) ∧ d.bufferedNum = d.list.length
  session : cfg.cdpWrite = true → s.downstream = none → s.net.flag.cdp = false → s.area = some erasedArea
  served : (∃ i, s.net.sockets.sockCtx i ≠ none) → s.net.rcvThread = true

/-- Whenever the sleep is given up, nothing is lost. -/
def GivesUpCleanly (cfg : SaveConfig) (deepsleepTime : ℕ) (r : DeepsleepReads) (regs : Regs) (s : Apps) : Prop :=
  ∀ regs' t, lpmDeepsleepProcess (nvWriteToFlash cfg) cfg.offtime deepsleepTime r (regs, s) =
    some (.givenUp, regs', t) → Kept s t

/-- The save succeeds and the UTC interrupt is pending then. -/
def CancelsLate (deepsleepTime : ℕ) (r : DeepsleepReads) : Prop :=
  r.allowed = true ∧ enters deepsleepTime r = true ∧ deepsleepOrNotLoaded r.dspSave1 = true ∧
    deepsleepOrNotLoaded r.dspSave2 = true ∧ deepsleepOrNotLoaded r.dspSave3 = true ∧ r.utcPending = true

/-- There are messages in memory that the save moves to the flash, or messages in flash that a fast
power-off erases. -/
def Loses (cfg : SaveConfig) (s : Apps) : Prop :=
  cfg.offtime = 0 ∧
    ((cfg.fastOff = -1 ∧ ∃ d, s.downstream = some d ∧ 0 < d.receivedNum ∧ d.list ≠ []) ∨
      (cfg.fastOff ≠ -1 ∧ s.downstream = none ∧ buffered s ≠ []))

/-! ### Reading -/

theorem readMessages_queue (n : ℕ) (s : Apps) {d : Downstream} (hnum : d.bufferedNum = d.list.length) :
    readMessages n { s with downstream := some d } = some (d.list.take n) := by
  induction n generalizing s d with
  | zero => rfl
  | succ n ih =>
    simp only [readMessages, getMessageViaLwm2m, readMessage, takeMessage]
    cases hlist : d.list with
    | nil =>
      have hzero : ¬ 0 < d.bufferedNum := by
        rw [hnum, hlist]
        decide
      rw [if_neg hzero, Option.map_some, Option.bind_some]
      simp only [ih s hnum, hlist, List.take_nil, Option.map_some, Option.toList_none, List.append_nil]
    | cons data rest =>
      rw [hlist, List.length_cons] at hnum
      have hpos : 0 < d.bufferedNum := by omega
      have hrest : d.bufferedNum - 1 = rest.length := by omega
      have hrec := @ih s
        { d with list := rest, bufferedNum := d.bufferedNum - 1, bufferedTotal := d.bufferedTotal - data.length } hrest
      rw [if_pos hpos, Option.map_some, Option.bind_some]
      simp only [hrec, Option.map_some, Option.toList_some, List.singleton_append, List.take_succ_cons]

theorem readMessages_idle (n : ℕ) {s : Apps} (hd : s.downstream = none) (hflag : s.net.flag.cdp = false) :
    readMessages n s = some [] := by
  induction n with
  | zero => rfl
  | succ n ih =>
    have hnot : ¬ s.net.flag.cdp = true := Bool.eq_false_iff.mp hflag
    rw [readMessages, getMessageViaLwm2m, hd]
    simp only
    rw [if_neg hnot, Option.bind_some]
    simp only [ih, Option.map_some, Option.toList_none, List.append_nil]

/-- The calls return what is buffered. -/
theorem readMessages_buffered (n : ℕ) {s : Apps} (hqueue : ∀ d, s.downstream = some d → d.bufferedNum = d.list.length)
    (hflash : s.downstream = none → s.net.flag.cdp = true →
      ∃ d, resumeOnce s.resumeFlag s.area .zero = some (true, d) ∧ d.bufferedNum = d.list.length) :
    readMessages n s = some ((buffered s).take n) := by
  cases hd : s.downstream with
  | some d =>
    have hread := readMessages_queue n s (hqueue d hd)
    rw [← hd] at hread
    simp only [buffered, hd]
    exact hread
  | none =>
    cases hflag : s.net.flag.cdp with
    | false =>
      simp only [buffered, hd, hflag, Bool.false_eq_true, if_false, List.take_nil]
      exact readMessages_idle n hd hflag
    | true =>
      obtain ⟨d, hresume, hnum⟩ := hflash hd hflag
      simp only [buffered, hd, hflag, hresume, if_true, Option.map_some, Option.getD_some]
      cases n with
      | zero => rfl
      | succ n =>
        -- the first call is the one that would be made on the resumed buffer
        have hfirst : getMessageViaLwm2m s = getMessageViaLwm2m { s with downstream := some d, resumeFlag := true } := by
          simp only [getMessageViaLwm2m, hd, hflag, hresume, if_true, Option.bind_some]
          rfl
        rw [readMessages, hfirst]
        exact readMessages_queue (n + 1) { s with resumeFlag := true } hnum

/-! ### Sockets and sessions -/

section Served

variable {family : List UInt8 → UInt8} {s t : NetApp}

/-- The thread that receives runs while there is a socket. -/
def Served (s : NetApp) : Prop := (∃ i, s.sockets.sockCtx i ≠ none) → s.rcvThread = true

theorem saveNetAppInfos_rcvThread (onenetWrite cdpWrite : Bool) (s : NetApp) :
    (saveNetAppInfos onenetWrite cdpWrite s).rcvThread = s.rcvThread := by
  simp only [saveNetAppInfos, saveUdpContextDeepsleep]
  split <;> split <;> rfl

theorem saveNetAppInfos_cdp (onenetWrite cdpWrite : Bool) (s : NetApp) :
    (saveNetAppInfos onenetWrite cdpWrite s).flag.cdp = (s.flag.cdp || cdpWrite) := by
  simp only [saveNetAppInfos, saveUdpContextDeepsleep]
  split <;> split <;> rfl

theorem Served.save (h : Served s) (onenetWrite cdpWrite : Bool) : Served (saveNetAppInfos onenetWrite cdpWrite s) := by
  rw [Served, UdpDeepSleep.saveNetAppInfos_sockets, saveNetAppInfos_rcvThread]
  exact h

/-- A resume starts the thread with the sockets that it makes. -/
theorem Served.resume {fd : Fin sockNum → UInt8} (h : Served s) (hresume : resumeSocketTask family fd s = some t) :
    Served t := by
  rw [resumeSocketTask] at hresume
  split at hresume
  · obtain rfl := Option.some.inj hresume
    exact h
  · obtain ⟨u, happ, rfl⟩ := Option.map_eq_some_iff.mp hresume
    clear hresume
    rw [resumeSocketApp, creatUdpBackupContext] at happ
    split at happ
    · obtain rfl := Option.some.inj happ
      exact h
    · split at happ
      · obtain rfl := Option.some.inj happ
        exact h
      · obtain ⟨v, hrestore, rfl⟩ := Option.map_eq_some_iff.mp happ
        simp only [restoreUdpContextThread] at hrestore
        split at hrestore
        · obtain rfl := Option.some.inj hrestore
          exact h
        · obtain ⟨sockets, -, rfl⟩ := Option.map_eq_some_iff.mp hrestore
          rintro ⟨i, hi⟩
          have hexit : isAllSocketExit sockets = false := by
            rw [Bool.eq_false_iff]
            exact fun hall => hi (UdpDeepSleep.isAllSocketExit_iff.mp hall i)
          simp [hexit]

theorem served_step (action : UdpDeepSleep.Action family) (s t : NetApp) (h : Served s)
    (hstep : UdpDeepSleep.step family action s = some t) : Served t := by
  cases action with
  | «open» i ctx bound =>
    obtain rfl := Option.some.inj hstep
    exact fun _ => rfl
  | qiclose i =>
    obtain rfl := Option.some.inj hstep
    rintro ⟨j, hj⟩
    refine h ⟨j, fun hnone => hj ?_⟩
    by_cases hji : j = i
    · subst hji
      exact Sockets.modify_self.trans (by rw [hnone]; rfl)
    · exact (Sockets.modify_of_ne hji).trans hnone
  | netifDown =>
    obtain rfl := Option.some.inj hstep
    rintro ⟨i, hi⟩
    exact h ⟨i, fun hnone => hi (by simp [hnone])⟩
  | delete i =>
    obtain rfl := Option.some.inj hstep
    rintro ⟨j, hj⟩
    refine h ⟨j, fun hnone => hj ?_⟩
    simp only [Function.update_apply, hnone, ite_self]
  | rcvThreadExit =>
    simp only [UdpDeepSleep.step] at hstep
    split at hstep
    next hexit =>
      obtain rfl := Option.some.inj hstep
      rintro ⟨i, hi⟩
      exact absurd (UdpDeepSleep.isAllSocketExit_iff.mp hexit i) hi
    · cases hstep
  | save onenetWrite cdpWrite =>
    obtain rfl := Option.some.inj hstep
    exact h.save onenetWrite cdpWrite
  | sleep onenetWrite cdpWrite =>
    obtain rfl := Option.some.inj hstep
    rintro ⟨i, hi⟩
    exact absurd rfl hi
  | resume fd => exact h.resume hstep
  | restart nv =>
    obtain rfl := Option.some.inj hstep
    rintro ⟨i, hi⟩
    exact absurd rfl hi

/-- While there is a socket a resume changes none. -/
theorem resumeSocketTask_served {fd : Fin sockNum → UInt8} (h : Served s) (hsocket : ∃ i, s.sockets.sockCtx i ≠ none)
    (hresume : resumeSocketTask family fd s = some t) : t.sockets = s.sockets := by
  rw [resumeSocketTask] at hresume
  split at hresume
  · obtain rfl := Option.some.inj hresume
    rfl
  · obtain ⟨u, happ, rfl⟩ := Option.map_eq_some_iff.mp hresume
    clear hresume
    rw [resumeSocketApp, creatUdpBackupContext, if_pos (.inl (h hsocket))] at happ
    obtain rfl := Option.some.inj happ
    rfl

theorem resumeCdpTask_session (ready : Bool) {s : Apps} (h : 0 < s.cdpTasks) :
    (resumeCdpTask ready s).cdpTasks = s.cdpTasks := by
  simp only [resumeCdpTask, h, decide_true, Bool.true_and, if_true]
  split
  · rfl
  · split <;> rfl

end Served

/-- What is left to show of a state after the save. -/
theorem kept_of_messages {s t : Apps} (hserved : Served t.net) (hd : t.downstream = s.downstream)
    (hread : ∀ n, readMessages n t = some ((buffered s).take n)) : Kept s t where
  downstream := hd
  messages := hread
  sockets family actions fd u v hrun hsocket hresume := by
    have hu : Served u :=
      run_invariant (fun action s t h _ => served_step action s t h) hserved (along_true _ actions t.net) hrun
    exact resumeSocketTask_served hu hsocket hresume
  session ready := resumeCdpTask_session ready

/-! ### After the save -/

variable {cfg : SaveConfig} {s : Apps}

theorem drain_eq_self {d : Downstream} (hnum : d.bufferedNum = d.list.length) (h : ¬ (0 < d.receivedNum ∧ d.list ≠ [])) :
    drain d = d := by
  rw [drain]
  split
  next hreceived =>
    have hnil : d.list = [] := by
      by_contra hne
      exact h ⟨hreceived, hne⟩
    have hzero : d.bufferedNum = 0 := by rw [hnum, hnil]; rfl
    simp only [hnil, List.drop_nil, hzero, min_self]
    rw [← hnil, ← hzero]
  · rfl

theorem drain_ne_self {d : Downstream} (hnum : d.bufferedNum = d.list.length) (hreceived : 0 < d.receivedNum)
    (hne : d.list ≠ []) : drain d ≠ d := by
  intro heq
  have hlist := congrArg Downstream.list heq
  simp only [drain, if_pos hreceived, hnum, Int.toNat_natCast, List.drop_length] at hlist
  exact hne hlist.symm

theorem kept_self (hs : Consistent cfg s) : Kept s s :=
  kept_of_messages hs.served rfl fun n => readMessages_buffered n hs.queue hs.flash

theorem word_erasedArea {k : ℕ} (hk : k + 4 ≤ areaSize) : ByteBuffers.word erasedArea k = 0xFFFFFFFF := by
  have hmin : min 4 (areaSize - k) = 4 := by omega
  rw [ByteBuffers.word, erasedArea, List.drop_replicate, List.take_replicate, hmin]
  decide

/-- Nothing comes back from an erased area. -/
theorem resumeOnce_erased (h : s.area = some erasedArea) :
    ∃ d, resumeOnce s.resumeFlag s.area .zero = some (true, d) ∧ d.bufferedNum = d.list.length ∧ d.list = [] := by
  rw [resumeOnce]
  split
  · exact ⟨.zero, rfl, rfl, rfl⟩
  · refine ⟨⟨0, 0, 0, -1, []⟩, ?_, rfl, rfl⟩
    have hminus : toInt 0xFFFFFFFF = -1 := by decide
    have hzero : max 0 (-1 : ℤ) = 0 := by decide
    simp only [h, Option.bind_some, cdpDownbufferedResume, cdpDownbufferedNumResume,
      word_erasedArea (show 0 + 4 ≤ areaSize by decide), word_erasedArea (show 4 + 4 ≤ areaSize by decide),
      word_erasedArea (show 8 + 4 ≤ areaSize by decide), word_erasedArea (show 12 + 4 ≤ areaSize by decide),
      hminus, hzero]
    rfl

theorem kept_erase_iff (hs : Consistent cfg s) :
    Kept s (eraseNetData s) ↔ ¬ (s.downstream = none ∧ buffered s ≠ []) := by
  constructor
  · rintro hkept ⟨hd, hne⟩
    have hall := hkept.messages (buffered s).length
    rw [@readMessages_idle (buffered s).length (eraseNetData s) hd rfl, List.take_length] at hall
    exact hne (Option.some.inj hall).symm
  · intro hnot
    refine kept_of_messages hs.served rfl fun n => ?_
    cases hd : s.downstream with
    | some d =>
      have hread := readMessages_queue n (eraseNetData s) (hs.queue d hd)
      have hsame : { eraseNetData s with downstream := some d } = eraseNetData s := by
        rw [← hd]
        rfl
      rw [hsame] at hread
      simpa only [buffered, hd] using hread
    | none =>
      have hnil : buffered s = [] := by
        by_contra hne
        exact hnot ⟨hd, hne⟩
      rw [readMessages_idle n (by exact hd) rfl, hnil, List.take_nil]

theorem kept_save_iff (hs : Consistent cfg s) :
    Kept s (saveNetData cfg s) ↔ ¬ ∃ d, s.downstream = some d ∧ 0 < d.receivedNum ∧ d.list ≠ [] := by
  have hserved : Served (saveNetData cfg s).net := Served.save hs.served false cfg.cdpWrite
  constructor
  · rintro hkept ⟨d, hd, hreceived, hne⟩
    have hsame := hkept.downstream
    simp only [saveNetData, hd, Option.map_some, Option.some.injEq] at hsame
    exact drain_ne_self (hs.queue d hd) hreceived hne hsame
  · intro hnot
    cases hd : s.downstream with
    | some d =>
      have hdrain : drain d = d := drain_eq_self (hs.queue d hd) fun h => hnot ⟨d, hd, h.1, h.2⟩
      have hsame : (saveNetData cfg s).downstream = some d := by
        simp only [saveNetData, hd, Option.map_some, hdrain]
      refine kept_of_messages hserved (hsame.trans hd.symm) fun n => ?_
      have hbuffered : buffered (saveNetData cfg s) = buffered s := by simp only [buffered, hsame, hd]
      rw [← hbuffered]
      refine readMessages_buffered n (fun d' hd' => ?_) fun hnone => ?_
      · rw [hsame] at hd'
        exact Option.some.inj hd' ▸ hs.queue d hd
      · exact absurd (hsame.symm.trans hnone) (Option.some_ne_none d)
    | none =>
      have hnone : (saveNetData cfg s).downstream = none := by simp only [saveNetData, hd, Option.map_none]
      have harea : (saveNetData cfg s).area = s.area := by simp only [saveNetData, hd]
      have hresume : resumeOnce (saveNetData cfg s).resumeFlag (saveNetData cfg s).area .zero =
          resumeOnce s.resumeFlag s.area .zero := by
        rw [harea]
        rfl
      have hcdp : (saveNetData cfg s).net.flag.cdp = (s.net.flag.cdp || cfg.cdpWrite) :=
        saveNetAppInfos_cdp false cfg.cdpWrite s.net
      refine kept_of_messages hserved (hnone.trans hd.symm) fun n => ?_
      cases hflag : s.net.flag.cdp with
      | true =>
        have hbuffered : buffered (saveNetData cfg s) = buffered s := by
          simp only [buffered, hnone, hd, hcdp, hflag, Bool.true_or, hresume]
        rw [← hbuffered]
        refine readMessages_buffered n (fun d hsome => ?_) fun _ _ => hresume ▸ hs.flash hd hflag
        exact absurd (hnone.symm.trans hsome) (Option.some_ne_none d).symm
      | false =>
        have hnil : buffered s = [] := by simp only [buffered, hd, hflag, Bool.false_eq_true, if_false]
        rw [hnil, List.take_nil]
        cases hwrite : cfg.cdpWrite with
        | false =>
          rw [hflag, hwrite, Bool.or_false] at hcdp
          exact readMessages_idle n hnone hcdp
        | true =>
          obtain ⟨d, hempty, hnum, hlist⟩ := resumeOnce_erased (hs.session hwrite hd hflag)
          rw [hflag, hwrite, Bool.false_or] at hcdp
          have hbuffered : buffered (saveNetData cfg s) = [] := by
            simp only [buffered, hnone, hcdp, hresume, hempty, if_true, Option.map_some, Option.getD_some, hlist]
          have hread := @readMessages_buffered n (saveNetData cfg s)
            (fun d hsome => absurd (hnone.symm.trans hsome) (Option.some_ne_none d).symm)
            fun _ _ => ⟨d, hresume.trans hempty, hnum⟩
          rw [hread, hbuffered, List.take_nil]

/-- A complete save keeps everything exactly when there is nothing to lose. -/
theorem kept_nvWriteToFlash_iff (hs : Consistent cfg s) : Kept s (nvWriteToFlash cfg s) ↔ ¬ Loses cfg s := by
  by_cases hoff : cfg.offtime = 0
  · by_cases hfast : cfg.fastOff = -1
    · have hwrite : nvWriteToFlash cfg s = saveNetData cfg s := by
        rw [nvWriteToFlash, if_pos hoff, if_neg (not_not.mpr hfast)]
      rw [hwrite, kept_save_iff hs]
      simp [Loses, hoff, hfast]
    · have hwrite : nvWriteToFlash cfg s = eraseNetData s := by
        rw [nvWriteToFlash, if_pos hoff, if_pos hfast]
      rw [hwrite, kept_erase_iff hs]
      simp [Loses, hoff, hfast]
  · have hwrite : nvWriteToFlash cfg s = s := by rw [nvWriteToFlash, if_neg hoff]
    rw [hwrite]
    exact iff_of_true (kept_self hs) fun h => hoff h.1

theorem lpmDeepsleepProcess_cancelsLate {α : Type*} (nvWriteToFlash : α → α) (offtime : ℕ) {deepsleepTime : ℕ}
    {r : DeepsleepReads} (h : CancelsLate deepsleepTime r) (regs : Regs) (app : α) :
    ∃ regs', lpmDeepsleepProcess nvWriteToFlash offtime deepsleepTime r (regs, app) =
      some (.givenUp, regs', nvWriteToFlash app) := by
  obtain ⟨hallowed, henters, hone, htwo, hthree, hpending⟩ := h
  simp only [lpmDeepsleepProcess, saveNvInDeepsleep, hallowed, henters, hone, htwo, hthree, hpending, if_true,
    Bool.true_eq_false, if_false, or_true]
  exact ⟨_, rfl⟩

theorem givesUpCleanly_iff (deepsleepTime : ℕ) (r : DeepsleepReads) (regs : Regs) (hs : Consistent cfg s) :
    GivesUpCleanly cfg deepsleepTime r regs s ↔ ¬ (CancelsLate deepsleepTime r ∧ Loses cfg s) := by
  constructor
  · rintro hclean ⟨hlate, hloses⟩
    obtain ⟨regs', hresult⟩ := lpmDeepsleepProcess_cancelsLate (nvWriteToFlash cfg) cfg.offtime hlate regs s
    exact (kept_nvWriteToFlash_iff hs).mp (hclean regs' _ hresult) hloses
  · intro hnot regs' t hresult
    have hreturns := lpmDeepsleepProcess_returns _ hresult
    generalize hu : (regs', t) = u at hreturns
    cases hreturns with
    | unsaved _ _ _ =>
      obtain ⟨-, rfl⟩ := Prod.mk.inj hu
      exact kept_self hs
    | masked _ _ _ _ =>
      obtain ⟨-, rfl⟩ := Prod.mk.inj hu
      exact kept_self hs
    | pending hallowed henters hone htwo hthree hpending =>
      obtain ⟨-, rfl⟩ := Prod.mk.inj hu
      exact (kept_nvWriteToFlash_iff hs).mpr fun hloses =>
        hnot ⟨⟨hallowed, henters, hone, htwo, hthree, hpending⟩, hloses⟩

/-! ### One message -/

/-- The client runs, with one message that has not been read. -/
def exampleApps : Apps where
  net := UdpDeepSleep.NetApp.start 0 .zero
  downstream := some ⟨1, 1, 0, 2, [[104, 105]]⟩
  area := some erasedArea
  resumeFlag := true
  cdpTasks := 1

def exampleSave : SaveConfig := ⟨0, -1, true⟩

theorem consistent_exampleApps : Consistent exampleSave exampleApps where
  queue := by
    rintro d ⟨⟩
    rfl
  flash := nofun
  session := nofun
  served := by
    rintro ⟨i, hi⟩
    exact absurd rfl hi

theorem givesUpCleanly_iff_alive :
    GivesUpCleanly exampleSave 1000 (exampleReads .alive .deepsleepReady) exampleRegs exampleApps :=
  (givesUpCleanly_iff 1000 (exampleReads .alive .deepsleepReady) exampleRegs consistent_exampleApps).mpr fun h =>
    absurd h.1.2.2.1 (by decide)

/-- The UTC interrupt is pending after the save, and the message is no longer in memory. -/
theorem not_alwaysClean :
    ¬ ∀ (cfg : SaveConfig) (deepsleepTime : ℕ) (r : DeepsleepReads) (regs : Regs) (s : Apps), Consistent cfg s →
      GivesUpCleanly cfg deepsleepTime r regs s := by
  intro h
  have hlate : CancelsLate 1000 (exampleReads .deepsleepReady .deepsleepReady) := by
    exact ⟨rfl, by decide, by decide, by decide, by decide, rfl⟩
  obtain ⟨regs', hresult⟩ :=
    lpmDeepsleepProcess_cancelsLate (nvWriteToFlash exampleSave) exampleSave.offtime hlate exampleRegs exampleApps
  have hkept := h exampleSave 1000 _ exampleRegs exampleApps consistent_exampleApps regs' _ hresult
  exact absurd hkept.downstream (by decide)

end NbiotXY1100.LpmGivenUp
