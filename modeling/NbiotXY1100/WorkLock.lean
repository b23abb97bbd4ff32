import NbiotXY1100.StepRuns
import Mathlib.Algebra.GroupWithZero.Nat
import Mathlib.Logic.Function.Basic

/-! # Work locks

`at_worklock.c` counts the locks that keep the chip out of deep sleep: those of user code, of the platform
and of the external MCU, and one that delays deep sleep for a while. The DSP is told when the locks of user
code and of the MCU come and go. -/
namespace NbiotXY1100.WorkLock
open StepRuns

/-- `WORK_LOCK_TYPE_E`. -/
inductive LockType where
  | lockDefault
  | lockXyLocal
  | lockDelay
  | lockExt
  deriving DecidableEq, Repr

/-- `MSG_USER_LOCK`. -/
inductive LockMsg where
  | msgUnlock
  | msgLock
  | msgFastoff
  deriving DecidableEq, Repr

/-- The factory NV that the locks read; `operationVer` is `CHECK_SDK_TYPE(OPERATION_VER)`. -/
structure LockNv where
  deepsleepEnable : Bool
  deepsleepDelay : ℕ
  extLockDisable : Bool
  operationVer : Bool
  deriving DecidableEq, Repr

/-- `lock_head`, the flags beside it and the delay timer. `due` counts the expiries whose callback did not
run yet, `sent` the messages that were handed to the DSP. -/
structure LockState where
  num : LockType → ℕ
  haveLockExt : Bool
  atLock : Bool
  haveFreeLock : Bool
  userLockState : Bool
  timerRunning : Bool
  due : ℕ
  sent : List LockMsg

def LockState.total (s : LockState) : ℕ :=
  s.num .lockXyLocal + s.num .lockDefault + s.num .lockExt + s.num .lockDelay

def LockState.setNum (type : LockType) (n : ℕ) (s : LockState) : LockState :=
  { s with num := Function.update s.num type n }

/-- `send_shm_msg` of a lock message, which fails while the DSP is not loaded. -/
def sendLockMsg (notLoaded : Bool) (msg : LockMsg) (s : LockState) : LockState :=
  if notLoaded then s else { s with sent := s.sent ++ [msg] }

def xyDelaylockSuspend (nv : LockNv) (s : LockState) : LockState :=
  if nv.deepsleepEnable = false ∨ nv.deepsleepDelay = 0 ∨ s.num .lockDelay = 0 then s
  else { s.setNum .lockDelay 0 with timerRunning := false }

/-- A count that leaves the range of `int`, also of their sum, is refused. -/
def increaseWorklock (nv : LockNv) (notLoaded : Bool) (type : LockType) (s : LockState) : Option LockState :=
  if nv.deepsleepEnable = false then some s
  else
    let s := { s with haveFreeLock := false }
    if type = .lockExt ∧ s.num type = 1 ∧ s.haveLockExt = false ∧ nv.extLockDisable = false then
      some { s with haveLockExt := true }
    else if 2 ^ 31 - 1 ≤ s.total then none
    else
      let s := s.setNum type (s.num type + 1)
      let s := if type = .lockExt then xyDelaylockSuspend nv s else s
      some (if (type = .lockDefault ∨ type = .lockExt) ∧ s.num .lockDefault + s.num .lockExt = 1 ∧ notLoaded = false
        then sendLockMsg notLoaded .msgLock { s with userLockState := true } else s)

/-- The count goes down by one, unless it is zero. -/
def lowerCount (type : LockType) (s : LockState) : LockState :=
  if 0 < s.num type then
    let s := s.setNum type (s.num type - 1)
    if type = .lockExt ∧ s.num .lockExt = 0 then { s with haveLockExt := true } else s
  else s

/-- With the last lock of the user the delay lock goes, and the DSP is told. -/
def releaseUsers (nv : LockNv) (notLoaded : Bool) (type : LockType) (s : LockState) : LockState :=
  if (type = .lockExt ∨ type = .lockDefault) ∧ s.num .lockExt + s.num .lockDefault = 0 then
    let s := xyDelaylockSuspend nv s
    if notLoaded then s else sendLockMsg notLoaded .msgUnlock { s with userLockState := false }
  else s

def decreaseWorklock (nv : LockNv) (notLoaded : Bool) (type : LockType) (s : LockState) : LockState :=
  if nv.deepsleepEnable = false then s
  else
    let s := releaseUsers nv notLoaded type (lowerCount type s)
    if s.total = 0 then { s with haveFreeLock := true } else s

def xyDelaylockActive (nv : LockNv) (notLoaded : Bool) (s : LockState) : Option LockState :=
  if nv.deepsleepEnable = false ∨ nv.deepsleepDelay = 0 ∨ 1 ≤ s.num .lockExt then some s
  else if s.timerRunning then some s
  else (increaseWorklock nv notLoaded .lockDelay s).map fun s => { s with timerRunning := true }

/-- The first AT command of the MCU takes a lock for it. -/
def setLockByMCUAt (nv : LockNv) (notLoaded : Bool) (s : LockState) : Option LockState :=
  if nv.deepsleepEnable = false then some s
  else (xyDelaylockActive nv notLoaded s).bind fun s =>
    if nv.operationVer then some s
    else if s.atLock = false ∧ nv.extLockDisable = false then
      (increaseWorklock nv notLoaded .lockExt s).map fun s => { s with atLock := true }
    else some s

def clearXyWorklock (nv : LockNv) (notLoaded : Bool) (s : LockState) : LockState :=
  let s := (xyDelaylockSuspend nv s).setNum .lockXyLocal 0
  if s.num .lockDefault + s.num .lockExt = 0 then
    sendLockMsg notLoaded .msgUnlock { s with userLockState := false }
  else s

def doUnlockAll (nv : LockNv) (notLoaded fastoff : Bool) (s : LockState) : LockState :=
  let s := (((xyDelaylockSuspend nv s).setNum .lockXyLocal 0).setNum .lockDefault 0).setNum .lockExt 0
  let s := { s with haveFreeLock := true }
  if fastoff then s else sendLockMsg notLoaded .msgUnlock { s with userLockState := false }

def xyFastPowerOff (nv : LockNv) (notLoaded : Bool) (s : LockState) : LockState :=
  let s := doUnlockAll nv notLoaded true s
  if notLoaded then s else sendLockMsg notLoaded .msgFastoff { s with userLockState := false }

/-- The conditions of deep sleep besides the locks. -/
structure SleepEnv where
  mgsleepEnable : Bool
  sleepMode : ℕ
  dspNotLoaded : Bool
  gDeepsleepDspReady : Bool
  userAllowDeepsleepHook : Bool

def lpmDeepsleepAllow (nv : LockNv) (env : SleepEnv) (s : LockState) : Bool :=
  nv.deepsleepEnable && s.haveFreeLock && !env.mgsleepEnable && env.sleepMode != 0 &&
    (env.dspNotLoaded || env.gDeepsleepDspReady) && env.userAllowDeepsleepHook

/-! ### Runs -/

/-- The locks that are taken by their type; the delay lock is taken by its own functions only. -/
abbrev UserLock := { type : LockType // type ≠ .lockDelay }

/-- What happens to the locks. Where it matters, an action says whether the DSP is not loaded then. -/
inductive Action where
  | lock (type : UserLock) (notLoaded : Bool)
  | unlock (type : UserLock) (notLoaded : Bool)
  | atFromMCU (notLoaded : Bool)
  | delayActive (notLoaded : Bool)
  | delaySuspend
  | delayExpires
  | delayCallback (notLoaded : Bool)
  | clearXy (notLoaded : Bool)
  | unlockAll (notLoaded : Bool)
  | fastPowerOff (notLoaded : Bool)

def step (nv : LockNv) : Action → LockState → Option LockState
  | .lock type notLoaded, s => increaseWorklock nv notLoaded type s
  | .unlock type notLoaded, s => some (decreaseWorklock nv notLoaded type s)
  | .atFromMCU notLoaded, s => setLockByMCUAt nv notLoaded s
  | .delayActive notLoaded, s => xyDelaylockActive nv notLoaded s
  | .delaySuspend, s => some (xyDelaylockSuspend nv s)
  | .delayExpires, s => if s.timerRunning then some { s with timerRunning := false, due := s.due + 1 } else none
  | .delayCallback notLoaded, s =>
    if 0 < s.due then some (decreaseWorklock nv notLoaded .lockDelay { s with due := s.due - 1 }) else none
  | .clearXy notLoaded, s => some (clearXyWorklock nv notLoaded s)
  | .unlockAll notLoaded, s => some (doUnlockAll nv notLoaded false s)
  | .fastPowerOff notLoaded, s => some (xyFastPowerOff nv notLoaded s)

/-- `worklock_init`; the flags in retention memory are what they were. -/
structure Booted (s : LockState) : Prop where
  num : ∀ type, s.num type = 0
  haveLockExt : s.haveLockExt = false
  atLock : s.atLock = false
  timerRunning : s.timerRunning = false
  due : s.due = 0
  sent : s.sent = []

/-! ### What the operations change -/

section
variable {nv : LockNv} {notLoaded : Bool} {type : LockType} {s t : LockState}

theorem total_eq_zero : s.total = 0 ↔ ∀ type, s.num type = 0 := by
  constructor
  · intro h type
    unfold LockState.total at h
    cases type with
    | lockDefault => omega
    | lockXyLocal => omega
    | lockDelay => omega
    | lockExt => omega
  · intro h
    simp [LockState.total, h]

@[simp] theorem setNum_num (n : ℕ) : (s.setNum type n).num = Function.update s.num type n := rfl

@[simp] theorem sendLockMsg_num (msg : LockMsg) : (sendLockMsg notLoaded msg s).num = s.num := by
  unfold sendLockMsg
  split
  · rfl
  · rfl

@[simp] theorem sendLockMsg_haveFreeLock (msg : LockMsg) :
    (sendLockMsg notLoaded msg s).haveFreeLock = s.haveFreeLock := by
  unfold sendLockMsg
  split
  · rfl
  · rfl

/-- The delay lock apart, `xy_delaylock_suspend` changes no lock and no flag. -/
structure SameUsers (s t : LockState) : Prop where
  num : ∀ type, type ≠ .lockDelay → t.num type = s.num type
  haveLockExt : t.haveLockExt = s.haveLockExt
  atLock : t.atLock = s.atLock
  haveFreeLock : t.haveFreeLock = s.haveFreeLock
  userLockState : t.userLockState = s.userLockState
  sent : t.sent = s.sent
  delay_le : t.num .lockDelay ≤ s.num .lockDelay

theorem suspend_same : SameUsers s (xyDelaylockSuspend nv s) := by
  unfold xyDelaylockSuspend
  split
  · exact ⟨fun _ _ => rfl, rfl, rfl, rfl, rfl, rfl, Nat.le_refl _⟩
  · exact ⟨fun _ h => Function.update_of_ne h _ _, rfl, rfl, rfl, rfl, rfl, by simp⟩

theorem suspend_delay (henable : nv.deepsleepEnable = true) (hdelay : nv.deepsleepDelay = 0 → s.num .lockDelay = 0) :
    (xyDelaylockSuspend nv s).num .lockDelay = 0 := by
  unfold xyDelaylockSuspend
  split
  next h =>
    rcases h with h | h | h
    · rw [henable] at h
      cases h
    · exact hdelay h
    · exact h
  next => simp

theorem increase_disabled (henable : nv.deepsleepEnable = false) : increaseWorklock nv notLoaded type s = some s :=
  if_pos henable

/-- A lock is taken, or the first request of the MCU is the lock that it has already. -/
theorem increase_cases (henable : nv.deepsleepEnable = true) (h : increaseWorklock nv notLoaded type s = some t) :
    (type = .lockExt ∧ s.num .lockExt = 1 ∧ s.haveLockExt = false ∧ nv.extLockDisable = false ∧
      t = { s with haveFreeLock := false, haveLockExt := true }) ∨
    (¬(type = .lockExt ∧ s.num .lockExt = 1 ∧ s.haveLockExt = false ∧ nv.extLockDisable = false) ∧
      ∃ r, SameUsers { s.setNum type (s.num type + 1) with haveFreeLock := false } r ∧
        (type ≠ .lockExt → r.num .lockDelay = (s.setNum type (s.num type + 1)).num .lockDelay) ∧
        t = if (type = .lockDefault ∨ type = .lockExt) ∧ r.num .lockDefault + r.num .lockExt = 1 ∧ notLoaded = false
          then sendLockMsg notLoaded .msgLock { r with userLockState := true } else r) := by
  rw [increaseWorklock, if_neg (by simp [henable])] at h
  dsimp only at h
  split at h
  next hfirst =>
    obtain ⟨rfl, hone, hhave, hnv⟩ := hfirst
    cases h
    exact Or.inl ⟨rfl, hone, hhave, hnv, rfl⟩
  next hfirst =>
    have hother : ¬(type = .lockExt ∧ s.num .lockExt = 1 ∧ s.haveLockExt = false ∧ nv.extLockDisable = false) := by
      rintro ⟨rfl, hone, hhave, hnv⟩
      exact hfirst ⟨rfl, hone, hhave, hnv⟩
    split at h
    · cases h
    · cases h
      refine Or.inr ⟨hother, _, ?_, ?_, rfl⟩
      · split
        · exact suspend_same
        · exact ⟨fun _ _ => rfl, rfl, rfl, rfl, rfl, rfl, Nat.le_refl _⟩
      · intro hne
        rw [if_neg hne]
        rfl

theorem decrease_disabled (henable : nv.deepsleepEnable = false) : decreaseWorklock nv notLoaded type s = s :=
  if_pos henable

/-- What a release changes before it looks whether deep sleep may be allowed. -/
structure Lowered (notLoaded : Bool) (type : LockType) (s r : LockState) : Prop where
  own : type ≠ .lockDelay → r.num type = s.num type - 1
  other : ∀ u, u ≠ type → u ≠ .lockDelay → r.num u = s.num u
  delay_le : r.num .lockDelay ≤ s.num .lockDelay
  haveFreeLock : r.haveFreeLock = s.haveFreeLock
  atLock : r.atLock = s.atLock
  haveLockExt : r.haveLockExt = (s.haveLockExt || (type = .lockExt && s.num .lockExt = 1))
  told : if (type = .lockExt ∨ type = .lockDefault) ∧ r.num .lockExt + r.num .lockDefault = 0 ∧ notLoaded = false
    then r.sent = s.sent ++ [.msgUnlock] ∧ r.userLockState = false
    else r.sent = s.sent ∧ r.userLockState = s.userLockState

theorem lowerCount_num : (lowerCount type s).num = Function.update s.num type (s.num type - 1) := by
  unfold lowerCount
  split
  · dsimp only
    split
    · rfl
    · rfl
  next h =>
    rw [Nat.eq_zero_of_not_pos h, Nat.zero_sub, ← Nat.eq_zero_of_not_pos h, Function.update_eq_self]

theorem lowerCount_haveLockExt :
    (lowerCount type s).haveLockExt = (s.haveLockExt || (type = .lockExt && s.num .lockExt = 1)) := by
  unfold lowerCount
  by_cases htype : type = .lockExt
  · subst htype
    rcases hn : s.num .lockExt with _ | _ | n
    · simp
    · simp
    · simp [LockState.setNum]
  · dsimp only
    split
    · simp [htype, LockState.setNum]
    · simp [htype]

theorem lowerCount_same : (lowerCount type s).haveFreeLock = s.haveFreeLock ∧ (lowerCount type s).atLock = s.atLock ∧
    (lowerCount type s).sent = s.sent ∧ (lowerCount type s).userLockState = s.userLockState := by
  unfold lowerCount
  split
  · dsimp only
    split
    · exact ⟨rfl, rfl, rfl, rfl⟩
    · exact ⟨rfl, rfl, rfl, rfl⟩
  · exact ⟨rfl, rfl, rfl, rfl⟩

theorem decrease_cases (henable : nv.deepsleepEnable = true) :
    ∃ r, Lowered notLoaded type s r ∧
      decreaseWorklock nv notLoaded type s = if r.total = 0 then { r with haveFreeLock := true } else r := by
  obtain ⟨hfree, hat, hsent, hstate⟩ := @lowerCount_same type s
  have hnum : ∀ u, (lowerCount type s).num u = if u = type then s.num type - 1 else s.num u := by
    intro u
    rw [lowerCount_num, Function.update_apply]
  rw [decreaseWorklock, if_neg (by simp [henable])]
  refine ⟨releaseUsers nv notLoaded type (lowerCount type s), ?_, rfl⟩
  unfold releaseUsers
  by_cases hlast : (type = .lockExt ∨ type = .lockDefault) ∧
      (lowerCount type s).num .lockExt + (lowerCount type s).num .lockDefault = 0
  · have hne : type ≠ .lockDelay := by
      rintro rfl
      simp at hlast
    have hsame := @suspend_same nv (lowerCount type s)
    have hsum : (xyDelaylockSuspend nv (lowerCount type s)).num .lockExt +
        (xyDelaylockSuspend nv (lowerCount type s)).num .lockDefault = 0 := by
      rw [hsame.num _ (by decide), hsame.num _ (by decide)]
      exact hlast.2
    have hdelay : (xyDelaylockSuspend nv (lowerCount type s)).num .lockDelay ≤ s.num .lockDelay := by
      have hle := hsame.delay_le
      rw [hnum, if_neg hne.symm] at hle
      exact hle
    have hother : ∀ u, u ≠ .lockDelay →
        (xyDelaylockSuspend nv (lowerCount type s)).num u = if u = type then s.num type - 1 else s.num u := by
      intro u hu
      rw [hsame.num u hu, hnum]
    rw [if_pos hlast]
    cases notLoaded with
    | true =>
      change Lowered true type s (xyDelaylockSuspend nv (lowerCount type s))
      refine ⟨?_, ?_, hdelay, hsame.haveFreeLock.trans hfree, hsame.atLock.trans hat,
        hsame.haveLockExt.trans lowerCount_haveLockExt, ?_⟩
      · intro _
        rw [hother _ hne, if_pos rfl]
      · intro u hu hud
        rw [hother _ hud, if_neg hu]
      · rw [if_neg (by simp)]
        exact ⟨hsame.sent.trans hsent, hsame.userLockState.trans hstate⟩
    | false =>
      change Lowered false type s { xyDelaylockSuspend nv (lowerCount type s) with
        userLockState := false, sent := (xyDelaylockSuspend nv (lowerCount type s)).sent ++ [.msgUnlock] }
      refine ⟨?_, ?_, hdelay, hsame.haveFreeLock.trans hfree, hsame.atLock.trans hat,
        hsame.haveLockExt.trans lowerCount_haveLockExt, ?_⟩
      · intro _
        exact (hother _ hne).trans (if_pos rfl)
      · intro u hu hud
        exact (hother _ hud).trans (if_neg hu)
      · rw [if_pos ⟨hlast.1, hsum, rfl⟩, ← hsent, ← hsame.sent]
        exact ⟨rfl, rfl⟩
  · rw [if_neg hlast]
    refine ⟨?_, ?_, ?_, hfree, hat, lowerCount_haveLockExt, ?_⟩
    · intro _
      rw [hnum, if_pos rfl]
    · intro u hu _
      rw [hnum, if_neg hu]
    · rw [hnum]
      split
      next h =>
        rw [← h]
        exact Nat.sub_le _ _
      next => exact Nat.le_refl _
    · rw [if_neg (fun h => hlast ⟨h.1, h.2.1⟩)]
      exact ⟨hsent, hstate⟩

end

/-! ### Deep sleep is allowed only without a lock -/

/-- What every operation keeps. -/
structure Inv (nv : LockNv) (s : LockState) : Prop where
  free : s.haveFreeLock = true → s.total = 0
  delay : nv.deepsleepDelay = 0 → s.num .lockDelay = 0
  disabled : nv.deepsleepEnable = false → s.total = 0

section
variable {nv : LockNv} {notLoaded : Bool} {type : LockType} {s t : LockState}

theorem Inv.increase (hs : Inv nv s) (htype : type = .lockDelay → nv.deepsleepDelay ≠ 0)
    (h : increaseWorklock nv notLoaded type s = some t) : Inv nv t := by
  cases henable : nv.deepsleepEnable with
  | false =>
    rw [increase_disabled henable] at h
    cases h
    exact hs
  | true =>
    have hdisabled : nv.deepsleepEnable = false → t.total = 0 := by simp [henable]
    rcases increase_cases henable h with ⟨-, -, -, -, rfl⟩ | ⟨-, r, hr, -, rfl⟩
    · exact ⟨fun hfree => Bool.noConfusion hfree, hs.delay, hdisabled⟩
    · have hfree : r.haveFreeLock = false := hr.haveFreeLock
      have hdelay : nv.deepsleepDelay = 0 → r.num .lockDelay = 0 := by
        intro hzero
        have hne : LockType.lockDelay ≠ type := fun heq => htype heq.symm hzero
        have hle := hr.delay_le
        rw [setNum_num, Function.update_of_ne hne, hs.delay hzero] at hle
        exact Nat.le_zero.mp hle
      refine ⟨?_, ?_, hdisabled⟩
      · intro h
        split at h
        · rw [sendLockMsg_haveFreeLock, hfree] at h
          cases h
        · rw [hfree] at h
          cases h
      · split
        · rw [sendLockMsg_num]
          exact hdelay
        · exact hdelay

theorem Inv.decrease (hs : Inv nv s) : Inv nv (decreaseWorklock nv notLoaded type s) := by
  cases henable : nv.deepsleepEnable with
  | false =>
    rw [decrease_disabled henable]
    exact hs
  | true =>
    have hdisabled : nv.deepsleepEnable = false → (decreaseWorklock nv notLoaded type s).total = 0 := by simp [henable]
    obtain ⟨r, hr, heq⟩ := @decrease_cases nv notLoaded type s henable
    have hdelay : nv.deepsleepDelay = 0 → r.num .lockDelay = 0 := by
      intro hzero
      have hle := hr.delay_le
      rw [hs.delay hzero] at hle
      exact Nat.le_zero.mp hle
    refine ⟨?_, ?_, hdisabled⟩
    · rw [heq]
      split
      next htotal => exact fun _ => htotal
      next htotal =>
        intro hfree
        rw [hr.haveFreeLock] at hfree
        have hzero := total_eq_zero.mp (hs.free hfree)
        refine absurd (total_eq_zero.mpr fun u => ?_) htotal
        by_cases hu : u = .lockDelay
        · have hle := hr.delay_le
          rw [hzero, ← hu] at hle
          exact Nat.le_zero.mp hle
        · by_cases hown : u = type
          · subst hown
            rw [hr.own hu, hzero]
          · rw [hr.other u hown hu, hzero]
    · rw [heq]
      split
      · exact hdelay
      · exact hdelay

/-- A release that is counted allows deep sleep exactly when it leaves no lock. -/
theorem decrease_free_iff (hs : Inv nv s) (henable : nv.deepsleepEnable = true) :
    (decreaseWorklock nv notLoaded type s).haveFreeLock = true ↔
      ∀ u, (decreaseWorklock nv notLoaded type s).num u = 0 := by
  rw [← total_eq_zero]
  refine ⟨(Inv.decrease hs).free, ?_⟩
  obtain ⟨r, -, heq⟩ := @decrease_cases nv notLoaded type s henable
  rw [heq]
  split
  · exact fun _ => rfl
  next htotal => exact fun h => absurd h htotal

theorem Inv.suspend (hs : Inv nv s) : Inv nv (xyDelaylockSuspend nv s) := by
  have hsame := @suspend_same nv s
  have htotal : s.total = 0 → (xyDelaylockSuspend nv s).total = 0 := by
    intro h
    have hzero := total_eq_zero.mp h
    refine total_eq_zero.mpr fun u => ?_
    by_cases hu : u = .lockDelay
    · rw [hu]
      exact Nat.le_zero.mp (hzero .lockDelay ▸ hsame.delay_le)
    · rw [hsame.num u hu, hzero]
  refine ⟨?_, ?_, fun h => htotal (hs.disabled h)⟩
  · rw [hsame.haveFreeLock]
    exact fun h => htotal (hs.free h)
  · exact fun h => Nat.le_zero.mp (hs.delay h ▸ hsame.delay_le)

/-- Locks that are given back besides, and messages, do not matter to the invariant. -/
theorem Inv.of_le (hs : Inv nv s) (hnum : ∀ u, t.num u ≤ s.num u)
    (hfree : t.haveFreeLock = true → s.haveFreeLock = true ∨ t.total = 0) : Inv nv t := by
  have htotal : s.total = 0 → t.total = 0 := by
    intro h
    refine total_eq_zero.mpr fun u => Nat.le_zero.mp ?_
    rw [← total_eq_zero.mp h u]
    exact hnum u
  refine ⟨fun h => ?_, fun h => Nat.le_zero.mp (hs.delay h ▸ hnum .lockDelay), fun h => htotal (hs.disabled h)⟩
  rcases hfree h with hf | hz
  · exact htotal (hs.free hf)
  · exact hz

theorem Inv.delayActive (hs : Inv nv s) (h : xyDelaylockActive nv notLoaded s = some t) : Inv nv t := by
  unfold xyDelaylockActive at h
  split at h
  · cases h
    exact hs
  next hguard =>
    split at h
    · cases h
      exact hs
    · obtain ⟨r, hr, rfl⟩ := Option.map_eq_some_iff.mp h
      have hdelay : nv.deepsleepDelay ≠ 0 := fun hzero => hguard (Or.inr (Or.inl hzero))
      exact (hs.increase (fun _ => hdelay) hr).of_le (fun _ => Nat.le_refl _) Or.inl

theorem Inv.atFromMCU (hs : Inv nv s) (h : setLockByMCUAt nv notLoaded s = some t) : Inv nv t := by
  unfold setLockByMCUAt at h
  split at h
  · cases h
    exact hs
  · obtain ⟨r, hr, h⟩ := Option.bind_eq_some_iff.mp h
    have hinv := hs.delayActive hr
    split at h
    · cases h
      exact hinv
    · split at h
      · obtain ⟨q, hq, rfl⟩ := Option.map_eq_some_iff.mp h
        exact (hinv.increase (fun hd => by cases hd) hq).of_le (fun _ => Nat.le_refl _) Or.inl
      · cases h
        exact hinv

theorem doUnlockAll_num (hs : Inv nv s) (fastoff : Bool) (u : LockType) :
    (doUnlockAll nv notLoaded fastoff s).num u = 0 := by
  have hdelay : (xyDelaylockSuspend nv s).num .lockDelay = 0 := by
    cases henable : nv.deepsleepEnable with
    | false => exact total_eq_zero.mp (hs.suspend.disabled henable) .lockDelay
    | true => exact suspend_delay henable hs.delay
  have hnum : (doUnlockAll nv notLoaded fastoff s).num = Function.update (Function.update (Function.update
      (xyDelaylockSuspend nv s).num .lockXyLocal 0) .lockDefault 0) .lockExt 0 := by
    cases fastoff with
    | true => rfl
    | false => exact sendLockMsg_num _
  rw [hnum]
  cases u with
  | lockDefault => rfl
  | lockXyLocal => rfl
  | lockDelay => exact hdelay
  | lockExt => rfl

theorem Inv.unlockAll (hs : Inv nv s) (fastoff : Bool) : Inv nv (doUnlockAll nv notLoaded fastoff s) := by
  refine hs.of_le (fun u => ?_) (fun _ => Or.inr (total_eq_zero.mpr (doUnlockAll_num hs fastoff)))
  rw [doUnlockAll_num hs]
  exact Nat.zero_le _

theorem xyFastPowerOff_num : (xyFastPowerOff nv notLoaded s).num = (doUnlockAll nv notLoaded true s).num := by
  cases notLoaded with
  | true => rfl
  | false => rfl

theorem Inv.step {a : Action} (hs : Inv nv s) (h : step nv a s = some t) : Inv nv t := by
  cases a with
  | lock type notLoaded => exact hs.increase (fun heq => absurd heq type.2) h
  | unlock type notLoaded =>
    cases h
    exact hs.decrease
  | atFromMCU notLoaded => exact hs.atFromMCU h
  | delayActive notLoaded => exact hs.delayActive h
  | delaySuspend =>
    cases h
    exact hs.suspend
  | delayExpires =>
    rw [WorkLock.step] at h
    split at h
    · cases h
      exact hs.of_le (fun _ => Nat.le_refl _) Or.inl
    · cases h
  | delayCallback notLoaded =>
    rw [WorkLock.step] at h
    split at h
    · cases h
      exact Inv.decrease (hs.of_le (fun _ => Nat.le_refl _) Or.inl)
    · cases h
  | clearXy notLoaded =>
    cases h
    have hnum : ∀ u, (clearXyWorklock nv notLoaded s).num u ≤ (xyDelaylockSuspend nv s).num u := by
      intro u
      have heq : (clearXyWorklock nv notLoaded s).num = Function.update (xyDelaylockSuspend nv s).num .lockXyLocal 0 := by
        unfold clearXyWorklock
        dsimp only
        split
        · exact sendLockMsg_num _
        · rfl
      rw [heq, Function.update_apply]
      split
      · exact Nat.zero_le _
      · exact Nat.le_refl _
    refine hs.suspend.of_le hnum (fun hfree => Or.inl ?_)
    unfold clearXyWorklock at hfree
    dsimp only at hfree
    split at hfree
    · rw [sendLockMsg_haveFreeLock] at hfree
      exact hfree
    · exact hfree
  | unlockAll notLoaded =>
    cases h
    exact hs.unlockAll false
  | fastPowerOff notLoaded =>
    cases h
    refine hs.of_le (fun u => ?_) (fun _ => Or.inr (total_eq_zero.mpr fun u => ?_))
    · rw [xyFastPowerOff_num, doUnlockAll_num hs]
      exact Nat.zero_le _
    · rw [xyFastPowerOff_num, doUnlockAll_num hs]

/-- The actions that look whether a lock is left. `clear_xy_worklock` and `xy_delaylock_suspend` do not. -/
def Action.gives : Action → Bool
  | .unlock .. | .delayCallback _ | .unlockAll _ | .fastPowerOff _ => true
  | _ => false

theorem gives_free_iff {a : Action} (hs : Inv nv s) (henable : nv.deepsleepEnable = true) (ha : a.gives = true)
    (h : step nv a s = some t) : t.haveFreeLock = true ↔ ∀ u, t.num u = 0 := by
  cases a with
  | unlock type notLoaded =>
    cases h
    exact decrease_free_iff hs henable
  | delayCallback notLoaded =>
    rw [WorkLock.step] at h
    split at h
    · cases h
      exact decrease_free_iff (hs.of_le (fun _ => Nat.le_refl _) Or.inl) henable
    · cases h
  | unlockAll notLoaded =>
    cases h
    exact iff_of_true (sendLockMsg_haveFreeLock _) (doUnlockAll_num hs false)
  | fastPowerOff notLoaded =>
    cases h
    refine iff_of_true ?_ (fun u => ?_)
    · cases notLoaded with
      | true => rfl
      | false => rfl
    · rw [xyFastPowerOff_num, doUnlockAll_num hs]
  | lock | atFromMCU | delayActive | delaySuspend | delayExpires | clearXy => cases ha

theorem Booted.inv (h : Booted s) : Inv nv s := by
  have htotal := total_eq_zero.mpr h.num
  exact ⟨fun _ => htotal, fun _ => h.num .lockDelay, fun _ => htotal⟩

/-- In every run the chip is allowed to sleep deeply only while no lock is held, and giving locks back allows it
exactly when none is left. -/
theorem deepsleep_allowed_exact (nv : LockNv) (as : List Action) {s : LockState} (hboot : Booted s) :
    Always (step nv) (fun t => (∀ env, lpmDeepsleepAllow nv env t = true → ∀ u, t.num u = 0) ∧
      ∀ a t', nv.deepsleepEnable = true → a.gives = true → step nv a t = some t' →
        (t'.haveFreeLock = true ↔ ∀ u, t'.num u = 0)) as s := by
  have hinv : Always (step nv) (Inv nv) as s :=
    always_of_along (fun a s s' hs _ ha => hs.step ha) hboot.inv (along_true (step nv) as s)
  refine always_imp (fun t ht => ⟨fun env hallow => ?_, fun a t' henable ha h => gives_free_iff ht henable ha h⟩) hinv
  simp only [lpmDeepsleepAllow, Bool.and_eq_true] at hallow
  exact total_eq_zero.mp (ht.free hallow.1.1.1.1.2)

end

def coldStart : LockState where
  num _ := 0
  haveLockExt := false
  atLock := false
  haveFreeLock := false
  userLockState := false
  timerRunning := false
  due := 0
  sent := []

theorem coldStart_booted : Booted coldStart :=
  ⟨fun _ => rfl, rfl, rfl, rfl, rfl, rfl⟩

def defaultNv : LockNv :=
  { deepsleepEnable := true, deepsleepDelay := 5, extLockDisable := false, operationVer := false }

def userLock : UserLock :=
  ⟨.lockDefault, LockType.noConfusion⟩

/-- A lock that is given back, and the delay lock of the first AT command after it. -/
theorem deepsleep_allowed_cold :
    Always (step defaultNv) (fun t => (∀ env, lpmDeepsleepAllow defaultNv env t = true → ∀ u, t.num u = 0) ∧
      ∀ a t', defaultNv.deepsleepEnable = true → a.gives = true → step defaultNv a t = some t' →
        (t'.haveFreeLock = true ↔ ∀ u, t'.num u = 0))
      [.lock userLock false, .unlock userLock false, .atFromMCU false, .delayExpires] coldStart :=
  deepsleep_allowed_exact defaultNv _ coldStart_booted

/-! ### The DSP knows whether a user holds a lock -/

def UserLocked (s : LockState) : Prop :=
  0 < s.num .lockDefault + s.num .lockExt

/-- The last message and the flag in retention memory agree with the locks of user code and of the MCU. -/
def Told (s : LockState) : Prop :=
  (s.sent.getLast? = some .msgLock ↔ UserLocked s) ∧ (s.sent ≠ [] → (s.userLockState = true ↔ UserLocked s))

/-- Whether the DSP is not loaded while the action runs; it does not matter to the other actions. -/
def Action.notLoaded : Action → Bool
  | .lock _ notLoaded | .unlock _ notLoaded | .atFromMCU notLoaded | .delayActive notLoaded
  | .delayCallback notLoaded | .clearXy notLoaded | .unlockAll notLoaded | .fastPowerOff notLoaded => notLoaded
  | .delaySuspend | .delayExpires => false

/-- What an operation that ends in `t` tells the DSP: nothing, which a loaded DSP does not miss, or one message
that is right. -/
inductive Tells (notLoaded : Bool) (s t : LockState) : Prop where
  | nothing (hsent : t.sent = s.sent)
      (hstate : t.userLockState = s.userLockState ∨ (t.userLockState = false ∧ ¬UserLocked t))
      (hloaded : notLoaded = false → (UserLocked t ↔ UserLocked s))
  | message (msg : LockMsg) (hloaded : notLoaded = false) (hsent : t.sent = s.sent ++ [msg])
      (hmsg : msg = .msgLock ↔ UserLocked t) (hstate : t.userLockState = true ↔ UserLocked t)

section
variable {nv : LockNv} {notLoaded : Bool} {type : LockType} {s r t : LockState}

theorem Tells.told_step_iff (h : Tells notLoaded s t) (hs : Told s) :
    Told t ↔ (notLoaded = true → (UserLocked t ↔ UserLocked s)) := by
  cases h with
  | nothing hsent hstate hloaded =>
    have hiff : Told t ↔ (UserLocked t ↔ UserLocked s) := by
      constructor
      · intro ht
        rw [← hs.1, ← ht.1, hsent]
      · intro hiff
        refine ⟨?_, fun hne => ?_⟩
        · rw [hsent, hiff]
          exact hs.1
        · rcases hstate with heq | ⟨hfalse, hno⟩
          · rw [heq, hiff]
            exact hs.2 (hsent ▸ hne)
          · exact iff_of_false (by simp [hfalse]) hno
    cases notLoaded with
    | true => simp [hiff]
    | false => simp [hiff, hloaded rfl]
  | message msg hloaded hsent hmsg hstate =>
    subst hloaded
    refine iff_of_true ⟨?_, fun _ => hstate⟩ (fun h => by cases h)
    rw [hsent, List.getLast?_append, List.getLast?_singleton, Option.some_or, Option.some_inj]
    exact hmsg

/-- An operation may start from any state that the DSP and the users cannot tell from the first. -/
theorem Tells.of_same (h : Tells notLoaded r t) (hsent : r.sent = s.sent) (hstate : r.userLockState = s.userLockState)
    (hlocked : UserLocked r ↔ UserLocked s) : Tells notLoaded s t := by
  cases h with
  | nothing hsent' hstate' hloaded =>
    rw [hsent] at hsent'
    rw [hstate] at hstate'
    exact .nothing hsent' hstate' (fun h => (hloaded h).trans hlocked)
  | message msg hloaded hsent' hmsg hstate' =>
    rw [hsent] at hsent'
    exact .message msg hloaded hsent' hmsg hstate'

theorem Tells.refl : Tells notLoaded s s :=
  .nothing rfl (Or.inl rfl) (fun _ => Iff.rfl)

theorem SameUsers.locked_iff (h : SameUsers s t) : UserLocked t ↔ UserLocked s := by
  unfold UserLocked
  rw [h.num _ (by decide), h.num _ (by decide)]

theorem SameUsers.tells (h : SameUsers s t) : Tells notLoaded s t :=
  .nothing h.sent (Or.inl h.userLockState) (fun _ => h.locked_iff)

theorem increase_tells (h : increaseWorklock nv notLoaded type s = some t) : Tells notLoaded s t := by
  cases henable : nv.deepsleepEnable with
  | false =>
    rw [increase_disabled henable] at h
    cases h
    exact .refl
  | true =>
    rcases increase_cases henable h with ⟨-, -, -, -, rfl⟩ | ⟨-, r, hr, -, rfl⟩
    · exact .nothing rfl (Or.inl rfl) (fun _ => Iff.rfl)
    · have hdefault : r.num .lockDefault = s.num .lockDefault + if type = .lockDefault then 1 else 0 := by
        rw [hr.num _ (by decide), setNum_num, Function.update_apply]
        by_cases h : type = .lockDefault
        · simp [h]
        · simp [h, eq_comm]
      have hext : r.num .lockExt = s.num .lockExt + if type = .lockExt then 1 else 0 := by
        rw [hr.num _ (by decide), setNum_num, Function.update_apply]
        by_cases h : type = .lockExt
        · simp [h]
        · simp [h, eq_comm]
      split
      next hfirst =>
        obtain ⟨-, hone, rfl⟩ := hfirst
        have hlocked : UserLocked r := by
          unfold UserLocked
          omega
        refine .message .msgLock rfl ?_ (iff_of_true rfl hlocked) (iff_of_true rfl hlocked)
        exact congrArg (· ++ [LockMsg.msgLock]) hr.sent
      next hfirst =>
        refine .nothing hr.sent (Or.inl hr.userLockState) (fun hloaded => ?_)
        unfold UserLocked
        rw [hdefault, hext]
        by_cases hd : type = .lockDefault
        · subst hd
          have hne : r.num .lockDefault + r.num .lockExt ≠ 1 := fun hone => hfirst ⟨Or.inl rfl, hone, hloaded⟩
          simp only [if_true, reduceCtorEq, if_false] at hdefault hext ⊢
          omega
        · by_cases he : type = .lockExt
          · subst he
            have hne : r.num .lockDefault + r.num .lockExt ≠ 1 := fun hone => hfirst ⟨Or.inr rfl, hone, hloaded⟩
            simp only [if_true, reduceCtorEq, if_false] at hdefault hext ⊢
            omega
          · simp [hd, he]

theorem decrease_tells : Tells notLoaded s (decreaseWorklock nv notLoaded type s) := by
  cases henable : nv.deepsleepEnable with
  | false =>
    rw [decrease_disabled henable]
    exact .refl
  | true =>
    obtain ⟨r, hr, heq⟩ := @decrease_cases nv notLoaded type s henable
    have hdefault : r.num .lockDefault = s.num .lockDefault - if type = .lockDefault then 1 else 0 := by
      by_cases h : type = .lockDefault
      · subst h
        exact hr.own (by decide)
      · rw [if_neg h]
        exact hr.other _ (Ne.symm h) (by decide)
    have hext : r.num .lockExt = s.num .lockExt - if type = .lockExt then 1 else 0 := by
      by_cases h : type = .lockExt
      · subst h
        exact hr.own (by decide)
      · rw [if_neg h]
        exact hr.other _ (Ne.symm h) (by decide)
    have htells : Tells notLoaded s r := by
      have htold := hr.told
      split at htold
      next hlast =>
        obtain ⟨-, hsum, rfl⟩ := hlast
        have hno : ¬UserLocked r := by
          unfold UserLocked
          omega
        exact .message .msgUnlock rfl htold.1 (iff_of_false (by decide) hno)
          (iff_of_false (by simp [htold.2]) hno)
      next hlast =>
        refine .nothing htold.1 (Or.inl htold.2) (fun hloaded => ?_)
        unfold UserLocked
        by_cases hd : type = .lockDefault
        · have hne : r.num .lockExt + r.num .lockDefault ≠ 0 := fun h => hlast ⟨Or.inr hd, h, hloaded⟩
          omega
        · by_cases he : type = .lockExt
          · have hne : r.num .lockExt + r.num .lockDefault ≠ 0 := fun h => hlast ⟨Or.inl he, h, hloaded⟩
            omega
          · rw [hdefault, hext, if_neg hd, if_neg he]
            exact Iff.rfl
    rw [heq]
    split
    · cases htells with
      | nothing hsent hstate hloaded => exact .nothing hsent hstate hloaded
      | message msg hloaded hsent hmsg hstate => exact .message msg hloaded hsent hmsg hstate
    · exact htells

/-- Taking the delay lock changes nothing that a user or the DSP sees. -/
theorem delayActive_same (h : xyDelaylockActive nv notLoaded s = some t) :
    t.sent = s.sent ∧ t.userLockState = s.userLockState ∧ (UserLocked t ↔ UserLocked s) := by
  unfold xyDelaylockActive at h
  split at h
  · cases h
    exact ⟨rfl, rfl, Iff.rfl⟩
  next hguard =>
    split at h
    · cases h
      exact ⟨rfl, rfl, Iff.rfl⟩
    · obtain ⟨r, hr, rfl⟩ := Option.map_eq_some_iff.mp h
      have henable : nv.deepsleepEnable = true := by
        cases he : nv.deepsleepEnable with
        | true => rfl
        | false => exact absurd (Or.inl he) hguard
      rcases increase_cases henable hr with ⟨htype, -⟩ | ⟨-, q, hq, -, heq⟩
      · cases htype
      · rw [if_neg (by simp)] at heq
        subst heq
        exact ⟨hq.sent, hq.userLockState, hq.locked_iff⟩

theorem atFromMCU_tells (h : setLockByMCUAt nv notLoaded s = some t) : Tells notLoaded s t := by
  unfold setLockByMCUAt at h
  split at h
  · cases h
    exact .refl
  · obtain ⟨r, hr, h⟩ := Option.bind_eq_some_iff.mp h
    obtain ⟨hsent, hstate, hlocked⟩ := delayActive_same hr
    have hnothing : Tells notLoaded s r := .nothing hsent (Or.inl hstate) (fun _ => hlocked)
    split at h
    · cases h
      exact hnothing
    · split at h
      · obtain ⟨q, hq, rfl⟩ := Option.map_eq_some_iff.mp h
        have htells := (increase_tells hq).of_same hsent hstate hlocked
        cases htells with
        | nothing hsent hstate hloaded => exact .nothing hsent hstate hloaded
        | message msg hloaded hsent hmsg hstate => exact .message msg hloaded hsent hmsg hstate
      · cases h
        exact hnothing

/-- Sending a message that is right, or failing to send it while the DSP is not loaded. -/
theorem send_tells (msg : LockMsg) (hsent : r.sent = s.sent) (hno : ¬UserLocked r) (hmsg : msg ≠ .msgLock)
    (hstate : r.userLockState = false) : Tells notLoaded s (sendLockMsg notLoaded msg r) := by
  cases notLoaded with
  | true => exact .nothing hsent (Or.inr ⟨hstate, hno⟩) (fun h => by cases h)
  | false =>
    refine .message msg rfl ?_ (iff_of_false hmsg hno) (iff_of_false ?_ hno)
    · rw [← hsent]
      rfl
    · change ¬r.userLockState = true
      simp [hstate]

theorem clearXy_tells : Tells notLoaded s (clearXyWorklock nv notLoaded s) := by
  have hsame := @suspend_same nv s
  have hlocked : UserLocked ((xyDelaylockSuspend nv s).setNum .lockXyLocal 0) ↔ UserLocked s := hsame.locked_iff
  unfold clearXyWorklock
  dsimp only
  split
  next hsum => exact send_tells .msgUnlock hsame.sent (fun h => absurd hsum (Nat.ne_of_gt h)) (by decide) rfl
  next => exact .nothing hsame.sent (Or.inl hsame.userLockState) (fun _ => hlocked)

theorem unlockAll_tells : Tells notLoaded s (doUnlockAll nv notLoaded false s) :=
  send_tells .msgUnlock suspend_same.sent (fun h => absurd h (Nat.lt_irrefl 0)) (by decide) rfl

theorem fastPowerOff_tells : Tells notLoaded s (xyFastPowerOff nv notLoaded s) := by
  have hno : ¬UserLocked (doUnlockAll nv notLoaded true s) := Nat.lt_irrefl 0
  have hsame := @suspend_same nv s
  cases notLoaded with
  | true => exact .nothing hsame.sent (Or.inl hsame.userLockState) (fun h => by cases h)
  | false =>
    exact send_tells (r := { doUnlockAll nv false true s with userLockState := false }) .msgFastoff hsame.sent hno
      (by decide) rfl

theorem step_tells {a : Action} (h : step nv a s = some t) : Tells a.notLoaded s t := by
  cases a with
  | lock type notLoaded => exact increase_tells h
  | unlock type notLoaded =>
    cases h
    exact decrease_tells
  | atFromMCU notLoaded => exact atFromMCU_tells h
  | delayActive notLoaded =>
    obtain ⟨hsent, hstate, hlocked⟩ := delayActive_same h
    exact .nothing hsent (Or.inl hstate) (fun _ => hlocked)
  | delaySuspend =>
    cases h
    exact suspend_same.tells
  | delayExpires =>
    rw [WorkLock.step] at h
    split at h
    · cases h
      exact .nothing rfl (Or.inl rfl) (fun _ => Iff.rfl)
    · cases h
  | delayCallback notLoaded =>
    rw [WorkLock.step] at h
    split at h
    · cases h
      exact decrease_tells.of_same rfl rfl Iff.rfl
    · cases h
  | clearXy notLoaded =>
    cases h
    exact clearXy_tells
  | unlockAll notLoaded =>
    cases h
    exact unlockAll_tells
  | fastPowerOff notLoaded =>
    cases h
    exact fastPowerOff_tells

/-- The last lock message is right in every state of a run exactly when the first lock of the users is taken and
their last one given back only while the DSP is loaded. -/
theorem told_iff (nv : LockNv) (as : List Action) {s : LockState} (hboot : Booted s) :
    Always (step nv) Told as s ↔
      Along (step nv) (fun a s => a.notLoaded = true → ∀ t, step nv a s = some t → (UserLocked t ↔ UserLocked s))
        as s := by
  have hs : Told s := by
    have hno : ¬UserLocked s := by
      unfold UserLocked
      rw [hboot.num, hboot.num]
      exact Nat.lt_irrefl 0
    refine ⟨iff_of_false ?_ hno, fun hne => absurd hboot.sent hne⟩
    rw [hboot.sent]
    simp
  refine always_iff_along ?_ ?_ hs
  · intro a s t hs h
    rw [(step_tells h).told_step_iff hs]
    refine forall_congr' fun _ => ⟨fun hiff t' h' => ?_, fun hall => hall t h⟩
    cases h.symm.trans h'
    exact hiff
  · intro a s h _ t h'
    rw [h] at h'
    cases h'

end

/-- A lock that is taken before the DSP is loaded is not told. -/
theorem told_cold_notLoaded : ¬Always (step defaultNv) Told [.lock userLock true] coldStart := by
  rw [told_iff defaultNv _ coldStart_booted]
  intro h
  have hiff := h.1 rfl _ rfl
  exact absurd (hiff.mp (Nat.succ_pos 0)) (Nat.lt_irrefl 0)

end NbiotXY1100.WorkLock
