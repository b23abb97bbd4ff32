import NbiotXY1100.StepSimulation
import NbiotXY1100.TimedList
import Mathlib.Algebra.GroupWithZero.Nat
import Mathlib.Logic.Function.Basic

/-! # Blocked tasks of the kernel

The kernel keeps the tasks that wait for a tick in two lists, of which the second one is for the ticks after
the counter wraps. The functions that move tasks between the lists are written once for every way to keep the
waiting tasks; `delayedLists` is the way of `tasks.c`. -/
namespace NbiotXY1100.TaskDelay
open StepRuns StepSimulation

def portMaxDelay : ℕ := 2 ^ 32 - 1

/-- How the tasks that wait for a tick are kept. -/
structure Timer (Q Task : Type*) where
  /-- A task waits for a number of ticks. -/
  add : Task → ℕ → Q → Q
  remove : Task → Q → Q
  reset : Q → Q
  /-- A tick, with the tasks whose wait ends; an assertion may fail. -/
  tick : Q → Option (List Task × Q)

/-! ### The lists of `tasks.c` -/

/-- A state list item, which holds the tick at which its task wakes. -/
structure Item (Task : Type*) where
  task : Task
  xItemValue : ℕ

structure DelayedLists (Task : Type*) where
  xTickCount : ℕ
  pxDelayedTaskList : List (Item Task)
  pxOverflowDelayedTaskList : List (Item Task)
  xNextTaskUnblockTime : ℕ

section
variable {Task : Type*}

/-- `vListInsert`. -/
def vListInsert : Item Task → List (Item Task) → List (Item Task) :=
  TimedList.insert Item.xItemValue

def prvResetNextTaskUnblockTime (d : DelayedLists Task) : DelayedLists Task :=
  match d.pxDelayedTaskList with
  | [] => { d with xNextTaskUnblockTime := portMaxDelay }
  | head :: _ => { d with xNextTaskUnblockTime := head.xItemValue }

/-- The part of `prvAddCurrentTaskToDelayedList` for a wait that ends. -/
def addToDelayedList (task : Task) (xTicksToWait : ℕ) (d : DelayedLists Task) : DelayedLists Task :=
  let xTimeToWake := (d.xTickCount + xTicksToWait) % 2 ^ 32
  if xTimeToWake < d.xTickCount then
    { d with pxOverflowDelayedTaskList := vListInsert ⟨task, xTimeToWake⟩ d.pxOverflowDelayedTaskList }
  else
    let d := { d with pxDelayedTaskList := vListInsert ⟨task, xTimeToWake⟩ d.pxDelayedTaskList }
    if xTimeToWake < d.xNextTaskUnblockTime then { d with xNextTaskUnblockTime := xTimeToWake } else d

/-- `taskSWITCH_DELAYED_LISTS`; `none` is the assertion that the list is empty. -/
def taskSwitchDelayedLists (d : DelayedLists Task) : Option (DelayedLists Task) :=
  if d.pxDelayedTaskList.isEmpty then
    some (prvResetNextTaskUnblockTime { d with
      pxDelayedTaskList := d.pxOverflowDelayedTaskList, pxOverflowDelayedTaskList := d.pxDelayedTaskList })
  else none

/-- The loop of `xTaskIncrementTick`: the tasks that it unblocks, the rest of the list and the next unblock time. -/
def unblockLoop (xConstTickCount : ℕ) : List (Item Task) → List Task × List (Item Task) × ℕ
  | [] => ([], [], portMaxDelay)
  | item :: rest =>
    if xConstTickCount < item.xItemValue then ([], item :: rest, item.xItemValue)
    else
      let (unblocked, left) := unblockLoop xConstTickCount rest
      (item.task :: unblocked, left)

/-- The second half of `xTaskIncrementTick`. -/
def unblockTasks (d : DelayedLists Task) : List Task × DelayedLists Task :=
  if d.xNextTaskUnblockTime ≤ d.xTickCount then
    let (unblocked, left, next) := unblockLoop d.xTickCount d.pxDelayedTaskList
    (unblocked, { d with pxDelayedTaskList := left, xNextTaskUnblockTime := next })
  else ([], d)

def incrementTick (d : DelayedLists Task) : Option (List Task × DelayedLists Task) :=
  let xConstTickCount := (d.xTickCount + 1) % 2 ^ 32
  let d := { d with xTickCount := xConstTickCount }
  (if xConstTickCount = 0 then taskSwitchDelayedLists d else some d).map unblockTasks

/-- `uxListRemove` of a state list item that is in one of the two lists. -/
def removeDelayed [DecidableEq Task] (task : Task) (d : DelayedLists Task) : DelayedLists Task :=
  { d with
    pxDelayedTaskList := d.pxDelayedTaskList.filter fun item => item.task ≠ task
    pxOverflowDelayedTaskList := d.pxOverflowDelayedTaskList.filter fun item => item.task ≠ task }

def delayedLists [DecidableEq Task] : Timer (DelayedLists Task) Task where
  add := addToDelayedList
  remove := removeDelayed
  reset := prvResetNextTaskUnblockTime
  tick := incrementTick

end

/-! ### The kernel over any timer -/

/-- The lists of the kernel. `eventItems` are the tasks whose event list item is in the list of a queue or of
another kernel object. -/
structure Kernel (Q Task : Type*) where
  delays : Q
  pxReadyTasksLists : ℕ → List Task
  xSuspendedTaskList : List Task
  xPendingReadyList : List Task
  eventItems : List Task
  uxSchedulerSuspended : ℕ
  xPendedTicks : ℕ

section
variable {Q Task : Type*} [DecidableEq Task] (timer : Timer Q Task) (uxPriority : Task → ℕ)

def prvAddTaskToReadyList (task : Task) (k : Kernel Q Task) : Kernel Q Task :=
  { k with
    pxReadyTasksLists := Function.update k.pxReadyTasksLists (uxPriority task)
      (k.pxReadyTasksLists (uxPriority task) ++ [task]) }

/-- `uxListRemove` of the state list item, whichever list it is in. -/
def removeStateItem (task : Task) (k : Kernel Q Task) : Kernel Q Task :=
  { k with
    delays := timer.remove task k.delays
    pxReadyTasksLists := Function.update k.pxReadyTasksLists (uxPriority task)
      ((k.pxReadyTasksLists (uxPriority task)).filter (· ≠ task))
    xSuspendedTaskList := k.xSuspendedTaskList.filter (· ≠ task) }

/-- `uxListRemove` of the event list item, if it is in a list. -/
def removeEventItem (task : Task) (k : Kernel Q Task) : Kernel Q Task :=
  { k with
    xPendingReadyList := k.xPendingReadyList.filter (· ≠ task)
    eventItems := k.eventItems.filter (· ≠ task) }

/-- A pended count that leaves 32 bits is refused. -/
def xTaskIncrementTick (k : Kernel Q Task) : Option (Kernel Q Task) :=
  if k.uxSchedulerSuspended = 0 then
    (timer.tick k.delays).map fun (unblocked, delays) =>
      unblocked.foldl (fun k task => prvAddTaskToReadyList uxPriority task (removeEventItem task k))
        { k with delays := delays }
  else if k.xPendedTicks = portMaxDelay then none
  else some { k with xPendedTicks := k.xPendedTicks + 1 }

/-- The loop over the ticks that came while the scheduler was suspended. -/
def pendedTicks : ℕ → Kernel Q Task → Option (Kernel Q Task)
  | 0, k => some k
  | n + 1, k => (xTaskIncrementTick timer uxPriority k).bind (pendedTicks n)

/-- The loop over `xPendingReadyList`, and the next unblock time after it. -/
def movePending (k : Kernel Q Task) : Kernel Q Task :=
  let moved := k.xPendingReadyList.foldl (fun k task =>
    prvAddTaskToReadyList uxPriority task (removeStateItem timer uxPriority task (removeEventItem task k))) k
  if k.xPendingReadyList.isEmpty then moved else { moved with delays := timer.reset moved.delays }

def xTaskResumeAll (k : Kernel Q Task) : Option (Kernel Q Task) :=
  if k.uxSchedulerSuspended = 0 then none
  else
    let k := { k with uxSchedulerSuspended := k.uxSchedulerSuspended - 1 }
    if k.uxSchedulerSuspended = 0 then
      (pendedTicks timer uxPriority k.xPendedTicks (movePending timer uxPriority k)).map fun k =>
        { k with xPendedTicks := 0 }
    else some k

/-- The running task waits, for an event if `onEvent` holds. -/
def prvAddCurrentTaskToDelayedList (task : Task) (xTicksToWait : ℕ) (xCanBlockIndefinitely onEvent : Bool)
    (k : Kernel Q Task) : Kernel Q Task :=
  let k := removeStateItem timer uxPriority task k
  let k := if onEvent then { k with eventItems := k.eventItems ++ [task] } else k
  if xTicksToWait = portMaxDelay ∧ xCanBlockIndefinitely then
    { k with xSuspendedTaskList := k.xSuspendedTaskList ++ [task] }
  else { k with delays := timer.add task xTicksToWait k.delays }

/-- The task is the first one of the event list. -/
def xTaskRemoveFromEventList (task : Task) (k : Kernel Q Task) : Kernel Q Task :=
  let k := { k with eventItems := k.eventItems.filter (· ≠ task) }
  if k.uxSchedulerSuspended = 0 then
    prvAddTaskToReadyList uxPriority task (removeStateItem timer uxPriority task k)
  else { k with xPendingReadyList := k.xPendingReadyList ++ [task] }

def vTaskSuspend (task : Task) (k : Kernel Q Task) : Kernel Q Task :=
  let k := removeEventItem task (removeStateItem timer uxPriority task k)
  { k with
    xSuspendedTaskList := k.xSuspendedTaskList ++ [task]
    delays := timer.reset k.delays }

def prvTaskIsTaskSuspended (task : Task) (k : Kernel Q Task) : Bool :=
  k.xSuspendedTaskList.contains task && !k.xPendingReadyList.contains task && !k.eventItems.contains task

def vTaskResume (task : Task) (k : Kernel Q Task) : Kernel Q Task :=
  if prvTaskIsTaskSuspended task k then
    prvAddTaskToReadyList uxPriority task (removeStateItem timer uxPriority task k)
  else k

/-- A task that deletes itself leaves the next unblock time as it is. -/
def vTaskDelete (itself : Bool) (task : Task) (k : Kernel Q Task) : Kernel Q Task :=
  let k := removeEventItem task (removeStateItem timer uxPriority task k)
  if itself then k else { k with delays := timer.reset k.delays }

/-! ### Runs -/

inductive Action (Task : Type*) where
  | tick
  | suspendAll
  | resumeAll
  | wait (task : Task) (xTicksToWait : ℕ) (xCanBlockIndefinitely onEvent : Bool)
  | event (task : Task)
  | suspend (task : Task)
  | resume (task : Task)
  | delete (itself : Bool) (task : Task)

/-- Only a ready task waits, and for some ticks; an event comes for a task that waits for one. -/
def step : Action Task → Kernel Q Task → Option (Kernel Q Task)
  | .tick, k => xTaskIncrementTick timer uxPriority k
  | .suspendAll, k => some { k with uxSchedulerSuspended := k.uxSchedulerSuspended + 1 }
  | .resumeAll, k => xTaskResumeAll timer uxPriority k
  | .wait task xTicksToWait xCanBlockIndefinitely onEvent, k =>
    if task ∈ k.pxReadyTasksLists (uxPriority task) ∧ 0 < xTicksToWait ∧ xTicksToWait ≤ portMaxDelay then
      some (prvAddCurrentTaskToDelayedList timer uxPriority task xTicksToWait xCanBlockIndefinitely onEvent k)
    else none
  | .event task, k => if task ∈ k.eventItems then some (xTaskRemoveFromEventList timer uxPriority task k) else none
  | .suspend task, k => some (vTaskSuspend timer uxPriority task k)
  | .resume task, k => some (vTaskResume timer uxPriority task k)
  | .delete itself task, k => some (vTaskDelete timer uxPriority itself task k)

end

/-! ### Timers that cannot be told apart -/

/-- A relation between the states of two timers that every operation keeps, with the same tasks at each tick. -/
structure Simulates {Q P Task : Type*} (timer : Timer Q Task) (other : Timer P Task) (R : Q → P → Prop) : Prop where
  add : ∀ {q p} (task : Task) {n : ℕ}, R q p → 0 < n → n ≤ portMaxDelay → R (timer.add task n q) (other.add task n p)
  remove : ∀ {q p} (task : Task), R q p → R (timer.remove task q) (other.remove task p)
  reset : ∀ {q p}, R q p → R (timer.reset q) (other.reset p)
  tick : ∀ {q p}, R q p → ∃ unblocked q' p', timer.tick q = some (unblocked, q') ∧
    other.tick p = some (unblocked, p') ∧ R q' p'

/-- The same lists beside another timer. -/
abbrev Kernel.withDelays {Q P Task : Type*} (k : Kernel Q Task) (p : P) : Kernel P Task where
  delays := p
  pxReadyTasksLists := k.pxReadyTasksLists
  xSuspendedTaskList := k.xSuspendedTaskList
  xPendingReadyList := k.xPendingReadyList
  eventItems := k.eventItems
  uxSchedulerSuspended := k.uxSchedulerSuspended
  xPendedTicks := k.xPendedTicks

/-- Two kernels that differ in their timers only. -/
inductive Related {Q P Task : Type*} (R : Q → P → Prop) (k : Kernel Q Task) : Kernel P Task → Prop where
  | intro (p : P) (hR : R k.delays p) : Related R k (k.withDelays p)

section
variable {Q P Task : Type*} {R : Q → P → Prop} {timer : Timer Q Task} {other : Timer P Task}
  {k : Kernel Q Task} {l : Kernel P Task}

theorem Related.foldl {f : Kernel Q Task → Task → Kernel Q Task} {g : Kernel P Task → Task → Kernel P Task}
    (hfg : ∀ k l task, Related R k l → Related R (f k task) (g l task)) (tasks : List Task) (h : Related R k l) :
    Related R (tasks.foldl f k) (tasks.foldl g l) := by
  induction tasks generalizing k l with
  | nil => exact h
  | cons task tasks ih => exact ih (hfg k l task h)

theorem Related.addReady (h : Related R k l) (uxPriority : Task → ℕ) (task : Task) :
    Related R (prvAddTaskToReadyList uxPriority task k) (prvAddTaskToReadyList uxPriority task l) := by
  cases h with
  | intro p hR => exact .intro p hR

theorem Related.addSuspended (h : Related R k l) (task : Task) :
    Related R { k with xSuspendedTaskList := k.xSuspendedTaskList ++ [task] }
      { l with xSuspendedTaskList := l.xSuspendedTaskList ++ [task] } := by
  cases h with
  | intro p hR => exact .intro p hR

theorem Related.addEvent (h : Related R k l) (task : Task) :
    Related R { k with eventItems := k.eventItems ++ [task] } { l with eventItems := l.eventItems ++ [task] } := by
  cases h with
  | intro p hR => exact .intro p hR

theorem Related.add (hsim : Simulates timer other R) (h : Related R k l) (task : Task) {n : ℕ} (hpos : 0 < n)
    (hmax : n ≤ portMaxDelay) :
    Related R { k with delays := timer.add task n k.delays } { l with delays := other.add task n l.delays } := by
  cases h with
  | intro p hR => exact .intro (other.add task n p) (hsim.add task hR hpos hmax)

theorem Related.reset (hsim : Simulates timer other R) (h : Related R k l) :
    Related R { k with delays := timer.reset k.delays } { l with delays := other.reset l.delays } := by
  cases h with
  | intro p hR => exact .intro (other.reset p) (hsim.reset hR)

variable [DecidableEq Task]

theorem Related.removeEvent (h : Related R k l) (task : Task) :
    Related R (removeEventItem task k) (removeEventItem task l) := by
  cases h with
  | intro p hR => exact .intro p hR

theorem Related.removeState (hsim : Simulates timer other R) (h : Related R k l) (uxPriority : Task → ℕ)
    (task : Task) : Related R (removeStateItem timer uxPriority task k) (removeStateItem other uxPriority task l) := by
  cases h with
  | intro p hR => exact .intro (other.remove task p) (hsim.remove task hR)

theorem Related.tick (hsim : Simulates timer other R) (uxPriority : Task → ℕ) (h : Related R k l) :
    Option.Rel (Related R) (xTaskIncrementTick timer uxPriority k) (xTaskIncrementTick other uxPriority l) := by
  cases h with
  | intro p hR =>
    unfold xTaskIncrementTick
    dsimp only [Kernel.withDelays]
    by_cases hrunning : k.uxSchedulerSuspended = 0
    · obtain ⟨unblocked, q', p', hq, hp, hR'⟩ := hsim.tick hR
      rw [if_pos hrunning, if_pos hrunning, hq, hp]
      refine .some (Related.foldl (fun k l task h => (h.removeEvent task).addReady uxPriority task) unblocked ?_)
      exact .intro p' hR'
    · rw [if_neg hrunning, if_neg hrunning]
      by_cases hmax : k.xPendedTicks = portMaxDelay
      · rw [if_pos hmax, if_pos hmax]
        exact .none
      · rw [if_neg hmax, if_neg hmax]
        exact .some (.intro p hR)

theorem Related.pended (hsim : Simulates timer other R) (uxPriority : Task → ℕ) (n : ℕ) (h : Related R k l) :
    Option.Rel (Related R) (pendedTicks timer uxPriority n k) (pendedTicks other uxPriority n l) := by
  induction n generalizing k l with
  | zero => exact .some h
  | succ n ih => exact rel_bind (Related.tick hsim uxPriority h) (fun k' l' h' => ih h')

theorem Related.movePending (hsim : Simulates timer other R) (uxPriority : Task → ℕ) (h : Related R k l) :
    Related R (movePending timer uxPriority k) (movePending other uxPriority l) := by
  have hpending : l.xPendingReadyList = k.xPendingReadyList := by
    cases h with
    | intro p hR => rfl
  unfold TaskDelay.movePending
  rw [hpending]
  have hmoved := Related.foldl (fun k l task h =>
    ((h.removeEvent task).removeState hsim uxPriority task).addReady uxPriority task) k.xPendingReadyList h
  split
  · exact hmoved
  · exact hmoved.reset hsim

theorem Related.wait (hsim : Simulates timer other R) (uxPriority : Task → ℕ) (h : Related R k l) (task : Task)
    {n : ℕ} (hpos : 0 < n) (hmax : n ≤ portMaxDelay) (indefinitely onEvent : Bool) :
    Related R (prvAddCurrentTaskToDelayedList timer uxPriority task n indefinitely onEvent k)
      (prvAddCurrentTaskToDelayedList other uxPriority task n indefinitely onEvent l) := by
  have hremoved := h.removeState hsim uxPriority task
  unfold prvAddCurrentTaskToDelayedList
  cases onEvent with
  | false =>
    dsimp only
    split
    · exact hremoved.addSuspended task
    · exact hremoved.add hsim task hpos hmax
  | true =>
    dsimp only
    split
    · exact (hremoved.addEvent task).addSuspended task
    · exact (hremoved.addEvent task).add hsim task hpos hmax

theorem Related.event (hsim : Simulates timer other R) (uxPriority : Task → ℕ) (h : Related R k l) (task : Task) :
    Related R (xTaskRemoveFromEventList timer uxPriority task k) (xTaskRemoveFromEventList other uxPriority task l) := by
  cases h with
  | intro p hR =>
    have hremoved : Related R { k with eventItems := k.eventItems.filter (· ≠ task) }
      { k.withDelays p with eventItems := k.eventItems.filter (· ≠ task) } := .intro p hR
    unfold xTaskRemoveFromEventList
    dsimp only
    split
    · exact (hremoved.removeState hsim uxPriority task).addReady uxPriority task
    · exact .intro p hR

theorem Related.resumeAll (hsim : Simulates timer other R) (uxPriority : Task → ℕ) (h : Related R k l) :
    Option.Rel (Related R) (xTaskResumeAll timer uxPriority k) (xTaskResumeAll other uxPriority l) := by
  cases h with
  | intro p hR =>
    have hless : Related R { k with uxSchedulerSuspended := k.uxSchedulerSuspended - 1 }
      { k.withDelays p with uxSchedulerSuspended := k.uxSchedulerSuspended - 1 } := .intro p hR
    unfold xTaskResumeAll
    dsimp only [Kernel.withDelays]
    by_cases hzero : k.uxSchedulerSuspended = 0
    · rw [if_pos hzero, if_pos hzero]
      exact .none
    · rw [if_neg hzero, if_neg hzero]
      by_cases hlast : k.uxSchedulerSuspended - 1 = 0
      · rw [if_pos hlast, if_pos hlast]
        refine rel_map (Related.pended hsim uxPriority _ (hless.movePending hsim uxPriority)) ?_
        intro k' l' h'
        cases h' with
        | intro p' hR' => exact .intro p' hR'
      · rw [if_neg hlast, if_neg hlast]
        exact .some hless

/-- The kernel does not see which of two such timers it has. -/
theorem Related.step (hsim : Simulates timer other R) (uxPriority : Task → ℕ) (a : Action Task) (h : Related R k l) :
    Option.Rel (Related R) (step timer uxPriority a k) (step other uxPriority a l) := by
  cases a with
  | tick => exact Related.tick hsim uxPriority h
  | resumeAll => exact Related.resumeAll hsim uxPriority h
  | suspendAll =>
    cases h with
    | intro p hR => exact .some (.intro p hR)
  | wait task n indefinitely onEvent =>
    cases h with
    | intro p hR =>
      unfold TaskDelay.step
      dsimp only [Kernel.withDelays]
      by_cases hguard : task ∈ k.pxReadyTasksLists (uxPriority task) ∧ 0 < n ∧ n ≤ portMaxDelay
      · rw [if_pos hguard, if_pos hguard]
        exact .some (Related.wait hsim uxPriority (.intro p hR) task hguard.2.1 hguard.2.2 indefinitely onEvent)
      · rw [if_neg hguard, if_neg hguard]
        exact .none
  | event task =>
    cases h with
    | intro p hR =>
      unfold TaskDelay.step
      dsimp only [Kernel.withDelays]
      by_cases hguard : task ∈ k.eventItems
      · rw [if_pos hguard, if_pos hguard]
        exact .some (Related.event hsim uxPriority (.intro p hR) task)
      · rw [if_neg hguard, if_neg hguard]
        exact .none
  | suspend task =>
    exact .some ((((h.removeState hsim uxPriority task).removeEvent task).addSuspended task).reset hsim)
  | resume task =>
    have hsame : prvTaskIsTaskSuspended task l = prvTaskIsTaskSuspended task k := by
      cases h with
      | intro p hR => rfl
    refine .some ?_
    unfold vTaskResume
    rw [hsame]
    split
    · exact (h.removeState hsim uxPriority task).addReady uxPriority task
    · exact h
  | delete itself task =>
    have hremoved := (h.removeState hsim uxPriority task).removeEvent task
    cases itself with
    | true => exact .some hremoved
    | false => exact .some (hremoved.reset hsim)

end

end NbiotXY1100.TaskDelay
