import NbiotXY1100.TaskClock

/-! # A task wakes at its tick

What a wait for some ticks comes to, whatever else the kernel does meanwhile. -/
namespace NbiotXY1100.TaskWake
open StepRuns StepSimulation TaskDelay TaskClock

section
variable {Q Task : Type*} {timer : Timer Q Task} {uxPriority : Task → ℕ} {k : Kernel Q Task}

/-- The task stands in the ready list of its priority. -/
def Ready (uxPriority : Task → ℕ) (task : Task) (k : Kernel Q Task) : Prop :=
  task ∈ k.pxReadyTasksLists (uxPriority task)

theorem ready_addReady (task u : Task) :
    Ready uxPriority u (prvAddTaskToReadyList uxPriority task k) ↔ u = task ∨ Ready uxPriority u k := by
  unfold Ready prvAddTaskToReadyList
  by_cases hprio : uxPriority u = uxPriority task
  · simp only [hprio, Function.update_self, List.mem_append, List.mem_singleton, or_comm]
  · have hne : u ≠ task := fun h => hprio (congrArg uxPriority h)
    simp only [Function.update_of_ne hprio, hne, false_or]

variable [DecidableEq Task]

theorem ready_removeState (task u : Task) :
    Ready uxPriority u (removeStateItem timer uxPriority task k) ↔ u ≠ task ∧ Ready uxPriority u k := by
  unfold Ready removeStateItem
  by_cases hprio : uxPriority u = uxPriority task
  · simp only [hprio, Function.update_self, List.mem_filter, decide_eq_true_eq, and_comm]
  · have hne : u ≠ task := fun h => hprio (congrArg uxPriority h)
    simp only [Function.update_of_ne hprio, ne_eq, hne, not_false_eq_true, true_and]

theorem mem_filter_ne {task u : Task} {l : List Task} : u ∈ l.filter (· ≠ task) ↔ u ≠ task ∧ u ∈ l := by
  simp only [List.mem_filter, decide_eq_true_eq, and_comm]

end

/-! ### A wait, in the kernel with the clock -/

section
variable {Task : Type*} [DecidableEq Task] {uxPriority : Task → ℕ} {task : Task} {alarm : ℕ}
  {l l' : Kernel (Alarms Task) Task}

/-- The task waits until the clock is at its alarm, and is ready from then on. -/
structure Waits (uxPriority : Task → ℕ) (task : Task) (alarm : ℕ) (l : Kernel (Alarms Task) Task) : Prop where
  pending : task ∉ l.xPendingReadyList
  ready : Ready uxPriority task l ↔ alarm ≤ l.delays.clock
  blocked : l.delays.blocked.filter (fun b => b.1 = task) = if l.delays.clock < alarm then [(task, alarm)] else []

/-- Nothing that concerns the task changes, nor does the clock. -/
structure Unmoved (uxPriority : Task → ℕ) (task : Task) (l l' : Kernel (Alarms Task) Task) : Prop where
  pending : task ∈ l'.xPendingReadyList → task ∈ l.xPendingReadyList
  ready : Ready uxPriority task l' ↔ Ready uxPriority task l
  clock : l'.delays.clock = l.delays.clock
  blocked : l'.delays.blocked.filter (fun b => b.1 = task) = l.delays.blocked.filter (fun b => b.1 = task)
  suspended : l'.uxSchedulerSuspended = l.uxSchedulerSuspended
  pended : l'.xPendedTicks = l.xPendedTicks

theorem Unmoved.refl : Unmoved uxPriority task l l :=
  ⟨fun h => h, Iff.rfl, rfl, rfl, rfl, rfl⟩

theorem Unmoved.trans {l'' : Kernel (Alarms Task) Task} (h : Unmoved uxPriority task l l')
    (h' : Unmoved uxPriority task l' l'') : Unmoved uxPriority task l l'' :=
  ⟨fun hmem => h.pending (h'.pending hmem), h'.ready.trans h.ready, h'.clock.trans h.clock, h'.blocked.trans h.blocked,
    h'.suspended.trans h.suspended, h'.pended.trans h.pended⟩

theorem Waits.unmoved (h : Waits uxPriority task alarm l) (hl : Unmoved uxPriority task l l') :
    Waits uxPriority task alarm l' := by
  refine ⟨fun hmem => h.pending (hl.pending hmem), ?_, ?_⟩
  · rw [hl.ready, hl.clock]
    exact h.ready
  · rw [hl.blocked, hl.clock]
    exact h.blocked

theorem addReady_unmoved {u : Task} (hne : task ≠ u) : Unmoved uxPriority task l (prvAddTaskToReadyList uxPriority u l) :=
  ⟨fun h => h, by rw [ready_addReady]; simp [hne], rfl, rfl, rfl, rfl⟩

theorem removeEvent_unmoved {u : Task} : Unmoved uxPriority task l (removeEventItem u l) :=
  ⟨fun h => (mem_filter_ne.mp h).2, Iff.rfl, rfl, rfl, rfl, rfl⟩

theorem removeState_unmoved {u : Task} (hne : task ≠ u) :
    Unmoved uxPriority task l (removeStateItem alarms uxPriority u l) := by
  refine ⟨fun h => h, by rw [ready_removeState]; simp [hne], rfl, ?_, rfl, rfl⟩
  refine (List.filter_filter).trans (List.filter_congr fun b _ => ?_)
  by_cases hb : b.1 = task
  · simp [hb, hne]
  · simp [hb]

theorem foldl_unmoved {f : Kernel (Alarms Task) Task → Task → Kernel (Alarms Task) Task} {tasks : List Task}
    (hf : ∀ u ∈ tasks, ∀ l, Unmoved uxPriority task l (f l u)) : Unmoved uxPriority task l (tasks.foldl f l) := by
  induction tasks generalizing l with
  | nil => exact .refl
  | cons u tasks ih =>
    exact (hf u List.mem_cons_self l).trans (ih fun v hv => hf v (List.mem_cons_of_mem u hv))

theorem movePending_unmoved (hpending : task ∉ l.xPendingReadyList) :
    Unmoved uxPriority task l (movePending alarms uxPriority l) := by
  have hmoved : Unmoved uxPriority task l (l.xPendingReadyList.foldl (fun k u =>
      prvAddTaskToReadyList uxPriority u (removeStateItem alarms uxPriority u (removeEventItem u k))) l) := by
    refine foldl_unmoved fun u hu l => ?_
    have hne : task ≠ u := fun h => hpending (h ▸ hu)
    exact (removeEvent_unmoved.trans (removeState_unmoved hne)).trans (addReady_unmoved hne)
  unfold movePending
  split
  · exact hmoved
  · exact hmoved

/-- The loop that readies the tasks of a tick. -/
theorem foldl_readied (tasks : List Task) (l : Kernel (Alarms Task) Task) :
    let l' := tasks.foldl (fun k u => prvAddTaskToReadyList uxPriority u (removeEventItem u k)) l
    (Ready uxPriority task l' ↔ task ∈ tasks ∨ Ready uxPriority task l) ∧
      (task ∈ l'.xPendingReadyList → task ∈ l.xPendingReadyList) := by
  induction tasks generalizing l with
  | nil => simp
  | cons u tasks ih =>
    obtain ⟨hready, hpending⟩ := ih (prvAddTaskToReadyList uxPriority u (removeEventItem u l))
    refine ⟨?_, fun h => (mem_filter_ne.mp (hpending h)).2⟩
    rw [List.foldl_cons, hready, ready_addReady, List.mem_cons]
    exact or_left_comm.trans or_assoc.symm

theorem foldl_kept (uxPriority : Task → ℕ) (tasks : List Task) (l : Kernel (Alarms Task) Task) :
    let l' := tasks.foldl (fun k u => prvAddTaskToReadyList uxPriority u (removeEventItem u k)) l
    l'.delays = l.delays ∧ l'.uxSchedulerSuspended = l.uxSchedulerSuspended ∧ l'.xPendedTicks = l.xPendedTicks := by
  induction tasks generalizing l with
  | nil => exact ⟨rfl, rfl, rfl⟩
  | cons u tasks ih => exact ih (prvAddTaskToReadyList uxPriority u (removeEventItem u l))

/-- A tick of the running scheduler. -/
theorem Waits.tick (h : Waits uxPriority task alarm l) (hrunning : l.uxSchedulerSuspended = 0)
    (htick : xTaskIncrementTick alarms uxPriority l = some l') :
    Waits uxPriority task alarm l' ∧ l'.delays.clock = l.delays.clock + 1 ∧ l'.uxSchedulerSuspended = 0 ∧
      l'.xPendedTicks = l.xPendedTicks := by
  rw [xTaskIncrementTick, if_pos hrunning] at htick
  cases htick
  have hdue : task ∈ (l.delays.blocked.filter fun b => b.2 ≤ l.delays.clock + 1).map Prod.fst ↔
      l.delays.clock < alarm ∧ alarm ≤ l.delays.clock + 1 := by
    have hmem : ∀ b, b ∈ l.delays.blocked ∧ b.1 = task ↔ l.delays.clock < alarm ∧ b = (task, alarm) := by
      intro b
      have hfilter : b ∈ l.delays.blocked.filter (fun b => b.1 = task) ↔ b ∈ l.delays.blocked ∧ b.1 = task := by
        simp only [List.mem_filter, decide_eq_true_eq]
      rw [← hfilter, h.blocked]
      split
      next hlt => simp [hlt]
      next hge => simp [hge]
    constructor
    · intro hin
      obtain ⟨b, hb, hfst⟩ := List.mem_map.mp hin
      obtain ⟨hb, hle⟩ := List.mem_filter.mp hb
      obtain ⟨hlt, rfl⟩ := (hmem b).mp ⟨hb, hfst⟩
      exact ⟨hlt, of_decide_eq_true hle⟩
    · rintro ⟨hlt, hle⟩
      obtain ⟨hb, hfst⟩ := (hmem (task, alarm)).mpr ⟨hlt, rfl⟩
      exact List.mem_map.mpr ⟨_, List.mem_filter.mpr ⟨hb, decide_eq_true hle⟩, hfst⟩
  let unblocked := (l.delays.blocked.filter fun b => b.2 ≤ l.delays.clock + 1).map Prod.fst
  let counted : Kernel (Alarms Task) Task :=
    { l with delays :=
      { clock := l.delays.clock + 1, blocked := l.delays.blocked.filter fun b => l.delays.clock + 1 < b.2 } }
  obtain ⟨hready, hpending⟩ := @foldl_readied _ _ uxPriority task unblocked counted
  obtain ⟨hdelays, hsuspended, hpended⟩ := foldl_kept uxPriority unblocked counted
  refine ⟨⟨fun hmem => h.pending (hpending hmem), ?_, ?_⟩, congrArg Alarms.clock hdelays, hsuspended.trans hrunning,
    hpended⟩
  · refine hready.trans ?_
    rw [hdue, hdelays]
    refine (or_congr_right h.ready).trans ?_
    dsimp only [counted]
    omega
  · rw [hdelays]
    dsimp only [counted]
    rw [List.filter_comm, h.blocked]
    by_cases hlt : l.delays.clock + 1 < alarm
    · rw [if_pos (by omega), if_pos hlt]
      simp [hlt]
    · rw [if_neg hlt]
      split
      · simp [hlt]
      · rfl

theorem Waits.pendedTicks (n : ℕ) (h : Waits uxPriority task alarm l) (hrunning : l.uxSchedulerSuspended = 0)
    (hrun : pendedTicks alarms uxPriority n l = some l') :
    Waits uxPriority task alarm l' ∧ l'.delays.clock = l.delays.clock + n ∧ l'.uxSchedulerSuspended = 0 := by
  induction n generalizing l with
  | zero =>
    cases hrun
    exact ⟨h, rfl, hrunning⟩
  | succ n ih =>
    obtain ⟨r, hr, hrun⟩ := Option.bind_eq_some_iff.mp hrun
    obtain ⟨hwaits, hclock, hrunning', -⟩ := h.tick hrunning hr
    obtain ⟨hwaits', hclock', hrunning''⟩ := ih hwaits hrunning' hrun
    exact ⟨hwaits', by omega, hrunning''⟩

/-- The task that an action is about. -/
def about : Action Task → Option Task
  | .tick | .suspendAll | .resumeAll => none
  | .wait u _ _ _ | .event u | .suspend u | .resume u | .delete _ u => some u

def isTick : Action Task → Bool
  | .tick => true
  | _ => false

/-- The ticks that have come, with the ones that were not counted yet. -/
def came (l : Kernel (Alarms Task) Task) : ℕ :=
  l.delays.clock + l.xPendedTicks

/-- While the scheduler runs no tick is pended. -/
def Idle (l : Kernel (Alarms Task) Task) : Prop :=
  l.uxSchedulerSuspended = 0 → l.xPendedTicks = 0

theorem Unmoved.came (h : Unmoved uxPriority task l l') : came l' = came l := by
  unfold TaskWake.came
  rw [h.clock, h.pended]

theorem Unmoved.idle (h : Unmoved uxPriority task l l') (hidle : Idle l) : Idle l' := by
  unfold Idle
  rw [h.suspended, h.pended]
  exact hidle

theorem wait_unmoved {u : Task} (hne : task ≠ u) (n : ℕ) (indefinitely onEvent : Bool) :
    Unmoved uxPriority task l (prvAddCurrentTaskToDelayedList alarms uxPriority u n indefinitely onEvent l) := by
  have hremoved : Unmoved uxPriority task l (removeStateItem alarms uxPriority u l) := removeState_unmoved hne
  have hadd : ∀ r : Kernel (Alarms Task) Task,
      Unmoved uxPriority task r { r with delays := alarms.add u n r.delays } :=
    fun r => ⟨fun h => h, Iff.rfl, rfl, TimedList.filter_insert_of_not (by simpa using hne.symm) _, rfl, rfl⟩
  unfold prvAddCurrentTaskToDelayedList
  cases onEvent with
  | false =>
    dsimp only
    split
    · exact ⟨hremoved.pending, hremoved.ready, rfl, hremoved.blocked, rfl, rfl⟩
    · exact hremoved.trans (hadd _)
  | true =>
    dsimp only
    split
    · exact ⟨hremoved.pending, hremoved.ready, rfl, hremoved.blocked, rfl, rfl⟩
    · have hevent : Unmoved uxPriority task l
          { removeStateItem alarms uxPriority u l with eventItems := l.eventItems ++ [u] } :=
        ⟨hremoved.pending, hremoved.ready, rfl, hremoved.blocked, rfl, rfl⟩
      exact hevent.trans (hadd _)

theorem event_unmoved {u : Task} (hne : task ≠ u) :
    Unmoved uxPriority task l (xTaskRemoveFromEventList alarms uxPriority u l) := by
  unfold xTaskRemoveFromEventList
  dsimp only
  split
  · have hremoved : Unmoved uxPriority task l { l with eventItems := l.eventItems.filter (· ≠ u) } :=
      ⟨fun h => h, Iff.rfl, rfl, rfl, rfl, rfl⟩
    exact (hremoved.trans (removeState_unmoved hne)).trans (addReady_unmoved hne)
  · refine ⟨fun h => ?_, Iff.rfl, rfl, rfl, rfl, rfl⟩
    rcases List.mem_append.mp h with h | h
    · exact h
    · exact absurd (List.mem_singleton.mp h) hne

/-- What is about another task does not move this one. -/
theorem other_unmoved {a : Action Task} {u : Task} (ha : about a = some u) (hne : task ≠ u)
    (h : step alarms uxPriority a l = some l') : Unmoved uxPriority task l l' := by
  have hremoved : Unmoved uxPriority task l (removeEventItem u (removeStateItem alarms uxPriority u l)) :=
    (removeState_unmoved hne).trans removeEvent_unmoved
  cases a with
  | wait v n indefinitely onEvent =>
    cases ha
    rw [step] at h
    split at h
    · cases h
      exact wait_unmoved hne n indefinitely onEvent
    · cases h
  | event v =>
    cases ha
    rw [step] at h
    split at h
    · cases h
      exact event_unmoved hne
    · cases h
  | suspend v =>
    cases ha
    cases h
    exact ⟨hremoved.pending, hremoved.ready, hremoved.clock, hremoved.blocked, hremoved.suspended, hremoved.pended⟩
  | resume v =>
    cases ha
    cases h
    unfold vTaskResume
    split
    · exact (removeState_unmoved hne).trans (addReady_unmoved hne)
    · exact .refl
  | delete itself v =>
    cases ha
    cases h
    cases itself with
    | true => exact hremoved
    | false => exact hremoved
  | tick | suspendAll | resumeAll => cases ha

theorem Waits.step {a : Action Task} (h : Waits uxPriority task alarm l) (hidle : Idle l) (ha : about a ≠ some task)
    (hstep : step alarms uxPriority a l = some l') :
    Waits uxPriority task alarm l' ∧ Idle l' ∧ came l' = came l + (isTick a).toNat := by
  cases hwho : about a with
  | some u =>
    have hunmoved := other_unmoved hwho (fun h => ha (hwho.trans (congrArg some h.symm))) hstep
    refine ⟨h.unmoved hunmoved, hunmoved.idle hidle, ?_⟩
    cases a with
    | tick => cases hwho
    | _ => exact hunmoved.came
  | none =>
    cases a with
    | tick =>
      by_cases hrunning : l.uxSchedulerSuspended = 0
      · obtain ⟨hwaits, hclock, hrunning', hpended⟩ := h.tick hrunning hstep
        refine ⟨hwaits, fun _ => hpended.trans (hidle hrunning), ?_⟩
        simp only [came, hclock, hpended]
        exact Nat.add_right_comm _ _ _
      · rw [TaskDelay.step, xTaskIncrementTick, if_neg hrunning] at hstep
        split at hstep
        · cases hstep
        · cases hstep
          exact ⟨⟨h.pending, h.ready, h.blocked⟩, fun hzero => absurd hzero hrunning, rfl⟩
    | suspendAll =>
      cases hstep
      exact ⟨⟨h.pending, h.ready, h.blocked⟩, fun hzero => absurd hzero (Nat.succ_ne_zero _), rfl⟩
    | resumeAll =>
      rw [TaskDelay.step, xTaskResumeAll] at hstep
      split at hstep
      · cases hstep
      next hnested =>
        dsimp only at hstep
        split at hstep
        next hlast =>
          obtain ⟨r, hr, rfl⟩ := Option.map_eq_some_iff.mp hstep
          have hmoved : Unmoved uxPriority task { l with uxSchedulerSuspended := l.uxSchedulerSuspended - 1 }
            (movePending alarms uxPriority { l with uxSchedulerSuspended := l.uxSchedulerSuspended - 1 }) :=
            movePending_unmoved h.pending
          have hless : Waits uxPriority task alarm { l with uxSchedulerSuspended := l.uxSchedulerSuspended - 1 } :=
            ⟨h.pending, h.ready, h.blocked⟩
          obtain ⟨hwaits, hclock, hrunning⟩ :=
            (hless.unmoved hmoved).pendedTicks l.xPendedTicks (hmoved.suspended.trans hlast) hr
          refine ⟨⟨hwaits.pending, hwaits.ready, hwaits.blocked⟩, fun _ => rfl, ?_⟩
          simp only [came, hclock, hmoved.clock]
          rfl
        next hmore =>
          cases hstep
          exact ⟨⟨h.pending, h.ready, h.blocked⟩, fun hzero => absurd hzero hmore, rfl⟩
    | wait | event | suspend | resume | delete => cases hwho

theorem Waits.run {as : List (Action Task)} (h : Waits uxPriority task alarm l) (hidle : Idle l)
    (has : ∀ a ∈ as, about a ≠ some task) (hrun : run (TaskDelay.step alarms uxPriority) as l = some l') :
    Waits uxPriority task alarm l' ∧ Idle l' ∧ came l' = came l + as.countP isTick := by
  induction as generalizing l with
  | nil =>
    cases hrun
    exact ⟨h, hidle, rfl⟩
  | cons a as ih =>
    obtain ⟨r, hr, hrun⟩ := (run_cons_some _).mp hrun
    obtain ⟨hwaits, hidle', hcame⟩ := h.step hidle (has a List.mem_cons_self) hr
    obtain ⟨hwaits', hidle'', hcame'⟩ := ih hwaits hidle' (fun b hb => has b (List.mem_cons_of_mem a hb)) hrun
    refine ⟨hwaits', hidle'', ?_⟩
    rw [hcame', hcame, List.countP_cons, Nat.add_assoc, Nat.add_comm (isTick a).toNat]
    cases isTick a with
    | true => rfl
    | false => rfl

end

/-! ### Where a wait begins -/

section
variable {Task : Type*} {uxPriority : Task → ℕ} {l l' : Kernel (Alarms Task) Task}

/-- A ready task waits for no event, and the event list item of a task is in one list at most. -/
structure Settled (uxPriority : Task → ℕ) (l : Kernel (Alarms Task) Task) : Prop where
  ready : ∀ u, Ready uxPriority u l → u ∉ l.xPendingReadyList ∧ u ∉ l.eventItems
  disjoint : ∀ u ∈ l.eventItems, u ∉ l.xPendingReadyList

theorem Settled.addReady (h : Settled uxPriority l) {u : Task} (hpending : u ∉ l.xPendingReadyList)
    (hevent : u ∉ l.eventItems) : Settled uxPriority (prvAddTaskToReadyList uxPriority u l) := by
  refine ⟨fun v hv => ?_, h.disjoint⟩
  rcases (ready_addReady u v).mp hv with rfl | hv
  · exact ⟨hpending, hevent⟩
  · exact h.ready v hv

theorem Settled.foldl {f : Kernel (Alarms Task) Task → Task → Kernel (Alarms Task) Task}
    (hf : ∀ l u, Settled uxPriority l → Settled uxPriority (f l u)) (tasks : List Task) (h : Settled uxPriority l) :
    Settled uxPriority (tasks.foldl f l) := by
  induction tasks generalizing l with
  | nil => exact h
  | cons u tasks ih => exact ih (hf l u h)

theorem settled_boot (ready : ℕ → List Task) : Settled uxPriority (boot ready { clock := 0, blocked := [] }) :=
  ⟨fun _ _ => ⟨List.not_mem_nil, List.not_mem_nil⟩, fun _ hu => absurd hu List.not_mem_nil⟩

variable [DecidableEq Task]

theorem Settled.removeEvent (h : Settled uxPriority l) (u : Task) : Settled uxPriority (removeEventItem u l) := by
  refine ⟨fun v hv => ?_, fun v hv hpending => ?_⟩
  · obtain ⟨hpending, hevent⟩ := h.ready v hv
    exact ⟨fun hmem => hpending (mem_filter_ne.mp hmem).2, fun hmem => hevent (mem_filter_ne.mp hmem).2⟩
  · exact h.disjoint v (mem_filter_ne.mp hv).2 (mem_filter_ne.mp hpending).2

theorem Settled.removeState (h : Settled uxPriority l) (u : Task) :
    Settled uxPriority (removeStateItem alarms uxPriority u l) :=
  ⟨fun v hv => h.ready v ((ready_removeState u v).mp hv).2, h.disjoint⟩

theorem not_mem_removeEvent (u : Task) :
    u ∉ (removeEventItem u l).xPendingReadyList ∧ u ∉ (removeEventItem u l).eventItems :=
  ⟨fun h => (mem_filter_ne.mp h).1 rfl, fun h => (mem_filter_ne.mp h).1 rfl⟩

theorem Settled.tick (h : Settled uxPriority l) (htick : xTaskIncrementTick alarms uxPriority l = some l') :
    Settled uxPriority l' := by
  unfold xTaskIncrementTick at htick
  split at htick
  · cases htick
    refine Settled.foldl (fun l u hl => ?_) _ ⟨h.ready, h.disjoint⟩
    exact (hl.removeEvent u).addReady (not_mem_removeEvent u).1 (not_mem_removeEvent u).2
  · split at htick
    · cases htick
    · cases htick
      exact ⟨h.ready, h.disjoint⟩

theorem Settled.pendedTicks (n : ℕ) (h : Settled uxPriority l) (hrun : pendedTicks alarms uxPriority n l = some l') :
    Settled uxPriority l' := by
  induction n generalizing l with
  | zero =>
    cases hrun
    exact h
  | succ n ih =>
    obtain ⟨r, hr, hrun⟩ := Option.bind_eq_some_iff.mp hrun
    exact ih (h.tick hr) hrun

theorem Settled.movePending (h : Settled uxPriority l) : Settled uxPriority (movePending alarms uxPriority l) := by
  have hmoved := @Settled.foldl _ uxPriority l (fun k u =>
      prvAddTaskToReadyList uxPriority u (removeStateItem alarms uxPriority u (removeEventItem u k)))
    (fun l u hl => ((hl.removeEvent u).removeState u).addReady (not_mem_removeEvent u).1 (not_mem_removeEvent u).2)
    l.xPendingReadyList h
  unfold TaskDelay.movePending
  split
  · exact hmoved
  · exact ⟨hmoved.ready, hmoved.disjoint⟩

theorem Settled.wait (h : Settled uxPriority l) {u : Task} (hready : Ready uxPriority u l) (n : ℕ)
    (indefinitely onEvent : Bool) :
    Settled uxPriority (prvAddCurrentTaskToDelayedList alarms uxPriority u n indefinitely onEvent l) := by
  have hremoved := h.removeState u
  have hevent : Settled uxPriority
      { removeStateItem alarms uxPriority u l with eventItems := l.eventItems ++ [u] } := by
    refine ⟨fun v hv => ?_, fun v hv => ?_⟩
    · obtain ⟨hpending, hevent⟩ := hremoved.ready v hv
      refine ⟨hpending, fun hmem => ?_⟩
      rcases List.mem_append.mp hmem with hmem | hmem
      · exact hevent hmem
      · exact ((@ready_removeState _ _ alarms uxPriority l _ u v).mp hv).1 (List.mem_singleton.mp hmem)
    · rcases List.mem_append.mp hv with hv | hv
      · exact h.disjoint v hv
      · rw [List.mem_singleton.mp hv]
        exact (h.ready u hready).1
  unfold prvAddCurrentTaskToDelayedList
  cases onEvent with
  | false =>
    dsimp only
    split
    · exact ⟨hremoved.ready, hremoved.disjoint⟩
    · exact ⟨hremoved.ready, hremoved.disjoint⟩
  | true =>
    dsimp only
    split
    · exact ⟨hevent.ready, hevent.disjoint⟩
    · exact ⟨hevent.ready, hevent.disjoint⟩

theorem Settled.event (h : Settled uxPriority l) {u : Task} (hu : u ∈ l.eventItems) :
    Settled uxPriority (xTaskRemoveFromEventList alarms uxPriority u l) := by
  have hless : Settled uxPriority { l with eventItems := l.eventItems.filter (· ≠ u) } := by
    refine ⟨fun v hv => ?_, fun v hv => h.disjoint v (mem_filter_ne.mp hv).2⟩
    obtain ⟨hpending, hevent⟩ := h.ready v hv
    exact ⟨hpending, fun hmem => hevent (mem_filter_ne.mp hmem).2⟩
  have hgone : u ∉ l.eventItems.filter (· ≠ u) := fun hmem => (mem_filter_ne.mp hmem).1 rfl
  unfold xTaskRemoveFromEventList
  dsimp only
  split
  · exact (hless.removeState u).addReady (h.disjoint u hu) hgone
  · refine ⟨fun v hv => ?_, fun v hv hpending => ?_⟩
    · obtain ⟨hpending, hevent⟩ := hless.ready v hv
      refine ⟨fun hmem => ?_, hevent⟩
      rcases List.mem_append.mp hmem with hmem | hmem
      · exact hpending hmem
      · rw [List.mem_singleton.mp hmem] at hv
        exact (h.ready u hv).2 hu
    · rcases List.mem_append.mp hpending with hmem | hmem
      · exact h.disjoint v (mem_filter_ne.mp hv).2 hmem
      · exact (mem_filter_ne.mp hv).1 (List.mem_singleton.mp hmem)

theorem Settled.step {a : Action Task} (h : Settled uxPriority l) (hstep : step alarms uxPriority a l = some l') :
    Settled uxPriority l' := by
  cases a with
  | tick => exact h.tick hstep
  | suspendAll =>
    cases hstep
    exact ⟨h.ready, h.disjoint⟩
  | resumeAll =>
    rw [TaskDelay.step, xTaskResumeAll] at hstep
    split at hstep
    · cases hstep
    · dsimp only at hstep
      split at hstep
      · obtain ⟨r, hr, rfl⟩ := Option.map_eq_some_iff.mp hstep
        have hless : Settled uxPriority { l with uxSchedulerSuspended := l.uxSchedulerSuspended - 1 } :=
          ⟨h.ready, h.disjoint⟩
        have hr' := hless.movePending.pendedTicks _ hr
        exact ⟨hr'.ready, hr'.disjoint⟩
      · cases hstep
        exact ⟨h.ready, h.disjoint⟩
  | wait u n indefinitely onEvent =>
    rw [TaskDelay.step] at hstep
    split at hstep
    next hguard =>
      cases hstep
      exact h.wait hguard.1 n indefinitely onEvent
    · cases hstep
  | event u =>
    rw [TaskDelay.step] at hstep
    split at hstep
    next hguard =>
      cases hstep
      exact h.event hguard
    · cases hstep
  | suspend u =>
    cases hstep
    have hremoved := (h.removeState u).removeEvent u
    exact ⟨hremoved.ready, hremoved.disjoint⟩
  | resume u =>
    cases hstep
    unfold vTaskResume
    split
    next hguard =>
      simp only [prvTaskIsTaskSuspended, Bool.and_eq_true, Bool.not_eq_true', List.contains_eq_mem,
        decide_eq_false_iff_not] at hguard
      exact (h.removeState u).addReady hguard.1.2 hguard.2
    · exact h
  | delete itself u =>
    cases hstep
    have hremoved := (h.removeState u).removeEvent u
    cases itself with
    | true => exact hremoved
    | false => exact ⟨hremoved.ready, hremoved.disjoint⟩

theorem idle_step {a : Action Task} (h : Idle l) (hstep : step alarms uxPriority a l = some l') : Idle l' := by
  cases a with
  | tick =>
    rw [step, xTaskIncrementTick] at hstep
    split at hstep
    next hrunning =>
      cases hstep
      obtain ⟨-, -, hpended⟩ := foldl_kept uxPriority _ { l with delays := _ }
      exact fun _ => hpended.trans (h hrunning)
    next hsuspended =>
      split at hstep
      · cases hstep
      · cases hstep
        exact fun hzero => absurd hzero hsuspended
  | suspendAll =>
    cases hstep
    exact fun hzero => absurd hzero (Nat.succ_ne_zero _)
  | resumeAll =>
    rw [step, xTaskResumeAll] at hstep
    split at hstep
    · cases hstep
    · dsimp only at hstep
      split at hstep
      · obtain ⟨r, hr, rfl⟩ := Option.map_eq_some_iff.mp hstep
        exact fun _ => rfl
      next hmore =>
        cases hstep
        exact fun hzero => absurd hzero hmore
  | wait u n indefinitely onEvent =>
    rw [step] at hstep
    split at hstep
    · cases hstep
      unfold Idle prvAddCurrentTaskToDelayedList
      cases onEvent with
      | false =>
        dsimp only
        split
        · exact h
        · exact h
      | true =>
        dsimp only
        split
        · exact h
        · exact h
    · cases hstep
  | event u =>
    rw [step] at hstep
    split at hstep
    · cases hstep
      unfold Idle xTaskRemoveFromEventList
      dsimp only
      split
      · exact h
      · exact h
    · cases hstep
  | suspend u =>
    cases hstep
    exact h
  | resume u =>
    cases hstep
    unfold Idle vTaskResume
    split
    · exact h
    · exact h
  | delete itself u =>
    cases hstep
    cases itself with
    | true => exact h
    | false => exact h

/-- A wait that ends begins with the task in no list but the one of waiting tasks. -/
theorem Settled.waits (h : Settled uxPriority l) {u : Task} {n : ℕ} {indefinitely onEvent : Bool}
    (hends : n = portMaxDelay → indefinitely = false)
    (hstep : TaskDelay.step alarms uxPriority (.wait u n indefinitely onEvent) l = some l') :
    Waits uxPriority u (l.delays.clock + n) l' ∧ came l' = came l := by
  rw [TaskDelay.step] at hstep
  split at hstep
  next hguard =>
    obtain ⟨hready, hpos, -⟩ := hguard
    cases hstep
    have hnone : (l.delays.blocked.filter fun b => b.1 ≠ u).filter (fun b => b.1 = u) = [] := by
      refine List.filter_eq_nil_iff.mpr fun b hb hu => ?_
      exact of_decide_eq_true (List.mem_filter.mp hb).2 (of_decide_eq_true hu)
    have hblocked : ((alarms.add u n (alarms.remove u l.delays)).blocked.filter fun b => b.1 = u) =
        [(u, l.delays.clock + n)] := TimedList.filter_insert_of_nil (by simp) hnone
    have hgone : ¬Ready uxPriority u (removeStateItem alarms uxPriority u l) :=
      fun hmem => ((ready_removeState u u).mp hmem).1 rfl
    have hlt : l.delays.clock < l.delays.clock + n := Nat.lt_add_of_pos_right hpos
    have hends' : ¬(n = portMaxDelay ∧ indefinitely = true) := by
      rintro ⟨hmax, htrue⟩
      rw [hends hmax] at htrue
      cases htrue
    have hwait : prvAddCurrentTaskToDelayedList alarms uxPriority u n indefinitely onEvent l =
        { removeStateItem alarms uxPriority u l with
          eventItems := if onEvent then l.eventItems ++ [u] else l.eventItems
          delays := alarms.add u n (alarms.remove u l.delays) } := by
      unfold prvAddCurrentTaskToDelayedList
      cases onEvent with
      | false => exact if_neg hends'
      | true => exact if_neg hends'
    rw [hwait]
    refine ⟨⟨(h.ready u hready).1, iff_of_false hgone (Nat.not_le_of_lt hlt), ?_⟩, rfl⟩
    exact hblocked.trans (if_pos hlt).symm
  · cases hstep

end

/-- A wait of a task that ends, on its own or for an event that does not come, ends with the `n`-th tick after it, whatever the tick count is and whatever other tasks and the scheduler do meanwhile. The ticks that came before
it while the scheduler was suspended count as well. -/
theorem wait_exact {Task : Type*} [DecidableEq Task] (uxPriority : Task → ℕ) (ready : ℕ → List Task)
    (as bs : List (Action Task)) (task : Task) (n : ℕ) (indefinitely onEvent : Bool)
    (hends : n = portMaxDelay → indefinitely = false) {k k' k'' : Kernel (DelayedLists Task) Task}
    (hbefore : run (step delayedLists uxPriority) as (boot ready initialLists) = some k)
    (hwait : step delayedLists uxPriority (.wait task n indefinitely onEvent) k = some k')
    (hafter : run (step delayedLists uxPriority) bs k' = some k'')
    (hother : ∀ b ∈ bs, about b ≠ some task) (hrunning : k''.uxSchedulerSuspended = 0) :
    Ready uxPriority task k'' ↔ n ≤ k.xPendedTicks + bs.countP isTick := by
  obtain ⟨l, hl, hrel⟩ := rel_some_left (related_run uxPriority as (.intro _ represents_initial)) hbefore
  obtain ⟨l', hl', hrel'⟩ := rel_some_left (Related.step delayedLists_simulates uxPriority _ hrel) hwait
  obtain ⟨l'', hl'', hrel''⟩ := rel_some_left (related_run uxPriority bs hrel') hafter
  have hinv : Settled uxPriority l ∧ Idle l :=
    @run_invariant _ _ _ (fun l => Settled uxPriority l ∧ Idle l) (fun _ _ => True)
      (fun _ _ _ hs _ ha => ⟨hs.1.step ha, idle_step hs.2 ha⟩) _ _ _ ⟨settled_boot ready, fun _ => rfl⟩
      (along_true _ _ _) hl
  obtain ⟨hwaits, hcame⟩ := hinv.1.waits hends hl'
  obtain ⟨hwaits', hidle, hcame'⟩ := hwaits.run (idle_step hinv.2 hl') hother hl''
  have hpended : k.xPendedTicks = l.xPendedTicks := by
    cases hrel with
    | intro p hR => rfl
  have hrunning' : l''.uxSchedulerSuspended = 0 := by
    cases hrel'' with
    | intro p hR => exact hrunning
  have hready : Ready uxPriority task k'' ↔ Ready uxPriority task l'' := by
    cases hrel'' with
    | intro p hR => exact Iff.rfl
  have hzero := hidle hrunning'
  rw [hready, hwaits'.ready, hpended]
  unfold came at hcame hcame'
  omega

theorem wait_exact_suspended : ∃ k' k'' : Kernel (DelayedLists ℕ) ℕ,
    step delayedLists (fun _ => 0) (.wait 7 2 false false) (boot (fun _ => [7]) initialLists) = some k' ∧
      run (step delayedLists (fun _ => 0)) [.tick, .suspendAll, .tick, .resumeAll] k' = some k'' ∧
        Ready (fun _ => 0) 7 k'' := by
  refine ⟨_, _, rfl, rfl, ?_⟩
  exact (wait_exact (fun _ => 0) (fun _ => [7]) [] [.tick, .suspendAll, .tick, .resumeAll] 7 2 false false (fun _ => rfl)
    rfl rfl rfl (by simp [about]) rfl).mpr (Nat.le_refl 2)

end NbiotXY1100.TaskWake
