import NbiotXY1100.TaskDelay

/-! # The kernel keeps time

The two delayed lists and the 32-bit tick count do what one list and a clock that never wraps would do. -/
namespace NbiotXY1100.TaskClock
open StepRuns StepSimulation TaskDelay

/-- A clock that never wraps, and the waiting tasks with the ticks at which they wake, in the order of these. -/
structure Alarms (Task : Type*) where
  clock : ℕ
  blocked : List (Task × ℕ)

def alarms {Task : Type*} [DecidableEq Task] : Timer (Alarms Task) Task where
  add task n a := { a with blocked := TimedList.insert Prod.snd (task, a.clock + n) a.blocked }
  remove task a := { a with blocked := a.blocked.filter fun b => b.1 ≠ task }
  reset a := a
  tick a := some ((a.blocked.filter fun b => b.2 ≤ a.clock + 1).map Prod.fst,
    { clock := a.clock + 1, blocked := a.blocked.filter fun b => a.clock + 1 < b.2 })

section
variable {Task : Type*}

/-- The tick at which a task wakes when the counter has wrapped `wraps` times. -/
def alarm (wraps : ℕ) (item : Item Task) : Task × ℕ :=
  (item.task, wraps * 2 ^ 32 + item.xItemValue)

/-- The lists and the counter between two operations, as the clock has them. -/
structure RepresentsAt (wraps : ℕ) (d : DelayedLists Task) (a : Alarms Task) : Prop where
  tick_lt : d.xTickCount < 2 ^ 32
  clock : a.clock = wraps * 2 ^ 32 + d.xTickCount
  blocked : a.blocked =
    d.pxDelayedTaskList.map (alarm wraps) ++ d.pxOverflowDelayedTaskList.map (alarm (wraps + 1))
  sorted : TimedList.Sorted Item.xItemValue d.pxDelayedTaskList
  sorted_overflow : TimedList.Sorted Item.xItemValue d.pxOverflowDelayedTaskList
  delayed : ∀ item ∈ d.pxDelayedTaskList,
    d.xTickCount < item.xItemValue ∧ item.xItemValue < 2 ^ 32 ∧ d.xNextTaskUnblockTime ≤ item.xItemValue
  overflow : ∀ item ∈ d.pxOverflowDelayedTaskList, item.xItemValue < d.xTickCount

def Represents (d : DelayedLists Task) (a : Alarms Task) : Prop :=
  ∃ wraps, RepresentsAt wraps d a

theorem alarm_le_iff {wraps : ℕ} (i j : Item Task) :
    (alarm wraps i).2 ≤ (alarm wraps j).2 ↔ i.xItemValue ≤ j.xItemValue :=
  Nat.add_le_add_iff_left

theorem map_vListInsert (wraps : ℕ) (item : Item Task) (l : List (Item Task)) :
    (vListInsert item l).map (alarm wraps) = TimedList.insert Prod.snd (alarm wraps item) (l.map (alarm wraps)) :=
  TimedList.map_insert (alarm wraps) alarm_le_iff item l

theorem RepresentsAt.add [DecidableEq Task] {wraps : ℕ} {d : DelayedLists Task} {a : Alarms Task}
    (h : RepresentsAt wraps d a) (task : Task) {n : ℕ} (hpos : 0 < n) (hmax : n ≤ portMaxDelay) :
    RepresentsAt wraps (addToDelayedList task n d) (alarms.add task n a) := by
  have htick := h.tick_lt
  have hclock := h.clock
  unfold portMaxDelay at hmax
  unfold addToDelayedList
  dsimp only
  by_cases hwrap : d.xTickCount + n < 2 ^ 32
  · -- the task wakes before the counter wraps
    have hmod : (d.xTickCount + n) % 2 ^ 32 = d.xTickCount + n := Nat.mod_eq_of_lt hwrap
    have hlist : (alarms.add task n a).blocked =
        (vListInsert ⟨task, d.xTickCount + n⟩ d.pxDelayedTaskList).map (alarm wraps) ++
          d.pxOverflowDelayedTaskList.map (alarm (wraps + 1)) := by
      have halarm : (task, a.clock + n) = alarm wraps ⟨task, d.xTickCount + n⟩ := by
        rw [alarm, hclock, Nat.add_assoc]
      rw [map_vListInsert, ← halarm]
      refine (congrArg _ h.blocked).trans (TimedList.insert_append_of_lt fun b hb => ?_)
      obtain ⟨item, -, rfl⟩ := List.mem_map.mp hb
      simp only [alarm]
      omega
    have hmem : ∀ item ∈ vListInsert ⟨task, d.xTickCount + n⟩ d.pxDelayedTaskList,
        d.xTickCount < item.xItemValue ∧ item.xItemValue < 2 ^ 32 ∧
          (d.xNextTaskUnblockTime ≤ item.xItemValue ∨ item.xItemValue = d.xTickCount + n) := by
      intro item hitem
      rcases TimedList.mem_insert.mp hitem with rfl | hitem
      · exact ⟨by dsimp only; omega, hwrap, Or.inr rfl⟩
      · obtain ⟨hlt, hmax, hnext⟩ := h.delayed item hitem
        exact ⟨hlt, hmax, Or.inl hnext⟩
    rw [hmod, if_neg (by omega)]
    split
    next hearlier =>
      refine ⟨htick, hclock, hlist, h.sorted.insert, h.sorted_overflow, fun item hitem => ?_, h.overflow⟩
      obtain ⟨hlt, hmax, hnext⟩ := hmem item hitem
      dsimp only
      omega
    next hlater =>
      refine ⟨htick, hclock, hlist, h.sorted.insert, h.sorted_overflow, fun item hitem => ?_, h.overflow⟩
      obtain ⟨hlt, hmax, hnext⟩ := hmem item hitem
      dsimp only
      omega
  · have hmod : (d.xTickCount + n) % 2 ^ 32 = d.xTickCount + n - 2 ^ 32 := by omega
    rw [hmod, if_pos (by omega)]
    refine ⟨htick, hclock, ?_, h.sorted, h.sorted_overflow.insert, h.delayed, fun item hitem => ?_⟩
    · have halarm : (task, a.clock + n) = alarm (wraps + 1) ⟨task, d.xTickCount + n - 2 ^ 32⟩ := by
        simp only [alarm, hclock, Prod.mk.injEq, true_and]
        omega
      rw [map_vListInsert, ← halarm]
      refine (congrArg _ h.blocked).trans (TimedList.insert_append_of_le fun b hb => ?_)
      obtain ⟨item, hitem, rfl⟩ := List.mem_map.mp hb
      have hlt := (h.delayed item hitem).2.1
      simp only [alarm]
      omega
    · rcases TimedList.mem_insert.mp hitem with rfl | hitem
      · dsimp only
        omega
      · exact h.overflow item hitem

theorem RepresentsAt.remove [DecidableEq Task] {wraps : ℕ} {d : DelayedLists Task} {a : Alarms Task}
    (h : RepresentsAt wraps d a) (task : Task) : RepresentsAt wraps (removeDelayed task d) (alarms.remove task a) := by
  refine ⟨h.tick_lt, h.clock, ?_, h.sorted.filter _, h.sorted_overflow.filter _, fun item hitem => ?_, fun item hitem => ?_⟩
  · refine (congrArg (List.filter _) h.blocked).trans ?_
    rw [List.filter_append, List.filter_map, List.filter_map]
    rfl
  · exact h.delayed item (List.mem_of_mem_filter hitem)
  · exact h.overflow item (List.mem_of_mem_filter hitem)

/-- The next unblock time, when it is computed anew, is not later than any waiting task. -/
theorem reset_next_le {d : DelayedLists Task} (hsorted : TimedList.Sorted Item.xItemValue d.pxDelayedTaskList) :
    ∀ item ∈ d.pxDelayedTaskList, (prvResetNextTaskUnblockTime d).xNextTaskUnblockTime ≤ item.xItemValue := by
  intro item hitem
  unfold prvResetNextTaskUnblockTime
  cases hlist : d.pxDelayedTaskList with
  | nil =>
    rw [hlist] at hitem
    cases hitem
  | cons head rest =>
    rw [hlist] at hitem hsorted
    rcases List.mem_cons.mp hitem with rfl | hrest
    · exact Nat.le_refl _
    · exact (List.pairwise_cons.mp hsorted).1 item hrest

theorem reset_eq (d : DelayedLists Task) :
    ∃ next, prvResetNextTaskUnblockTime d = { d with xNextTaskUnblockTime := next } := by
  unfold prvResetNextTaskUnblockTime
  split
  · exact ⟨_, rfl⟩
  · exact ⟨_, rfl⟩

theorem RepresentsAt.reset {wraps : ℕ} {d : DelayedLists Task} {a : Alarms Task} (h : RepresentsAt wraps d a) :
    RepresentsAt wraps (prvResetNextTaskUnblockTime d) a := by
  have hnext := reset_next_le h.sorted
  obtain ⟨next, heq⟩ := reset_eq d
  rw [heq] at hnext ⊢
  refine ⟨h.tick_lt, h.clock, h.blocked, h.sorted, h.sorted_overflow, fun item hitem => ?_, h.overflow⟩
  obtain ⟨hlt, hmax, -⟩ := h.delayed item hitem
  exact ⟨hlt, hmax, hnext item hitem⟩

/-- The loop takes what is due from the front of the list; the next unblock time is not later than the rest. -/
theorem unblockLoop_eq (now : ℕ) (l : List (Item Task)) :
    (unblockLoop now l).1 = (l.takeWhile fun item => item.xItemValue ≤ now).map Item.task ∧
      (unblockLoop now l).2.1 = l.dropWhile (fun item => item.xItemValue ≤ now) ∧
      ∀ head ∈ ((unblockLoop now l).2.1).head?, (unblockLoop now l).2.2 = head.xItemValue := by
  induction l with
  | nil => exact ⟨rfl, rfl, fun head hhead => by cases hhead⟩
  | cons item rest ih =>
    rw [unblockLoop]
    by_cases hlt : now < item.xItemValue
    · rw [if_pos hlt, List.takeWhile_cons_of_neg (by simpa using hlt), List.dropWhile_cons_of_neg (by simpa using hlt)]
      refine ⟨rfl, rfl, fun head hhead => ?_⟩
      cases hhead
      rfl
    · rw [if_neg hlt, List.takeWhile_cons_of_pos (by simpa using hlt), List.dropWhile_cons_of_pos (by simpa using hlt)]
      exact ⟨congrArg (item.task :: ·) ih.1, ih.2⟩

/-- The lists when the counter has just gone up: the tasks that are due are still in them. -/
structure CountedAt (wraps : ℕ) (d : DelayedLists Task) (a : Alarms Task) : Prop where
  tick_lt : d.xTickCount < 2 ^ 32
  clock : a.clock = wraps * 2 ^ 32 + d.xTickCount
  blocked : a.blocked =
    d.pxDelayedTaskList.map (alarm wraps) ++ d.pxOverflowDelayedTaskList.map (alarm (wraps + 1))
  sorted : TimedList.Sorted Item.xItemValue d.pxDelayedTaskList
  sorted_overflow : TimedList.Sorted Item.xItemValue d.pxOverflowDelayedTaskList
  delayed : ∀ item ∈ d.pxDelayedTaskList,
    d.xTickCount ≤ item.xItemValue ∧ item.xItemValue < 2 ^ 32 ∧ d.xNextTaskUnblockTime ≤ item.xItemValue
  overflow : ∀ item ∈ d.pxOverflowDelayedTaskList, item.xItemValue < d.xTickCount

theorem CountedAt.alarm_le_iff {wraps : ℕ} {d : DelayedLists Task} {a : Alarms Task} (h : CountedAt wraps d a)
    (item : Item Task) : (alarm wraps item).2 ≤ a.clock ↔ item.xItemValue ≤ d.xTickCount := by
  rw [h.clock]
  exact Nat.add_le_add_iff_left

theorem CountedAt.clock_lt {wraps : ℕ} {d : DelayedLists Task} {a : Alarms Task} (h : CountedAt wraps d a)
    (item : Item Task) : a.clock < (alarm (wraps + 1) item).2 := by
  have htick := h.tick_lt
  rw [h.clock, alarm]
  dsimp only
  omega

theorem CountedAt.due {wraps : ℕ} {d : DelayedLists Task} {a : Alarms Task} (h : CountedAt wraps d a) :
    (a.blocked.filter fun b => b.2 ≤ a.clock).map Prod.fst =
      (d.pxDelayedTaskList.filter fun item => item.xItemValue ≤ d.xTickCount).map Item.task := by
  have hnone : (d.pxOverflowDelayedTaskList.map (alarm (wraps + 1))).filter (fun b => b.2 ≤ a.clock) = [] := by
    refine List.filter_eq_nil_iff.mpr fun b hb hdue => ?_
    obtain ⟨item, -, rfl⟩ := List.mem_map.mp hb
    exact absurd (of_decide_eq_true hdue) (Nat.not_le_of_lt (h.clock_lt item))
  rw [h.blocked, List.filter_append, hnone, List.append_nil, List.filter_map, List.map_map]
  refine congrArg (List.map Item.task) (List.filter_congr fun item _ => ?_)
  rw [Function.comp_apply, decide_eq_decide]
  exact h.alarm_le_iff item

theorem CountedAt.left {wraps : ℕ} {d : DelayedLists Task} {a : Alarms Task} (h : CountedAt wraps d a) :
    (a.blocked.filter fun b => a.clock < b.2) =
      (d.pxDelayedTaskList.filter fun item => d.xTickCount < item.xItemValue).map (alarm wraps) ++
        d.pxOverflowDelayedTaskList.map (alarm (wraps + 1)) := by
  have hall : (d.pxOverflowDelayedTaskList.map (alarm (wraps + 1))).filter (fun b => a.clock < b.2) =
      d.pxOverflowDelayedTaskList.map (alarm (wraps + 1)) := by
    refine List.filter_eq_self.mpr fun b hb => ?_
    obtain ⟨item, -, rfl⟩ := List.mem_map.mp hb
    exact decide_eq_true (h.clock_lt item)
  rw [h.blocked, List.filter_append, hall, List.filter_map]
  refine congrArg (List.map (alarm wraps) · ++ _) (List.filter_congr fun item _ => ?_)
  rw [Function.comp_apply, decide_eq_decide, ← Nat.not_le, ← Nat.not_le, h.alarm_le_iff]

theorem CountedAt.unblock {wraps : ℕ} {d : DelayedLists Task} {a : Alarms Task} (h : CountedAt wraps d a) :
    (unblockTasks d).1 = (a.blocked.filter fun b => b.2 ≤ a.clock).map Prod.fst ∧
      RepresentsAt wraps (unblockTasks d).2 { a with blocked := a.blocked.filter fun b => a.clock < b.2 } := by
  rw [h.due]
  unfold unblockTasks
  by_cases hnext : d.xNextTaskUnblockTime ≤ d.xTickCount
  · obtain ⟨hdue, hleft, hhead⟩ := unblockLoop_eq d.xTickCount d.pxDelayedTaskList
    rw [h.sorted.takeWhile_eq_filter] at hdue
    rw [h.sorted.dropWhile_eq_filter] at hleft
    rw [if_pos hnext]
    have hsorted : TimedList.Sorted Item.xItemValue (unblockLoop d.xTickCount d.pxDelayedTaskList).2.1 := by
      rw [hleft]
      exact h.sorted.filter _
    refine ⟨hdue, h.tick_lt, h.clock, ?_, hsorted, h.sorted_overflow, fun item hitem => ?_, h.overflow⟩
    · rw [h.left, ← hleft]
    · have hmem := hitem
      dsimp only at hmem
      rw [hleft] at hmem
      obtain ⟨hmem, hlt⟩ := List.mem_filter.mp hmem
      refine ⟨of_decide_eq_true hlt, (h.delayed item hmem).2.1, ?_⟩
      dsimp only at hitem ⊢
      cases hrest : (unblockLoop d.xTickCount d.pxDelayedTaskList).2.1 with
      | nil =>
        rw [hrest] at hitem
        cases hitem
      | cons head rest =>
        rw [hhead head (by rw [hrest]; rfl)]
        rw [hrest] at hitem hsorted
        rcases List.mem_cons.mp hitem with rfl | hitem
        · exact Nat.le_refl _
        · exact (List.pairwise_cons.mp hsorted).1 item hitem
  · rw [if_neg hnext]
    have hlater : ∀ item ∈ d.pxDelayedTaskList, d.xTickCount < item.xItemValue := by
      intro item hitem
      have hle := (h.delayed item hitem).2.2
      omega
    refine ⟨?_, h.tick_lt, h.clock, ?_, h.sorted, h.sorted_overflow, fun item hitem => ?_, h.overflow⟩
    · refine (congrArg (List.map _) (List.filter_eq_nil_iff.mpr fun item hitem => ?_)).symm
      have hlt := hlater item hitem
      simp only [decide_eq_true_eq]
      omega
    · rw [h.left, List.filter_eq_self.mpr fun item hitem => decide_eq_true (hlater item hitem)]
    · exact ⟨hlater item hitem, (h.delayed item hitem).2⟩

/-- The counter goes up; when it wraps, the list is empty and the other one takes its place. -/
theorem RepresentsAt.increment {wraps : ℕ} {d : DelayedLists Task} {a : Alarms Task} (h : RepresentsAt wraps d a) :
    ∃ d' wraps', incrementTick d = some (unblockTasks d') ∧ CountedAt wraps' d' { a with clock := a.clock + 1 } := by
  have htick := h.tick_lt
  have hclock := h.clock
  unfold incrementTick
  dsimp only
  by_cases hwrap : d.xTickCount + 1 = 2 ^ 32
  · have hempty : d.pxDelayedTaskList = [] := by
      refine List.eq_nil_iff_forall_not_mem.mpr fun item hitem => ?_
      obtain ⟨hlt, hmax, -⟩ := h.delayed item hitem
      omega
    let switched : DelayedLists Task :=
      { d with
        xTickCount := 0
        pxDelayedTaskList := d.pxOverflowDelayedTaskList
        pxOverflowDelayedTaskList := [] }
    have hnext := @reset_next_le _ switched h.sorted_overflow
    obtain ⟨next, heq⟩ := reset_eq switched
    rw [heq] at hnext
    refine ⟨{ switched with xNextTaskUnblockTime := next }, wraps + 1, ?_, ?_⟩
    · rw [hwrap, Nat.mod_self, if_pos rfl, taskSwitchDelayedLists, hempty, List.isEmpty_nil, if_pos rfl]
      exact congrArg (fun d => some (unblockTasks d)) heq
    · have hnew : a.clock + 1 = (wraps + 1) * 2 ^ 32 + 0 := by omega
      refine ⟨Nat.two_pow_pos 32, hnew, ?_, h.sorted_overflow, List.Pairwise.nil,
        fun item hitem => ?_, fun item hitem => by cases hitem⟩
      · rw [h.blocked, hempty, List.map_nil, List.nil_append]
        exact (List.append_nil _).symm
      · have hlt := h.overflow item hitem
        exact ⟨Nat.zero_le _, by omega, hnext item hitem⟩
  · have hmod : (d.xTickCount + 1) % 2 ^ 32 = d.xTickCount + 1 := Nat.mod_eq_of_lt (by omega)
    refine ⟨{ d with xTickCount := d.xTickCount + 1 }, wraps, ?_, ?_⟩
    · rw [hmod, if_neg (Nat.succ_ne_zero _)]
      rfl
    · have hnew : a.clock + 1 = wraps * 2 ^ 32 + (d.xTickCount + 1) := by omega
      have hlt : d.xTickCount + 1 < 2 ^ 32 := by omega
      refine ⟨hlt, hnew, h.blocked, h.sorted, h.sorted_overflow, fun item hitem => ?_, fun item hitem => ?_⟩
      · exact h.delayed item hitem
      · exact Nat.lt_succ_of_lt (h.overflow item hitem)

theorem delayedLists_simulates [DecidableEq Task] :
    Simulates (@delayedLists Task _) alarms Represents where
  add := by
    rintro d a task n ⟨wraps, h⟩ hpos hmax
    exact ⟨wraps, h.add task hpos hmax⟩
  remove := by
    rintro d a task ⟨wraps, h⟩
    exact ⟨wraps, h.remove task⟩
  reset := by
    rintro d a ⟨wraps, h⟩
    exact ⟨wraps, h.reset⟩
  tick := by
    rintro d a ⟨wraps, h⟩
    obtain ⟨d', wraps', htick, hcounted⟩ := h.increment
    obtain ⟨hdue, hrep⟩ := hcounted.unblock
    exact ⟨(unblockTasks d').1, (unblockTasks d').2, _, htick, congrArg (fun tasks => some (tasks, _)) hdue.symm,
      wraps', hrep⟩

end

/-- The lists when the scheduler starts. -/
def initialLists {Task : Type*} : DelayedLists Task :=
  { xTickCount := 0, pxDelayedTaskList := [], pxOverflowDelayedTaskList := [], xNextTaskUnblockTime := portMaxDelay }

def boot {Q Task : Type*} (ready : ℕ → List Task) (q : Q) : Kernel Q Task :=
  { delays := q, pxReadyTasksLists := ready, xSuspendedTaskList := [], xPendingReadyList := [], eventItems := [],
    uxSchedulerSuspended := 0, xPendedTicks := 0 }

/-- The kernel with its two lists shows what the one with the clock does. -/
structure Agrees {Task : Type*} (k : Kernel (DelayedLists Task) Task) (l : Kernel (Alarms Task) Task) : Prop where
  lists : l = k.withDelays l.delays
  xTickCount : k.delays.xTickCount = l.delays.clock % 2 ^ 32
  waiting : (k.delays.pxDelayedTaskList ++ k.delays.pxOverflowDelayedTaskList).map Item.task =
    l.delays.blocked.map Prod.fst

section
variable {Task : Type*} {k : Kernel (DelayedLists Task) Task} {l : Kernel (Alarms Task) Task}

theorem represents_initial : Represents (@initialLists Task) { clock := 0, blocked := [] } :=
  ⟨0, Nat.two_pow_pos 32, rfl, rfl, List.Pairwise.nil, List.Pairwise.nil, fun _ hitem => absurd hitem List.not_mem_nil,
    fun _ hitem => absurd hitem List.not_mem_nil⟩

theorem agrees_of_related (h : Related Represents k l) : Agrees k l := by
  cases h with
  | intro a hR =>
    obtain ⟨wraps, hrep⟩ := hR
    refine ⟨rfl, ?_, ?_⟩
    · have hlt := hrep.tick_lt
      have hclock := hrep.clock
      dsimp only
      omega
    · dsimp only
      rw [hrep.blocked, List.map_append, List.map_append, List.map_map, List.map_map]
      rfl

theorem related_run [DecidableEq Task] (uxPriority : Task → ℕ) (as : List (Action Task)) (h : Related Represents k l) :
    Option.Rel (Related Represents) (run (step delayedLists uxPriority) as k) (run (step alarms uxPriority) as l) :=
  run_rel (fun a _ _ h => Related.step delayedLists_simulates uxPriority a h) as h

/-- In every run, whatever order ticks, waits, events and suspensions come in, the kernel with its 32-bit counter
and its two delayed lists accepts the same actions and readies the same tasks, in the same order, as a kernel whose
clock does not wrap; the assertion that the list is empty at a wrap never fails. -/
theorem kernel_keeps_time [DecidableEq Task] (uxPriority : Task → ℕ) (ready : ℕ → List Task) (as : List (Action Task)) :
    Option.Rel Agrees (run (step delayedLists uxPriority) as (boot ready initialLists))
      (run (step alarms uxPriority) as (boot ready { clock := 0, blocked := [] })) :=
  rel_imp (related_run uxPriority as (.intro _ represents_initial)) (fun _ _ => agrees_of_related)

end

end NbiotXY1100.TaskClock
