import NbiotXY1100.TaskDelay

/-! # Periods and time-outs of tasks

`vTaskDelayUntil` and `xTaskCheckForTimeOut` compare 32-bit tick counts. Instants are counted here without a
wrap; the functions see them modulo `2 ^ 32`. -/
namespace NbiotXY1100.TaskTimeouts
open TaskDelay

/-- The ticks that the task has to wait, if any, and the new value of `*pxPreviousWakeTime`. -/
def vTaskDelayUntil (xTickCount pxPreviousWakeTime xTimeIncrement : ℕ) : Option ℕ × ℕ :=
  let xTimeToWake := (pxPreviousWakeTime + xTimeIncrement) % 2 ^ 32
  let xShouldDelay :=
    if xTickCount < pxPreviousWakeTime then xTimeToWake < pxPreviousWakeTime ∧ xTickCount < xTimeToWake
    else xTimeToWake < pxPreviousWakeTime ∨ xTickCount < xTimeToWake
  (if xShouldDelay then some ((xTimeToWake + 2 ^ 32 - xTickCount) % 2 ^ 32) else none, xTimeToWake)

def periodicWaits (xTimeIncrement : ℕ) : ℕ → List ℕ → List (Option ℕ)
  | _, [] => []
  | pxPreviousWakeTime, now :: later =>
    let (wait, pxPreviousWakeTime) := vTaskDelayUntil (now % 2 ^ 32) pxPreviousWakeTime xTimeIncrement
    wait :: periodicWaits xTimeIncrement pxPreviousWakeTime later

structure TimeOut where
  xOverflowCount : ℕ
  xTimeOnEntering : ℕ

def vTaskInternalSetTimeOutState (xNumOfOverflows xTickCount : ℕ) : TimeOut :=
  { xOverflowCount := xNumOfOverflows, xTimeOnEntering := xTickCount }

/-- `none` is a time-out, else the new `TimeOut_t` and the ticks that remain. -/
def xTaskCheckForTimeOut (xNumOfOverflows xTickCount : ℕ) (pxTimeOut : TimeOut) (pxTicksToWait : ℕ) :
    Option (TimeOut × ℕ) :=
  let xElapsedTime := (xTickCount + 2 ^ 32 - pxTimeOut.xTimeOnEntering) % 2 ^ 32
  if pxTicksToWait = portMaxDelay then some (pxTimeOut, pxTicksToWait)
  else if xNumOfOverflows ≠ pxTimeOut.xOverflowCount ∧ pxTimeOut.xTimeOnEntering ≤ xTickCount then none
  else if xElapsedTime < pxTicksToWait then
    some (vTaskInternalSetTimeOutState xNumOfOverflows xTickCount, pxTicksToWait - xElapsedTime)
  else none

/-- The instant at which a task gives up that looks at the given instants, as the loops of `queue.c` do whenever
the task was readied and found the queue as before. -/
def givesUpAt : TimeOut → ℕ → List ℕ → Option ℕ
  | _, _, [] => none
  | pxTimeOut, xTicksToWait, now :: later =>
    match xTaskCheckForTimeOut (now / 2 ^ 32) (now % 2 ^ 32) pxTimeOut xTicksToWait with
    | none => some now
    | some (pxTimeOut, xTicksToWait) => givesUpAt pxTimeOut xTicksToWait later

theorem vTaskDelayUntil_eq {previous now inc : ℕ} (hpos : 0 < inc) (hinc : inc < 2 ^ 32) (hle : previous ≤ now)
    (hlt : now < previous + 2 ^ 32) :
    vTaskDelayUntil (now % 2 ^ 32) (previous % 2 ^ 32) inc =
      (if now < previous + inc then some (previous + inc - now) else none, (previous + inc) % 2 ^ 32) := by
  have hwake : (previous % 2 ^ 32 + inc) % 2 ^ 32 = (previous + inc) % 2 ^ 32 := Nat.mod_add_mod _ _ _
  have hshould : (if now % 2 ^ 32 < previous % 2 ^ 32
      then (previous + inc) % 2 ^ 32 < previous % 2 ^ 32 ∧ now % 2 ^ 32 < (previous + inc) % 2 ^ 32
      else (previous + inc) % 2 ^ 32 < previous % 2 ^ 32 ∨ now % 2 ^ 32 < (previous + inc) % 2 ^ 32) ↔
      now < previous + inc := by
    split
    · omega
    · omega
  unfold vTaskDelayUntil
  dsimp only
  rw [hwake]
  refine Prod.ext ?_ rfl
  dsimp only
  by_cases h : now < previous + inc
  · rw [if_pos (hshould.mpr h), if_pos h]
    refine congrArg some ?_
    omega
  · rw [if_neg (fun h' => h (hshould.mp h')), if_neg h]

/-- A periodic task keeps to its period: the wait at the `k`-th call ends `k + 1` increments after the first wake
time, however late the calls come, as long as none is late by a whole wrap of the counter and none comes before the wake
time that the call before it waited for. -/
theorem periodicWaits_eq {inc : ℕ} (hpos : 0 < inc) (hinc : inc < 2 ^ 32) (first : ℕ) (nows : List ℕ)
    (hnows : ∀ k (hk : k < nows.length), first + k * inc ≤ nows[k] ∧ nows[k] < first + k * inc + 2 ^ 32) :
    periodicWaits inc (first % 2 ^ 32) nows =
      nows.mapIdx fun k now =>
        if now < first + (k + 1) * inc then some (first + (k + 1) * inc - now) else none := by
  induction nows generalizing first with
  | nil => rfl
  | cons now later ih =>
    obtain ⟨hle, hlt⟩ := hnows 0 (Nat.succ_pos _)
    simp only [List.getElem_cons_zero, Nat.zero_mul, Nat.add_zero] at hle hlt
    have hlater : ∀ k (hk : k < later.length),
        first + inc + k * inc ≤ later[k] ∧ later[k] < first + inc + k * inc + 2 ^ 32 := by
      intro k hk
      have h := hnows (k + 1) (Nat.succ_lt_succ hk)
      rw [List.getElem_cons_succ, Nat.succ_mul] at h
      omega
    rw [periodicWaits, vTaskDelayUntil_eq hpos hinc hle hlt]
    dsimp only
    rw [ih (first + inc) hlater, List.mapIdx_cons]
    refine congrArg₂ List.cons ?_ ?_
    · rw [Nat.zero_add, Nat.one_mul]
    · refine congrArg (List.mapIdx · later) ?_
      funext k now
      rw [Nat.succ_mul (k + 1), Nat.add_comm ((k + 1) * inc), Nat.add_assoc]

theorem xTaskCheckForTimeOut_eq {entered now wait : ℕ} (hwait : wait < portMaxDelay) (hle : entered ≤ now)
    (hlt : now < entered + 2 ^ 32) {pxTimeOut : TimeOut} (hcount : pxTimeOut.xOverflowCount = entered / 2 ^ 32)
    (htime : pxTimeOut.xTimeOnEntering = entered % 2 ^ 32) :
    xTaskCheckForTimeOut (now / 2 ^ 32) (now % 2 ^ 32) pxTimeOut wait =
      if entered + wait ≤ now then none
      else some (vTaskInternalSetTimeOutState (now / 2 ^ 32) (now % 2 ^ 32), entered + wait - now) := by
  have helapsed : (now % 2 ^ 32 + 2 ^ 32 - pxTimeOut.xTimeOnEntering) % 2 ^ 32 = now - entered := by omega
  have hsame : ¬(now / 2 ^ 32 ≠ pxTimeOut.xOverflowCount ∧ pxTimeOut.xTimeOnEntering ≤ now % 2 ^ 32) := by omega
  rw [xTaskCheckForTimeOut, helapsed, if_neg (Nat.ne_of_lt hwait), if_neg hsame]
  by_cases h : entered + wait ≤ now
  · rw [if_neg (by omega), if_pos h]
  · rw [if_pos (by omega), if_neg h]
    have hrest : wait - (now - entered) = entered + wait - now := by omega
    rw [hrest]

theorem givesUpAt_forever (t : TimeOut) (nows : List ℕ) : givesUpAt t portMaxDelay nows = none := by
  induction nows generalizing t with
  | nil => rfl
  | cons now later ih =>
    rw [givesUpAt, xTaskCheckForTimeOut, if_pos rfl]
    exact ih t

/-- A time-out is the one of the whole wait, however often the task looks in between: it gives up at the first look
that is not before the end of its wait, and never if the wait has no end. -/
theorem givesUpAt_eq (wait : ℕ) (hwait : wait ≤ portMaxDelay) (entered : ℕ) (nows : List ℕ)
    (hnows : (entered :: nows).IsChain fun a b => a ≤ b ∧ b < a + 2 ^ 32) :
    givesUpAt (vTaskInternalSetTimeOutState (entered / 2 ^ 32) (entered % 2 ^ 32)) wait nows =
      if wait = portMaxDelay then none else nows.find? (fun now => entered + wait ≤ now) := by
  by_cases hforever : wait = portMaxDelay
  · rw [if_pos hforever, hforever, givesUpAt_forever]
  · rw [if_neg hforever]
    induction nows generalizing entered wait with
    | nil => rfl
    | cons now later ih =>
      obtain ⟨⟨hle, hlt⟩, hlater⟩ := List.isChain_cons_cons.mp hnows
      rw [givesUpAt, xTaskCheckForTimeOut_eq (by omega) hle hlt rfl rfl]
      by_cases hdue : entered + wait ≤ now
      · rw [if_pos hdue, List.find?_cons_of_pos]
        exact decide_eq_true hdue
      · have hrest : now + (entered + wait - now) = entered + wait := by omega
        rw [if_neg hdue, List.find?_cons_of_neg (by simpa using hdue)]
        refine (ih (entered + wait - now) (by omega) now hlater (by omega)).trans ?_
        rw [hrest]

theorem periodicWaits_late : periodicWaits 100 ((2 ^ 32 - 50) % 2 ^ 32) [2 ^ 32 - 40, 2 ^ 32 + 170] =
    [some 90, none] := by
  refine (periodicWaits_eq (by decide) (by decide) (2 ^ 32 - 50) _ ?_).trans (by decide)
  intro k hk
  rcases k with _ | _ | k
  · simp
  · simp
  · exact absurd hk (by simp)

theorem givesUpAt_third : givesUpAt (vTaskInternalSetTimeOutState 0 10) 30 [20, 39, 40, 41] = some 40 := by
  refine (givesUpAt_eq 30 (by decide) 10 [20, 39, 40, 41] ?_).trans (by decide)
  simp

end NbiotXY1100.TaskTimeouts
