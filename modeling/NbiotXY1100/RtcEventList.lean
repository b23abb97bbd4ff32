import NbiotXY1100.RtcAlarm
import NbiotXY1100.StepRuns
import Mathlib.Data.List.FinRange

/-! # The list of RTC events and the application alarm word

The timers of the application core live in an array with one entry a timer id, and
`rtc_msec = 0` marks an entry that is not armed. The operations of `rtc_tmr.c` keep the
alarm word at the earliest armed deadline only as far as they notice that it moved. -/
namespace NbiotXY1100.RtcEventList
open RtcCalendar RtcAlarm StepRuns

/-- `RTC_TIMER_AP_MAX` timer ids; other ids fail the assertions of the callers. -/
abbrev TimerId := Fin 12

/-- `struct rtc_event_info`. A missing callback is the null pointer. -/
structure RtcEventInfo where
  rtcMsec : UInt64
  timerId : ℕ
  callback : Option ℕ
  data : ℕ
  deriving DecidableEq, Repr

/-- The entry after `memset`. -/
def RtcEventInfo.zero : RtcEventInfo := ⟨0, 0, none, 0⟩

abbrev EventArray := TimerId → RtcEventInfo

structure RtcState where
  apRtcEventArry : EventArray
  alarm : AlarmState

/-- One round of the search: the first of the smallest deadlines wins. -/
def nextEventStep (arry : EventArray) (rtcInfo : Option TimerId) (index : TimerId) : Option TimerId :=
  if (arry index).rtcMsec = 0 then rtcInfo
  else match rtcInfo with
    | none => some index
    | some i => if (arry index).rtcMsec < (arry i).rtcMsec then some index else some i

def rtcGetNextEvent (arry : EventArray) : Option TimerId :=
  (List.finRange 12).foldl (nextEventStep arry) none

/-- The deadline of the head of the list, or no alarm. -/
def nextMsec (arry : EventArray) : UInt64 :=
  match rtcGetNextEvent arry with
  | some i => (arry i).rtcMsec
  | none => rtcAlarmInvalid

/-- `rtc_alarm_reset` for the head of the list, or for no alarm. -/
def resetToNext (cur : RtcTime) (s : RtcState) : RtcState :=
  { s with alarm := rtcAlarmReset (nextMsec s.apRtcEventArry) cur s.alarm }

def insertNewRtcEvent (timerId : TimerId) (rtcMsec : UInt64) (callback : Option ℕ) (data : ℕ)
    (cur : RtcTime) (s : RtcState) : RtcState :=
  let arry := Function.update s.apRtcEventArry timerId ⟨rtcMsec, timerId, callback, data⟩
  if rtcGetNextEvent arry = some timerId then
    { s with apRtcEventArry := arry, alarm := rtcAlarmReset rtcMsec cur s.alarm }
  else { s with apRtcEventArry := arry }

/-- The 64-bit deadline `msec_offset` after the clock, at the measured 32k rate. -/
def rtcGetGlobalByoffset (msecOffset : UInt64) (xyUtcClk : UInt32) (now : RtcTime) : UInt64 :=
  msecOffset * xyUtcClk.toUInt64 / 32000 + UInt64.ofNat (xyMktime now)

def rtcEventDelete (timerId : TimerId) (cur : RtcTime) (s : RtcState) : RtcState :=
  let arry := Function.update s.apRtcEventArry timerId RtcEventInfo.zero
  if rtcGetNextEvent s.apRtcEventArry = some timerId then resetToNext cur { s with apRtcEventArry := arry }
  else { s with apRtcEventArry := arry }

def rtcEventRefresh (cur : RtcTime) (s : RtcState) : RtcState := resetToNext cur s

/-- The calls that user code makes, each with the clock readings inside it. -/
inductive RtcCall where
  | addByOffset (timerId : TimerId) (msecOffset : UInt64) (callback : Option ℕ) (data : ℕ)
      (xyUtcClk : UInt32) (now cur : RtcTime)
  | addByGlobal (timerId : TimerId) (rtcMsec : UInt64) (callback : Option ℕ) (data : ℕ) (cur : RtcTime)
  | delete (timerId : TimerId) (cur : RtcTime)

def rtcCall : RtcCall → RtcState → RtcState
  | .addByOffset timerId msecOffset callback data xyUtcClk now cur, s =>
    insertNewRtcEvent timerId (rtcGetGlobalByoffset msecOffset xyUtcClk now) callback data cur s
  | .addByGlobal timerId rtcMsec callback data cur, s => insertNewRtcEvent timerId rtcMsec callback data cur s
  | .delete timerId cur, s => rtcEventDelete timerId cur s

def isRtcEventExpired (event : RtcEventInfo) (cur : RtcTime) : Prop :=
  event.rtcMsec.toNat / 10 ≤ xyMktime cur / 10 + 1

instance (event : RtcEventInfo) (cur : RtcTime) : Decidable (isRtcEventExpired event cur) :=
  inferInstanceAs (Decidable (_ ≤ _))

/-- The head of the list is taken off before its callback runs; `calls` are the calls that
the callback makes. -/
def takeEvent (index : TimerId) (calls : List RtcCall) (s : RtcState) : RtcState :=
  let temp := s.apRtcEventArry index
  let s := { s with apRtcEventArry := Function.update s.apRtcEventArry index RtcEventInfo.zero }
  if temp.callback = none then s else calls.foldl (fun s c => rtcCall c s) s

/-- Each round of the loop comes with its clock reading and the calls that the callback
would make; a log that ends before the loop does describes no completed call. -/
def rtcEventProc (cur : RtcTime) : List (RtcTime × List RtcCall) → RtcState → Option RtcState
  | [], s => if rtcGetNextEvent s.apRtcEventArry = none then some (resetToNext cur s) else none
  | (now, calls) :: rounds, s =>
    match rtcGetNextEvent s.apRtcEventArry with
    | none => some (resetToNext cur s)
    | some index =>
      if isRtcEventExpired (s.apRtcEventArry index) now then rtcEventProc cur rounds (takeEvent index calls s)
      else some (resetToNext cur s)

inductive RtcOp where
  | call (c : RtcCall)
  | refresh (cur : RtcTime)
  | proc (rounds : List (RtcTime × List RtcCall)) (cur : RtcTime)

/-- One operation; it is refused when its log does not describe a completed call. -/
def rtcOp : RtcOp → RtcState → Option RtcState
  | .call c, s => some (rtcCall c s)
  | .refresh cur, s => some (rtcEventRefresh cur s)
  | .proc rounds cur, s => rtcEventProc cur rounds s

def Armed (arry : EventArray) (i : TimerId) : Prop := (arry i).rtcMsec ≠ 0

instance (arry : EventArray) (i : TimerId) : Decidable (Armed arry i) := inferInstanceAs (Decidable (_ ≠ _))

/-- `w` is the smallest armed deadline, or the invalid word when nothing is armed. -/
def Earliest (arry : EventArray) (w : UInt64) : Prop :=
  (∀ i, Armed arry i → w ≤ (arry i).rtcMsec) ∧
    ((∃ i, Armed arry i ∧ (arry i).rtcMsec = w) ∨ (∀ i, ¬Armed arry i) ∧ w = rtcAlarmInvalid)

/-- The alarm word stands at the smallest armed deadline. -/
def AlarmMatches (s : RtcState) : Prop := Earliest s.apRtcEventArry s.alarm.apAlarmValue

/-- The timer alone determines the alarm word: every other armed deadline is later. -/
def SoleAlarm (arry : EventArray) (timerId : TimerId) : Prop :=
  Armed arry timerId ∧ (arry timerId).rtcMsec ≠ rtcAlarmInvalid ∧
    ∀ j, j ≠ timerId → Armed arry j → (arry timerId).rtcMsec < (arry j).rtcMsec

instance (arry : EventArray) (timerId : TimerId) : Decidable (SoleAlarm arry timerId) :=
  inferInstanceAs (Decidable (_ ∧ _ ∧ _))

/-- What the search has found among the timers `seen`. -/
private def Found (arry : EventArray) (seen : List TimerId) : Option TimerId → Prop
  | none => ∀ j ∈ seen, ¬Armed arry j
  | some i => Armed arry i ∧ ∀ j ∈ seen, Armed arry j → (arry i).rtcMsec ≤ (arry j).rtcMsec

private theorem found_nextEventStep {arry : EventArray} {seen : List TimerId} {o : Option TimerId}
    (h : Found arry seen o) (index : TimerId) :
    Found arry (seen ++ [index]) (nextEventStep arry o index) := by
  simp only [nextEventStep]
  split
  · next hzero =>
    cases o with
    | none => simpa [Found, Armed, hzero, or_imp, forall_and] using h
    | some i => simpa [Found, Armed, hzero, or_imp, forall_and] using h
  · next hne =>
    cases o with
    | none =>
      refine ⟨hne, fun j hj harmed => ?_⟩
      rcases List.mem_append.mp hj with hj | hj
      · exact absurd harmed (h j hj)
      · rw [List.mem_singleton.mp hj]
        exact UInt64.le_refl _
    | some i =>
      obtain ⟨hi, hmin⟩ := h
      simp only
      split
      · next hlt =>
        refine ⟨hne, fun j hj harmed => ?_⟩
        rcases List.mem_append.mp hj with hj | hj
        · exact UInt64.le_trans (UInt64.le_of_lt hlt) (hmin j hj harmed)
        · rw [List.mem_singleton.mp hj]
          exact UInt64.le_refl _
      · next hge =>
        refine ⟨hi, fun j hj harmed => ?_⟩
        rcases List.mem_append.mp hj with hj | hj
        · exact hmin j hj harmed
        · rw [List.mem_singleton.mp hj]
          exact UInt64.not_lt.mp hge

private theorem found_foldl {arry : EventArray} (todo : List TimerId) {seen : List TimerId}
    {o : Option TimerId} (h : Found arry seen o) :
    Found arry (seen ++ todo) (todo.foldl (nextEventStep arry) o) := by
  induction todo generalizing seen o with
  | nil => simpa using h
  | cons index todo ih => simpa using ih (found_nextEventStep h index)

private theorem found_rtcGetNextEvent (arry : EventArray) :
    Found arry (List.finRange 12) (rtcGetNextEvent arry) := by
  have h : Found arry [] none := by simp [Found]
  exact found_foldl (List.finRange 12) h

theorem rtcGetNextEvent_eq_none {arry : EventArray} (h : rtcGetNextEvent arry = none) (j : TimerId) :
    ¬Armed arry j := by
  have hfound := found_rtcGetNextEvent arry
  rw [h] at hfound
  exact hfound j (List.mem_finRange j)

/-- The search returns an armed timer with the smallest deadline. -/
theorem rtcGetNextEvent_eq_some {arry : EventArray} {i : TimerId} (h : rtcGetNextEvent arry = some i) :
    Armed arry i ∧ ∀ j, Armed arry j → (arry i).rtcMsec ≤ (arry j).rtcMsec := by
  have hfound := found_rtcGetNextEvent arry
  rw [h] at hfound
  exact ⟨hfound.1, fun j => hfound.2 j (List.mem_finRange j)⟩

theorem earliest_nextMsec (arry : EventArray) : Earliest arry (nextMsec arry) := by
  simp only [nextMsec]
  split
  · next i h =>
    obtain ⟨hi, hmin⟩ := rtcGetNextEvent_eq_some h
    exact ⟨hmin, .inl ⟨i, hi, rfl⟩⟩
  · next h =>
    have hnone := rtcGetNextEvent_eq_none h
    exact ⟨fun i hi => absurd hi (hnone i), .inr ⟨hnone, rfl⟩⟩

/-- Where the alarm is set from the head of the list, it matches whatever it was before. -/
theorem alarmMatches_resetToNext (cur : RtcTime) (s : RtcState) : AlarmMatches (resetToNext cur s) := by
  simp only [AlarmMatches, resetToNext, rtcAlarmReset_apAlarmValue]
  exact earliest_nextMsec _

/-- A timer that is not the head is not armed, or some other timer is at least as early. -/
private theorem exists_le_of_not_head {arry : EventArray} {t : TimerId} (h : rtcGetNextEvent arry ≠ some t)
    (ht : Armed arry t) : ∃ j, j ≠ t ∧ Armed arry j ∧ (arry j).rtcMsec ≤ (arry t).rtcMsec := by
  cases hnext : rtcGetNextEvent arry with
  | none => exact absurd ht (rtcGetNextEvent_eq_none hnext t)
  | some i =>
    obtain ⟨hi, hmin⟩ := rtcGetNextEvent_eq_some hnext
    refine ⟨i, ?_, hi, hmin t ht⟩
    rintro rfl
    exact h hnext

/-- Two lists that differ at a timer which is the head of neither have the same earliest
deadline, and one that was the sole alarm leaves the word behind. -/
private theorem earliest_iff_not_soleAlarm {arry arry' : EventArray} {t : TimerId} {w : UInt64}
    (hw : Earliest arry w) (hsame : ∀ j, j ≠ t → arry' j = arry j)
    (hlate : Armed arry' t → ∃ j, j ≠ t ∧ Armed arry' j ∧ (arry' j).rtcMsec ≤ (arry' t).rtcMsec) :
    Earliest arry' w ↔ ¬SoleAlarm arry t := by
  have harmed : ∀ j, j ≠ t → (Armed arry' j ↔ Armed arry j) := fun j hj => by
    simp only [Armed, hsame j hj]
  have hle := le_rtcAlarmInvalid
  obtain ⟨hlow, hattained⟩ := hw
  constructor
  · rintro ⟨-, hattained'⟩ ⟨ht, hvalid, hsole⟩
    have hwt : w = (arry t).rtcMsec := by grind
    grind
  · intro hsole
    refine ⟨fun i hi => ?_, ?_⟩
    · by_cases hit : i = t
      · subst hit
        obtain ⟨j, hj, hjarmed, hjle⟩ := hlate hi
        rw [hsame j hj] at hjle
        exact UInt64.le_trans (hlow j ((harmed j hj).mp hjarmed)) hjle
      · rw [hsame i hit]
        exact hlow i ((harmed i hit).mp hi)
    · simp only [SoleAlarm] at hsole
      by_cases hother : ∃ j, j ≠ t ∧ Armed arry' j
      · left
        obtain ⟨j, hj, hjarmed⟩ := hother
        have hjlow := hlow j ((harmed j hj).mp hjarmed)
        have hjmax := hle (arry j).rtcMsec
        grind
      · right
        grind

@[simp] theorem insertNewRtcEvent_apRtcEventArry (timerId : TimerId) (rtcMsec : UInt64) (callback : Option ℕ)
    (data : ℕ) (cur : RtcTime) (s : RtcState) :
    (insertNewRtcEvent timerId rtcMsec callback data cur s).apRtcEventArry =
      Function.update s.apRtcEventArry timerId ⟨rtcMsec, timerId, callback, data⟩ := by
  simp only [insertNewRtcEvent]
  split <;> rfl

/-- Adding keeps the alarm word right exactly when it does not move a sole alarm away from
the head of the list. -/
theorem alarmMatches_insertNewRtcEvent {s : RtcState} (hs : AlarmMatches s) (timerId : TimerId)
    (rtcMsec : UInt64) (callback : Option ℕ) (data : ℕ) (cur : RtcTime) :
    AlarmMatches (insertNewRtcEvent timerId rtcMsec callback data cur s) ↔
      ¬(SoleAlarm s.apRtcEventArry timerId ∧
        rtcGetNextEvent (Function.update s.apRtcEventArry timerId ⟨rtcMsec, timerId, callback, data⟩) ≠
          some timerId) := by
  simp only [insertNewRtcEvent]
  split
  · next hhead =>
    have hnext := earliest_nextMsec
      (Function.update s.apRtcEventArry timerId ⟨rtcMsec, timerId, callback, data⟩)
    simp only [nextMsec, hhead, Function.update_self] at hnext
    simpa [AlarmMatches, hhead] using hnext
  · next hhead =>
    simp only [AlarmMatches, ne_eq, hhead, not_false_eq_true, and_true]
    exact earliest_iff_not_soleAlarm hs (fun j hj => Function.update_of_ne hj _ _) (exists_le_of_not_head hhead)

theorem alarmMatches_rtcEventDelete {s : RtcState} (hs : AlarmMatches s) (timerId : TimerId) (cur : RtcTime) :
    AlarmMatches (rtcEventDelete timerId cur s) := by
  simp only [rtcEventDelete]
  split
  · exact alarmMatches_resetToNext _ _
  · next hhead =>
    have hgone : ¬Armed (Function.update s.apRtcEventArry timerId RtcEventInfo.zero) timerId := by
      simp [Armed, RtcEventInfo.zero]
    refine (earliest_iff_not_soleAlarm hs (fun j hj => Function.update_of_ne hj _ _)
      fun h => absurd h hgone).mpr ?_
    rintro ⟨harmed, -, hsole⟩
    obtain ⟨j, hj, hjarmed, hjle⟩ := exists_le_of_not_head hhead harmed
    exact UInt64.lt_irrefl _ (UInt64.lt_of_lt_of_le (hsole j hj hjarmed) hjle)

/-- Whatever the callbacks did, the loop ends by setting the alarm from the head. -/
theorem alarmMatches_rtcEventProc {cur : RtcTime} {rounds : List (RtcTime × List RtcCall)} {s s' : RtcState}
    (h : rtcEventProc cur rounds s = some s') : AlarmMatches s' := by
  induction rounds generalizing s with
  | nil =>
    simp only [rtcEventProc] at h
    split at h <;> cases h
    exact alarmMatches_resetToNext _ _
  | cons round rounds ih =>
    simp only [rtcEventProc] at h
    split at h
    · cases h
      exact alarmMatches_resetToNext _ _
    · split at h
      · exact ih h
      · cases h
        exact alarmMatches_resetToNext _ _

/-- The call does not move a sole alarm behind another timer. -/
def KeepsHead : RtcCall → RtcState → Prop
  | .addByOffset timerId msecOffset callback data xyUtcClk now _, s =>
    ¬(SoleAlarm s.apRtcEventArry timerId ∧
      rtcGetNextEvent (Function.update s.apRtcEventArry timerId
        ⟨rtcGetGlobalByoffset msecOffset xyUtcClk now, timerId, callback, data⟩) ≠ some timerId)
  | .addByGlobal timerId rtcMsec callback data _, s =>
    ¬(SoleAlarm s.apRtcEventArry timerId ∧
      rtcGetNextEvent (Function.update s.apRtcEventArry timerId ⟨rtcMsec, timerId, callback, data⟩) ≠
        some timerId)
  | .delete _ _, _ => True

/-- The condition on an operation: the calls made inside `rtc_event_proc` are free. -/
def OpKeepsHead : RtcOp → RtcState → Prop
  | .call c, s => KeepsHead c s
  | .refresh _, _ => True
  | .proc _ _, _ => True

theorem alarmMatches_rtcCall {s : RtcState} (hs : AlarmMatches s) (c : RtcCall) :
    AlarmMatches (rtcCall c s) ↔ KeepsHead c s := by
  cases c with
  | addByOffset timerId msecOffset callback data xyUtcClk now cur =>
    exact alarmMatches_insertNewRtcEvent hs _ _ _ _ _
  | addByGlobal timerId rtcMsec callback data cur => exact alarmMatches_insertNewRtcEvent hs _ _ _ _ _
  | delete timerId cur => exact iff_of_true (alarmMatches_rtcEventDelete hs timerId cur) trivial

/-- One completed operation keeps the alarm word right exactly under the condition. -/
theorem alarmMatches_rtcOp {s s' : RtcState} (hs : AlarmMatches s) {op : RtcOp} (h : rtcOp op s = some s') :
    AlarmMatches s' ↔ OpKeepsHead op s := by
  cases op with
  | call c =>
    cases h
    exact alarmMatches_rtcCall hs c
  | refresh cur =>
    cases h
    exact iff_of_true (alarmMatches_resetToNext cur s) trivial
  | proc rounds cur => exact iff_of_true (alarmMatches_rtcEventProc h) trivial

theorem opKeepsHead_of_refused {op : RtcOp} {s : RtcState} (h : rtcOp op s = none) : OpKeepsHead op s := by
  cases op with
  | call c => cases h
  | refresh cur => trivial
  | proc rounds cur => trivial

/-- The alarm word stands at the smallest armed deadline after every operation of a run
exactly when no call of the run moves a sole alarm behind another timer. -/
theorem always_alarmMatches_iff {s : RtcState} (hs : AlarmMatches s) (ops : List RtcOp) :
    Always rtcOp AlarmMatches ops s ↔ Along rtcOp OpKeepsHead ops s :=
  always_iff_along (fun _ _ _ hinv h => alarmMatches_rtcOp hinv h) (fun _ _ => opKeepsHead_of_refused) hs

/-- No timer is armed and no alarm is wanted. -/
def rtcIdle : RtcState :=
  ⟨fun _ => RtcEventInfo.zero, ⟨0, 0, false, true, rtcAlarmInvalid, rtcAlarmInvalid, false⟩⟩

theorem alarmMatches_rtcIdle : AlarmMatches rtcIdle :=
  ⟨fun _ h => absurd rfl h, .inr ⟨fun _ h => h rfl, rfl⟩⟩

/-- From the idle state, arming two timers and refreshing. -/
theorem always_alarmMatches_twoTimers : Always rtcOp AlarmMatches
    [.call (.addByGlobal 0 100 none 0 midnight2000), .call (.addByGlobal 1 200 none 0 midnight2000),
      .refresh midnight2000] rtcIdle := by
  refine (always_alarmMatches_iff alarmMatches_rtcIdle _).mpr
    ⟨?_, fun s₁ h₁ => ⟨?_, fun s₂ _ => ⟨trivial, fun _ _ => trivial⟩⟩⟩
  · rintro ⟨⟨harmed, -⟩, -⟩
    exact harmed rfl
  · cases h₁
    rintro ⟨⟨harmed, -⟩, -⟩
    exact harmed (by simp [rtcCall, rtcIdle, RtcEventInfo.zero])

/-- A timer that is armed again, behind the other one, leaves its old alarm. -/
theorem not_always_alarmMatches_rearmed : ¬∀ ops, Always rtcOp AlarmMatches ops rtcIdle := by
  intro h
  have halong := (always_iff_along (fun _ _ _ hinv hop => alarmMatches_rtcOp hinv hop)
    (fun _ _ => opKeepsHead_of_refused) alarmMatches_rtcIdle).mp
    (h [.call (.addByGlobal 0 100 none 0 midnight2000), .call (.addByGlobal 1 200 none 0 midnight2000),
      .call (.addByGlobal 0 300 none 0 midnight2000)])
  have hthird := (halong.2 _ rfl).2 _ rfl |>.1
  refine hthird ?_
  simp only [rtcCall, insertNewRtcEvent_apRtcEventArry]
  decide

end NbiotXY1100.RtcEventList
