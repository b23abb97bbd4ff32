import NbiotXY1100.RtcCalendar

/-! # Arbitration of the shared hardware alarm

The application and the protocol core each keep an alarm word in memory, and one
hardware alarm serves both. `rtcAlarmReset` of `rtc_tmr.c` stores a new application
word and rewrites the hardware alarm on some of its branches only. -/
namespace NbiotXY1100.RtcAlarm
open RtcCalendar GregorianCalendar

/-- `RTC_ALARM_INVALID`: no alarm is wanted. -/
def rtcAlarmInvalid : UInt64 := 0xFFFFFFFFFFFFFFFF

/-- The word of `UTC_ALARM_CAL`, in decimal digits. -/
def utcCalAlarmSet (ulMonth ulDate : ℕ) : ℕ :=
  (ulMonth / 10 % 256) <<< 7 ||| (ulMonth % 10) <<< 3 ||| (ulDate / 10 % 256) <<< 12 ||| (ulDate % 10) <<< 8

/-- The word of `UTC_ALARM_TIMER`, in decimal digits down to ten milliseconds. -/
def utcTimerAlarmSet (ulAMPM ulHour ulMin ulSec ulMS : ℕ) : ℕ :=
  ulAMPM <<< 30 ||| (ulHour / 10 % 256) <<< 28 ||| (ulHour % 10) <<< 24 |||
    (ulMin / 10 % 256) <<< 20 ||| (ulMin % 10) <<< 16 |||
    (ulSec / 10 % 256) <<< 12 ||| (ulSec % 10) <<< 8 |||
    (ulMS / 10 / 10 % 256) <<< 4 ||| (ulMS / 10 % 10)

/-- The alarm registers, the two alarm words and the binary semaphore of the RTC task.
`utcAlarmEn` stands for the bits `UTC_ALARM_ALL`, `utcIntEn` for `UTC_INT_ALARM`. -/
structure AlarmState where
  utcAlarmCal : ℕ
  utcAlarmTimer : ℕ
  utcAlarmEn : Bool
  utcIntEn : Bool
  apAlarmValue : UInt64
  cpAlarmValue : UInt64
  gRtcSem : Bool
  deriving DecidableEq, Repr

def rtcAlarmSet (rtctime : RtcTime) (s : AlarmState) : AlarmState :=
  { s with
    utcAlarmCal := utcCalAlarmSet rtctime.tmMon rtctime.tmMday
    utcAlarmTimer := utcTimerAlarmSet 0 rtctime.tmHour rtctime.tmMin rtctime.tmSec rtctime.tmMsec
    utcAlarmEn := true
    utcIntEn := true }

def rtcAlarmDisable (s : AlarmState) : AlarmState := { s with utcAlarmEn := false }

/-- The 64-bit packing of the fields; a year from 2^18 on is shifted out. -/
def rtcTimePack (t : RtcTime) : ℕ :=
  (t.tmMsec + t.tmSec * 2 ^ 16 + t.tmMin * 2 ^ 22 + t.tmHour * 2 ^ 28 + t.tmMday * 2 ^ 34 +
    t.tmMon * 2 ^ 40 + t.tmYear * 2 ^ 46) % 2 ^ 64

def rtcTimeCompareOffset (rtcTime1 rtcTime2 : RtcTime) (offset1Ms offset2Ms : ℕ) : ℕ :=
  if (rtcTimePack rtcTime1 + offset1Ms) % 2 ^ 64 < (rtcTimePack rtcTime2 + offset2Ms) % 2 ^ 64 then 0 else 1

/-- `curRtctime` is what `rtc_timer_read` returns during the call. -/
def rtcAlarmReset (ullms : UInt64) (curRtctime : RtcTime) (s : AlarmState) : AlarmState :=
  let s := { s with apAlarmValue := ullms }
  if ullms = rtcAlarmInvalid then
    if s.cpAlarmValue ≠ rtcAlarmInvalid then rtcAlarmSet (xyGmtimeR s.cpAlarmValue.toNat) s
    else rtcAlarmDisable s
  else if rtcTimeCompareOffset (xyGmtimeR ullms.toNat) curRtctime 0 11 = 0 then { s with gRtcSem := true }
  else if ullms < s.cpAlarmValue then rtcAlarmSet (xyGmtimeR ullms.toNat) s
  else s

/-- The comparison that makes the call release the semaphore instead of setting an alarm. -/
def Expired (ullms : UInt64) (curRtctime : RtcTime) : Prop :=
  rtcTimeCompareOffset (xyGmtimeR ullms.toNat) curRtctime 0 11 = 0

instance (ullms : UInt64) (curRtctime : RtcTime) : Decidable (Expired ullms curRtctime) :=
  inferInstanceAs (Decidable (_ = _))

/-- The deadline lies less than eleven milliseconds after the clock. -/
def Due (ullms : UInt64) (curRtctime : RtcTime) : Prop := ullms.toNat < xyMktime curRtctime + 11

instance (ullms : UInt64) (curRtctime : RtcTime) : Decidable (Due ullms curRtctime) :=
  inferInstanceAs (Decidable (_ < _))

def earlier (a b : UInt64) : UInt64 := if a < b then a else b

/-- The date and time words that `rtc_alarm_set` writes for the word `w`, or no alarm. -/
def alarmRegs (w : UInt64) : Option (ℕ × ℕ) :=
  if w = rtcAlarmInvalid then none
  else
    let t := xyGmtimeR w.toNat
    some (utcCalAlarmSet t.tmMon t.tmMday, utcTimerAlarmSet 0 t.tmHour t.tmMin t.tmSec t.tmMsec)

/-- The alarm that the hardware will raise, if it is enabled. -/
def hwAlarm (s : AlarmState) : Option (ℕ × ℕ) :=
  if s.utcAlarmEn then some (s.utcAlarmCal, s.utcAlarmTimer) else none

/-- The hardware alarm serves the earlier of the two alarm words. -/
def Arbitrated (s : AlarmState) : Prop :=
  hwAlarm s = alarmRegs (earlier s.apAlarmValue s.cpAlarmValue)

instance (s : AlarmState) : Decidable (Arbitrated s) := inferInstanceAs (Decidable (_ = _))

theorem le_rtcAlarmInvalid (w : UInt64) : w ≤ rtcAlarmInvalid := by
  have := w.toNat_lt
  rw [UInt64.le_iff_toNat_le]
  change w.toNat ≤ 18446744073709551615
  omega

theorem earlier_rtcAlarmInvalid (w : UInt64) : earlier rtcAlarmInvalid w = w := by
  have := le_rtcAlarmInvalid w
  simp only [earlier]
  split
  · next h => exact absurd (UInt64.lt_of_lt_of_le h this) (UInt64.lt_irrefl _)
  · rfl

theorem hwAlarm_rtcAlarmSet {w : UInt64} (s : AlarmState) (h : w ≠ rtcAlarmInvalid) :
    hwAlarm (rtcAlarmSet (xyGmtimeR w.toNat) s) = alarmRegs w := by
  simp [hwAlarm, alarmRegs, rtcAlarmSet, h]

@[simp] theorem rtcAlarmReset_apAlarmValue (ullms : UInt64) (cur : RtcTime) (s : AlarmState) :
    (rtcAlarmReset ullms cur s).apAlarmValue = ullms := by
  simp only [rtcAlarmReset, rtcAlarmSet, rtcAlarmDisable]
  repeat' split
  all_goals rfl

@[simp] theorem rtcAlarmReset_cpAlarmValue (ullms : UInt64) (cur : RtcTime) (s : AlarmState) :
    (rtcAlarmReset ullms cur s).cpAlarmValue = s.cpAlarmValue := by
  simp only [rtcAlarmReset, rtcAlarmSet, rtcAlarmDisable]
  repeat' split
  all_goals rfl

/-- Without an application deadline the hardware is handed to the other core. -/
theorem arbitrated_invalid (cur : RtcTime) (s : AlarmState) :
    Arbitrated (rtcAlarmReset rtcAlarmInvalid cur s) := by
  simp only [Arbitrated, rtcAlarmReset_apAlarmValue, rtcAlarmReset_cpAlarmValue, earlier_rtcAlarmInvalid]
  by_cases h : s.cpAlarmValue = rtcAlarmInvalid
  · simp [rtcAlarmReset, h, rtcAlarmDisable, hwAlarm, alarmRegs]
  · simpa [rtcAlarmReset, h] using hwAlarm_rtcAlarmSet _ h

/-- An earlier deadline than the other core's is armed. -/
theorem arbitrated_earlier {ullms : UInt64} {cur : RtcTime} {s : AlarmState}
    (hvalid : ullms ≠ rtcAlarmInvalid) (hexp : ¬Expired ullms cur) (hlt : ullms < s.cpAlarmValue) :
    Arbitrated (rtcAlarmReset ullms cur s) := by
  simp only [Arbitrated, rtcAlarmReset_apAlarmValue, rtcAlarmReset_cpAlarmValue, earlier, if_pos hlt]
  simp only [Expired] at hexp
  simpa [rtcAlarmReset, hvalid, hexp, hlt] using hwAlarm_rtcAlarmSet _ hvalid

/-- On every other branch the registers keep what they held. -/
theorem hwAlarm_kept {ullms : UInt64} {cur : RtcTime} {s : AlarmState}
    (hvalid : ullms ≠ rtcAlarmInvalid) (h : Expired ullms cur ∨ ¬ullms < s.cpAlarmValue) :
    hwAlarm (rtcAlarmReset ullms cur s) = hwAlarm s := by
  simp only [Expired] at h
  by_cases hexp : rtcTimeCompareOffset (xyGmtimeR ullms.toNat) cur 0 11 = 0
  · simp [rtcAlarmReset, hvalid, hexp, hwAlarm]
  · have hlt : ¬ullms < s.cpAlarmValue := h.resolve_left hexp
    simp [rtcAlarmReset, hvalid, hexp, hlt, hwAlarm]

theorem rtcAlarmReset_gRtcSem (ullms : UInt64) (cur : RtcTime) (s : AlarmState) :
    (rtcAlarmReset ullms cur s).gRtcSem = true ↔
      s.gRtcSem = true ∨ ullms ≠ rtcAlarmInvalid ∧ Expired ullms cur := by
  simp only [rtcAlarmReset, rtcAlarmSet, rtcAlarmDisable, Expired]
  by_cases hvalid : ullms = rtcAlarmInvalid
  · simp only [hvalid, if_true, ne_eq, not_true_eq_false, false_and, or_false]
    split <;> rfl
  · by_cases hexp : rtcTimeCompareOffset (xyGmtimeR ullms.toNat) cur 0 11 = 0
    · simp [hvalid, hexp]
    · simp only [hvalid, hexp, if_false, and_false, or_false]
      split <;> rfl

/-- A call serves both cores: it releases the semaphore for a deadline that is due, or
leaves the hardware alarm at the earlier of the two words. -/
def Served (ullms : UInt64) (cur : RtcTime) (s : AlarmState) : Prop :=
  (rtcAlarmReset ullms cur { s with gRtcSem := false }).gRtcSem = true ∧ Due ullms cur ∨
    Arbitrated (rtcAlarmReset ullms cur s)

/-- From an arbitrated state a call serves both cores exactly when it arms an alarm
itself, is due, or finds the registers at the alarm that is wanted now. -/
theorem served_iff {s : AlarmState} (hs : Arbitrated s) (ullms : UInt64) (cur : RtcTime) :
    Served ullms cur s ↔
      ullms = rtcAlarmInvalid ∨ Expired ullms cur ∧ Due ullms cur ∨
        ¬Expired ullms cur ∧ ullms < s.cpAlarmValue ∨
        alarmRegs (earlier s.apAlarmValue s.cpAlarmValue) = alarmRegs (earlier ullms s.cpAlarmValue) := by
  simp only [Served, rtcAlarmReset_gRtcSem, Bool.false_eq_true, false_or]
  by_cases hvalid : ullms = rtcAlarmInvalid
  · subst hvalid
    simp [arbitrated_invalid]
  · by_cases harm : ¬Expired ullms cur ∧ ullms < s.cpAlarmValue
    · simp [arbitrated_earlier hvalid harm.1 harm.2, harm]
    · have hkept := hwAlarm_kept hvalid (not_and_or.mp harm |>.imp_left not_not.mp)
      have harb : Arbitrated (rtcAlarmReset ullms cur s) ↔
          alarmRegs (earlier s.apAlarmValue s.cpAlarmValue) = alarmRegs (earlier ullms s.cpAlarmValue) := by
        rw [Arbitrated, hkept, hs, rtcAlarmReset_apAlarmValue, rtcAlarmReset_cpAlarmValue]
      simp only [harb, hvalid, harm, ne_eq, not_false_eq_true, true_and, false_or]

private theorem clockUtcToCalendar_2000 : clockUtcToCalendar 10957 = ⟨2000, 1, 1⟩ := by
  simp [clockUtcToCalendar, bumpYears, searchMonth, clockYearDays, Leap, clockDaysBeforeMonth, gDaysbeforemonth]

/-- An application deadline ten seconds into 2000, one of the other core at twenty. -/
private def twoDeadlines : AlarmState :=
  rtcAlarmSet (xyGmtimeR 946684810000) ⟨0, 0, false, true, 946684810000, 946684820000, false⟩

private theorem arbitrated_twoDeadlines : Arbitrated twoDeadlines :=
  hwAlarm_rtcAlarmSet (w := 946684810000) _ (by decide)

def midnight2000 : RtcTime := ⟨0, 0, 0, 0, 1, 1, 2000, 6, 1, 0⟩

/-- The law holds at two deadlines of which the new one is armed. -/
theorem served_iff_twoDeadlines : Arbitrated twoDeadlines ∧ (Served 946684815000 midnight2000 twoDeadlines ↔
    (946684815000 : UInt64) = rtcAlarmInvalid ∨
      Expired 946684815000 midnight2000 ∧ Due 946684815000 midnight2000 ∨
      ¬Expired 946684815000 midnight2000 ∧ 946684815000 < twoDeadlines.cpAlarmValue ∨
      alarmRegs (earlier twoDeadlines.apAlarmValue twoDeadlines.cpAlarmValue) =
        alarmRegs (earlier 946684815000 twoDeadlines.cpAlarmValue)) :=
  ⟨arbitrated_twoDeadlines, served_iff arbitrated_twoDeadlines 946684815000 midnight2000⟩

/-- Moving the application deadline behind the other core's leaves the old one armed. -/
theorem not_served_twoDeadlines :
    ¬∀ (s : AlarmState) (ullms : UInt64) (cur : RtcTime), Arbitrated s → Served ullms cur s := by
  intro h
  have hexp : ¬Expired 946684830000 midnight2000 := by
    simp [Expired, xyGmtimeR, clockUtcToCalendar_2000, rtcTimeCompareOffset, rtcTimePack, midnight2000]
  rcases h twoDeadlines 946684830000 midnight2000 arbitrated_twoDeadlines with ⟨hsem, -⟩ | harb
  · rw [rtcAlarmReset_gRtcSem] at hsem
    exact hexp (hsem.resolve_left Bool.false_ne_true).2
  · have hkept : hwAlarm (rtcAlarmReset 946684830000 midnight2000 twoDeadlines) = hwAlarm twoDeadlines :=
      hwAlarm_kept (by decide) (.inr (by decide))
    rw [Arbitrated, hkept, arbitrated_twoDeadlines, rtcAlarmReset_apAlarmValue,
      rtcAlarmReset_cpAlarmValue] at harb
    change alarmRegs 946684810000 = alarmRegs 946684820000 at harb
    simp [alarmRegs, rtcAlarmInvalid, xyGmtimeR, utcTimerAlarmSet] at harb

/-- The packing of valid fields is not cut off before the year 2^18. -/
theorem rtcTimePack_eq {t : RtcTime} (h : t.Valid) (hy : t.tmYear < 2 ^ 18) :
    rtcTimePack t = t.tmMsec + t.tmSec * 2 ^ 16 + t.tmMin * 2 ^ 22 + t.tmHour * 2 ^ 28 +
      t.tmMday * 2 ^ 34 + t.tmMon * 2 ^ 40 + t.tmYear * 2 ^ 46 ∧ rtcTimePack t + 11 < 2 ^ 64 := by
  obtain ⟨⟨-, hmon, -, hday⟩, hh, hm, hs, hms⟩ := h
  have hmday := hday.trans (monthLength_le _ _)
  change t.tmMon ≤ 12 at hmon
  change t.tmMday ≤ 31 at hmday
  simp only [rtcTimePack]
  omega

/-- A packed time of day that is behind by less than eleven is behind in milliseconds. -/
private theorem msecOfDay_lt_of_pack {a b : RtcTime} (ha : a.Valid) (hb : b.Valid)
    (h : a.tmMsec + a.tmSec * 2 ^ 16 + a.tmMin * 2 ^ 22 + a.tmHour * 2 ^ 28 <
      b.tmMsec + b.tmSec * 2 ^ 16 + b.tmMin * 2 ^ 22 + b.tmHour * 2 ^ 28 + 11) :
    a.msecOfDay < b.msecOfDay + 11 := by
  obtain ⟨-, hah, ham, has, hams⟩ := ha
  obtain ⟨-, hbh, hbm, hbs, hbms⟩ := hb
  simp only [RtcTime.msecOfDay]
  rcases Nat.lt_trichotomy a.tmHour b.tmHour with hhour | hhour | hhour
  · omega
  · rcases Nat.lt_trichotomy a.tmMin b.tmMin with hmin | hmin | hmin
    · omega
    · rcases Nat.lt_trichotomy a.tmSec b.tmSec with hsec | hsec | hsec <;> omega
    · omega
  · omega

/-- The comparison finds a deadline expired only if it lies less than eleven
milliseconds after the clock, for years that the packing can hold. -/
theorem epochMsec_lt_of_compare {a b : RtcTime} (ha : a.Valid) (hb : b.Valid)
    (hy : 1970 ≤ a.tmYear) (ha' : a.tmYear < 2 ^ 18) (hb' : b.tmYear < 2 ^ 18)
    (h : rtcTimeCompareOffset a b 0 11 = 0) : a.epochMsec < b.epochMsec + 11 := by
  obtain ⟨hpa, hla⟩ := rtcTimePack_eq ha ha'
  obtain ⟨hpb, hlb⟩ := rtcTimePack_eq hb hb'
  have hlt : rtcTimePack a < rtcTimePack b + 11 := by
    simp only [rtcTimeCompareOffset] at h
    split at h
    · omega
    · simp at h
  obtain ⟨⟨-, hamon, -, haday⟩, hah, ham, has, hams⟩ := id ha
  obtain ⟨⟨-, hbmon, -, hbday⟩, hbh, hbm, hbs, hbms⟩ := id hb
  have hbmday : b.tmMday ≤ 31 := hbday.trans (monthLength_le _ _)
  change b.tmMon ≤ 12 at hbmon
  rcases Date.before_trichotomy a.date b.date with hdate | hdate | hdate
  · have := RtcTime.epochMsec_lt_of_before ha hb hy (.inl hdate)
    omega
  · have hfields : a.tmYear = b.tmYear ∧ a.tmMon = b.tmMon ∧ a.tmMday = b.tmMday := by
      simpa [RtcTime.date] using hdate
    have := msecOfDay_lt_of_pack ha hb (by omega)
    simp only [RtcTime.epochMsec, hdate]
    omega
  · simp only [Date.Before, RtcTime.date] at hdate
    rcases hdate with hyear | ⟨hyear, hmon | ⟨hmon, hday⟩⟩ <;> omega

/-- A deadline before 2102 releases the semaphore only when it is due. -/
theorem due_of_expired {ullms : UInt64} {cur : RtcTime} (hms : ullms.toNat < 48213 * 86400000)
    (hcur : cur.Valid) (hy : 1970 ≤ cur.tmYear) (hy' : cur.tmYear < 2 ^ 18)
    (h : Expired ullms cur) : Due ullms cur := by
  have hback := epochMsec_xyGmtimeR ullms.toNat
  have hlost := (lostDays_eq_zero_iff (ullms.toNat / 86400000)).mpr (by omega)
  have hyear := xyGmtimeR_year_le ullms.toNat
  have hlt := epochMsec_lt_of_compare (xyGmtimeR_valid _) hcur (xyGmtimeR_year_ge _) (by omega) hy' h
  have hclock : xyMktime cur = cur.epochMsec := by
    rw [xyMktime_eq hcur hy (by omega)]
    exact Nat.mod_eq_of_lt (RtcTime.epochMsec_lt hcur hy')
  simp only [Due, hclock]
  omega

end NbiotXY1100.RtcAlarm
