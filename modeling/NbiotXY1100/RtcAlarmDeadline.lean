import NbiotXY1100.RtcEventList

/-! # The packed comparison of a deadline with the clock

`rtc_time_compare_offset` adds the eleven milliseconds of `rtc_alarm_reset` to the lowest
field of a packed time, a field that is sixteen bits wide and never carries into the
seconds. Compared as packed fields, a time is ahead as soon as its second is. -/
namespace NbiotXY1100.RtcAlarmDeadline
open RtcCalendar GregorianCalendar RtcAlarm RtcEventList

/-- A calendar time that the clock can hold: century and year are one byte each. -/
def ClockTime (t : RtcTime) : Prop := t.Valid ∧ 1970 ≤ t.tmYear ∧ t.tmYear ≤ 255 * 100 + 255

/-- Field by field down to the seconds, then the milliseconds with the offset; the year
is what eighteen bits keep of it. -/
def PackedBefore (a c : RtcTime) (offsetMs : ℕ) : Prop :=
  a.tmYear % 2 ^ 18 < c.tmYear % 2 ^ 18 ∨ a.tmYear % 2 ^ 18 = c.tmYear % 2 ^ 18 ∧
    (a.tmMon < c.tmMon ∨ a.tmMon = c.tmMon ∧
      (a.tmMday < c.tmMday ∨ a.tmMday = c.tmMday ∧
        (a.tmHour < c.tmHour ∨ a.tmHour = c.tmHour ∧
          (a.tmMin < c.tmMin ∨ a.tmMin = c.tmMin ∧
            (a.tmSec < c.tmSec ∨ a.tmSec = c.tmSec ∧ a.tmMsec < c.tmMsec + offsetMs)))))

private theorem mday_le {t : RtcTime} (h : t.Valid) : t.tmMon ≤ 12 ∧ t.tmMday ≤ 31 :=
  ⟨h.1.2.1, h.1.2.2.2.trans (monthLength_le _ _)⟩

/-- The packing keeps the fields apart, and nothing is shifted out but the year. -/
private theorem rtcTimePack_fields {t : RtcTime} (h : t.Valid) :
    rtcTimePack t = t.tmMsec + t.tmSec * 2 ^ 16 + t.tmMin * 2 ^ 22 + t.tmHour * 2 ^ 28 +
      t.tmMday * 2 ^ 34 + t.tmMon * 2 ^ 40 + t.tmYear % 2 ^ 18 * 2 ^ 46 := by
  obtain ⟨hmon, hmday⟩ := mday_le h
  obtain ⟨-, hh, hm, hs, hms⟩ := h
  simp only [rtcTimePack]
  omega

theorem rtcTimeCompareOffset_eq_zero {a c : RtcTime} (ha : a.Valid) (hc : c.Valid) {offsetMs : ℕ}
    (hoff : offsetMs ≤ 1000) :
    rtcTimeCompareOffset a c 0 offsetMs = 0 ↔ PackedBefore a c offsetMs := by
  obtain ⟨hamon, hamday⟩ := mday_le ha
  obtain ⟨hcmon, hcmday⟩ := mday_le hc
  have hpa := rtcTimePack_fields ha
  have hpc := rtcTimePack_fields hc
  obtain ⟨-, hah, ham, has, hams⟩ := ha
  obtain ⟨-, hch, hcm, hcs, hcms⟩ := hc
  have hlt : rtcTimeCompareOffset a c 0 offsetMs = 0 ↔ rtcTimePack a < rtcTimePack c + offsetMs := by
    simp only [rtcTimeCompareOffset]
    split <;> omega
  rw [hlt, hpa, hpc, PackedBefore]
  omega

/-- Fields before the year 2^18 are ahead in milliseconds, and not in a later second. -/
theorem packedBefore_iff {a c : RtcTime} (ha : a.Valid) (hc : c.Valid) (hya : 1970 ≤ a.tmYear)
    (hyc : 1970 ≤ c.tmYear) (ha' : a.tmYear < 2 ^ 18) (hc' : c.tmYear < 2 ^ 18) (offsetMs : ℕ) :
    PackedBefore a c offsetMs ↔
      a.epochMsec < c.epochMsec + offsetMs ∧ a.epochMsec / 1000 ≤ c.epochMsec / 1000 := by
  have hdaya := ha.le_dayNumber hya
  have hdayc := hc.le_dayNumber hyc
  have hwrapa : a.tmYear % 2 ^ 18 = a.tmYear := Nat.mod_eq_of_lt ha'
  have hwrapc : c.tmYear % 2 ^ 18 = c.tmYear := Nat.mod_eq_of_lt hc'
  have hbefore := fun h => Date.dayNumber_lt_of_before ha.1 hc.1 h
  have hafter := fun h => Date.dayNumber_lt_of_before hc.1 ha.1 h
  obtain ⟨-, hah, ham, has, hams⟩ := ha
  obtain ⟨-, hch, hcm, hcs, hcms⟩ := hc
  rw [PackedBefore, hwrapa, hwrapc]
  simp only [RtcTime.epochMsec, RtcTime.msecOfDay]
  -- the day decides, unless it is the same
  rcases Date.before_trichotomy a.date c.date with hdate | hdate | hdate
  · have hlt := hbefore hdate
    simp only [Date.Before, RtcTime.date] at hdate
    constructor
    · intro
      omega
    · intro
      omega
  · have hfields : a.tmYear = c.tmYear ∧ a.tmMon = c.tmMon ∧ a.tmMday = c.tmMday := by
      simpa [RtcTime.date] using hdate
    rw [hdate]
    omega
  · have hlt := hafter hdate
    simp only [Date.Before, RtcTime.date] at hdate
    constructor
    · intro
      omega
    · intro
      omega

theorem ClockTime.xyMktime_eq {t : RtcTime} (h : ClockTime t) : xyMktime t = t.epochMsec := by
  obtain ⟨hvalid, hy, hy'⟩ := h
  rw [RtcCalendar.xyMktime_eq hvalid hy (by omega)]
  exact Nat.mod_eq_of_lt (RtcTime.epochMsec_lt hvalid (by omega))

/-- The comparison finds what the count of milliseconds finds. -/
def ComparesInTime (a c : RtcTime) : Prop := rtcTimeCompareOffset a c 0 11 = 0 ↔ xyMktime a < xyMktime c + 11

/-- The first time lies at most ten milliseconds after the other one, in a later second. -/
def NextSecond (a c : RtcTime) : Prop :=
  xyMktime a < xyMktime c + 11 ∧ xyMktime c / 1000 < xyMktime a / 1000

theorem comparesInTime_of_not_nextSecond {a c : RtcTime} (ha : ClockTime a) (hc : ClockTime c) :
    ComparesInTime a c ↔ ¬NextSecond a c := by
  have hpacked := packedBefore_iff ha.1 hc.1 ha.2.1 hc.2.1 (ha.2.2.trans_lt (by decide))
    (hc.2.2.trans_lt (by decide)) 11
  rw [ComparesInTime, NextSecond, rtcTimeCompareOffset_eq_zero ha.1 hc.1 (by decide), hpacked,
    ha.xyMktime_eq, hc.xyMktime_eq]
  omega

/-- A call for a deadline that is due releases the taken semaphore and programs nothing; where
a call releases it, the event is expired then and at every later reading of the clock. -/
def ReleasesInTime (ullms : UInt64) (cur : RtcTime) (s : AlarmState) : Prop :=
  (Due ullms cur →
    rtcAlarmReset ullms cur { s with gRtcSem := false } = { s with apAlarmValue := ullms, gRtcSem := true }) ∧
  ((rtcAlarmReset ullms cur { s with gRtcSem := false }).gRtcSem = true →
    ∀ now, ClockTime now → xyMktime cur ≤ xyMktime now →
      ∀ event : RtcEventInfo, event.rtcMsec = ullms → isRtcEventExpired event now)

/-- The fields of a deadline are behind the clock although the deadline is not expired:
the conversion lost leap days, or the packing cut its year off. -/
def Misread (ullms : UInt64) (cur : RtcTime) : Prop :=
  ullms ≠ rtcAlarmInvalid ∧ PackedBefore (xyGmtimeR ullms.toNat) cur 11 ∧
    xyMktime cur / 10 + 1 < ullms.toNat / 10

theorem expired_iff_packedBefore {ullms : UInt64} {cur : RtcTime} (hcur : ClockTime cur) :
    Expired ullms cur ↔ PackedBefore (xyGmtimeR ullms.toNat) cur 11 :=
  rtcTimeCompareOffset_eq_zero (xyGmtimeR_valid _) hcur.1 (by decide)

theorem rtcAlarmReset_of_expired {ullms : UInt64} {cur : RtcTime} {s : AlarmState}
    (hvalid : ullms ≠ rtcAlarmInvalid) (h : Expired ullms cur) :
    rtcAlarmReset ullms cur s = { s with apAlarmValue := ullms, gRtcSem := true } := by
  simp only [Expired] at h
  simp [rtcAlarmReset, hvalid, h]

/-- The clock never reaches the deadline that stands for no alarm. -/
theorem ClockTime.epochMsec_lt {t : RtcTime} (h : ClockTime t) : t.epochMsec < 2 ^ 50 := by
  obtain ⟨hvalid, -, hy⟩ := h
  have hord := hvalid.1.ordinal_le
  have hday := hvalid.msecOfDay_lt
  have hyear := daysBeforeYear_eq t.tmYear
  have hlen : yearLength t.date.year ≤ 366 := by
    simp only [yearLength]
    split <;> decide
  have hnum : t.date.dayNumber = daysBeforeYear t.tmYear + t.date.ordinal := rfl
  simp only [RtcTime.epochMsec]
  omega

theorem Due.valid {ullms : UInt64} {cur : RtcTime} (hcur : ClockTime cur) (h : Due ullms cur) :
    ullms ≠ rtcAlarmInvalid := by
  have hlt := hcur.epochMsec_lt
  rw [Due, hcur.xyMktime_eq] at h
  rintro rfl
  change 18446744073709551615 < _ at h
  omega

/-- A deadline that is due is found expired unless its fields are in a later second. -/
theorem Due.expired_iff {ullms : UInt64} {cur : RtcTime} (hcur : ClockTime cur) (h : Due ullms cur) :
    Expired ullms cur ↔ ¬xyMktime cur / 1000 < xyMktime (xyGmtimeR ullms.toNat) / 1000 := by
  have hlt := hcur.epochMsec_lt
  have hback := epochMsec_xyGmtimeR ullms.toNat
  have hyear := xyGmtimeR_year_le ullms.toNat
  rw [Due, hcur.xyMktime_eq] at h
  have hmk : xyMktime (xyGmtimeR ullms.toNat) = (xyGmtimeR ullms.toNat).epochMsec := by
    rw [RtcCalendar.xyMktime_eq (xyGmtimeR_valid _) (xyGmtimeR_year_ge _) (by omega)]
    exact Nat.mod_eq_of_lt (by omega)
  rw [expired_iff_packedBefore hcur, packedBefore_iff (xyGmtimeR_valid _) hcur.1 (xyGmtimeR_year_ge _)
    hcur.2.1 (by omega) (hcur.2.2.trans_lt (by decide)), hmk, hcur.xyMktime_eq]
  omega

/-- The expiry test only turns true with time. -/
theorem isRtcEventExpired_mono {event : RtcEventInfo} {cur now : RtcTime}
    (hle : xyMktime cur ≤ xyMktime now) (h : isRtcEventExpired event cur) : isRtcEventExpired event now := by
  simp only [isRtcEventExpired] at h ⊢
  omega

theorem releasesInTime_iff {ullms : UInt64} {cur : RtcTime} (hcur : ClockTime cur) (s : AlarmState) :
    ReleasesInTime ullms cur s ↔
      ¬(Due ullms cur ∧ xyMktime cur / 1000 < xyMktime (xyGmtimeR ullms.toNat) / 1000) ∧
        ¬Misread ullms cur := by
  have hsem := rtcAlarmReset_gRtcSem ullms cur { s with gRtcSem := false }
  simp only [Bool.false_eq_true, false_or] at hsem
  rw [ReleasesInTime, hsem]
  refine and_congr ?_ ?_
  · constructor
    · rintro h ⟨hdue, hlater⟩
      have hset : (rtcAlarmReset ullms cur { s with gRtcSem := false }).gRtcSem = true := by
        rw [h hdue]
      exact (Due.expired_iff hcur hdue).mp (hsem.mp hset).2 hlater
    · intro h hdue
      have hlater := not_and.mp h hdue
      exact rtcAlarmReset_of_expired (Due.valid hcur hdue) ((Due.expired_iff hcur hdue).mpr hlater)
  · constructor
    · rintro h ⟨hvalid, hbefore, hfar⟩
      have hexp := h ⟨hvalid, (expired_iff_packedBefore hcur).mpr hbefore⟩ cur hcur (Nat.le_refl _)
        ⟨ullms, 0, none, 0⟩ rfl
      simp only [isRtcEventExpired] at hexp
      omega
    · rintro h ⟨hvalid, hexp⟩ now - hle event rfl
      have hnear := fun hfar => h ⟨hvalid, (expired_iff_packedBefore hcur).mp hexp, hfar⟩
      exact isRtcEventExpired_mono hle (Nat.le_of_not_lt hnear)

/-- Before 2102 the fields are those of the deadline, and a call fails only for one that is
due in the next second of the clock. -/
theorem releasesInTime_before2102 {ullms : UInt64} {cur : RtcTime} (hms : ullms.toNat < 48213 * 86400000)
    (hcur : ClockTime cur) (s : AlarmState) :
    ReleasesInTime ullms cur s ↔ ¬(Due ullms cur ∧ xyMktime cur / 1000 < ullms.toNat / 1000) := by
  have hback := xyMktime_xyGmtimeR ullms.toNat_lt
  have hlost := (lostDays_eq_zero_iff (ullms.toNat / 86400000)).mpr (by omega)
  have hmk : xyMktime (xyGmtimeR ullms.toNat) = ullms.toNat := by omega
  rw [releasesInTime_iff hcur, hmk]
  refine and_iff_left ?_
  rintro ⟨-, hbefore, hfar⟩
  have hdue := due_of_expired hms hcur.1 hcur.2.1 (hcur.2.2.trans_lt (by decide))
    ((expired_iff_packedBefore hcur).mpr hbefore)
  rw [Due] at hdue
  omega

/-- The comparison is the one of the counts except into the next second, and a call serves a
deadline in time except there and where its fields are misread. -/
theorem alarm_comparison_iff (a c : RtcTime) (ullms : UInt64) (cur : RtcTime) (s : AlarmState) :
    (ClockTime a → ClockTime c → (ComparesInTime a c ↔ ¬NextSecond a c)) ∧
    (ClockTime cur →
      (ReleasesInTime ullms cur s ↔
        ¬(Due ullms cur ∧ xyMktime cur / 1000 < xyMktime (xyGmtimeR ullms.toNat) / 1000) ∧
          ¬Misread ullms cur)) := by
  constructor
  · intro ha hc
    exact comparesInTime_of_not_nextSecond ha hc
  · intro hcur
    exact releasesInTime_iff hcur s

/-- Half a hundredth before the first full second of 2000. -/
private def endOfSecond : RtcTime := { midnight2000 with tmMsec := 995 }

private def fullSecond : RtcTime := { midnight2000 with tmSec := 1 }

private theorem clockTime_endOfSecond : ClockTime endOfSecond := by
  refine ⟨⟨?_, ?_⟩, ?_⟩ <;> decide

private theorem clockTime_fullSecond : ClockTime fullSecond := by
  refine ⟨⟨?_, ?_⟩, ?_⟩ <;> decide

/-- The law at a clock five milliseconds before a full second. -/
theorem alarm_comparison_endOfSecond :
    ClockTime fullSecond ∧ ClockTime endOfSecond ∧
      (ComparesInTime fullSecond endOfSecond ↔ ¬NextSecond fullSecond endOfSecond) ∧
      (ReleasesInTime 946684801000 endOfSecond ⟨0, 0, false, false, 0, 0, false⟩ ↔
        ¬(Due 946684801000 endOfSecond ∧
          xyMktime endOfSecond / 1000 < xyMktime (xyGmtimeR (946684801000 : UInt64).toNat) / 1000) ∧
          ¬Misread 946684801000 endOfSecond) :=
  ⟨clockTime_fullSecond, clockTime_endOfSecond,
    (alarm_comparison_iff fullSecond endOfSecond 0 endOfSecond ⟨0, 0, false, false, 0, 0, false⟩).1
      clockTime_fullSecond clockTime_endOfSecond,
    (alarm_comparison_iff fullSecond endOfSecond 946684801000 endOfSecond ⟨0, 0, false, false, 0, 0, false⟩).2
      clockTime_endOfSecond⟩

/-- Five milliseconds ahead of the clock, the full second does not compare as due. -/
theorem not_comparesInTime_fullSecond :
    ¬((∀ a c, ClockTime a → ClockTime c → ComparesInTime a c) ∧
      ∀ (ullms : UInt64) (cur : RtcTime) (s : AlarmState), ClockTime cur → ReleasesInTime ullms cur s) := by
  rintro ⟨h, -⟩
  have hcmp := h fullSecond endOfSecond clockTime_fullSecond clockTime_endOfSecond
  rw [ComparesInTime] at hcmp
  revert hcmp
  decide

end NbiotXY1100.RtcAlarmDeadline
