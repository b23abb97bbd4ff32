import NbiotXY1100.GregorianCalendar
import Mathlib.Tactic.Ring
import Mathlib.Tactic.NormNum

/-! # The calendar conversions of the real-time clock

`clockUtcToCalendar`, `xyMktime` and `xyGmtimeR` of `rtc_adapt.c`. The year search
starts from whole periods of 1461 days and never gives back the leap days that the
skipped centuries do not have. -/
namespace NbiotXY1100.RtcCalendar
open GregorianCalendar

/-- `struct rtc_time`. Every field is a `uint32_t`. -/
structure RtcTime where
  tmMsec : ℕ
  tmSec : ℕ
  tmMin : ℕ
  tmHour : ℕ
  tmMday : ℕ
  tmMon : ℕ
  tmYear : ℕ
  tmWday : ℕ
  tmYday : ℕ
  tmIsdst : ℕ
  deriving DecidableEq, Repr

def clockIsLeapyear (year : ℕ) : Bool :=
  if year % 400 ≠ 0 then if year % 100 ≠ 0 then if year % 4 ≠ 0 then false else true else false
  else true

def gDaysbeforemonth : List ℕ := [0, 31, 59, 90, 120, 151, 181, 212, 243, 273, 304, 334, 365]

def clockDaysBeforeMonth (month : ℕ) (leapyear : Bool) : ℕ :=
  let retval := gDaysbeforemonth.getD month 0
  if 2 ≤ month ∧ leapyear then retval + 1 else retval

/-- Called with a date after year one only, so the `int` sums stay positive. -/
def clockDayoftheweek (mday month year : ℕ) : ℕ :=
  let late := month = 1 ∨ month = 2
  let month' := if late then month + 12 else month
  let year' := if late then year - 1 else year
  (mday + 2 * month' + 3 * (month' + 1) / 5 + year' + year' / 4 - year' / 100 + year' / 400) % 7 + 1

/-- The number of days in the year, from the leap flag. -/
def clockYearDays (year : ℕ) : ℕ := if clockIsLeapyear year then 366 else 365

theorem clockYearDays_pos (year : ℕ) : 0 < clockYearDays year := by
  simp only [clockYearDays]
  split <;> decide

/-- The loop over the years that are left after the four-year periods. -/
def bumpYears (value days : ℕ) : ℕ × ℕ :=
  if clockYearDays (value + 1970) ≤ days then
    bumpYears (value + 1) (days - clockYearDays (value + 1970))
  else (value, days)
termination_by days
decreasing_by
  have := clockYearDays_pos (value + 1970)
  omega

/-- The binary search for the month, zero based; `(min + max) / 2` is the midpoint `value`. -/
def searchMonth (leapyear : Bool) (days min max : ℕ) : ℕ :=
  if days < clockDaysBeforeMonth ((min + max) / 2 + 1) leapyear then
    if days < clockDaysBeforeMonth ((min + max) / 2) leapyear then
      if min < (min + max) / 2 - 1 then searchMonth leapyear days min ((min + max) / 2 - 1) else min
    else (min + max) / 2
  else if (min + max) / 2 + 1 < max then searchMonth leapyear days ((min + max) / 2 + 1) max
  else (min + max) / 2 + 1
termination_by max - min

def clockUtcToCalendar (days : ℕ) : Date :=
  let value := days / (4 * 365 + 1)
  let yd := bumpYears (value * 4) (days - value * (4 * 365 + 1))
  let leapyear := clockIsLeapyear (yd.1 + 1970)
  let month := searchMonth leapyear yd.2 0 11
  ⟨1970 + yd.1, month + 1, yd.2 - clockDaysBeforeMonth month leapyear + 1⟩

/-- The 32-bit month and year wrap below zero, the result is a 64-bit count. -/
def xyMktime (tp : RtcTime) : ℕ :=
  if tp.tmSec = 0 ∧ tp.tmMin = 0 ∧ tp.tmHour = 0 ∧ tp.tmMday = 0 ∧ tp.tmMon = 0 ∧ tp.tmYear = 0 then 0
  else
    let mon := (tp.tmMon + 2 ^ 32 - 2) % 2 ^ 32
    -- `0 >= (int) mon`
    let early := mon = 0 ∨ 2 ^ 31 ≤ mon
    let mon' := if early then (mon + 12) % 2 ^ 32 else mon
    let year := if early then (tp.tmYear + 2 ^ 32 - 1) % 2 ^ 32 else tp.tmYear
    let days : ℤ := (year / 4 - year / 100 + year / 400 + 367 * mon' / 12 + tp.tmMday + year * 365 : ℕ) - 719499
    (((((days * 24 + tp.tmHour) * 60 + tp.tmMin) * 60 + tp.tmSec) * 1000 + tp.tmMsec) % 2 ^ 64).toNat

def xyGmtimeR (msec : ℕ) : RtcTime :=
  let epoch := msec / 1000
  let jdn := epoch / 86400
  let epoch := epoch - 86400 * jdn
  let hour := epoch / 3600
  let epoch := epoch - 3600 * hour
  let min := epoch / 60
  let sec := epoch - 60 * min
  let date := clockUtcToCalendar jdn
  { tmMsec := msec % 1000
    tmSec := sec
    tmMin := min
    tmHour := hour
    tmMday := date.day
    tmMon := date.month
    tmYear := date.year
    tmWday := clockDayoftheweek date.day date.month date.year
    tmYday := date.day + clockDaysBeforeMonth (date.month - 1) (clockIsLeapyear date.year)
    tmIsdst := 0 }

@[simp] theorem clockIsLeapyear_eq (year : ℕ) : clockIsLeapyear year = decide (Leap year) := by
  by_cases h4 : year % 4 = 0 <;> by_cases h100 : year % 100 = 0 <;> by_cases h400 : year % 400 = 0 <;>
    simp [clockIsLeapyear, Leap, h4, h100, h400]
  all_goals omega

/-- The cumulative table agrees with the month lengths. -/
theorem clockDaysBeforeMonth_eq (year : ℕ) {month : ℕ} (h : month ≤ 12) :
    clockDaysBeforeMonth month (clockIsLeapyear year) = daysBeforeMonth year month := by
  rw [clockIsLeapyear_eq]
  by_cases hl : Leap year <;> interval_cases month <;>
    simp [clockDaysBeforeMonth, gDaysbeforemonth, daysBeforeMonth, monthLength, hl]

theorem clockYearDays_eq (year : ℕ) : clockYearDays year = yearLength year := by
  simp [clockYearDays, yearLength]

/-- The year loop only moves whole years from the day count into the year. -/
theorem bumpYears_spec (value days : ℕ) :
    value ≤ (bumpYears value days).1 ∧
      (bumpYears value days).2 < yearLength ((bumpYears value days).1 + 1970) ∧
      daysBeforeYear ((bumpYears value days).1 + 1970) + (bumpYears value days).2 =
        daysBeforeYear (value + 1970) + days := by
  induction value, days using bumpYears.induct with
  | case1 value days h ih =>
    rw [bumpYears, if_pos h]
    rw [clockYearDays_eq] at h ih ⊢
    obtain ⟨hle, hlt, hsum⟩ := ih
    have hstep : daysBeforeYear (value + 1 + 1970) = daysBeforeYear (value + 1970) + yearLength (value + 1970) := by
      rw [← daysBeforeYear_succ, Nat.add_right_comm]
    exact ⟨by omega, hlt, by omega⟩
  | case2 value days h =>
    rw [bumpYears, if_neg h]
    rw [clockYearDays_eq] at h
    exact ⟨Nat.le_refl _, Nat.lt_of_not_le h, rfl⟩

/-- The bracket `[min, max]` always holds the month that contains the day. -/
theorem searchMonth_spec (leapyear : Bool) (days min max : ℕ) (hle : min ≤ max)
    (hlo : clockDaysBeforeMonth min leapyear ≤ days)
    (hhi : days < clockDaysBeforeMonth (max + 1) leapyear) :
    searchMonth leapyear days min max ≤ max ∧
      clockDaysBeforeMonth (searchMonth leapyear days min max) leapyear ≤ days ∧
      days < clockDaysBeforeMonth (searchMonth leapyear days min max + 1) leapyear := by
  induction min, max using searchMonth.induct leapyear days with
  | case1 min max hup hbelow hlt ih =>
    rw [searchMonth, if_pos hup, if_pos hbelow, if_pos hlt]
    have hpos : (min + max) / 2 - 1 + 1 = (min + max) / 2 := by omega
    obtain ⟨h1, h2⟩ := ih (by omega) hlo (by rw [hpos]; exact hbelow)
    exact ⟨by omega, h2⟩
  | case2 min max hup hbelow hlt =>
    have hne : min ≠ (min + max) / 2 := by
      intro h
      rw [← h] at hbelow
      omega
    have hmin : (min + max) / 2 = min + 1 := by omega
    rw [searchMonth, if_pos hup, if_pos hbelow, if_neg hlt]
    exact ⟨hle, hlo, by rwa [← hmin]⟩
  | case3 min max hup habove =>
    rw [searchMonth, if_pos hup, if_neg habove]
    exact ⟨by omega, by omega, hup⟩
  | case4 min max hup hlt ih =>
    rw [searchMonth, if_neg hup, if_pos hlt]
    exact ih (by omega) (by omega) hhi
  | case5 min max hup hlt =>
    have hne : (min + max) / 2 ≠ max := by
      intro h
      rw [h] at hup
      exact hup hhi
    have hmax : (min + max) / 2 + 1 = max := by omega
    rw [searchMonth, if_neg hup, if_neg hlt]
    exact ⟨by omega, by omega, by rwa [hmax]⟩

/-- Century leap days that the 1461-day periods count and the calendar leaves out. -/
def lostDays (days : ℕ) : ℕ :=
  let year := 1970 + 4 * (days / 1461)
  (year + 99) / 100 - (year + 399) / 400 - 15

theorem lostDays_eq_zero_iff (days : ℕ) : lostDays days = 0 ↔ days < 48213 := by
  simp only [lostDays]
  omega

/-- The conversion yields a valid date from 1970 on, too early by the lost days. -/
theorem clockUtcToCalendar_spec (days : ℕ) :
    (clockUtcToCalendar days).Valid ∧ 1970 ≤ (clockUtcToCalendar days).year ∧
      (clockUtcToCalendar days).dayNumber + lostDays days = days + 719529 := by
  obtain ⟨hle, hlt, hsum⟩ := bumpYears_spec (days / (4 * 365 + 1) * 4)
    (days - days / (4 * 365 + 1) * (4 * 365 + 1))
  generalize hyd : bumpYears (days / (4 * 365 + 1) * 4)
    (days - days / (4 * 365 + 1) * (4 * 365 + 1)) = yd at hle hlt hsum
  obtain ⟨value, rest⟩ := yd
  simp only at hle hlt hsum
  have hyear : daysBeforeMonth (value + 1970) 12 = yearLength (value + 1970) := daysBeforeMonth_twelve _
  have hbefore := fun {m : ℕ} (h : m ≤ 12) => clockDaysBeforeMonth_eq (value + 1970) h
  obtain ⟨hmonth, hlo, hhi⟩ := searchMonth_spec (clockIsLeapyear (value + 1970)) rest 0 11 (by omega)
    (by rw [hbefore (by omega)]; exact Nat.zero_le _) (by rw [hbefore (by omega), hyear]; exact hlt)
  generalize hm : searchMonth (clockIsLeapyear (value + 1970)) rest 0 11 = month at hmonth hlo hhi
  rw [hbefore (by omega)] at hlo hhi
  have hdate : clockUtcToCalendar days =
      ⟨1970 + value, month + 1, rest - daysBeforeMonth (value + 1970) month + 1⟩ := by
    simp only [clockUtcToCalendar, hyd, hm]
    rw [hbefore (by omega)]
  have hstart := daysBeforeYear_eq (days / (4 * 365 + 1) * 4 + 1970)
  rw [hdate, Nat.add_comm 1970 value]
  refine ⟨⟨by simp, Nat.succ_le_succ hmonth, by simp, ?_⟩, by simp, ?_⟩
  · simp only [daysBeforeMonth] at hhi ⊢
    omega
  · simp only [Date.dayNumber, Date.ordinal, lostDays, Nat.add_sub_cancel]
    omega

namespace RtcTime

def date (t : RtcTime) : Date := ⟨t.tmYear, t.tmMon, t.tmMday⟩

def Valid (t : RtcTime) : Prop :=
  t.date.Valid ∧ t.tmHour < 24 ∧ t.tmMin < 60 ∧ t.tmSec < 60 ∧ t.tmMsec < 1000

def msecOfDay (t : RtcTime) : ℕ := ((t.tmHour * 60 + t.tmMin) * 60 + t.tmSec) * 1000 + t.tmMsec

/-- Milliseconds since the first day of 1970, for dates from then on. -/
def epochMsec (t : RtcTime) : ℕ := (t.date.dayNumber - 719529) * 86400000 + t.msecOfDay

/-- Lexicographic order of the fields from the year down to the millisecond. -/
def Before (a b : RtcTime) : Prop :=
  a.date.Before b.date ∨ a.date = b.date ∧
    (a.tmHour < b.tmHour ∨ a.tmHour = b.tmHour ∧
      (a.tmMin < b.tmMin ∨ a.tmMin = b.tmMin ∧
        (a.tmSec < b.tmSec ∨ a.tmSec = b.tmSec ∧ a.tmMsec < b.tmMsec)))

theorem Valid.msecOfDay_lt {t : RtcTime} (h : t.Valid) : t.msecOfDay < 86400000 := by
  obtain ⟨-, hh, hm, hs, hms⟩ := h
  simp only [msecOfDay]
  omega

theorem Valid.le_dayNumber {t : RtcTime} (h : t.Valid) (hy : 1970 ≤ t.tmYear) :
    719529 ≤ t.date.dayNumber := by
  have hpos := h.1.ordinal_pos
  have hmono : daysBeforeYear 1970 ≤ daysBeforeYear t.tmYear := daysBeforeYear_le hy
  have heq := daysBeforeYear_eq 1970
  change 719529 ≤ daysBeforeYear t.tmYear + _
  omega

theorem epochMsec_lt_of_before {a b : RtcTime} (ha : a.Valid) (hb : b.Valid)
    (hy : 1970 ≤ a.tmYear) (h : a.Before b) : a.epochMsec < b.epochMsec := by
  have hstart := ha.le_dayNumber hy
  have hday := ha.msecOfDay_lt
  rcases h with hdate | ⟨hdate, hclock⟩
  · have := Date.dayNumber_lt_of_before ha.1 hb.1 hdate
    simp only [epochMsec]
    omega
  · obtain ⟨-, hah, ham, has, hams⟩ := ha
    obtain ⟨-, hbh, hbm, hbs, hbms⟩ := hb
    simp only [epochMsec, hdate, msecOfDay]
    omega

theorem before_or_epochMsec_le {a b : RtcTime} (ha : a.Valid) (hb : b.Valid)
    (hy : 1970 ≤ b.tmYear) : a.Before b ∨ b.epochMsec ≤ a.epochMsec := by
  rcases Date.before_trichotomy a.date b.date with h | h | h
  · exact .inl (.inl h)
  · by_cases hlt : a.msecOfDay < b.msecOfDay
    · obtain ⟨-, hah, ham, has, hams⟩ := ha
      obtain ⟨-, hbh, hbm, hbs, hbms⟩ := hb
      simp only [msecOfDay] at hlt
      exact .inl (.inr ⟨h, by omega⟩)
    · right
      simp only [epochMsec, h]
      omega
  · exact .inr (epochMsec_lt_of_before hb ha hy (.inl h)).le

end RtcTime

/-- The closed formula for the start of the year after `year`. -/
private theorem nextYear_eq (year : ℕ) :
    daysBeforeYear (year + 1) = year / 4 - year / 100 + year / 400 + year * 365 + 366 := by
  have := daysBeforeYear_eq (year + 1)
  omega

/-- From March on, `367 * mon / 12` counts the months of thirty and thirty-one days. -/
private theorem daysBeforeMonth_march (year mon : ℕ) (h1 : 1 ≤ mon) (h10 : mon ≤ 10) :
    daysBeforeMonth year (mon + 1) + 336 = yearLength year + 367 * mon / 12 := by
  by_cases hl : Leap year <;> interval_cases mon <;>
    simp [daysBeforeMonth, monthLength, yearLength, hl]

/-- Fields of a year that fits the packed comparison stay far below 64 bits. -/
theorem RtcTime.epochMsec_lt {t : RtcTime} (h : t.Valid) (hy : t.tmYear < 2 ^ 18) :
    t.epochMsec < 2 ^ 64 := by
  have hord := h.1.ordinal_le
  have hday := h.msecOfDay_lt
  have hyear := daysBeforeYear_eq t.tmYear
  have hlen : yearLength t.date.year ≤ 366 := by
    simp only [yearLength]
    split <;> decide
  have hnum : t.date.dayNumber = daysBeforeYear t.tmYear + t.date.ordinal := rfl
  simp only [epochMsec]
  omega

/-- The March-based closed formula of `xy_mktime` counts the days of a valid date. -/
private theorem marchDays {d : Date} (h : d.Valid) (hy : 1 ≤ d.year) (year mon : ℕ)
    (hearly : d.month ≤ 2 → year = d.year - 1 ∧ mon = d.month + 10)
    (hlate : 2 < d.month → year = d.year ∧ mon = d.month - 2) :
    year / 4 - year / 100 + year / 400 + 367 * mon / 12 + d.day + year * 365 + 30 = d.dayNumber := by
  obtain ⟨y, m, day⟩ := d
  obtain ⟨h1, h12, -, -⟩ := h
  simp only at h1 h12 hy hearly hlate ⊢
  have hnext := nextYear_eq year
  simp only [Date.dayNumber, Date.ordinal]
  by_cases hm : m ≤ 2
  · obtain ⟨rfl, rfl⟩ := hearly hm
    rw [Nat.sub_add_cancel hy] at hnext
    have hfirst : daysBeforeMonth y (m - 1) = if m = 1 then 0 else 31 := by
      interval_cases m <;> simp [daysBeforeMonth, monthLength]
    split at hfirst <;> omega
  · obtain ⟨rfl, rfl⟩ := hlate (by omega)
    have hmarch := daysBeforeMonth_march year (m - 2) (by omega) (by omega)
    rw [show m - 2 + 1 = m - 1 by omega] at hmarch
    rw [daysBeforeYear_succ] at hnext
    omega

private theorem epochMsec_of_days {t : RtcTime} (hstart : 719529 ≤ t.date.dayNumber) {a b : ℕ}
    (h : a + t.date.day + b + 30 = t.date.dayNumber) :
    (((((((a + t.tmMday + b : ℕ) - 719499 : ℤ) * 24 + t.tmHour) * 60 + t.tmMin) * 60 + t.tmSec) * 1000
      + t.tmMsec) % 2 ^ 64).toNat = t.epochMsec % 2 ^ 64 := by
  have hcount : (((((a + t.tmMday + b : ℕ) - 719499 : ℤ) * 24 + t.tmHour) * 60 + t.tmMin) * 60 + t.tmSec) * 1000
      + t.tmMsec = (t.epochMsec : ℤ) := by
    simp only [RtcTime.epochMsec, RtcTime.msecOfDay]
    change a + t.tmMday + b + 30 = _ at h
    omega
  rw [hcount, ← Int.toNat_natCast (t.epochMsec % 2 ^ 64)]
  push_cast
  rfl

theorem xyMktime_eq {t : RtcTime} (h : t.Valid) (hy : 1970 ≤ t.tmYear) (hy' : t.tmYear < 2 ^ 32) :
    xyMktime t = t.epochMsec % 2 ^ 64 := by
  have hstart := h.le_dayNumber hy
  obtain ⟨h1, h12, hd1, -⟩ := h.1
  have hmon : 1 ≤ t.tmMon ∧ t.tmMon ≤ 12 := ⟨h1, h12⟩
  rw [xyMktime, if_neg (by omega)]
  simp only
  by_cases hm : t.tmMon ≤ 2
  · have hearly : (t.tmMon + 2 ^ 32 - 2) % 2 ^ 32 = 0 ∨ 2 ^ 31 ≤ (t.tmMon + 2 ^ 32 - 2) % 2 ^ 32 := by
      omega
    have hdays := marchDays h.1 (by change 1 ≤ t.tmYear; omega)
      ((t.tmYear + 2 ^ 32 - 1) % 2 ^ 32) (((t.tmMon + 2 ^ 32 - 2) % 2 ^ 32 + 12) % 2 ^ 32)
      (by intro; simp only [RtcTime.date]; omega) (by simp only [RtcTime.date]; omega)
    simp only [if_pos hearly]
    exact epochMsec_of_days hstart hdays
  · have hlate : ¬((t.tmMon + 2 ^ 32 - 2) % 2 ^ 32 = 0 ∨ 2 ^ 31 ≤ (t.tmMon + 2 ^ 32 - 2) % 2 ^ 32) := by
      omega
    have hdays := marchDays h.1 (by change 1 ≤ t.tmYear; omega)
      t.tmYear ((t.tmMon + 2 ^ 32 - 2) % 2 ^ 32)
      (by simp only [RtcTime.date]; omega) (fun _ => ⟨rfl, by change _ = t.tmMon - 2; omega⟩)
    simp only [if_neg hlate]
    exact epochMsec_of_days hstart hdays

/-- Months are counted from March, as the weekday rule and the closed formula both do. -/
private theorem weekdayMonth (month : ℕ) (h3 : 3 ≤ month) (h14 : month ≤ 14) :
    (2 * month + 3 * (month + 1) / 5) % 7 = (367 * (month - 2) / 12 + 34) % 7 := by
  interval_cases month <;> rfl

theorem clockDayoftheweek_eq {d : Date} (h : d.Valid) (hy : 1 ≤ d.year) :
    clockDayoftheweek d.day d.month d.year = (d.dayNumber + 4) % 7 + 1 := by
  obtain ⟨h1, h12, -, -⟩ := id h
  by_cases hm : d.month = 1 ∨ d.month = 2
  · have hdays := marchDays h hy (d.year - 1) (d.month + 10) (by omega) (by omega)
    have hmonth := weekdayMonth (d.month + 12) (by omega) (by omega)
    rw [show d.month + 12 - 2 = d.month + 10 by omega] at hmonth
    simp only [clockDayoftheweek, if_pos hm]
    omega
  · have hdays := marchDays h hy d.year (d.month - 2) (by omega) (by omega)
    have hmonth := weekdayMonth d.month (by omega) (by omega)
    simp only [clockDayoftheweek, if_neg hm]
    omega

@[simp] theorem xyGmtimeR_date (msec : ℕ) :
    (xyGmtimeR msec).date = clockUtcToCalendar (msec / 86400000) := by
  simp [xyGmtimeR, RtcTime.date, Nat.div_div_eq_div_mul]

theorem xyGmtimeR_msecOfDay (msec : ℕ) : (xyGmtimeR msec).msecOfDay = msec % 86400000 := by
  simp only [xyGmtimeR, RtcTime.msecOfDay]
  omega

theorem xyGmtimeR_valid (msec : ℕ) : (xyGmtimeR msec).Valid := by
  refine ⟨?_, ?_⟩
  · rw [xyGmtimeR_date]
    exact (clockUtcToCalendar_spec _).1
  · simp only [xyGmtimeR]
    omega

theorem xyGmtimeR_year_ge (msec : ℕ) : 1970 ≤ (xyGmtimeR msec).tmYear := by
  have := (clockUtcToCalendar_spec (msec / 86400000)).2.1
  rwa [← xyGmtimeR_date] at this

/-- The fields stand for the count less the lost days. -/
theorem epochMsec_xyGmtimeR (msec : ℕ) :
    (xyGmtimeR msec).epochMsec + lostDays (msec / 86400000) * 86400000 = msec := by
  have hday := (clockUtcToCalendar_spec (msec / 86400000)).2.2
  have hstart := (xyGmtimeR_valid msec).le_dayNumber (xyGmtimeR_year_ge msec)
  rw [← xyGmtimeR_date] at hday
  simp only [RtcTime.epochMsec, xyGmtimeR_msecOfDay]
  omega

theorem xyGmtimeR_year_le (msec : ℕ) : 365 * (xyGmtimeR msec).tmYear ≤ msec / 86400000 + 719529 := by
  have hday := (clockUtcToCalendar_spec (msec / 86400000)).2.2
  rw [← xyGmtimeR_date] at hday
  have hyear := daysBeforeYear_eq (xyGmtimeR msec).tmYear
  change daysBeforeYear (xyGmtimeR msec).tmYear + _ + _ = _ at hday
  omega

/-- The `int` year of the search stays far below its range for every 64-bit count. -/
theorem xyGmtimeR_year_lt {msec : ℕ} (h : msec < 2 ^ 64) : (xyGmtimeR msec).tmYear < 2 ^ 31 := by
  have := xyGmtimeR_year_le msec
  omega

theorem xyMktime_xyGmtimeR {msec : ℕ} (h : msec < 2 ^ 64) :
    xyMktime (xyGmtimeR msec) + lostDays (msec / 86400000) * 86400000 = msec := by
  have hyear := xyGmtimeR_year_lt h
  have hepoch := epochMsec_xyGmtimeR msec
  rw [xyMktime_eq (xyGmtimeR_valid msec) (xyGmtimeR_year_ge msec) (by omega),
    Nat.mod_eq_of_lt (by omega), hepoch]

/-- What a correct conversion of one count yields: a valid date and time, the weekday
counted from a Thursday, the ordinal of the day, a way back, and the order of the counts. -/
def CalendarCorrect (msec : ℕ) : Prop :=
  (xyGmtimeR msec).Valid ∧
  (xyGmtimeR msec).tmWday = (msec / 86400000 + 3) % 7 + 1 ∧
  (xyGmtimeR msec).tmYday = (xyGmtimeR msec).date.ordinal ∧
  xyMktime (xyGmtimeR msec) = msec ∧
  ∀ earlier < msec, (xyGmtimeR earlier).Before (xyGmtimeR msec)

/-- The conversion is correct exactly up to the end of the first day of 2102. -/
theorem calendarCorrect_iff (msec : UInt64) :
    CalendarCorrect msec.toNat ↔ msec.toNat < 48213 * 86400000 := by
  have hmsec := msec.toNat_lt
  generalize msec.toNat = msec at hmsec
  have hlost := lostDays_eq_zero_iff (msec / 86400000)
  have hback := xyMktime_xyGmtimeR hmsec
  constructor
  · rintro ⟨-, -, -, hmk, -⟩
    omega
  · intro hlt
    have hday := (clockUtcToCalendar_spec (msec / 86400000)).2.2
    rw [← xyGmtimeR_date] at hday
    refine ⟨xyGmtimeR_valid msec, ?_, ?_, by omega, ?_⟩
    · have hweek := clockDayoftheweek_eq (xyGmtimeR_valid msec).1
        (Nat.le_trans (by decide) (xyGmtimeR_year_ge msec))
      change clockDayoftheweek (xyGmtimeR msec).date.day (xyGmtimeR msec).date.month
        (xyGmtimeR msec).date.year = _
      rw [hweek]
      omega
    · obtain ⟨⟨h1, h12, -, -⟩, -⟩ := xyGmtimeR_valid msec
      change (xyGmtimeR msec).tmMday + clockDaysBeforeMonth ((xyGmtimeR msec).tmMon - 1)
        (clockIsLeapyear (xyGmtimeR msec).tmYear) = _
      rw [clockDaysBeforeMonth_eq _ (by change (xyGmtimeR msec).date.month - 1 ≤ 12; omega), Nat.add_comm]
      rfl
    · intro earlier hearlier
      have hepoch := epochMsec_xyGmtimeR msec
      have hepoch' := epochMsec_xyGmtimeR earlier
      rcases RtcTime.before_or_epochMsec_le (xyGmtimeR_valid earlier) (xyGmtimeR_valid msec)
        (xyGmtimeR_year_ge msec) with h | h
      · exact h
      · omega

/-- The second of January 2102 comes out as the first. -/
theorem not_calendarCorrect_2102 : ¬∀ msec : UInt64, CalendarCorrect msec.toNat := by
  intro h
  obtain ⟨-, -, -, hmk, -⟩ := h 4165603200000
  have hback := xyMktime_xyGmtimeR (by decide : 4165603200000 < 2 ^ 64)
  simp only [lostDays] at hback
  change xyMktime (xyGmtimeR 4165603200000) = 4165603200000 at hmk
  omega

end NbiotXY1100.RtcCalendar
