import NbiotXY1100.GregorianCalendar
import Mathlib.Data.Int.Notation

/-! # Local time from the network's universal time

Universal time comes in swapped-nibble BCD with a zone in quarter hours. It is turned into
minutes, the offset is added or taken away, and the minutes are turned back into a date. A
leap day is counted at the start of the year after the leap year, so the minutes are
patched by a day when the year changes. -/
namespace NbiotXY1100.NetworkTime
open GregorianCalendar

/-- The seven bytes of `aucUtAndLtz`. -/
structure TimeZoneTime where
  year : UInt8
  month : UInt8
  day : UInt8
  hour : UInt8
  minute : UInt8
  second : UInt8
  zone : UInt8
  deriving DecidableEq

/-- Rows for common and leap years. -/
def atcMonthDayTbl : Bool → List ℕ
  | false => [31, 28, 31, 30, 31, 30, 31, 31, 30, 31, 30, 31]
  | true => [31, 29, 31, 30, 31, 30, 31, 31, 30, 31, 30, 31]

def atcApRevertHexToDecimal (ucHex : UInt8) : UInt8 := (ucHex &&& 0x0F) * 10 + (ucHex &&& 0xF0) >>> (4 : UInt8)

/-- Conversion to the 32-bit `unsigned long`. -/
def toUl (x : ℤ) : ℕ := (x % 2 ^ 32).toNat

/-- The minutes before a year since 2000, the leap day of 2000 left out. -/
def yearMinutes (ucYear : ℕ) : ℕ := (ucYear * 365 + ucYear / 4) * 24 * 60

/-- `ucYear`, `ucLeapYear` and `ulTimeInMinute` -/
structure Reckoning where
  ucYear : ℕ
  ucLeapYear : Bool
  ulTimeInMinute : ℕ

def toMinutes (t : TimeZoneTime) : Reckoning :=
  let ucYear := (atcApRevertHexToDecimal t.year).toNat
  let ucMonth := (atcApRevertHexToDecimal t.month).toNat
  let usDay := (atcApRevertHexToDecimal t.day).toNat
  let ucHour := (atcApRevertHexToDecimal t.hour).toNat
  let ucMinute := (atcApRevertHexToDecimal t.minute).toNat
  let ucLeapYear := decide (ucYear % 4 = 0)
  let months := ((atcMonthDayTbl ucLeapYear).take (ucMonth - 1)).sum
  ⟨ucYear, ucLeapYear,
    toUl (yearMinutes ucYear + months * 24 * 60 + ((usDay : ℤ) - 1) * 60 * 24 + ucHour * 60 + ucMinute)⟩

/-- The offset in quarter hours; daylight saving is counted in hours. -/
def timeZoneOffset (zone ucDayLightTime : UInt8) : ℕ :=
  ((zone &&& 0x07) * 10 + (zone &&& 0xF0) >>> (4 : UInt8) + ucDayLightTime * 4).toNat

/-- The year's end is taken to be 365 days after its start, also in a leap year. -/
def forwards (r : Reckoning) (offset : ℕ) : Reckoning :=
  let time := toUl (r.ulTimeInMinute + offset * 15)
  if ((r.ucYear + 1) * 365 + r.ucYear / 4) * 24 * 60 < time then
    if (r.ucYear + 1) % 4 = 0 then ⟨r.ucYear + 1, true, toUl (time + 60 * 24)⟩
    else if r.ucLeapYear then ⟨r.ucYear + 1, false, toUl (time - 60 * 24)⟩
    else ⟨r.ucYear + 1, r.ucLeapYear, time⟩
  else ⟨r.ucYear, r.ucLeapYear, time⟩

def backwards (r : Reckoning) (offset : ℕ) : Reckoning :=
  let time := toUl (r.ulTimeInMinute - offset * 15)
  if time < yearMinutes r.ucYear then
    if (r.ucYear - 1) % 4 = 0 then ⟨r.ucYear - 1, true, toUl (time + 60 * 24)⟩
    else if r.ucLeapYear then ⟨r.ucYear - 1, false, toUl (time - 60 * 24)⟩
    else ⟨r.ucYear - 1, r.ucLeapYear, time⟩
  else ⟨r.ucYear, r.ucLeapYear, time⟩

/-- The loop that takes whole months off the day of the year: the months gone and the day left. -/
def leaveMonths : List ℕ → ℕ → ℕ × ℕ
  | [], day => (0, day)
  | len :: rest, day => if len < day then ((leaveMonths rest (day - len)).1 + 1, (leaveMonths rest (day - len)).2)
    else (0, day)

def fromMinutes (r : Reckoning) (ucSecond : UInt8) : TimeZoneTime :=
  let time := toUl (r.ulTimeInMinute - yearMinutes r.ucYear)
  let usDay := (time / (60 * 24) + 1) % 2 ^ 16
  let months := leaveMonths (atcMonthDayTbl r.ucLeapYear) usDay
  let time := toUl (time - ((usDay : ℤ) - 1) * 60 * 24)
  ⟨UInt8.ofNat r.ucYear, UInt8.ofNat (months.1 + 1), UInt8.ofNat months.2, UInt8.ofNat (time / 60),
    UInt8.ofNat (time % 60), ucSecond, 0⟩

def atcApConvertTimeZone (t : TimeZoneTime) (ucDayLightTime : UInt8) : TimeZoneTime :=
  let offset := timeZoneOffset t.zone ucDayLightTime
  let r := if t.zone &&& 0x08 = 0 then forwards (toMinutes t) offset else backwards (toMinutes t) offset
  fromMinutes r (atcApRevertHexToDecimal t.second)

/-- A date and time of day. -/
structure Civil where
  date : Date
  hour : ℕ
  minute : ℕ
  second : ℕ

namespace Civil

def Valid (c : Civil) : Prop := c.date.Valid ∧ c.hour < 24 ∧ c.minute < 60 ∧ c.second < 60

def minutes (c : Civil) : ℤ := c.date.dayNumber * 1440 + c.hour * 60 + c.minute

/-- Minutes of the year that are over. -/
def yearMinute (c : Civil) : ℕ := (c.date.ordinal - 1) * 1440 + c.hour * 60 + c.minute

end Civil

structure Zone where
  quarters : ℕ
  negative : Bool

def revertedBcd (n : ℕ) : UInt8 := UInt8.ofNat (n / 10 + n % 10 * 16)

def zoneByte (z : Zone) : UInt8 :=
  UInt8.ofNat (z.quarters / 10 + (if z.negative then 8 else 0) + z.quarters % 10 * 16)

/-- What the network sends. -/
def encoded (utc : Civil) (z : Zone) : TimeZoneTime :=
  ⟨revertedBcd (utc.date.year - 2000), revertedBcd utc.date.month, revertedBcd utc.date.day,
    revertedBcd utc.hour, revertedBcd utc.minute, revertedBcd utc.second, zoneByte z⟩

/-- Universal time, the signed zone and the hours of daylight saving. -/
def localMinutes (utc : Civil) (z : Zone) (dst : ℕ) : ℤ :=
  utc.minutes + (if z.negative then -15 * (z.quarters : ℤ) else 15 * z.quarters) + 60 * dst

def InCentury (minutes : ℤ) : Prop :=
  (Date.mk 2000 1 1).dayNumber * 1440 ≤ minutes ∧ minutes < (Date.mk 2100 1 1).dayNumber * 1440

/-- The date and time in a result. -/
def shown (t : TimeZoneTime) : Civil :=
  ⟨⟨2000 + t.year.toNat, t.month.toNat, t.day.toNat⟩, t.hour.toNat, t.minute.toNat, t.second.toNat⟩

structure Shows (t : TimeZoneTime) (minutes : ℤ) (second : ℕ) : Prop where
  valid : (shown t).Valid
  minutes : (shown t).minutes = minutes
  second : (shown t).second = second

/-- A positive zone is handled unless the local time is the first minute after a common year
or lies in the last day of a leap year, its first minute apart; a negative zone is handled
without daylight saving. -/
def Handled (utc : Civil) (z : Zone) (dst : ℕ) : Prop :=
  if z.negative then dst = 0
  else
    let t := utc.yearMinute + 15 * (z.quarters + 4 * dst)
    (utc.date.year % 4 ≠ 0 → t ≠ 365 * 1440) ∧ (utc.date.year % 4 = 0 → ¬ (365 * 1440 < t ∧ t < 366 * 1440))

theorem revertHex_revertedBcd {n : ℕ} (h : n < 100) : (atcApRevertHexToDecimal (revertedBcd n)).toNat = n := by
  interval_cases n <;> rfl

theorem zoneByte_quarters (z : Zone) (h : z.quarters ≤ 79) :
    ((zoneByte z &&& 0x07) * 10 + (zoneByte z &&& 0xF0) >>> (4 : UInt8)).toNat = z.quarters := by
  obtain ⟨q, neg⟩ := z
  have h : q ≤ 79 := h
  cases neg with
  | false =>
    interval_cases q <;> rfl
  | true =>
    interval_cases q <;> rfl

theorem timeZoneOffset_zoneByte (z : Zone) (h : z.quarters ≤ 79) {dst : UInt8} (hdst : dst ≤ 2) :
    timeZoneOffset (zoneByte z) dst = z.quarters + 4 * dst.toNat := by
  have hle : dst.toNat ≤ 2 := UInt8.le_iff_toNat_le.mp hdst
  have hfour : (4 : UInt8).toNat = 4 := rfl
  rw [timeZoneOffset, UInt8.toNat_add, zoneByte_quarters z h, UInt8.toNat_mul, hfour]
  omega

theorem zoneByte_sign (z : Zone) (h : z.quarters ≤ 79) : zoneByte z &&& 0x08 = 0 ↔ z.negative = false := by
  obtain ⟨q, neg⟩ := z
  have h : q ≤ 79 := h
  cases neg with
  | false =>
    interval_cases q <;> decide
  | true =>
    interval_cases q <;> decide

theorem leap_iff {y : ℕ} (h : y ≤ 99) : Leap (2000 + y) ↔ y % 4 = 0 := by
  unfold Leap
  omega

/-- The rows of the table are the months of the years that they are used for. -/
theorem monthDays_sum {y m : ℕ} (hy : y ≤ 99) (hm : m ≤ 12) :
    ((atcMonthDayTbl (decide (y % 4 = 0))).take m).sum = daysBeforeMonth (2000 + y) m := by
  by_cases hleap : y % 4 = 0
  · have hL := (leap_iff hy).mpr hleap
    interval_cases m <;> simp [daysBeforeMonth, monthLength, hL, hleap, atcMonthDayTbl]
  · have hL := mt (leap_iff hy).mp hleap
    interval_cases m <;> simp [daysBeforeMonth, monthLength, hL, hleap, atcMonthDayTbl]

theorem monthDays_getD {y m : ℕ} (hy : y ≤ 99) (hm : m < 12) :
    (atcMonthDayTbl (decide (y % 4 = 0))).getD m 0 = monthLength (2000 + y) (m + 1) := by
  by_cases hleap : y % 4 = 0
  · have hL := (leap_iff hy).mpr hleap
    interval_cases m <;> simp [monthLength, hL, hleap, atcMonthDayTbl]
  · have hL := mt (leap_iff hy).mp hleap
    interval_cases m <;> simp [monthLength, hL, hleap, atcMonthDayTbl]

@[simp] theorem atcMonthDayTbl_length (leap : Bool) : (atcMonthDayTbl leap).length = 12 := by
  cases leap <;> rfl

theorem atcMonthDayTbl_sum (leap : Bool) : (atcMonthDayTbl leap).sum = if leap then 366 else 365 := by
  cases leap <;> rfl

/-- The days of a year since 2000. -/
def yearDays (y : ℕ) : ℕ := if y % 4 = 0 then 366 else 365

theorem yearDays_cases (y : ℕ) : y % 4 = 0 ∧ yearDays y = 366 ∨ y % 4 ≠ 0 ∧ yearDays y = 365 := by
  unfold yearDays
  split
  next hleap => exact Or.inl ⟨hleap, rfl⟩
  next hcommon => exact Or.inr ⟨hcommon, rfl⟩

theorem yearDays_le (y : ℕ) : yearDays y ≤ 366 := by
  have hcases := yearDays_cases y
  omega

theorem yearLength_eq {y : ℕ} (hy : y ≤ 99) : yearLength (2000 + y) = yearDays y := by
  unfold yearLength yearDays
  by_cases hleap : y % 4 = 0
  · rw [if_pos ((leap_iff hy).mpr hleap), if_pos hleap]
  · rw [if_neg (mt (leap_iff hy).mp hleap), if_neg hleap]

/-- The months that the loop leaves and the day that it keeps make up the day of the year. -/
theorem leaveMonths_spec (l : List ℕ) (day : ℕ) (hday : 1 ≤ day) :
    (leaveMonths l day).1 ≤ l.length ∧ 1 ≤ (leaveMonths l day).2 ∧
      (l.take (leaveMonths l day).1).sum + (leaveMonths l day).2 = day ∧
      ((leaveMonths l day).1 < l.length → (leaveMonths l day).2 ≤ l.getD (leaveMonths l day).1 0) := by
  induction l generalizing day with
  | nil => simp [leaveMonths, hday]
  | cons len rest ih =>
    by_cases hlong : len < day
    · obtain ⟨hle, hpos, hsum, hfit⟩ := ih (day - len) (by omega)
      rw [leaveMonths, if_pos hlong]
      refine ⟨Nat.succ_le_succ hle, hpos, ?_, ?_⟩
      · rw [List.take_succ_cons, List.sum_cons]
        omega
      · intro hlt
        rw [List.getD_cons_succ]
        exact hfit (Nat.lt_of_succ_lt_succ hlt)
    · rw [leaveMonths, if_neg hlong]
      simp [hday, Nat.le_of_not_lt hlong]

/-- A day behind the last month leaves all of them. -/
theorem leaveMonths_past (l : List ℕ) (day : ℕ) (h : l.sum < day) : (leaveMonths l day).1 = l.length := by
  induction l generalizing day with
  | nil => rfl
  | cons len rest ih =>
    rw [List.sum_cons] at h
    rw [leaveMonths, if_pos (by omega), List.length_cons, ih _ (by omega)]

/-- Minutes up to the start of a year. -/
def startOf (y : ℕ) : ℤ := ((daysBeforeYear (2000 + y) : ℤ) + 1) * 1440

theorem startOf_succ {y : ℕ} (hy : y ≤ 99) : startOf (y + 1) = startOf y + yearDays y * 1440 := by
  have hnext : daysBeforeYear (2000 + (y + 1)) = daysBeforeYear (2000 + y) + yearLength (2000 + y) := rfl
  have hlength := yearLength_eq hy
  unfold startOf
  omega

theorem dayNumber_newYear (y : ℕ) : (Date.mk y 1 1).dayNumber = daysBeforeYear y + 1 := rfl

theorem inCentury_iff (x : ℤ) : InCentury x ↔ startOf 0 ≤ x ∧ x < startOf 100 := by
  unfold InCentury startOf
  rw [dayNumber_newYear, dayNumber_newYear]
  push_cast
  exact Iff.rfl

/-- Minutes inside a year come out as their date and time. -/
theorem fromMinutes_shows {y k : ℕ} (hy : y ≤ 99) (hk : k < yearDays y * 1440) {sec : UInt8}
    (hsec : sec.toNat < 60) :
    Shows (fromMinutes ⟨y, decide (y % 4 = 0), yearMinutes y + k⟩ sec) (startOf y + k) sec.toNat := by
  have hdays : k / 1440 + 1 ≤ yearLength (2000 + y) := by
    rw [yearLength_eq hy]
    omega
  have hshort : k < 366 * 1440 := Nat.lt_of_lt_of_le hk (Nat.mul_le_mul_right _ (yearDays_le y))
  have htime : toUl (((yearMinutes y + k : ℕ) : ℤ) - yearMinutes y) = k := by
    unfold toUl
    omega
  have hday : (k / (60 * 24) + 1) % 2 ^ 16 = k / 1440 + 1 := by omega
  have hrest : toUl ((k : ℤ) - (((k / 1440 + 1 : ℕ) : ℤ) - 1) * 60 * 24) = k % 1440 := by
    unfold toUl
    omega
  obtain ⟨hle, hpos, hsum, hfit⟩ := leaveMonths_spec (atcMonthDayTbl (decide (y % 4 = 0))) (k / 1440 + 1) (by omega)
  rw [atcMonthDayTbl_length] at hle hfit
  have hresult : fromMinutes ⟨y, decide (y % 4 = 0), yearMinutes y + k⟩ sec =
      ⟨UInt8.ofNat y, UInt8.ofNat ((leaveMonths (atcMonthDayTbl (decide (y % 4 = 0))) (k / 1440 + 1)).1 + 1),
        UInt8.ofNat (leaveMonths (atcMonthDayTbl (decide (y % 4 = 0))) (k / 1440 + 1)).2,
        UInt8.ofNat (k % 1440 / 60), UInt8.ofNat (k % 1440 % 60), sec, 0⟩ := by
    unfold fromMinutes
    dsimp only
    rw [htime, hday, hrest]
  rw [hresult]
  generalize leaveMonths (atcMonthDayTbl (decide (y % 4 = 0))) (k / 1440 + 1) = months at hle hpos hsum hfit
  obtain ⟨m, d⟩ := months
  dsimp only at hle hpos hsum hfit ⊢
  rw [monthDays_sum hy hle] at hsum
  have hm : m < 12 := by
    rcases Nat.lt_or_eq_of_le hle with hlt | rfl
    · exact hlt
    · rw [daysBeforeMonth_twelve] at hsum
      omega
  have hd := hfit hm
  rw [monthDays_getD hy hm] at hd
  have hd31 := Nat.le_trans hd (monthLength_le _ _)
  have hbyte : ∀ n : ℕ, n < 256 → (UInt8.ofNat n).toNat = n := by
    intro n hn
    rw [UInt8.toNat_ofNat']
    exact Nat.mod_eq_of_lt hn
  have hshown : shown ⟨UInt8.ofNat y, UInt8.ofNat (m + 1), UInt8.ofNat d, UInt8.ofNat (k % 1440 / 60),
      UInt8.ofNat (k % 1440 % 60), sec, 0⟩ = ⟨⟨2000 + y, m + 1, d⟩, k % 1440 / 60, k % 1440 % 60, sec.toNat⟩ := by
    unfold shown
    dsimp only
    rw [hbyte y (by omega), hbyte (m + 1) (by omega), hbyte d (by omega), hbyte (k % 1440 / 60) (by omega),
      hbyte (k % 1440 % 60) (by omega)]
  constructor
  · rw [hshown]
    refine ⟨⟨Nat.succ_pos m, hm, hpos, hd⟩, ?_, ?_, hsec⟩
    · show k % 1440 / 60 < 24
      omega
    · show k % 1440 % 60 < 60
      omega
  · rw [hshown]
    show ((daysBeforeYear (2000 + y) + (daysBeforeMonth (2000 + y) m + d) : ℕ) : ℤ) * 1440 + (k % 1440 / 60 : ℕ) * 60 +
      (k % 1440 % 60 : ℕ) = startOf y + k
    unfold startOf
    omega
  · rw [hshown]

/-- A day of the year behind the last month comes out as month 13. -/
theorem fromMinutes_past {y time : ℕ} {leap : Bool} {sec : UInt8}
    (h : (if leap then 366 else 365) < (toUl ((time : ℤ) - yearMinutes y) / (60 * 24) + 1) % 2 ^ 16)
    (minutes : ℤ) (second : ℕ) : ¬ Shows (fromMinutes ⟨y, leap, time⟩ sec) minutes second := by
  intro hshows
  have hmonth := leaveMonths_past (atcMonthDayTbl leap) _ (by rw [atcMonthDayTbl_sum]; exact h)
  have hthirteen : (shown (fromMinutes ⟨y, leap, time⟩ sec)).date.month = 13 := by
    show (UInt8.ofNat (_ + 1)).toNat = 13
    rw [hmonth, atcMonthDayTbl_length]
    rfl
  have hle := hshows.valid.1.2.1
  rw [hthirteen] at hle
  exact absurd hle (by decide)

/-- Two times that one result shows are the same. -/
theorem Shows.unique {t : TimeZoneTime} {a b : ℤ} {second second' : ℕ} (h : Shows t a second)
    (h' : Shows t b second') : a = b := h.minutes.symm.trans h'.minutes

section
variable {utc : Civil} (hutc : utc.Valid) (hfirst : 2000 ≤ utc.date.year) (hlast : utc.date.year ≤ 2099)
include hutc hfirst hlast

theorem yearMinute_lt :
    utc.yearMinute < yearDays (utc.date.year - 2000) * 1440 := by
  obtain ⟨hdate, hhour, hminute, -⟩ := hutc
  have hordinal := hdate.ordinal_le
  have hpos := hdate.ordinal_pos
  rw [show utc.date.year = 2000 + (utc.date.year - 2000) by omega, yearLength_eq (by omega)] at hordinal
  unfold Civil.yearMinute
  omega

theorem toMinutes_encoded (z : Zone) :
    toMinutes (encoded utc z) = ⟨utc.date.year - 2000, decide ((utc.date.year - 2000) % 4 = 0),
      yearMinutes (utc.date.year - 2000) + utc.yearMinute⟩ := by
  have hlt := yearMinute_lt hutc hfirst hlast
  obtain ⟨⟨hm1, hm12, hd1, hd⟩, hhour, hminute, hsecond⟩ := hutc
  have hd31 := Nat.le_trans hd (monthLength_le _ _)
  have hsum := monthDays_sum (show utc.date.year - 2000 ≤ 99 by omega) (show utc.date.month - 1 ≤ 12 by omega)
  have hyear : 2000 + (utc.date.year - 2000) = utc.date.year := by omega
  rw [hyear] at hsum
  unfold toMinutes encoded
  dsimp only
  rw [revertHex_revertedBcd (by omega), revertHex_revertedBcd (by omega), revertHex_revertedBcd (by omega),
    revertHex_revertedBcd (by omega), revertHex_revertedBcd (by omega), hsum]
  apply congrArg (Reckoning.mk _ _)
  have hshort : utc.yearMinute < 366 * 1440 := Nat.lt_of_lt_of_le hlt (Nat.mul_le_mul_right _ (yearDays_le _))
  have hordinal : utc.date.ordinal = daysBeforeMonth utc.date.year (utc.date.month - 1) + utc.date.day := rfl
  unfold Civil.yearMinute at hshort ⊢
  rw [hordinal] at hshort ⊢
  unfold toUl yearMinutes
  omega

theorem minutes_eq : utc.minutes = startOf (utc.date.year - 2000) + utc.yearMinute := by
  have hpos := hutc.1.ordinal_pos
  have hyear : 2000 + (utc.date.year - 2000) = utc.date.year := by omega
  have hday : utc.date.dayNumber = daysBeforeYear utc.date.year + utc.date.ordinal := rfl
  unfold Civil.minutes startOf Civil.yearMinute
  rw [hyear, hday]
  omega

end

section
variable {y k offset : ℕ} (hy : y ≤ 99) (hk : k < yearDays y * 1440) (hoffset : offset ≤ 87)
include hy hk hoffset

omit hk in
theorem forwards_stay (h : k + offset * 15 ≤ 365 * 1440) (leap : Bool) :
    forwards ⟨y, leap, yearMinutes y + k⟩ offset = ⟨y, leap, yearMinutes y + (k + offset * 15)⟩ := by
  have htime : toUl (((yearMinutes y + k : ℕ) : ℤ) + offset * 15) = yearMinutes y + (k + offset * 15) := by
    unfold toUl yearMinutes
    omega
  unfold forwards
  dsimp only
  rw [htime, if_neg]
  unfold yearMinutes
  omega

/-- The patched day makes the minutes count from the next year's start. -/
theorem forwards_leave (h : 365 * 1440 < k + offset * 15) :
    forwards ⟨y, decide (y % 4 = 0), yearMinutes y + k⟩ offset = ⟨y + 1, decide ((y + 1) % 4 = 0),
      toUl (yearMinutes (y + 1) + (k + offset * 15 : ℕ) - yearDays y * 1440)⟩ := by
  have hdays := yearDays_cases y
  have htime : toUl (((yearMinutes y + k : ℕ) : ℤ) + offset * 15) = yearMinutes y + (k + offset * 15) := by
    unfold toUl yearMinutes
    omega
  unfold forwards
  dsimp only
  rw [htime, if_pos (by unfold yearMinutes; omega)]
  by_cases hleap : y % 4 = 0
  · have hnext : ¬ (y + 1) % 4 = 0 := by omega
    rw [if_neg hnext, if_pos (decide_eq_true hleap), decide_eq_false hnext]
    apply congrArg (Reckoning.mk _ _)
    unfold toUl yearMinutes
    omega
  · by_cases hnext : (y + 1) % 4 = 0
    · rw [if_pos hnext, decide_eq_true hnext]
      apply congrArg (Reckoning.mk _ _)
      unfold toUl yearMinutes
      omega
    · have hsame : (y + 1) / 4 = y / 4 := by omega
      rw [if_neg hnext, if_neg (by simpa using hleap), decide_eq_false hleap, decide_eq_false hnext]
      apply congrArg (Reckoning.mk _ _)
      unfold toUl yearMinutes
      omega

theorem backwards_stay (h : offset * 15 ≤ k) (leap : Bool) :
    backwards ⟨y, leap, yearMinutes y + k⟩ offset = ⟨y, leap, yearMinutes y + (k - offset * 15)⟩ := by
  have hdays := yearDays_cases y
  have htime : toUl (((yearMinutes y + k : ℕ) : ℤ) - offset * 15) = yearMinutes y + (k - offset * 15) := by
    unfold toUl yearMinutes
    omega
  unfold backwards
  dsimp only
  rw [htime, if_neg]
  omega

omit hk in
theorem backwards_leave (h : k < offset * 15) (hpos : 1 ≤ y) :
    backwards ⟨y, decide (y % 4 = 0), yearMinutes y + k⟩ offset = ⟨y - 1, decide ((y - 1) % 4 = 0),
      yearMinutes (y - 1) + (k + yearDays (y - 1) * 1440 - offset * 15)⟩ := by
  have hdays := yearDays_cases y
  have hprevDays := yearDays_cases (y - 1)
  have htime : toUl (((yearMinutes y + k : ℕ) : ℤ) - offset * 15) = yearMinutes y + k - offset * 15 := by
    unfold toUl yearMinutes
    omega
  unfold backwards
  dsimp only
  rw [htime, if_pos (by unfold yearMinutes; omega)]
  by_cases hprev : (y - 1) % 4 = 0
  · rw [if_pos hprev, decide_eq_true hprev]
    apply congrArg (Reckoning.mk _ _)
    unfold toUl yearMinutes
    omega
  · by_cases hleap : y % 4 = 0
    · rw [if_neg hprev, if_pos (decide_eq_true hleap), decide_eq_false hprev]
      apply congrArg (Reckoning.mk _ _)
      unfold toUl yearMinutes
      omega
    · rw [if_neg hprev, if_neg (by simpa using hleap), decide_eq_false hleap, decide_eq_false hprev]
      apply congrArg (Reckoning.mk _ _)
      unfold yearMinutes
      omega

/-- Going forwards shows the later time, except for the first minute after a common year and
for the last day of a leap year after its first minute. -/
theorem forwards_shows {sec : UInt8} (hsec : sec.toNat < 60)
    (hend : startOf y + (k + offset * 15 : ℕ) < startOf 100)
    (hcommon : y % 4 ≠ 0 → k + offset * 15 ≠ 365 * 1440)
    (hleap : y % 4 = 0 → ¬ (365 * 1440 < k + offset * 15 ∧ k + offset * 15 < 366 * 1440)) :
    Shows (fromMinutes (forwards ⟨y, decide (y % 4 = 0), yearMinutes y + k⟩ offset) sec)
      (startOf y + (k + offset * 15 : ℕ)) sec.toNat := by
  have hdays := yearDays_cases y
  by_cases hstay : k + offset * 15 ≤ 365 * 1440
  · rw [forwards_stay hy hoffset hstay]
    apply fromMinutes_shows hy _ hsec
    omega
  · have hnext := startOf_succ hy
    have hyear : y + 1 ≤ 99 := by
      rcases Nat.lt_or_eq_of_le hy with hlt | rfl
      · exact hlt
      · have hlast : startOf (99 + 1) = startOf 100 := rfl
        omega
    have hnextDays := yearDays_cases (y + 1)
    have hfull : yearDays y * 1440 ≤ k + offset * 15 := by omega
    have hover : k + offset * 15 < yearDays y * 1440 + 1440 := by omega
    rw [forwards_leave hy hk hoffset (Nat.lt_of_not_le hstay)]
    have hminutes : toUl (yearMinutes (y + 1) + (k + offset * 15 : ℕ) - yearDays y * 1440) =
        yearMinutes (y + 1) + (k + offset * 15 - yearDays y * 1440) := by
      unfold toUl yearMinutes
      omega
    rw [hminutes]
    have hshows := @fromMinutes_shows (y + 1) (k + offset * 15 - yearDays y * 1440) hyear
      (by omega) sec hsec
    have htotal : startOf (y + 1) + ((k + offset * 15 - yearDays y * 1440 : ℕ) : ℤ) =
        startOf y + (k + offset * 15 : ℕ) := by
      rw [hnext]
      omega
    rw [htotal] at hshows
    exact hshows

theorem forwards_fails {sec : UInt8} (h : y % 4 ≠ 0 ∧ k + offset * 15 = 365 * 1440 ∨
      y % 4 = 0 ∧ 365 * 1440 < k + offset * 15 ∧ k + offset * 15 < 366 * 1440) (minutes : ℤ) (second : ℕ) :
    ¬ Shows (fromMinutes (forwards ⟨y, decide (y % 4 = 0), yearMinutes y + k⟩ offset) sec) minutes second := by
  rcases h with ⟨hcommon, hend⟩ | ⟨hleap, hlast, hend⟩
  · rw [forwards_stay hy hoffset (Nat.le_of_eq hend), hend, decide_eq_false hcommon]
    apply fromMinutes_past
    rw [if_neg Bool.false_ne_true]
    unfold toUl
    omega
  · have hnext : ¬ (y + 1) % 4 = 0 := by omega
    have hdays := yearDays_cases y
    have hminutes : toUl (yearMinutes (y + 1) + (k + offset * 15 : ℕ) - yearDays y * 1440) =
        yearMinutes (y + 1) + (k + offset * 15) - 366 * 1440 := by
      unfold toUl yearMinutes
      omega
    have hwrapped : toUl (((yearMinutes (y + 1) + (k + offset * 15) - 366 * 1440 : ℕ) : ℤ) - yearMinutes (y + 1)) =
        2 ^ 32 + (k + offset * 15) - 366 * 1440 := by
      unfold toUl yearMinutes
      omega
    rw [forwards_leave hy hk hoffset hlast, decide_eq_false hnext, hminutes]
    apply fromMinutes_past
    rw [if_neg Bool.false_ne_true, hwrapped]
    omega

/-- Going backwards shows the earlier time unless that lies before the year 2000. -/
theorem backwards_shows {sec : UInt8} (hsec : sec.toNat < 60) (hbegin : startOf 0 ≤ startOf y + k - offset * 15) :
    Shows (fromMinutes (backwards ⟨y, decide (y % 4 = 0), yearMinutes y + k⟩ offset) sec)
      (startOf y + k - offset * 15) sec.toNat := by
  by_cases hstay : offset * 15 ≤ k
  · rw [backwards_stay hy hk hoffset hstay]
    have hshows := @fromMinutes_shows y (k - offset * 15) hy (by omega) sec hsec
    have htotal : startOf y + ((k - offset * 15 : ℕ) : ℤ) = startOf y + k - offset * 15 := by omega
    rw [htotal] at hshows
    exact hshows
  · have hpos : 1 ≤ y := by
      apply Nat.pos_of_ne_zero
      intro hzero
      rw [hzero] at hbegin
      omega
    rw [backwards_leave hy hoffset (Nat.lt_of_not_le hstay) hpos]
    have hprev := @startOf_succ (y - 1) (by omega)
    have hprevDays := yearDays_cases (y - 1)
    rw [Nat.sub_add_cancel hpos] at hprev
    have hshows := @fromMinutes_shows (y - 1)
      (k + yearDays (y - 1) * 1440 - offset * 15) (by omega) (by omega) sec hsec
    have htotal : startOf (y - 1) + ((k + yearDays (y - 1) * 1440 - offset * 15 : ℕ) : ℤ) =
        startOf y + k - offset * 15 := by
      rw [hprev]
      omega
    rw [htotal] at hshows
    exact hshows

theorem backwards_fails {sec : UInt8} (h : startOf y + k - offset * 15 < startOf 0) (minutes : ℤ) (second : ℕ) :
    ¬ Shows (fromMinutes (backwards ⟨y, decide (y % 4 = 0), yearMinutes y + k⟩ offset) sec) minutes second := by
  have hzero : y = 0 := by
    by_contra hne
    have hprev := @startOf_succ (y - 1) (by omega)
    rw [Nat.sub_add_cancel (Nat.pos_of_ne_zero hne)] at hprev
    have hmono : startOf 0 ≤ startOf (y - 1) := by
      unfold startOf
      have hle := @daysBeforeYear_le (2000 + 0) (2000 + (y - 1)) (by omega)
      omega
    have hprevDays := yearDays_cases (y - 1)
    omega
  subst hzero
  have hshort : k < offset * 15 := by
    clear hk
    generalize startOf 0 = first at h
    omega
  have hzero : yearMinutes 0 = 0 := rfl
  unfold backwards
  dsimp only
  rw [hzero, if_neg (Nat.not_lt_zero _)]
  apply fromMinutes_past
  rw [if_pos (by decide), hzero]
  unfold toUl
  omega

end

section
variable {utc : Civil} (hutc : utc.Valid) (hfirst : 2000 ≤ utc.date.year) (hlast : utc.date.year ≤ 2099)
  {z : Zone} (hz : z.quarters ≤ 79) {dst : UInt8} (hdst : dst ≤ 2)
include hutc hfirst hlast hz hdst

theorem convertTimeZone_eq :
    atcApConvertTimeZone (encoded utc z) dst = fromMinutes
      ((if z.negative then backwards else forwards)
        ⟨utc.date.year - 2000, decide ((utc.date.year - 2000) % 4 = 0),
          yearMinutes (utc.date.year - 2000) + utc.yearMinute⟩ (z.quarters + 4 * dst.toNat))
      (atcApRevertHexToDecimal (revertedBcd utc.second)) := by
  have hoffset : timeZoneOffset (encoded utc z).zone dst = z.quarters + 4 * dst.toNat := timeZoneOffset_zoneByte z hz hdst
  have hsign : (encoded utc z).zone &&& 0x08 = 0 ↔ z.negative = false := zoneByte_sign z hz
  unfold atcApConvertTimeZone
  dsimp only
  rw [hoffset, toMinutes_encoded hutc hfirst hlast z]
  by_cases hneg : z.negative
  · have hbit : ¬ (encoded utc z).zone &&& 0x08 = 0 := by
      rw [hsign, hneg]
      exact Bool.false_ne_true.symm
    rw [if_neg hbit, if_pos hneg]
    rfl
  · rw [if_pos (hsign.mpr (Bool.not_eq_true _ ▸ hneg)), if_neg hneg]
    rfl

end

/-- The conversion shows universal time with the offset and daylight saving exactly in the
cases that it handles. -/
theorem convertTimeZone_iff (utc : Civil) (z : Zone) (dst : UInt8) (hutc : utc.Valid)
    (hfirst : 2000 ≤ utc.date.year) (hlast : utc.date.year ≤ 2099) (hz : z.quarters ≤ 79) (hdst : dst ≤ 2)
    (hcentury : InCentury (localMinutes utc z dst.toNat)) :
    Shows (atcApConvertTimeZone (encoded utc z) dst) (localMinutes utc z dst.toNat) utc.second ↔
      Handled utc z dst.toNat := by
  have hy : utc.date.year - 2000 ≤ 99 := by omega
  have hk := yearMinute_lt hutc hfirst hlast
  have hle : dst.toNat ≤ 2 := UInt8.le_iff_toNat_le.mp hdst
  have hoffset : z.quarters + 4 * dst.toNat ≤ 87 := by omega
  have hdecoded : (atcApRevertHexToDecimal (revertedBcd utc.second)).toNat = utc.second :=
    revertHex_revertedBcd (Nat.lt_trans hutc.2.2.2 (by decide))
  have hsec : (atcApRevertHexToDecimal (revertedBcd utc.second)).toNat < 60 := by
    rw [hdecoded]
    exact hutc.2.2.2
  have hleap : utc.date.year % 4 = 0 ↔ (utc.date.year - 2000) % 4 = 0 := by omega
  rw [convertTimeZone_eq hutc hfirst hlast hz hdst]
  unfold Handled
  unfold localMinutes at hcentury ⊢
  rw [minutes_eq hutc hfirst hlast] at hcentury ⊢
  rw [inCentury_iff] at hcentury
  obtain ⟨hbegin, hend⟩ := hcentury
  by_cases hneg : z.negative
  · rw [if_pos hneg] at hbegin hend ⊢
    rw [if_pos hneg, if_pos hneg]
    constructor
    · intro hshows
      by_cases hbefore : startOf (utc.date.year - 2000) + (utc.yearMinute : ℤ) -
          ((z.quarters + 4 * dst.toNat : ℕ) : ℤ) * 15 < startOf 0
      · exact absurd hshows (backwards_fails hy hk hoffset hbefore _ _)
      · have hcode := backwards_shows hy hk hoffset hsec (Int.not_lt.mp hbefore)
        have hsame := hshows.unique hcode
        omega
    · intro hzero
      have hlocal : startOf (utc.date.year - 2000) + (utc.yearMinute : ℤ) + -15 * z.quarters + 60 * dst.toNat =
          startOf (utc.date.year - 2000) + utc.yearMinute - ((z.quarters + 4 * dst.toNat : ℕ) : ℤ) * 15 := by
        omega
      rw [hlocal] at hbegin ⊢
      have hshows := backwards_shows hy hk hoffset hsec hbegin
      rw [hdecoded] at hshows
      exact hshows
  · rw [if_neg hneg] at hbegin hend ⊢
    rw [if_neg hneg, if_neg hneg]
    have hlocal : startOf (utc.date.year - 2000) + (utc.yearMinute : ℤ) + 15 * z.quarters + 60 * dst.toNat =
        startOf (utc.date.year - 2000) + (utc.yearMinute + (z.quarters + 4 * dst.toNat) * 15 : ℕ) := by
      omega
    rw [hlocal] at hend ⊢
    constructor
    · intro hshows
      refine ⟨fun hcommon hmidnight => ?_, fun hl hday => ?_⟩
      · exact forwards_fails hy hk hoffset (Or.inl ⟨mt hleap.mpr hcommon, by omega⟩) _ _ hshows
      · exact forwards_fails hy hk hoffset (Or.inr ⟨hleap.mp hl, by omega⟩) _ _ hshows
    · rintro ⟨hcommon, hday⟩
      have hshows := forwards_shows hy hk hoffset hsec hend
        (fun hne heq => hcommon (mt hleap.mp hne) (by omega)) (fun hl hin => hday (hleap.mpr hl) (by omega))
      rw [hdecoded] at hshows
      exact hshows

theorem inCentury_of_before {d : Date} (hd : d.Valid) (hfirst : (Date.mk 2000 1 1).Before d)
    (hlast : d.Before (Date.mk 2100 1 1)) {minutes : ℤ} (h0 : 0 ≤ minutes) (h : minutes < 1440) :
    InCentury (d.dayNumber * 1440 + minutes) := by
  have hstart := Date.dayNumber_lt_of_before (by decide) hd hfirst
  have hend := Date.dayNumber_lt_of_before hd (by decide) hlast
  unfold InCentury
  omega

/-- 18:30 in Beijing. -/
theorem convertTimeZone_iff_beijing :
    Shows (atcApConvertTimeZone (encoded ⟨⟨2024, 6, 15⟩, 10, 30, 0⟩ ⟨32, false⟩) 0)
      (localMinutes ⟨⟨2024, 6, 15⟩, 10, 30, 0⟩ ⟨32, false⟩ 0) 0 := by
  have hcentury : InCentury (localMinutes ⟨⟨2024, 6, 15⟩, 10, 30, 0⟩ ⟨32, false⟩ 0) := by
    have hlocal : localMinutes ⟨⟨2024, 6, 15⟩, 10, 30, 0⟩ ⟨32, false⟩ 0 =
        (Date.mk 2024 6 15).dayNumber * 1440 + 1110 := by
      decide +kernel
    rw [hlocal]
    exact inCentury_of_before (by decide) (Or.inl (by decide)) (Or.inl (by decide)) (by decide) (by decide)
  refine (convertTimeZone_iff ⟨⟨2024, 6, 15⟩, 10, 30, 0⟩ ⟨32, false⟩ 0 ⟨by decide, by decide, by decide, by decide⟩
    (by decide) (by decide) (by decide) (by decide) hcentury).mpr ?_
  unfold Handled
  rw [if_neg Bool.false_ne_true]
  decide

/-- On New Year's Eve of a leap year the date is lost, also without any offset. -/
theorem not_convertTimeZone : ¬ ∀ (utc : Civil) (z : Zone) (dst : UInt8), utc.Valid → 2000 ≤ utc.date.year →
    utc.date.year ≤ 2099 → z.quarters ≤ 79 → dst ≤ 2 → InCentury (localMinutes utc z dst.toNat) →
    Shows (atcApConvertTimeZone (encoded utc z) dst) (localMinutes utc z dst.toNat) utc.second := by
  intro h
  have hvalid : (⟨⟨2024, 12, 31⟩, 12, 0, 0⟩ : Civil).Valid := ⟨by decide, by decide, by decide, by decide⟩
  have hcentury : InCentury (localMinutes ⟨⟨2024, 12, 31⟩, 12, 0, 0⟩ ⟨0, false⟩ (0 : UInt8).toNat) := by
    have hlocal : localMinutes ⟨⟨2024, 12, 31⟩, 12, 0, 0⟩ ⟨0, false⟩ (0 : UInt8).toNat =
        (Date.mk 2024 12 31).dayNumber * 1440 + 720 := by
      decide +kernel
    rw [hlocal]
    exact inCentury_of_before (by decide) (Or.inl (by decide)) (Or.inl (by decide)) (by decide) (by decide)
  have hshows := h ⟨⟨2024, 12, 31⟩, 12, 0, 0⟩ ⟨0, false⟩ 0 hvalid (by decide) (by decide) (by decide) (by decide) hcentury
  rw [convertTimeZone_eq hvalid (by decide) (by decide) (by decide) (by decide), if_neg Bool.false_ne_true] at hshows
  have hminute : (⟨⟨2024, 12, 31⟩, 12, 0, 0⟩ : Civil).yearMinute = 365 * 1440 + 720 := by decide
  rw [hminute] at hshows
  exact forwards_fails (by decide) (by decide) (by decide) (Or.inr (by decide)) _ _ hshows

end NbiotXY1100.NetworkTime
