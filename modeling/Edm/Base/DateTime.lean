import Mathlib
import Edm.Base.Calendar

/-!
# Base — DateTime

`DateTime::stepDateTime(nYear, nMonth, nDay)`.  A `DateTime` is the second and the microsecond of
the local time; `localtime_r` and `mktime` convert between the standard time and a date of the
Gregorian calendar, in a zone with a fixed offset (`Zone`).

The days are added first, then the years and the months, and `smartAdjustDate` brings what is left
of the days into the month behind.

* `steps_iff`: exactly when a `DateTime` is moved to the date that is meant.
* **Dates are adjusted and stepped** but for the months and microseconds that are left as they are
  (`calendar_iff`).
-/

namespace Edm.Base
open Support Support.Calendar

/-! ### The calendar of the system -/

/-- `struct tm`; `tm_isdst` is -1. -/
@[ext]
structure Tm where
  tmYear : Int
  tmMon : Int
  tmMday : Int
  tmHour : Int
  tmMin : Int
  tmSec : Int
  deriving DecidableEq

def isGregorianLeap (nYear : Int) : Bool :=
  (nYear % 4 == 0 && nYear % 100 != 0) || nYear % 400 == 0

/-- The days of the months of the Gregorian calendar. -/
def gregorianLen (k : Int) : Int := DateTime.monthLen isGregorianLeap k

/-- The first of January 1970. -/
def epoch : Int := start gregorianLen (12 * 1970)

theorem gregorianLen_pos (k : Int) : 0 < gregorianLen k := DateTime.monthLen_pos isGregorianLeap k

/-- The month of a date, numbered from January of the year 0 on. -/
def Tm.month (tm : Tm) : Int := 12 * (tm.tmYear + 1900) + tm.tmMon

/-- A zone: `timezone`, the seconds the local time is behind, `localtime_r` and `mktime`. -/
structure Zone where
  timezone : Int
  localtime : Int → Tm
  mktime : Tm → Int
  mon : ∀ t, 0 ≤ (localtime t).tmMon ∧ (localtime t).tmMon < 12
  date : ∀ t, InMonth gregorianLen (epoch + (t - timezone) / 86400) (localtime t).month
    (localtime t).tmMday
  hour : ∀ t, (localtime t).tmHour = (t - timezone) % 86400 / 3600
  min : ∀ t, (localtime t).tmMin = (t - timezone) % 3600 / 60
  sec : ∀ t, (localtime t).tmSec = (t - timezone) % 60
  mktime_localtime : ∀ t, mktime (localtime t) = t

/-- The month and the day of the `n`-th day from 1970 on. -/
def dateOf (n : Int) : Int × Int := settle gregorianLen_pos (12 * 1970) (n + 1)

theorem dateOf_spec (n : Int) : InMonth gregorianLen (epoch + n) (dateOf n).1 (dateOf n).2 := by
  have h := settle_spec gregorianLen_pos (12 * 1970) (n + 1)
  have hcount : start gregorianLen (12 * 1970) + (n + 1) - 1 = epoch + n := by
    rw [epoch]
    omega
  rwa [hcount] at h

/-- The zone of a `timezone`. -/
def fixedZone (timezone : Int) : Zone where
  timezone := timezone
  localtime t :=
    { tmYear := (dateOf ((t - timezone) / 86400)).1 / 12 - 1900
      tmMon := (dateOf ((t - timezone) / 86400)).1 % 12
      tmMday := (dateOf ((t - timezone) / 86400)).2
      tmHour := (t - timezone) % 86400 / 3600
      tmMin := (t - timezone) % 3600 / 60
      tmSec := (t - timezone) % 60 }
  mktime tm := (start gregorianLen tm.month + tm.tmMday - 1 - epoch) * 86400 + tm.tmHour * 3600
    + tm.tmMin * 60 + tm.tmSec + timezone
  mon t := by
    dsimp only
    omega
  date t := by
    have hmonth : ∀ k : Int, 12 * (k / 12 - 1900 + 1900) + k % 12 = k := fun k => by omega
    rw [Tm.month, hmonth]
    exact dateOf_spec _
  hour _ := rfl
  min _ := rfl
  sec _ := rfl
  mktime_localtime t := by
    have hmonth : ∀ k : Int, 12 * (k / 12 - 1900 + 1900) + k % 12 = k := fun k => by omega
    have hcount := (dateOf_spec ((t - timezone) / 86400)).count
    dsimp only [Tm.month]
    rw [hmonth, hcount]
    omega

/-- `DateTime`. -/
structure DateTime where
  nLocalZoneSecond : Int
  nLocalZoneMicroSecond : Int
  deriving DecidableEq

namespace DateTime

/-! ### The code -/

def getStandardTime (Z : Zone) (dt : DateTime) : Int := dt.nLocalZoneSecond + Z.timezone

/-- `setStandardTime`. -/
def setStandardTime (Z : Zone) (dt : DateTime) (tDateTime : Int) : DateTime :=
  { dt with nLocalZoneSecond := tDateTime - Z.timezone }

def isValidDate (nYear nMonth nDay : Int) : Bool :=
  if nYear < 1970 ∨ nYear > 2038 ∨ nMonth < 1 ∨ nMonth > 12 ∨ nDay < 1 then false
  else (getDayOfMonth (isLeapYear nYear) nMonth).any fun n => decide (nDay ≤ n)

def isValidTime (nHour nMinute nSecond : Int) : Bool :=
  nHour ≥ 0 && nHour < 24 && nMinute ≥ 0 && nMinute < 60 && nSecond ≥ 0 && nSecond < 60

def isValidFractionTime (nMilli nMicro : Int) : Bool :=
  nMilli ≥ 0 && nMilli < 1000 && nMicro ≥ 0 && nMicro < 1000

/-- `setFractionTime`. -/
def setFractionTime (dt : DateTime) (nMilli nMicro : Int) : Option DateTime :=
  if isValidFractionTime nMilli nMicro then
    some { dt with nLocalZoneMicroSecond := nMilli * 1000 + nMicro }
  else none

def getFractionTime (dt : DateTime) : Int × Int :=
  (dt.nLocalZoneMicroSecond.tdiv 1000, dt.nLocalZoneMicroSecond.tmod 1000)

/-- `setDateTime`, of the date and time that `tm` has. -/
def setDateTime (Z : Zone) (dt : DateTime) (tm : Tm) (nMilli nMicro : Int) : Option DateTime :=
  if isValidDate (tm.tmYear + 1900) (tm.tmMon + 1) tm.tmMday
      && isValidTime tm.tmHour tm.tmMin tm.tmSec && isValidFractionTime nMilli nMicro then
    setFractionTime (setStandardTime Z dt (Z.mktime tm)) nMilli nMicro
  else none

/-- `setDate`. -/
def setDate (Z : Zone) (dt : DateTime) (nYear nMonth nDay : Int) : Option DateTime :=
  let tm := Z.localtime (getStandardTime Z dt)
  let p := getFractionTime dt
  setDateTime Z dt { tm with tmYear := nYear - 1900, tmMon := nMonth - 1, tmMday := nDay } p.1 p.2

/-- `getDate`. -/
def getDate (Z : Zone) (dt : DateTime) : Int × Int × Int :=
  let tm := Z.localtime (getStandardTime Z dt)
  (tm.tmYear + 1900, tm.tmMon + 1, tm.tmMday)

/-- `stepDateTime(nSecond, nMicroSecond)`. -/
def stepSeconds (dt : DateTime) (nSecond nMicroSecond : Int) : DateTime :=
  let p := smartAdjustTime id (dt.nLocalZoneSecond + nSecond)
    (dt.nLocalZoneMicroSecond + nMicroSecond) 1000000
  ⟨p.1, p.2⟩

/-- `stepDateTime(nDay, 0, 0, 0)`. -/
def stepDays (dt : DateTime) (nDay : Int) : DateTime := stepSeconds dt (nDay * 86400) 0

/-- `stepDateTime(nYear, nMonth, nDay)`. -/
def stepDateTime (Z : Zone) (dt : DateTime) (nYear nMonth nDay : Int) : Option DateTime :=
  let dt := stepDays dt nDay
  if nYear = 0 ∧ nMonth = 0 then some dt
  else
    let p := getDate Z dt
    (smartAdjustDate (p.1 + nYear) (p.2.1 + nMonth) p.2.2).bind fun q =>
      setDate Z dt q.1 q.2.1 q.2.2

/-! ### What is meant -/

/-- The microseconds of a day. -/
def dayMicros : Int := 86400 * 1000000

/-- The local time in microseconds, from 1970 on. -/
def total (dt : DateTime) : Int := dt.nLocalZoneSecond * 1000000 + dt.nLocalZoneMicroSecond

/-- A step: the `DateTime` and the three numbers, the date `nDay` days later, which is the day `day`
of the month `month`, and the date that is meant, which lies between 1970 and 2038. -/
structure Step where
  zone : Zone
  dt : DateTime
  nYear : Int
  nMonth : Int
  nDay : Int
  month : Int
  day : Int
  date : InMonth gregorianLen (epoch + (total dt / dayMicros + nDay)) month day
  first : epoch ≤ start gregorianLen (month + 12 * nYear + nMonth) + (day - 1)
  last : start gregorianLen (month + 12 * nYear + nMonth) + (day - 1)
    < start gregorianLen (12 * 2039)

namespace Step

/-- The day that is meant, from 1970 on: it lies behind the first of a month that is so many years
and months later. -/
def target (s : Step) : Int :=
  start gregorianLen (s.month + 12 * s.nYear + s.nMonth) + (s.day - 1) - epoch

/-- The date is moved to this day, and the time of day is what it was. -/
def Steps (s : Step) : Prop :=
  ∃ dt', stepDateTime s.zone s.dt s.nYear s.nMonth s.nDay = some dt'
    ∧ total dt' = s.target * dayMicros + total s.dt % dayMicros

/-- A number of microseconds that is adjusted to a whole second. -/
def WholeSecond (u : Int) : Prop := u = 1000000 ∨ (u < 0 ∧ u % 1000000 = 0)

instance (u : Int) : Decidable (WholeSecond u) := inferInstanceAs (Decidable (_ ∨ _))

/-! ### The days -/

theorem stepDays_spec (dt : DateTime) (d : Int) :
    total (stepDays dt d) = total dt + d * dayMicros
      ∧ 0 ≤ (stepDays dt d).nLocalZoneMicroSecond
      ∧ (stepDays dt d).nLocalZoneMicroSecond ≤ 1000000
      ∧ ((stepDays dt d).nLocalZoneMicroSecond = 1000000
        ↔ WholeSecond dt.nLocalZoneMicroSecond) := by
  obtain ⟨s, u⟩ := dt
  have hunit : (0 : Int) < 1000000 := by decide
  rw [stepDays, stepSeconds]
  dsimp only
  rw [Int.add_zero]
  rcases Int.lt_or_le 1000000 u with hcarry | hle
  · rw [smartAdjustTime_carry hcarry hunit]
    simp only [total, dayMicros, WholeSecond]
    omega
  · rcases Int.lt_or_le u 0 with hneg | hnonneg
    · rw [smartAdjustTime_borrow hneg hunit]
      simp only [total, dayMicros, WholeSecond, id]
      omega
    · rw [smartAdjustTime_keep hnonneg hle]
      simp only [total, dayMicros, WholeSecond]
      omega

/-! ### The months -/

/-- A day of a month, counted from another month on, is in that month or in the next. -/
theorem settle_short {len : Int → Int} (hlen : ∀ k, 0 < len k) {k d : Int} (h₁ : 1 ≤ d)
    (h₂ : d ≤ len k + len (k + 1)) :
    settle hlen k d = if d ≤ len k then (k, d) else (k + 1, d - len k) := by
  rw [settle]
  split
  next h =>
    rw [settle, if_neg (by omega), if_neg (by omega), if_neg (by omega)]
  next h =>
    rw [if_neg (by omega), if_pos (by omega)]

/-- From 1752 on, `isLeapYear` is the rule of the Gregorian calendar. -/
theorem monthLen_eq {k : Int} (h : 12 * 1752 ≤ k) :
    monthLen isLeapYear k = gregorianLen k := by
  have hyear : ¬ yearOf k < 1752 := by
    rw [yearOf]
    omega
  rw [gregorianLen, monthLen, monthLen, isLeapYear, if_neg hyear]
  rfl

theorem settle_gregorian {k d : Int} (hk : 12 * 1752 ≤ k) (h₁ : 1 ≤ d) (h₂ : d ≤ 31) :
    settle (monthLen_pos isLeapYear) k d = settle gregorianLen_pos k d := by
  have hleap := monthLen_range isLeapYear
  have hgreg : ∀ k, 28 ≤ gregorianLen k := fun k => (monthLen_range isGregorianLeap k).1
  rw [settle_short _ h₁ (by have := hleap k; have := hleap (k + 1); omega),
    settle_short _ h₁ (by have := hgreg k; have := hgreg (k + 1); omega), monthLen_eq hk]

/-- The day that is meant is in its month or in the next one, and between 1970 and 2038. -/
theorem settle_target (s : Step) :
    InMonth gregorianLen (epoch + s.target)
      (settle gregorianLen_pos (s.month + 12 * s.nYear + s.nMonth) s.day).1
      (settle gregorianLen_pos (s.month + 12 * s.nYear + s.nMonth) s.day).2 := by
  have h := settle_spec gregorianLen_pos (s.month + 12 * s.nYear + s.nMonth) s.day
  have hcount : epoch + s.target
      = start gregorianLen (s.month + 12 * s.nYear + s.nMonth) + s.day - 1 := by
    rw [target]
    omega
  rwa [hcount]

theorem settle_range (s : Step) :
    12 * 1970 ≤ (settle gregorianLen_pos (s.month + 12 * s.nYear + s.nMonth) s.day).1 ∧
      (settle gregorianLen_pos (s.month + 12 * s.nYear + s.nMonth) s.day).1 < 12 * 2039 := by
  obtain ⟨first, last, count⟩ :=
    settle_spec gregorianLen_pos (s.month + 12 * s.nYear + s.nMonth) s.day
  have hfirst := s.first
  have hlast := s.last
  constructor
  · refine Int.le_of_not_gt fun hlt => ?_
    have := start_add_len_le gregorianLen_pos hlt
    rw [epoch] at hfirst
    omega
  · refine Int.lt_of_not_ge fun hle => ?_
    have := start_mono gregorianLen_pos hle
    omega

theorem day_range (s : Step) : 1 ≤ s.day ∧ s.day ≤ 31 := by
  have h := s.date
  have := (monthLen_range isGregorianLeap s.month).2
  have hlast := h.last
  rw [gregorianLen] at hlast
  exact ⟨h.first, by omega⟩

/-- The month that the years and the months lead to is not before 1752. -/
theorem month_lower (s : Step) : 12 * 1752 ≤ s.month + 12 * s.nYear + s.nMonth := by
  have hday := day_range s
  have hlen : ∀ k, 28 ≤ gregorianLen k := fun k => (monthLen_range isGregorianLeap k).1
  have hk := hlen (s.month + 12 * s.nYear + s.nMonth)
  have hk' := hlen (s.month + 12 * s.nYear + s.nMonth + 1)
  have hrange := (settle_range s).1
  rw [settle_short _ hday.1 (by omega)] at hrange
  split at hrange
  · dsimp only at hrange
    omega
  · dsimp only at hrange
    omega

/-! ### The system -/

/-- `mktime` of a date and a time of day. -/
theorem mktime_eq (Z : Zone) (tm : Tm) (n sod : Int) (hmon : 0 ≤ tm.tmMon ∧ tm.tmMon < 12)
    (hdate : InMonth gregorianLen (epoch + n) tm.month tm.tmMday) (hsod : 0 ≤ sod ∧ sod < 86400)
    (hhour : tm.tmHour = sod / 3600) (hmin : tm.tmMin = sod % 3600 / 60)
    (hsec : tm.tmSec = sod % 60) : Z.mktime tm = n * 86400 + sod + Z.timezone := by
  obtain ⟨t, ht⟩ : ∃ t, t = n * 86400 + sod + Z.timezone := ⟨_, rfl⟩
  have hlocal : t - Z.timezone = n * 86400 + sod := by omega
  have hmon' := Z.mon t
  have hdate' := Z.date t
  have hhour' := Z.hour t
  have hmin' := Z.min t
  have hsec' := Z.sec t
  have hday : (n * 86400 + sod) / 86400 = n := by omega
  rw [hlocal] at hdate' hhour' hmin' hsec'
  rw [hday] at hdate'
  obtain ⟨hmonth, hmday⟩ := hdate'.unique gregorianLen_pos hdate
  rw [Tm.month, Tm.month] at hmonth
  have hsame : Z.localtime t = tm := by
    ext
    · omega
    · omega
    · exact hmday
    · omega
    · omega
    · omega
  rw [← hsame, Z.mktime_localtime, ht]

/-- `setDate` to a date between 1970 and 2038. -/
theorem setDate_eq (Z : Zone) (dt : DateTime) {k d n : Int} (hk : 12 * 1970 ≤ k)
    (hk' : k < 12 * 2039) (hdate : InMonth gregorianLen (epoch + n) k d)
    (hmicro : 0 ≤ dt.nLocalZoneMicroSecond) (hmicro' : dt.nLocalZoneMicroSecond ≤ 1000000) :
    setDate Z dt (yearOf k) (monthOf k) d =
      if dt.nLocalZoneMicroSecond = 1000000 then none
      else some ⟨n * 86400 + dt.nLocalZoneSecond % 86400, dt.nLocalZoneMicroSecond⟩ := by
  obtain ⟨s, u⟩ := dt
  dsimp only at hmicro hmicro'
  have hlocal : s + Z.timezone - Z.timezone = s := by omega
  have hhour := Z.hour (s + Z.timezone)
  have hmin := Z.min (s + Z.timezone)
  have hsec := Z.sec (s + Z.timezone)
  rw [hlocal] at hhour hmin hsec
  have hvalid : isValidDate (yearOf k - 1900 + 1900) (monthOf k - 1 + 1) d = true := by
    rw [Int.sub_add_cancel, Int.sub_add_cancel, isValidDate, getDayOfMonth_eq,
      monthLen_eq (by omega), if_neg]
    · exact decide_eq_true hdate.last
    · have := hdate.first
      rw [yearOf, monthOf]
      omega
  have htime : isValidTime (Z.localtime (s + Z.timezone)).tmHour
      (Z.localtime (s + Z.timezone)).tmMin (Z.localtime (s + Z.timezone)).tmSec = true := by
    rw [hhour, hmin, hsec, isValidTime]
    simp only [Bool.and_eq_true, decide_eq_true_eq]
    omega
  have hmonth : Tm.month { Z.localtime (s + Z.timezone) with
      tmYear := yearOf k - 1900, tmMon := monthOf k - 1, tmMday := d } = k := by
    rw [Tm.month, yearOf, monthOf]
    dsimp only
    omega
  have hmon : 0 ≤ monthOf k - 1 ∧ monthOf k - 1 < 12 := by
    rw [monthOf]
    omega
  have hmk := mktime_eq Z { Z.localtime (s + Z.timezone) with
      tmYear := yearOf k - 1900, tmMon := monthOf k - 1, tmMday := d } n (s % 86400) hmon
    (hmonth.symm ▸ hdate) (by omega) hhour (by dsimp only; omega) (by dsimp only; omega)
  rw [setDate, setDateTime, getFractionTime, getStandardTime]
  dsimp only
  rw [hvalid, htime, hmk, setFractionTime, setStandardTime, Int.tdiv_eq_ediv_of_nonneg hmicro,
    Int.tmod_eq_emod_of_nonneg hmicro]
  dsimp only
  by_cases hwhole : u = 1000000
  · have hfraction : isValidFractionTime (u / 1000) (u % 1000) = false := by
      rw [hwhole]
      decide
    rw [hfraction, if_pos hwhole]
    rfl
  · have hfraction : isValidFractionTime (u / 1000) (u % 1000) = true := by
      rw [isValidFractionTime]
      simp only [Bool.and_eq_true, decide_eq_true_eq]
      omega
    have hsecond : n * 86400 + s % 86400 + Z.timezone - Z.timezone = n * 86400 + s % 86400 := by
      omega
    have hsum : u / 1000 * 1000 + u % 1000 = u := by omega
    rw [hfraction, if_neg hwhole, hsecond, hsum]
    rfl

/-- A whole second of microseconds is refused. -/
theorem setDate_whole (Z : Zone) {dt : DateTime} (h : dt.nLocalZoneMicroSecond = 1000000)
    (y m d : Int) : setDate Z dt y m d = none := by
  have hfraction : isValidFractionTime ((1000000 : Int).tdiv 1000) ((1000000 : Int).tmod 1000)
      = false := by
    decide
  rw [setDate, setDateTime, getFractionTime, h, hfraction, Bool.and_false]
  rfl

/-! ### Steps -/

/-- The date the days lead to, where the microseconds are fewer than a second. -/
theorem getDate_stepDays (s : Step)
    (hone : (stepDays s.dt s.nDay).nLocalZoneMicroSecond ≠ 1000000) :
    getDate s.zone (stepDays s.dt s.nDay) = (yearOf s.month, monthOf s.month, s.day) := by
  obtain ⟨htotal, hnonneg, hle, -⟩ := stepDays_spec s.dt s.nDay
  obtain ⟨t, ht⟩ : ∃ t, t = getStandardTime s.zone (stepDays s.dt s.nDay) := ⟨_, rfl⟩
  have hmon := s.zone.mon t
  have hdate := s.zone.date t
  have hday : (t - s.zone.timezone) / 86400 = total s.dt / dayMicros + s.nDay := by
    rw [getStandardTime] at ht
    rw [total, dayMicros] at htotal
    rw [dayMicros]
    omega
  rw [hday] at hdate
  obtain ⟨hmonth, hmday⟩ := hdate.unique gregorianLen_pos s.date
  rw [Tm.month] at hmonth
  rw [getDate, ← ht, hmday, yearOf, monthOf]
  refine Prod.ext ?_ (Prod.ext ?_ rfl)
  · dsimp only
    omega
  · dsimp only
    omega

/-- A `DateTime` is moved as it should be exactly when there is nothing to adjust behind the days,
or neither the month nor the microseconds are left as they are. -/
theorem steps_iff (s : Step) : Steps s ↔ (s.nYear = 0 ∧ s.nMonth = 0) ∨
    (¬ BadMonth (monthOf s.month + s.nMonth) ∧ ¬ WholeSecond s.dt.nLocalZoneMicroSecond) := by
  obtain ⟨htotal, hnonneg, hle, hwhole⟩ := stepDays_spec s.dt s.nDay
  have hday : (0 : Int) < dayMicros := by decide
  rw [Steps, stepDateTime]
  dsimp only
  by_cases hzero : s.nYear = 0 ∧ s.nMonth = 0
  · rw [if_pos hzero]
    refine iff_of_true ⟨_, rfl, ?_⟩ (.inl hzero)
    have hcount := s.date.count
    have htarget : s.target = total s.dt / dayMicros + s.nDay := by
      rw [target, hzero.1, hzero.2, Int.mul_zero, Int.add_zero, Int.add_zero]
      omega
    rw [htotal, htarget, Int.add_mul]
    have := Int.ediv_mul_add_emod (total s.dt) dayMicros
    omega
  · rw [if_neg hzero, or_iff_right hzero]
    by_cases hone : (stepDays s.dt s.nDay).nLocalZoneMicroSecond = 1000000
    · refine iff_of_false ?_ fun hgood => hgood.2 (hwhole.mp hone)
      rintro ⟨dt', hdt', -⟩
      obtain ⟨q, -, hq⟩ := Option.bind_eq_some_iff.mp hdt'
      rw [setDate_whole s.zone hone] at hq
      cases hq
    · have hsettle := settle_gregorian (month_lower s) (day_range s).1 (day_range s).2
      have hrange := settle_range s
      have hset := setDate_eq s.zone (stepDays s.dt s.nDay) hrange.1 hrange.2 (settle_target s)
        hnonneg hle
      rw [if_neg hone, ← hsettle] at hset
      rw [getDate_stepDays s hone, smartAdjustDate_eq]
      dsimp only
      split
      next hbad =>
        refine iff_of_false ?_ fun hgood => hgood.1 hbad
        rintro ⟨_, h, -⟩
        cases h
      next hbad =>
        have hmonth : 12 * (yearOf s.month + s.nYear) + (monthOf s.month + s.nMonth - 1)
            = s.month + 12 * s.nYear + s.nMonth := by
          rw [yearOf, monthOf]
          omega
        rw [hmonth]
        refine iff_of_true ⟨_, hset, ?_⟩ ⟨hbad, mt hwhole.mpr hone⟩
        simp only [total, dayMicros] at htotal ⊢
        omega

end Step

/-- **Dates are adjusted and stepped** but for the month 0 and twelve times two and more, and for
microseconds that are a whole second. -/
theorem calendar_iff (y m d : Int) (s : Step) : (Adjusts y m d ↔ ¬ BadMonth m) ∧
    (s.Steps ↔ (s.nYear = 0 ∧ s.nMonth = 0) ∨
      (¬ BadMonth (monthOf s.month + s.nMonth) ∧
        ¬ Step.WholeSecond s.dt.nLocalZoneMicroSecond)) :=
  ⟨adjusts_iff y m d, s.steps_iff⟩

/-- Ten o'clock on the last of January 1970, in a zone that is eight hours ahead, and a month on. -/
def lastOfJanuary : Step where
  zone := fixedZone (-28800)
  dt := ⟨30 * 86400 + 36000, 0⟩
  nYear := 0
  nMonth := 1
  nDay := 0
  month := 12 * 1970
  day := 31
  date := by
    have hdays : total ⟨30 * 86400 + 36000, 0⟩ / dayMicros = 30 := by decide
    refine ⟨by decide, by decide, ?_⟩
    rw [hdays, epoch]
    omega
  first := by
    have hnext := start_succ gregorianLen (12 * 1970)
    have hlen : gregorianLen (12 * 1970) = 31 := by decide
    rw [epoch, Int.mul_zero, Int.add_zero]
    omega
  last := by
    have hnext := start_succ gregorianLen (12 * 1970 + 1)
    have hlen : gregorianLen (12 * 1970 + 1) = 28 := by decide
    have hlen' : gregorianLen (12 * 1970 + 1 + 1) = 31 := by decide
    have hle := start_add_len_le gregorianLen_pos
      (show (12 * 1970 + 1 + 1 : Int) < 12 * 2039 by decide)
    rw [Int.mul_zero, Int.add_zero]
    omega

theorem calendar_iff_lastOfJanuary : Adjusts 2012 14 0 ∧ lastOfJanuary.Steps :=
  ⟨(calendar_iff 2012 14 0 lastOfJanuary).1.mpr (by decide),
    (calendar_iff 2012 14 0 lastOfJanuary).2.mpr (.inr (by decide))⟩

/-- A month back from January 2012. -/
theorem not_adjusts : ¬ ((∀ y m d, Adjusts y m d) ∧ ∀ s : Step, s.Steps) := fun h =>
  (adjusts_iff 2012 0 1).mp (h.1 2012 0 1) (.inl rfl)

end DateTime

end Edm.Base
