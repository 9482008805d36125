import Edm.Base.TimeValue
import Edm.Support.Calendar

/-!
# Base — Calendar

`smartAdjustDate` and `DateTime::stepDateTime` (`cpplib/base/datetime.cpp`).  The months are brought
into a year by one division, the days into a month by a loop.  The numbers are those that the `int`s
hold; an exception is `none`.

The division leaves the month 0 as it is, and makes it of twenty-four months, thirty-six and so on;
then `getDayOfMonth` throws.  `setFractionTime` throws when there are a million microseconds, which
`smartAdjustTime` leaves as they are.

* `adjustDays_eq`: the loop is the one over numbered months.
* `adjusts_iff`, `steps_iff`: exactly when a date is adjusted, and a `DateTime` moved.
* **Dates are stepped** but for these months and microseconds (`calendar_iff`).
-/

namespace Edm.Base
open Support Support.Calendar

namespace DateTime

/-! ### The code -/

/-- `isLeapYear`. -/
def isLeapYear (nYear : Int) : Bool :=
  if nYear < 1752 then nYear % 4 == 0
  else (nYear % 4 == 0 && nYear % 100 != 0) || nYear % 400 == 0

/-- `getDayOfMonth`. -/
def getDayOfMonth (bLeapYear : Bool) (nMonth : Int) : Option Int :=
  if nMonth < 1 ∨ nMonth > 12 then none
  else if bLeapYear && nMonth == 2 then some 29
  else some ([0, 31, 28, 31, 30, 31, 30, 31, 31, 30, 31, 30, 31].getD nMonth.toNat 0)

theorem getDayOfMonth_range {b : Bool} {m n : Int} (h : getDayOfMonth b m = some n) :
    (1 ≤ m ∧ m ≤ 12) ∧ 28 ≤ n ∧ n ≤ 31 := by
  have hall : ∀ b : Bool, ∀ i : Fin 12, ∀ n ∈ getDayOfMonth b (i + 1), 28 ≤ n ∧ n ≤ 31 := by decide
  have hm : 1 ≤ m ∧ m ≤ 12 := by
    rw [getDayOfMonth] at h
    split at h
    next => cases h
    next hm => omega
  refine ⟨hm, hall b ⟨(m - 1).toNat, by omega⟩ n ?_⟩
  have hcast : (((m - 1).toNat : Nat) : Int) + 1 = m := by omega
  rw [Option.mem_def]
  exact (congrArg (getDayOfMonth b) hcast).trans h

/-- The loop of `smartAdjustDate`. -/
def adjustDays (nYear nMonth nDay : Int) : Option (Int × Int × Int) :=
  match _h : getDayOfMonth (isLeapYear nYear) nMonth with
  | none => none
  | some nDayOfMonth =>
      if nDay > nDayOfMonth then
        if nMonth + 1 > 12 then adjustDays (nYear + 1) (nMonth + 1 - 12) (nDay - nDayOfMonth)
        else adjustDays nYear (nMonth + 1) (nDay - nDayOfMonth)
      else if nDay < 1 then
        let p := if nMonth = 1 then (nYear - 1, nMonth + 12) else (nYear, nMonth)
        match _h' : getDayOfMonth (isLeapYear p.1) (p.2 - 1) with
        | none => none
        | some n => adjustDays p.1 (p.2 - 1) (nDay + n)
      else some (nYear, nMonth, nDay)
termination_by (if nDay < 1 then 1 else 0, nDay.natAbs)
decreasing_by
  · have hn := (getDayOfMonth_range _h).2
    rw [if_neg (by omega), if_neg (by omega)]
    exact .right _ (by omega)
  · have hn := (getDayOfMonth_range _h).2
    rw [if_neg (by omega), if_neg (by omega)]
    exact .right _ (by omega)
  · have hn := (getDayOfMonth_range _h').2
    by_cases hd : nDay + n < 1
    · rw [if_pos hd, if_pos ‹nDay < 1›]
      exact .right _ (by omega)
    · rw [if_neg hd, if_pos ‹nDay < 1›]
      exact .left _ _ Nat.one_pos

/-- `smartAdjustDate`. -/
def smartAdjustDate (nYear nMonth nDay : Int) : Option (Int × Int × Int) :=
  let p := smartAdjustTime id nYear nMonth 12
  adjustDays p.1 p.2 nDay

/-! ### Months as numbers -/

/-- The year and the month of a month that is numbered from January of the year 0 on. -/
def yearOf (k : Int) : Int := k / 12

def monthOf (k : Int) : Int := k % 12 + 1

/-- How many days a month has. -/
def monthLen (leap : Int → Bool) (k : Int) : Int :=
  (getDayOfMonth (leap (yearOf k)) (monthOf k)).getD 0

section Months
variable {leap : Int → Bool} {y m d n k : Int}

theorem getDayOfMonth_isSome {b : Bool} (h₁ : 1 ≤ m) (h₂ : m ≤ 12) :
    ∃ n, getDayOfMonth b m = some n := by
  rw [getDayOfMonth, if_neg (by omega)]
  split
  · exact ⟨_, rfl⟩
  · exact ⟨_, rfl⟩

theorem getDayOfMonth_eq (leap : Int → Bool) (k : Int) :
    getDayOfMonth (leap (yearOf k)) (monthOf k) = some (monthLen leap k) := by
  obtain ⟨n, hn⟩ := getDayOfMonth_isSome (b := leap (yearOf k)) (m := monthOf k)
    (by rw [monthOf]; omega) (by rw [monthOf]; omega)
  rw [monthLen, hn, Option.getD_some]

theorem monthLen_range (leap : Int → Bool) (k : Int) :
    28 ≤ monthLen leap k ∧ monthLen leap k ≤ 31 :=
  (getDayOfMonth_range (getDayOfMonth_eq leap k)).2

theorem monthLen_pos (leap : Int → Bool) (k : Int) : 0 < monthLen leap k := by
  have := monthLen_range leap k
  omega

/-- One turn of the loop. -/
theorem adjustDays_of_some (h : getDayOfMonth (isLeapYear y) m = some n) : adjustDays y m d =
    if d > n then
      if m + 1 > 12 then adjustDays (y + 1) (m + 1 - 12) (d - n) else adjustDays y (m + 1) (d - n)
    else if d < 1 then
      let p := if m = 1 then (y - 1, m + 12) else (y, m)
      (getDayOfMonth (isLeapYear p.1) (p.2 - 1)).bind fun n => adjustDays p.1 (p.2 - 1) (d + n)
    else some (y, m, d) := by
  rw [adjustDays]
  split
  next hnone =>
    rw [h] at hnone
    cases hnone
  next n' hsome =>
    rw [h] at hsome
    cases hsome
    dsimp only
    congr 2
    split
    next hnone => rw [hnone, Option.bind_none]
    next hsome => rw [hsome, Option.bind_some]

/-- The loop is the one over numbered months. -/
theorem adjustDays_eq (k d : Int) : adjustDays (yearOf k) (monthOf k) d =
    some (yearOf (settle (monthLen_pos isLeapYear) k d).1,
      monthOf (settle (monthLen_pos isLeapYear) k d).1,
      (settle (monthLen_pos isLeapYear) k d).2) := by
  induction k, d using settle.induct (monthLen_pos isLeapYear) with
  | case1 k d h ih =>
      rw [adjustDays_of_some (getDayOfMonth_eq isLeapYear k), if_pos h, settle, if_pos h, ← ih]
      split
      next hlast =>
        have hyear : yearOf (k + 1) = yearOf k + 1 := by
          simp only [monthOf, yearOf] at hlast ⊢
          omega
        have hmonth : monthOf (k + 1) = monthOf k + 1 - 12 := by
          simp only [monthOf] at hlast ⊢
          omega
        rw [hyear, hmonth]
      next hlast =>
        have hyear : yearOf (k + 1) = yearOf k := by
          simp only [monthOf, yearOf] at hlast ⊢
          omega
        have hmonth : monthOf (k + 1) = monthOf k + 1 := by
          simp only [monthOf] at hlast ⊢
          omega
        rw [hyear, hmonth]
  | case2 k d h h' ih =>
      have hbefore : (if monthOf k = 1 then (yearOf k - 1, monthOf k + 12)
          else (yearOf k, monthOf k)) = (yearOf (k - 1), monthOf (k - 1) + 1) := by
        split
        next hfirst =>
          simp only [monthOf, yearOf] at hfirst ⊢
          exact Prod.ext (by dsimp only; omega) (by dsimp only; omega)
        next hfirst =>
          simp only [monthOf, yearOf] at hfirst ⊢
          exact Prod.ext (by dsimp only; omega) (by dsimp only; omega)
      rw [adjustDays_of_some (getDayOfMonth_eq isLeapYear k), if_neg h, if_pos h', hbefore]
      dsimp only
      rw [Int.add_sub_cancel, getDayOfMonth_eq, Option.bind_some, settle, if_neg h, if_pos h', ih]
  | case3 k d h h' =>
      rw [adjustDays_of_some (getDayOfMonth_eq isLeapYear k), if_neg h, if_neg h', settle,
        if_neg h, if_neg h']

end Months

/-! ### Dates -/

/-- The days before the day `d` of the month that lies `m - 1` months behind January of the year
`y`. -/
def dayNumber (y m d : Int) : Int := start (monthLen isLeapYear) (12 * y + (m - 1)) + (d - 1)

/-- The date is one of the calendar, and lies where these numbers say. -/
structure Adjusted (y m d y' m' d' : Int) : Prop where
  month : 1 ≤ m' ∧ m' ≤ 12
  day : ∃ n, getDayOfMonth (isLeapYear y') m' = some n ∧ 1 ≤ d' ∧ d' ≤ n
  same : dayNumber y' m' d' = dayNumber y m d

/-- `smartAdjustDate` gives such a date. -/
def Adjusts (y m d : Int) : Prop :=
  ∃ y' m' d', smartAdjustDate y m d = some (y', m', d') ∧ Adjusted y m d y' m' d'

/-- The division makes the month 0 of these. -/
def BadMonth (m : Int) : Prop := m = 0 ∨ (24 ≤ m ∧ m % 12 = 0)

instance (m : Int) : Decidable (BadMonth m) := inferInstanceAs (Decidable (_ ∨ _))

theorem adjustDays_zero (y d : Int) : adjustDays y 0 d = none := by
  rw [adjustDays]
  split
  next => rfl
  next h => exact absurd (getDayOfMonth_range h).1.1 (by decide)

/-- The date, or an exception. -/
theorem smartAdjustDate_eq (y m d : Int) : smartAdjustDate y m d =
    if BadMonth m then none
    else
      let p := settle (monthLen_pos isLeapYear) (12 * y + (m - 1)) d
      some (yearOf p.1, monthOf p.1, p.2) := by
  have hgood : ∀ k, k = 12 * y + (m - 1) → smartAdjustTime id y m 12 = (yearOf k, monthOf k) →
      smartAdjustDate y m d = (let p := settle (monthLen_pos isLeapYear) (12 * y + (m - 1)) d
        some (yearOf p.1, monthOf p.1, p.2)) := by
    intro k hk h
    rw [smartAdjustDate, h, ← hk]
    exact adjustDays_eq k d
  rcases Int.lt_or_le 12 m with hcarry | hle
  · have hadjust := @smartAdjustTime_carry id y m 12 hcarry (by decide)
    split
    next hbad =>
      have hzero : m % 12 = 0 := hbad.elim (fun h => by omega) fun h => h.2
      rw [smartAdjustDate, hadjust, hzero]
      exact adjustDays_zero _ _
    next hbad =>
      have hmod : m % 12 ≠ 0 := fun h => hbad (.inr ⟨by omega, h⟩)
      refine hgood _ rfl ?_
      rw [hadjust, yearOf, monthOf]
      exact Prod.ext (by dsimp only; omega) (by dsimp only; omega)
  · rcases Int.lt_or_le m 0 with hneg | hnonneg
    · have hadjust := @smartAdjustTime_borrow id y m 12 hneg (by decide)
      rw [if_neg fun hbad => hbad.elim (by omega) fun h => by omega]
      refine hgood _ rfl ?_
      rw [hadjust, yearOf, monthOf]
      exact Prod.ext (by dsimp only [id]; omega) (by dsimp only [id]; omega)
    · have hadjust := @smartAdjustTime_keep id y m 12 hnonneg hle
      split
      next hbad =>
        have hzero : m = 0 := hbad.elim id fun h => by omega
        rw [smartAdjustDate, hadjust, hzero]
        exact adjustDays_zero _ _
      next hbad =>
        have hne : m ≠ 0 := fun h => hbad (.inl h)
        refine hgood _ rfl ?_
        rw [hadjust, yearOf, monthOf]
        exact Prod.ext (by dsimp only; omega) (by dsimp only; omega)

/-- A date is adjusted exactly when the division does not give the month 0. -/
theorem adjusts_iff (y m d : Int) : Adjusts y m d ↔ ¬ BadMonth m := by
  rw [Adjusts, smartAdjustDate_eq]
  split
  next hbad => exact iff_of_false (fun ⟨_, _, _, h, _⟩ => nomatch h) (not_not_intro hbad)
  next hbad =>
    refine iff_of_true ?_ hbad
    obtain ⟨first, last, count⟩ := settle_spec (monthLen_pos isLeapYear) (12 * y + (m - 1)) d
    refine ⟨_, _, _, rfl, ?_, ⟨_, getDayOfMonth_eq isLeapYear _, first, last⟩, ?_⟩
    · rw [monthOf]
      omega
    · have hk : ∀ k, 12 * yearOf k + (monthOf k - 1) = k := fun k => by
        rw [yearOf, monthOf]
        omega
      rw [dayNumber, hk, dayNumber]
      omega

end DateTime

end Edm.Base
