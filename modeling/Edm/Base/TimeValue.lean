import Edm.Support.CString
import Mathlib.Data.List.Induction
import Mathlib.Logic.Function.Basic

/-!
# Base — TimeValue

`TimeValue` (`cpplib/base/datetime.cpp`): seconds and microseconds, which `smartAdjustTime` brings
into the range of one second.  It carries when there are more than a second of them, so a whole
second is left as it is; and it borrows one second more than fits below zero, so a negative multiple
of a second becomes a whole second too.  What it borrows is computed in `int`s; the other numbers
are taken as large as they are.

* `adjusts_iff`: exactly when the adjusted value is normal and has the same total.
* `right_snoc_iff`: exactly when one operation keeps the values right.
* **Every value that is reached is right** exactly when no operation is given one of these numbers
  (`reached_right_iff`).
-/

namespace Edm.Base
open Support

/-! ### The code -/

/-- `smartAdjustTime`; `int` is what an `int` holds of a number. -/
def smartAdjustTime (int : Int → Int) (nParent nChild nUnitMultiple : Int) : Int × Int :=
  if nChild > nUnitMultiple then
    (nParent + nChild.tdiv nUnitMultiple, nChild.tmod nUnitMultiple)
  else if nChild < 0 then
    let nMultiple := int ((-nChild).tdiv nUnitMultiple + 1)
    (nParent - nMultiple, nChild + int (nMultiple * nUnitMultiple))
  else (nParent, nChild)

section Adjust
variable {int : Int → Int} {p c u : Int}

theorem smartAdjustTime_carry (hc : u < c) (hu : 0 < u) :
    smartAdjustTime int p c u = (p + c / u, c % u) := by
  rw [smartAdjustTime, if_pos hc, Int.tdiv_eq_ediv_of_nonneg (by omega),
    Int.tmod_eq_emod_of_nonneg (by omega)]

theorem smartAdjustTime_borrow (hc : c < 0) (hu : 0 < u) :
    smartAdjustTime int p c u = (p - int (-c / u + 1), c + int (int (-c / u + 1) * u)) := by
  rw [smartAdjustTime, if_neg (by omega), if_pos hc, Int.tdiv_eq_ediv_of_nonneg (by omega)]

theorem smartAdjustTime_keep (h₁ : 0 ≤ c) (h₂ : c ≤ u) : smartAdjustTime int p c u = (p, c) := by
  rw [smartAdjustTime, if_neg (by omega), if_neg (by omega)]

end Adjust

/-- `TimeValue`. -/
structure TimeValue where
  nSecond : Int
  nMicroSecond : Int
  deriving DecidableEq

namespace TimeValue

def milliPerSecond : Int := 1000

def microPerSecond : Int := milliPerSecond * 1000

def microPerMilli : Int := 1000

def microPerMicro : Int := 1

/-- `setTimeValue`. -/
def setTimeValue (nSecond nMicroSecond : Int) : TimeValue :=
  let p := smartAdjustTime int32 nSecond nMicroSecond microPerSecond
  ⟨p.1, p.2⟩

/-- `convertFrom`. -/
def convertFrom (nVal nSecondToUnit nUnitToMicro : Int) : TimeValue :=
  let p := smartAdjustTime int32 (nVal.tdiv nSecondToUnit)
    (nVal.tmod nSecondToUnit * nUnitToMicro) microPerSecond
  ⟨p.1, p.2⟩

/-- `convertTo`. -/
def convertTo (tv : TimeValue) (nSecondToUnit nUnitToMicro : Int) : Int :=
  tv.nSecond * nSecondToUnit + tv.nMicroSecond.tdiv nUnitToMicro

def setTotalMilliSecond (n : Int) : TimeValue := convertFrom n milliPerSecond microPerMilli

def getTotalMilliSecond (tv : TimeValue) : Int := convertTo tv milliPerSecond microPerMilli

def setTotalMicroSecond (n : Int) : TimeValue := convertFrom n microPerSecond microPerMicro

def getTotalMicroSecond (tv : TimeValue) : Int := convertTo tv microPerSecond microPerMicro

/-- `operator +=`. -/
def add (a b : TimeValue) : TimeValue :=
  setTimeValue (a.nSecond + b.nSecond) (a.nMicroSecond + b.nMicroSecond)

/-- `operator -=`. -/
def sub (a b : TimeValue) : TimeValue :=
  setTimeValue (a.nSecond - b.nSecond) (a.nMicroSecond - b.nMicroSecond)

def compare (a b : TimeValue) : Int :=
  if a.nSecond ≠ b.nSecond then if a.nSecond > b.nSecond then 1 else -1
  else if a.nMicroSecond = b.nMicroSecond then 0
  else if a.nMicroSecond > b.nMicroSecond then 1 else -1

/-! ### Objects -/

/-- An operation on the objects; `add i j` is `x += y`, where `x` and `y` may be the same. -/
inductive Op where
  | setTimeValue (i : Nat) (nSecond nMicroSecond : Int)
  | setTotalMilliSecond (i : Nat) (n : Int)
  | setTotalMicroSecond (i : Nat) (n : Int)
  | add (i j : Nat)
  | sub (i j : Nat)

/-- What an operation makes of the objects. -/
def step (σ : Nat → TimeValue) : Op → Nat → TimeValue
  | .setTimeValue i s u => Function.update σ i (setTimeValue s u)
  | .setTotalMilliSecond i n => Function.update σ i (setTotalMilliSecond n)
  | .setTotalMicroSecond i n => Function.update σ i (setTotalMicroSecond n)
  | .add i j => Function.update σ i (add (σ i) (σ j))
  | .sub i j => Function.update σ i (sub (σ i) (σ j))

/-- The objects after some operations; they are constructed as zero. -/
def run (ops : List Op) : Nat → TimeValue := ops.foldl step fun _ => ⟨0, 0⟩

/-- What integer arithmetic makes of the total microseconds. -/
def stepTotal (τ : Nat → Int) : Op → Nat → Int
  | .setTimeValue i s u => Function.update τ i (s * 1000000 + u)
  | .setTotalMilliSecond i n => Function.update τ i (n * 1000)
  | .setTotalMicroSecond i n => Function.update τ i n
  | .add i j => Function.update τ i (τ i + τ j)
  | .sub i j => Function.update τ i (τ i - τ j)

def totals (ops : List Op) : Nat → Int := ops.foldl stepTotal fun _ => 0

/-- A value in normal form, with this total. -/
structure Normal (tv : TimeValue) (total : Int) : Prop where
  nonneg : 0 ≤ tv.nMicroSecond
  lt : tv.nMicroSecond < 1000000
  total : tv.getTotalMicroSecond = total

/-- What is promised behind some operations. -/
structure Right (ops : List Op) : Prop where
  normal : ∀ i, Normal (run ops i) (totals ops i)
  milli : ∀ i n, ops.getLast? = some (.setTotalMilliSecond i n) →
    (run ops i).getTotalMilliSecond = n
  compare : ∀ i j, (run ops i).compare (run ops j) = (totals ops i - totals ops j).sign

/-- A number of microseconds that is adjusted as it should be. -/
def Adjusts (u : Int) : Prop :=
  u ≠ 1000000 ∧ (u < 0 → u % 1000000 ≠ 0 ∧ -2147000000 < u)

/-- An operation is given such a number, on objects with these totals. -/
def Meets (τ : Nat → Int) : Op → Prop
  | .setTimeValue _ _ u => Adjusts u
  | .add i j => τ i % 1000000 + τ j % 1000000 ≠ 1000000
  | .setTotalMilliSecond _ _ | .setTotalMicroSecond _ _ | .sub _ _ => True

/-! ### One value -/

theorem getTotalMicroSecond_eq (tv : TimeValue) :
    tv.getTotalMicroSecond = tv.nSecond * 1000000 + tv.nMicroSecond := by
  rw [getTotalMicroSecond, convertTo, microPerMicro, Int.tdiv_one]
  rfl

theorem normal_iff {s u total : Int} :
    Normal ⟨s, u⟩ total ↔ (0 ≤ u ∧ u < 1000000) ∧ s * 1000000 + u = total := by
  constructor
  · rintro ⟨h₁, h₂, h₃⟩
    exact ⟨⟨h₁, h₂⟩, (getTotalMicroSecond_eq _).symm.trans h₃⟩
  · rintro ⟨⟨h₁, h₂⟩, h₃⟩
    exact ⟨h₁, h₂, (getTotalMicroSecond_eq _).trans h₃⟩

/-- The seconds that are borrowed: the product is the one that is meant only up to 2147 of them,
and then it may be a second too much. -/
theorem normal_borrow {s u : Int} (hu : u < 0) :
    Normal ⟨s - int32 (-u / 1000000 + 1), u + int32 (int32 (-u / 1000000 + 1) * 1000000)⟩
      (s * 1000000 + u) ↔ u % 1000000 ≠ 0 ∧ -2147000000 < u := by
  rw [normal_iff]
  rcases Int.lt_or_le (-2147000000) u with h | h
  · rw [int32_of_range (z := -u / 1000000 + 1) (by omega) (by omega),
      int32_of_range (by omega) (by omega)]
    omega
  · refine iff_of_false ?_ fun hgood => absurd hgood.2 (by omega)
    rintro ⟨⟨h₁, h₂⟩, h₃⟩
    have hupper := int32_upper (int32 (-u / 1000000 + 1) * 1000000)
    -- What is added is what is taken, so an `int` holds it, and it is no more than 2147 seconds.
    have hm : int32 (-u / 1000000 + 1) = 2147 := by omega
    have hq : -u / 1000000 + 1 = 2148 := by omega
    rw [hq] at hm
    exact absurd hm (by decide)

/-- The adjusted value is normal, and has the same total, exactly for these microseconds. -/
theorem adjusts_iff (s u : Int) :
    Normal (setTimeValue s u) (s * 1000000 + u) ↔ Adjusts u := by
  have hunit : microPerSecond = 1000000 := rfl
  rw [setTimeValue, hunit, Adjusts]
  rcases Int.lt_trichotomy u 0 with hneg | hzero | hpos
  · rw [smartAdjustTime_borrow hneg (by omega)]
    dsimp only
    rw [normal_borrow hneg]
    omega
  · rw [smartAdjustTime_keep (by omega) (by omega), normal_iff]
    omega
  · rcases Int.lt_or_le 1000000 u with hcarry | hkeep
    · rw [smartAdjustTime_carry hcarry (by omega), normal_iff]
      omega
    · rw [smartAdjustTime_keep (by omega) hkeep, normal_iff]
      omega

/-- What is left of a number below a second is adjusted. -/
theorem normal_convertFrom {n a b : Int} (ha : 0 < a) (hb : 0 < b) (hab : a * b = 1000000) :
    Normal (convertFrom n a b) (n * b) := by
  have hdiv : a * n.tdiv a + n.tmod a = n := Int.mul_tdiv_add_tmod n a
  have hupper : n.tmod a * b < a * b := Int.mul_lt_mul_of_pos_right (Int.tmod_lt_of_pos n ha) hb
  have hlower : -a * b < n.tmod a * b :=
    Int.mul_lt_mul_of_pos_right (Int.lt_tmod_of_pos n ha) hb
  have htotal : n.tdiv a * 1000000 + n.tmod a * b = n * b := by
    rw [← hab, ← Int.mul_assoc, ← Int.add_mul, Int.mul_comm (n.tdiv a), hdiv]
  rw [Int.neg_mul] at hlower
  rw [← htotal]
  exact (adjusts_iff _ _).mpr ⟨by omega, fun hneg => by omega⟩

/-- The microseconds of a normal value. -/
theorem Normal.micro {a : TimeValue} {t : Int} (h : Normal a t) : a.nMicroSecond = t % 1000000 := by
  have htotal := h.total
  rw [getTotalMicroSecond_eq] at htotal
  have := h.nonneg
  have := h.lt
  omega

section Two
variable {a b : TimeValue} {s t : Int}

theorem normal_add_iff (ha : Normal a s) (hb : Normal b t) :
    Normal (add a b) (s + t) ↔ s % 1000000 + t % 1000000 ≠ 1000000 := by
  have hs := ha.total
  have ht := hb.total
  have ha₁ := ha.nonneg
  have hb₁ := hb.nonneg
  rw [getTotalMicroSecond_eq] at hs ht
  have hsum : s + t = (a.nSecond + b.nSecond) * 1000000 + (a.nMicroSecond + b.nMicroSecond) := by
    omega
  rw [hsum, add, adjusts_iff, Adjusts, ha.micro, hb.micro]
  omega

theorem normal_sub (ha : Normal a s) (hb : Normal b t) : Normal (sub a b) (s - t) := by
  have hs := ha.total
  have ht := hb.total
  rw [getTotalMicroSecond_eq] at hs ht
  have hdiff : s - t = (a.nSecond - b.nSecond) * 1000000 + (a.nMicroSecond - b.nMicroSecond) := by
    omega
  rw [hdiff, sub, adjusts_iff, Adjusts, ha.micro, hb.micro]
  omega

/-- Normal values are ordered as their totals. -/
theorem compare_eq (ha : Normal a s) (hb : Normal b t) : compare a b = (s - t).sign := by
  have hs := ha.total
  have ht := hb.total
  have ha₁ := ha.nonneg
  have ha₂ := ha.lt
  have hb₁ := hb.nonneg
  have hb₂ := hb.lt
  rw [getTotalMicroSecond_eq] at hs ht
  rw [compare]
  split_ifs with h₁ h₂ h₃ h₄
  · exact (Int.sign_eq_one_of_pos (by omega)).symm
  · exact (Int.sign_eq_neg_one_of_neg (by omega)).symm
  · rw [Int.sub_eq_zero.mpr (by omega), Int.sign_zero]
  · exact (Int.sign_eq_one_of_pos (by omega)).symm
  · exact (Int.sign_eq_neg_one_of_neg (by omega)).symm

end Two

/-- The milliseconds that were given. -/
theorem getTotalMilliSecond_eq {a : TimeValue} {n : Int} (h : Normal a (n * 1000)) :
    a.getTotalMilliSecond = n := by
  have htotal := h.total
  have hnonneg := h.nonneg
  have hlt := h.lt
  have hunit : milliPerSecond = 1000 := rfl
  have hmicro : microPerMilli = 1000 := rfl
  rw [getTotalMicroSecond_eq] at htotal
  rw [getTotalMilliSecond, convertTo, Int.tdiv_eq_ediv_of_nonneg hnonneg, hunit, hmicro]
  omega

/-! ### Operations -/

/-- One object is changed. -/
theorem forall_update {σ : Nat → TimeValue} {τ : Nat → Int} (h : ∀ i, Normal (σ i) (τ i)) (i : Nat)
    (v : TimeValue) (t : Int) :
    (∀ k, Normal (Function.update σ i v k) (Function.update τ i t k)) ↔ Normal v t := by
  constructor
  · intro hall
    have hi := hall i
    rwa [Function.update_self, Function.update_self] at hi
  · intro hv k
    by_cases hk : k = i
    · subst hk
      rwa [Function.update_self, Function.update_self]
    · rw [Function.update_of_ne hk, Function.update_of_ne hk]
      exact h k

/-- An operation keeps the values normal exactly when it is given a number that is adjusted. -/
theorem normal_step_iff {σ : Nat → TimeValue} {τ : Nat → Int} (h : ∀ i, Normal (σ i) (τ i))
    (op : Op) : (∀ i, Normal (step σ op i) (stepTotal τ op i)) ↔ Meets τ op := by
  cases op with
  | setTimeValue i s u => exact (forall_update h i _ _).trans (adjusts_iff s u)
  | setTotalMilliSecond i n =>
      refine (forall_update h i _ _).trans (iff_of_true ?_ trivial)
      exact normal_convertFrom (a := 1000) (b := 1000) (by decide) (by decide) (by decide)
  | setTotalMicroSecond i n =>
      refine (forall_update h i _ _).trans (iff_of_true ?_ trivial)
      have hn : Normal (setTotalMicroSecond n) (n * 1) :=
        normal_convertFrom (by decide) (by decide) (by decide)
      rwa [Int.mul_one] at hn
  | add i j => exact (forall_update h i _ _).trans (normal_add_iff (h i) (h j))
  | sub i j => exact (forall_update h i _ _).trans (iff_of_true (normal_sub (h i) (h j)) trivial)

theorem run_snoc (ops : List Op) (op : Op) : run (ops ++ [op]) = step (run ops) op :=
  List.foldl_append

theorem totals_snoc (ops : List Op) (op : Op) : totals (ops ++ [op]) = stepTotal (totals ops) op :=
  List.foldl_append

/-- Normal values are all that is promised. -/
theorem right_iff_normal {ops : List Op} :
    Right ops ↔ ∀ i, Normal (run ops i) (totals ops i) := by
  refine ⟨Right.normal, fun h => ⟨h, fun i n hlast => ?_, fun i j => compare_eq (h i) (h j)⟩⟩
  obtain ⟨p, rfl⟩ := List.getLast?_eq_some_iff.mp hlast
  have htotal : totals (p ++ [.setTotalMilliSecond i n]) i = n * 1000 := by
    rw [totals_snoc]
    exact Function.update_self ..
  exact getTotalMilliSecond_eq (htotal ▸ h i)

/-- One operation more. -/
theorem right_snoc_iff {ops : List Op} (h : Right ops) (op : Op) :
    Right (ops ++ [op]) ↔ Meets (totals ops) op := by
  rw [right_iff_normal, run_snoc, totals_snoc, normal_step_iff h.normal]

/-- **Every value that is reached is right** exactly when every operation is given numbers that
are adjusted. -/
theorem reached_right_iff (ops : List Op) :
    (∀ p, p <+: ops → Right p) ↔ ∀ p op, p ++ [op] <+: ops → Meets (totals p) op := by
  constructor
  · intro h p op hp
    have hbefore := h p ((List.prefix_append p [op]).trans hp)
    exact (right_snoc_iff hbefore op).mp (h _ hp)
  · intro h p
    induction p using List.reverseRecOn with
    | nil => exact fun _ => right_iff_normal.mpr fun i => normal_iff.mpr ⟨by decide, rfl⟩
    | append_singleton p op ih =>
        intro hp
        have hbefore := ih ((List.prefix_append p [op]).trans hp)
        exact (right_snoc_iff hbefore op).mpr (h p op hp)

/-- Half a second is added to itself: there are a million microseconds. -/
theorem not_right : ¬ ∀ ops : List Op, Right ops := by
  intro h
  have hlt := ((h [.setTotalMicroSecond 0 500000, .add 0 0]).normal 0).lt
  exact absurd hlt (by decide)

end TimeValue

end Edm.Base
