import Mathlib

/-!
# Support — Calendar

Days counted in months.  The months are numbered by the integers, and `len k` is how many days the
month `k` has, at least one.  `start k` counts the days before the month `k`, from the month 0 on.

A number of days, counted from any month on, is brought into the month it lies in by taking the
months off one by one, or adding them (`settle`); the day it lies on stays the same, and there is
only one such month (`settle_spec`, `InMonth.unique`).
-/

namespace Support.Calendar

variable (len : Int → Int)

/-- How many days lie before a month, from the month 0 on. -/
def start : Int → Int
  | .ofNat n => ((List.range n).map fun i : Nat => len i).sum
  | .negSucc n => -((List.range (n + 1)).map fun i => len (.negSucc i)).sum

theorem start_zero : start len 0 = 0 := rfl

theorem start_succ (k : Int) : start len (k + 1) = start len k + len k := by
  cases k with
  | ofNat n =>
      have hnext : Int.ofNat n + 1 = Int.ofNat (n + 1) := rfl
      rw [hnext, start, start, List.range_succ, List.map_append, List.sum_append]
      simp
  | negSucc n =>
      cases n with
      | zero =>
          have hnext : Int.negSucc 0 + 1 = 0 := rfl
          rw [hnext, start_zero, start]
          simp
      | succ n =>
          have hnext : Int.negSucc (n + 1) + 1 = Int.negSucc n := rfl
          rw [hnext, start, start, List.range_succ (n := n + 1), List.map_append, List.sum_append]
          simp

theorem start_pred (k : Int) : start len (k - 1) = start len k - len (k - 1) := by
  have h := start_succ len (k - 1)
  rw [Int.sub_add_cancel] at h
  omega

/-- The day `d` of the month `k` is the `n`-th behind the first of the month 0. -/
structure InMonth (n k d : Int) : Prop where
  first : 1 ≤ d
  last : d ≤ len k
  count : start len k + d - 1 = n

variable {len}

theorem start_mono (hlen : ∀ k, 0 < len k) {k k' : Int} (h : k ≤ k') :
    start len k ≤ start len k' := by
  obtain ⟨j, rfl⟩ := Int.le.dest h
  induction j with
  | zero => exact Int.le_of_eq (by rw [Int.natCast_zero, Int.add_zero])
  | succ j ih =>
      have hnext : k + (j + 1 : Nat) = k + j + 1 := by omega
      have hpos := hlen (k + j)
      have hle := ih (by omega)
      rw [hnext, start_succ]
      omega

/-- A month that begins later lies behind the whole month before it. -/
theorem start_add_len_le (hlen : ∀ k, 0 < len k) {k k' : Int} (h : k < k') :
    start len k + len k ≤ start len k' := by
  rw [← start_succ]
  exact start_mono hlen h

/-- A day lies in one month. -/
theorem InMonth.unique (hlen : ∀ k, 0 < len k) {n k d k' d' : Int} (h : InMonth len n k d)
    (h' : InMonth len n k' d') : k = k' ∧ d = d' := by
  obtain ⟨h₁, h₂, h₃⟩ := h
  obtain ⟨h₁', h₂', h₃'⟩ := h'
  rcases Int.lt_trichotomy k k' with hlt | heq | hgt
  · have := start_add_len_le hlen hlt
    omega
  · subst heq
    exact ⟨rfl, by omega⟩
  · have := start_add_len_le hlen hgt
    omega

/-- The day `d`, counted from the month `k` on, in the month it lies in. -/
def settle (hlen : ∀ k, 0 < len k) (k d : Int) : Int × Int :=
  if d > len k then settle hlen (k + 1) (d - len k)
  else if d < 1 then settle hlen (k - 1) (d + len (k - 1))
  else (k, d)
termination_by (if d < 1 then 1 else 0, d.natAbs)
decreasing_by
  · have hpos := hlen k
    rw [if_neg (by omega), if_neg (by omega)]
    exact .right _ (by omega)
  · have hpos := hlen (k - 1)
    by_cases hd : d + len (k - 1) < 1
    · rw [if_pos hd, if_pos ‹_›]
      exact .right _ (by omega)
    · rw [if_neg hd, if_pos ‹_›]
      exact .left _ _ Nat.one_pos

theorem settle_spec (hlen : ∀ k, 0 < len k) (k d : Int) :
    InMonth len (start len k + d - 1) (settle hlen k d).1 (settle hlen k d).2 := by
  induction k, d using settle.induct hlen with
  | case1 k d h ih =>
      rw [settle, if_pos h]
      have hsame : start len (k + 1) + (d - len k) - 1 = start len k + d - 1 := by
        rw [start_succ]
        omega
      rwa [hsame] at ih
  | case2 k d h h' ih =>
      rw [settle, if_neg h, if_pos h']
      have hsame : start len (k - 1) + (d + len (k - 1)) - 1 = start len k + d - 1 := by
        rw [start_pred]
        omega
      rwa [hsame] at ih
  | case3 k d h h' =>
      rw [settle, if_neg h, if_neg h']
      exact ⟨Int.le_of_not_gt h', Int.le_of_not_gt h, rfl⟩

end Support.Calendar
