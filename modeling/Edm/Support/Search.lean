import Mathlib.Data.List.Basic
import Mathlib.Tactic.Common

/-!
# Support — Search

`while (nB <= nE) { nM = (nB + nE) / 2; … }`: the binary search of a sorted table.  The window
is `[b, e)` with `e = nE + 1`.  Each probe that does not end the search shortens the window, so
the fuel `e - b` lasts to its end.
-/

namespace Support

/-- The search of the window `[b, e)`; `cmp m` is the sign of entry `m` against the key. -/
def bsearchFrom (cmp : Nat → Int) : Nat → Nat → Nat → Option Nat
  | 0, _, _ => none
  | fuel + 1, b, e =>
      if b < e then
        if cmp ((b + (e - 1)) / 2) < 0 then bsearchFrom cmp fuel ((b + (e - 1)) / 2 + 1) e
        else if 0 < cmp ((b + (e - 1)) / 2) then bsearchFrom cmp fuel b ((b + (e - 1)) / 2)
        else some ((b + (e - 1)) / 2)
      else none

/-- The search of a table of `n` entries. -/
def bsearch (cmp : Nat → Int) (n : Nat) : Option Nat := bsearchFrom cmp n 0 n

/-- The search looks at the entries of its window only. -/
theorem bsearchFrom_congr {cmp cmp' : Nat → Int} {fuel b e : Nat}
    (h : ∀ m < e, cmp m = cmp' m) : bsearchFrom cmp fuel b e = bsearchFrom cmp' fuel b e := by
  induction fuel generalizing b e with
  | zero => rfl
  | succ fuel ih =>
      simp only [bsearchFrom]
      split
      · rename_i hlt
        rw [h _ (by omega), ih h, ih fun m hm => h m (by omega)]
      · rfl

theorem bsearch_congr {cmp cmp' : Nat → Int} {n : Nat} (h : ∀ m < n, cmp m = cmp' m) :
    bsearch cmp n = bsearch cmp' n :=
  bsearchFrom_congr h

/-- What is found lies in the window and compares equal. -/
theorem bsearchFrom_some {cmp : Nat → Int} {fuel b e m : Nat}
    (h : bsearchFrom cmp fuel b e = some m) : b ≤ m ∧ m < e ∧ cmp m = 0 := by
  induction fuel generalizing b e with
  | zero => exact nomatch h
  | succ fuel ih =>
      rw [bsearchFrom] at h
      split_ifs at h with hlt h₁ h₂
      · obtain ⟨hb, he, h₀⟩ := ih h
        exact ⟨by omega, he, h₀⟩
      · obtain ⟨hb, he, h₀⟩ := ih h
        exact ⟨hb, by omega, h₀⟩
      · obtain rfl := Option.some.inj h
        exact ⟨by omega, by omega, by omega⟩

theorem bsearch_lt {cmp : Nat → Int} {n m : Nat} (h : bsearch cmp n = some m) : m < n :=
  (bsearchFrom_some h).2.1

end Support
