import Mathlib.Data.List.Infix

/-!
# Support — SkipSearch

Searching a key in a text by skips: if the key is not at an offset, the next offset to try is told
by the character behind it.

* `FirstFrom`: the least index from an offset on, or that there is none.
* `Skips.le`: a skip that is no more than the distance of its character from the end of the key
  does not jump over an occurrence.
-/

namespace Support

variable {α β : Type*}

/-! ### The first index -/

/-- The least index from `i` on with the property, or none. -/
def FirstFrom (P : Nat → Prop) (i : Nat) : Option Nat → Prop
  | none => ∀ j, i ≤ j → ¬ P j
  | some k => i ≤ k ∧ P k ∧ ∀ j, i ≤ j → j < k → ¬ P j

section First
variable {P : Nat → Prop} {i s : Nat} {r : Option Nat}

theorem FirstFrom.here (h : P i) : FirstFrom P i (some i) :=
  ⟨Nat.le_refl i, h, fun _ hij hji => absurd hij (Nat.not_le.mpr hji)⟩

/-- Offsets that do not have the property may be jumped over. -/
theorem FirstFrom.jump (hno : ∀ j, i ≤ j → P j → i + s ≤ j) (h : FirstFrom P (i + s) r) :
    FirstFrom P i r := by
  cases r with
  | none => exact fun j hij hj => h j (hno j hij hj) hj
  | some k =>
      obtain ⟨hk, hP, hfirst⟩ := h
      exact ⟨Nat.le_of_add_right_le hk, hP, fun j hij hjk hj => hfirst j (hno j hij hj) hjk hj⟩

end First

/-! ### Occurrences -/

/-- The key stands in the text at `i`, as `f` compares them. -/
def OccursAt (f : α → β) (key text : List α) (i : Nat) : Prop := key.map f <+: (text.map f).drop i

section Occurs
variable {f : α → β} {key text : List α} {skip : β → Nat} {c : α} {i j : Nat}

instance [DecidableEq β] : Decidable (OccursAt f key text i) :=
  inferInstanceAs (Decidable (_ <+: _))

/-- The characters of an occurrence. -/
theorem OccursAt.getElem? (h : OccursAt f key text i) {k : Nat} (hk : k < key.length) :
    (text[i + k]?).map f = some (f key[k]) := by
  have hk' : k < (key.map f).length := by rwa [List.length_map]
  have hget := List.prefix_iff_getElem?.mp h k hk'
  rw [List.getElem?_drop, List.getElem?_map, List.getElem_map] at hget
  exact hget

/-- An occurrence ends in the text. -/
theorem OccursAt.le (h : OccursAt f key text i) (hkey : key ≠ []) :
    i + key.length ≤ text.length := by
  have hlen := h.length_le
  rw [List.length_map, List.length_drop, List.length_map] at hlen
  have := List.length_pos_iff.mpr hkey
  omega

/-- How far the key may be moved, by the character behind it. -/
structure Skips (f : α → β) (key : List α) (skip : β → Nat) : Prop where
  le_succ : ∀ c, skip c ≤ key.length + 1
  le_sub : ∀ k (h : k < key.length), skip (f key[k]) ≤ key.length - k

/-- No skip jumps over an occurrence. -/
theorem Skips.le (h : Skips f key skip) (hc : text[i + key.length]? = some c) (hij : i < j)
    (hocc : OccursAt f key text j) : i + skip (f c) ≤ j := by
  by_cases hlt : j ≤ i + key.length
  · have hk : i + key.length - j < key.length := by omega
    have hget := hocc.getElem? hk
    rw [show j + (i + key.length - j) = i + key.length by omega, hc, Option.map_some,
      Option.some.injEq] at hget
    have hskip := h.le_sub _ hk
    rw [← hget] at hskip
    omega
  · have hskip := h.le_succ (f c)
    omega

end Occurs

end Support
