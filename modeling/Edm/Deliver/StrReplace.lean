import Edm.Support.Holes
import Edm.Deliver.Template

/-!
# Deliver — StrReplace

The engine has two ways to put a string in the place of another.

* `dw_replace` goes on behind the text it has put in: it is `replaceAll` (`dwReplace_eq`).
* `DeliverEngineApp::StrReplace` starts again at the front of the text: it is `Reduces`
  (`strReplace_iff`).
* `strReplace_agrees`: they agree where each replacement is in its turn, and, when `newstr` begins
  `oldstr`, nowhere else if two `oldstr` that overlap can be replaced in either order.
* `strReplace_own_placeholder`: a value with its own placeholder in it is replaced for ever.
-/

namespace Edm.Deliver

open Support

/-! ### The two loops -/

variable {text oldstr newstr : Text}

/-- `skip` passes over what is left of an `optr`. -/
theorem dwReplaceFrom_skip (optr nptr : Text) (skip : Nat) (text : Text) :
    dwReplaceFrom optr nptr skip text = dwReplaceFrom optr nptr 0 (text.drop skip) := by
  induction text generalizing skip with
  | nil => cases skip <;> rfl
  | cons c text ih =>
      cases skip with
      | zero => rfl
      | succ skip => exact ih skip

theorem dwReplaceFrom_none {text : Text} (h : breakAt oldstr text = none) :
    dwReplaceFrom oldstr newstr 0 text = (text, 0) := by
  induction text with
  | nil => rfl
  | cons c text ih =>
      have hinfix := breakAt_eq_none_iff.mp h
      rw [List.infix_cons_iff, not_or, ← List.isPrefixOf_iff_prefix] at hinfix
      rw [dwReplaceFrom, if_neg hinfix.1, ih (breakAt_eq_none_iff.mpr hinfix.2)]

theorem dwReplaceFrom_some (hne : oldstr ≠ []) {text p r : Text}
    (h : breakAt oldstr text = some (p, r)) : dwReplaceFrom oldstr newstr 0 text =
      (p ++ (newstr ++ (dwReplaceFrom oldstr newstr 0 r).1),
        (dwReplaceFrom oldstr newstr 0 r).2 + 1) := by
  induction text generalizing p with
  | nil =>
      rw [breakAt, if_neg hne] at h
      cases h
  | cons c text ih =>
      rw [breakAt] at h
      rw [dwReplaceFrom]
      split at h
      next hp =>
        obtain ⟨rfl, rfl⟩ := Prod.mk.inj (Option.some.inj h)
        rw [if_pos (List.isPrefixOf_iff_prefix.mpr hp), dwReplaceFrom_skip]
        obtain ⟨n, hn⟩ : ∃ n, oldstr.length = n + 1 :=
          Nat.exists_eq_succ_of_ne_zero (mt List.length_eq_zero_iff.mp hne)
        rw [hn, List.drop_succ_cons, Nat.add_sub_cancel]
        rfl
      next hp =>
        obtain ⟨⟨p₁, r₁⟩, hs, heq⟩ := Option.map_eq_some_iff.mp h
        obtain ⟨rfl, rfl⟩ := Prod.mk.inj heq
        rw [if_neg (mt List.isPrefixOf_iff_prefix.mp hp), ih hs]
        rfl

/-- `dw_replace` replaces each `optr` of the text, from left to right, and counts them. -/
theorem dwReplace_eq (hne : oldstr ≠ []) (newstr text : Text) :
    dwReplace text oldstr newstr = (replaceAll hne newstr text, occurrences hne text) := by
  rw [dwReplace]
  induction text using breakAt_induction hne with
  | none s h => rw [dwReplaceFrom_none h, replaceAll_none h, occurrences_none h]
  | some s p r h ih =>
      rw [dwReplaceFrom_some hne h, replaceAll_some h, occurrences_some h, ih]

/-- `StrReplace` ends with the text `dest`. -/
theorem strReplace_iff (hnot : oldstr ≠ newstr) {dest : Text} :
    (∃ fuel, strReplace fuel text oldstr newstr = some dest) ↔
      Reduces oldstr newstr text dest := by
  rw [reduces_iff]
  simp only [strReplace, if_neg hnot]

/-- `StrReplace` ends, with the text that `dw_replace` makes. -/
def Agrees (text oldstr newstr : Text) : Prop :=
  ∃ fuel, strReplace fuel text oldstr newstr = some (dwReplace text oldstr newstr).1

theorem agrees_iff (hne : oldstr ≠ []) (hnot : oldstr ≠ newstr) : Agrees text oldstr newstr ↔
    Reduces oldstr newstr text (replaceAll hne newstr text) := by
  rw [Agrees, dwReplace_eq hne]
  exact strReplace_iff hnot

theorem agrees_self (hne : oldstr ≠ []) : Agrees text oldstr oldstr := by
  refine ⟨0, ?_⟩
  rw [strReplace, if_pos rfl, dwReplace_eq hne, replaceAll_self]

/-! ### Where they agree -/

/-- They agree where each replacement is in its turn.  It is so only there: unless `newstr` begins
`oldstr`, and two `oldstr` overlap so that it matters which of them is replaced. -/
theorem strReplace_agrees (hne : oldstr ≠ []) :
    (oldstr = newstr ∨ InTurn hne newstr [] text → Agrees text oldstr newstr) ∧
    ((newstr <+: oldstr → Turns oldstr newstr) → Agrees text oldstr newstr →
      oldstr = newstr ∨ InTurn hne newstr [] text) := by
  constructor
  · rintro (rfl | h)
    · exact agrees_self hne
    · by_cases hnot : oldstr = newstr
      · exact hnot ▸ agrees_self hne
      · exact (agrees_iff hne hnot).mpr (reduces_of_inTurn hne h)
  · intro hturns h
    by_cases hnot : oldstr = newstr
    · exact .inl hnot
    · exact .inr (inTurn_of_reduces hne hnot hturns ((agrees_iff hne hnot).mp h))

/-- A value put in the place of its placeholder, twice. -/
theorem strReplace_agrees_ann :
    Agrees "$name$, dear $name$".toList "$name$".toList "Ann".toList :=
  (strReplace_agrees (by decide)).1 (.inr (by decide +kernel))

/-- A value with its own placeholder in it: the loop does not end. -/
theorem strReplace_own_placeholder : ¬ ∀ text oldstr newstr : Text, oldstr ≠ [] →
    Agrees text oldstr newstr := by
  intro h
  have hends := h "$name$".toList "$name$".toList "$name$ Lee".toList (by decide)
  rw [Agrees, strReplace_iff (by decide)] at hends
  exact hends.absent (by decide +kernel)

/-- The `b` that is put in makes an `ab` with the `a` before it. -/
example : strReplace 3 "aab".toList "ab".toList "b".toList = some "b".toList ∧
    (dwReplace "aab".toList "ab".toList "b".toList).1 = "ab".toList := by decide +kernel

end Edm.Deliver
