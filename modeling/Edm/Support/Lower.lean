import Edm.Support.CString

/-!
# Support — Lower

Texts written small.  A character that is no letter is where it was (`toLower_eq_iff`), so a text
is cut at the same place (`cut_tolower`), and writing small a second time changes nothing.
-/

namespace Support

/-- Capital letters move up by 32; all else stays. -/
theorem toLower_cases (c : Char) : (c.toLower = c ∧ ¬ (65 ≤ c.toNat ∧ c.toNat ≤ 90)) ∨
    (65 ≤ c.toNat ∧ c.toNat ≤ 90 ∧ c.toLower.toNat = c.toNat + 32) := by
  delta Char.toLower
  split
  next h =>
    have hlow : 65 ≤ c.val.toNat := h.1
    have hhigh : c.val.toNat ≤ 90 := h.2
    have hadd : (c.val + 32).toNat = c.val.toNat + 32 := by
      rw [UInt32.toNat_add]
      have h32 : (32 : UInt32).toNat = 32 := rfl
      omega
    exact .inr ⟨hlow, hhigh, hadd⟩
  next h => exact .inl ⟨rfl, fun hc => h ⟨hc.1, hc.2⟩⟩

/-- Only letters are written small. -/
theorem toLower_eq_iff {c d : Char} (hd : d.toNat < 65) : c.toLower = d ↔ c = d := by
  rcases toLower_cases c with ⟨h, -⟩ | ⟨h₁, -, h₂⟩
  · rw [h]
  · refine iff_of_false ?_ ?_
    · rintro rfl
      omega
    · rintro rfl
      omega

theorem toLower_toLower (c : Char) : c.toLower.toLower = c.toLower := by
  rcases toLower_cases c.toLower with ⟨h, -⟩ | ⟨h₁, h₂, -⟩
  · exact h
  · rcases toLower_cases c with ⟨h, -⟩ | ⟨h₃, -, h₄⟩
    · rw [h]
      exact h
    · omega

@[simp] theorem length_tolower (s : Text) : (tolower s).length = s.length := List.length_map _

theorem tolower_tolower (s : Text) : tolower (tolower s) = tolower s := by
  rw [tolower, tolower, List.map_map]
  exact List.map_congr_left fun c _ => toLower_toLower c

theorem tolower_isEmpty (s : Text) : (tolower s).isEmpty = s.isEmpty := List.isEmpty_map

theorem cut_tolower {c : Char} (hc : c.toNat < 65) (s : Text) :
    cut c (tolower s) = (tolower (cut c s).1, tolower (cut c s).2) := by
  have hp : ((· != c) ∘ Char.toLower) = (· != c) := by
    funext d
    have h := toLower_eq_iff (c := d) hc
    simp only [Function.comp_apply, bne, Bool.not_eq_eq_eq_not, Bool.not_not]
    rw [Bool.eq_iff_iff, beq_iff_eq, beq_iff_eq, h]
  rw [cut, tolower, List.takeWhile_map, List.dropWhile_map, hp, ← List.map_drop]
  rfl

end Support
