import Mathlib.Data.List.Nodup

/-!
# Support — Places

Things that are handed from one place to another.  `Placed` says that each thing there is has one
place; a step that moves one thing, or makes one, keeps it (`Placed.move`).
-/

namespace Support

variable {K P : Type*}

/-- Each thing there is has one place, and what there is not has none. -/
structure Placed (known : K → Prop) (at_ : K → P → Prop) : Prop where
  one : ∀ k, known k → ∃! p, at_ k p
  none : ∀ k, ¬ known k → ∀ p, ¬ at_ k p

/-- The thing `k` is at `p` now, and no other one has moved. -/
structure Moves (at_ at' : K → P → Prop) (k : K) (p : P) : Prop where
  here : ∀ q, at' k q ↔ q = p
  others : ∀ k', k' ≠ k → ∀ q, at' k' q ↔ at_ k' q

namespace Placed
variable {known known' : K → Prop} {at_ at' : K → P → Prop} {k : K} {p q : P}

theorem known_of (h : Placed known at_) (hp : at_ k p) : known k :=
  Classical.by_contradiction fun hk => h.none k hk p hp

theorem unique (h : Placed known at_) (hp : at_ k p) (hq : at_ k q) : p = q :=
  (h.one k (h.known_of hp)).unique hp hq

/-- The one place of a thing. -/
theorem iff_eq (h : Placed known at_) (hp : at_ k p) : at_ k q ↔ q = p := by
  constructor
  · exact fun hq => h.unique hq hp
  · rintro rfl
    exact hp

theorem move (h : Placed known at_) (hm : Moves at_ at' k p)
    (hknown : ∀ k', known' k' ↔ known k' ∨ k' = k) : Placed known' at' := by
  refine ⟨fun k' hk' => ?_, fun k' hk' q hq => ?_⟩
  · by_cases hk : k' = k
    · subst hk
      exact ⟨p, (hm.here p).mpr rfl, fun q hq => (hm.here q).mp hq⟩
    · obtain ⟨q, hq, hone⟩ := h.one k' (((hknown k').mp hk').resolve_right hk)
      exact ⟨q, (hm.others k' hk q).mpr hq, fun q' hq' => hone q' ((hm.others k' hk q').mp hq')⟩
  · rw [hknown, not_or] at hk'
    exact h.none k' hk'.1 q ((hm.others k' hk'.2 q).mp hq)

/-- Nothing has moved. -/
theorem congr (h : Placed known at_) (hat : ∀ k q, at' k q ↔ at_ k q) : Placed known at' :=
  ⟨fun k hk => by simpa only [hat] using h.one k hk, fun k hk p hp => h.none k hk p ((hat k p).mp hp)⟩

end Placed

end Support
