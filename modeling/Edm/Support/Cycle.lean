import Mathlib.Data.List.Basic
import Mathlib.Tactic.Common

/-!
# Support — Cycle

A machine that goes around `n` places.  Each step serves a place, and moves on by some places; of
the places it leaves, each one that needs to be served is the one it serves.  It may also stay,
but not for ever: staying costs credit, of which a place has at most `m`.

So in `n * (m + 1)` steps it serves every place that needs it, from whatever place it starts
(`Cyclic.serves`).
-/

namespace Support

section
variable {σ ι : Type*} (step : σ → ι → σ) (serve : σ → ι → Nat)

/-- The places served by consecutive steps. -/
def served : σ → List ι → List Nat
  | _, [] => []
  | s, i :: is => serve s i :: served (step s i) is

/-- The laws of the machine; `good` is its invariant, `used` the credit used up at a place. -/
structure Cyclic (place used : σ → Nat) (need : Nat → Prop) (good : σ → Prop) (n m : Nat) :
    Prop where
  kept : ∀ s i, good s → good (step s i)
  bound : ∀ s, good s → used s ≤ m
  moves : ∀ s i, good s → ∃ k, place (step s i) = (place s + k) % n ∧
    (∀ j < k, need ((place s + j) % n) → serve s i = (place s + j) % n) ∧
    used s + 1 ≤ k * (m + 1) + used (step s i)

variable {step serve} {place used : σ → Nat} {need : Nat → Prop} {good : σ → Prop} {n m : Nat}
  (h : Cyclic step serve place used need good n m)
include h

/-- After some steps, all places up to a distance are behind, and served if they need it; the
distance and the credit in use account for the number of the steps. -/
theorem Cyclic.passes : ∀ (is : List ι) {s : σ}, good s →
    ∃ k c, c ≤ m ∧ used s + is.length ≤ k * (m + 1) + c ∧
      ∀ j < k, need ((place s + j) % n) → (place s + j) % n ∈ served step serve s is
  | [], s, hs => ⟨0, used s, h.bound s hs, by simp, fun j hj => absurd hj (Nat.not_lt_zero j)⟩
  | i :: is, s, hs => by
      obtain ⟨k, hplace, hserve, hused⟩ := h.moves s i hs
      obtain ⟨k', c, hc, hlen, hrest⟩ := Cyclic.passes is (h.kept s i hs)
      refine ⟨k + k', c, hc, ?_, fun j hj hneed => ?_⟩
      · rw [List.length_cons, Nat.add_mul]
        omega
      · rcases Nat.lt_or_ge j k with hjk | hjk
        · rw [← hserve j hjk hneed]
          exact List.mem_cons_self
        · have hsame : (place (step s i) + (j - k)) % n = (place s + j) % n := by
            rw [hplace, Nat.mod_add_mod, Nat.add_assoc, Nat.add_sub_cancel' hjk]
          rw [← hsame] at hneed ⊢
          exact List.mem_cons_of_mem _ (hrest (j - k) (by omega) hneed)

/-- **Every place is served.** -/
theorem Cyclic.serves {is : List ι} (hlen : n * (m + 1) ≤ is.length) {s : σ} (hs : good s)
    (hplace : place s < n) {p : Nat} (hp : p < n) (hneed : need p) :
    p ∈ served step serve s is := by
  obtain ⟨k, c, hc, hk, hall⟩ := h.passes is hs
  have hn : n ≤ k := by
    by_contra hlt
    have hmul : (k + 1) * (m + 1) ≤ n * (m + 1) := Nat.mul_le_mul_right _ (by omega)
    rw [Nat.add_mul] at hmul
    omega
  -- The distance from the first place to `p`, going around.
  obtain ⟨j, hj, hjp⟩ : ∃ j < n, (place s + j) % n = p := by
    rcases Nat.lt_or_ge p (place s) with hlt | hge
    · refine ⟨n - place s + p, by omega, ?_⟩
      have : place s + (n - place s + p) = n + p := by omega
      rw [this, Nat.add_mod_left, Nat.mod_eq_of_lt hp]
    · refine ⟨p - place s, by omega, ?_⟩
      rw [Nat.add_sub_cancel' hge, Nat.mod_eq_of_lt hp]
  rw [← hjp] at hneed ⊢
  exact hall j (by omega) hneed

end

end Support
