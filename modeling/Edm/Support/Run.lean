import Mathlib.Data.List.Basic
import Mathlib.Tactic.Common

/-!
# Support — Run

Finite runs of a labelled step relation.  `Run R s is s'` takes the steps labelled `is`, in
order, from `s` to `s'`.  `Guarded G R` keeps the steps of `R` whose label meets `G` at the
state it is taken from, so `Run (Guarded G R)` is a run whose steps all meet a condition.

* `Run.invariant`: what every step preserves holds at the end of every run.
* `Run.toRun`: a guarded run is a run.
* `visits f s is` are the states, with their labels, at which a deterministic machine `f` takes
  its steps; `forall_visits_iff_of_invariant` carries a fact about one step to every step of a
  history.
-/

namespace Support

variable {σ ι : Type*}

/-- `s` goes to `s'` by the steps labelled `is`. -/
inductive Run (R : σ → ι → σ → Prop) : σ → List ι → σ → Prop where
  | refl (s : σ) : Run R s [] s
  | more {s s₁ s' : σ} {i : ι} {is : List ι} (h : R s i s₁) (t : Run R s₁ is s') :
      Run R s (i :: is) s'

/-- The steps of `R` whose label meets `G` at the state before. -/
def Guarded (G : σ → ι → Prop) (R : σ → ι → σ → Prop) (s : σ) (i : ι) (s' : σ) : Prop :=
  G s i ∧ R s i s'

namespace Run

variable {R : σ → ι → σ → Prop}

theorem one {s s' : σ} {i : ι} (h : R s i s') : Run R s [i] s' := .more h (.refl _)

theorem trans {s s₁ s' : σ} {is is' : List ι} (h : Run R s is s₁) (t : Run R s₁ is' s') :
    Run R s (is ++ is') s' := by
  induction h with
  | refl => exact t
  | more h _ ih => exact .more h (ih t)

theorem mono {R' : σ → ι → σ → Prop} (hR : ∀ s i s', R s i s' → R' s i s') {s s' : σ}
    {is : List ι} (h : Run R s is s') : Run R' s is s' := by
  induction h with
  | refl => exact .refl _
  | more h _ ih => exact .more (hR _ _ _ h) ih

/-- A guarded run is a run. -/
theorem toRun {G : σ → ι → Prop} {s s' : σ} {is : List ι} (h : Run (Guarded G R) s is s') :
    Run R s is s' :=
  h.mono fun _ _ _ h => h.2

/-- What every step preserves holds at the end of every run. -/
theorem invariant {I : σ → Prop} (hI : ∀ s i s', I s → R s i s' → I s') {s s' : σ}
    {is : List ι} (h : Run R s is s') (h₀ : I s) : I s' := by
  induction h with
  | refl => exact h₀
  | more h _ ih => exact ih (hI _ _ _ h₀ h)

/-- A machine that computes its next state runs on every input. -/
theorem foldl (f : σ → ι → σ) : ∀ (is : List ι) (s : σ),
    Run (fun s i s' => s' = f s i) s is (is.foldl f s)
  | [], s => .refl s
  | i :: is, s => .more rfl (foldl f is (f s i))

/-- A machine that may stop runs as far as it gets. -/
theorem of_foldlM {f : σ → ι → Option σ} : ∀ {is : List ι} {s s' : σ}, is.foldlM f s = some s' →
    Run (fun s i s' => f s i = some s') s is s'
  | [], s, s', h => by
      cases h
      exact .refl s
  | i :: is, s, s', h => by
      rw [List.foldlM_cons, Option.bind_eq_bind, Option.bind_eq_some_iff] at h
      obtain ⟨s₁, h₁, h⟩ := h
      exact .more h₁ (of_foldlM h)

/-- A run of a machine whose steps are checked before they are taken. -/
theorem of_checked {G : σ → ι → Prop} {f : σ → ι → Option σ} {check : σ → ι → Bool}
    (hG : ∀ s i, check s i = true → G s i) {is : List ι} {s s' : σ}
    (h : is.foldlM (fun s i => if check s i then f s i else none) s = some s') :
    Run (Guarded G fun s i s' => f s i = some s') s is s' := by
  refine (of_foldlM h).mono fun s i s' h => ?_
  split at h
  next hcheck => exact ⟨hG s i hcheck, h⟩
  next => exact nomatch h

end Run

/-! ### Deterministic machines -/

/-- The states, with the labels of the steps taken from them, of the machine `f`. -/
def visits (f : σ → ι → σ) : σ → List ι → List (σ × ι)
  | _, [] => []
  | s, i :: is => (s, i) :: visits f (f s i) is

/-- A machine runs on the labels when each of its steps, taken in turn, is one of `R`. -/
theorem Run.of_visits {R : σ → ι → σ → Prop} {f : σ → ι → σ} : ∀ {s : σ} {is : List ι},
    (∀ p ∈ visits f s is, R p.1 p.2 (f p.1 p.2)) → Run R s is (is.foldl f s)
  | s, [], _ => .refl s
  | _, _ :: _, h => .more (h _ List.mem_cons_self)
      (Run.of_visits fun p hp => h p (List.mem_cons_of_mem _ hp))

/-- Along a history, `P` and `Q` agree on every step when they agree where the invariant `I` holds
and the steps that meet `Q` keep it. -/
theorem forall_visits_iff_of_invariant {f : σ → ι → σ} {P Q : σ → ι → Prop} {I : σ → Prop}
    (hPQ : ∀ s i, I s → (P s i ↔ Q s i)) (hI : ∀ s i, I s → Q s i → I (f s i)) :
    ∀ {s : σ} {is : List ι}, I s →
      ((∀ p ∈ visits f s is, P p.1 p.2) ↔ ∀ p ∈ visits f s is, Q p.1 p.2)
  | _, [], _ => iff_of_true (fun _ h => nomatch h) (fun _ h => nomatch h)
  | s, i :: is, h => by
      rw [visits, List.forall_mem_cons, List.forall_mem_cons, hPQ s i h]
      exact and_congr_right fun hQ => forall_visits_iff_of_invariant hPQ hI (hI s i h hQ)

end Support
