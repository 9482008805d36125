import Edm.Support.CString

/-!
# Faceside — Fault

What a task can do to the program: a step gives a value, or it goes wrong.  `Yields` says when it
gives which value, for one step and for steps one after the other.
-/

namespace Edm.Faceside

/-- What stops the program. -/
inductive Fault where
  | outOfRange
  | overrun
  | moved
  | format
  deriving DecidableEq

/-- A step that goes wrong unless `c` holds. -/
def require (c : Prop) [Decidable c] (e : Fault) : Except Fault Unit :=
  if c then .ok () else .error e

/-- A step gives `v` if `c` holds, and goes wrong if not. -/
structure Yields {α : Type} (x : Except Fault α) (c : Prop) (v : α) : Prop where
  ok : c → x = .ok v
  fault : ¬ c → ∃ e, x = .error e

section Yields

variable {α β : Type} {x : Except Fault α} {c d : Prop} {v : α} {f : α → Except Fault β} {w : β}

theorem Yields.isOk_iff (h : Yields x c v) : x.isOk = true ↔ c := by
  by_cases hc : c
  · rw [h.ok hc]
    exact iff_of_true rfl hc
  · obtain ⟨e, he⟩ := h.fault hc
    rw [he]
    exact iff_of_false nofun hc

theorem Yields.congr (h : Yields x c v) (hiff : c ↔ d) : Yields x d v :=
  ⟨fun hd => h.ok (hiff.mpr hd), fun hd => h.fault (mt hiff.mp hd)⟩

theorem yields_pure (v : α) : Yields (pure v) True v := ⟨fun _ => rfl, fun h => absurd trivial h⟩

theorem yields_require (c : Prop) [Decidable c] (e : Fault) : Yields (require c e) c () :=
  ⟨fun hc => if_pos hc, fun hc => ⟨e, if_neg hc⟩⟩

/-- One step after the other. -/
theorem Yields.bind (hx : Yields x c v) (hf : Yields (f v) d w) : Yields (x >>= f) (c ∧ d) w := by
  constructor
  · rintro ⟨hc, hd⟩
    rw [hx.ok hc]
    exact hf.ok hd
  · intro hcd
    by_cases hc : c
    · obtain ⟨e, he⟩ := hf.fault fun hd => hcd ⟨hc, hd⟩
      exact ⟨e, by rw [hx.ok hc]; exact he⟩
    · obtain ⟨e, he⟩ := hx.fault hc
      exact ⟨e, by rw [he]; rfl⟩

/-- A step that is followed by nothing that can go wrong. -/
theorem Yields.bind_pure (hx : Yields x c v) (g : α → β) :
    Yields (x >>= fun a => pure (g a)) c (g v) :=
  (hx.bind (yields_pure (g v))).congr (and_iff_left trivial)

end Yields

end Edm.Faceside
