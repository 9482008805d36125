import Mathlib.Data.List.Basic
import Mathlib.Data.List.Induction

/-!
# Support — History

`Since stop P log`: at some point of the history `log` (oldest first) `P` was true of what had
happened until then and of what happened then, and nothing that stops it has happened since.
`Throughout P log`: `P` was true of all that happened, and of what had happened until then.
-/

namespace Support

variable {α : Type*} {stop : α → Prop} {P : List α → α → Prop} {log : List α} {e : α}

def Since (stop : α → Prop) (P : List α → α → Prop) (log : List α) : Prop :=
  ∃ before e after, log = before ++ e :: after ∧ P before e ∧ ∀ x ∈ after, ¬ stop x

theorem Since.now (h : P log e) : Since stop P (log ++ [e]) :=
  ⟨log, e, [], rfl, h, fun _ hx => absurd hx List.not_mem_nil⟩

theorem Since.concat (h : Since stop P log) (he : ¬ stop e) : Since stop P (log ++ [e]) := by
  obtain ⟨before, d, after, rfl, hP, hstop⟩ := h
  refine ⟨before, d, after ++ [e], by rw [List.append_assoc, List.cons_append], hP, ?_⟩
  intro x hx
  rcases List.mem_append.mp hx with hx | hx
  · exact hstop x hx
  · exact List.mem_singleton.mp hx ▸ he

def Throughout (P : List α → α → Prop) (log : List α) : Prop :=
  ∀ before e after, log = before ++ e :: after → P before e

theorem throughout_nil : Throughout P [] := fun before e after h => by simp at h

theorem Throughout.of_append {log' : List α} (h : Throughout P (log ++ log')) :
    Throughout P log := by
  rintro before e after rfl
  exact h before e (after ++ log') (by rw [List.append_assoc, List.cons_append])

theorem throughout_concat : Throughout P (log ++ [e]) ↔ Throughout P log ∧ P log e := by
  constructor
  · exact fun h => ⟨h.of_append, h log e [] rfl⟩
  · rintro ⟨h, he⟩ before d after heq
    rcases List.eq_nil_or_concat after with rfl | ⟨after, d', rfl⟩
    · obtain ⟨rfl, hd⟩ := List.append_inj' heq rfl
      exact List.singleton_inj.mp hd ▸ he
    · rw [List.concat_eq_append, ← List.cons_append, ← List.append_assoc] at heq
      exact h before d after (List.append_inj' heq rfl).1

theorem throughout_append {log' : List α} : Throughout P (log ++ log') ↔
    Throughout P log ∧ Throughout (fun before e => P (log ++ before) e) log' := by
  induction log' using List.reverseRecOn with
  | nil => simp [throughout_nil]
  | append_singleton log' e ih =>
      rw [← List.append_assoc, throughout_concat, throughout_concat, ih, and_assoc]

end Support
