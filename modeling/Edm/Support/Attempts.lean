import Mathlib.Data.List.Basic
import Mathlib.Tactic.Common

/-!
# Support — Attempts

Jobs that are tried again.  A job is entered under a key, tried at some times, and in between told
to have failed, which lets it be tried earlier.  A log holds what happened, the last event first.

`tries` are the tries of a key since it was entered.  `Spaced` tells, try by try, that the one
before it is long enough ago (`lastTry`); from this `apart_of_spaced` follows for any two tries.
-/

namespace Support.Attempts

variable {κ : Type*}

/-- What can happen to a job. -/
inductive Event (κ : Type*) where
  | entered (key : κ)
  | tried (key : κ) (time : Int)
  | failed (key : κ)
  deriving DecidableEq

variable [DecidableEq κ]

def Event.isTry (key : κ) : Event κ → Bool
  | tried k _ => k == key
  | _ => false

open Event

/-- How often a key was tried since it was entered. -/
def tries (key : κ) : List (Event κ) → Nat
  | [] => 0
  | entered k :: log => if k = key then 0 else tries key log
  | tried k _ :: log => if k = key then tries key log + 1 else tries key log
  | failed _ :: log => tries key log

/-- When the key was tried last, if nothing else was heard of it since. -/
def lastTry (key : κ) : List (Event κ) → Option Int
  | [] => none
  | entered k :: log | failed k :: log => if k = key then none else lastTry key log
  | tried k t :: log => if k = key then some t else lastTry key log

/-- A try is `period` later than the one before it. -/
def Spaced (period : Int) : List (Event κ) → Prop
  | [] => True
  | tried k t :: log => (∀ t' ∈ lastTry k log, t' + period ≤ t) ∧ Spaced period log
  | _ :: log => Spaced period log

/-- What happened without an entry counts. -/
theorem countP_le_tries {key : κ} {log rest : List (Event κ)} (h : entered key ∉ log) :
    log.countP (isTry key) ≤ tries key (log ++ rest) := by
  induction log with
  | nil => simp
  | cons e log ih =>
      rw [List.mem_cons, not_or] at h
      rw [List.cons_append]
      cases e with
      | entered k =>
          have hk : k ≠ key := fun hk => h.1 (hk ▸ rfl)
          simpa [tries, isTry, hk] using ih h.2
      | tried k t =>
          by_cases hk : k = key
          · simpa [tries, isTry, hk] using ih h.2
          · simpa [tries, isTry, hk] using ih h.2
      | failed k => simpa [tries, isTry] using ih h.2

/-- Behind a try there is a last one, and it is not before that try. -/
theorem exists_lastTry {key : κ} {period t : Int} (hperiod : 0 ≤ period)
    {log rest : List (Event κ)} (hentered : entered key ∉ log) (hfailed : failed key ∉ log)
    (h : Spaced period (log ++ tried key t :: rest)) :
    ∃ t' ∈ lastTry key (log ++ tried key t :: rest), t ≤ t' := by
  induction log with
  | nil => exact ⟨t, by simp [lastTry], Int.le_refl t⟩
  | cons e log ih =>
      rw [List.mem_cons, not_or] at hentered hfailed
      rw [List.cons_append] at h ⊢
      cases e with
      | entered k =>
          have hk : k ≠ key := fun hk => hentered.1 (hk ▸ rfl)
          simpa [lastTry, hk] using ih hentered.2 hfailed.2 h
      | failed k =>
          have hk : k ≠ key := fun hk => hfailed.1 (hk ▸ rfl)
          simpa [lastTry, hk] using ih hentered.2 hfailed.2 h
      | tried k s =>
          obtain ⟨t', ht', hle⟩ := ih hentered.2 hfailed.2 h.2
          by_cases hk : k = key
          · subst hk
            have hstep := h.1 t' ht'
            exact ⟨s, by simp [lastTry], by omega⟩
          · exact ⟨t', by simpa [lastTry, hk] using ht', hle⟩

/-- Any two tries of a key are apart, if it was neither entered nor failed in between. -/
theorem apart_of_spaced {key : κ} {period t s : Int} (hperiod : 0 ≤ period)
    {log rest : List (Event κ)} (hentered : entered key ∉ log) (hfailed : failed key ∉ log)
    (h : Spaced period (tried key s :: (log ++ tried key t :: rest))) : t + period ≤ s := by
  obtain ⟨t', ht', hle⟩ := exists_lastTry hperiod hentered hfailed h.2
  have hstep := h.1 t' ht'
  omega

/-- What a log holds is spaced as well as the log. -/
theorem Spaced.of_append {period : Int} {log rest : List (Event κ)}
    (h : Spaced period (log ++ rest)) : Spaced period rest := by
  induction log with
  | nil => exact h
  | cons e log ih =>
      cases e with
      | entered k | failed k => exact ih h
      | tried k t => exact ih h.2

end Support.Attempts
