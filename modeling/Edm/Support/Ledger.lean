import Mathlib.Data.List.Nodup
import Mathlib.Logic.Function.Basic
import Mathlib.Tactic.Common

/-!
# Support — Ledger

What is allocated, over the whole life of a program.  Memory that is given back is used again, so a
place `p` does not say which object it holds: objects are numbered as they are made, and the ledger
says which object is where and which objects were freed, in order.

`Exact`: every object that was made is in one place or was freed, and was freed once
(`Exact.count`). It is kept by `make` at a place that is not taken and by `free` at one that is;
what `free` does to a place that is not taken is for the program to say, so it is `none` here.
-/

namespace Support

/-- Which object is where, how many were made, and which were freed. -/
structure Ledger (P : Type*) where
  live : P → Option Nat
  made : Nat
  freed : List Nat

namespace Ledger
variable {P : Type*} {l l' : Ledger P} {p : P}

def empty : Ledger P := ⟨fun _ => none, 0, []⟩

section operations
variable [DecidableEq P]

/-- A new object at `p`. -/
def make (l : Ledger P) (p : P) : Ledger P :=
  { l with live := Function.update l.live p (some l.made), made := l.made + 1 }

/-- The object at `p` is freed. -/
def free (l : Ledger P) (p : P) : Option (Ledger P) :=
  (l.live p).map fun m =>
    { l with live := Function.update l.live p none, freed := l.freed ++ [m] }

@[simp] theorem make_live_self (l : Ledger P) (p : P) : (l.make p).live p = some l.made :=
  Function.update_self ..

theorem make_live_of_ne (l : Ledger P) {q : P} (h : q ≠ p) : (l.make p).live q = l.live q :=
  Function.update_of_ne h _ _

theorem free_eq {m : Nat} (h : l.live p = some m) :
    l.free p = some { l with live := Function.update l.live p none, freed := l.freed ++ [m] } := by
  rw [free, h]
  rfl

end operations

/-- Every object is in one place, or was freed once. -/
structure Exact (l : Ledger P) : Prop where
  /-- An object is in one place. -/
  one : ∀ {p q m}, l.live p = some m → l.live q = some m → p = q
  /-- An object that is somewhere was made and was not freed. -/
  kept : ∀ {p m}, l.live p = some m → m < l.made ∧ m ∉ l.freed
  /-- What was made is somewhere or was freed. -/
  found : ∀ {m}, m < l.made → m ∈ l.freed ∨ ∃ p, l.live p = some m
  /-- Only what was made was freed. -/
  freed : ∀ {m}, m ∈ l.freed → m < l.made
  /-- Nothing was freed twice. -/
  once : l.freed.Nodup

namespace Exact

theorem empty : Exact (empty : Ledger P) where
  one h := nomatch h
  kept h := nomatch h
  found h := absurd h (Nat.not_lt_zero _)
  freed h := absurd h List.not_mem_nil
  once := List.nodup_nil

/-- An object that was made was freed exactly once, unless it is somewhere. -/
theorem count (h : l.Exact) {m : Nat} (hm : m < l.made) :
    l.freed.count m = 1 ∧ (∀ p, l.live p ≠ some m) ∨
      l.freed.count m = 0 ∧ ∃ p, l.live p = some m := by
  rcases h.found hm with hfreed | ⟨p, hp⟩
  · exact .inl ⟨List.count_eq_one_of_mem h.once hfreed, fun p hp => (h.kept hp).2 hfreed⟩
  · exact .inr ⟨List.count_eq_zero_of_not_mem (h.kept hp).2, p, hp⟩

variable [DecidableEq P]

theorem make (h : l.Exact) (hp : l.live p = none) : (l.make p).Exact where
  one {q r m} hq hr := by
    dsimp only [Ledger.make, Function.update_apply] at hq hr
    rw [Function.update_apply] at hq hr
    split at hq <;> split at hr
    next hqp hrp => exact hqp.trans hrp.symm
    next => exact absurd (h.kept hr).1 (Option.some.inj hq ▸ Nat.lt_irrefl _)
    next => exact absurd (h.kept hq).1 (Option.some.inj hr ▸ Nat.lt_irrefl _)
    next => exact h.one hq hr
  kept {q m} hq := by
    dsimp only [Ledger.make] at hq ⊢
    rw [Function.update_apply] at hq
    split at hq
    · obtain rfl := Option.some.inj hq
      exact ⟨Nat.lt_succ_self _, fun hm => Nat.lt_irrefl _ (h.freed hm)⟩
    · exact ⟨Nat.lt_succ_of_lt (h.kept hq).1, (h.kept hq).2⟩
  found {m} hm := by
    dsimp only [Ledger.make] at hm ⊢
    rcases Nat.lt_succ_iff_lt_or_eq.mp hm with hm | rfl
    · refine (h.found hm).imp_right fun ⟨q, hq⟩ => ⟨q, ?_⟩
      rw [Function.update_of_ne, hq]
      rintro rfl
      rw [hp] at hq
      cases hq
    · exact .inr ⟨p, make_live_self l p⟩
  freed hm := Nat.lt_succ_of_lt (h.freed hm)
  once := h.once

theorem free (h : l.Exact) (hp : l.free p = some l') : l'.Exact := by
  obtain ⟨n, hn, rfl⟩ := Option.map_eq_some_iff.mp hp
  have hlive : ∀ {q m}, Function.update l.live p none q = some m → q ≠ p ∧ l.live q = some m := by
    intro q m hq
    rw [Function.update_apply] at hq
    split at hq
    next => cases hq
    next hqp => exact ⟨hqp, hq⟩
  constructor
  case one =>
    intro q r m hq hr
    exact h.one (hlive hq).2 (hlive hr).2
  case kept =>
    intro q m hlater
    obtain ⟨hqp, hq⟩ := hlive hlater
    refine ⟨(h.kept hq).1, fun hm => ?_⟩
    rcases List.mem_append.mp hm with hm | hm
    · exact (h.kept hq).2 hm
    · obtain rfl := List.mem_singleton.mp hm
      exact hqp (h.one hq hn)
  case found =>
    intro m hm
    rcases h.found hm with hfreed | ⟨q, hq⟩
    · exact .inl (List.mem_append_left _ hfreed)
    · rcases eq_or_ne q p with rfl | hqp
      · rw [hn] at hq
        exact .inl (List.mem_append_right _ (List.mem_singleton.mpr (Option.some.inj hq).symm))
      · exact .inr ⟨q, (Function.update_of_ne hqp _ _).trans hq⟩
  case freed =>
    intro m hm
    rcases List.mem_append.mp hm with hm | hm
    · exact h.freed hm
    · exact List.mem_singleton.mp hm ▸ (h.kept hn).1
  case once =>
    rw [List.nodup_append]
    refine ⟨h.once, List.nodup_singleton n, fun m hm k hk hmk => (h.kept hn).2 ?_⟩
    rw [← List.mem_singleton.mp hk, ← hmk]
    exact hm

end Exact
end Ledger

end Support
