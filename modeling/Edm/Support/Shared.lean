import Mathlib.Algebra.BigOperators.Group.Finset.Basic
import Mathlib.Data.Fintype.Basic
import Mathlib.Data.Set.Finite.Basic
import Mathlib.Logic.Function.Basic

/-!
# Support — Shared

A store that threads read and write back: a thread reads the value of a key, and later writes what
it makes of the value it has read.  Single reads and writes are atomic, and nothing more.

While no thread reads a key that another has still to write back (`Shared.free`), what a thread has
read is what the store has (`Fresh`), and a write makes the new value from the value that is there
(`Fresh.write`).

`Serves` ties this to what the threads are about to do.  What they have under way is a sum over
them; `sum_update` says how it changes when one of them goes on.
-/

namespace Support

variable {T K V : Type*}

/-! ### Sums over the threads -/

theorem sum_update {P M : Type*} [AddCommMonoid M] [DecidableEq T] [Fintype T] (f : P → M)
    (threads : T → P) (t : T) (p : P) :
    ∑ u, f (Function.update threads t p u) + f (threads t) = ∑ u, f (threads u) + f p := by
  have hrest : ∑ u ∈ Finset.univ.erase t, f (Function.update threads t p u)
      = ∑ u ∈ Finset.univ.erase t, f (threads u) :=
    Finset.sum_congr rfl fun u hu => by rw [Function.update_of_ne (Finset.ne_of_mem_erase hu)]
  rw [← Finset.add_sum_erase _ _ (Finset.mem_univ t), hrest, Function.update_self,
    ← Finset.add_sum_erase Finset.univ (fun u => f (threads u)) (Finset.mem_univ t),
    add_comm (f p), add_right_comm, add_comm _ (f (threads t))]

/-! ### The store -/

/-- The values of the keys, and what each thread has read and is to write back. -/
structure Shared (T K V : Type*) where
  store : K → Option V
  pending : T → Option (K × Option V)

namespace Shared
variable [DecidableEq T] [DecidableEq K] (s : Shared T K V)

def empty : Shared T K V := ⟨fun _ => none, fun _ => none⟩

def read (t : T) (k : K) : Shared T K V :=
  { s with pending := Function.update s.pending t (some (k, s.store k)) }

/-- A thread writes back what `f` makes of the value it has read. -/
def write (t : T) (f : Option V → V) : Shared T K V :=
  match s.pending t with
  | none => s
  | some (k, v) =>
      { store := Function.update s.store k (some (f v))
        pending := Function.update s.pending t none }

/-- No thread has the key to write back. -/
def free [Fintype T] (k : K) : Bool := decide (∀ u, (s.pending u).all fun p => p.1 ≠ k)

omit [DecidableEq T] in
theorem free_iff [Fintype T] {k : K} : s.free k = true ↔ ∀ u v, s.pending u ≠ some (k, v) := by
  rw [free, decide_eq_true_iff]
  constructor
  · intro h u v hu
    have := h u
    rw [hu, Option.all_some, decide_eq_true_iff] at this
    exact this rfl
  · intro h u
    cases hu : s.pending u with
    | none => rfl
    | some p =>
      rw [Option.all_some, decide_eq_true_iff]
      rintro rfl
      exact h u p.2 hu

omit [DecidableEq T] [DecidableEq K] in
/-- What the threads have read is what is there, each thread another key. -/
structure Fresh (s : Shared T K V) : Prop where
  read : ∀ t k v, s.pending t = some (k, v) → s.store k = v
  alone : ∀ t u k v w, s.pending t = some (k, v) → s.pending u = some (k, w) → t = u

variable {s}

omit [DecidableEq T] [DecidableEq K] in
theorem Fresh.empty : (empty : Shared T K V).Fresh where
  read _ _ _ h := by cases h
  alone _ _ _ _ _ h := by cases h

omit [DecidableEq K] in
/-- What is pending behind a read. -/
theorem pending_read {t u : T} {k l : K} {v : Option V}
    (hu : (s.read t k).pending u = some (l, v)) :
    (u = t ∧ k = l ∧ s.store k = v) ∨ (u ≠ t ∧ s.pending u = some (l, v)) := by
  by_cases hut : u = t
  · subst hut
    have hself : (s.read u k).pending u = some (k, s.store k) := Function.update_self _ _ _
    obtain ⟨hk, hv⟩ := Prod.mk.inj (Option.some.inj (hself.symm.trans hu))
    exact .inl ⟨rfl, hk, hv⟩
  · have hother : (s.read t k).pending u = s.pending u := Function.update_of_ne hut _ _
    exact .inr ⟨hut, hother.symm.trans hu⟩

omit [DecidableEq K] in
theorem Fresh.read_key (h : s.Fresh) {t : T} {k : K} (hfree : ∀ u v, s.pending u ≠ some (k, v)) :
    (s.read t k).Fresh where
  read u l v hu := by
    rcases pending_read hu with ⟨-, rfl, hv⟩ | ⟨-, hu⟩
    · exact hv
    · exact h.read u l v hu
  alone u u' l v w hu hu' := by
    rcases pending_read hu with ⟨rfl, rfl, -⟩ | ⟨-, hu⟩
    · rcases pending_read hu' with ⟨rfl, -, -⟩ | ⟨-, hu'⟩
      · rfl
      · exact absurd hu' (hfree u' w)
    · rcases pending_read hu' with ⟨-, rfl, -⟩ | ⟨-, hu'⟩
      · exact absurd hu (hfree u v)
      · exact h.alone u u' l v w hu hu'

/-- A write acts on the value that is there. -/
theorem Fresh.write (h : s.Fresh) {t : T} {k : K} {v : Option V} (ht : s.pending t = some (k, v))
    (f : Option V → V) : (s.write t f).Fresh ∧
      (s.write t f).store = Function.update s.store k (some (f (s.store k))) := by
  have hv := h.read t k v ht
  have hwrite : s.write t f = ⟨Function.update s.store k (some (f v)),
      Function.update s.pending t none⟩ := by
    rw [Shared.write, ht]
  rw [hwrite]
  have hold : ∀ u l w, (Function.update s.pending t none) u = some (l, w) →
      u ≠ t ∧ s.pending u = some (l, w) := by
    intro u l w hu
    by_cases hut : u = t
    · subst hut
      rw [Function.update_self] at hu
      cases hu
    · exact ⟨hut, (Function.update_of_ne hut _ _).symm.trans hu⟩
  refine ⟨⟨fun u l w hu => ?_, fun u u' l w w' hu hu' => ?_⟩, by rw [hv]⟩
  · obtain ⟨hut, hbefore⟩ := hold u l w hu
    have hne : l ≠ k := by
      rintro rfl
      exact hut (h.alone u t l w v hbefore ht)
    exact (Function.update_of_ne hne _ _).trans (h.read u l w hbefore)
  · exact h.alone u u' l w w' (hold u l w hu).2 (hold u' l w' hu').2

/-! ### What the threads know -/

omit [DecidableEq T] [DecidableEq K] in
/-- A thread that is to write a key back has read it. -/
structure Serves (s : Shared T K V) (waits : T → Option K) : Prop where
  fresh : s.Fresh
  pending : ∀ t k, waits t = some k → ∃ v, s.pending t = some (k, v)

variable {waits : T → Option K}

omit [DecidableEq K] in
/-- A thread gives up what it was to write back. -/
theorem Serves.rest (h : s.Serves waits) (t : T) : s.Serves (Function.update waits t none) where
  fresh := h.fresh
  pending u k hu := by
    by_cases hut : u = t
    · subst hut
      rw [Function.update_self] at hu
      cases hu
    · rw [Function.update_of_ne hut] at hu
      exact h.pending u k hu

omit [DecidableEq K] in
theorem Serves.read (h : s.Serves waits) {t : T} {k : K}
    (hfree : ∀ u v, s.pending u ≠ some (k, v)) :
    (s.read t k).Serves (Function.update waits t (some k)) where
  fresh := h.fresh.read_key hfree
  pending u l hu := by
    by_cases hut : u = t
    · subst hut
      rw [Function.update_self] at hu
      obtain rfl := Option.some.inj hu
      exact ⟨s.store k, Function.update_self _ _ _⟩
    · rw [Function.update_of_ne hut] at hu
      obtain ⟨v, hv⟩ := h.pending u l hu
      exact ⟨v, (Function.update_of_ne hut _ _).trans hv⟩

/-- A thread writes back what it has read, as if it read it now. -/
theorem Serves.write (h : s.Serves waits) {t : T} {k : K} (ht : waits t = some k)
    (f : Option V → V) : (s.write t f).Serves (Function.update waits t none) ∧
      (s.write t f).store = Function.update s.store k (some (f (s.store k))) := by
  obtain ⟨v, hv⟩ := h.pending t k ht
  obtain ⟨hfresh, hstore⟩ := h.fresh.write hv f
  refine ⟨⟨hfresh, fun u l hu => ?_⟩, hstore⟩
  by_cases hut : u = t
  · subst hut
    rw [Function.update_self] at hu
    cases hu
  · rw [Function.update_of_ne hut] at hu
    obtain ⟨w, hw⟩ := h.pending u l hu
    have hpending : (s.write t f).pending = Function.update s.pending t none := by
      rw [Shared.write, hv]
    exact ⟨w, by rw [hpending, Function.update_of_ne hut, hw]⟩

/-! ### What is stored -/

omit [DecidableEq T] [DecidableEq K] in
/-- The keys that are stored, and those that are to be written back. -/
structure Keys (s : Shared T K V) (P : K → Prop) : Prop where
  store : ∀ k, s.store k ≠ none → P k
  pending : ∀ t k v, s.pending t = some (k, v) → P k

variable {P : K → Prop}

omit [DecidableEq T] [DecidableEq K] in
theorem Keys.empty : (empty : Shared T K V).Keys P where
  store _ h := absurd rfl h
  pending _ _ _ h := by cases h

omit [DecidableEq K] in
theorem Keys.read (h : s.Keys P) (t : T) {k : K} (hk : P k) : (s.read t k).Keys P where
  store := h.store
  pending u l v hu := by
    rcases pending_read hu with ⟨-, rfl, -⟩ | ⟨-, hu⟩
    · exact hk
    · exact h.pending u l v hu

theorem Keys.write (h : s.Keys P) (t : T) (f : Option V → V) : (s.write t f).Keys P := by
  rw [Shared.write]
  split
  next => exact h
  next k v ht =>
    refine ⟨fun l hl => ?_, fun u l w hu => ?_⟩
    · by_cases hlk : l = k
      · rw [hlk]
        exact h.pending t k v ht
      · exact h.store l fun hnone => hl ((Function.update_of_ne hlk _ _).trans hnone)
    · by_cases hut : u = t
      · subst hut
        cases (Function.update_self _ _ _).symm.trans hu
      · exact h.pending u l w ((Function.update_of_ne hut _ _).symm.trans hu)

/-- A write stores one key more at most. -/
theorem finite_write (h : {k | s.store k ≠ none}.Finite) (t : T) (f : Option V → V) :
    {k | (s.write t f).store k ≠ none}.Finite := by
  rw [Shared.write]
  split
  next => exact h
  next k v _ =>
    refine (h.insert k).subset fun l hl => ?_
    by_cases hlk : l = k
    · exact Set.mem_insert_iff.mpr (.inl hlk)
    · exact Set.mem_insert_of_mem _ fun hnone => hl ((Function.update_of_ne hlk _ _).trans hnone)

end Shared

end Support
