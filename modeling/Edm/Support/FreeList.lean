import Mathlib.Data.List.Nodup
import Mathlib.Data.List.GetD

/-!
# Support — FreeList

A free list threaded through an array of indices: the entry of a free index is the one behind it,
the entry of the last one is `ending`, and the entry of an index that is handed out is `taken`.

`FreeList.pop` hands out the first index, `FreeList.push` takes one back, and `FreeList.init` is the
list with every index of a new array.
-/

namespace Support

/-- `is` are the indices of the list that begins at `i`. -/
def Threaded (next : List Nat) (ending : Nat) : Nat → List Nat → Prop
  | i, [] => i = ending
  | i, j :: is => i = j ∧ j < next.length ∧ Threaded next ending (next.getD j 0) is

/-- The indices of the list are free, each once, and the others are taken. -/
structure FreeList (next : List Nat) (ending taken first : Nat) (free : List Nat) : Prop where
  threaded : Threaded next ending first free
  nodup : free.Nodup
  taken_iff : ∀ i < next.length, next.getD i 0 = taken ↔ i ∉ free

section
variable {next : List Nat} {ending taken first : Nat} {free : List Nat}

theorem getD_set_self {i : Nat} (hi : i < next.length) (x : Nat) : (next.set i x).getD i 0 = x := by
  rw [List.getD_eq_getElem?_getD, List.getElem?_set_self hi, Option.getD_some]

theorem getD_set_of_ne {i j : Nat} (h : i ≠ j) (x : Nat) :
    (next.set i x).getD j 0 = next.getD j 0 := by
  rw [List.getD_eq_getElem?_getD, List.getElem?_set_ne h, ← List.getD_eq_getElem?_getD]

/-- An entry off the list may change. -/
theorem Threaded.set {i : Nat} (hi : i ∉ free) (x : Nat) (h : Threaded next ending first free) :
    Threaded (next.set i x) ending first free := by
  induction free generalizing first with
  | nil => exact h
  | cons j is ih =>
      obtain ⟨hfirst, hlt, hrest⟩ := h
      rw [List.mem_cons, not_or] at hi
      refine ⟨hfirst, by rwa [List.length_set], ?_⟩
      rw [getD_set_of_ne hi.1]
      exact ih hi.2 hrest

theorem Threaded.lt (h : Threaded next ending first free) {i : Nat} (hi : i ∈ free) :
    i < next.length := by
  induction free generalizing first with
  | nil => cases hi
  | cons j is ih =>
      obtain ⟨-, hlt, hrest⟩ := h
      rcases List.mem_cons.mp hi with rfl | hi
      · exact hlt
      · exact ih hrest hi

namespace FreeList

theorem eq_nil_iff (h : FreeList next ending taken first free) (hlen : next.length ≤ ending) :
    free = [] ↔ first = ending := by
  cases free with
  | nil => exact iff_of_true rfl h.threaded
  | cons i is =>
      obtain ⟨hfirst, hlt, -⟩ := h.threaded
      exact iff_of_false (by simp) (by omega)

/-- The first index is handed out. -/
theorem pop {i : Nat} (h : FreeList next ending taken first (i :: free)) :
    first = i ∧ i < next.length ∧ i ∉ free ∧
      FreeList (next.set i taken) ending taken (next.getD i 0) free := by
  obtain ⟨hfirst, hlt, hrest⟩ := h.threaded
  obtain ⟨hnot, hnodup⟩ := List.nodup_cons.mp h.nodup
  refine ⟨hfirst, hlt, hnot, hrest.set hnot taken, hnodup, fun j hj => ?_⟩
  rw [List.length_set] at hj
  by_cases hij : i = j
  · subst hij
    rw [getD_set_self hlt]
    exact iff_of_true rfl hnot
  · rw [getD_set_of_ne hij, h.taken_iff j hj, List.mem_cons, not_or]
    exact and_iff_right fun hji => hij hji.symm

/-- A taken index is taken back. -/
theorem push {i : Nat} (h : FreeList next ending taken first free) (hi : i < next.length)
    (htaken : next.getD i 0 = taken) (hlen : next.length ≤ taken) (hne : ending ≠ taken) :
    i ∉ free ∧ FreeList (next.set i first) ending taken i (i :: free) := by
  have hnot := (h.taken_iff i hi).mp htaken
  have hfirst : first ≠ taken := by
    cases free with
    | nil => rwa [show first = ending from h.threaded]
    | cons j is =>
        obtain ⟨hfirst, hlt, -⟩ := h.threaded
        omega
  refine ⟨hnot, ⟨rfl, by rwa [List.length_set], ?_⟩, List.nodup_cons.mpr ⟨hnot, h.nodup⟩,
    fun j hj => ?_⟩
  · rw [getD_set_self hi]
    exact h.threaded.set hnot first
  · rw [List.length_set] at hj
    by_cases hij : i = j
    · subst hij
      rw [getD_set_self hi]
      exact iff_of_false hfirst (by simp)
    · rw [getD_set_of_ne hij, h.taken_iff j hj, List.mem_cons, not_or]
      exact (and_iff_right fun hji => hij hji.symm).symm

/-- Every index is free when each entry is the index behind it, and the last one is `ending`. -/
theorem init {n : Nat} (hlen : next.length = n + 1) (hnext : ∀ i < n, next.getD i 0 = i + 1)
    (hlast : next.getD n 0 = ending) (htaken : n + 1 ≤ taken) (hne : ending ≠ taken) :
    FreeList next ending taken 0 (List.range (n + 1)) where
  threaded := by
    have hfrom : ∀ k i, i + k = n → Threaded next ending i (List.range' i (k + 1)) := by
      intro k
      induction k with
      | zero =>
          intro i hi
          refine ⟨rfl, by omega, ?_⟩
          rw [show i = n by omega]
          exact hlast
      | succ k ih =>
          intro i hi
          refine ⟨rfl, by omega, ?_⟩
          rw [hnext i (by omega)]
          exact ih (i + 1) (by omega)
    rw [List.range_eq_range']
    exact hfrom n 0 (by omega)
  nodup := List.nodup_range
  taken_iff i hi := by
    rw [hlen] at hi
    refine iff_of_false ?_ (by simp [hi])
    rcases Nat.lt_or_ge i n with hlt | hge
    · rw [hnext i hlt]
      omega
    · rwa [show i = n by omega, hlast]

end FreeList

end

end Support
