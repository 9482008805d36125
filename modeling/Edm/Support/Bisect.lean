import Mathlib.Data.List.Basic
import Mathlib.Tactic.Common

/-!
# Support — Bisect

`while (e != b + 1) { m = (b + e) / 2; … }`: a search that halves the window `[b, e)` and keeps the
half a probe of its middle points at, until one entry is left, which is not probed.

With the place `k` between the entries, `halves k b e` are the middles on the way to it.  When the
probes that do not end the search point at the place, it finds what the first of these middles
holds that ends it (`search_eq`).  The way passes by the entry in front of the place, but for the
one at the left end of the window.
-/

namespace Support.Bisect

/-- The outcome of a probe. -/
inductive Probe (α : Type*) where
  | found (a : α)
  | left
  | right

variable {α : Type*}

def Probe.found? : Probe α → Option α
  | .found a => some a
  | _ => none

/-- The search of the window `[b, e)`. -/
def search (probe : Nat → Probe α) (b e : Nat) : Option α :=
  if b + 1 < e then
    match probe ((b + e) / 2) with
    | .found a => some a
    | .left => search probe b ((b + e) / 2)
    | .right => search probe ((b + e) / 2) e
  else none
termination_by e - b

/-- The middles on the way to the place `k`. -/
def halves (k b e : Nat) : List Nat :=
  if b + 1 < e then
    if k ≤ (b + e) / 2 then (b + e) / 2 :: halves k b ((b + e) / 2)
    else (b + e) / 2 :: halves k ((b + e) / 2) e
  else []
termination_by e - b

/-- A middle lies inside the window. -/
theorem mem_window {k b e m : Nat} (hm : m ∈ halves k b e) : b < m ∧ m < e := by
  fun_induction halves k b e with
  | case1 b e hlt hle ih =>
      rcases List.mem_cons.mp hm with rfl | hm
      · omega
      · have := ih hm
        omega
  | case2 b e hlt hgt ih =>
      rcases List.mem_cons.mp hm with rfl | hm
      · omega
      · have := ih hm
        omega
  | case3 => simp at hm

/-- The search finds what is at the first middle that ends it. -/
theorem search_eq {probe : Nat → Probe α} {k b e : Nat}
    (hprobe : ∀ m, b < m → m < e → (∃ a, probe m = .found a) ∨
      (probe m = .left ∧ k ≤ m) ∨ (probe m = .right ∧ m < k)) :
    search probe b e = (halves k b e).findSome? fun m => (probe m).found? := by
  fun_induction halves k b e with
  | case1 b e hlt hle ih =>
      rw [search, if_pos hlt, List.findSome?_cons]
      obtain ⟨a, ha⟩ | ⟨hleft, -⟩ | ⟨-, hk⟩ := hprobe ((b + e) / 2) (by omega) (by omega)
      · simp [ha, Probe.found?]
      · rw [hleft]
        exact ih fun m hb he => hprobe m hb (by omega)
      · omega
  | case2 b e hlt hgt ih =>
      rw [search, if_pos hlt, List.findSome?_cons]
      obtain ⟨a, ha⟩ | ⟨-, hk⟩ | ⟨hright, -⟩ := hprobe ((b + e) / 2) (by omega) (by omega)
      · simp [ha, Probe.found?]
      · omega
      · rw [hright]
        exact ih fun m hb he => hprobe m (by omega) he
  | case3 b e hlt => rw [search, if_neg hlt, List.findSome?_nil]

/-- In a list whose entries meet `p` up to some place, the place is their number. -/
theorem lt_countP_iff {p : α → Bool} : ∀ {l : List α} {m : Nat} {a : α},
    l.Pairwise (fun a b => p b = true → p a = true) → l[m]? = some a →
      (m < l.countP p ↔ p a = true)
  | [], _, _, _, h => by simp at h
  | x :: l, 0, a, hl, h => by
      obtain rfl : x = a := by simpa using h
      rw [List.countP_cons]
      by_cases hx : p x = true
      · simp [hx]
      · have hnone : l.countP p = 0 :=
          List.countP_eq_zero.mpr fun b hb hp => hx ((List.pairwise_cons.mp hl).1 b hb hp)
        simp [hx, hnone]
  | x :: l, m + 1, a, hl, h => by
      obtain ⟨hx, hl⟩ := List.pairwise_cons.mp hl
      have hm : l[m]? = some a := by simpa using h
      have ih := lt_countP_iff hl hm
      rw [List.countP_cons]
      by_cases hpx : p x = true
      · simp [hpx, ih]
      · have ha : ¬ p a = true := fun ha => hpx (hx a (List.mem_of_getElem? hm) ha)
        have hnone := mt ih.mp ha
        simp [hpx, ha]
        omega

/-- The first of the values that are there where `p` is met. -/
theorem findSome?_eq_bind {β : Type*} {p : α → Bool} {f g : α → Option β} : ∀ {l : List α},
    (∀ a ∈ l, f a = if p a then g a else none) → (∀ a ∈ l, p a = true → (g a).isSome = true) →
      l.findSome? f = (l.find? p).bind g
  | [], _, _ => rfl
  | a :: l, hf, hg => by
      obtain ⟨ha, hf⟩ := List.forall_mem_cons.mp hf
      obtain ⟨hga, hg⟩ := List.forall_mem_cons.mp hg
      rw [List.findSome?_cons, List.find?_cons, ha]
      cases hp : p a with
      | false => simpa using findSome?_eq_bind hf hg
      | true =>
          obtain ⟨b, hb⟩ := Option.isSome_iff_exists.mp (hga hp)
          simp [hb]

end Support.Bisect
