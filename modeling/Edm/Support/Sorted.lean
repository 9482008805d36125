import Edm.Support.Search
import Edm.Support.Split
import Mathlib.Data.Char
import Mathlib.Data.List.Induction
import Mathlib.Data.List.Lex
import Mathlib.Order.Lattice

/-!
# Support — Sorted

Tables sorted by a linear order, the binary search of one, and `strcmp` as a linear order.

* A comparison function `cmp` *compares* a table with a key when `cmp m` is negative, zero or
  positive as entry `m` is below, at or above the key (`Compares`).
* The binary search of a sorted table finds a key if and only if the table has it
  (`bsearch_isSome_iff`), and what it finds is the key (`Compares.found`).
* `strcmp` is the order of the C strings (`strcmp_neg_iff`, `strcmp_pos_iff`).
* An entry goes into a sorted table between the smaller and the larger ones
  (`pairwise_insert`).
* `sink` is the loop of an insertion sort: an entry is exchanged with the one before it until that
  one may stay there (`sink_spec`).
-/

namespace Support

section
variable {α : Type*} [LinearOrder α] {cmp : Nat → Int} {l : List α} {k : α}

/-- `cmp m` is the sign of entry `m` of the table `l` against the key `k`. -/
structure Compares (cmp : Nat → Int) (l : List α) (k : α) : Prop where
  neg : ∀ {m a}, l[m]? = some a → (cmp m < 0 ↔ a < k)
  pos : ∀ {m a}, l[m]? = some a → (0 < cmp m ↔ k < a)

theorem Compares.zero (h : Compares cmp l k) {m : Nat} {a : α} (ha : l[m]? = some a) :
    cmp m = 0 ↔ a = k := by
  have hn := h.neg ha
  have hp := h.pos ha
  constructor
  · intro h₀
    exact le_antisymm (not_lt.mp fun hlt => by have := hp.mpr hlt; omega)
      (not_lt.mp fun hlt => by have := hn.mpr hlt; omega)
  · rintro rfl
    have h₁ : ¬ cmp m < 0 := fun hlt => lt_irrefl a (hn.mp hlt)
    have h₂ : ¬ 0 < cmp m := fun hlt => lt_irrefl a (hp.mp hlt)
    omega

/-- What the search finds is the key. -/
theorem Compares.found (h : Compares cmp l k) {m : Nat} (hb : bsearch cmp l.length = some m) :
    l[m]? = some k := by
  obtain ⟨-, hlt, h₀⟩ := bsearchFrom_some hb
  have hget : l[m]? = some l[m] := List.getElem?_eq_getElem hlt
  rw [hget, (h.zero hget).mp h₀]

/-- Entries of a sorted table are in the order of their numbers. -/
theorem getElem_le_of_pairwise (hs : l.Pairwise (· ≤ ·)) {i j : Nat} (hij : i ≤ j)
    (hj : j < l.length) : l[i] ≤ l[j] := by
  rcases Nat.eq_or_lt_of_le hij with rfl | hlt
  · exact le_rfl
  · exact List.pairwise_iff_getElem.mp hs i j (by omega) hj hlt

/-- The search of a window fails only when the key does not stand in it, by induction on the
fuel: all entries before the window stay below the key, and all behind it above. -/
theorem not_mem_of_bsearchFrom (hs : l.Pairwise (· ≤ ·)) (h : Compares cmp l k) :
    ∀ {fuel b e : Nat}, e - b ≤ fuel → e ≤ l.length →
      (∀ i (hi : i < l.length), i < b → l[i] < k) → (∀ i (hi : i < l.length), e ≤ i → k < l[i]) →
      bsearchFrom cmp fuel b e = none → k ∉ l := by
  intro fuel
  induction fuel with
  | zero =>
      intro b e hf _ hb he _ hk
      obtain ⟨i, hi, rfl⟩ := List.mem_iff_getElem.mp hk
      rcases Nat.lt_or_ge i b with hib | hib
      · exact lt_irrefl _ (hb i hi hib)
      · exact lt_irrefl _ (he i hi (by omega))
  | succ fuel ih =>
      intro b e hf hl hb he hn
      rw [bsearchFrom] at hn
      split at hn
      · rename_i hlt
        have hm : (b + (e - 1)) / 2 < l.length := by omega
        have hget : l[(b + (e - 1)) / 2]? = some l[(b + (e - 1)) / 2] :=
          List.getElem?_eq_getElem hm
        split at hn
        · rename_i hneg
          refine ih (by omega) hl (fun i hi hib => ?_) he hn
          exact lt_of_le_of_lt (getElem_le_of_pairwise hs (by omega) hm) ((h.neg hget).mp hneg)
        · split at hn
          · rename_i hpos
            refine ih (by omega) (by omega) hb (fun i hi hei => ?_) hn
            exact lt_of_lt_of_le ((h.pos hget).mp hpos) (getElem_le_of_pairwise hs hei hi)
          · exact absurd hn (Option.some_ne_none _)
      · intro hk
        obtain ⟨i, hi, rfl⟩ := List.mem_iff_getElem.mp hk
        rcases Nat.lt_or_ge i b with hib | hib
        · exact lt_irrefl _ (hb i hi hib)
        · exact lt_irrefl _ (he i hi (by omega))

/-- The binary search of a sorted table finds exactly the keys of the table. -/
theorem bsearch_isSome_iff (hs : l.Pairwise (· ≤ ·)) (h : Compares cmp l k) :
    (bsearch cmp l.length).isSome = true ↔ k ∈ l := by
  constructor
  · intro hb
    obtain ⟨m, hm⟩ := Option.isSome_iff_exists.mp hb
    exact List.mem_of_getElem? (h.found hm)
  · intro hk
    by_contra hb
    have hb : bsearchFrom cmp l.length 0 l.length = none := Option.not_isSome_iff_eq_none.mp hb
    refine not_mem_of_bsearchFrom hs h (Nat.sub_le _ 0) (Nat.le_refl _) (fun i _ hi => ?_)
      (fun i hi hle => ?_) hb hk
    · exact absurd hi (Nat.not_lt_zero i)
    · exact absurd hi (Nat.not_lt.mpr hle)

/-- Below a place whose left neighbour is smaller, every entry is. -/
theorem Compares.take_lt (h : Compares cmp l k) (hs : l.Pairwise (· ≤ ·)) {i : Nat}
    (hi : i ≤ l.length) (hc : i = 0 ∨ cmp (i - 1) < 0) : ∀ a ∈ l.take i, a < k := by
  intro a ha
  obtain ⟨j, hj, rfl⟩ := List.mem_take_iff_getElem.mp ha
  have hlt : i - 1 < l.length := by omega
  have hneg := (h.neg (List.getElem?_eq_getElem hlt)).mp (hc.resolve_left (by omega))
  exact lt_of_le_of_lt (getElem_le_of_pairwise hs (by omega) hlt) hneg

/-- From a place with a larger entry on, every entry is larger. -/
theorem Compares.lt_drop (h : Compares cmp l k) (hs : l.Pairwise (· ≤ ·)) {i : Nat}
    (hc : i = l.length ∨ 0 < cmp i) : ∀ a ∈ l.drop i, k < a := by
  intro a ha
  obtain ⟨j, hj, rfl⟩ := List.mem_drop_iff_getElem.mp ha
  have hlt : i < l.length := by omega
  have hpos := (h.pos (List.getElem?_eq_getElem hlt)).mp (hc.resolve_left (by omega))
  exact lt_of_lt_of_le hpos (getElem_le_of_pairwise hs (Nat.le_add_right i j) (by omega))

omit [LinearOrder α] in
/-- An entry goes between the smaller and the larger ones. -/
theorem pairwise_insert {r : α → α → Prop} {l₁ l₂ : List α} (hs : (l₁ ++ l₂).Pairwise r)
    (h₁ : ∀ a ∈ l₁, r a k) (h₂ : ∀ a ∈ l₂, r k a) : (l₁ ++ k :: l₂).Pairwise r := by
  obtain ⟨hs₁, hs₂, h₁₂⟩ := List.pairwise_append.mp hs
  refine List.pairwise_append.mpr ⟨hs₁, List.pairwise_cons.mpr ⟨h₂, hs₂⟩, fun a ha b hb => ?_⟩
  rcases List.mem_cons.mp hb with rfl | hb
  · exact h₁ a ha
  · exact h₁₂ a ha b hb

end

/-! ### Insertion -/

section
variable {α : Type*} {stop : α → α → Bool}

/-- Entry `i` is exchanged with the entry before it until `stop` holds of the two. -/
def sink (stop : α → α → Bool) : Nat → List α → List α
  | 0, t => t
  | i + 1, t =>
      match t[i + 1]?, t[i]? with
      | some x, some a => if stop x a then t else sink stop i ((t.set (i + 1) a).set i x)
      | _, _ => t

theorem sink_concat (a : List α) (y x : α) (b : List α) :
    sink stop (a.length + 1) (a ++ y :: x :: b)
      = if stop x y then a ++ y :: x :: b else sink stop a.length (a ++ x :: y :: b) := by
  have hy : (a ++ y :: x :: b)[a.length]? = some y := by simp
  have hx : (a ++ y :: x :: b)[a.length + 1]? = some x := by simp
  have hset : ((a ++ y :: x :: b).set (a.length + 1) y).set a.length x = a ++ x :: y :: b := by
    simp
  rw [sink, hy, hx]
  dsimp only
  rw [hset]

variable (stop) in
/-- The entry comes behind the last one it may not pass; it has passed the others. -/
theorem sink_spec (xs : List α) (x : α) (b : List α) :
    ∃ a c, xs = a ++ c ∧ sink stop xs.length (xs ++ x :: b) = a ++ x :: (c ++ b) ∧
      (∀ y ∈ c, stop x y = false) ∧ ∀ y ∈ a.getLast?, stop x y = true := by
  induction xs using List.reverseRecOn generalizing b with
  | nil => exact ⟨[], [], rfl, rfl, by simp, by simp⟩
  | append_singleton xs y ih =>
    rw [List.length_append, List.length_singleton, List.append_assoc,
      List.singleton_append, sink_concat]
    cases hy : stop x y with
    | true => exact ⟨xs ++ [y], [], by simp, by simp, by simp, by simp [hy]⟩
    | false =>
      obtain ⟨a, c, hxs, hsink, hc, ha⟩ := ih (y :: b)
      refine ⟨a, c ++ [y], by rw [hxs, List.append_assoc], ?_, fun z hz => ?_, ha⟩
      · rw [if_neg Bool.false_ne_true, hsink]
        simp
      · rcases List.mem_append.mp hz with hz | hz
        · exact hc z hz
        · rw [List.mem_singleton.mp hz, hy]

end

/-! ### `strcmp` -/

/-- The sign of `strcmp` on texts without a NUL is their order. -/
theorem strcmpText_lt : ∀ {s t : Text}, nul ∉ s → nul ∉ t →
    (strcmpText s t < 0 ↔ s < t) ∧ (0 < strcmpText s t ↔ t < s)
  | [], [], _, _ => by simp [strcmpText]
  | [], d :: t, _, ht => by
      have hd : d.toNat ≠ 0 := fun h => ht (List.mem_cons.mpr (Or.inl (Char.toNat_inj.mp h.symm)))
      simp only [strcmpText, List.nil_lt_cons, List.not_lt_nil]
      constructor <;> constructor <;> intro h <;> first | trivial | omega
  | c :: s, [], hs, _ => by
      have hc : c.toNat ≠ 0 := fun h => hs (List.mem_cons.mpr (Or.inl (Char.toNat_inj.mp h.symm)))
      simp only [strcmpText, List.nil_lt_cons, List.not_lt_nil]
      constructor <;> constructor <;> intro h <;> first | trivial | omega
  | c :: s, d :: t, hs, ht => by
      obtain ⟨ih₁, ih₂⟩ := strcmpText_lt (fun h => hs (List.mem_cons_of_mem c h))
        (fun h => ht (List.mem_cons_of_mem d h))
      rw [strcmpText, List.cons_lt_cons_iff, List.cons_lt_cons_iff]
      have hlt : ∀ a b : Char, a < b ↔ a.toNat < b.toNat := fun a b => Iff.rfl
      split
      · rename_i hcd
        subst hcd
        simp [ih₁, ih₂]
      · rename_i hcd
        have hne : c.toNat ≠ d.toNat := fun h => hcd (Char.toNat_inj.mp h)
        simp only [hcd, Ne.symm hcd, hlt, false_and, or_false]
        constructor <;> omega

theorem strcmp_neg_iff (s t : Text) : strcmp s t < 0 ↔ cstr s < cstr t :=
  (strcmpText_lt (nul_not_mem_cstr s) (nul_not_mem_cstr t)).1

theorem strcmp_pos_iff (s t : Text) : 0 < strcmp s t ↔ cstr t < cstr s :=
  (strcmpText_lt (nul_not_mem_cstr s) (nul_not_mem_cstr t)).2

theorem strcmp_eq_zero_iff (s t : Text) : strcmp s t = 0 ↔ cstr s = cstr t := by
  have hneg := strcmp_neg_iff s t
  have hpos := strcmp_pos_iff s t
  constructor
  · intro h
    exact le_antisymm (not_lt.mp fun hlt => by have := hpos.mpr hlt; omega)
      (not_lt.mp fun hlt => by have := hneg.mpr hlt; omega)
  · intro h
    have h₁ : ¬ strcmp s t < 0 := fun hlt => (hneg.mp hlt).ne h
    have h₂ : ¬ 0 < strcmp s t := fun hlt => (hpos.mp hlt).ne h.symm
    omega

end Support
