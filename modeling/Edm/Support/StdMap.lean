import Mathlib.Algebra.GroupWithZero.Nat
import Mathlib.Data.List.Lex
import Mathlib.Data.Char
import Mathlib.Order.Lattice
import Mathlib.Tactic.Common

/-!
# Support — StdMap

`std::map`: entries in strictly increasing key order.  A `StdMap` carries the order as a field,
so a map with a repeated or misplaced key cannot be built.

* `find` is `m.find(k)`, `upsert` is an update through `m[k]` or `m.insert`: it gives the key `k`
  the value computed from the value it had.
* `visit` is a loop over the entries in map order that may change the value it stands at and may
  stop: it returns the key it stopped at.
* `find_upsert`, `find_visit`, `visit_snd`: what each operation finds and leaves.
-/

namespace Support

variable {K V : Type*}

/-! ### A loop over a list of entries -/

/-- The loop over the entries `l`: `f` gives the new value of the entry it stands at, and whether
the loop stops there. -/
def visitList (f : K → V → V × Bool) : List (K × V) → List (K × V) × Option K
  | [] => ([], none)
  | (k, v) :: l =>
      if (f k v).2 then ((k, (f k v).1) :: l, some k)
      else ((k, (f k v).1) :: (visitList f l).1, (visitList f l).2)

theorem keys_visitList (f : K → V → V × Bool) : ∀ l : List (K × V),
    (visitList f l).1.map Prod.fst = l.map Prod.fst
  | [] => rfl
  | (k, v) :: l => by
      unfold visitList
      split
      · rfl
      · simp only [List.map_cons, keys_visitList f l]

/-- The loop stops at the first entry it is told to stop at. -/
theorem visitList_snd (f : K → V → V × Bool) : ∀ l : List (K × V),
    (visitList f l).2 = (l.find? fun e => (f e.1 e.2).2).map Prod.fst
  | [] => rfl
  | (k, v) :: l => by
      unfold visitList
      split
      · rw [List.find?_cons_of_pos (by assumption)]; rfl
      · rw [List.find?_cons_of_neg (by assumption), visitList_snd f l]

theorem mem_of_visitList {f : K → V → V × Bool} {l : List (K × V)} {s : K}
    (h : (visitList f l).2 = some s) : ∃ v, (s, v) ∈ l := by
  rw [visitList_snd, Option.map_eq_some_iff] at h
  obtain ⟨⟨k, v⟩, hf, rfl⟩ := h
  exact ⟨v, List.mem_of_find?_eq_some hf⟩

/-- `std::map<K, V>`. -/
structure StdMap (K V : Type*) [LT K] where
  entries : List (K × V)
  sorted : entries.Pairwise fun a b => a.1 < b.1

namespace StdMap
variable [LinearOrder K]

/-- The map with no entry. -/
def empty : StdMap K V := ⟨[], .nil⟩

/-! ### Looking up -/

/-- The value at `k` of a list of entries. -/
def lookup (k : K) : List (K × V) → Option V
  | [] => none
  | (k', v) :: l => if k = k' then some v else lookup k l

/-- `m.find(k)`. -/
def find (m : StdMap K V) (k : K) : Option V := lookup k m.entries

theorem mem_of_lookup {k : K} {v : V} : ∀ {l : List (K × V)}, lookup k l = some v → (k, v) ∈ l
  | (k', v') :: l, h => by
      by_cases e : k = k'
      · subst e; simp only [lookup, if_pos] at h; cases h; exact List.mem_cons_self
      · rw [lookup, if_neg e] at h; exact List.mem_cons_of_mem _ (mem_of_lookup h)

theorem lookup_of_mem {k : K} {v : V} : ∀ {l : List (K × V)},
    l.Pairwise (fun a b => a.1 < b.1) → (k, v) ∈ l → lookup k l = some v
  | (k', v') :: l, hs, h => by
      rw [List.pairwise_cons] at hs
      rcases List.mem_cons.mp h with h | h
      · cases h; simp [lookup]
      · rw [lookup, if_neg (hs.1 _ h).ne', lookup_of_mem hs.2 h]

/-- The map finds exactly its entries. -/
theorem find_eq_some_iff {m : StdMap K V} {k : K} {v : V} :
    m.find k = some v ↔ (k, v) ∈ m.entries :=
  ⟨mem_of_lookup, lookup_of_mem m.sorted⟩

/-! ### Updating one entry -/

/-- The entries with the value at `k` set to `f` of the value it had. -/
def upsertList (k : K) (f : Option V → V) : List (K × V) → List (K × V)
  | [] => [(k, f none)]
  | (k', v) :: l =>
      if k < k' then (k, f none) :: (k', v) :: l
      else if k = k' then (k', f (some v)) :: l
      else (k', v) :: upsertList k f l

theorem mem_keys_upsertList {k : K} {f : Option V → V} {e : K × V} : ∀ {l : List (K × V)},
    e ∈ upsertList k f l → e.1 = k ∨ e ∈ l
  | [], h => by simp [upsertList] at h; simp [h]
  | (k', v) :: l, h => by
      unfold upsertList at h
      split at h
      · rcases List.mem_cons.mp h with rfl | h
        · exact .inl rfl
        · exact .inr h
      · split at h
        · rename_i e'
          rcases List.mem_cons.mp h with rfl | h
          · exact .inl e'.symm
          · exact .inr (List.mem_cons_of_mem _ h)
        · rcases List.mem_cons.mp h with rfl | h
          · exact .inr List.mem_cons_self
          · exact (mem_keys_upsertList h).imp id (List.mem_cons_of_mem _)

theorem sorted_upsertList {k : K} {f : Option V → V} : ∀ {l : List (K × V)},
    l.Pairwise (fun a b => a.1 < b.1) → (upsertList k f l).Pairwise fun a b => a.1 < b.1
  | [], _ => List.pairwise_singleton _ _
  | (k', v) :: l, hs => by
      have hs' := List.pairwise_cons.mp hs
      unfold upsertList
      split
      · rename_i hk
        refine List.pairwise_cons.mpr ⟨fun e he => ?_, hs⟩
        rcases List.mem_cons.mp he with rfl | he
        · exact hk
        · exact hk.trans (hs'.1 e he)
      · split
        · exact List.pairwise_cons.mpr hs'
        · refine List.pairwise_cons.mpr ⟨fun e he => ?_, sorted_upsertList hs'.2⟩
          rcases mem_keys_upsertList he with h | h
          · rw [h]; exact lt_of_le_of_ne (not_lt.mp ‹_›) (Ne.symm ‹_›)
          · exact hs'.1 e h

/-- The map with the value at `k` set to `f` of the value it had. -/
def upsert (m : StdMap K V) (k : K) (f : Option V → V) : StdMap K V :=
  ⟨upsertList k f m.entries, sorted_upsertList m.sorted⟩

/-- The map with the value `v` at `k`. -/
def set (m : StdMap K V) (k : K) (v : V) : StdMap K V := m.upsert k fun _ => v

theorem lookup_upsertList (k k' : K) (f : Option V → V) : ∀ (l : List (K × V)),
    l.Pairwise (fun a b => a.1 < b.1) →
    lookup k' (upsertList k f l) = if k' = k then some (f (lookup k l)) else lookup k' l
  | [], _ => by simp [upsertList, lookup]
  | (k₁, v) :: l, hs => by
      have hs' := List.pairwise_cons.mp hs
      unfold upsertList
      split
      · rename_i hk
        have hn : lookup k ((k₁, v) :: l) = none := by
          by_contra hne
          obtain ⟨u, hu⟩ := Option.ne_none_iff_exists'.mp hne
          rcases List.mem_cons.mp (mem_of_lookup hu) with h | h
          · cases h; exact lt_irrefl _ hk
          · exact lt_irrefl _ (hk.trans (hs'.1 _ h))
        rw [hn]
        simp only [lookup]
      · split
        · rename_i e
          subst e
          by_cases e : k' = k <;> simp [lookup, e]
        · rename_i hne
          simp only [lookup, if_neg hne, lookup_upsertList k k' f l hs'.2]
          by_cases e : k' = k
          · subst e; simp [hne]
          · simp [e]

theorem find_upsert (m : StdMap K V) (k k' : K) (f : Option V → V) :
    (m.upsert k f).find k' = if k' = k then some (f (m.find k)) else m.find k' :=
  lookup_upsertList k k' f m.entries m.sorted

theorem find_set (m : StdMap K V) (k k' : K) (v : V) :
    (m.set k v).find k' = if k' = k then some v else m.find k' :=
  find_upsert m k k' _

@[simp] theorem find_upsert_self (m : StdMap K V) (k : K) (f : Option V → V) :
    (m.upsert k f).find k = some (f (m.find k)) := by
  rw [find_upsert, if_pos rfl]

theorem find_upsert_ne (m : StdMap K V) {k k' : K} (h : k' ≠ k) (f : Option V → V) :
    (m.upsert k f).find k' = m.find k' := by
  rw [find_upsert, if_neg h]

/-! ### Setting one entry after another -/

/-- What is found after a list of assignments was assigned, or was there before. -/
theorem mem_of_find_foldl_set {k : K} {v : V} : ∀ {l : List (K × V)} {m : StdMap K V},
    (l.foldl (fun m e => m.set e.1 e.2) m).find k = some v → (k, v) ∈ l ∨ m.find k = some v
  | [], _, h => Or.inr h
  | e :: l, m, h => by
      rcases mem_of_find_foldl_set (l := l) h with h | h
      · exact Or.inl (List.mem_cons_of_mem e h)
      · rw [find_set] at h
        split at h
        next hk =>
          obtain rfl := Option.some.inj h
          exact Or.inl (by rw [hk]; exact List.mem_cons_self)
        next => exact Or.inr h

/-- When all assignments to a key assign one value, that value is found. -/
theorem find_foldl_set_of_agree {k : K} {v : V} : ∀ {l : List (K × V)} {m : StdMap K V},
    (∀ e ∈ l, e.1 = k → e.2 = v) → (k, v) ∈ l ∨ m.find k = some v →
      (l.foldl (fun m e => m.set e.1 e.2) m).find k = some v
  | [], _, _, h => h.resolve_left (nomatch ·)
  | e :: l, m, hall, h => by
      obtain ⟨he, hl⟩ := List.forall_mem_cons.mp hall
      refine find_foldl_set_of_agree (l := l) hl ?_
      rw [find_set]
      split
      next hk => exact Or.inr (congrArg some (he hk.symm))
      next hk =>
        refine h.imp_left fun h => (List.mem_cons.mp h).resolve_left fun h => ?_
        exact hk (congrArg Prod.fst h)

/-! ### All values, and some of the keys -/

/-- Every value is replaced. -/
def mapVals (f : K → V → V) (m : StdMap K V) : StdMap K V :=
  ⟨m.entries.map fun e => (e.1, f e.1 e.2), List.pairwise_map.mpr m.sorted⟩

theorem lookup_map (f : K → V → V) (k : K) : ∀ l : List (K × V),
    lookup k (l.map fun e => (e.1, f e.1 e.2)) = (lookup k l).map (f k)
  | [] => rfl
  | (k', v) :: l => by
      rw [List.map_cons, lookup, lookup]
      split
      next h => rw [h, Option.map_some]
      next => exact lookup_map f k l

@[simp] theorem find_mapVals (f : K → V → V) (m : StdMap K V) (k : K) :
    (m.mapVals f).find k = (m.find k).map (f k) := lookup_map f k m.entries

/-- `f` is applied to the value at `k`, if there is one. -/
def modify (k : K) (f : V → V) (m : StdMap K V) : StdMap K V :=
  m.mapVals fun k' v => if k' = k then f v else v

@[simp] theorem find_modify (k k' : K) (f : V → V) (m : StdMap K V) :
    (m.modify k f).find k' = if k' = k then (m.find k').map f else m.find k' := by
  rw [modify, find_mapVals]
  split
  · rfl
  · exact Option.map_id'

/-- The entries at some of the keys. -/
def keep (p : K → Bool) (m : StdMap K V) : StdMap K V :=
  ⟨m.entries.filter fun e => p e.1, m.sorted.filter _⟩

theorem lookup_filter (p : K → Bool) (k : K) : ∀ l : List (K × V),
    lookup k (l.filter fun e => p e.1) = if p k then lookup k l else none
  | [] => (ite_self none).symm
  | (k', v) :: l => by
      rw [List.filter_cons, lookup]
      by_cases hk : k = k'
      · subst hk
        split
        next h => rw [lookup, if_pos rfl, if_pos rfl]
        next h => rw [lookup_filter p k l, if_neg h]
      · rw [if_neg hk, ← lookup_filter p k l]
        split
        · rw [lookup, if_neg hk]
        · rfl

@[simp] theorem find_keep (p : K → Bool) (m : StdMap K V) (k : K) :
    (m.keep p).find k = if p k then m.find k else none := lookup_filter p k m.entries

/-! ### Sums over the values -/

/-- The sum of `g` over the values. -/
def sum (g : V → Nat) (m : StdMap K V) : Nat := (m.entries.map fun e => g e.2).sum

theorem sum_upsertList (g : V → Nat) (k : K) (f : Option V → V) : ∀ l : List (K × V),
    l.Pairwise (fun a b => a.1 < b.1) →
    ((upsertList k f l).map fun e => g e.2).sum + (lookup k l).elim 0 g
      = (l.map fun e => g e.2).sum + g (f (lookup k l))
  | [], _ => by simp [upsertList, lookup]
  | (k', v) :: l, hs => by
      have ih := sum_upsertList g k f l (List.pairwise_cons.mp hs).2
      rw [upsertList]
      split
      next hlt =>
        have hn : lookup k ((k', v) :: l) = none := by
          cases hl : lookup k ((k', v) :: l) with
          | none => rfl
          | some u =>
              rcases List.mem_cons.mp (mem_of_lookup hl) with h | h
              · exact absurd hlt (Prod.ext_iff.mp h).1.symm.not_gt
              · exact absurd hlt ((List.pairwise_cons.mp hs).1 _ h).asymm
        rw [hn, List.map_cons, List.sum_cons, Option.elim_none, Nat.add_zero, Nat.add_comm]
      next =>
        split
        next heq =>
          rw [lookup, if_pos heq, List.map_cons, List.map_cons, List.sum_cons, List.sum_cons]
          dsimp only [Option.elim_some]
          omega
        next hne =>
          rw [lookup, if_neg hne, List.map_cons, List.map_cons, List.sum_cons, List.sum_cons]
          omega

/-- What was at `k` goes out of the sum, and the new value comes in. -/
theorem sum_set (g : V → Nat) (m : StdMap K V) (k : K) (v : V) :
    (m.set k v).sum g + (m.find k).elim 0 g = m.sum g + g v :=
  sum_upsertList g k (fun _ => v) m.entries m.sorted

/-- A change that adds `h` to `g` everywhere. -/
theorem sum_mapVals_add {g h : V → Nat} {f : K → V → V} (hf : ∀ k v, g (f k v) = g v + h v)
    (m : StdMap K V) : (m.mapVals f).sum g = m.sum g + m.sum h := by
  simp only [sum, mapVals]
  induction m.entries with
  | nil => rfl
  | cons e l ih =>
      simp only [List.map_cons, List.sum_cons, hf, ih]
      omega

/-- A change that `g` does not see. -/
theorem sum_mapVals_of_eq {g : V → Nat} {f : K → V → V} (hf : ∀ k v, g (f k v) = g v)
    (m : StdMap K V) : (m.mapVals f).sum g = m.sum g := by
  rw [sum, mapVals, List.map_map, sum]
  exact congrArg List.sum (List.map_congr_left fun e _ => hf e.1 e.2)

theorem sum_keep (g : V → Nat) (p : K → Bool) (m : StdMap K V) :
    (m.keep fun k => !p k).sum g + (m.keep p).sum g = m.sum g := by
  rw [sum, sum, sum, keep, keep, ← List.sum_append, ← List.map_append]
  refine (List.Perm.map _ ?_).sum_nat
  exact (List.perm_append_comm).trans (List.filter_append_perm (fun e => p e.1) m.entries)

/-! ### A loop over the entries -/

theorem pairwise_of_keys {l l' : List (K × V)} (h : l'.map Prod.fst = l.map Prod.fst)
    (hs : l.Pairwise fun a b => a.1 < b.1) : l'.Pairwise fun a b => a.1 < b.1 := by
  have hk := List.pairwise_map.mpr hs
  rw [← h] at hk
  exact List.pairwise_map.mp hk

/-- The loop over the entries of `m`. -/
def visit (f : K → V → V × Bool) (m : StdMap K V) : StdMap K V × Option K :=
  (⟨(visitList f m.entries).1, pairwise_of_keys (keys_visitList f _) m.sorted⟩,
    (visitList f m.entries).2)

/-- The loop stops at the first entry it is told to stop at. -/
theorem visit_snd (f : K → V → V × Bool) (m : StdMap K V) :
    (m.visit f).2 = (m.entries.find? fun e => (f e.1 e.2).2).map Prod.fst :=
  visitList_snd f m.entries

theorem lookup_visitList (f : K → V → V × Bool) (k : K) : ∀ l : List (K × V),
    l.Pairwise (fun a b => a.1 < b.1) →
    lookup k (visitList f l).1 = (lookup k l).map fun v =>
      if ∀ s ∈ (visitList f l).2, k ≤ s then (f k v).1 else v
  | [], _ => rfl
  | (k', v) :: l, hs => by
      have hs' := List.pairwise_cons.mp hs
      unfold visitList
      by_cases e : k = k'
      · subst e
        split
        · simp [lookup]
        · have : ∀ s ∈ (visitList f l).2, k ≤ s := fun s h => by
            obtain ⟨u, hu⟩ := mem_of_visitList h
            exact (hs'.1 _ hu).le
          simp only [lookup, if_true, Option.map_some, if_pos this]
      · split
        · simp only [lookup, if_neg e]
          cases hl : lookup k l with
          | none => rfl
          | some u =>
              have : ¬ k ≤ k' := not_le.mpr (hs'.1 _ (mem_of_lookup hl))
              simp [this]
        · simp only [lookup, if_neg e, lookup_visitList f k l hs'.2]

/-- The loop changes the values up to the entry it stops at, and no others. -/
theorem find_visit (f : K → V → V × Bool) (m : StdMap K V) (k : K) :
    (m.visit f).1.find k = (m.find k).map fun v =>
      if ∀ s ∈ (m.visit f).2, k ≤ s then (f k v).1 else v :=
  lookup_visitList f k m.entries m.sorted

/-- Of the entries the loop stands at, it stops at the one it is told to stop at. -/
theorem visit_snd_eq_some_iff {f : K → V → V × Bool} {m : StdMap K V} {k : K} {v : V}
    (hv : m.find k = some v) (hk : ∀ s ∈ (m.visit f).2, k ≤ s) :
    (m.visit f).2 = some k ↔ (f k v).2 = true := by
  rw [visit_snd] at hk ⊢
  constructor
  · intro h
    obtain ⟨⟨k', v'⟩, hf, rfl⟩ := Option.map_eq_some_iff.mp h
    have hv' := find_eq_some_iff.mpr (List.mem_of_find?_eq_some hf)
    cases Option.some.inj (hv.symm.trans hv')
    exact List.find?_some (p := fun e : K × V => (f e.1 e.2).2) hf
  · intro h
    have hmem := find_eq_some_iff.mp hv
    cases hf : m.entries.find? fun e => (f e.1 e.2).2 with
    | none => exact absurd h (List.find?_eq_none.mp hf _ hmem)
    | some e =>
        have hle := hk e.1 (by rw [hf]; rfl)
        obtain ⟨-, as, bs, heq, has⟩ := List.find?_eq_some_iff_append.mp hf
        have hs := m.sorted
        rw [heq] at hmem hs
        rcases List.mem_append.mp hmem with ha | hb
        · have := has _ ha
          simp [h] at this
        · rcases List.mem_cons.mp hb with rfl | hb
          · rfl
          · have := (List.pairwise_cons.mp (List.pairwise_append.mp hs).2.1).1 _ hb
            exact absurd hle (not_le.mpr this)

theorem visit_entries_ne_nil {f : K → V → V × Bool} {m : StdMap K V} (h : m.entries ≠ []) :
    (m.visit f).1.entries ≠ [] := by
  intro h'
  have := keys_visitList f m.entries
  rw [show (visitList f m.entries).1 = [] from h', List.map_nil, eq_comm, List.map_eq_nil_iff]
    at this
  exact h this

end StdMap

end Support
