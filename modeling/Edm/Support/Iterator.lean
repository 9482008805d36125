import Mathlib.Data.List.Basic
import Edm.Support.StdMap

/-!
# Support — Iterator

The iterators of a `std::map`.  An iterator stands at an entry, and stays where it is when other
entries come and go: it is named by the key of its entry.

* `first p` is the first entry whose key meets `p`, `last p` the last one: `lower_bound(k)` is
  `first (k ≤ ·)`, `++it` is `first (it < ·)`, `begin()` is `first fun _ => true`, `--it` is
  `last (· < it)`, and `--end()` is `last fun _ => true`.
* `insert` adds an entry at a key that is not there, `erase` takes the entry at a key away.
* `first_eq_some`, `last_eq_some`, `find_insert`, `find_erase`: what each of them finds and leaves.
-/

namespace Support

variable {K V : Type*}

theorem pairwise_le_of_find? {l : List (K × V)} [LinearOrder K]
    (hs : l.Pairwise fun a b => a.1 < b.1) {p : K → Bool} {e : K × V}
    (h : l.find? (fun e => p e.1) = some e) : ∀ e' ∈ l, p e'.1 = true → e.1 ≤ e'.1 := by
  obtain ⟨-, as, bs, rfl, has⟩ := List.find?_eq_some_iff_append.mp h
  intro e' he' hp
  rcases List.mem_append.mp he' with ha | hb
  · have := has _ ha
    rw [hp] at this
    cases this
  · rcases List.mem_cons.mp hb with rfl | hb
    · exact le_rfl
    · exact ((List.pairwise_cons.mp (List.pairwise_append.mp hs).2.1).1 _ hb).le

/-- Fewer entries meet a stronger condition on the key, when one of them is lost. -/
theorem length_filter_lt {l : List (K × V)} {p q : K × V → Bool} (hpq : ∀ e ∈ l, q e → p e)
    {e : K × V} (he : e ∈ l) (hp : p e) (hq : ¬ q e) :
    (l.filter q).length < (l.filter p).length := by
  have hsub : l.filter q = (l.filter p).filter q := by
    rw [List.filter_filter]
    refine List.filter_congr fun e' he' => ?_
    cases hqe : q e' with
    | false => rfl
    | true => rw [hpq e' he' hqe]; rfl
  rw [hsub]
  exact List.length_filter_lt_length_iff_exists.mpr ⟨e, List.mem_filter.mpr ⟨he, hp⟩, hq⟩

namespace StdMap
variable [LinearOrder K]

/-! ### Finding a place -/

/-- The first entry whose key meets `p`. -/
def first (p : K → Bool) (m : StdMap K V) : Option (K × V) := m.entries.find? fun e => p e.1

/-- The last entry whose key meets `p`. -/
def last (p : K → Bool) (m : StdMap K V) : Option (K × V) :=
  m.entries.reverse.find? fun e => p e.1

theorem first_eq_some {p : K → Bool} {m : StdMap K V} {k : K} {v : V}
    (h : m.first p = some (k, v)) :
    m.find k = some v ∧ p k = true ∧ ∀ k' v', m.find k' = some v' → p k' = true → k ≤ k' :=
  ⟨find_eq_some_iff.mpr (List.mem_of_find?_eq_some h),
    List.find?_some (p := fun e : K × V => p e.1) h,
    fun k' v' h' => pairwise_le_of_find? m.sorted h (k', v') (find_eq_some_iff.mp h')⟩

theorem first_eq_none {p : K → Bool} {m : StdMap K V} (h : m.first p = none) {k : K} {v : V}
    (hk : m.find k = some v) : p k = false := by
  have := List.find?_eq_none.mp h _ (find_eq_some_iff.mp hk)
  exact Bool.eq_false_iff.mpr this

theorem last_eq_some {p : K → Bool} {m : StdMap K V} {k : K} {v : V}
    (h : m.last p = some (k, v)) :
    m.find k = some v ∧ p k = true ∧ ∀ k' v', m.find k' = some v' → p k' = true → k' ≤ k := by
  refine ⟨find_eq_some_iff.mpr (List.mem_reverse.mp (List.mem_of_find?_eq_some h)),
    List.find?_some (p := fun e : K × V => p e.1) h, fun k' v' h' => ?_⟩
  have hs : m.entries.reverse.Pairwise fun a b : Kᵒᵈ × V => a.1 < b.1 :=
    List.pairwise_reverse.mpr m.sorted
  exact pairwise_le_of_find? (K := Kᵒᵈ) hs h (k', v')
    (List.mem_reverse.mpr (find_eq_some_iff.mp h'))

theorem last_eq_none {p : K → Bool} {m : StdMap K V} (h : m.last p = none) {k : K} {v : V}
    (hk : m.find k = some v) : p k = false := by
  have := List.find?_eq_none.mp h _ (List.mem_reverse.mpr (find_eq_some_iff.mp hk))
  exact Bool.eq_false_iff.mpr this

/-! ### Entries that come and go -/

/-- `m.insert(std::make_pair(k, v))`: an entry that is there stays. -/
def insert (m : StdMap K V) (k : K) (v : V) : StdMap K V := m.upsert k fun o => o.getD v

/-- `m.erase(it)`, for the entry at `k`. -/
def erase (m : StdMap K V) (k : K) : StdMap K V := m.keep fun k' => decide (k' ≠ k)

theorem find_insert (m : StdMap K V) (k k' : K) (v : V) :
    (m.insert k v).find k' = if k' = k then some ((m.find k).getD v) else m.find k' :=
  find_upsert m k k' _

@[simp] theorem find_erase (m : StdMap K V) (k k' : K) :
    (m.erase k).find k' = if k' = k then none else m.find k' := by
  rw [erase, find_keep]
  by_cases h : k' = k <;> simp [h]

theorem find_eq_none_of_empty {m : StdMap K V} (h : m.entries = []) (k : K) : m.find k = none := by
  rw [find, h]
  rfl

/-- The number of entries behind an iterator. -/
def behind (m : StdMap K V) (it : K) : Nat := (m.entries.filter fun e => decide (it < e.1)).length

theorem behind_erase_lt {m : StdMap K V} {it k : K} {v : V} (hk : m.find k = some v) (h : it < k) :
    (m.erase k).behind it < m.behind it := by
  rw [behind, erase, keep, List.filter_filter, behind]
  refine length_filter_lt (fun e _ he => ?_) (find_eq_some_iff.mp hk) ?_ ?_ <;> simp_all

theorem behind_lt {m : StdMap K V} {it k : K} {v : V} (hk : m.find k = some v) (h : it < k) :
    m.behind k < m.behind it := by
  refine length_filter_lt (fun e _ he => ?_) (find_eq_some_iff.mp hk) ?_ ?_ <;> simp_all
  exact h.trans he

theorem behind_modify (m : StdMap K V) (k it : K) (f : V → V) :
    (m.modify k f).behind it = m.behind it := by
  simp only [behind, modify, mapVals, List.filter_map, List.length_map]
  rfl

end StdMap

end Support
