import Mathlib.Data.List.Sort
import Edm.Support.Codec

/-!
# Support — OrderedMap

Maps in the order of their keys, where the order is that of a rank: keys of the same rank are the
same key to the map, and the map keeps the one that came first.

* `stored` is the entry at a key; it says what a lookup gives (`lookupBy_eq`) and what an assignment
  changes (`stored_assignBy`), and a map is determined by it (`eq_of_stored`).
* `mergeBy` puts updates into a map, one after the other.  The map that it begins with does not
  matter if and only if each of its entries is overwritten (`mergeBy_eq_iff`).
-/

namespace Support

variable {κ V R L : Type*} [LinearOrder L] {lt : κ → κ → Bool} {rank : κ → L}

variable (rank) in
/-- The entry at a key. -/
def stored (k : κ) (m : List (κ × V)) : Option (κ × V) := m.find? fun e => rank e.1 = rank k

variable (rank) in
theorem stored_cons (k : κ) (e : κ × V) (m : List (κ × V)) :
    stored rank k (e :: m) = if rank e.1 = rank k then some e else stored rank k m := by
  by_cases h : rank e.1 = rank k <;> simp [stored, h]

theorem rank_of_stored {k : κ} {m : List (κ × V)} {e : κ × V} (h : stored rank k m = some e) :
    rank e.1 = rank k := by
  simpa using List.find?_some h

section Order

variable (hlt : ∀ a b, lt a b = true ↔ rank a < rank b)
include hlt

/-- Behind a key there is no entry for it. -/
theorem stored_of_first {k : κ} {m : List (κ × V)} (h : ∀ e ∈ m, lt k e.1 = true) :
    stored rank k m = none := by
  refine List.find?_eq_none.mpr fun e he => ?_
  have hk := (hlt _ _).mp (h e he)
  simp [hk.ne']

theorem lookupBy_eq {k : κ} {m : List (κ × V)} (h : Ascending lt m) :
    lookupBy lt k m = (stored rank k m).map Prod.snd := by
  induction m with
  | nil => rfl
  | cons e m ih =>
      obtain ⟨hfirst, hm⟩ := List.pairwise_cons.mp h
      rw [lookupBy, stored_cons]
      obtain hk | hk | hk := lt_trichotomy (rank e.1) (rank k)
      · rw [if_pos ((hlt _ _).mpr hk), if_neg hk.ne, ih hm]
      · rw [if_neg (by rw [hlt, hk]; exact lt_irrefl _),
          if_neg (by rw [hlt, hk]; exact lt_irrefl _), if_pos hk]
        rfl
      · have hrest : stored rank k m = none := by
          refine stored_of_first hlt fun e' he' => (hlt _ _).mpr ?_
          exact hk.trans ((hlt _ _).mp (hfirst e' he'))
        rw [if_neg (by rw [hlt]; exact hk.asymm), if_pos ((hlt _ _).mpr hk), if_neg hk.ne', hrest]
        rfl

theorem mem_assignBy {k : κ} {v : V} {m : List (κ × V)} {e : κ × V} (h : e ∈ assignBy lt k v m) :
    rank e.1 = rank k ∨ e ∈ m := by
  induction m with
  | nil =>
      rw [assignBy, List.mem_singleton] at h
      exact .inl (congrArg (fun e => rank e.1) h)
  | cons e' m ih =>
      rw [assignBy] at h
      split at h
      next =>
        obtain rfl | h := List.mem_cons.mp h
        · exact .inr List.mem_cons_self
        · exact (ih h).imp_right (List.mem_cons_of_mem e')
      next hnot =>
        split at h
        next =>
          obtain rfl | h := List.mem_cons.mp h
          · exact .inl rfl
          · exact .inr h
        next hnot' =>
          obtain rfl | h := List.mem_cons.mp h
          · rw [hlt] at hnot hnot'
            exact .inl (le_antisymm (not_lt.mp hnot') (not_lt.mp hnot))
          · exact .inr (List.mem_cons_of_mem e' h)

theorem ascending_assignBy {k : κ} {v : V} {m : List (κ × V)} (h : Ascending lt m) :
    Ascending lt (assignBy lt k v m) := by
  induction m with
  | nil => exact List.pairwise_singleton _ _
  | cons e m ih =>
      obtain ⟨hfirst, hm⟩ := List.pairwise_cons.mp h
      rw [assignBy]
      split
      next hk =>
        refine List.pairwise_cons.mpr ⟨fun e' he' => ?_, ih hm⟩
        obtain he' | he' := mem_assignBy hlt he'
        · rw [hlt, he']
          exact (hlt _ _).mp hk
        · exact hfirst e' he'
      next =>
        split
        next hk =>
          refine List.pairwise_cons.mpr ⟨fun e' he' => ?_, h⟩
          obtain rfl | he' := List.mem_cons.mp he'
          · exact hk
          · exact (hlt _ _).mpr (((hlt _ _).mp hk).trans ((hlt _ _).mp (hfirst e' he')))
        next => exact List.pairwise_cons.mpr ⟨hfirst, hm⟩

/-- An assignment changes the value at its key; the key that is there already stays. -/
theorem stored_assignBy {k k' : κ} {v : V} {m : List (κ × V)} (h : Ascending lt m) :
    stored rank k' (assignBy lt k v m) =
      if rank k = rank k' then some (((stored rank k m).map Prod.fst).getD k, v)
      else stored rank k' m := by
  induction m with
  | nil =>
      rw [assignBy, stored_cons]
      rfl
  | cons e m ih =>
      obtain ⟨hfirst, hm⟩ := List.pairwise_cons.mp h
      rw [assignBy, stored_cons, stored_cons]
      obtain hk | hk | hk := lt_trichotomy (rank e.1) (rank k)
      · rw [if_pos ((hlt _ _).mpr hk), stored_cons, ih hm, if_neg hk.ne]
        by_cases hk' : rank e.1 = rank k'
        · rw [if_pos hk', if_pos hk', if_neg (by rw [← hk']; exact hk.ne')]
        · rw [if_neg hk', if_neg hk']
      · rw [if_neg (by rw [hlt, hk]; exact lt_irrefl _),
          if_neg (by rw [hlt, hk]; exact lt_irrefl _), if_pos hk, stored_cons]
        dsimp only
        by_cases hk' : rank k = rank k'
        · rw [if_pos (hk.trans hk'), if_pos hk']
          rfl
        · rw [if_neg (by rw [hk]; exact hk'), if_neg hk', if_neg (by rw [hk]; exact hk')]
      · have hrest : stored rank k m = none := by
          refine stored_of_first hlt fun e' he' => (hlt _ _).mpr ?_
          exact hk.trans ((hlt _ _).mp (hfirst e' he'))
        rw [if_neg (by rw [hlt]; exact hk.asymm), if_pos ((hlt _ _).mpr hk), stored_cons,
          stored_cons, if_neg hk.ne', hrest]
        rfl

theorem stored_of_mem {m : List (κ × V)} (h : Ascending lt m) {e : κ × V} (he : e ∈ m) :
    stored rank e.1 m = some e := by
  induction m with
  | nil => cases he
  | cons e' m ih =>
      obtain ⟨hfirst, hm⟩ := List.pairwise_cons.mp h
      rw [stored_cons]
      obtain rfl | he := List.mem_cons.mp he
      · exact if_pos rfl
      · rw [if_neg ((hlt _ _).mp (hfirst e he)).ne]
        exact ih hm he

/-- A map is determined by what is stored in it. -/
theorem eq_of_stored {m m' : List (κ × V)} (h : Ascending lt m) (h' : Ascending lt m')
    (heq : ∀ k, stored rank k m = stored rank k m') : m = m' := by
  have hmem : ∀ {m m' : List (κ × V)}, Ascending lt m →
      (∀ k, stored rank k m = stored rank k m') → ∀ e ∈ m, e ∈ m' := by
    intro m m' h heq e he
    have hstored := stored_of_mem hlt h he
    rw [heq] at hstored
    exact List.mem_of_find?_eq_some hstored
  have hirrefl : Std.Irrefl fun e e₁ : κ × V => lt e.1 e₁.1 = true :=
    ⟨fun e he => lt_irrefl _ ((hlt _ _).mp he)⟩
  have hantisymm : Std.Antisymm fun e e₁ : κ × V => lt e.1 e₁.1 = true :=
    ⟨fun e e₁ he he₁ => absurd ((hlt _ _).mp he₁) ((hlt _ _).mp he).asymm⟩
  exact List.Pairwise.eq_of_mem_iff h h' fun e =>
    ⟨hmem h heq e, hmem h' (fun k => (heq k).symm) e⟩

end Order

/-! ### Updates -/

variable (lt) in
/-- Updates, each put into what the map has for its key, `fresh` if it has nothing. -/
def mergeBy (upd : V → R → V) (fresh : V) (m : List (κ × V)) (l : List (κ × R)) : List (κ × V) :=
  l.foldl (fun m e => assignBy lt e.1 (upd ((lookupBy lt e.1 m).getD fresh) e.2) m) m

variable (rank) in
/-- The updates for a key. -/
def updates (k : κ) (l : List (κ × R)) : List R :=
  (l.filter fun e => rank e.1 = rank k).map Prod.snd

theorem updates_ne_nil {k k' : κ} {l : List (κ × R)}
    (h : (stored rank k l).map Prod.fst = some k') : updates rank k l ≠ [] := by
  obtain ⟨e, he, -⟩ := Option.map_eq_some_iff.mp h
  have hmem : e.2 ∈ updates rank k l := by
    refine List.mem_map_of_mem (List.mem_filter.mpr ⟨List.mem_of_find?_eq_some he, ?_⟩)
    exact decide_eq_true (rank_of_stored he)
  exact List.ne_nil_of_mem hmem

section Merge

variable (hlt : ∀ a b, lt a b = true ↔ rank a < rank b) {upd : V → R → V} {fresh : V}
include hlt

theorem ascending_mergeBy {m : List (κ × V)} (h : Ascending lt m) (l : List (κ × R)) :
    Ascending lt (mergeBy lt upd fresh m l) := by
  induction l generalizing m with
  | nil => exact h
  | cons e l ih => exact ih (ascending_assignBy hlt h)

variable (upd fresh) in
/-- What is stored when the updates are made. -/
theorem stored_mergeBy {m : List (κ × V)} (h : Ascending lt m) (l : List (κ × R)) (k : κ) :
    stored rank k (mergeBy lt upd fresh m l) = match stored rank k m with
      | some e => some (e.1, (updates rank k l).foldl upd e.2)
      | none => (stored rank k l).map fun e => (e.1, (updates rank k l).foldl upd fresh) := by
  induction l generalizing m with
  | nil =>
      rw [mergeBy, List.foldl_nil]
      cases stored rank k m <;> rfl
  | cons e l ih =>
      have hstep : mergeBy lt upd fresh m (e :: l) = mergeBy lt upd fresh
        (assignBy lt e.1 (upd ((lookupBy lt e.1 m).getD fresh) e.2) m) l := rfl
      rw [hstep, ih (ascending_assignBy hlt h), stored_assignBy hlt h, stored_cons]
      by_cases hk : rank e.1 = rank k
      · have hupdates : updates rank k (e :: l) = e.2 :: updates rank k l := by
          simp [updates, hk]
        have hsame : stored rank e.1 m = stored rank k m := by
          simp only [stored, hk]
        rw [if_pos hk, if_pos hk, hupdates, lookupBy_eq hlt h, hsame]
        cases stored rank k m with
        | some e' => rfl
        | none => rfl
      · have hupdates : updates rank k (e :: l) = updates rank k l := by
          simp [updates, hk]
        rw [if_neg hk, if_neg hk, hupdates]

/-- What a map has before the updates does not matter, if and only if each entry gets updates, the
first of them under the same key, and its value does not matter to them. -/
theorem mergeBy_eq_iff {m : List (κ × V)} (h : Ascending lt m) (l : List (κ × R)) :
    mergeBy lt upd fresh m l = mergeBy lt upd fresh [] l ↔ ∀ e ∈ m,
      (stored rank e.1 l).map Prod.fst = some e.1 ∧
        (updates rank e.1 l).foldl upd e.2 = (updates rank e.1 l).foldl upd fresh := by
  have hnil : Ascending lt ([] : List (κ × V)) := List.Pairwise.nil
  have hempty := fun k => stored_mergeBy hlt upd fresh hnil l k
  constructor
  · intro heq e he
    have hmap := stored_mergeBy hlt upd fresh h l e.1
    rw [heq, hempty, stored_of_mem hlt h he] at hmap
    dsimp only [stored, List.find?_nil] at hmap
    obtain ⟨e', he', hpair⟩ := Option.map_eq_some_iff.mp hmap
    obtain ⟨hkey, hvalue⟩ := Prod.mk.inj hpair
    refine ⟨?_, hvalue.symm⟩
    rw [stored, he']
    exact congrArg some hkey
  · intro hall
    refine eq_of_stored hlt (ascending_mergeBy hlt h l) (ascending_mergeBy hlt hnil l) fun k => ?_
    rw [stored_mergeBy hlt upd fresh h, hempty]
    cases hk : stored rank k m with
    | none => rfl
    | some e =>
        obtain ⟨hkey, hvalue⟩ := hall e (List.mem_of_find?_eq_some hk)
        have hrank := rank_of_stored hk
        have hsame : stored rank e.1 l = stored rank k l := by simp only [stored, hrank]
        have hupdates : updates rank e.1 l = updates rank k l := by simp only [updates, hrank]
        rw [hsame] at hkey
        rw [hupdates] at hvalue
        obtain ⟨e', he', hfst⟩ := Option.map_eq_some_iff.mp hkey
        dsimp only [stored, List.find?_nil] at he' ⊢
        rw [he', hvalue, Option.map_some, hfst]

end Merge

end Support
