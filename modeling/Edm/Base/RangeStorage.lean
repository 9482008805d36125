import Mathlib.Data.List.Induction
import Mathlib.Order.Fin.Basic
import Edm.Support.Iterator
import Edm.Support.Ranges

/-!
# Base — RangeStorage

`RangeDataMap` (`cpplib/base/rangestorage.h`): data for ranges of keys, in a map from the first key
of a range to its last key and its data.

* `find` is the look-up the others share: `lower_bound`, and one entry back if the entry found
  starts behind the key, unless it is the first entry of the map.
* `updateOrInsert` and `erase` cut the range the begin lies in, take away what lies in the range
  (`sweep`) and keep what a range has behind the last key (`keepTail`).
* `compact` joins a range with the next one while they touch and hold the same.
-/

namespace Edm.Base
open Support Support.StdMap Support.Ranges Support.Steps

variable {K D : Type*} [LinearOrder K] [Steps K]

/-- `m_mapRange`. -/
abbrev RangeMap (K D : Type*) [LinearOrder K] := StdMap K (K × D)

namespace RangeMap

/-- `begin()`. -/
def begin (m : RangeMap K D) : Option (K × K × D) := m.first fun _ => true

/-- `lower_bound(nKey)`. -/
def lowerBound (m : RangeMap K D) (nKey : K) : Option (K × K × D) := m.first fun k =>
    decide (nKey ≤ k)

/-- `++it`. -/
def after (m : RangeMap K D) (it : K) : Option (K × K × D) := m.first fun k => decide (it < k)

/-- `--it`, and `--end()`. -/
def before (m : RangeMap K D) : Option (K × K × D) → Option (K × K × D)
  | some (it, _) => m.last fun k => decide (k < it)
  | none => m.last fun _ => true

/-- Where `find` stands before it compares: the range the key would lie in. -/
def place (m : RangeMap K D) (nKey : K) : Option (K × K × D) :=
  if m.entries = [] then none
  else
    match m.lowerBound nKey with
    | none => m.before none
    | some e => if m.begin.map Prod.fst ≠ some e.1 ∧ nKey < e.1 then m.before (some e) else some e

/-- `find`; `none` is `m_mapRange.end()`. -/
def search (m : RangeMap K D) (nKey : K) (bOnlyForPos : Bool) : Option (K × K × D) :=
  (m.place nKey).filter fun e => bOnlyForPos || decide (e.1 ≤ nKey ∧ nKey ≤ e.2.1)

/-- `if ( it->second.first > nLast ) m_mapRange.insert(std::make_pair(nLast + 1, it->second))`. -/
def keepTail (m : RangeMap K D) (second : K × D) (nLast : K) : RangeMap K D :=
  if nLast < second.1 then m.insert (next nLast) second else m

/-- The loop over the entries behind `it`. -/
def sweep (nLast it : K) (m : RangeMap K D) : RangeMap K D :=
  match _h : m.after it with
  | none => m
  | some (k, second) =>
      if nLast < k then m
      else if second.1 ≤ nLast then sweep nLast it (StdMap.erase m k)
      else StdMap.erase (m.insert (next nLast) second) k
  termination_by m.behind it
  decreasing_by
    obtain ⟨hk, hp, -⟩ := first_eq_some _h
    exact behind_erase_lt hk (of_decide_eq_true hp)

/-- `it->second.first = nLast`. -/
def setLast (m : RangeMap K D) (it nLast : K) : RangeMap K D := m.modify it fun v => (nLast, v.2)

/-- `updateOrInsert` up to the loop: afterwards `it` stands at `nBegin`. -/
def openRange (m : RangeMap K D) (r : KeyRange K) (nData : D) : RangeMap K D :=
  match m.search r.begin false with
  | none => m.insert r.begin (r.last, nData)
  | some (k, second) =>
      if second.1 < r.begin then m.insert r.begin (r.last, nData)
      else if k = r.begin then (m.keepTail second r.last).setLast k r.last
      else ((m.keepTail second r.last).setLast k (prev r.begin)).insert r.begin (r.last, nData)

def updateOrInsert (m : RangeMap K D) (r : KeyRange K) (nData : D) : RangeMap K D :=
  (sweep r.last r.begin (m.openRange r nData)).modify r.begin fun v => (v.1, nData)

def erase (m : RangeMap K D) (r : KeyRange K) : RangeMap K D :=
  match m.search r.begin true with
  | none => m
  | some (k, second) =>
      let m := sweep r.last k m
      if k = r.begin then StdMap.erase (m.keepTail second r.last) k
      else if r.begin < second.1 then (m.keepTail second r.last).setLast k (prev r.begin)
      else m

/-- The loops of `compact`, from `it` on: the inner one goes on at `it`, the outer one at `++it`. -/
def compactFrom [DecidableEq D] (m : RangeMap K D) (it : K) : RangeMap K D :=
  match m.find it, _h : m.after it with
  | some second, some (k, second') =>
      if next second.1 < k ∨ second'.2 ≠ second.2 then compactFrom m k
      else compactFrom (StdMap.erase (m.setLast it second'.1) k) it
  | _, _ => m
  termination_by m.behind it
  decreasing_by
    · obtain ⟨hk, hp, -⟩ := first_eq_some _h
      exact behind_lt hk (of_decide_eq_true hp)
    · obtain ⟨hk, hp, -⟩ := first_eq_some _h
      have hlt := of_decide_eq_true hp
      rw [← behind_modify m it it fun v => (second'.1, v.2)]
      have hk' : (m.setLast it second'.1).find k = some second' := by
        rw [setLast, find_modify, if_neg hlt.ne', hk]
      exact behind_erase_lt hk' hlt

def compact [DecidableEq D] (m : RangeMap K D) : RangeMap K D :=
  match m.begin with
  | none => m
  | some (it, _) => m.compactFrom it

/-! ### The look-up -/

section
omit [Steps K]

/-- Where the look-up stands: at the last range that starts at the key or before it, and at the
first range if there is none. -/
inductive Stands (m : RangeMap K D) (nKey k : K) : Prop where
  | before (hle : k ≤ nKey) (hlast : ∀ j v, m.find j = some v → j ≤ nKey → j ≤ k)
  | front (hlt : nKey < k) (hfirst : ∀ j v, m.find j = some v → k ≤ j)

theorem place_stands {m : RangeMap K D} {nKey k : K} {v : K × D}
    (h : m.place nKey = some (k, v)) : m.find k = some v ∧ Stands m nKey k := by
  rw [place] at h
  split at h
  · cases h
  · cases hl : m.lowerBound nKey with
    | none =>
        -- every key is smaller: `--end()`
        rw [hl] at h
        have h : m.last (fun _ => true) = some (k, v) := h
        obtain ⟨hk, -, hmax⟩ := last_eq_some h
        have hle : k ≤ nKey := (not_le.mp (of_decide_eq_false (first_eq_none hl hk))).le
        exact ⟨hk, .before hle fun j w hj _ => hmax j w hj rfl⟩
    | some e =>
        rw [hl] at h
        obtain ⟨he, hge, hmin⟩ := first_eq_some hl
        have hge := of_decide_eq_true hge
        dsimp only at h
        split at h
        next hback =>
          -- `--it`
          have h : m.last (fun k => decide (k < e.1)) = some (k, v) := h
          obtain ⟨hk, hlt, hmax⟩ := last_eq_some h
          have hlt := of_decide_eq_true hlt
          have hle : k ≤ nKey := by
            by_contra hgt
            exact not_le.mpr hlt (hmin k v hk (decide_eq_true (not_le.mp hgt).le))
          exact ⟨hk, .before hle fun j w hj hjle =>
            hmax j w hj (decide_eq_true (hjle.trans_lt hback.2))⟩
        next hstay =>
          cases h
          refine ⟨he, ?_⟩
          rcases hge.lt_or_eq with hlt | rfl
          · have hbegin : m.begin.map Prod.fst = some k := by
              by_contra hne
              exact hstay ⟨hne, hlt⟩
            obtain ⟨⟨k', v'⟩, hb, rfl⟩ := Option.map_eq_some_iff.mp hbegin
            exact .front hlt fun j w hj => (first_eq_some hb).2.2 j w hj rfl
          · exact .before le_rfl fun j w _ hj => hj

theorem find_eq_none_of_place {m : RangeMap K D} {nKey : K} (h : m.place nKey = none)
    (k : K) : m.find k = none := by
  rw [place] at h
  split at h
  next hempty => exact find_eq_none_of_empty hempty k
  next =>
    cases hl : m.lowerBound nKey with
    | none =>
        rw [hl] at h
        have h : m.last (fun _ => true) = none := h
        cases hk : m.find k with
        | none => rfl
        | some v => cases last_eq_none h hk
    | some e =>
        rw [hl] at h
        obtain ⟨he, -, -⟩ := first_eq_some hl
        dsimp only at h
        split at h
        next hback =>
          cases hb : m.begin with
          | none => cases first_eq_none hb he
          | some e' =>
              obtain ⟨he', -, hmin⟩ := first_eq_some hb
              have hne : e'.1 ≠ e.1 := fun heq => hback.1 (by rw [hb, Option.map_some, heq])
              have hlt : e'.1 < e.1 := lt_of_le_of_ne (hmin e.1 e.2 he rfl) hne
              have h : m.last (fun k => decide (k < e.1)) = none := h
              exact absurd hlt (of_decide_eq_false (last_eq_none h he'))
        next => cases h

theorem search_true (m : RangeMap K D) (nKey : K) : m.search nKey true = m.place nKey := by
  rw [search]
  cases m.place nKey <;> rfl

/-- In a map whose ranges are apart the look-up finds the range the key lies in. -/
theorem search_eq_some_iff {m : RangeMap K D} (hm : Apart m.find) {nKey k : K} {v : K × D} :
    m.search nKey false = some (k, v) ↔ m.find k = some v ∧ k ≤ nKey ∧ nKey ≤ v.1 := by
  rw [search, Option.filter_eq_some_iff, Bool.false_or, decide_eq_true_iff]
  constructor
  · rintro ⟨h, hle, hlast⟩
    exact ⟨(place_stands h).1, hle, hlast⟩
  · rintro ⟨hk, hle, hlast⟩
    refine ⟨?_, hle, hlast⟩
    cases hs : m.place nKey with
    | none =>
        rw [find_eq_none_of_place hs] at hk
        cases hk
    | some e =>
        obtain ⟨he, hstands⟩ := place_stands hs
        cases hstands with
        | before hle' hmax =>
            have hke := hmax k v hk hle
            rcases hke.lt_or_eq with hlt | rfl
            · exact absurd (hm.apart hk he hlt) (not_lt.mpr (hle'.trans hlast))
            · rw [he] at hk
              rw [← Option.some.inj hk]
        | front hlt hmin => exact absurd (hmin k v hk) (not_le.mpr (hle.trans_lt hlt))

theorem search_eq_none_iff {m : RangeMap K D} (hm : Apart m.find) {nKey : K} :
    m.search nKey false = none ↔ ∀ d, ¬ Covers m.find nKey d := by
  constructor
  · rintro h d ⟨k, l, hk, hle, hlast⟩
    rw [(search_eq_some_iff hm).mpr ⟨hk, hle, hlast⟩] at h
    cases h
  · intro h
    cases hs : m.search nKey false with
    | none => rfl
    | some e =>
        obtain ⟨he, hle, hlast⟩ := (search_eq_some_iff hm).mp hs
        exact absurd ⟨e.1, e.2.1, he, hle, hlast⟩ (h e.2.2)

end

/-! ### The parts of an update -/

omit [Steps K] in
theorem find_setLast (m : RangeMap K D) (it nLast k : K) : (m.setLast it nLast).find k =
    if k = it then (m.find k).map fun v => (nLast, v.2) else m.find k :=
  find_modify it k _ m

theorem find_keepTail {m : RangeMap K D} {v : K × D} {nLast : K}
    (hfree : nLast < v.1 → m.find (next nLast) = none) (k : K) : (m.keepTail v nLast).find k =
      if nLast < v.1 ∧ k = next nLast then some v else m.find k := by
  rw [keepTail]
  split
  next hlt => rw [find_insert, hfree hlt, Option.getD_none]; simp only [hlt, true_and]
  next hlt => rw [if_neg fun h => hlt h.1]

/-- The loop takes away what starts behind `it` and not behind `nLast`, and keeps the part of it
that lies behind `nLast`. -/
theorem find_sweep (nLast it : K) (m : RangeMap K D)
    (hm : ∀ k v k' v', it < k → m.find k = some v → m.find k' = some v' → k < k' → v.1 < k')
    (k : K) (v : K × D) : (sweep nLast it m).find k = some v ↔
      (k ≤ it ∨ nLast < k) ∧ m.find k = some v ∨
      k = next nLast ∧ nLast < v.1 ∧ ∃ k₀, it < k₀ ∧ k₀ ≤ nLast ∧ m.find k₀ = some v := by
  fun_induction sweep nLast it m with
  | case1 m hnone =>
      have hle : ∀ k v, m.find k = some v → k ≤ it := fun k v hk =>
        not_lt.mp (of_decide_eq_false (first_eq_none hnone hk))
      constructor
      · intro hk
        exact Or.inl ⟨Or.inl (hle k v hk), hk⟩
      · rintro (⟨-, hk⟩ | ⟨-, -, k₀, hlt, -, hk₀⟩)
        · exact hk
        · exact absurd hlt (not_lt.mpr (hle k₀ v hk₀))
  | case2 m k₁ v₁ hsome hlt =>
      obtain ⟨-, -, hmin⟩ := first_eq_some hsome
      have hout : ∀ k v, it < k → m.find k = some v → nLast < k := fun k v hit hk =>
        hlt.trans_le (hmin k v hk (decide_eq_true hit))
      constructor
      · intro hk
        exact Or.inl ⟨(le_or_gt k it).imp_right fun hit => hout k v hit hk, hk⟩
      · rintro (⟨-, hk⟩ | ⟨-, -, k₀, hit, hle, hk₀⟩)
        · exact hk
        · exact absurd (hout k₀ v hit hk₀) (not_lt.mpr hle)
  | case3 m k₁ v₁ hsome hlt hle ih =>
      obtain ⟨hk₁, hit, -⟩ := first_eq_some hsome
      have hit := of_decide_eq_true hit
      have hle₁ := not_lt.mp hlt
      have herase : ∀ k v, (StdMap.erase m k₁).find k = some v ↔ k ≠ k₁ ∧ m.find k = some v := by
        intro k v
        rw [find_erase]
        by_cases heq : k = k₁ <;> simp [heq]
      rw [ih fun k v k' v' hk h h' =>
        hm k v k' v' hk ((herase k v).mp h).2 ((herase k' v').mp h').2]
      simp only [herase]
      constructor
      · rintro (⟨hk, -, h⟩ | ⟨hk, hv, k₀, hk₀, hk₀', -, h⟩)
        · exact Or.inl ⟨hk, h⟩
        · exact Or.inr ⟨hk, hv, k₀, hk₀, hk₀', h⟩
      · rintro (⟨hk, h⟩ | ⟨hk, hv, k₀, hk₀, hk₀', h⟩)
        · refine Or.inl ⟨hk, ?_, h⟩
          rintro rfl
          exact hk.elim (not_le.mpr hit) hlt
        · refine Or.inr ⟨hk, hv, k₀, hk₀, hk₀', ?_, h⟩
          rintro rfl
          rw [hk₁] at h
          cases h
          exact not_le.mpr hv hle
  | case4 m k₁ v₁ hsome hlt hle =>
      obtain ⟨hk₁, hit, hmin⟩ := first_eq_some hsome
      have hit := of_decide_eq_true hit
      have hlt := not_lt.mp hlt
      have hlast := not_le.mp hle
      have hnext := (covBy_next hlast).lt
      -- what starts behind `k₁` starts behind its last key
      have hout : ∀ k v, k₁ < k → m.find k = some v → v₁.1 < k := fun k v hk h =>
        hm k₁ v₁ k v hit hk₁ h hk
      have hfree : m.find (next nLast) = none := by
        cases hn : m.find (next nLast) with
        | none => rfl
        | some w =>
            have := hout _ w (hlt.trans_lt hnext) hn
            exact absurd ((next_le_iff hlast).mpr hlast) (not_le.mpr this)
      rw [find_erase, find_insert, hfree, Option.getD_none]
      constructor
      · intro h
        split at h
        next => cases h
        next hne =>
          split at h
          next heq =>
            cases h
            exact Or.inr ⟨heq, hlast, k₁, hit, hlt, hk₁⟩
          next =>
            refine Or.inl ⟨?_, h⟩
            rcases le_or_gt k it with hk | hk
            · exact Or.inl hk
            · have hk := lt_of_le_of_ne (hmin k v h (decide_eq_true hk)) (Ne.symm hne)
              exact Or.inr (hlast.trans (hout k v hk h))
      · rintro (⟨hk, h⟩ | ⟨rfl, hv, k₀, hk₀, hk₀', h⟩)
        · have hne : k ≠ k₁ := by
            rintro rfl
            exact hk.elim (not_le.mpr hit) (not_lt.mpr hlt)
          have hne' : k ≠ next nLast := by
            rintro rfl
            rw [hfree] at h
            cases h
          rw [if_neg hne, if_neg hne', h]
        · rw [if_neg (hlt.trans_lt hnext).ne', if_pos rfl]
          rcases (hmin k₀ v h (decide_eq_true hk₀)).lt_or_eq with hgt | rfl
          · exact absurd (hlast.trans (hout k₀ v hgt h)) (not_lt.mpr hk₀')
          · exact hk₁.symm.trans h

/-! ### Setting a range -/

/-- What `openRange` does to the stored ranges `f`: the range `r` is there, but so is what starts
in it. -/
structure Opens (f g : Stored K D) (r : KeyRange K) : Prop where
  before : ∀ k < r.begin, g k = (f k).map (endBefore r.begin)
  begin : ∃ d, g r.begin = some (r.last, d)
  behind : ∀ k, r.begin < k → ∀ v, g k = some v ↔ f k = some v ∨
    k = next r.last ∧ r.last < v.1 ∧ ∃ k₀ ≤ r.begin, f k₀ = some v

/-- The part behind `r` of the range that `r` begins in. -/
theorem find_keepTail_iff {m : RangeMap K D} (hm : Apart m.find) {r : KeyRange K} {k₁ : K}
    {v₁ : K × D} (h₁ : m.find k₁ = some v₁) (hin : k₁ ≤ r.begin ∧ r.begin ≤ v₁.1) (k : K)
    (v : K × D) : (m.keepTail v₁ r.last).find k = some v ↔ m.find k = some v ∨
      k = next r.last ∧ r.last < v.1 ∧ ∃ k₀ ≤ r.begin, m.find k₀ = some v := by
  have hle := r.le
  have hfree : r.last < v₁.1 → m.find (next r.last) = none := fun hlt =>
    hm.free h₁ ((hin.1.trans r.le).trans_lt (covBy_next hlt).lt) ((next_le_iff hlt).mpr hlt)
  rw [find_keepTail hfree]
  constructor
  · intro h
    split at h
    next hc =>
      cases h
      exact Or.inr ⟨hc.2, hc.1, k₁, hin.1, h₁⟩
    next => exact Or.inl h
  · rintro (h | ⟨rfl, hlt, k₀, hk₀, h⟩)
    · rw [if_neg, h]
      rintro ⟨hlt, rfl⟩
      rw [hfree hlt] at h
      cases h
    · obtain ⟨rfl, rfl⟩ := hm.unique h₁ h hin ⟨hk₀, by order⟩
      rw [if_pos ⟨hlt, rfl⟩]

theorem openRange_opens {m : RangeMap K D} (hm : Apart m.find) (r : KeyRange K) (d : D) :
    Opens m.find (m.openRange r d).find r := by
  have hle := r.le
  rw [openRange]
  split
  next hnone =>
    -- nothing lies at the begin of the range
    have hout := (search_eq_none_iff hm).mp hnone
    have hbefore : ∀ k v, k ≤ r.begin → m.find k = some v → v.1 < r.begin := fun k v hk h =>
      not_le.mp fun hl => hout v.2 ⟨k, v.1, h, hk, hl⟩
    refine ⟨fun k hk => ?_, ⟨d, ?_⟩, fun k hk v => ?_⟩
    · rw [find_insert, if_neg hk.ne, map_endBefore fun v => hbefore k v hk.le]
    · rw [find_insert, if_pos rfl]
      cases hb : m.find r.begin with
      | none => rfl
      | some v => exact absurd (hbefore _ v le_rfl hb) (not_lt.mpr (hm.nonempty hb))
    · rw [find_insert, if_neg hk.ne']
      refine ⟨Or.inl, fun h => h.resolve_right ?_⟩
      rintro ⟨-, hlt, k₀, hk₀, h⟩
      exact absurd (hbefore k₀ v hk₀ h) (by order)
  next k₁ v₁ hsome =>
    obtain ⟨h₁, hin⟩ := (search_eq_some_iff hm).mp hsome
    rw [if_neg (not_lt.mpr hin.2)]
    have htail := find_keepTail_iff hm h₁ hin
    have hkeep : ∀ k, k ≤ r.begin → (m.keepTail v₁ r.last).find k = m.find k := by
      intro k hk
      refine Option.ext fun v => (htail k v).trans ⟨fun h => h.resolve_right ?_, Or.inl⟩
      rintro ⟨rfl, hlt, -⟩
      exact absurd (covBy_next hlt).lt (by order)
    split
    next heq =>
      -- the range starts where the one found starts
      subst heq
      refine ⟨fun k hk => ?_, ⟨v₁.2, ?_⟩, fun k hk v => ?_⟩
      · rw [find_setLast, if_neg hk.ne, hkeep k hk.le, map_endBefore fun v h => hm.apart h h₁ hk]
      · rw [find_setLast, if_pos rfl, hkeep _ le_rfl, h₁]
        rfl
      · rw [find_setLast, if_neg hk.ne', htail]
    next hne =>
      -- the range starts inside the one found
      have hlt := lt_of_le_of_ne hin.1 hne
      refine ⟨fun k hk => ?_, ⟨d, ?_⟩, fun k hk v => ?_⟩
      · rw [find_insert, if_neg hk.ne, find_setLast, hkeep k hk.le]
        split
        next heq =>
          subst heq
          rw [h₁, Option.map_some, Option.map_some, endBefore, if_neg (not_lt.mpr hin.2)]
        next hne' =>
          refine (map_endBefore fun v h => ?_).symm
          rcases lt_or_gt_of_ne hne' with hk' | hk'
          · exact (hm.apart h h₁ hk').trans hlt
          · exact absurd (hm.apart h₁ h hk') (by order)
      · have hb : m.find r.begin = none := hm.free h₁ hlt hin.2
        rw [find_insert, if_pos rfl, find_setLast, if_neg hlt.ne', hkeep _ le_rfl, hb]
        rfl
      · rw [find_insert, if_neg hk.ne', find_setLast, if_neg (hlt.trans hk).ne', htail]

theorem updateOrInsert_overwrites {m : RangeMap K D} (hm : Apart m.find) (r : KeyRange K) (d : D) :
    Overwrites m.find (m.updateOrInsert r d).find r (some d) := by
  have ho := openRange_opens hm r d
  have hle := r.le
  have hapart : ∀ k v k' v', r.begin < k → (m.openRange r d).find k = some v →
      (m.openRange r d).find k' = some v' → k < k' → v.1 < k' := by
    intro k v k' v' hk h h' hlt
    rcases (ho.behind k hk v).mp h with h | ⟨rfl, hv, k₀, hk₀, h⟩
    · rcases (ho.behind k' (hk.trans hlt) v').mp h' with h' | ⟨rfl, hv', k₀, hk₀, h'⟩
      · exact hm.apart h h' hlt
      · have := hm.apart h' h (hk₀.trans_lt hk)
        exact absurd ((next_le_iff hv').mpr hv') (by order)
    · rcases (ho.behind k' (hk.trans hlt) v').mp h' with h' | ⟨rfl, -⟩
      · exact hm.apart h h' (hk₀.trans_lt (hk.trans hlt))
      · exact absurd hlt (lt_irrefl _)
  have hsweep := find_sweep r.last _ _ hapart
  have hkeep : ∀ k ≤ r.begin, (sweep r.last r.begin (m.openRange r d)).find k
      = (m.openRange r d).find k := by
    intro k hk
    refine Option.ext fun v => (hsweep k v).trans ⟨fun h => ?_, fun h => Or.inl ⟨Or.inl hk, h⟩⟩
    rcases h with h | ⟨rfl, hlt, -⟩
    · exact h.2
    · exact absurd (covBy_next hlt).lt (by order)
  refine ⟨fun k hk => ?_, ?_, fun k hk v => ?_⟩
  · rw [updateOrInsert, find_modify, if_neg hk.ne, hkeep k hk.le, ho.before k hk]
  · obtain ⟨d', hd'⟩ := ho.begin
    rw [updateOrInsert, find_modify, if_pos rfl, hkeep _ le_rfl, hd']
    rfl
  · rw [updateOrInsert, find_modify, if_neg hk.ne', hsweep]
    constructor
    · rintro (⟨hout, h⟩ | ⟨rfl, hlt, k₀, hk₀, hk₀', h⟩)
      · have hout := hout.resolve_left (not_le.mpr hk)
        rcases (ho.behind k hk v).mp h with h | ⟨rfl, hlt, k₀, hk₀, h⟩
        · exact Or.inl ⟨hout, h⟩
        · exact Or.inr ⟨rfl, hlt, k₀, hk₀.trans hle, h⟩
      · rcases (ho.behind k₀ hk₀ v).mp h with h | ⟨rfl, -⟩
        · exact Or.inr ⟨rfl, hlt, k₀, hk₀', h⟩
        · exact absurd (covBy_next hlt).lt (by order)
    · rintro (⟨hout, h⟩ | ⟨rfl, hlt, k₀, hk₀, h⟩)
      · exact Or.inl ⟨Or.inr hout, (ho.behind k hk v).mpr (Or.inl h)⟩
      · rcases le_or_gt k₀ r.begin with hb | hb
        · exact Or.inl ⟨Or.inr (covBy_next hlt).lt,
            (ho.behind _ hk v).mpr (Or.inr ⟨rfl, hlt, k₀, hb, h⟩)⟩
        · exact Or.inr ⟨rfl, hlt, k₀, hb, hk₀, (ho.behind k₀ hb v).mpr (Or.inl h)⟩

/-! ### Removing a range -/

/-- The map has no range; or a range starts at the begin of `r` or before it, and none that starts
before it ends right there; or the first range starts right behind `r` and ends at the key that
`nBegin - 1` gives, which only a type that wraps round can do. -/
def Removable (m : RangeMap K D) (r : KeyRange K) : Prop :=
  m.entries = [] ∨
  ((∃ e ∈ m.entries, e.1 ≤ r.begin) ∧ ∀ e ∈ m.entries, e.1 < r.begin → e.2.1 ≠ r.begin) ∨
  ∃ e ∈ m.begin, r.last < e.1 ∧ next r.last = e.1 ∧ prev r.begin = e.2.1

instance (m : RangeMap K D) (r : KeyRange K) : Decidable (m.Removable r) :=
  inferInstanceAs (Decidable (_ ∨ _ ∨ _))

/-- What is left when the loop has run from the range before the begin, with the part behind `r`
of that range put back. -/
theorem find_keepTail_sweep {m : RangeMap K D} (hm : Apart m.find) {r : KeyRange K} {k₁ : K}
    {v₁ : K × D} (h₁ : m.find k₁ = some v₁) (hle₁ : k₁ ≤ r.begin)
    (hmax : ∀ j v, m.find j = some v → j ≤ r.begin → j ≤ k₁) (k : K) (v : K × D) :
    ((sweep r.last k₁ m).keepTail v₁ r.last).find k = some v ↔
      (k ≤ r.begin ∨ r.last < k) ∧ m.find k = some v ∨
      k = next r.last ∧ r.last < v.1 ∧ ∃ k₀ ≤ r.last, m.find k₀ = some v := by
  have hle := r.le
  have hsweep := find_sweep r.last k₁ m
    fun k v k' v' _ h h' hlt => hm.apart h h' hlt
  have hfree : r.last < v₁.1 → (sweep r.last k₁ m).find (next r.last) = none := by
    intro hlt
    cases hn : (sweep r.last k₁ m).find (next r.last) with
    | none => rfl
    | some w =>
        rcases (hsweep _ w).mp hn with ⟨-, h⟩ | ⟨-, -, k₀, hk₀, hk₀', h⟩
        · have := hm.apart h₁ h ((hle₁.trans hle).trans_lt (covBy_next hlt).lt)
          exact absurd ((next_le_iff hlt).mpr hlt) (not_le.mpr this)
        · exact absurd (hm.apart h₁ h hk₀) (by order)
  rw [find_keepTail hfree]
  constructor
  · intro h
    split at h
    next hc =>
      cases h
      exact Or.inr ⟨hc.2, hc.1, k₁, hle₁.trans hle, h₁⟩
    next =>
      rcases (hsweep k v).mp h with ⟨hk, h⟩ | ⟨rfl, hlt, k₀, hk₀, hk₀', h⟩
      · exact Or.inl ⟨hk.imp_left fun hk => hk.trans hle₁, h⟩
      · exact Or.inr ⟨rfl, hlt, k₀, hk₀', h⟩
  · rintro (⟨hk, h⟩ | ⟨rfl, hlt, k₀, hk₀, h⟩)
    · have hk' : (sweep r.last k₁ m).find k = some v :=
        (hsweep k v).mpr (Or.inl ⟨hk.imp_left fun hk => hmax k v h hk, h⟩)
      rw [if_neg, hk']
      rintro ⟨hlt, rfl⟩
      rw [hfree hlt] at hk'
      cases hk'
    · rcases le_or_gt k₀ k₁ with hk | hk
      · obtain ⟨rfl, rfl⟩ : k₀ = k₁ ∧ v = v₁ := by
          rcases hk.lt_or_eq with hk | rfl
          · exact absurd (hm.apart h h₁ hk) (by order)
          · exact ⟨rfl, Option.some.inj (h.symm.trans h₁)⟩
        rw [if_pos ⟨hlt, rfl⟩]
      · rw [if_neg]
        · exact (hsweep _ v).mpr (Or.inr ⟨rfl, hlt, k₀, hk, hk₀, h⟩)
        · rintro ⟨hlt₁, -⟩
          exact absurd (hm.apart h₁ h hk) (by order)

theorem keepTail_of_le {m : RangeMap K D} {v : K × D} {nLast : K} (h : v.1 ≤ nLast) :
    m.keepTail v nLast = m :=
  if_neg (not_lt.mpr h)

theorem erase_overwrites {m : RangeMap K D} (hm : Apart m.find) {r : KeyRange K} {k₁ : K}
    {v₁ : K × D} (hplace : m.place r.begin = some (k₁, v₁)) (hle₁ : k₁ ≤ r.begin)
    (hmax : ∀ j v, m.find j = some v → j ≤ r.begin → j ≤ k₁)
    (hend : k₁ < r.begin → v₁.1 ≠ r.begin) :
    Overwrites m.find (m.erase r).find r none := by
  have hle := r.le
  obtain ⟨h₁, -⟩ := place_stands hplace
  have htail := find_keepTail_sweep hm h₁ hle₁ hmax
  have hkeep : ∀ k, k ≤ r.begin →
      ((sweep r.last k₁ m).keepTail v₁ r.last).find k = m.find k := by
    intro k hk
    refine Option.ext fun v => (htail k v).trans ⟨fun h => ?_, fun h => Or.inl ⟨Or.inl hk, h⟩⟩
    rcases h with h | ⟨rfl, hlt, -⟩
    · exact h.2
    · exact absurd (covBy_next hlt).lt (by order)
  have hbehind : ∀ k, r.begin < k → ∀ v,
      ((sweep r.last k₁ m).keepTail v₁ r.last).find k = some v ↔ r.last < k ∧ m.find k = some v ∨
        k = next r.last ∧ r.last < v.1 ∧ ∃ k₀ ≤ r.last, m.find k₀ = some v := by
    intro k hk v
    rw [htail, or_iff_right (not_le.mpr hk)]
  -- what starts before the last range before the begin ends before it
  have hends : ∀ k v, k < k₁ → m.find k = some v → v.1 < r.begin := fun k v hk h =>
    (hm.apart h h₁ hk).trans_le hle₁
  rw [erase, search_true, hplace]
  dsimp only
  split
  next heq =>
    subst heq
    refine ⟨fun k hk => ?_, ?_, fun k hk v => ?_⟩
    · rw [find_erase, if_neg hk.ne, hkeep k hk.le, map_endBefore fun v h => hends k v hk h]
    · rw [find_erase, if_pos rfl]
      rfl
    · rw [find_erase, if_neg hk.ne', hbehind k hk]
  next hne =>
    have hlt := lt_of_le_of_ne hle₁ hne
    have hnone : m.find r.begin = none := by
      cases hb : m.find r.begin with
      | none => rfl
      | some v => exact absurd (hmax _ v hb le_rfl) (not_le.mpr hlt)
    split
    next hin =>
      refine ⟨fun k hk => ?_, ?_, fun k hk v => ?_⟩
      · rw [find_setLast, hkeep k hk.le]
        split
        next heq =>
          subst heq
          rw [h₁, Option.map_some, Option.map_some, endBefore, if_neg (not_lt.mpr hin.le)]
        next hne' =>
          refine (map_endBefore fun v h => ?_).symm
          exact hends k v (lt_of_le_of_ne (hmax k v h hk.le) hne') h
      · rw [find_setLast, if_neg hlt.ne', hkeep _ le_rfl, hnone]
        rfl
      · rw [find_setLast, if_neg (hlt.trans hk).ne', hbehind k hk]
    next hout =>
      -- the range before the begin ends before it
      have hv₁ := lt_of_le_of_ne (not_lt.mp hout) (hend hlt)
      rw [keepTail_of_le (by order)] at hkeep hbehind
      refine ⟨fun k hk => ?_, ?_, hbehind⟩
      · rw [hkeep k hk.le]
        refine (map_endBefore fun v h => ?_).symm
        rcases (hmax k v h hk.le).lt_or_eq with hk' | rfl
        · exact hends k v hk' h
        · rw [h₁] at h
          cases h
          exact hv₁
      · rw [hkeep _ le_rfl, hnone]
        rfl

omit [Steps K] in
theorem entries_eq_nil {m : RangeMap K D} (h : ∀ k, m.find k = none) : m.entries = [] := by
  rw [List.eq_nil_iff_forall_not_mem]
  intro e he
  have := find_eq_some_iff.mpr he
  rw [h] at this
  cases this

section
variable {m : RangeMap K D} {p : K → Option D} {r : KeyRange K} {k₁ : K} {v₁ : K × D}

/-- A look-up that stands at a range before the begin: the range must not end right there. -/
theorem erase_before_iff (hm : Represents m.find p) (hplace : m.place r.begin = some (k₁, v₁))
    (hle₁ : k₁ ≤ r.begin) (hmax : ∀ j v, m.find j = some v → j ≤ r.begin → j ≤ k₁) :
    Represents (m.erase r).find (setOn r none p) ↔ k₁ < r.begin → v₁.1 ≠ r.begin := by
  constructor
  · rintro h hlt heq
    obtain ⟨h₁, -⟩ := place_stands hplace
    have hsweep := find_sweep r.last k₁ m
      fun k v k' v' _ h h' hlt => hm.apart.apart h h' hlt
    have herase : m.erase r = sweep r.last k₁ m := by
      rw [erase, search_true, hplace]
      dsimp only
      rw [if_neg hlt.ne, if_neg heq.not_gt]
    -- the last key of the range before the begin is found as before
    have hcover : Covers (m.erase r).find r.begin v₁.2 := by
      rw [herase]
      exact ⟨k₁, v₁.1, (hsweep k₁ v₁).mpr (Or.inl ⟨Or.inl le_rfl, h₁⟩), hle₁, heq.ge⟩
    have := (h.covers _ _).mp hcover
    rw [setOn, if_pos ⟨le_rfl, r.le⟩] at this
    cases this
  · intro hend
    exact hm.overwrite (erase_overwrites hm.apart hplace hle₁ hmax hend)

/-- A look-up that stands at the first range, behind the begin. -/
theorem erase_front (hm : Apart m.find) (hplace : m.place r.begin = some (k₁, v₁))
    (hlt : r.begin < k₁) : m.erase r
      = ((sweep r.last k₁ m).keepTail v₁ r.last).setLast k₁ (prev r.begin) := by
  obtain ⟨h₁, -⟩ := place_stands hplace
  rw [erase, search_true, hplace]
  dsimp only
  rw [if_neg hlt.ne', if_pos (hlt.trans_le (hm.nonempty h₁))]

theorem erase_front_iff (hm : Represents m.find p) (hplace : m.place r.begin = some (k₁, v₁))
    (hlt : r.begin < k₁) (hmin : ∀ j v, m.find j = some v → k₁ ≤ j) :
    Represents (m.erase r).find (setOn r none p) ↔
      r.last < k₁ ∧ next r.last = k₁ ∧ prev r.begin = v₁.1 := by
  have hle := r.le
  obtain ⟨h₁, -⟩ := place_stands hplace
  have hsweep := find_sweep r.last k₁ m
    fun k v k' v' _ h h' hlt => hm.apart.apart h h' hlt
  have hend := hm.apart.nonempty h₁
  rw [erase_front hm.apart hplace hlt]
  -- the loop leaves what starts at the first range or before it
  have hsweep₁ : (sweep r.last k₁ m).find k₁ = some v₁ :=
    (hsweep k₁ v₁).mpr (Or.inl ⟨Or.inl le_rfl, h₁⟩)
  have hsweep₀ : ∀ k < k₁, (sweep r.last k₁ m).find k = none := by
    intro k hk
    cases hn : (sweep r.last k₁ m).find k with
    | none => rfl
    | some w =>
        rcases (hsweep k w).mp hn with ⟨-, h⟩ | ⟨rfl, hw, k₀, hk₀, hk₀', -⟩
        · exact absurd (hmin k w h) (not_le.mpr hk)
        · exact absurd (covBy_next hw).lt (by order)
  constructor
  · intro h
    have htail₁ : ((sweep r.last k₁ m).keepTail v₁ r.last).find k₁ = some v₁ := by
      rw [keepTail]
      split
      · rw [find_insert]
        split
        next heq => rw [← heq, hsweep₁, Option.getD_some]
        next => exact hsweep₁
      · exact hsweep₁
    have hset₁ : (((sweep r.last k₁ m).keepTail v₁ r.last).setLast k₁ (prev r.begin)).find k₁
        = some (prev r.begin, v₁.2) := by
      rw [find_setLast, if_pos rfl, htail₁, Option.map_some]
    have hge : k₁ ≤ prev r.begin := h.apart.nonempty hset₁
    have hlast : r.last < k₁ := by
      by_contra hin
      -- the first range starts in `r`, and its first key is still found
      have := (h.covers _ _).mp ⟨k₁, _, hset₁, le_rfl, hge⟩
      rw [setOn, if_pos ⟨hlt.le, not_lt.mp hin⟩] at this
      cases this
    have hlast' : r.last < v₁.1 := hlast.trans_le hend
    have hnext : next r.last = k₁ := by
      by_contra hne
      -- the range put back starts before the first range
      have hn := lt_of_le_of_ne ((next_le_iff hlast).mpr hlast) hne
      have hput : (((sweep r.last k₁ m).keepTail v₁ r.last).setLast k₁ (prev r.begin)).find
          (next r.last) = some v₁ := by
        rw [find_setLast, if_neg hn.ne, keepTail, if_pos hlast', find_insert, if_pos rfl,
          hsweep₀ _ hn, Option.getD_none]
      have := (h.covers _ _).mp ⟨_, _, hput, le_rfl, hn.le.trans hend⟩
      rw [setOn, if_neg fun hr => not_lt.mpr hr.2 (covBy_next hlast).lt] at this
      obtain ⟨k, l, hk, hkx, -⟩ := (hm.covers _ _).mpr this
      exact absurd (hmin k _ hk) (by order)
    refine ⟨hlast, hnext, ?_⟩
    have hother : ∀ k l d, k ≠ k₁ → ((sweep r.last k₁ m).keepTail v₁ r.last).find k = some (l, d) →
        k₁ < k ∧ m.find k = some (l, d) := by
      intro k l d hne hk
      rw [keepTail, if_pos hlast', hnext, find_insert, if_neg hne] at hk
      rcases (hsweep k _).mp hk with ⟨-, hk⟩ | ⟨rfl, -⟩
      · exact ⟨lt_of_le_of_ne (hmin k _ hk) (Ne.symm hne), hk⟩
      · exact absurd hnext hne
    rcases lt_trichotomy (prev r.begin) v₁.1 with hp | hp | hp
    · -- the last key of the first range is lost
      have hcover := (hm.covers v₁.1 v₁.2).mp ⟨k₁, v₁.1, h₁, hend, le_rfl⟩
      have hset : setOn r none p v₁.1 = some v₁.2 := by
        rw [setOn, if_neg fun hr => not_lt.mpr hr.2 hlast', hcover]
      obtain ⟨k, l, hk, hkx, hxl⟩ := (h.covers _ _).mpr hset
      rw [find_setLast] at hk
      split at hk
      next heq =>
        subst heq
        rw [htail₁] at hk
        cases hk
        exact absurd hp (not_lt.mpr hxl)
      next hne =>
        obtain ⟨hlt', hk⟩ := hother k l _ hne hk
        exact absurd (hm.apart.apart h₁ hk hlt') (not_lt.mpr hkx)
    · exact hp
    · -- the first range grows
      have := (h.covers _ _).mp ⟨k₁, _, hset₁, hge, le_rfl⟩
      rw [setOn, if_neg fun hr => not_lt.mpr hr.2 (hlast.trans_le hge)] at this
      obtain ⟨k, l, hk, hkx, hxl⟩ := (hm.covers _ _).mpr this
      rcases (hmin k _ hk).lt_or_eq with hlt' | rfl
      · have hk' : (((sweep r.last k₁ m).keepTail v₁ r.last).setLast k₁ (prev r.begin)).find k
            = some (l, v₁.2) := by
          rw [find_setLast, if_neg hlt'.ne', keepTail, if_pos hlast', hnext, find_insert,
            if_neg hlt'.ne']
          exact (hsweep k _).mpr (Or.inl ⟨Or.inr (hlast.trans hlt'), hk⟩)
        exact absurd (h.apart.apart hset₁ hk' hlt') (not_lt.mpr hkx)
      · rw [h₁] at hk
        have hl : v₁.1 = l := congrArg Prod.fst (Option.some.inj hk)
        exact absurd hp (not_lt.mpr (hl ▸ hxl))
  · rintro ⟨hlast, hnext, hprev⟩
    have hfind : (((sweep r.last k₁ m).keepTail v₁ r.last).setLast k₁ (prev r.begin)).find
        = m.find := by
      funext k
      rw [find_setLast, keepTail, if_pos (hlast.trans_le hend), hnext, find_insert]
      split
      next heq => rw [heq, hsweep₁, Option.getD_some, Option.map_some, hprev, h₁]
      next =>
        refine Option.ext fun v => (hsweep k v).trans ⟨fun h => ?_, fun h => ?_⟩
        · rcases h with h | ⟨-, -, k₀, hk₀, hk₀', -⟩
          · exact h.2
          · exact absurd (hlast.trans hk₀) (not_lt.mpr hk₀')
        · exact Or.inl ⟨(le_or_gt k k₁).imp_right hlast.trans, h⟩
    have hset : setOn r none p = p := by
      funext x
      rw [setOn]
      split
      next hr =>
        cases hx : p x with
        | none => rfl
        | some d =>
            obtain ⟨k, l, hk, hkx, -⟩ := (hm.covers x d).mpr hx
            exact absurd (hmin k _ hk) (by order)
      next => rfl
    rw [hfind, hset]
    exact hm

/-- `erase` removes the keys of the range and no others if and only if the range can be removed. -/
theorem erase_represents_iff (hm : Represents m.find p) :
    Represents (m.erase r).find (setOn r none p) ↔ m.Removable r := by
  cases hplace : m.place r.begin with
  | none =>
      have hnone := find_eq_none_of_place hplace
      have hempty := entries_eq_nil hnone
      refine iff_of_true ?_ (Or.inl hempty)
      have herase : m.erase r = m := by rw [erase, search_true, hplace]
      rw [herase]
      refine hm.overwrite ⟨fun k _ => ?_, hnone _, fun k _ v => ?_⟩
      · rw [hnone k, Option.map_none]
      · simp only [hnone, reduceCtorEq, and_false, exists_false, or_self]
  | some e =>
      obtain ⟨k₁, v₁⟩ := e
      obtain ⟨h₁, hstands⟩ := place_stands hplace
      have hne : m.entries ≠ [] := List.ne_nil_of_mem (find_eq_some_iff.mp h₁)
      cases hstands with
      | before hle₁ hmax =>
          rw [erase_before_iff hm hplace hle₁ hmax]
          constructor
          · intro hend
            refine Or.inr (Or.inl ⟨⟨_, find_eq_some_iff.mp h₁, hle₁⟩, fun e he hlt heq => ?_⟩)
            have he := find_eq_some_iff.mpr he
            rcases (hmax e.1 e.2 he hlt.le).lt_or_eq with hk | hk
            · exact absurd (hm.apart.apart he h₁ hk) (by order)
            · rw [hk, h₁] at he
              rw [← Option.some.inj he] at heq
              exact hend (hk ▸ hlt) heq
          · rintro (hempty | ⟨-, hend⟩ | ⟨e, he, hlt, -⟩) hlt₁
            · exact absurd hempty hne
            · exact hend _ (find_eq_some_iff.mp h₁) hlt₁
            · have hle := r.le
              exact absurd ((first_eq_some he).2.2 k₁ v₁ h₁ rfl) (by order)
      | front hlt hmin =>
          rw [erase_front_iff hm hplace hlt hmin]
          constructor
          · intro h
            cases hb : m.begin with
            | none => cases first_eq_none hb h₁
            | some e =>
                obtain ⟨he, -, hfirst⟩ := first_eq_some hb
                have heq : e.1 = k₁ := le_antisymm (hfirst k₁ v₁ h₁ rfl) (hmin e.1 e.2 he)
                rw [heq, h₁] at he
                have hv := Option.some.inj he
                refine Or.inr (Or.inr ⟨e, hb, ?_⟩)
                rw [heq, ← hv]
                exact h
          · rintro (hempty | ⟨⟨e, he, hle⟩, -⟩ | ⟨e, hb, h⟩)
            · exact absurd hempty hne
            · exact absurd (hmin e.1 e.2 (find_eq_some_iff.mpr he)) (not_le.mpr (hle.trans_lt hlt))
            · obtain ⟨he, -, hfirst⟩ := first_eq_some hb
              have heq : e.1 = k₁ := le_antisymm (hfirst k₁ v₁ h₁ rfl) (hmin e.1 e.2 he)
              rw [heq, h₁] at he
              have hv := Option.some.inj he
              rw [heq, ← hv] at h
              exact h

end

/-! ### Joining ranges -/

section
variable [DecidableEq D] {p : K → Option D}

/-- No range before `it` can be joined with another one. -/
def JoinedBefore (f : Stored K D) (it : K) : Prop :=
  ∀ k l d k' v, k < it → f k = some (l, d) → f k' = some v → l ⋖ k' → v.2 ≠ d

theorem compactFrom_joins {m : RangeMap K D} {it : K} (hm : Represents m.find p)
    (hit : ∃ v, m.find it = some v) (hj : JoinedBefore m.find it) :
    Represents (m.compactFrom it).find p ∧ Separated (m.compactFrom it).find := by
  fun_induction compactFrom m it with
  | case1 m it v k v' hafter hfind hstop ih =>
      -- the outer loop goes on at the next range
      obtain ⟨hk, hlt, hmin⟩ := first_eq_some hafter
      have hlt := of_decide_eq_true hlt
      refine ih hm ⟨v', hk⟩ fun k₀ l d k' w hk₀ h h' hc => ?_
      rcases lt_trichotomy k₀ it with hlt₀ | rfl | hgt
      · exact hj k₀ l d k' w hlt₀ h h' hc
      · rw [hfind] at h
        cases h
        have hlast : l < k := hm.apart.apart hfind hk hlt
        have hk' : k = k' := by
          have := hm.apart.nonempty hfind
          refine le_antisymm (hmin k' w h' (decide_eq_true (this.trans_lt hc.lt))) ?_
          exact not_lt.mp fun hlt' => hc.2 hlast hlt'
        subst hk'
        rw [hk] at h'
        cases h'
        exact hstop.resolve_left (hc.2 (covBy_next hlast).lt)
      · exact absurd (hmin k₀ _ h (decide_eq_true hgt)) (not_le.mpr hk₀)
  | case2 m it v k v' hafter hfind hgo ih =>
      -- the inner loop joins the two ranges
      obtain ⟨hk, hlt, -⟩ := first_eq_some hafter
      have hlt := of_decide_eq_true hlt
      obtain ⟨hle, hdata⟩ := not_or.mp hgo
      have hdata := not_not.mp hdata
      have hlast : v.1 < k := hm.apart.apart hfind hk hlt
      have hc : v.1 ⋖ k := by
        have := covBy_next hlast
        rwa [le_antisymm ((next_le_iff hlast).mpr hlast) (not_lt.mp hle)] at this
      have hg : ∀ j, (StdMap.erase (m.setLast it v'.1) k).find j =
          if j = k then none else if j = it then some (v'.1, v.2) else m.find j := by
        intro j
        rw [find_erase, find_setLast]
        split
        · rfl
        · split
          next heq => rw [heq, hfind, Option.map_some]
          next => rfl
      have hk' : m.find k = some (v'.1, v.2) := by rw [hk, ← hdata]
      refine ih (hm.join hfind hk' hc hg) ⟨_, by rw [hg, if_neg hlt.ne, if_pos rfl]⟩ ?_
      intro k₀ l d k' w hk₀ h h' hc'
      rw [hg, if_neg (hk₀.trans hlt).ne, if_neg hk₀.ne] at h
      rw [hg] at h'
      split at h'
      · cases h'
      · split at h'
        next heq =>
          subst heq
          cases h'
          exact hj k₀ l d k' v hk₀ h hfind hc'
        next => exact hj k₀ l d k' w hk₀ h h' hc'
  | case3 m it hnone =>
      obtain ⟨v, hit⟩ := hit
      refine ⟨hm, fun k l d k' w h h' hc => ?_⟩
      rcases lt_or_ge k it with hlt | hge
      · exact hj k l d k' w hlt h h' hc
      · -- there is no range behind `it`
        cases ha : m.after it with
        | none =>
            have hlt := hge.trans_lt ((hm.apart.nonempty h).trans_lt hc.lt)
            exact absurd hlt (of_decide_eq_false (first_eq_none ha h'))
        | some e => exact (hnone v e.1 e.2 hit ha).elim

theorem compact_joins {m : RangeMap K D} (hm : Represents m.find p) :
    Represents m.compact.find p ∧ Separated m.compact.find := by
  rw [compact]
  split
  next hb =>
    refine ⟨hm, fun k l d k' v h => ?_⟩
    cases first_eq_none hb h
  next it v hb =>
    obtain ⟨hit, -, hmin⟩ := first_eq_some hb
    refine compactFrom_joins hm ⟨v, hit⟩ fun k l d k' w hlt h => ?_
    exact absurd (hmin k _ h rfl) (not_le.mpr hlt)

end

end RangeMap

/-- `RangeDataMap`. -/
structure RangeDataMap (K D : Type*) [LinearOrder K] where
  m_bNegative : Bool
  m_mapRange : RangeMap K D

/-- The constructor. -/
def RangeDataMap.new : RangeDataMap K D := ⟨false, .empty⟩

/-- `findInRange`: what it returns, and what it writes to `nData`. -/
def RangeDataMap.findInRange (m : RangeDataMap K D) (nKey : K) : Bool × Option D :=
  let it := m.m_mapRange.search nKey false
  (if m.m_bNegative then it.isNone else it.isSome, it.map fun e => e.2.2)

/-- A call that changes the map. -/
inductive Call (K D : Type*) [LE K] where
  | updateOrInsert (r : KeyRange K) (nData : D)
  | erase (r : KeyRange K)
  | compact
  | setNegative (bNegative : Bool)

/-- What a call does. -/
def RangeDataMap.apply [DecidableEq D] (m : RangeDataMap K D) : Call K D → RangeDataMap K D
  | .updateOrInsert r nData => { m with m_mapRange := m.m_mapRange.updateOrInsert r nData }
  | .erase r => { m with m_mapRange := m.m_mapRange.erase r }
  | .compact => { m with m_mapRange := m.m_mapRange.compact }
  | .setNegative bNegative => { m with m_bNegative := bNegative }

/-! ### The keys that are set -/

section
variable [DecidableEq D]

namespace Call

/-- A call of `updateOrInsert` or `erase` with a range that `k` lies in. -/
def covers (k : K) : Call K D → Bool
  | updateOrInsert r _ => decide (r.begin ≤ k ∧ k ≤ r.last)
  | erase r => decide (r.begin ≤ k ∧ k ≤ r.last)
  | compact => false
  | setNegative _ => false

/-- What a call sets the keys to. -/
def data : Call K D → Option D
  | updateOrInsert _ nData => some nData
  | _ => none

/-- The value of `m_bNegative` after a call. -/
def negative (bNegative : Bool) : Call K D → Bool
  | setNegative b => b
  | _ => bNegative

end Call

/-- What the last call that covers `k` sets it to. -/
def lastData (calls : List (Call K D)) (k : K) : Option D :=
  (calls.reverse.find? fun c => c.covers k).bind Call.data

omit [Steps K] [DecidableEq D] in
theorem lastData_concat (calls : List (Call K D)) (c : Call K D) (k : K) :
    lastData (calls ++ [c]) k = if c.covers k then c.data else lastData calls k := by
  rw [lastData, List.reverse_append, List.reverse_singleton, List.singleton_append,
    List.find?_cons]
  cases c.covers k <;> rfl

/-- The map after the calls. -/
def afterCalls (calls : List (Call K D)) : RangeDataMap K D := calls.foldl .apply .new

theorem afterCalls_concat (calls : List (Call K D)) (c : Call K D) :
    afterCalls (calls ++ [c]) = (afterCalls calls).apply c := by
  rw [afterCalls, List.foldl_append]
  rfl

/-- The ranges stored after the calls are not empty, ordered and apart; every key is found with
what the last call that covers it has set; and after `compact` look-ups give what they gave before,
and no range ends right before one with the same data. -/
structure Pointwise (calls : List (Call K D)) : Prop where
  apart : Apart (afterCalls calls).m_mapRange.find
  found : ∀ k, (afterCalls calls).findInRange k =
    ((lastData calls k).isSome != calls.foldl Call.negative false, lastData calls k)
  compacted : ∀ done, calls = done ++ [.compact] →
    (∀ k, (afterCalls calls).findInRange k = (afterCalls done).findInRange k) ∧
    Separated (afterCalls calls).m_mapRange.find

/-- What a call does to the keys. -/
def Call.points (p : K → Option D) : Call K D → K → Option D
  | .updateOrInsert r nData => setOn r (some nData) p
  | .erase r => setOn r none p
  | .compact => p
  | .setNegative _ => p

omit [Steps K] [DecidableEq D] in
theorem lastData_points (calls : List (Call K D)) (c : Call K D) :
    lastData (calls ++ [c]) = c.points (lastData calls) := by
  funext k
  rw [lastData_concat]
  cases c with
  | updateOrInsert r d =>
      simp only [Call.covers, Call.data, Call.points, setOn, decide_eq_true_eq]
  | erase r => simp only [Call.covers, Call.data, Call.points, setOn, decide_eq_true_eq]
  | compact => rfl
  | setNegative b => rfl

/-- A call sets its keys, if it is not an `erase` of a range that cannot be removed. -/
theorem apply_represents_iff {m : RangeDataMap K D} {p : K → Option D}
    (hm : Represents m.m_mapRange.find p) (c : Call K D) :
    Represents (m.apply c).m_mapRange.find (c.points p) ↔
      ∀ r, c = .erase r → m.m_mapRange.Removable r := by
  cases c with
  | updateOrInsert r d =>
      refine iff_of_true ?_ fun _ h => by cases h
      exact hm.overwrite (RangeMap.updateOrInsert_overwrites hm.apart r d)
  | erase r =>
      refine (RangeMap.erase_represents_iff hm).trans ⟨fun h r' hr => ?_, fun h => h r rfl⟩
      cases hr
      exact h
  | compact => exact iff_of_true (RangeMap.compact_joins hm).1 fun _ h => by cases h
  | setNegative b => exact iff_of_true hm fun _ h => by cases h

omit [Steps K] [DecidableEq D] in
theorem findInRange_eq {m : RangeDataMap K D} (hm : Apart m.m_mapRange.find) {k : K}
    {o : Option D} (h : ∀ d, Covers m.m_mapRange.find k d ↔ o = some d) :
    m.findInRange k = (o.isSome != m.m_bNegative, o) := by
  have hsearch : (m.m_mapRange.search k false).map (fun e => e.2.2) = o := by
    refine Option.ext fun d => (h d).symm.trans ?_ |>.symm
    rw [Option.map_eq_some_iff]
    constructor
    · rintro ⟨k₀, l, hk₀, hin⟩
      exact ⟨(k₀, l, d), (RangeMap.search_eq_some_iff hm).mpr ⟨hk₀, hin⟩, rfl⟩
    · rintro ⟨e, he, rfl⟩
      obtain ⟨hk₀, hin⟩ := (RangeMap.search_eq_some_iff hm).mp he
      exact ⟨e.1, e.2.1, hk₀, hin⟩
  rw [RangeDataMap.findInRange, hsearch, ← hsearch, Option.isSome_map]
  cases m.m_mapRange.search k false <;> cases m.m_bNegative <;> rfl

theorem m_bNegative_afterCalls (calls : List (Call K D)) :
    (afterCalls calls).m_bNegative = calls.foldl Call.negative false := by
  induction calls using List.reverseRecOn with
  | nil => rfl
  | append_singleton calls c ih =>
      rw [afterCalls_concat, List.foldl_append, ← ih]
      cases c <;> rfl

/-- The look-ups say what the ranges cover. -/
theorem Pointwise.represents {calls : List (Call K D)} (h : Pointwise calls) :
    Represents (afterCalls calls).m_mapRange.find (lastData calls) := by
  refine ⟨h.apart, fun k d => ?_⟩
  have hfound : ((afterCalls calls).m_mapRange.search k false).map (fun e => e.2.2)
      = lastData calls k := congrArg Prod.snd (h.found k)
  rw [← hfound, Option.map_eq_some_iff]
  constructor
  · rintro ⟨k₀, l, hk₀, hin⟩
    exact ⟨(k₀, l, d), (RangeMap.search_eq_some_iff h.apart).mpr ⟨hk₀, hin⟩, rfl⟩
  · rintro ⟨e, he, rfl⟩
    obtain ⟨hk₀, hin⟩ := (RangeMap.search_eq_some_iff h.apart).mp he
    exact ⟨e.1, e.2.1, hk₀, hin⟩

theorem Pointwise.of_represents {calls : List (Call K D)}
    (h : Represents (afterCalls calls).m_mapRange.find (lastData calls))
    (hbefore : ∀ done c, calls = done ++ [c] →
      Represents (afterCalls done).m_mapRange.find (lastData done)) : Pointwise calls := by
  have hfound : ∀ calls : List (Call K D),
      Represents (afterCalls calls).m_mapRange.find (lastData calls) →
      ∀ k, (afterCalls calls).findInRange k =
        ((lastData calls k).isSome != calls.foldl Call.negative false, lastData calls k) := by
    intro calls h k
    rw [← m_bNegative_afterCalls]
    exact findInRange_eq h.apart (h.covers k)
  refine ⟨h.apart, hfound calls h, ?_⟩
  rintro done rfl
  have hdone := hbefore done _ rfl
  refine ⟨fun k => ?_, ?_⟩
  · rw [hfound _ h, hfound _ hdone, lastData_points, List.foldl_append]
    rfl
  · rw [afterCalls_concat]
    exact (RangeMap.compact_joins hdone).2

/-- The map is a map of points after every call if and only if each `erase` is called with a range
that can be removed. -/
theorem pointwise_iff_removable (calls : List (Call K D)) :
    (∀ done, done <+: calls → Pointwise done) ↔
      ∀ done r, done ++ [.erase r] <+: calls → (afterCalls done).m_mapRange.Removable r := by
  constructor
  · intro h done r hpre
    have hdone := (h done ((List.prefix_append _ _).trans hpre)).represents
    have hnext := (h _ hpre).represents
    rw [afterCalls_concat, lastData_points] at hnext
    exact (apply_represents_iff hdone (.erase r)).mp hnext r rfl
  · intro h
    have hrep : ∀ done, done <+: calls →
        Represents (afterCalls done).m_mapRange.find (lastData done) := by
      intro done
      induction done using List.reverseRecOn with
      | nil =>
          intro _
          exact represents_empty
      | append_singleton done c ih =>
          intro hpre
          rw [afterCalls_concat, lastData_points]
          refine (apply_represents_iff (ih ((List.prefix_append _ _).trans hpre)) c).mpr ?_
          rintro r rfl
          exact h done r hpre
    intro done hpre
    refine .of_represents (hrep done hpre) ?_
    rintro before c rfl
    exact hrep before ((List.prefix_append _ _).trans hpre)

end

/-! ### `rfc_uint_32` -/

/-- Keys that wrap round at `2^32`. -/
instance : Steps (Fin (2 ^ 32)) where
  next k := k + 1
  prev k := k - 1
  covBy_next := by
    intro a b h
    have ha : a.val + 1 < 2 ^ 32 := lt_of_le_of_lt h b.isLt
    have hnext : (a + 1).val = a.val + 1 := by
      rw [Fin.val_add]
      exact Nat.mod_eq_of_lt ha
    refine ⟨Fin.lt_def.mpr (by omega), fun c hac hca => ?_⟩
    rw [Fin.lt_def] at hac hca
    omega
  prev_covBy := by
    intro a b h
    have hb : 0 < b.val := Nat.zero_lt_of_lt h
    have hprev : (b - 1).val = b.val - 1 := by
      rw [Fin.sub_def]
      show (2 ^ 32 - 1 + b.val) % 2 ^ 32 = b.val - 1
      omega
    refine ⟨Fin.lt_def.mpr (by omega), fun c hac hca => ?_⟩
    rw [Fin.lt_def] at hac hca
    omega

/-- The keys 1000 to 2000, without the last one. -/
def eraseLast : List (Call (Fin (2 ^ 32)) Nat) :=
  [.updateOrInsert ⟨1000, 2000, by decide⟩ 0, .erase ⟨2000, 2000, le_rfl⟩]

/-- The key is still there. -/
theorem eraseLast_found : ¬ Pointwise eraseLast := by
  intro h
  have hfound := congrArg Prod.snd (h.found 2000)
  revert hfound
  decide +kernel

end Edm.Base
