import Mathlib.Order.Cover
import Mathlib.Tactic.Order
import Mathlib.Tactic.Common

/-!
# Support — Ranges

Functions on an ordered type of keys, stored as ranges.  `f k = some (l, d)` says that a range
starts at `k`, that `l` is its last key, and that it holds `d`.

* `Apart f`: no range is empty, and each ends before the next one starts.  `Covers f x d` says
  that the key `x` lies in a range that holds `d`.
* `Represents f p`: the ranges are apart and cover what the function `p` has.
* `Overwrites f g r o`: `g` has the range `r` set to `o` and keeps what sticks out of it on both
  sides.  So `g` represents `p` set to `o` on `r` (`Represents.overwrite`).
* `Separated f`: no range ends right before one that holds the same.

`Steps K` gives the keys `k + 1` and `k - 1`; nothing is said of them at the ends of the type,
where a machine type may wrap round.
-/

namespace Support

variable {K D : Type*}

/-- `k + 1` and `k - 1`, where there is a greater key and a smaller one. -/
class Steps (K : Type*) [LinearOrder K] where
  next : K → K
  prev : K → K
  covBy_next : ∀ {a b : K}, a < b → a ⋖ next a
  prev_covBy : ∀ {a b : K}, a < b → prev b ⋖ b

/-- The keys from `begin` to `last`. -/
structure KeyRange (K : Type*) [LE K] where
  begin : K
  last : K
  le : begin ≤ last

namespace Ranges
variable [LinearOrder K]

open Steps

section Steps
variable [Steps K] {a b x : K}

theorem le_prev_iff (h : a < b) : x ≤ prev b ↔ x < b :=
  ⟨fun hx => hx.trans_lt (prev_covBy h).lt, fun hx => not_lt.mp fun hp => (prev_covBy h).2 hp hx⟩

theorem next_le_iff (h : a < b) : next a ≤ x ↔ a < x :=
  ⟨fun hx => (covBy_next h).lt.trans_le hx, fun hx => not_lt.mp fun hn => (covBy_next h).2 hx hn⟩

end Steps

/-- What is stored at the keys where a range starts: its last key, and what it holds. -/
abbrev Stored (K D : Type*) := K → Option (K × D)

/-- The ranges are not empty, and each ends before the next one starts. -/
structure Apart (f : Stored K D) : Prop where
  nonempty : ∀ {k l d}, f k = some (l, d) → k ≤ l
  apart : ∀ {k l d k' v}, f k = some (l, d) → f k' = some v → k < k' → l < k'

/-- A key lies in one range. -/
theorem Apart.unique {f : Stored K D} (h : Apart f) {k k' x : K} {v v' : K × D} (hk : f k = some v)
    (hk' : f k' = some v') (hx : k ≤ x ∧ x ≤ v.1) (hx' : k' ≤ x ∧ x ≤ v'.1) : k = k' ∧ v = v' := by
  rcases lt_trichotomy k k' with hlt | rfl | hlt
  · exact absurd (h.apart hk hk' hlt) (not_lt.mpr (hx'.1.trans hx.2))
  · exact ⟨rfl, Option.some.inj (hk.symm.trans hk')⟩
  · exact absurd (h.apart hk' hk hlt) (not_lt.mpr (hx.1.trans hx'.2))

/-- No range starts inside another one. -/
theorem Apart.free {f : Stored K D} (h : Apart f) {k j : K} {v : K × D} (hk : f k = some v)
    (hlt : k < j) (hle : j ≤ v.1) : f j = none := by
  cases hj : f j with
  | none => rfl
  | some w => exact absurd (h.apart hk hj hlt) (not_lt.mpr hle)

/-- The key `x` lies in a range that holds `d`. -/
def Covers (f : Stored K D) (x : K) (d : D) : Prop := ∃ k l, f k = some (l, d) ∧ k ≤ x ∧ x ≤ l

/-- The ranges are apart and cover what `p` has. -/
structure Represents (f : Stored K D) (p : K → Option D) : Prop where
  apart : Apart f
  covers : ∀ x d, Covers f x d ↔ p x = some d

theorem represents_empty : Represents (fun _ : K => (none : Option (K × D))) fun _ => none := by
  refine ⟨⟨?_, ?_⟩, fun x d => iff_of_false ?_ ?_⟩
  · intro k l d h
    cases h
  · intro k l d k' v h
    cases h
  · rintro ⟨k, l, h, -⟩
    cases h
  · intro h
    cases h

/-- No range ends right before one that holds the same. -/
def Separated (f : Stored K D) : Prop :=
  ∀ k l d k' v, f k = some (l, d) → f k' = some v → l ⋖ k' → v.2 ≠ d

/-! ### Setting a range -/

/-- `p` with the keys of `r` set to `o`. -/
def setOn (r : KeyRange K) (o : Option D) (p : K → Option D) (x : K) : Option D :=
  if r.begin ≤ x ∧ x ≤ r.last then o else p x

section Steps
variable [Steps K] {f g : Stored K D} {r : KeyRange K} {o : Option D} {p : K → Option D}

/-- A range that starts before `b`, without what it has from `b` on. -/
def endBefore (b : K) (v : K × D) : K × D := (if v.1 < b then v.1 else prev b, v.2)

theorem endBefore_lt {b k : K} (h : k < b) (v : K × D) : (endBefore b v).1 < b := by
  rw [endBefore]
  split
  · assumption
  · exact (prev_covBy h).lt

theorem le_endBefore {b k x : K} (h : k < b) {v : K × D} (hx : x < b) :
    x ≤ (endBefore b v).1 ↔ x ≤ v.1 := by
  rw [endBefore]
  dsimp only
  split
  · exact Iff.rfl
  · rw [le_prev_iff h]
    exact ⟨fun _ => hx.le.trans (not_lt.mp ‹_›), fun _ => hx⟩

/-- Ranges that end before `b` stay as they are. -/
theorem map_endBefore {b : K} {o : Option (K × D)} (h : ∀ v, o = some v → v.1 < b) :
    o.map (endBefore b) = o := by
  cases o with
  | none => rfl
  | some v => rw [Option.map_some, endBefore, if_pos (h v rfl)]

/-- `g` is `f` with `o` on `r`, and what the ranges of `f` have before `r` and behind it. -/
structure Overwrites (f g : Stored K D) (r : KeyRange K) (o : Option D) : Prop where
  before : ∀ k < r.begin, g k = (f k).map (endBefore r.begin)
  begin : g r.begin = o.map fun d => (r.last, d)
  behind : ∀ k, r.begin < k → ∀ v, g k = some v ↔ r.last < k ∧ f k = some v ∨
    k = next r.last ∧ r.last < v.1 ∧ ∃ k₀ ≤ r.last, f k₀ = some v

namespace Overwrites

theorem nonempty (h : Overwrites f g r o) (hf : Apart f) {k : K} {v : K × D} (hk : g k = some v) :
    k ≤ v.1 := by
  rcases lt_trichotomy k r.begin with hlt | rfl | hlt
  · rw [h.before k hlt, Option.map_eq_some_iff] at hk
    obtain ⟨v, hv, rfl⟩ := hk
    exact (le_endBefore hlt hlt).mpr (hf.nonempty hv)
  · rw [h.begin, Option.map_eq_some_iff] at hk
    obtain ⟨d, -, rfl⟩ := hk
    exact r.le
  · rcases (h.behind k hlt v).mp hk with ⟨-, hv⟩ | ⟨rfl, hv, -⟩
    · exact hf.nonempty hv
    · exact (next_le_iff hv).mpr hv

theorem apart (h : Overwrites f g r o) (hf : Apart f) {k k' : K} {v v' : K × D}
    (hk : g k = some v) (hk' : g k' = some v') (hlt : k < k') : v.1 < k' := by
  rcases lt_trichotomy k r.begin with hb | rfl | hb
  · rw [h.before k hb, Option.map_eq_some_iff] at hk
    obtain ⟨v, hv, rfl⟩ := hk
    rcases lt_or_ge k' r.begin with hb' | hb'
    · -- both start before the range
      rw [h.before k' hb', Option.map_eq_some_iff] at hk'
      obtain ⟨v', hv', rfl⟩ := hk'
      have hlast := hf.apart hv hv' hlt
      rw [endBefore, if_pos (hlast.trans hb')]
      exact hlast
    · exact (endBefore_lt hb v).trans_le hb'
  · rw [h.begin, Option.map_eq_some_iff] at hk
    obtain ⟨d, -, rfl⟩ := hk
    rcases (h.behind k' hlt v').mp hk' with ⟨hl, -⟩ | ⟨rfl, hl, -⟩
    · exact hl
    · exact (covBy_next hl).lt
  · have hb' := hb.trans hlt
    rcases (h.behind k hb v).mp hk with ⟨hl, hv⟩ | ⟨rfl, hl, k₀, hk₀, hv⟩
    · rcases (h.behind k' hb' v').mp hk' with ⟨-, hv'⟩ | ⟨rfl, hl', -⟩
      · exact hf.apart hv hv' hlt
      · exact absurd ((next_le_iff hl').mpr hl) (not_le.mpr hlt)
    · rcases (h.behind k' hb' v').mp hk' with ⟨hl', hv'⟩ | ⟨rfl, -⟩
      · exact hf.apart hv hv' (hk₀.trans_lt hl')
      · exact absurd hlt (lt_irrefl _)

theorem covers (h : Overwrites f g r o) (x : K) (d : D) :
    Covers g x d ↔ if r.begin ≤ x ∧ x ≤ r.last then o = some d else Covers f x d := by
  constructor
  · rintro ⟨k, l, hk, hkx, hxl⟩
    rcases lt_trichotomy k r.begin with hb | rfl | hb
    · rw [h.before k hb, Option.map_eq_some_iff] at hk
      obtain ⟨v, hv, he⟩ := hk
      have hx : x < r.begin := hxl.trans_lt (by simpa [he] using endBefore_lt hb v)
      rw [if_neg (fun hr => not_le.mpr hx hr.1)]
      have hle := (le_endBefore hb hx).mp (by rw [he]; exact hxl)
      have hd : v.2 = d := congrArg Prod.snd he
      exact ⟨k, v.1, hd ▸ hv, hkx, hle⟩
    · rw [h.begin, Option.map_eq_some_iff] at hk
      obtain ⟨d', ho, he⟩ := hk
      cases he
      rw [if_pos ⟨hkx, hxl⟩]
      exact ho
    · rcases (h.behind k hb _).mp hk with ⟨hl, hv⟩ | ⟨rfl, hl, k₀, hk₀, hv⟩
      · rw [if_neg (fun hr => by order)]
        exact ⟨k, l, hv, hkx, hxl⟩
      · have hx := (next_le_iff hl).mp hkx
        rw [if_neg (fun hr => by order)]
        exact ⟨k₀, l, hv, by order, hxl⟩
  · intro hx
    split at hx
    next hr => exact ⟨r.begin, r.last, by rw [h.begin, hx]; rfl, hr.1, hr.2⟩
    next hr =>
      obtain ⟨k, l, hk, hkx, hxl⟩ := hx
      rcases lt_or_ge x r.begin with hb | hb
      · refine ⟨k, _, by rw [h.before k (hkx.trans_lt hb), hk]; rfl, hkx, ?_⟩
        exact (le_endBefore (hkx.trans_lt hb) hb).mpr hxl
      · have hl : r.last < x := not_le.mp fun hl => hr ⟨hb, hl⟩
        have hle := r.le
        rcases le_or_gt k r.last with hk' | hk'
        · have hn := covBy_next (hl.trans_le hxl)
          exact ⟨next r.last, l, (h.behind _ (r.le.trans_lt hn.lt) _).mpr
            (Or.inr ⟨rfl, hl.trans_le hxl, k, hk', hk⟩),
            (next_le_iff (hl.trans_le hxl)).mpr hl, hxl⟩
        · exact ⟨k, l, (h.behind _ (r.le.trans_lt hk') _).mpr (Or.inl ⟨hk', hk⟩), hkx, hxl⟩

end Overwrites

/-- What represents `p` before represents `p` set to `o` on `r` after. -/
theorem Represents.overwrite (hf : Represents f p) (h : Overwrites f g r o) :
    Represents g (setOn r o p) := by
  refine ⟨⟨fun hk => h.nonempty hf.apart hk, fun hk hk' => h.apart hf.apart hk hk'⟩, ?_⟩
  intro x d
  rw [h.covers, setOn]
  split
  · exact Iff.rfl
  · exact hf.covers x d

omit [Steps K] in
/-- A range joined with the one right behind it, which holds the same. -/
theorem Represents.join (hf : Represents f p) {k l k' l' : K} {d : D} (h : f k = some (l, d))
    (h' : f k' = some (l', d)) (hc : l ⋖ k')
    (hg : ∀ j, g j = if j = k' then none else if j = k then some (l', d) else f j) :
    Represents g p := by
  have hkl := hf.apart.nonempty h
  have hkl' := hf.apart.nonempty h'
  have hlt := hc.lt
  have hne : k ≠ k' := by order
  have hgk : g k = some (l', d) := by rw [hg, if_neg hne, if_pos rfl]
  have hbehind : ∀ {x}, l < x → k' ≤ x := fun hx => not_lt.mp fun hx' => hc.2 hx hx'
  have hcases : ∀ {j v}, g j = some v → j = k ∧ v = (l', d) ∨ j ≠ k ∧ j ≠ k' ∧ f j = some v := by
    intro j v hj
    rw [hg] at hj
    split at hj
    · cases hj
    next hjk' =>
      split at hj
      next hjk => exact Or.inl ⟨hjk, (Option.some.inj hj).symm⟩
      next hjk => exact Or.inr ⟨hjk, hjk', hj⟩
  refine ⟨⟨?_, ?_⟩, ?_⟩
  · intro j a d' hj
    rcases hcases hj with ⟨rfl, hv⟩ | ⟨-, -, hj⟩
    · cases hv
      order
    · exact hf.apart.nonempty hj
  · intro j a d' j' v hj hj' hjj'
    rcases hcases hj with ⟨rfl, hv⟩ | ⟨hjk, -, hj⟩
    · cases hv
      rcases hcases hj' with ⟨rfl, -⟩ | ⟨-, hjk', hj'⟩
      · exact absurd hjj' (lt_irrefl _)
      · have := hbehind (hf.apart.apart h hj' hjj')
        exact hf.apart.apart h' hj' (lt_of_le_of_ne this (Ne.symm hjk'))
    · rcases hcases hj' with ⟨rfl, -⟩ | ⟨-, -, hj'⟩
      · exact hf.apart.apart hj h hjj'
      · exact hf.apart.apart hj hj' hjj'
  · intro x e
    rw [← hf.covers]
    constructor
    · rintro ⟨j, a, hj, hjx, hxa⟩
      rcases hcases hj with ⟨rfl, hv⟩ | ⟨-, -, hj⟩
      · cases hv
        rcases le_or_gt x l with hx | hx
        · exact ⟨j, l, h, hjx, hx⟩
        · exact ⟨k', l', h', hbehind hx, hxa⟩
      · exact ⟨j, a, hj, hjx, hxa⟩
    · rintro ⟨j, a, hj, hjx, hxa⟩
      by_cases hjk' : j = k'
      · subst hjk'
        rw [h'] at hj
        cases hj
        exact ⟨k, l', hgk, by order, hxa⟩
      · by_cases hjk : j = k
        · subst hjk
          rw [h] at hj
          cases hj
          exact ⟨j, l', hgk, hjx, by order⟩
        · exact ⟨j, a, by rw [hg, if_neg hjk', if_neg hjk, hj], hjx, hxa⟩

end Steps

end Ranges

end Support
