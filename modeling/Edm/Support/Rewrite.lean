import Edm.Support.Replace

/-!
# Support — Rewrite

Two ways to replace `old` by `new` in a text.

* `replaceAll` goes once through the text, from left to right, and goes on behind each `old`.
* `Reduces` starts again at the front after each replacement, until there is no `old`.
* `InTurn`: what `replaceAll` replaces is each time what the other way replaces first.  It is
  enough for the two to agree (`reduces_of_inTurn`).
* It is needed as well: when `new` begins with `old` (`inTurn_of_starts`), when the two differ at
  some place (`inTurn_of_differ`), and when `new` is the shorter one and two `old` that overlap
  can be replaced in either order (`inTurn_of_turns`).
-/

namespace Support

section Rewrite

variable {α : Type*} [DecidableEq α] {old new : List α}

/-! ### The first occurrence -/

/-- What stands before the first `old`, and what stands behind it. -/
def breakAt (old : List α) : List α → Option (List α × List α)
  | [] => if old = [] then some ([], []) else none
  | c :: s =>
      if old <+: c :: s then some ([], (c :: s).drop old.length)
      else (breakAt old s).map fun q => (c :: q.1, q.2)

theorem replaceFirst_eq (s : List α) :
    replaceFirst old new s = (breakAt old s).map fun q => q.1 ++ (new ++ q.2) := by
  induction s with
  | nil =>
      rw [replaceFirst, breakAt]
      split <;> simp
  | cons c s ih =>
      rw [replaceFirst, breakAt]
      split
      next => simp
      next =>
        rw [ih, Option.map_map, Option.map_map]
        rfl

theorem breakAt_eq_none_iff {s : List α} : breakAt old s = none ↔ ¬ old <:+: s := by
  have hreplace : replaceFirst old [] s = none ↔ ¬ old <:+: s := replaceFirst_eq_none_iff
  rw [← hreplace, replaceFirst_eq, Option.map_eq_none_iff]

theorem eq_of_breakAt {s p r : List α} (h : breakAt old s = some (p, r)) :
    s = p ++ (old ++ r) := by
  induction s generalizing p with
  | nil =>
      rw [breakAt] at h
      split at h
      next hold =>
        obtain ⟨rfl, rfl⟩ := Prod.mk.inj (Option.some.inj h)
        simp [hold]
      next => cases h
  | cons c s ih =>
      rw [breakAt] at h
      split at h
      next hp =>
        obtain ⟨rfl, rfl⟩ := Prod.mk.inj (Option.some.inj h)
        exact (List.prefix_iff_eq_append.mp hp).symm
      next =>
        obtain ⟨⟨p₁, r₁⟩, hs, heq⟩ := Option.map_eq_some_iff.mp h
        obtain ⟨rfl, rfl⟩ := Prod.mk.inj heq
        rw [ih hs]
        rfl

/-- No other `old` stands before the first one. -/
theorem prefix_of_breakAt {a b p r : List α} (h : breakAt old (a ++ (old ++ b)) = some (p, r)) :
    p <+: a := by
  induction a generalizing p with
  | nil =>
      rw [List.nil_append] at h
      cases hs : old ++ b with
      | nil =>
          obtain ⟨rfl, rfl⟩ := List.append_eq_nil_iff.mp hs
          rw [List.append_nil, breakAt, if_pos rfl] at h
          exact (Prod.mk.inj (Option.some.inj h)).1 ▸ List.nil_prefix
      | cons c s =>
          have hp : old <+: c :: s := hs ▸ List.prefix_append old b
          rw [hs, breakAt, if_pos hp] at h
          exact (Prod.mk.inj (Option.some.inj h)).1 ▸ List.nil_prefix
  | cons c a ih =>
      rw [List.cons_append, breakAt] at h
      split at h
      next => exact (Prod.mk.inj (Option.some.inj h)).1 ▸ List.nil_prefix
      next =>
        obtain ⟨⟨p₁, r₁⟩, hs, heq⟩ := Option.map_eq_some_iff.mp h
        obtain ⟨rfl, rfl⟩ := Prod.mk.inj heq
        exact (List.prefix_cons_inj c).mpr (ih hs)

variable (old) in
/-- The first `old` of a text that has one. -/
theorem exists_breakAt (a b : List α) : ∃ p e, p <+: a ∧
    breakAt old (a ++ (old ++ b)) = some (p, e ++ b) ∧ p ++ (old ++ e) = a ++ old := by
  cases h : breakAt old (a ++ (old ++ b)) with
  | none => exact absurd (List.infix_append' a old b) (breakAt_eq_none_iff.mp h)
  | some q =>
      obtain ⟨p, r⟩ := q
      obtain ⟨k, rfl⟩ := prefix_of_breakAt h
      have heq : (p ++ k) ++ (old ++ b) = p ++ (old ++ r) := eq_of_breakAt h
      rw [List.append_assoc, List.append_cancel_left_eq, ← List.append_assoc] at heq
      -- what is behind the first `old` ends as what is behind the other one
      have hlen : (k ++ old).length = (old ++ r.take k.length).length := by
        have hl := congrArg List.length heq
        simp only [List.length_append, List.length_take] at hl ⊢
        omega
      have hr : (k ++ old) ++ b = (old ++ r.take k.length) ++ r.drop k.length := by
        rw [heq, List.append_assoc, List.take_append_drop]
      obtain ⟨hk, hb⟩ := List.append_inj hr hlen
      refine ⟨p, r.take k.length, List.prefix_append p k, ?_, ?_⟩
      · rw [hb, List.take_append_drop]
      · rw [← hk, List.append_assoc]

theorem length_lt_of_breakAt (hne : old ≠ []) {s p r : List α}
    (h : breakAt old s = some (p, r)) : r.length < s.length := by
  have hpos : 0 < old.length := List.length_pos_iff.mpr hne
  rw [eq_of_breakAt h, List.length_append, List.length_append]
  omega

/-! ### The two ways -/

/-- Every `old` replaced, from left to right. -/
def replaceAll (hne : old ≠ []) (new s : List α) : List α :=
  match _h : breakAt old s with
  | none => s
  | some (p, r) => p ++ (new ++ replaceAll hne new r)
termination_by s.length
decreasing_by exact length_lt_of_breakAt hne _h

/-- `t` is left of `s` when `old` is replaced as long as there is one. -/
inductive Reduces (old new : List α) : List α → List α → Prop
  | done {s : List α} (h : ¬ old <:+: s) : Reduces old new s s
  | step {s s₁ t : List α} (h : replaceFirst old new s = some s₁) (ht : Reduces old new s₁ t) :
      Reduces old new s t

/-- Behind `x`, the first `old` of `s` is each time one that may be replaced first, and in the end
none is left. -/
def InTurn (hne : old ≠ []) (new x s : List α) : Prop :=
  match _h : breakAt old s with
  | none => ¬ old <:+: x ++ s
  | some (p, r) =>
      replaceFirst old new (x ++ s) = some (x ++ p ++ new ++ r) ∧ InTurn hne new (x ++ p ++ new) r
termination_by s.length
decreasing_by exact length_lt_of_breakAt hne _h

section Turn

variable {hne : old ≠ []} {x s p r : List α}

theorem replaceAll_none (h : breakAt old s = none) : replaceAll hne new s = s := by
  rw [replaceAll]
  split
  next => rfl
  next h₁ => rw [h] at h₁; cases h₁

theorem replaceAll_some (h : breakAt old s = some (p, r)) :
    replaceAll hne new s = p ++ (new ++ replaceAll hne new r) := by
  rw [replaceAll]
  split
  next h₁ => rw [h] at h₁; cases h₁
  next h₁ => rw [h] at h₁; cases h₁; rfl

theorem inTurn_none (h : breakAt old s = none) :
    InTurn hne new x s ↔ ¬ old <:+: x ++ s := by
  rw [InTurn]
  split
  next => exact Iff.rfl
  next h₁ => rw [h] at h₁; cases h₁

theorem inTurn_some (h : breakAt old s = some (p, r)) : InTurn hne new x s ↔
    replaceFirst old new (x ++ s) = some (x ++ p ++ new ++ r) ∧
      InTurn hne new (x ++ p ++ new) r := by
  rw [InTurn]
  split
  next h₁ => rw [h] at h₁; cases h₁
  next h₁ => rw [h] at h₁; cases h₁; exact Iff.rfl

end Turn

@[reducible] instance decidableInTurn (hne : old ≠ []) (x s : List α) :
    Decidable (InTurn hne new x s) :=
  match h : breakAt old s with
  | none => decidable_of_iff _ (inTurn_none h).symm
  | some (p, r) =>
      have := decidableInTurn hne (x ++ p ++ new) r
      decidable_of_iff _ (inTurn_some h).symm
termination_by s.length
decreasing_by exact length_lt_of_breakAt hne h

/-- The first `old` of each text, one after another. -/
theorem breakAt_induction (hne : old ≠ []) {motive : List α → Prop}
    (none : ∀ s, breakAt old s = none → motive s)
    (some : ∀ s p r, breakAt old s = some (p, r) → motive r → motive s) (s : List α) :
    motive s := by
  induction hlen : s.length using Nat.strong_induction_on generalizing s with
  | _ n ih =>
      cases h : breakAt old s with
      | none => exact none s h
      | some q =>
          exact some s q.1 q.2 h (ih _ (hlen ▸ length_lt_of_breakAt hne h) q.2 rfl)

/-- What `replaceAll` makes has the letters of the text and of `new`. -/
theorem mem_replaceAll (hne : old ≠ []) {s : List α} {c : α} (h : c ∈ replaceAll hne new s) :
    c ∈ s ∨ c ∈ new := by
  induction s using breakAt_induction hne with
  | none s hs =>
      rw [replaceAll_none hs] at h
      exact .inl h
  | some s p r hs ih =>
      rw [replaceAll_some hs, List.mem_append, List.mem_append] at h
      rw [eq_of_breakAt hs]
      obtain h | h | h := h
      · exact .inl (List.mem_append_left _ h)
      · exact .inr h
      · exact (ih h).imp_left fun hr => List.mem_append_right _ (List.mem_append_right _ hr)

/-- Replacing a string by itself leaves the text as it is. -/
theorem replaceAll_self (hne : old ≠ []) (s : List α) : replaceAll hne old s = s := by
  induction s using breakAt_induction hne with
  | none s h => exact replaceAll_none h
  | some s p r h ih => rw [replaceAll_some h, ih, ← eq_of_breakAt h]

theorem reduces_iff {s t : List α} :
    Reduces old new s t ↔ ∃ fuel, replaceLoop old new fuel s = some t := by
  constructor
  · intro h
    induction h with
    | done h => exact ⟨1, by rw [replaceLoop, replaceFirst_eq_none_iff.mpr h]; rfl⟩
    | step h _ ih =>
        obtain ⟨fuel, hfuel⟩ := ih
        exact ⟨fuel + 1, by rw [replaceLoop, h]; exact hfuel⟩
  · rintro ⟨fuel, h⟩
    induction fuel generalizing s with
    | zero => cases h
    | succ fuel ih =>
        rw [replaceLoop] at h
        cases hs : replaceFirst old new s with
        | none =>
            rw [hs] at h
            obtain rfl : s = t := Option.some.inj h
            exact .done (replaceFirst_eq_none_iff.mp hs)
        | some s₁ =>
            rw [hs] at h
            exact .step hs (ih h)

/-- No `old` is left. -/
theorem Reduces.absent {s t : List α} (h : Reduces old new s t) : ¬ old <:+: t := by
  induction h with
  | done h => exact h
  | step _ _ ih => exact ih

/-- The next text reduces to the same. -/
theorem Reduces.next {s s₁ t : List α} (h : Reduces old new s t)
    (hs : replaceFirst old new s = some s₁) : Reduces old new s₁ t := by
  cases h with
  | done h => rw [replaceFirst_eq_none_iff.mpr h] at hs; cases hs
  | step h ht =>
      obtain rfl := Option.some.inj (h.symm.trans hs)
      exact ht

theorem reduces_of_inTurn (hne : old ≠ []) {x s : List α} (h : InTurn hne new x s) :
    Reduces old new (x ++ s) (x ++ replaceAll hne new s) := by
  induction s using breakAt_induction hne generalizing x with
  | none s hs =>
      rw [replaceAll_none hs]
      exact .done ((inTurn_none hs).mp h)
  | some s p r hs ih =>
      obtain ⟨hfirst, hr⟩ := (inTurn_some hs).mp h
      have ht := ih hr
      rw [replaceAll_some hs]
      simp only [List.append_assoc] at hfirst ht ⊢
      exact .step hfirst ht

/-! ### The way is needed -/

/-- A text of which nothing is left to replace. -/
theorem inTurn_of_reduces_self {hne : old ≠ []} {x s t : List α} (hs : breakAt old s = none)
    (h : Reduces old new t (x ++ replaceAll hne new s)) : InTurn hne new x s := by
  have hfree := h.absent
  rw [replaceAll_none hs] at hfree
  exact (inTurn_none hs).mpr hfree

/-- Each replacement brings an `old` again. -/
theorem inTurn_of_starts (hne : old ≠ []) {s t : List α} (hold : old <+: new)
    (h : Reduces old new t (replaceAll hne new s)) : InTurn hne new [] s := by
  cases hs : breakAt old s with
  | none => exact inTurn_of_reduces_self hs h
  | some q =>
      have hfree := h.absent
      rw [replaceAll_some (p := q.1) (r := q.2) hs] at hfree
      exact absurd (hold.isInfix.trans (List.infix_append' _ _ _)) hfree

section Differ

/-- The texts agree up to a place not behind `n`, where the first has an `a` and the other a
`b`. -/
def Turned (a b : α) (n : Nat) (s t : List α) : Prop :=
  ∃ w z z₁, w.length ≤ n ∧ s = w ++ a :: z ∧ t = w ++ b :: z₁

omit [DecidableEq α] in
theorem Turned.trans {a b : α} (hab : a ≠ b) {n m : Nat} {s t u : List α}
    (hst : Turned a b n s t) (htu : Turned a b m t u) : Turned a b n s u := by
  obtain ⟨w, z, z₁, hw, rfl, rfl⟩ := hst
  obtain ⟨v, y, y₁, -, hv, rfl⟩ := htu
  rcases List.append_eq_append_iff.mp hv with ⟨k, rfl, hk⟩ | ⟨k, rfl, hk⟩
  · -- the second change is behind the first
    cases k with
    | nil =>
        rw [List.nil_append] at hk
        exact absurd (List.cons.inj hk).1.symm hab
    | cons c k =>
        obtain ⟨rfl, rfl⟩ := List.cons.inj hk
        exact ⟨w, z, k ++ b :: y₁, hw, rfl, by simp⟩
  · cases k with
    | nil =>
        rw [List.nil_append] at hk
        exact absurd (List.cons.inj hk).1 hab
    | cons c k =>
        obtain ⟨rfl, rfl⟩ := List.cons.inj hk
        refine ⟨v, k ++ a :: z, y₁, ?_, by simp, rfl⟩
        rw [List.length_append] at hw
        omega

omit [DecidableEq α] in
/-- Where the change is, two texts that agree so far cannot be. -/
theorem Turned.false {a b : α} (hab : a ≠ b) {n : Nat} {x s t : List α} (hn : n < x.length)
    (h : Turned a b n (x ++ s) (x ++ t)) : False := by
  obtain ⟨w, z, z₁, hw, hs, ht⟩ := h
  have hlt : w.length < x.length := lt_of_le_of_lt hw hn
  have ha : x[w.length]? = some a := by
    have hleft : (x ++ s)[w.length]? = x[w.length]? := List.getElem?_append_left hlt
    rw [← hleft, hs]
    simp
  have hb : x[w.length]? = some b := by
    have hleft : (x ++ t)[w.length]? = x[w.length]? := List.getElem?_append_left hlt
    rw [← hleft, ht]
    simp
  exact hab (Option.some.inj (ha.symm.trans hb))

variable {a b : α} {w u v : List α}

theorem turned_of_breakAt (hold : old = w ++ a :: u) (hnew : new = w ++ b :: v) {s p r : List α}
    (hs : breakAt old s = some (p, r)) :
    Turned a b (p.length + w.length) s (p ++ (new ++ r)) := by
  refine ⟨p ++ w, u ++ r, v ++ r, by simp, ?_, ?_⟩
  · rw [eq_of_breakAt hs, hold]
    simp
  · rw [hnew]
    simp

/-- All replacements turn an `a` into a `b`, and so never bring back what the first one has
turned. -/
theorem Reduces.turned (hab : a ≠ b) (hold : old = w ++ a :: u) (hnew : new = w ++ b :: v)
    {s t p r : List α} (h : Reduces old new s t) (hs : breakAt old s = some (p, r)) :
    Turned a b (p.length + w.length) s t := by
  induction h generalizing p r with
  | done h => rw [breakAt_eq_none_iff.mpr h] at hs; cases hs
  | @step s s₁ t hfirst ht ih =>
      rw [replaceFirst_eq, hs, Option.map_some] at hfirst
      obtain rfl := Option.some.inj hfirst
      have hturn : Turned a b (p.length + w.length) s (p ++ (new ++ r)) :=
        turned_of_breakAt hold hnew hs
      cases hs₁ : breakAt old (p ++ (new ++ r)) with
      | none =>
          cases ht with
          | done _ => exact hturn
          | step hf _ => rw [replaceFirst_eq, hs₁] at hf; cases hf
      | some q => exact hturn.trans hab (ih (p := q.1) (r := q.2) hs₁)

theorem inTurn_of_differ (hne : old ≠ []) (hab : a ≠ b) (hold : old = w ++ a :: u)
    (hnew : new = w ++ b :: v) {x s : List α}
    (h : Reduces old new (x ++ s) (x ++ replaceAll hne new s)) : InTurn hne new x s := by
  induction s using breakAt_induction hne generalizing x with
  | none s hs => exact inTurn_of_reduces_self hs h
  | some s p r hs ih =>
      have hsplit : x ++ s = (x ++ p) ++ (old ++ r) := by
        rw [eq_of_breakAt hs, List.append_assoc]
      have hall : x ++ replaceAll hne new s = (x ++ p) ++ (new ++ replaceAll hne new r) := by
        rw [replaceAll_some hs, List.append_assoc]
      obtain ⟨p₁, e, ⟨k, hk⟩, hfirst, he⟩ := exists_breakAt old (x ++ p) r
      rw [hsplit, hall] at h
      cases k with
      | nil =>
          rw [List.append_nil] at hk
          subst hk
          obtain rfl : e = [] := by simpa using he
          have hnext : replaceFirst old new (x ++ s) = some (x ++ p ++ new ++ r) := by
            rw [hsplit, replaceFirst_eq, hfirst]
            simp
          refine (inTurn_some hs).mpr ⟨hnext, ih ?_⟩
          have := h.next (hsplit ▸ hnext)
          rwa [← List.append_assoc] at this
      | cons c k =>
          -- the first replacement turns an `a` before the place of this one
          have hturn := h.turned hab hold hnew hfirst
          rw [show (x ++ p) ++ (old ++ r) = (x ++ p ++ w) ++ (a :: u ++ r) by rw [hold]; simp,
            show (x ++ p) ++ (new ++ replaceAll hne new r)
              = (x ++ p ++ w) ++ (b :: v ++ replaceAll hne new r) by rw [hnew]; simp] at hturn
          refine (hturn.false hab ?_).elim
          rw [← hk]
          simp only [List.length_append, List.length_cons]
          omega

end Differ

section Shorter

/-- Two `old` that overlap (`old ++ e = f ++ old`) may be replaced in either order. -/
def Turns (old new : List α) : Prop :=
  ∀ e f : List α, e.length < old.length → old ++ e = f ++ old → new <:+ new ++ e →
    new ++ e = f ++ new

theorem length_replaceFirst (hlt : new.length < old.length) {s s₁ : List α}
    (h : replaceFirst old new s = some s₁) : s₁.length < s.length := by
  rw [replaceFirst_eq] at h
  obtain ⟨q, hq, rfl⟩ := Option.map_eq_some_iff.mp h
  rw [eq_of_breakAt hq]
  simp only [List.length_append]
  omega

theorem Reduces.length_le (hlt : new.length < old.length) {s t : List α}
    (h : Reduces old new s t) : t.length ≤ s.length := by
  induction h with
  | done _ => exact le_rfl
  | step hfirst _ ih => exact ih.trans (length_replaceFirst hlt hfirst).le

/-- A text as long as before is the text as before. -/
theorem Reduces.eq_of_length (hlt : new.length < old.length) {s t : List α}
    (h : Reduces old new s t) (hlen : t.length = s.length) : t = s := by
  cases h with
  | done _ => rfl
  | step hfirst ht =>
      have := length_replaceFirst hlt hfirst
      have := ht.length_le hlt
      omega

/-- An `old` at the front is the first one. -/
theorem replaceAll_old (hne : old ≠ []) (r : List α) :
    replaceAll hne new (old ++ r) = new ++ replaceAll hne new r := by
  obtain ⟨p, e, hp, hfirst, he⟩ := exists_breakAt old [] r
  obtain rfl := List.prefix_nil.mp hp
  obtain rfl : e = [] := by simpa using he
  exact replaceAll_some hfirst

/-- Each replacement takes away at most one of the `old` that `replaceAll` replaces, so there are
at least as many replacements. -/
theorem Reduces.length_le_replaceAll (hne : old ≠ []) (hlt : new.length < old.length)
    {t₀ t : List α} (h : Reduces old new t₀ t) : ∀ x s : List α, t₀ = x ++ s →
      t.length ≤ x.length + (replaceAll hne new s).length := by
  induction h with
  | @done s₀ hfree =>
      rintro x s rfl
      have hs : breakAt old s = none :=
        breakAt_eq_none_iff.mpr fun hs => hfree (hs.trans (List.suffix_append x s).isInfix)
      rw [replaceAll_none hs, List.length_append]
  | @step s₀ s₁ t hfirst ht ih =>
      rintro x s rfl
      cases hs : breakAt old s with
      | none =>
          have hle := ht.length_le hlt
          have hless := length_replaceFirst hlt hfirst
          rw [replaceAll_none hs]
          rw [List.length_append] at hless
          omega
      | some q =>
          obtain ⟨p, r⟩ := q
          have hsplit : x ++ s = (x ++ p) ++ (old ++ r) := by
            rw [eq_of_breakAt hs, List.append_assoc]
          obtain ⟨p₁, e, -, hbreak, he⟩ := exists_breakAt old (x ++ p) r
          rw [hsplit, replaceFirst_eq, hbreak] at hfirst
          obtain rfl := Option.some.inj hfirst
          have hlen := congrArg List.length he
          simp only [List.length_append] at hlen
          rw [replaceAll_some hs]
          rcases Nat.lt_or_ge e.length old.length with hshort | hlong
          · have := ih (p₁ ++ (new ++ e)) r (by simp)
            simp only [List.length_append] at this ⊢
            omega
          · -- the other `old` is still there
            have hsuf : old <:+ e := by
              refine List.suffix_of_suffix_length_le (he ▸ List.suffix_append (x ++ p) old) ?_ hlong
              exact ⟨p₁ ++ old, by simp⟩
            obtain ⟨k, rfl⟩ := hsuf
            have := ih (p₁ ++ (new ++ k)) (old ++ r) (by simp)
            rw [replaceAll_old] at this
            simp only [List.length_append] at this hlen ⊢
            omega

theorem inTurn_of_turns (hne : old ≠ []) (hlt : new.length < old.length) (hturns : Turns old new)
    {x s : List α} (h : Reduces old new (x ++ s) (x ++ replaceAll hne new s)) :
    InTurn hne new x s := by
  -- the texts that the two ways have made so far may differ, until the end shows they do not
  suffices hxy : ∀ x y : List α, y.length = x.length →
      Reduces old new (y ++ s) (x ++ replaceAll hne new s) → y = x ∧ InTurn hne new x s from
    (hxy x x rfl h).2
  clear h x
  induction s using breakAt_induction hne with
  | none s hs =>
      intro x y hlen h
      refine ⟨?_, inTurn_of_reduces_self hs h⟩
      rw [replaceAll_none hs] at h
      have heq := h.eq_of_length hlt (by simp [hlen])
      exact (List.append_cancel_right heq).symm
  | some s p r hs ih =>
      intro x y hlen h
      have hsplit : ∀ z : List α, z ++ s = (z ++ p) ++ (old ++ r) := by
        intro z
        rw [eq_of_breakAt hs, List.append_assoc]
      obtain ⟨p₁, e, -, hbreak, he⟩ := exists_breakAt old (y ++ p) r
      have hnext : replaceFirst old new (y ++ s) = some ((p₁ ++ new ++ e) ++ r) := by
        rw [hsplit, replaceFirst_eq, hbreak]
        simp
      have ht := h.next hnext
      rw [replaceAll_some hs, show x ++ (p ++ (new ++ replaceAll hne new r))
        = (x ++ p ++ new) ++ replaceAll hne new r by simp] at ht
      have hsum := congrArg List.length he
      simp only [List.length_append] at hsum
      rcases Nat.lt_or_ge e.length old.length with hshort | hlong
      · obtain ⟨heq, hr⟩ := ih (x ++ p ++ new) (p₁ ++ new ++ e)
          (by simp only [List.length_append]; omega) ht
        -- `e` is what the `old` of `s` has behind the one replaced
        obtain ⟨f, hf⟩ : ∃ f, old ++ e = f ++ old := by
          have hsuf : old <:+ old ++ e := by
            refine List.suffix_of_suffix_length_le (he ▸ List.suffix_append (y ++ p) old)
              (List.suffix_append p₁ (old ++ e)) ?_
            simp
          obtain ⟨f, hf⟩ := hsuf
          exact ⟨f, hf.symm⟩
        have hsuf : new <:+ new ++ e := by
          refine List.suffix_of_suffix_length_le (heq ▸ List.suffix_append (x ++ p) new)
            (List.append_assoc p₁ new e ▸ List.suffix_append p₁ (new ++ e)) ?_
          simp
        have hcomm : new ++ e = f ++ new := hturns e f hshort hf hsuf
        have hyp : y ++ p = p₁ ++ f := by
          rw [hf, ← List.append_assoc] at he
          exact (List.append_cancel_right he).symm
        have hxp : x ++ p = p₁ ++ f := by
          rw [List.append_assoc p₁, hcomm, ← List.append_assoc] at heq
          exact (List.append_cancel_right heq).symm
        obtain rfl : y = x := List.append_cancel_right (hyp.trans hxp.symm)
        exact ⟨rfl, (inTurn_some hs).mpr ⟨heq ▸ hnext, hr⟩⟩
      · -- an `old` more has been replaced than the other way replaces
        have hsuf : old <:+ e := by
          refine List.suffix_of_suffix_length_le (he ▸ List.suffix_append (y ++ p) old) ?_ hlong
          exact ⟨p₁ ++ old, by simp⟩
        obtain ⟨k, rfl⟩ := hsuf
        have hle := ht.length_le_replaceAll hne hlt (p₁ ++ new ++ k) (old ++ r) (by simp)
        rw [replaceAll_old] at hle
        simp only [List.length_append] at hle hsum
        omega

end Shorter

omit [DecidableEq α] in
/-- Two strings of which neither begins the other differ at some place. -/
theorem exists_differ : ∀ {s t : List α}, ¬ s <+: t → ¬ t <+: s →
    ∃ w a b u v, a ≠ b ∧ s = w ++ a :: u ∧ t = w ++ b :: v
  | [], _, h, _ => absurd List.nil_prefix h
  | _ :: _, [], _, h => absurd List.nil_prefix h
  | c :: s, d :: t, hst, hts => by
      by_cases hcd : c = d
      · subst hcd
        rw [List.prefix_cons_inj] at hst hts
        obtain ⟨w, a, b, u, v, hab, rfl, rfl⟩ := exists_differ hst hts
        exact ⟨c :: w, a, b, u, v, hab, rfl, rfl⟩
      · exact ⟨[], c, d, s, t, hcd, rfl, rfl⟩

/-- The two ways agree only where each replacement is in its turn. -/
theorem inTurn_of_reduces (hne : old ≠ []) (hnot : old ≠ new)
    (hturns : new <+: old → Turns old new) {s : List α}
    (h : Reduces old new s (replaceAll hne new s)) : InTurn hne new [] s := by
  by_cases hold : old <+: new
  · exact inTurn_of_starts hne hold h
  by_cases hnew : new <+: old
  · have hlt : new.length < old.length := by
      refine lt_of_le_of_ne hnew.length_le fun hlen => ?_
      exact hnot (hnew.eq_of_length hlen).symm
    exact inTurn_of_turns hne hlt (hturns hnew) h
  · obtain ⟨w, a, b, u, v, hab, hw, hv⟩ := exists_differ hold hnew
    exact inTurn_of_differ hne hab hw hv h

end Rewrite

end Support
