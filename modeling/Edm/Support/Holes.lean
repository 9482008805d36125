import Edm.Support.Rewrite

/-!
# Support — Holes

Filling the holes of a template with `replaceAll`, the replacement that goes once through the text.

* `occurrences` counts what `replaceAll` replaces.
* `Alone k`: the text of a template shows `k` only at its holes `k`.  Then the holes are filled, and
  counted (`replaceAll_render`, `occurrences_render`).
* `AloneAll`: the same for the holes of one name after another.
* `holesOf ks` reads a text as a template whose holes are the strings of `ks` in it.
-/

namespace Support

section Holes

variable {κ α : Type*} [DecidableEq α]

/-! ### Counting -/

/-- The number of `old` that `replaceAll` replaces. -/
def occurrences {old : List α} (hne : old ≠ []) (s : List α) : Nat :=
  match _h : breakAt old s with
  | none => 0
  | some (_, r) => occurrences hne r + 1
termination_by s.length
decreasing_by exact length_lt_of_breakAt hne _h

section Occurrences

variable {old s p r : List α} {hne : old ≠ []}

theorem occurrences_none (h : breakAt old s = none) : occurrences hne s = 0 := by
  rw [occurrences]
  split
  next => rfl
  next h₁ => rw [h] at h₁; cases h₁

theorem occurrences_some (h : breakAt old s = some (p, r)) :
    occurrences hne s = occurrences hne r + 1 := by
  rw [occurrences]
  split
  next h₁ => rw [h] at h₁; cases h₁
  next h₁ => rw [h] at h₁; cases h₁; rfl

end Occurrences

/-- The first `old` is the one that no other meets. -/
theorem breakAt_append {old x b : List α} (h : ¬ old <:+: x ++ old.dropLast) :
    breakAt old (x ++ (old ++ b)) = some (x, b) := by
  obtain ⟨p, e, ⟨k, rfl⟩, hbreak, he⟩ := exists_breakAt old x b
  cases k with
  | nil =>
      rw [List.append_nil] at he ⊢
      obtain rfl : e = [] := by simpa using he
      rwa [List.append_nil] at hbreak
  | cons c k =>
      -- an earlier one would stand in `x` and all of `old` but its last letter
      refine absurd ?_ h
      have hold : old ≠ [] := by
        rintro rfl
        simp at h
      have hsplit : old.dropLast ++ [old.getLast hold] = old := List.dropLast_append_getLast hold
      have hpre : p ++ old <+: (p ++ c :: k) ++ old.dropLast := by
        have hwhole : p ++ old <+: (p ++ c :: k) ++ old := by
          rw [← he, ← List.append_assoc]
          exact List.prefix_append _ _
        refine List.prefix_of_prefix_length_le hwhole
          ((List.prefix_append_right_inj _).mpr (List.dropLast_prefix old)) ?_
        have := congrArg List.length hsplit
        simp only [List.length_append, List.length_cons, List.length_nil] at this ⊢
        omega
      exact (List.suffix_append p old).isInfix.trans hpre.isInfix

/-! ### Holes that stand alone -/

variable (mark : κ → List α) [DecidableEq κ]

/-- Behind `x`, the text of the template shows `mark k` only at its holes `k`, and these are met
from left to right. -/
def Alone (k : κ) : List α → List (Piece κ α) → Prop
  | x, [] => ¬ mark k <:+: x
  | x, .lit t :: ps => Alone k (x ++ t) ps
  | x, .hole k₁ :: ps =>
      if k₁ = k then ¬ mark k <:+: x ++ (mark k).dropLast ∧ Alone k [] ps
      else Alone k (x ++ mark k₁) ps

instance decidableAlone (k : κ) : ∀ (x : List α) (ps : List (Piece κ α)),
    Decidable (Alone mark k x ps)
  | x, [] => inferInstanceAs (Decidable (¬ mark k <:+: x))
  | x, .lit t :: ps => decidableAlone k (x ++ t) ps
  | x, .hole k₁ :: ps =>
      letI := decidableAlone k [] ps
      letI := decidableAlone k (x ++ mark k₁) ps
      inferInstanceAs (Decidable (if k₁ = k then
        ¬ mark k <:+: x ++ (mark k).dropLast ∧ Alone mark k [] ps
        else Alone mark k (x ++ mark k₁) ps))

variable {mark} {k : κ} {v : List α}

/-- The holes `k` are filled, and counted. -/
theorem replaceAll_render (hne : mark k ≠ []) {x : List α} {ps : List (Piece κ α)}
    (h : Alone mark k x ps) :
    replaceAll hne v (x ++ render mark ps) = x ++ render mark (fill k v ps) ∧
      occurrences hne (x ++ render mark ps) = ps.count (.hole k) := by
  induction ps generalizing x with
  | nil =>
      have hnone : breakAt (mark k) (x ++ render mark []) = none := by
        rw [render, List.flatMap_nil, List.append_nil]
        exact breakAt_eq_none_iff.mpr h
      exact ⟨replaceAll_none hnone, occurrences_none hnone⟩
  | cons p ps ih =>
      cases p with
      | lit t =>
          obtain ⟨hr, ho⟩ := ih h
          rw [List.count_cons_of_ne (by simp)]
          simp only [List.append_assoc] at hr ho
          exact ⟨hr, ho⟩
      | hole k₁ =>
          rw [Alone] at h
          by_cases hk : k₁ = k
          · subst hk
            rw [if_pos rfl] at h
            obtain ⟨hr, ho⟩ := ih (x := []) h.2
            have hbreak : breakAt (mark k₁) (x ++ render mark (.hole k₁ :: ps))
                = some (x, render mark ps) := breakAt_append h.1
            rw [List.nil_append] at hr ho
            refine ⟨?_, ?_⟩
            · have hfill : fill k₁ v (.hole k₁ :: ps) = .lit v :: fill k₁ v ps := by
                rw [fill, List.map_cons, Piece.put, if_pos rfl]
                rfl
              rw [replaceAll_some hbreak, hr, List.nil_append, hfill]
              rfl
            · rw [occurrences_some hbreak, ho, List.count_cons_self]
          · rw [if_neg hk] at h
            obtain ⟨hr, ho⟩ := ih h
            rw [List.count_cons_of_ne (by simpa using hk)]
            simp only [List.append_assoc] at hr ho
            refine ⟨?_, ho⟩
            rw [fill, List.map_cons, Piece.put, if_neg hk]
            exact hr

omit [DecidableEq α] in
/-- A string without a hole stands nowhere. -/
theorem Alone.absent {x : List α} {ps : List (Piece κ α)} (h : Alone mark k x ps)
    (hk : .hole k ∉ ps) : ¬ mark k <:+: x ++ render mark ps := by
  induction ps generalizing x with
  | nil =>
      rw [render, List.flatMap_nil, List.append_nil]
      exact h
  | cons p ps ih =>
      obtain ⟨hp, hps⟩ := not_or.mp (mt List.mem_cons.mpr hk)
      cases p with
      | lit t =>
          have hx := ih h hps
          rw [List.append_assoc] at hx
          exact hx
      | hole k₁ =>
          rw [Alone, if_neg fun h => hp (by rw [h])] at h
          have hx := ih h hps
          rw [List.append_assoc] at hx
          exact hx

omit [DecidableEq α] in
/-- A template without holes `k` stays as it is. -/
theorem fill_of_not_mem {ps : List (Piece κ α)} (hk : .hole k ∉ ps) : fill k v ps = ps := by
  induction ps with
  | nil => rfl
  | cons p ps ih =>
      obtain ⟨hp, hps⟩ := not_or.mp (mt List.mem_cons.mpr hk)
      rw [fill, List.map_cons, ← fill, ih hps]
      cases p with
      | lit t => rfl
      | hole k₁ => rw [Piece.put, if_neg fun h => hp (by rw [h])]

omit [DecidableEq α] [DecidableEq κ] in
theorem infix_of_head_not_mem {a s : List α} {c : α} {t : List α} (hc : c ∉ a)
    (h : c :: t <:+: a ++ s) : c :: t <:+: s := by
  induction a with
  | nil => exact h
  | cons d a ih =>
      obtain ⟨hd, ha⟩ := not_or.mp (mt List.mem_cons.mpr hc)
      rw [List.cons_append, List.infix_cons_iff] at h
      rcases h with hp | hi
      · exact absurd (List.cons_prefix_cons.mp hp).1 hd
      · exact ih ha hi

omit [DecidableEq α] in
/-- A text in which no `mark k` can begin changes nothing. -/
theorem Alone.append {a x : List α} {c : α} {t : List α} (hmark : mark k = c :: t) (hc : c ∉ a)
    {ps : List (Piece κ α)} (h : Alone mark k x ps) : Alone mark k (a ++ x) ps := by
  induction ps generalizing x with
  | nil =>
      rw [Alone, hmark] at h ⊢
      exact fun hi => h (infix_of_head_not_mem hc hi)
  | cons p ps ih =>
      cases p with
      | lit t =>
          rw [Alone, List.append_assoc]
          exact ih h
      | hole k₁ =>
          rw [Alone] at h ⊢
          by_cases hk : k₁ = k
          · rw [if_pos hk] at h ⊢
            refine ⟨fun hi => h.1 ?_, h.2⟩
            rw [List.append_assoc, hmark] at hi
            rw [hmark]
            exact infix_of_head_not_mem hc hi
          · rw [if_neg hk] at h ⊢
            rw [List.append_assoc]
            exact ih h

variable (mark)

/-- The holes of one name after another stand alone when they are filled. -/
def AloneAll : List (κ × List α) → List (Piece κ α) → Prop
  | [], _ => True
  | e :: ops, ps => Alone mark e.1 [] ps ∧ AloneAll ops (fill e.1 e.2 ps)

instance decidableAloneAll : ∀ (ops : List (κ × List α)) (ps : List (Piece κ α)),
    Decidable (AloneAll mark ops ps)
  | [], _ => inferInstanceAs (Decidable True)
  | e :: ops, ps =>
      letI := decidableAloneAll ops (fill e.1 e.2 ps)
      inferInstanceAs (Decidable (Alone mark e.1 [] ps ∧ AloneAll mark ops (fill e.1 e.2 ps)))

variable {mark}

omit [DecidableEq α] in
theorem aloneAll_of_not_mem {ops : List (κ × List α)} {ps : List (Piece κ α)}
    (h : ∀ e ∈ ops, Alone mark e.1 [] ps ∧ Piece.hole e.1 ∉ ps) : AloneAll mark ops ps := by
  induction ops with
  | nil => trivial
  | cons e ops ih =>
      obtain ⟨he, hops⟩ := List.forall_mem_cons.mp h
      exact ⟨he.1, (fill_of_not_mem he.2).symm ▸ ih hops⟩

omit [DecidableEq α] in
/-- So with a text before the holes in which none of the names can begin. -/
theorem AloneAll.lit {a : List α} {ops : List (κ × List α)} {ps : List (Piece κ α)}
    (hops : ∀ e ∈ ops, ∃ c t, mark e.1 = c :: t ∧ c ∉ a) (h : AloneAll mark ops ps) :
    AloneAll mark ops (.lit a :: ps) := by
  induction ops generalizing ps with
  | nil => trivial
  | cons e ops ih =>
      obtain ⟨⟨c, t, hmark, hc⟩, hops⟩ := List.forall_mem_cons.mp hops
      have happend := h.1.append hmark hc
      rw [List.append_nil] at happend
      exact ⟨happend, ih hops h.2⟩

omit [DecidableEq α] in
/-- Filled holes show their value, the others themselves. -/
theorem render_fills_getD (ops : List (κ × List α)) (ps : List (Piece κ α)) :
    render mark (fills ops ps) = render (fun k => (firstValue k ops).getD (mark k)) ps := by
  rw [fills_eq, render, render, List.flatMap_map]
  refine List.flatMap_congr fun p _ => ?_
  cases p with
  | lit t => rfl
  | hole k =>
      rw [Piece.putFirst, Piece.text]
      cases firstValue k ops with
      | none => rfl
      | some v => rfl

/-! ### Reading a text -/

/-- A text as a template: at each place the first of the strings that stands there is a hole.
`skip` is what is left of the one that was met. -/
def holesFrom (ks : List (List α)) : Nat → List α → List (Piece (List α) α)
  | _, [] => []
  | skip + 1, _ :: s => holesFrom ks skip s
  | 0, c :: s =>
      match ks.find? fun k => k.isPrefixOf (c :: s) with
      | some k => .hole k :: holesFrom ks (k.length - 1) s
      | none => .lit [c] :: holesFrom ks 0 s

def holesOf (ks : List (List α)) (s : List α) : List (Piece (List α) α) := holesFrom ks 0 s

theorem render_holesFrom {ks : List (List α)} (hks : [] ∉ ks) (skip : Nat) (s : List α) :
    render id (holesFrom ks skip s) = s.drop skip := by
  induction s generalizing skip with
  | nil => cases skip <;> rfl
  | cons c s ih =>
      cases skip with
      | succ skip => exact ih skip
      | zero =>
          rw [holesFrom]
          cases hfind : ks.find? fun k => k.isPrefixOf (c :: s) with
          | none =>
              dsimp only
              rw [render, List.flatMap_cons, ← render, ih]
              rfl
          | some k =>
              have hk : k ≠ [] := fun h => hks (h ▸ List.mem_of_find?_eq_some hfind)
              have hp : k <+: c :: s := by
                have hpre := List.find?_some hfind
                exact List.isPrefixOf_iff_prefix.mp hpre
              obtain ⟨n, hn⟩ : ∃ n, k.length = n + 1 :=
                Nat.exists_eq_succ_of_ne_zero (mt List.length_eq_zero_iff.mp hk)
              dsimp only
              rw [render, List.flatMap_cons, ← render, ih, hn, Nat.add_sub_cancel]
              have heq := List.prefix_iff_eq_append.mp hp
              rw [hn, List.drop_succ_cons] at heq
              exact heq

/-- A template shows the text it was read from. -/
theorem render_holesOf {ks : List (List α)} (hks : [] ∉ ks) (s : List α) :
    render id (holesOf ks s) = s := render_holesFrom hks 0 s

end Holes

end Support
