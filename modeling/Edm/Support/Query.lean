import Edm.Support.Between
import Edm.Support.Holes
import Edm.Support.Split

/-!
# Support — Query

Parameters in a text, each with its name and an `=` behind an `&`.  A search for `&name=` finds the
parameter of that name, and what stands between it and the next `&` is its value, if no value has
an `&` (`lookup_query`).
-/

namespace Support

/-- `&` and a name and `=`. -/
def IsName (n : Text) : Prop := ∃ w, n = '&' :: (w ++ ['=']) ∧ '&' ∉ w ∧ '=' ∉ w

/-- The parameters, one behind the other. -/
def queryText (l : List (Text × Text)) : Text := l.flatMap fun q => q.1 ++ q.2

theorem queryText_cons (q : Text × Text) (l : List (Text × Text)) :
    queryText (q :: l) = q.1 ++ (q.2 ++ queryText l) := by
  rw [queryText, List.flatMap_cons, List.append_assoc, ← queryText]

/-- The text begins with `&`, if it is not empty. -/
theorem head?_queryText {l : List (Text × Text)} (hl : ∀ q ∈ l, IsName q.1) :
    ∀ c ∈ (queryText l).head?, (c != '&') = false := by
  cases l with
  | nil => simp [queryText]
  | cons q l =>
    obtain ⟨w, hw, -⟩ := hl q List.mem_cons_self
    rw [queryText_cons, hw]
    simp

/-- A name is found only where it stands. -/
theorem eq_of_isName {n n' t : Text} (hn : IsName n) (hn' : IsName n') (h : n <+: n' ++ t) :
    n = n' := by
  obtain ⟨w, rfl, -, hw⟩ := hn
  obtain ⟨w', rfl, -, hw'⟩ := hn'
  obtain ⟨u, hu⟩ := h
  have hu : w ++ '=' :: u = w' ++ '=' :: t := by simpa using hu
  have htake := congrArg (List.takeWhile (· != '=')) hu
  rw [takeWhile_ne_append hw, takeWhile_ne_append hw'] at htake
  rw [htake]

/-- The parameter of a name. -/
theorem lookup_query {n : Text} (hn : IsName n) {l : List (Text × Text)} :
    ∀ {lead : Text}, '&' ∉ lead → (∀ q ∈ l, IsName q.1 ∧ '&' ∉ q.2) →
      (breakAt n (lead ++ queryText l)).map (fun q => q.2.takeWhile (· != '&')) = l.lookup n := by
  obtain ⟨w, rfl, hclear, heq⟩ := id hn
  induction l with
  | nil =>
    intro lead hlead _
    rw [breakAt_clear hlead]
    rfl
  | cons q l ih =>
    intro lead hlead hl
    obtain ⟨⟨hname, hvalue⟩, hl⟩ := List.forall_mem_cons.mp hl
    rw [breakAt_clear hlead, Option.map_map, queryText_cons, List.lookup_cons]
    by_cases hsame : '&' :: (w ++ ['=']) = q.1
    · -- It is found, and its value ends where the next name begins.
      have hrun : (q.2 ++ queryText l).takeWhile (· != '&') = q.2 :=
        (takeWhile_run (fun c hc => bne_iff_ne.mpr (ne_of_mem_of_not_mem hc hvalue))
          (head?_queryText fun q hq => (hl q hq).1)).1
      rw [← hsame, breakAt_append_self (List.cons_ne_nil _ _), beq_self_eq_true]
      exact congrArg some hrun
    · obtain ⟨w', hw', hclear', -⟩ := id hname
      have hnot : ¬ '&' :: (w ++ ['=']) <+: q.1 ++ (q.2 ++ queryText l) :=
        fun h => hsame (eq_of_isName hn hname h)
      have hnext : '&' ∉ (w' ++ ['=']) ++ q.2 := by
        simp [hclear', hvalue]
      rw [beq_false_of_ne hsame, ← ih hnext hl]
      rw [hw'] at hnot ⊢
      rw [List.cons_append] at hnot ⊢
      rw [breakAt, if_neg hnot, Option.map_map, List.append_assoc (w' ++ ['='])]
      rfl

/-- A marker of which no end is a beginning is found where it stands first. -/
theorem breakAt_unbordered {old x : Text} (hold : ∀ k < old.length, 0 < k → ¬ old.drop k <+: old)
    (hx : ¬ old <:+: x) (b : Text) : breakAt old (x ++ (old ++ b)) = some (x, b) := by
  refine breakAt_append fun h => ?_
  rcases List.infix_append_iff_ne_nil.mp h with h | h | ⟨l₁, l₂, h₁, h₂, hsplit, -, hpre⟩
  · exact hx h
  · have hlen := h.length_le
    have hpos : old ≠ [] := fun hnil => hx (hnil ▸ List.nil_infix)
    rw [List.length_dropLast] at hlen
    have := List.length_pos_iff.mpr hpos
    omega
  · have hlen := congrArg List.length hsplit
    rw [List.length_append] at hlen
    have hpos₁ := List.length_pos_iff.mpr h₁
    have hpos₂ := List.length_pos_iff.mpr h₂
    refine hold l₁.length (by omega) hpos₁ ?_
    rw [hsplit, List.drop_left, ← hsplit]
    exact hpre.trans (List.dropLast_prefix old)

end Support
