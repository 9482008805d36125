import Mathlib.Data.List.Infix
import Mathlib.Data.List.TakeWhile
import Mathlib.Tactic.Common

/-!
# Support — Replace

Replacing one string after another in a text, and filling the holes of a template.

* `replaceLoop old new` replaces the first `old` by `new` as long as there is one.  It need not
  end; with more fuel it gives the same text (`replaceLoop_mono`).
* A template is a list of `Piece`s: literal text, and holes.  `render` writes a hole `k` as
  `mark k`, and `fill k v` puts `v` where `k` stands.
* `replaceLoop_render`: replacing `mark k` in the text of a template fills its holes `k`, when no
  other `mark k` is met on the way (`ClearFrom`).
* `fills_eq`: filling the holes of one name after another fills each hole with the first value
  given for its name.
-/

namespace Support

/-! ### Replacing -/

section Replace

variable {α : Type*} [DecidableEq α]

/-- The text with its first `old` replaced. -/
def replaceFirst (old new : List α) : List α → Option (List α)
  | [] => if old = [] then some new else none
  | c :: s =>
      if old <+: c :: s then some (new ++ (c :: s).drop old.length)
      else (replaceFirst old new s).map (c :: ·)

/-- The text in which `old` was replaced as long as there was one; `none` if the fuel does not
last. -/
def replaceLoop (old new : List α) : Nat → List α → Option (List α)
  | 0, _ => none
  | fuel + 1, s => (replaceFirst old new s).elim (some s) (replaceLoop old new fuel)

variable {old new : List α}

theorem replaceFirst_eq_none_iff : ∀ {s : List α}, replaceFirst old new s = none ↔ ¬ old <:+: s
  | [] => by
      rw [replaceFirst, List.infix_nil]
      split <;> simp_all
  | c :: s => by
      rw [replaceFirst, List.infix_cons_iff]
      split
      next h => simp [h]
      next h => rw [Option.map_eq_none_iff, replaceFirst_eq_none_iff, or_iff_right h]

/-- An occurrence behind a text that meets no other before it. -/
theorem replaceFirst_append (hne : old ≠ []) (b : List α) : ∀ {a : List α},
    ¬ old <:+: a ++ old.dropLast → replaceFirst old new (a ++ (old ++ b)) = some (a ++ (new ++ b))
  | [], _ => by
      obtain ⟨c, old', rfl⟩ := List.exists_cons_of_ne_nil hne
      have hpre : c :: old' <+: c :: (old' ++ b) := List.prefix_append (c :: old') b
      have hdrop : ((c :: old') ++ b).drop (c :: old').length = b := List.drop_left
      rw [List.nil_append, List.cons_append, replaceFirst, if_pos hpre]
      exact congrArg (fun t => some (new ++ t)) hdrop
  | c :: a, h => by
      rw [List.cons_append, List.infix_cons_iff, not_or] at h
      have hpre : ¬ old <+: c :: (a ++ (old ++ b)) := by
        intro hp
        refine h.1 ?_
        have hold : old = old.dropLast ++ [old.getLast hne] :=
          (List.dropLast_append_getLast hne).symm
        have hlen : old.length = old.dropLast.length + 1 := by
          conv_lhs => rw [hold]
          rw [List.length_append, List.length_singleton]
        have hsplit : c :: (a ++ (old ++ b))
            = (c :: (a ++ old.dropLast)) ++ (old.getLast hne :: b) := by
          conv_lhs => rw [hold]
          simp only [List.cons_append, List.append_assoc, List.nil_append]
        refine List.prefix_of_prefix_length_le hp (hsplit ▸ List.prefix_append _ _) ?_
        rw [hlen, List.length_cons, List.length_append]
        omega
      rw [List.cons_append, replaceFirst, if_neg hpre, replaceFirst_append hne b h.2]
      rfl

/-- More fuel does not change the text. -/
theorem replaceLoop_mono {fuel fuel₁ : Nat} (hle : fuel ≤ fuel₁) {s t : List α}
    (h : replaceLoop old new fuel s = some t) : replaceLoop old new fuel₁ s = some t := by
  induction fuel generalizing fuel₁ s with
  | zero => exact nomatch h
  | succ fuel ih =>
      cases fuel₁ with
      | zero => exact absurd hle (Nat.not_succ_le_zero fuel)
      | succ fuel₁ =>
          rw [replaceLoop] at h ⊢
          cases hs : replaceFirst old new s with
          | none =>
              rw [hs] at h
              exact h
          | some s₁ =>
              rw [hs] at h
              exact ih (Nat.le_of_succ_le_succ hle) h

end Replace

/-! ### Templates -/

/-- A part of a template. -/
inductive Piece (κ α : Type*) where
  | lit (t : List α)
  | hole (k : κ)
  deriving DecidableEq

section Pieces

variable {κ α : Type*} (mark : κ → List α)

def Piece.text : Piece κ α → List α
  | .lit t => t
  | .hole k => mark k

/-- The text of a template. -/
def render (ps : List (Piece κ α)) : List α := ps.flatMap (Piece.text mark)

theorem render_flatMap {ι : Type*} (f : ι → List (Piece κ α)) (l : List ι) :
    render mark (l.flatMap f) = l.flatMap fun i => render mark (f i) := List.flatMap_assoc

/-- A hole stands in the text. -/
theorem mark_infix_of_mem {k : κ} {ps : List (Piece κ α)} (h : .hole k ∈ ps) :
    mark k <:+: render mark ps := by
  obtain ⟨a, b, rfl⟩ := List.append_of_mem h
  refine ⟨render mark a, render mark b, ?_⟩
  simp only [render, List.flatMap_append, List.flatMap_cons, Piece.text, List.append_assoc]

variable [DecidableEq κ]

/-- The value of a hole is put in its place. -/
def Piece.put (k : κ) (v : List α) : Piece κ α → Piece κ α
  | .lit t => .lit t
  | .hole k' => if k' = k then .lit v else .hole k'

def fill (k : κ) (v : List α) (ps : List (Piece κ α)) : List (Piece κ α) := ps.map (Piece.put k v)

/-- Read from left to right behind the text `x`, with each hole `k` filled as it is met, the
template shows `mark k` nowhere but at its holes. -/
def ClearFrom (k : κ) (v : List α) : List α → List (Piece κ α) → Prop
  | x, [] => ¬ mark k <:+: x
  | x, .lit t :: ps => ClearFrom k v (x ++ t) ps
  | x, .hole k' :: ps =>
      if k' = k then ¬ mark k <:+: x ++ (mark k).dropLast ∧ ClearFrom k v (x ++ v) ps
      else ClearFrom k v (x ++ mark k') ps

variable {mark}

/-- Where nothing else is met, the replacements fill the holes. -/
theorem replaceLoop_render [DecidableEq α] {k : κ} {v : List α} (hne : mark k ≠ [])
    {ps : List (Piece κ α)}
    {x : List α} (h : ClearFrom mark k v x ps) : ∃ fuel,
      replaceLoop (mark k) v fuel (x ++ render mark ps)
        = some (x ++ render mark (fill k v ps)) := by
  induction ps generalizing x with
  | nil =>
      refine ⟨1, ?_⟩
      rw [render, List.flatMap_nil, List.append_nil, replaceLoop, replaceFirst_eq_none_iff.mpr h]
      exact congrArg some (List.append_nil x).symm
  | cons p ps ih =>
      cases p with
      | lit t =>
          obtain ⟨fuel, hfuel⟩ := ih h
          refine ⟨fuel, ?_⟩
          simpa only [render, fill, List.map_cons, Piece.put, List.flatMap_cons, Piece.text,
            List.append_assoc] using hfuel
      | hole k' =>
          rw [ClearFrom] at h
          by_cases hk : k' = k
          · subst hk
            rw [if_pos rfl] at h
            obtain ⟨fuel, hfuel⟩ := ih h.2
            refine ⟨fuel + 1, ?_⟩
            have hfirst : replaceFirst (mark k') v (x ++ (mark k' ++ render mark ps))
                = some (x ++ (v ++ render mark ps)) :=
              replaceFirst_append hne (render mark ps) h.1
            simp only [render, fill, List.map_cons, Piece.put, List.flatMap_cons, Piece.text,
              List.append_assoc, if_true] at hfirst hfuel ⊢
            rw [replaceLoop, hfirst]
            exact hfuel
          · rw [if_neg hk] at h
            obtain ⟨fuel, hfuel⟩ := ih h
            refine ⟨fuel, ?_⟩
            simpa only [render, fill, List.map_cons, Piece.put, List.flatMap_cons, Piece.text,
              List.append_assoc, if_neg hk] using hfuel

/-- The first value given for a name. -/
def firstValue (k : κ) : List (κ × List α) → Option (List α)
  | [] => none
  | e :: ops => if k = e.1 then some e.2 else firstValue k ops

/-- All holes that have a value are filled at once. -/
def Piece.putFirst (ops : List (κ × List α)) : Piece κ α → Piece κ α
  | .lit t => .lit t
  | .hole k => (firstValue k ops).elim (.hole k) .lit

/-- The holes of one name after another are filled. -/
def fills (ops : List (κ × List α)) (ps : List (Piece κ α)) : List (Piece κ α) :=
  ops.foldl (fun ps e => fill e.1 e.2 ps) ps

theorem fills_eq (ops : List (κ × List α)) (ps : List (Piece κ α)) :
    fills ops ps = ps.map (Piece.putFirst ops) := by
  induction ops generalizing ps with
  | nil =>
      refine (List.map_id'' (fun p => ?_) ps).symm
      cases p <;> rfl
  | cons e ops ih =>
      rw [fills, List.foldl_cons, ← fills, ih, fill, List.map_map]
      refine List.map_congr_left fun p _ => ?_
      cases p with
      | lit t => rfl
      | hole k =>
          rw [Function.comp_apply, Piece.put, Piece.putFirst, firstValue]
          split
          next hk => rfl
          next hk => rfl

theorem fills_append (ops ops₁ : List (κ × List α)) (ps : List (Piece κ α)) :
    fills (ops ++ ops₁) ps = fills ops₁ (fills ops ps) := List.foldl_append

theorem fills_flatMap {ι : Type*} (ops : List (κ × List α)) (f : ι → List (Piece κ α))
    (l : List ι) : fills ops (l.flatMap f) = l.flatMap fun i => fills ops (f i) := by
  simp only [fills_eq, List.map_flatMap]

/-- The holes that have no value yet are not touched, and the values are those of `val`. -/
theorem render_fills {ops : List (κ × List α)} {val : κ → List α} {ps : List (Piece κ α)}
    (h : ∀ k, Piece.hole k ∈ ps → firstValue k ops = some (val k)) :
    render mark (fills ops ps) = render val ps := by
  rw [fills_eq, render, render, List.flatMap_map]
  refine List.flatMap_congr fun p hp => ?_
  cases p with
  | lit t => rfl
  | hole k =>
      rw [Piece.putFirst, h k hp]
      rfl

variable (mark)

/-- The holes of one name after another can be filled by replacing. -/
def ClearAll : List (κ × List α) → List (Piece κ α) → Prop
  | [], _ => True
  | e :: ops, ps =>
      (mark e.1 = e.2 ∨ ClearFrom mark e.1 e.2 [] ps) ∧ ClearAll ops (fill e.1 e.2 ps)

variable [DecidableEq α]

instance decidableClearFrom (k : κ) (v : List α) : ∀ (x : List α) (ps : List (Piece κ α)),
    Decidable (ClearFrom mark k v x ps)
  | x, [] => inferInstanceAs (Decidable (¬ mark k <:+: x))
  | x, .lit t :: ps => decidableClearFrom k v (x ++ t) ps
  | x, .hole k' :: ps =>
      letI := decidableClearFrom k v (x ++ v) ps
      letI := decidableClearFrom k v (x ++ mark k') ps
      inferInstanceAs (Decidable (if k' = k then
        ¬ mark k <:+: x ++ (mark k).dropLast ∧ ClearFrom mark k v (x ++ v) ps
        else ClearFrom mark k v (x ++ mark k') ps))

instance decidableClearAll : ∀ (ops : List (κ × List α)) (ps : List (Piece κ α)),
    Decidable (ClearAll mark ops ps)
  | [], _ => inferInstanceAs (Decidable True)
  | e :: ops, ps =>
      letI := decidableClearAll ops (fill e.1 e.2 ps)
      inferInstanceAs (Decidable
        ((mark e.1 = e.2 ∨ ClearFrom mark e.1 e.2 [] ps) ∧ ClearAll mark ops (fill e.1 e.2 ps)))

end Pieces

end Support
