import Edm.Support.CString

/-!
# Support — Socket

Reading from a socket until what was read is complete.  The bytes arrive in pieces.  `cuts` says
how many bytes each `recv` has to give (one more than the number); behind the last of them
everything that is there arrives at once.  The reader looks only where a piece ends.

`stopAt` is the first end of a piece at which the text is complete; `socketRead_eq` says that the
reader takes the text up to there, or up to the end of its buffer.
-/

namespace Support

variable {τ : Type*}

/-- The text of tagged bytes. -/
def textOf (s : List (τ × Char)) : Text := s.map Prod.snd

@[simp] theorem textOf_append (s t : List (τ × Char)) : textOf (s ++ t) = textOf s ++ textOf t :=
  List.map_append

@[simp] theorem length_textOf (s : List (τ × Char)) : (textOf s).length = s.length :=
  List.length_map _

theorem textOf_take (n : Nat) (s : List (τ × Char)) : textOf (s.take n) = (textOf s).take n :=
  List.map_take

theorem textOf_drop (n : Nat) (s : List (τ × Char)) : textOf (s.drop n) = (textOf s).drop n :=
  List.map_drop

/-- Receive until `done` holds behind a piece, the buffer of `room` more bytes is full, or nothing
more is there: what was read, and what is pending. -/
def socketRead (done : Text → Bool) : List Nat → Nat → List (τ × Char) → List (τ × Char) →
    List (τ × Char) × List (τ × Char)
  | [], room, sMsg, pending => (sMsg ++ pending.take room, pending.drop room)
  | n :: cuts, room, sMsg, pending =>
      if room = 0 ∨ pending = [] then (sMsg, pending)
      else
        let k := min (n + 1) room
        if done (textOf (sMsg ++ pending.take k)) then (sMsg ++ pending.take k, pending.drop k)
        else socketRead done cuts (room - k) (sMsg ++ pending.take k) (pending.drop k)

/-- Where the pieces end. -/
def ends : List Nat → List Nat
  | [] => []
  | n :: cuts => (n + 1) :: (ends cuts).map (n + 1 + ·)

/-- Where the reader of a text stops, if its buffer is large enough. -/
def stopAt (done : Text → Bool) (cuts : List Nat) (s : Text) : Nat :=
  ((ends cuts).find? fun p => decide (p < s.length) && done (s.take p)).getD s.length

theorem stopAt_le (done : Text → Bool) (cuts : List Nat) (s : Text) :
    stopAt done cuts s ≤ s.length := by
  rw [stopAt]
  cases h : (ends cuts).find? fun p => decide (p < s.length) && done (s.take p) with
  | none => exact Nat.le_refl _
  | some p =>
      have := List.find?_some h
      rw [Bool.and_eq_true, decide_eq_true_iff] at this
      exact Nat.le_of_lt this.1

/-- Every piece has at least one byte. -/
theorem stopAt_pos {done : Text → Bool} {cuts : List Nat} {s : Text} (h : s ≠ []) :
    0 < stopAt done cuts s := by
  have hpos : ∀ p ∈ ends cuts, 0 < p := by
    cases cuts with
    | nil => exact fun _ hp => nomatch hp
    | cons n cuts =>
        intro p hp
        rcases List.mem_cons.mp hp with rfl | hp
        · omega
        · obtain ⟨q, -, rfl⟩ := List.mem_map.mp hp
          omega
  rw [stopAt]
  cases hf : (ends cuts).find? fun p => decide (p < s.length) && done (s.take p) with
  | none => exact List.length_pos_iff.mpr h
  | some p => exact hpos p (List.mem_of_find?_eq_some hf)

/-- The reader stops early only where the text is complete. -/
theorem done_of_stopAt_lt {done : Text → Bool} {cuts : List Nat} {s : Text}
    (h : stopAt done cuts s < s.length) : done (s.take (stopAt done cuts s)) = true := by
  rw [stopAt] at h ⊢
  cases hf : (ends cuts).find? fun p => decide (p < s.length) && done (s.take p) with
  | none =>
      rw [hf, Option.getD_none] at h
      exact absurd h (Nat.lt_irrefl _)
  | some p =>
      have := List.find?_some hf
      rw [Bool.and_eq_true] at this
      exact this.2

theorem stopAt_nil (done : Text → Bool) (s : Text) : stopAt done [] s = s.length := rfl

theorem stopAt_cons (done : Text → Bool) (n : Nat) (cuts : List Nat) (s : Text) :
    stopAt done (n :: cuts) s
      = if s.length ≤ n + 1 then s.length
        else if done (s.take (n + 1)) = true then n + 1
        else n + 1 + stopAt (fun t => done (s.take (n + 1) ++ t)) cuts (s.drop (n + 1)) := by
  rw [stopAt, ends, List.find?_cons, List.find?_map]
  by_cases hn : s.length ≤ n + 1
  · have hnone : (ends cuts).find? ((fun p => decide (p < s.length) && done (s.take p)) ∘
        (n + 1 + ·)) = none := by
      rw [List.find?_eq_none]
      intro p _
      rw [Function.comp_apply, decide_eq_false (by omega), Bool.false_and]
      exact Bool.false_ne_true
    rw [if_pos hn, decide_eq_false (by omega), Bool.false_and, hnone]
    rfl
  · rw [if_neg hn, decide_eq_true (by omega), Bool.true_and]
    split
    next h => rw [if_pos h, Option.getD_some]
    next h =>
      have hcomp : ((fun p => decide (p < s.length) && done (s.take p)) ∘ (n + 1 + ·))
          = fun p => decide (p < (s.drop (n + 1)).length) &&
              done (s.take (n + 1) ++ (s.drop (n + 1)).take p) := by
        funext p
        rw [Function.comp_apply, List.take_add, List.length_drop]
        congr 1
        exact decide_eq_decide.mpr (by omega)
      rw [if_neg (by rw [h]; exact Bool.false_ne_true), hcomp, stopAt]
      cases (ends cuts).find? fun p => decide (p < (s.drop (n + 1)).length) &&
          done (s.take (n + 1) ++ (s.drop (n + 1)).take p) with
      | none =>
          rw [Option.map_none, Option.getD_none, Option.getD_none, List.length_drop]
          omega
      | some p => rfl

theorem take_min_length {α : Type*} (n : Nat) (l : List α) :
    l.take (min n l.length) = l.take n := by
  rw [List.take_eq_take_iff]
  omega

theorem drop_min_length {α : Type*} (n : Nat) (l : List α) :
    l.drop (min n l.length) = l.drop n := by
  rcases Nat.le_total n l.length with h | h
  · rw [Nat.min_eq_left h]
  · rw [Nat.min_eq_right h, List.drop_length, List.drop_of_length_le h]

/-- What a reader reads, and what it leaves. -/
theorem socketRead_eq (done : Text → Bool) (cuts : List Nat) (room : Nat)
    (sMsg pending : List (τ × Char)) : socketRead done cuts room sMsg pending
      = (sMsg ++ pending.take (min room
            (stopAt (fun t => done (textOf sMsg ++ t)) cuts (textOf pending))),
          pending.drop (min room
            (stopAt (fun t => done (textOf sMsg ++ t)) cuts (textOf pending)))) := by
  induction cuts generalizing room sMsg pending with
  | nil => rw [socketRead, stopAt_nil, length_textOf, take_min_length, drop_min_length]
  | cons n cuts ih =>
      rw [socketRead]
      split
      next h =>
        rcases h with rfl | rfl
        · rw [Nat.zero_min, List.take_zero, List.append_nil, List.drop_zero]
        · rw [List.take_nil, List.append_nil, List.drop_nil]
      next =>
        dsimp only
        rw [stopAt_cons, length_textOf, ← textOf_take, ← textOf_append, ← textOf_drop]
        rcases Nat.lt_or_ge (n + 1) room with hroom | hroom
        · rw [Nat.min_eq_left (Nat.le_of_lt hroom)]
          by_cases hn : pending.length ≤ n + 1
          · -- The piece is all there is.
            rw [if_pos hn, take_min_length, drop_min_length, ih, List.take_of_length_le hn,
              List.drop_of_length_le hn, List.take_nil, List.drop_nil, List.append_nil, ite_self,
              List.take_of_length_le (by omega), List.drop_of_length_le (by omega)]
          · rw [if_neg hn]
            split
            · rw [Nat.min_eq_right (Nat.le_of_lt hroom)]
            · have hmin : ∀ m, min room (n + 1 + m) = n + 1 + min (room - (n + 1)) m := by omega
              have hfun : (fun t => done (textOf (sMsg ++ pending.take (n + 1)) ++ t))
                  = fun t => done (textOf sMsg ++ (textOf (pending.take (n + 1)) ++ t)) := by
                funext t
                rw [textOf_append, List.append_assoc]
              rw [ih, hmin, hfun, List.append_assoc, ← List.take_add, List.drop_drop]
        · -- The piece fills the buffer.
          rw [Nat.min_eq_right hroom, ih, Nat.sub_self, Nat.zero_min, List.take_zero,
            List.append_nil, List.drop_zero, ite_self]
          split
          next hn => rw [take_min_length, drop_min_length]
          next hn =>
            have : min room (if done (textOf (sMsg ++ pending.take (n + 1))) = true then n + 1
                else n + 1 + stopAt
                  (fun t => done (textOf sMsg ++ (textOf (pending.take (n + 1)) ++ t)))
                  cuts (textOf (pending.drop (n + 1)))) = room := by
              split <;> omega
            rw [this]

/-- How far a text is read into a buffer of `room` bytes. -/
def readTo (done : Text → Bool) (cuts : List Nat) (room : Nat) (s : Text) : Nat :=
  min room (stopAt done cuts s)

theorem socketRead_nil (done : Text → Bool) (cuts : List Nat) (room : Nat)
    (pending : List (τ × Char)) : socketRead done cuts room [] pending
      = (pending.take (readTo done cuts room (textOf pending)),
          pending.drop (readTo done cuts room (textOf pending))) :=
  socketRead_eq done cuts room [] pending

/-- The first byte that is there is read first. -/
theorem head_socketRead (done : Text → Bool) (cuts : List Nat) {room : Nat} (hr : 0 < room)
    (b : τ × Char) (pending : List (τ × Char)) :
    (socketRead done cuts room [] (b :: pending)).1.head? = some b := by
  have hpos : 0 < readTo done cuts room (textOf (b :: pending)) :=
    Nat.lt_min.mpr ⟨hr, stopAt_pos (List.cons_ne_nil _ _)⟩
  obtain ⟨k, hk⟩ := Nat.exists_eq_succ_of_ne_zero (Nat.ne_of_gt hpos)
  rw [socketRead_nil, hk]
  rfl

/-- Nothing is left exactly when the reader does not stop early and its buffer is large enough. -/
theorem length_le_readTo (done : Text → Bool) (cuts : List Nat) (room : Nat) (s : Text) :
    s.length ≤ readTo done cuts room s ↔ s.length ≤ room ∧ stopAt done cuts s = s.length := by
  have hle := stopAt_le done cuts s
  rw [readTo, Nat.le_min]
  exact and_congr_right fun _ => ⟨fun h => Nat.le_antisymm hle h, fun h => Nat.le_of_eq h.symm⟩

end Support
