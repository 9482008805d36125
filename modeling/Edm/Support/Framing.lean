import Edm.Support.Crlf
import Edm.Support.Rewrite

/-!
# Support — Framing

A stream of lines that arrives in pieces.  What no line end has come for is kept, and the next
piece is put behind it.

A `LineReader` takes one line after the other, until it has stopped.  `drain` gives it the lines
that are complete, and `feed` does so whenever a piece arrives.

* `findFrom_append`: the search for the end of a line can begin where a piece was put behind
  what has none.
* `feed_eq`: **the pieces do not matter**.  The reader is given the lines of the whole stream.
-/

namespace Support

/-! ### Where a line ends -/

theorem crlf_ne_nil : crlf ≠ [] := List.cons_ne_nil _ _

/-- `s.find(old, pos)`. -/
def findFrom (old s : Text) (pos : Nat) : Option Nat :=
  if pos ≤ s.length then (breakAt old (s.drop pos)).map (pos + ·.1.length) else none

theorem findFrom_zero (old s : Text) : findFrom old s 0 = (breakAt old s).map (·.1.length) := by
  simp [findFrom]

/-- The first line end of a text, the line before it, and the text behind it. -/
theorem crlfLines_of_breakAt {s l r : Text} (h : breakAt crlf s = some (l, r)) :
    crlfLines s = l :: crlfLines r := by
  induction s using crlfLines.induct generalizing l with
  | case1 => cases h
  | case2 s ih =>
      have hfirst : breakAt crlf ('\r' :: '\n' :: s) = some ([], s) :=
        if_pos (List.prefix_append crlf s)
      rw [hfirst] at h
      obtain ⟨rfl, rfl⟩ := Prod.mk.inj (Option.some.inj h)
      rfl
  | case3 c s hc ih =>
      have hnot : ¬ crlf <+: c :: s := by
        rintro ⟨t, ht⟩
        exact hc t (List.cons.inj ht).1.symm (List.cons.inj ht).2.symm
      rw [breakAt, if_neg hnot] at h
      obtain ⟨⟨l₁, r₁⟩, hs, heq⟩ := Option.map_eq_some_iff.mp h
      obtain ⟨rfl, rfl⟩ := Prod.mk.inj heq
      rw [crlfLines.eq_3 _ _ hc, ih hs]
      rfl

/-- A text without a line end is one line. -/
theorem crlfLines_of_none {s : Text} (h : breakAt crlf s = none) : crlfLines s = [s] := by
  induction s using crlfLines.induct with
  | case1 => rfl
  | case2 s ih =>
      have hfirst : breakAt crlf ('\r' :: '\n' :: s) = some ([], s) :=
        if_pos (List.prefix_append crlf s)
      rw [hfirst] at h
      cases h
  | case3 c s hc ih =>
      rw [breakAt] at h
      split at h
      next => cases h
      next =>
        rw [crlfLines.eq_3 _ _ hc, ih (Option.map_eq_none_iff.mp h)]
        rfl

/-- What is found is found in a longer text. -/
theorem breakAt_append_right {old : Text} (hne : old ≠ []) {s p r : Text}
    (h : breakAt old s = some (p, r))
    (t : Text) : breakAt old (s ++ t) = some (p, r ++ t) := by
  induction s generalizing p with
  | nil =>
      rw [breakAt, if_neg hne] at h
      cases h
  | cons c s ih =>
      rw [breakAt] at h
      rw [List.cons_append, breakAt]
      split at h
      next hp =>
        obtain ⟨rfl, rfl⟩ := Prod.mk.inj (Option.some.inj h)
        have hlong : old <+: c :: (s ++ t) := hp.trans (List.prefix_append (c :: s) t)
        rw [if_pos hlong, ← List.drop_append_of_le_length hp.length_le, List.cons_append]
      next hp =>
        obtain ⟨⟨p₁, r₁⟩, hs, heq⟩ := Option.map_eq_some_iff.mp h
        obtain ⟨rfl, rfl⟩ := Prod.mk.inj heq
        have hnot : ¬ old <+: c :: (s ++ t) := by
          intro hlong
          refine hp (List.prefix_of_prefix_length_le hlong (List.prefix_append (c :: s) t) ?_)
          have hlen := congrArg List.length (eq_of_breakAt hs)
          simp only [List.length_append] at hlen
          rw [List.length_cons]
          omega
        rw [if_neg hnot, ih hs]
        rfl

/-- A line end behind a text without one is the first. -/
theorem breakAt_line {l : Text} (h : breakAt crlf l = none) (r : Text) :
    breakAt crlf (l ++ (crlf ++ r)) = some (l, r) := by
  induction l with
  | nil => exact if_pos (List.prefix_append crlf r)
  | cons c l ih =>
      have hnot : ¬ crlf <+: c :: (l ++ (crlf ++ r)) := by
        intro hp
        obtain ⟨rfl, hl⟩ := List.cons_prefix_cons.mp hp
        cases l with
        | nil => exact absurd (List.cons_prefix_cons.mp hl).1 (by decide)
        | cons d l =>
            obtain ⟨rfl, -⟩ := List.cons_prefix_cons.mp hl
            exact breakAt_eq_none_iff.mp h (List.prefix_append crlf l).isInfix
      rw [breakAt] at h
      split at h
      next => cases h
      next =>
        rw [List.cons_append, breakAt, if_neg hnot, ih (Option.map_eq_none_iff.mp h)]
        rfl

/-- Where nothing is found in the front part, the search can begin near its end. -/
theorem findFrom_append {old s : Text} (h : breakAt old s = none) (t : Text) {pos : Nat}
    (hpos : pos + old.length ≤ s.length + 1) (hle : pos ≤ s.length) :
    findFrom old (s ++ t) pos = findFrom old (s ++ t) 0 := by
  have hdrop : ∀ (pos : Nat) (s : Text), breakAt old s = none → pos + old.length ≤ s.length + 1 →
      pos ≤ s.length → breakAt old (s ++ t) = (breakAt old ((s ++ t).drop pos)).map fun q =>
        ((s ++ t).take pos ++ q.1, q.2) := by
    intro pos
    induction pos with
    | zero => intro s _ _ _; simp
    | succ pos ih =>
        intro s h hpos hle
        obtain ⟨c, s, rfl⟩ := List.exists_cons_of_length_pos (by omega : 0 < s.length)
        rw [List.length_cons] at hpos hle
        have hnot : ¬ old <+: c :: (s ++ t) := by
          intro hlong
          have hshort := List.prefix_of_prefix_length_le hlong (List.prefix_append (c :: s) t)
            (by rw [List.length_cons]; omega)
          exact breakAt_eq_none_iff.mp h hshort.isInfix
        rw [breakAt] at h
        split at h
        next => cases h
        next =>
          rw [List.cons_append, breakAt, if_neg hnot,
            ih s (Option.map_eq_none_iff.mp h) (by omega) (by omega), Option.map_map]
          rfl
  have hlen : ((s ++ t).take pos).length = pos := by
    rw [List.length_take, List.length_append]
    omega
  rw [findFrom_zero, findFrom, if_pos (by rw [List.length_append]; omega), hdrop pos s h hpos hle,
    Option.map_map]
  congr 1
  funext q
  rw [Function.comp_apply, List.length_append, hlen]

theorem breakAt_of_mem_crlfLines {s l : Text} (h : l ∈ crlfLines s) : breakAt crlf l = none := by
  induction hn : s.length using Nat.strongRecOn generalizing s with
  | ind n ih =>
      cases hs : breakAt crlf s with
      | none =>
          rw [crlfLines_of_none hs, List.mem_singleton] at h
          rwa [h]
      | some q =>
          obtain ⟨l₁, r⟩ := q
          have hlt := length_lt_of_breakAt crlf_ne_nil hs
          rw [crlfLines_of_breakAt hs] at h
          rcases List.mem_cons.mp h with rfl | h
          · cases hl : breakAt crlf l with
            | none => rfl
            | some q =>
                -- an earlier line end would have been the first one of `s`
                have hearly := breakAt_append_right crlf_ne_nil hl (crlf ++ r)
                rw [← eq_of_breakAt hs, hs] at hearly
                have heq := congrArg List.length (eq_of_breakAt hl)
                rw [← (Prod.mk.inj (Option.some.inj hearly)).1] at heq
                simp [crlf] at heq
          · exact ih r.length (by omega) h rfl

/-- Lines with their line ends in front of a text. -/
theorem crlfLines_flatten {ls : List Text} (h : ∀ l ∈ ls, breakAt crlf l = none) (t : Text) :
    crlfLines ((ls.map (· ++ crlf)).flatten ++ t) = ls ++ crlfLines t := by
  induction ls with
  | nil => rfl
  | cons l ls ih =>
      obtain ⟨hl, hls⟩ := List.forall_mem_cons.mp h
      rw [List.map_cons, List.flatten_cons, List.append_assoc, List.append_assoc,
        crlfLines_of_breakAt (breakAt_line hl _), ih hls, List.cons_append]

/-- What stands behind the last line end. -/
def lastLine (s : Text) : Text := (crlfLines s).getLast (crlfLines_ne_nil s)

theorem lastLine_of_breakAt {s l r : Text} (h : breakAt crlf s = some (l, r)) :
    lastLine s = lastLine r := by
  simp only [lastLine, crlfLines_of_breakAt h]
  exact List.getLast_cons (crlfLines_ne_nil r)

theorem lastLine_of_none {s : Text} (h : breakAt crlf s = none) : lastLine s = s := by
  simp only [lastLine, crlfLines_of_none h]
  rfl

/-- A text is its complete lines and what stands behind them. -/
theorem flatten_dropLast_crlfLines (s : Text) :
    (((crlfLines s).dropLast).map (· ++ crlf)).flatten ++ lastLine s = s := by
  have h := flatten_crlfLines s
  rw [← List.dropLast_append_getLast (crlfLines_ne_nil s), List.map_append, List.flatten_append,
    List.map_singleton, List.flatten_singleton, ← List.append_assoc] at h
  exact List.append_cancel_right h

/-- What is put behind a text continues its last line. -/
theorem crlfLines_append_of_last (s t : Text) :
    crlfLines (s ++ t) = (crlfLines s).dropLast ++ crlfLines (lastLine s ++ t) := by
  induction hn : s.length using Nat.strongRecOn generalizing s with
  | ind n ih =>
      cases h : breakAt crlf s with
      | none => rw [crlfLines_of_none h, lastLine_of_none h]; rfl
      | some q =>
          obtain ⟨l, r⟩ := q
          have hlt := length_lt_of_breakAt crlf_ne_nil h
          rw [crlfLines_of_breakAt (breakAt_append_right crlf_ne_nil h t),
            crlfLines_of_breakAt h, lastLine_of_breakAt h,
            List.dropLast_cons_of_ne_nil (crlfLines_ne_nil r), ih r.length (by omega) r rfl]
          rfl

theorem dropLast_crlfLines_append (s t : Text) : (crlfLines (s ++ t)).dropLast
    = (crlfLines s).dropLast ++ (crlfLines (lastLine s ++ t)).dropLast := by
  rw [crlfLines_append_of_last, List.dropLast_append_of_ne_nil (crlfLines_ne_nil _)]

/-- No line end stands behind the last one. -/
theorem breakAt_lastLine (s : Text) : breakAt crlf (lastLine s) = none := by
  induction hn : s.length using Nat.strongRecOn generalizing s with
  | ind n ih =>
      cases h : breakAt crlf s with
      | none => rwa [lastLine_of_none h]
      | some q =>
          obtain ⟨l, r⟩ := q
          have hlt := length_lt_of_breakAt crlf_ne_nil h
          rw [lastLine_of_breakAt h]
          exact ih r.length (by omega) r rfl

/-! ### Readers -/

variable {σ : Type*}

/-- What is done with the lines of a stream, one by one, until it has stopped. -/
structure LineReader (σ : Type*) where
  onLine : σ → Text → σ
  stopped : σ → Bool

namespace LineReader
variable (R : LineReader σ)

/-- The reader is given lines. -/
def run : List Text → σ → σ
  | [], s => s
  | l :: ls, s => if R.stopped s then s else run ls (R.onLine s l)

/-- The reader is given the complete lines of `data`: what is left, and the reader. -/
def drain (data : Text) (s : σ) : Text × σ :=
  if R.stopped s then (data, s)
  else
    match _h : breakAt crlf data with
    | none => (data, s)
    | some (l, r) => drain r (R.onLine s l)
termination_by data.length
decreasing_by exact length_lt_of_breakAt (by decide) _h

/-- The pieces of a stream arrive. -/
def feed : List Text → Text × σ → Text × σ
  | [], st => st
  | p :: ps, st => if R.stopped st.2 then st else feed ps (R.drain (st.1 ++ p) st.2)

variable {R}

theorem run_of_stopped {s : σ} (h : R.stopped s = true) (ls : List Text) : R.run ls s = s := by
  cases ls with
  | nil => rfl
  | cons l ls => rw [run, if_pos h]

theorem run_append (ls ls' : List Text) (s : σ) :
    R.run (ls ++ ls') s = R.run ls' (R.run ls s) := by
  induction ls generalizing s with
  | nil => rfl
  | cons l ls ih =>
      rw [List.cons_append, run, run]
      split
      next h => rw [run_of_stopped h]
      next => exact ih _

/-- The reader is given the complete lines; without a reason to stop, the last line is left. -/
theorem drain_eq (data : Text) (s : σ) :
    (R.drain data s).2 = R.run (crlfLines data).dropLast s ∧
      (R.stopped (R.drain data s).2 = true ∨ (R.drain data s).1 = lastLine data) := by
  fun_induction R.drain data s with
  | case1 data s h => exact ⟨(run_of_stopped h _).symm, .inl h⟩
  | case2 data s h hnone =>
      rw [crlfLines_of_none hnone, lastLine_of_none hnone]
      exact ⟨rfl, .inr rfl⟩
  | case3 data s h l r hsome ih =>
      rw [crlfLines_of_breakAt hsome, lastLine_of_breakAt hsome,
        List.dropLast_cons_of_ne_nil (crlfLines_ne_nil r), run, if_neg h]
      exact ih

/-- The pieces of a stream do not matter: the reader is given the lines of all of it. -/
theorem feed_eq {data : Text} {s : σ} (ps : List Text)
    (hdata : R.stopped s = true ∨ breakAt crlf data = none) :
    (R.feed ps (data, s)).2 = R.run (crlfLines (data ++ ps.flatten)).dropLast s := by
  induction ps generalizing data s with
  | nil =>
      rw [feed, List.flatten_nil, List.append_nil]
      rcases hdata with h | h
      · rw [run_of_stopped h]
      · rw [crlfLines_of_none h]
        rfl
  | cons p ps ih =>
      rw [feed]
      split
      next h => rw [run_of_stopped h]
      next =>
        obtain ⟨hrun, hrest⟩ := drain_eq (R := R) (data ++ p) s
        generalize R.drain (data ++ p) s = st at hrun hrest ⊢
        obtain ⟨rest, s'⟩ := st
        rw [List.flatten_cons, ← List.append_assoc, dropLast_crlfLines_append, run_append, ← hrun]
        rcases hrest with h | h
        · rw [ih (.inl h), run_of_stopped h, run_of_stopped h]
        · obtain rfl : rest = lastLine (data ++ p) := h
          exact ih (.inr (breakAt_lastLine _))

end LineReader

end Support
