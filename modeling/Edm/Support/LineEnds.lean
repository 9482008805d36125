import Edm.Support.CString

/-!
# Support — LineEnds

Texts whose lines end in CR LF, a lone CR or a lone LF.  `cutLines` gives the lines of a text, each
with its end; the last one may have none.

`scanLine` takes the first line off a text that may go on: a CR at the end does not end a line yet.
What it takes is the first line however the text goes on (`scanLine_spec`), and what it leaves
alone is no more than the first line of it (`length_le_of_scanLine`).
-/

namespace Support

/-- Put a character in front of the first of some lines. -/
def consFirst (c : Char) : List (Text × Text) → List (Text × Text)
  | [] => [([c], [])]
  | (l, t) :: ls => (c :: l, t) :: ls

/-- The lines of a text, and their ends. -/
def cutLines : Text → List (Text × Text)
  | [] => []
  | '\r' :: '\n' :: s => ([], ['\r', '\n']) :: cutLines s
  | c :: s =>
      if c = '\r' ∨ c = '\n' then ([], [c]) :: cutLines s else consFirst c (cutLines s)

/-- The first line of a text that may go on, its end, and what is behind it. -/
def scanLine : Text → Option (Text × Text × Text)
  | [] => none
  | c :: s =>
      if c = '\n' then some ([], [c], s)
      else if c = '\r' then
        match s with
        | [] => none
        | d :: s => if d = '\n' then some ([], [c, d], s) else some ([], [c], d :: s)
      else (scanLine s).map fun p => (c :: p.1, p.2)

/-- The lines with their ends are the text. -/
theorem flatten_cutLines (s : Text) : ((cutLines s).map fun p => p.1 ++ p.2).flatten = s := by
  induction s using cutLines.induct with
  | case1 => rfl
  | case2 s ih => exact congrArg (['\r', '\n'] ++ ·) ih
  | case3 c s hc h ih =>
      rw [cutLines.eq_3 _ _ hc, if_pos h]
      exact congrArg ([c] ++ ·) ih
  | case4 c s hc h ih =>
      rw [cutLines.eq_3 _ _ hc, if_neg h]
      cases hls : cutLines s with
      | nil =>
          rw [hls] at ih
          exact congrArg (c :: ·) ih
      | cons q ls =>
          rw [hls] at ih
          exact congrArg (c :: ·) ih

section Scan
variable {c : Char} {l t r s : Text}

theorem scanLine_char (h₁ : c ≠ '\r') (h₂ : c ≠ '\n') (s : Text) :
    scanLine (c :: s) = (scanLine s).map fun p => (c :: p.1, p.2) := by
  rw [scanLine.eq_def]
  dsimp only
  rw [if_neg h₂, if_neg h₁]

theorem cutLines_char (h₁ : c ≠ '\r') (h₂ : c ≠ '\n') (s : Text) :
    cutLines (c :: s) = consFirst c (cutLines s) := by
  rw [cutLines.eq_3 _ _ fun _ hc => absurd hc h₁, if_neg fun h => h.elim h₁ h₂]

theorem cutLines_lf (s : Text) : cutLines ('\n' :: s) = ([], ['\n']) :: cutLines s := rfl

theorem cutLines_crlf (s : Text) :
    cutLines ('\r' :: '\n' :: s) = ([], ['\r', '\n']) :: cutLines s := rfl

theorem cutLines_cr {d : Char} (h : d ≠ '\n') (s : Text) :
    cutLines ('\r' :: d :: s) = ([], ['\r']) :: cutLines (d :: s) := by
  rw [cutLines.eq_3 _ _ fun s' _ hs => h (List.cons.inj hs).1, if_pos (.inl rfl)]

theorem scanLine_lf (s : Text) : scanLine ('\n' :: s) = some ([], ['\n'], s) := by
  rw [scanLine.eq_def]
  rfl

theorem scanLine_cr_nil : scanLine ['\r'] = none := by
  rw [scanLine.eq_def]
  rfl

theorem scanLine_crlf (s : Text) :
    scanLine ('\r' :: '\n' :: s) = some ([], ['\r', '\n'], s) := by
  rw [scanLine.eq_def]
  rfl

theorem scanLine_cr {d : Char} (h : d ≠ '\n') (s : Text) :
    scanLine ('\r' :: d :: s) = some ([], ['\r'], d :: s) := by
  rw [scanLine.eq_def]
  exact if_neg h

/-- The texts, by what they begin with. -/
@[elab_as_elim]
theorem line_induction {motive : Text → Prop} (nil : motive []) (lf : ∀ s, motive ('\n' :: s))
    (last : motive ['\r']) (crlf : ∀ s, motive ('\r' :: '\n' :: s))
    (cr : ∀ d s, d ≠ '\n' → motive ('\r' :: d :: s))
    (char : ∀ c s, c ≠ '\r' → c ≠ '\n' → motive s → motive (c :: s)) (s : Text) : motive s := by
  induction s with
  | nil => exact nil
  | cons c s ih =>
      by_cases h₂ : c = '\n'
      · rw [h₂]
        exact lf s
      · by_cases h₁ : c = '\r'
        · rw [h₁]
          cases s with
          | nil => exact last
          | cons d s =>
              by_cases hd : d = '\n'
              · rw [hd]
                exact crlf s
              · exact cr d s hd
        · exact char c s h₁ h₂ ih

/-- The line and its end stand in front of what is left, and are the first however the text goes
on. -/
theorem scanLine_spec (h : scanLine s = some (l, t, r)) : s = l ++ (t ++ r) ∧ t ≠ [] ∧
    ∀ f, cutLines (s ++ f) = (l, t) :: cutLines (r ++ f) := by
  induction s using line_induction generalizing l with
  | nil => cases h
  | lf s =>
      rw [scanLine_lf] at h
      cases h
      exact ⟨rfl, List.cons_ne_nil _ _, fun f => cutLines_lf _⟩
  | last =>
      rw [scanLine_cr_nil] at h
      cases h
  | crlf s =>
      rw [scanLine_crlf] at h
      cases h
      exact ⟨rfl, List.cons_ne_nil _ _, fun f => cutLines_crlf _⟩
  | cr d s hd =>
      rw [scanLine_cr hd] at h
      cases h
      exact ⟨rfl, List.cons_ne_nil _ _, fun f => cutLines_cr hd _⟩
  | char c s h₁ h₂ ih =>
      rw [scanLine_char h₁ h₂] at h
      obtain ⟨⟨l', p⟩, hp, heq⟩ := Option.map_eq_some_iff.mp h
      obtain ⟨rfl, rfl⟩ := Prod.mk.inj heq
      obtain ⟨hs, ht, hfirst⟩ := ih hp
      refine ⟨by rw [hs, List.cons_append], ht, fun f => ?_⟩
      rw [List.cons_append, cutLines_char h₁ h₂, hfirst, consFirst]

theorem scanLine_char_eq_none (h₁ : c ≠ '\r') (h₂ : c ≠ '\n') :
    scanLine (c :: s) = none ↔ scanLine s = none := by
  rw [scanLine_char h₁ h₂, Option.map_eq_none_iff]

/-- A text in which no line is complete: its end is nothing, or a CR. -/
theorem cutLines_open (h : scanLine s = none) (hs : s ≠ []) :
    ∃ l t, s = l ++ t ∧ (t = [] ∨ t = ['\r']) ∧ '\r' ∉ l ∧ cutLines s = [(l, t)] := by
  induction s using line_induction with
  | nil => exact absurd rfl hs
  | lf s =>
      rw [scanLine_lf] at h
      cases h
  | last => exact ⟨[], ['\r'], rfl, .inr rfl, List.not_mem_nil, rfl⟩
  | crlf s =>
      rw [scanLine_crlf] at h
      cases h
  | cr d s hd =>
      rw [scanLine_cr hd] at h
      cases h
  | char c s h₁ h₂ ih =>
      rw [scanLine_char_eq_none h₁ h₂] at h
      by_cases hnil : s = []
      · subst hnil
        refine ⟨[c], [], rfl, .inl rfl, ?_, ?_⟩
        · rw [List.mem_singleton]
          exact Ne.symm h₁
        · rw [cutLines_char h₁ h₂]
          rfl
      · obtain ⟨l, t, hlt, ht, hcr, hcut⟩ := ih h hnil
        refine ⟨c :: l, t, by rw [hlt, List.cons_append], ht, ?_, ?_⟩
        · rw [List.mem_cons, not_or]
          exact ⟨Ne.symm h₁, hcr⟩
        · rw [cutLines_char h₁ h₂, hcut, consFirst]

/-- If no line is complete, the first one is not shorter than what is there. -/
theorem length_le_of_scanLine (h : scanLine s = none) (f : Text) :
    ∀ p ∈ (cutLines (s ++ f)).head?, s.length ≤ p.1.length + p.2.length := by
  induction s using line_induction with
  | nil => exact fun p _ => Nat.zero_le _
  | lf s =>
      rw [scanLine_lf] at h
      cases h
  | last =>
      intro p hp
      cases f with
      | nil =>
          cases hp
          exact Nat.le_refl _
      | cons d f =>
          by_cases hd : d = '\n'
          · subst hd
            cases hp
            exact Nat.le_succ 1
          · rw [List.singleton_append, cutLines_cr hd] at hp
            cases hp
            exact Nat.le_refl _
  | crlf s =>
      rw [scanLine_crlf] at h
      cases h
  | cr d s hd =>
      rw [scanLine_cr hd] at h
      cases h
  | char c s h₁ h₂ ih =>
      rw [scanLine_char_eq_none h₁ h₂] at h
      intro p hp
      rw [List.cons_append, cutLines_char h₁ h₂] at hp
      cases hls : cutLines (s ++ f) with
      | nil =>
          have hnil : s ++ f = [] := by rw [← flatten_cutLines (s ++ f), hls]; rfl
          rw [hls] at hp
          cases hp
          rw [(List.append_eq_nil_iff.mp hnil).1]
          exact Nat.le_refl 1
      | cons q ls =>
          rw [hls] at hp
          cases hp
          have hq := ih h q (by rw [hls]; rfl)
          dsimp only
          rw [List.length_cons, List.length_cons]
          omega

end Scan

/-! ### Rows -/

/-- The text stays in its line. -/
def InLine (s : Text) : Prop := ∀ c ∈ s, c ≠ '\r' ∧ c ≠ '\n'

/-- Rows, each with its end, which is LF or CR LF; the last one may have none. -/
inductive EndedRows : List (Text × Text) → Prop
  | nil : EndedRows []
  | last {l : Text} (hne : l ≠ []) : EndedRows [(l, [])]
  | cons {l e : Text} {ls : List (Text × Text)} (he : e = ['\n'] ∨ e = ['\r', '\n'])
      (h : EndedRows ls) : EndedRows ((l, e) :: ls)

theorem EndedRows.length_le {ls : List (Text × Text)} (h : EndedRows ls) :
    ls.length ≤ (ls.map fun l => l.1 ++ l.2).flatten.length := by
  induction h with
  | nil => exact Nat.le_refl 0
  | last hne =>
      rw [List.map_singleton, List.flatten_singleton, List.append_nil]
      exact List.length_pos_of_ne_nil hne
  | @cons l e ls he _ ih =>
      have hpos : 0 < e.length := by
        rcases he with rfl | rfl
        · exact Nat.zero_lt_one
        · exact Nat.zero_lt_two
      rw [List.map_cons, List.flatten_cons, List.length_append, List.length_append, List.length_cons]
      dsimp only
      omega

theorem cutLines_run {l s : Text} (hl : InLine l) {t : Text} {ls : List (Text × Text)}
    (hs : cutLines s = ([], t) :: ls) : cutLines (l ++ s) = (l, t) :: ls := by
  induction l with
  | nil => exact hs
  | cons c l ih =>
      obtain ⟨⟨h₁, h₂⟩, hl⟩ := List.forall_mem_cons.mp hl
      rw [List.cons_append, cutLines_char h₁ h₂, ih hl, consFirst]

/-- The rows of a text are its lines. -/
theorem cutLines_ended {ls : List (Text × Text)} (h : EndedRows ls)
    (hls : ∀ l ∈ ls.map Prod.fst, InLine l) :
    cutLines (ls.map fun p => p.1 ++ p.2).flatten = ls := by
  induction h with
  | nil => rfl
  | @last l hne =>
      have hl : InLine l := hls l (by simp)
      clear hls
      rw [List.map_singleton, List.flatten_singleton, List.append_nil]
      induction l with
      | nil => exact absurd rfl hne
      | cons c l ih =>
          obtain ⟨⟨h₁, h₂⟩, hl⟩ := List.forall_mem_cons.mp hl
          rw [cutLines_char h₁ h₂]
          by_cases hnil : l = []
          · rw [hnil]
            rfl
          · rw [ih hnil hl, consFirst]
  | @cons l e ls he _ ih =>
      rw [List.map_cons, List.forall_mem_cons] at hls
      obtain ⟨hl, hls⟩ := hls
      rw [List.map_cons, List.flatten_cons, List.append_assoc]
      refine cutLines_run hl ?_
      rcases he with rfl | rfl
      · exact (cutLines_lf _).trans (congrArg _ (ih hls))
      · exact (cutLines_crlf _).trans (congrArg _ (ih hls))

end Support
