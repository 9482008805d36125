import Edm.Support.Crlf

/-!
# Support — Mime

The parts of a multipart text, which stand between the lines of its boundary, and the text that is
written from parts (`mimeText`).  If no line of it but those of the boundary begins with a dash, the
parts are read back (`mimeParts_mimeText`); a part is a head, and a body behind an empty line
(`mimePart_partText`).
-/

namespace Support

/-! ### Parts -/

/-- The line in front of a part. -/
def delimiter (boundary : Text) : Text := '-' :: '-' :: boundary

/-- The line behind the last part. -/
def closeDelimiter (boundary : Text) : Text := delimiter boundary ++ ['-', '-']

/-- The lines of a part, in front of the first empty one and behind it. -/
structure MimePart where
  head : List Text
  body : List Text

def mimePart (ls : List Text) : MimePart :=
  ⟨ls.takeWhile (· ≠ []), (ls.dropWhile (· ≠ [])).drop 1⟩

/-- The parts of a multipart text. -/
def mimeParts (boundary s : Text) : List MimePart :=
  ((((crlfLines s).takeWhile (· ≠ closeDelimiter boundary)).splitOn
    (delimiter boundary)).drop 1).map mimePart

/-- Parts behind a preamble, each with an empty line and the delimiter in front of it. -/
def mimeText (boundary preamble : Text) (parts : List Text) : Text :=
  preamble ++ (parts.flatMap (fun p => crlf ++ (crlf ++ (delimiter boundary ++ (crlf ++ p)))) ++
    (crlf ++ (crlf ++ (closeDelimiter boundary ++ (crlf ++ [])))))

variable {boundary : Text}

theorem crlfLines_of_not_mem {s : Text} (h : '\n' ∉ s) : crlfLines s = [s] := by
  induction s with
  | nil => rfl
  | cons c s ih =>
      rw [List.mem_cons, not_or] at h
      have hlf : ∀ t, c = '\r' → s ≠ '\n' :: t := by
        rintro t - rfl
        exact h.2 List.mem_cons_self
      rw [crlfLines.eq_3 _ _ hlf, ih h.2]
      rfl

/-- The lines of what is written. -/
theorem crlfLines_mimeText (hb : '\n' ∉ boundary) (preamble : Text) (parts : List Text) :
    crlfLines (mimeText boundary preamble parts) = (crlfLines preamble ++ [[]]) ++
      (parts.flatMap (fun p => delimiter boundary :: (crlfLines p ++ [[]])) ++
        [closeDelimiter boundary, []]) := by
  have hdelim : crlfLines (delimiter boundary) = [delimiter boundary] :=
    crlfLines_of_not_mem (by simp [delimiter, hb])
  have hclose : crlfLines (closeDelimiter boundary) = [closeDelimiter boundary] :=
    crlfLines_of_not_mem (by simp [closeDelimiter, delimiter, hb])
  rw [mimeText]
  induction parts generalizing preamble with
  | nil =>
      rw [List.flatMap_nil, List.nil_append, crlfLines_append, crlfLines_crlf, crlfLines_append,
        hclose, List.append_assoc]
      rfl
  | cons p parts ih =>
      simp only [List.flatMap_cons, List.append_assoc] at ih ⊢
      rw [crlfLines_append, crlfLines_crlf, crlfLines_append, hdelim, ih p]
      simp only [List.cons_append, List.append_assoc, List.nil_append]

/-! ### Lines that begin with a dash -/

/-- No line of a text begins with a dash. -/
def NoDash (s : Text) : Prop := ∀ l ∈ crlfLines s, l.head? ≠ some '-'

theorem NoDash.not_mem {s : Text} (h : NoDash s) (t : Text) : '-' :: t ∉ crlfLines s := fun hmem =>
  h _ hmem rfl

theorem noDash_of_not_mem {s : Text} (h : '-' ∉ s) : NoDash s := by
  intro l hl hhead
  have hmem : '-' ∈ ((crlfLines s).map (· ++ crlf)).flatten :=
    List.mem_flatten.mpr ⟨l ++ crlf, List.mem_map_of_mem hl,
      List.mem_append_left _ (List.mem_of_mem_head? hhead)⟩
  rw [flatten_crlfLines, List.mem_append] at hmem
  exact hmem.elim h (by decide)

/-- The lines of `ls` in front of a text. -/
def linesText (ls : List Text) (s : Text) : Text := ls.foldr (fun l t => l ++ (crlf ++ t)) s

theorem linesText_append (ls ls₁ : List Text) (s : Text) :
    linesText (ls ++ ls₁) s = linesText ls (linesText ls₁ s) := List.foldr_append

theorem crlfLines_linesText {ls : List Text} (h : ∀ l ∈ ls, '\n' ∉ l) (s : Text) :
    crlfLines (linesText ls s) = ls ++ crlfLines s := by
  induction ls with
  | nil => rfl
  | cons l ls ih =>
      obtain ⟨hl, hls⟩ := List.forall_mem_cons.mp h
      have hcons : linesText (l :: ls) s = l ++ (crlf ++ linesText ls s) := rfl
      rw [hcons, crlfLines_append, crlfLines_of_not_mem hl, ih hls]
      rfl

/-- A line that is not one of the boundary. -/
def PlainLine (l : Text) : Prop := '\n' ∉ l ∧ l.head? ≠ some '-'

theorem NoDash.linesText {ls : List Text} (h : ∀ l ∈ ls, PlainLine l) {s : Text} (hs : NoDash s) :
    NoDash (linesText ls s) := by
  rw [NoDash, crlfLines_linesText fun l hl => (h l hl).1]
  exact List.forall_mem_append.mpr ⟨fun l hl => (h l hl).2, hs⟩

/-- The lines of a head, an empty line, and a body. -/
def partText (head : List Text) (body : Text) : Text := linesText head (crlf ++ body)

theorem NoDash.partText {head : List Text} (h : ∀ l ∈ head, PlainLine l) {body : Text}
    (hbody : NoDash body) : NoDash (partText head body) := by
  refine NoDash.linesText h ?_
  rw [NoDash, crlfLines_crlf]
  exact List.forall_mem_cons.mpr ⟨nofun, hbody⟩

theorem mimePart_partText {head : List Text} (h : ∀ l ∈ head, '\n' ∉ l ∧ l ≠ []) (body : Text) :
    mimePart (crlfLines (partText head body) ++ [[]]) = ⟨head, crlfLines body ++ [[]]⟩ := by
  have hne : ∀ l ∈ head, decide (l ≠ []) = true := fun l hl => by simpa using (h l hl).2
  have hlines : crlfLines (partText head body) ++ [[]] =
      head ++ [] :: (crlfLines body ++ [[]]) := by
    rw [partText, crlfLines_linesText fun l hl => (h l hl).1, crlfLines_crlf, List.append_assoc]
    rfl
  rw [mimePart, hlines, List.takeWhile_append_of_pos hne, List.dropWhile_append_of_pos hne,
    List.takeWhile_cons_of_neg (by simp), List.dropWhile_cons_of_neg (by simp), List.append_nil]
  rfl

/-! ### Reading what is written -/

theorem splitOn_blocks {d : Text} {blocks : List (List Text)} (h : ∀ b ∈ blocks, d ∉ b)
    {pre : List Text} (hpre : d ∉ pre) :
    (pre ++ blocks.flatMap (d :: ·)).splitOn d = pre :: blocks := by
  induction blocks generalizing pre with
  | nil => rw [List.flatMap_nil, List.append_nil, List.splitOn_eq_singleton hpre]
  | cons b blocks ih =>
      obtain ⟨hb, hblocks⟩ := List.forall_mem_cons.mp h
      rw [List.flatMap_cons, List.cons_append, List.splitOn_append_cons_self_of_not_mem hpre,
        ih hblocks hb]

/-- The parts that were written are read. -/
theorem mimeParts_mimeText (hb : '\n' ∉ boundary) {preamble : Text} (hpre : NoDash preamble)
    {parts : List Text} (hparts : ∀ p ∈ parts, NoDash p) :
    mimeParts boundary (mimeText boundary preamble parts) =
      parts.map fun p => mimePart (crlfLines p ++ [[]]) := by
  obtain ⟨blocks, hblocks⟩ : ∃ bs, bs = parts.map fun p => crlfLines p ++ [[]] := ⟨_, rfl⟩
  have hdelim : delimiter boundary ∉ crlfLines preamble ++ [[]] := by
    simp [hpre.not_mem, delimiter]
  have hdelims : ∀ b ∈ blocks, delimiter boundary ∉ b := by
    rw [hblocks]
    intro b hb
    obtain ⟨p, hp, rfl⟩ := List.mem_map.mp hb
    simp [(hparts p hp).not_mem, delimiter]
  -- No line in front of the last one is a closing one.
  have hopen : ∀ l ∈ (crlfLines preamble ++ [[]]) ++ blocks.flatMap (delimiter boundary :: ·),
      l ≠ closeDelimiter boundary := by
    rintro l hl rfl
    simp only [hblocks, List.mem_append, List.mem_flatMap, List.mem_map, List.mem_cons,
      List.not_mem_nil, or_false] at hl
    obtain (hl | hl) | ⟨-, ⟨p, hp, rfl⟩, hl | hl⟩ := hl
    · exact hpre.not_mem _ hl
    · cases hl
    · exact absurd (congrArg List.length hl) (by simp [closeDelimiter])
    · rw [List.mem_append, List.mem_singleton] at hl
      obtain hl | hl := hl
      · exact (hparts p hp).not_mem _ hl
      · cases hl
  have hlines : parts.flatMap (fun p => delimiter boundary :: (crlfLines p ++ [[]])) =
      blocks.flatMap (delimiter boundary :: ·) := by
    rw [hblocks, List.flatMap_map]
  rw [mimeParts, crlfLines_mimeText hb, hlines, ← List.append_assoc,
    List.takeWhile_append_of_pos (by simpa using hopen), List.takeWhile_cons_of_neg (by simp),
    List.append_nil, splitOn_blocks hdelims hdelim, hblocks, List.drop_one, List.tail_cons,
    List.map_map]
  rfl

end Support
