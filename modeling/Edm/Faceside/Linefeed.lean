import Edm.Faceside.DwString
import Edm.Support.Crlf

/-!
# Faceside — the lines of an attachment

`dw_linefeed` deletes the line ends of a text and puts a CRLF behind every `pos` characters, in one
pass over the string that it changes.  Its iterator is a position here, and a NUL stands at the end
of the string.

* `linefeedLoop_eq`: the pass as a function of what is left of the text (`refeed`).
* **The text is wrapped again** (`dwLinefeed_rewrapped`): nothing else of it changes, every line but
  the last has `pos` characters, and a second pass changes nothing.
-/

namespace Edm.Faceside.Linefeed
open Support

/-! ### The code -/

/-- A character that the loop deletes. -/
def IsBreak (c : Char) : Prop := c = '\r' ∨ c = '\n'

instance (c : Char) : Decidable (IsBreak c) := inferInstanceAs (Decidable (_ ∨ _))

/-- The loop of `dw_linefeed`. -/
def linefeedLoop (pos : Nat) (hpos : 0 < pos) (text : Text) (it offset : Nat) : Text :=
  if it < text.length then
    if offset = pos then
      if text.getD it nul = '\r' ∧ text.getD (it + 1) nul = '\n' then
        linefeedLoop pos hpos text (it + 2) 0
      else linefeedLoop pos hpos (text.take it ++ (Support.crlf ++ text.drop it)) (it + 2) 0
    else if IsBreak (text.getD it nul) then
      linefeedLoop pos hpos (text.take it ++ text.drop (it + 1)) it offset
    else linefeedLoop pos hpos text (it + 1) (offset + 1)
  else text
termination_by 2 * (text.length - it) + if offset = pos then 1 else 0
decreasing_by
  · rw [if_neg (Nat.ne_of_lt hpos), if_pos ‹offset = pos›]
    omega
  · have hlen : (text.take it ++ (Support.crlf ++ text.drop it)).length = text.length + 2 := by
      rw [List.length_append, List.length_append, List.length_take, List.length_drop]
      have : Support.crlf.length = 2 := rfl
      omega
    rw [hlen, if_neg (Nat.ne_of_lt hpos), if_pos ‹offset = pos›]
    omega
  · have hlen : (text.take it ++ text.drop (it + 1)).length = text.length - 1 := by
      rw [List.length_append, List.length_take, List.length_drop]
      omega
    rw [hlen]
    split <;> omega
  · split <;> omega

/-- `dw_linefeed`. -/
def dwLinefeed (text : Text) (pos : Int) : Text :=
  if h : text.length < 1 ∨ pos < 1 then text
  else linefeedLoop pos.toNat (by omega) text 0 0

/-! ### One pass -/

/-- What the loop makes of the rest of a text, behind `offset` characters of a line.  Where a line
is full, the line ends that follow it become the CRLF that is put there. -/
def refeed (pos : Nat) : Nat → Text → Text
  | _, [] => []
  | offset, c :: s =>
      if IsBreak c then
        if offset = pos then Support.crlf ++ refeed pos 0 s else refeed pos offset s
      else if offset = pos then Support.crlf ++ c :: refeed pos 1 s
      else c :: refeed pos (offset + 1) s

section Refeed
variable {pos offset : Nat} {c : Char}

theorem refeed_break (h : IsBreak c) (hne : offset ≠ pos) (s : Text) :
    refeed pos offset (c :: s) = refeed pos offset s := by
  rw [refeed, if_pos h, if_neg hne]

theorem refeed_break_full (h : IsBreak c) (s : Text) :
    refeed pos pos (c :: s) = Support.crlf ++ refeed pos 0 s := by
  rw [refeed, if_pos h, if_pos rfl]

theorem refeed_char (h : ¬ IsBreak c) (hne : offset ≠ pos) (s : Text) :
    refeed pos offset (c :: s) = c :: refeed pos (offset + 1) s := by
  rw [refeed, if_neg h, if_neg hne]

theorem refeed_char_full (h : ¬ IsBreak c) (s : Text) :
    refeed pos pos (c :: s) = Support.crlf ++ c :: refeed pos 1 s := by
  rw [refeed, if_neg h, if_pos rfl]

/-- A line feed is inserted in front of a character, and the loop goes on with it. -/
theorem refeed_full (hpos : 0 < pos) {s : Text} (hs : s ≠ []) :
    refeed pos pos s = Support.crlf ++ refeed pos 0 s := by
  obtain ⟨c, s, rfl⟩ := List.exists_cons_of_ne_nil hs
  by_cases h : IsBreak c
  · rw [refeed_break_full h, refeed_break h (Nat.ne_of_lt hpos)]
  · rw [refeed_char_full h, refeed_char h (Nat.ne_of_lt hpos)]

theorem getD_of_lt {text : Text} {it : Nat} (h : it < text.length) :
    text.getD it nul = text[it] := by
  rw [List.getD_eq_getElem?_getD, List.getElem?_eq_getElem h, Option.getD_some]

/-- The characters at the iterator. -/
theorem drop_getD {text : Text} {it : Nat} (h : it < text.length) :
    text.drop it = text.getD it nul :: text.drop (it + 1) := by
  rw [List.drop_eq_getElem_cons h, getD_of_lt h]

theorem take_getD {text : Text} {it : Nat} (h : it < text.length) :
    text.take (it + 1) = text.take it ++ [text.getD it nul] := by
  rw [List.take_succ_eq_append_getElem h, getD_of_lt h]

theorem linefeedLoop_eq (hpos : 0 < pos) (text : Text) (it offset : Nat) :
    linefeedLoop pos hpos text it offset = text.take it ++ refeed pos offset (text.drop it) := by
  induction text, it, offset using linefeedLoop.induct pos hpos with
  | case1 text it hit hcrlf ih =>
      have hnext : it + 1 < text.length := Nat.lt_of_not_le fun hle => by
        have hend : text.getD (it + 1) nul = nul := by
          rw [List.getD_eq_getElem?_getD, List.getElem?_eq_none hle, Option.getD_none]
        exact absurd (hend.symm.trans hcrlf.2) (by decide)
      rw [linefeedLoop, if_pos hit, if_pos rfl, if_pos hcrlf, ih, take_getD hnext, take_getD hit,
        drop_getD hit, drop_getD hnext, hcrlf.1, hcrlf.2, refeed_break_full (.inl rfl),
        refeed_break (.inr rfl) (Nat.ne_of_lt hpos)]
      simp [Support.crlf]
  | case2 text it hit hcrlf ih =>
      have hne : text.drop it ≠ [] := by
        rw [drop_getD hit]
        exact List.cons_ne_nil _ _
      have hlen : (text.take it ++ Support.crlf).length = it + 2 := by
        rw [List.length_append, List.length_take_of_le (Nat.le_of_lt hit)]
        rfl
      rw [linefeedLoop, if_pos hit, if_pos rfl, if_neg hcrlf, ih, ← List.append_assoc, ← hlen,
        List.take_left, List.drop_left, refeed_full hpos hne, List.append_assoc]
  | case3 text it offset hit hne hbreak ih =>
      have hlen : (text.take it).length = it := List.length_take_of_le (Nat.le_of_lt hit)
      have htake : (text.take it ++ text.drop (it + 1)).take it = text.take it :=
        List.take_left' hlen
      have hdrop : (text.take it ++ text.drop (it + 1)).drop it = text.drop (it + 1) :=
        List.drop_left' hlen
      rw [linefeedLoop, if_pos hit, if_neg hne, if_pos hbreak, ih, htake, hdrop, drop_getD hit,
        refeed_break hbreak hne]
  | case4 text it offset hit hne hbreak ih =>
      rw [linefeedLoop, if_pos hit, if_neg hne, if_neg hbreak, ih, take_getD hit, drop_getD hit,
        refeed_char hbreak hne, List.append_assoc, List.singleton_append]
  | case5 text it offset hit =>
      rw [linefeedLoop, if_neg hit, List.take_of_length_le (Nat.le_of_not_lt hit),
        List.drop_of_length_le (Nat.le_of_not_lt hit), refeed, List.append_nil]

/-- Only line ends are deleted, and only line ends are put in. -/
theorem filter_refeed (s : Text) (offset : Nat) :
    (refeed pos offset s).filter (fun c => ¬ IsBreak c) = s.filter fun c => ¬ IsBreak c := by
  have hcrlf : Support.crlf.filter (fun c => ¬ IsBreak c) = [] := rfl
  induction s generalizing offset with
  | nil => rfl
  | cons c s ih =>
      by_cases h : IsBreak c <;> by_cases hne : offset = pos
      · rw [hne, refeed_break_full h, List.filter_append, hcrlf, ih, List.nil_append,
          List.filter_cons_of_neg (by simpa using h)]
      · rw [refeed_break h hne, ih, List.filter_cons_of_neg (by simpa using h)]
      · rw [hne, refeed_char_full h, List.filter_append, hcrlf, List.nil_append,
          List.filter_cons_of_pos (by simpa using h), ih,
          List.filter_cons_of_pos (by simpa using h)]
      · rw [refeed_char h hne, List.filter_cons_of_pos (by simpa using h), ih,
          List.filter_cons_of_pos (by simpa using h)]

/-- A second pass finds every CRLF where it would put one. -/
theorem refeed_refeed (hpos : 0 < pos) (s : Text) (offset : Nat) :
    refeed pos offset (refeed pos offset s) = refeed pos offset s := by
  have hskip : ∀ t, refeed pos pos (Support.crlf ++ t) = Support.crlf ++ refeed pos 0 t := by
    intro t
    have hcons : Support.crlf ++ t = '\r' :: '\n' :: t := rfl
    rw [hcons, refeed_break_full (.inl rfl), refeed_break (.inr rfl) (Nat.ne_of_lt hpos)]
  induction s generalizing offset with
  | nil => rfl
  | cons c s ih =>
      by_cases h : IsBreak c <;> by_cases hne : offset = pos
      · rw [hne, refeed_break_full h, hskip, ih]
      · rw [refeed_break h hne, ih]
      · rw [hne, refeed_char_full h, hskip, refeed_char h (Nat.ne_of_lt hpos), ih]
      · rw [refeed_char h hne, refeed_char h hne, ih]

end Refeed

/-! ### The lines -/

/-- A line without line ends in it. -/
def Clean (l : Text) : Prop := ∀ c ∈ l, ¬ IsBreak c

theorem crlfLines_char {c : Char} (h : ¬ IsBreak c) (s : Text) :
    crlfLines (c :: s) = consLine c (crlfLines s) :=
  crlfLines.eq_3 _ _ fun _ hc => absurd (.inl hc) h

/-- Lines of which all but the last have `pos` characters; in the first one `offset` of them stand
before the text. -/
def LinesFrom (pos offset : Nat) (ls : List Text) : Prop :=
  ∃ l rest, ls = l :: rest ∧ Clean l ∧ (∀ x ∈ rest, Clean x) ∧ (rest ≠ [] → offset + l.length = pos)
    ∧ ∀ x ∈ rest.dropLast, x.length = pos

theorem LinesFrom.full {pos : Nat} {ls : List Text} (h : LinesFrom pos 0 ls) :
    LinesFrom pos pos ([] :: ls) := by
  obtain ⟨l, rest, rfl, hl, hclean, hfirst, hrest⟩ := h
  refine ⟨[], l :: rest, rfl, nofun, List.forall_mem_cons.mpr ⟨hl, hclean⟩, fun _ => rfl, ?_⟩
  cases rest with
  | nil => exact nofun
  | cons x rest =>
      rw [List.dropLast_cons_cons, List.forall_mem_cons]
      exact ⟨by simpa using hfirst (List.cons_ne_nil _ _), hrest⟩

theorem LinesFrom.char {pos offset : Nat} {c : Char} {ls : List Text} (hc : ¬ IsBreak c)
    (h : LinesFrom pos (offset + 1) ls) : LinesFrom pos offset (consLine c ls) := by
  obtain ⟨l, rest, rfl, hl, hclean, hfirst, hrest⟩ := h
  refine ⟨c :: l, rest, rfl, List.forall_mem_cons.mpr ⟨hc, hl⟩, hclean, fun hne => ?_, hrest⟩
  have := hfirst hne
  rw [List.length_cons]
  omega

theorem linesFrom_refeed (pos : Nat) (s : Text) (offset : Nat) :
    LinesFrom pos offset (crlfLines (refeed pos offset s)) := by
  induction s generalizing offset with
  | nil => exact ⟨[], [], rfl, nofun, nofun, fun h => absurd rfl h, nofun⟩
  | cons c s ih =>
      by_cases h : IsBreak c <;> by_cases hne : offset = pos
      · rw [hne, refeed_break_full h, crlfLines_crlf]
        exact (ih 0).full
      · rw [refeed_break h hne]
        exact ih offset
      · rw [hne, refeed_char_full h, crlfLines_crlf, crlfLines_char h]
        exact ((ih 1).char h).full
      · rw [refeed_char h hne, crlfLines_char h]
        exact (ih (offset + 1)).char h

/-! ### The result -/

/-- `r` is the text `t` in lines of `pos` characters. -/
structure Rewrapped (pos : Int) (t r : Text) : Prop where
  same : r.filter (fun c => ¬ IsBreak c) = t.filter fun c => ¬ IsBreak c
  full : ∀ l ∈ (crlfLines r).dropLast, (l.length : Int) = pos
  clean : ∀ l ∈ crlfLines r, Clean l
  again : dwLinefeed r pos = r

/-- A text of no characters is left as it is, and the pass does nothing to it. -/
theorem dwLinefeed_eq (t : Text) {pos : Int} (h : 1 ≤ pos) :
    dwLinefeed t pos = refeed pos.toNat 0 t := by
  rw [dwLinefeed]
  split
  next hshort =>
    have ht : t = [] := List.length_eq_zero_iff.mp (by omega)
    rw [ht, refeed]
  next => rw [linefeedLoop_eq, List.take_zero, List.nil_append, List.drop_zero]

/-- **The text is wrapped again.** -/
theorem dwLinefeed_rewrapped (t : Text) {pos : Int} (h : 1 ≤ pos) :
    Rewrapped pos t (dwLinefeed t pos) := by
  have hpos : 0 < pos.toNat := by omega
  obtain ⟨l, rest, hls, hl, hclean, hfirst, hrest⟩ := linesFrom_refeed pos.toNat t 0
  rw [← dwLinefeed_eq t h] at hls
  refine ⟨?_, ?_, ?_, ?_⟩
  · rw [dwLinefeed_eq t h, filter_refeed]
  · rw [hls]
    cases rest with
    | nil => exact nofun
    | cons x rest =>
        rw [List.dropLast_cons_cons, List.forall_mem_cons]
        have := hfirst (List.cons_ne_nil _ _)
        exact ⟨by omega, fun y hy => by
          have := hrest y hy
          omega⟩
  · rw [hls]
    exact List.forall_mem_cons.mpr ⟨hl, hclean⟩
  · rw [dwLinefeed_eq _ h, dwLinefeed_eq t h, refeed_refeed hpos]

/-- A line feed at the place of the break, one before it, and a CR behind it. -/
theorem dwLinefeed_three : Rewrapped 3 "ab\ncd\refg".toList
    (dwLinefeed "ab\ncd\refg".toList 3) :=
  dwLinefeed_rewrapped _ (by decide)

theorem crlf_eq : Faceside.crlf = Support.crlf := by decide

/-- The pass of `taskinf_dump` is the one with an iterator that stays valid. -/
theorem fst_linefeedFrom {pos : Nat} (hpos : 0 < pos) (size offset : Nat) (s : Text) :
    (linefeedFrom pos size offset s).1 = refeed pos offset s := by
  induction size, offset, s using linefeedFrom.induct pos with
  | case1 => rw [linefeedFrom, refeed]
  | case2 size offset c s h ih =>
      obtain ⟨rfl, hcrlf⟩ := h
      obtain ⟨t, ht⟩ := List.isPrefixOf_iff_prefix.mp hcrlf
      have hcons : c :: s = '\r' :: '\n' :: t := by
        rw [← ht, crlf_eq]
        rfl
      obtain ⟨rfl, rfl⟩ := List.cons.inj hcons
      rw [linefeedFrom, if_pos ⟨rfl, hcrlf⟩, ih, refeed_break_full (.inl rfl), crlf_eq,
        refeed_break (.inr rfl) (Nat.ne_of_lt hpos)]
      rfl
  | case3 size c s hbreak h ih =>
      rw [linefeedFrom, if_neg h, if_pos rfl, if_pos hbreak, ih, refeed_break_full hbreak, crlf_eq]
  | case4 size c s hbreak h ih =>
      rw [linefeedFrom, if_neg h, if_pos rfl, if_neg hbreak, ih, refeed_char_full hbreak, crlf_eq]
  | case5 size offset c s h hne hbreak ih =>
      rw [linefeedFrom, if_neg h, if_neg hne, if_pos hbreak, ih, refeed_break hbreak hne]
  | case6 size offset c s h hne hbreak ih =>
      rw [linefeedFrom, if_neg h, if_neg hne, if_neg hbreak, ih, refeed_char hbreak hne]

end Edm.Faceside.Linefeed
