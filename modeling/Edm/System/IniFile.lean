import Edm.Stream.ReadLine
import Edm.System.IniLine

/-!
# System — IniFile

A configuration file, line by line.  `getIniLine` puts the pieces of a line together, and passes over
what is blank.  A file that is written by the rules has items: blank lines, comments, sections and
entries, each folded as its author likes.

* `getIniLine_folded`: a folded line is put together again, without the blanks around it.
* `reads_rows`: the rows of a file are its lines, however the feed cuts it.
* `iniLines_items`: **the lines that are given to the parser are those of the items**.
-/

namespace Edm.System
open Support

/-! ### The code -/

/-- The loop of `getIniLine`: what is put together, and the lines that are left. -/
def joinLines (strSwap : Text) : List Text → Text × List Text
  | [] => (strSwap, [])
  | strRead :: ls =>
      let strRead := if strSwap.isEmpty then eraseFront spaceString strRead else strRead
      let strSwap := strSwap ++ strRead
      if !strSwap.isEmpty && !needNextLine strRead then (strSwap, ls)
      else joinLines strSwap.dropLast ls

/-- `getIniLine`; at the end of the file the line is empty. -/
def getIniLine (ls : List Text) : Text × List Text :=
  (eraseBack spaceString (joinLines [] ls).1, (joinLines [] ls).2)

theorem joinLines_nil (l : Text) (ls : List Text) : joinLines [] (l :: ls)
    = if !(eraseFront spaceString l).isEmpty && !needNextLine (eraseFront spaceString l) then
        (eraseFront spaceString l, ls)
      else joinLines (eraseFront spaceString l).dropLast ls := by
  rw [joinLines]
  rfl

theorem joinLines_ne_nil {acc : Text} (hacc : acc ≠ []) (l : Text) (ls : List Text) :
    joinLines acc (l :: ls)
      = if needNextLine l then joinLines (acc ++ l).dropLast ls else (acc ++ l, ls) := by
  have hempty : acc.isEmpty = false := by simpa using hacc
  rw [joinLines, hempty]
  cases hneed : needNextLine l with
  | true => simp [hneed]
  | false => simp [hneed, hacc]

theorem length_joinLines (strSwap : Text) (ls : List Text) :
    (joinLines strSwap ls).2.length ≤ ls.length - 1 := by
  induction ls generalizing strSwap with
  | nil => exact Nat.le_refl 0
  | cons l ls ih =>
      have hless : ∀ acc, (joinLines acc ls).2.length ≤ (l :: ls).length - 1 :=
        fun acc => (ih acc).trans (Nat.sub_le _ _)
      by_cases hnil : strSwap = []
      · rw [hnil, joinLines_nil]
        split
        · exact Nat.le_refl _
        · exact hless _
      · rw [joinLines_ne_nil hnil]
        split
        · exact hless _
        · exact Nat.le_refl _

theorem length_getIniLine {ls : List Text} (h : (getIniLine ls).1.isEmpty = false) :
    (getIniLine ls).2.length < ls.length := by
  cases ls with
  | nil => cases h
  | cons l ls =>
      have hlen := length_joinLines [] (l :: ls)
      exact Nat.lt_succ_of_le hlen

/-- `while ( getIniLine(lineStream, strLine, true) )`. -/
def iniLines (ls : List Text) : List Text :=
  if _h : (getIniLine ls).1.isEmpty = false then (getIniLine ls).1 :: iniLines (getIniLine ls).2
  else []
termination_by ls.length
decreasing_by exact length_getIniLine _h

/-! ### Folded lines -/

/-- How a line is folded.  Each of the pieces goes on in the next line; `indent` and `tail` are
blanks. -/
structure Folded (line : Text) where
  indent : Text
  pieces : List Text
  last : Text
  tail : Text
  line_eq : line = pieces.flatten ++ last
  first_ne : pieces.head? ≠ some []
  goesOn : ∀ p ∈ pieces, needNextLine (p ++ ['\\']) = true
  ends : needNextLine (last ++ tail) = false
  areSpaces : ∀ c ∈ indent ++ tail, c ∈ spaceString

/-- The rows of the file. -/
def Folded.rows {line : Text} (f : Folded line) : List Text :=
  (f.pieces.map (· ++ ['\\']) ++ [f.last ++ f.tail]).modifyHead (f.indent ++ ·)

theorem areSpaces_nil : ∀ c ∈ ([] : Text), c ∈ spaceString := List.forall_mem_nil _

/-- A line by itself. -/
def Folded.single {line : Text} (h : needNextLine line = false) : Folded line where
  indent := []
  pieces := []
  last := line
  tail := []
  line_eq := rfl
  first_ne := by simp
  goesOn := List.forall_mem_nil _
  ends := by rwa [List.append_nil]
  areSpaces := areSpaces_nil

theorem joinLines_more {acc last : Text} (hacc : acc ≠ []) {pieces : List Text}
    (hgoes : ∀ p ∈ pieces, needNextLine (p ++ ['\\']) = true) (hlast : needNextLine last = false)
    (ls : List Text) : joinLines acc (pieces.map (· ++ ['\\']) ++ (last :: ls))
      = (acc ++ pieces.flatten ++ last, ls) := by
  induction pieces generalizing acc with
  | nil =>
      rw [List.map_nil, List.nil_append, joinLines_ne_nil hacc, hlast, if_neg (by simp),
        List.flatten_nil, List.append_nil]
  | cons p ps ih =>
      obtain ⟨hp, hgoes⟩ := List.forall_mem_cons.mp hgoes
      rw [List.map_cons, List.cons_append, joinLines_ne_nil hacc, hp, if_pos rfl,
        ← List.append_assoc, List.dropLast_concat,
        ih (List.append_ne_nil_of_left_ne_nil hacc p) hgoes, List.flatten_cons]
      simp only [List.append_assoc]

/-- A folded line is put together again. -/
theorem getIniLine_folded {line : Text} (f : Folded line) (hne : line ≠ []) (htrimmed : Trimmed line)
    (ls : List Text) : getIniLine (f.rows ++ ls) = (line, ls) := by
  have hindent : ∀ c ∈ f.indent, c ∈ spaceString :=
    fun c hc => f.areSpaces c (List.mem_append_left _ hc)
  have htail : ∀ c ∈ f.tail, c ∈ spaceString :=
    fun c hc => f.areSpaces c (List.mem_append_right _ hc)
  have hjoin : joinLines [] (f.rows ++ ls) = (line ++ f.tail, ls) := by
    have hline := f.line_eq
    have hfirst := f.first_ne
    have hgoes := f.goesOn
    rw [Folded.rows]
    generalize f.pieces = pieces at hline hfirst hgoes ⊢
    cases pieces with
    | nil =>
        rw [List.flatten_nil, List.nil_append] at hline
        rw [List.map_nil, List.nil_append, List.modifyHead_cons, List.singleton_append,
          joinLines_nil, ← hline]
        have hends := f.ends
        rw [← hline] at hends
        have hhead : ∀ c ∈ (line ++ f.tail).head?, c ∉ spaceString := by
          rw [List.head?_append_of_ne_nil _ hne]
          exact htrimmed.1
        rw [eraseFront_pad hindent hhead, if_pos (by simp [hne, hends])]
    | cons p ps =>
        obtain ⟨hp, hgoes⟩ := List.forall_mem_cons.mp hgoes
        have hpne : p ≠ [] := by
          rintro rfl
          exact hfirst rfl
        have hhead : ∀ c ∈ (p ++ ['\\']).head?, c ∉ spaceString := by
          have hsame : (p ++ ['\\']).head? = line.head? := by
            rw [hline, List.flatten_cons, List.append_assoc, List.head?_append_of_ne_nil _ hpne,
              List.head?_append_of_ne_nil _ hpne]
          rw [hsame]
          exact htrimmed.1
        rw [List.map_cons, List.cons_append, List.modifyHead_cons, List.cons_append,
          joinLines_nil, eraseFront_pad hindent hhead, hp, if_neg (by simp),
          List.dropLast_concat, List.append_assoc, List.singleton_append,
          joinLines_more hpne hgoes f.ends]
        have hwhole : line ++ f.tail = (p :: ps).flatten ++ f.last ++ f.tail :=
          congrArg (· ++ f.tail) hline
        rw [hwhole, List.flatten_cons]
        simp only [List.append_assoc]
  rw [getIniLine, hjoin]
  exact congrArg (·, ls) (eraseBack_append htrimmed.2 htail)

/-- What is blank is passed over. -/
theorem getIniLine_blank {b : Text} (hb : ∀ c ∈ b, c ∈ spaceString) (ls : List Text) :
    getIniLine (b :: ls) = getIniLine ls := by
  have herase : eraseFront spaceString b = [] := by
    rw [← List.append_nil b]
    exact eraseFront_pad hb (by simp)
  have hjoin : joinLines [] (b :: ls) = joinLines [] ls := by
    rw [joinLines_nil, herase]
    rfl
  rw [getIniLine, hjoin]
  rfl

/-! ### Items -/

/-- What stands in a configuration file. -/
inductive Item where
  | blank (b : Text) (areSpaces : ∀ c ∈ b, c ∈ spaceString)
  | comment (t : Text) (isComment : IsComment t) (ne_nil : t ≠ []) (trimmed : Trimmed t)
      (f : Folded t)
  | section (s : SectionLine) (trimmed : Trimmed s.line) (f : Folded s.line)
  | entry (e : Entry) (trimmed : Trimmed e.line) (f : Folded e.line)

namespace Item

/-- The rows of the file. -/
def rows : Item → List Text
  | blank b _ => [b]
  | comment _ _ _ _ f => f.rows
  | .section _ _ f => f.rows
  | entry _ _ f => f.rows

/-- The line, when it is put together. -/
def line? : Item → Option Text
  | blank _ _ => none
  | comment t _ _ _ _ => some t
  | .section s _ _ => some s.line
  | entry e _ _ => some e.line

end Item

theorem iniLines_folded {line : Text} (f : Folded line) (hne : line ≠ []) (htrimmed : Trimmed line)
    (ls : List Text) : iniLines (f.rows ++ ls) = line :: iniLines ls := by
  have hline := getIniLine_folded f hne htrimmed ls
  rw [iniLines, dif_pos (by rw [hline]; simpa using hne), hline]

/-- The lines that are given to the parser are those of the items. -/
theorem iniLines_items (items : List Item) :
    iniLines (items.flatMap Item.rows) = items.filterMap Item.line? := by
  induction items with
  | nil =>
      rw [List.flatMap_nil, iniLines, dif_neg (by simp [getIniLine, joinLines, eraseBack])]
      rfl
  | cons item items ih =>
      rw [List.flatMap_cons]
      cases item with
      | blank b hb =>
          have hsame := getIniLine_blank hb (items.flatMap Item.rows)
          rw [Item.rows, List.singleton_append, iniLines.eq_def, hsame, ← iniLines.eq_def, ih]
          rfl
      | comment t _ hne ht f =>
          rw [Item.rows, iniLines_folded f hne ht, ih]
          rfl
      | «section» s ht f =>
          rw [Item.rows, iniLines_folded f (by simp [SectionLine.line, SectionLine.head]) ht, ih]
          rfl
      | entry e ht f =>
          rw [Item.rows, iniLines_folded f (by simp [Entry.line]) ht, ih]
          rfl

/-! ### Rows -/

/-- What the line stream reads of a file, however the file comes in pieces. -/
theorem reads_rows {ls : List (Text × Text)} (hlines : ∀ l ∈ ls, InLine l.1)
    (hends : EndedRows ls) {feed : List Text}
    (hpieces : ∀ p ∈ feed, p ≠ []) (hfeed : feed.flatten = (ls.map fun p => p.1 ++ p.2).flatten)
    {lpBuffer : Text} (hfits : ∀ p ∈ ls, p.1.length + p.2.length < lpBuffer.length) :
    Stream.ReadLineStream.Reads (.create feed lpBuffer) ls := by
  have hcut : Support.cutLines feed.flatten = ls := by
    rw [hfeed]
    exact cutLines_ended hends (List.forall_mem_map.mpr hlines)
  have hholds : (Stream.ReadLineStream.create feed lpBuffer).Holds [] :=
    ⟨Nat.le_refl 0, Nat.zero_le _, List.drop_eq_nil_of_le (List.length_take_le 0 _), hpieces⟩
  refine Stream.ReadLineStream.reads_of_ahead (.inr ⟨rfl, [], hholds, ?_⟩) hfits
  exact hcut

end Edm.System
