import Mathlib.Data.List.Induction
import Edm.Faceside.TaskInf

/-!
# Faceside — TaskSections

A task file that is a sequence of sections.  A section is read whole, whatever its lines look like
(`readSection_lines`), so reading the file is going from section to section (`fileGetTaskinf_text`).

A string is overwritten and a text is continued, but nothing ever takes a flag back: the file is
read as it is written if and only if each flag that some section sets is set by the last section
for it (`readAsWritten_iff`).
-/

namespace Edm.Faceside
open Support LineStream

/-! ### Sections -/

def StringTag.opening : StringTag → Text
  | .id => "<$ID>".toList
  | .helo => "<$HELO>".toList
  | .pipe => "<$PIPE>".toList
  | .subject => "<$SUBJECT>".toList
  | .sender => "<$SENDER>".toList
  | .nickname => "<$NICKNAME>".toList
  | .sms => "<$SMS>".toList
  | .test => "<$TEST>".toList
  | .replier => "<$REPLIER>".toList
  | .robot => "<$ROBOT>".toList
  | .appendixname => "<$APPENDIXNAME>".toList

def FlagTag.opening : FlagTag → Text
  | .ad => "<$AD>".toList
  | .isradom => "<$ISRADOM>".toList
  | .rand => "<$RAND>".toList
  | .samefrom => "<$SAMEFROM>".toList

def TextTag.opening : TextTag → Text
  | .appendix => "<$APPENDIX>".toList
  | .modulaText => "<$MODULA_TEXT>".toList
  | .modulaQvga => "<$MODULA_QVGA>".toList
  | .modula => "<$MODULA>".toList

/-- A line with a tag, in any case and with blanks around it. -/
structure TagLine (tag : Text) where
  text : Text
  line : '\n' ∉ text
  tag : strcasecmpEq (trimStr text) tag = true

/-- The closing tag of an opening tag. -/
def closing (tag : Text) : Text := '<' :: '/' :: tag.drop 1

/-- A section of one value, or of lines. -/
inductive TaskSection where
  | string (t : StringTag) (first : TagLine t.opening) (value : Text) (hvalue : '\n' ∉ value)
      (last : TagLine (closing t.opening))
  | flag (t : FlagTag) (first : TagLine t.opening) (value : Text) (hvalue : '\n' ∉ value)
      (last : TagLine (closing t.opening))
  | text (t : TextTag) (first : TagLine t.opening) (lines : List Text)
      (hlines : ∀ l ∈ lines, '\n' ∉ l ∧ strncasecmpEq l (closing t.opening) = false)
      (last : Text) (hline : '\n' ∉ last) (hlast : strncasecmpEq last (closing t.opening) = true)

namespace TaskSection

def lines : TaskSection → List Text
  | string _ first value _ last => [first.text, value, last.text]
  | flag _ first value _ last => [first.text, value, last.text]
  | text _ first lines _ last _ _ => first.text :: (lines ++ [last])

/-- The value for a string. -/
def string? (t : StringTag) : TaskSection → Option Text
  | string t' _ value _ _ => if t' = t then some value else none
  | _ => none

/-- The value for a flag. -/
def flag? (t : FlagTag) : TaskSection → Option Text
  | flag t' _ value _ _ => if t' = t then some value else none
  | _ => none

/-- The lines for a text. -/
def text? (t : TextTag) : TaskSection → Option (List Text)
  | text t' _ lines _ _ _ _ => if t' = t then some lines else none
  | _ => none

/-- What reading a section does. -/
def put (task : TaskInf) : TaskSection → TaskInf
  | string t _ value _ _ => task.setString (trimStr value) t
  | flag t _ value _ _ => if isTrue (trimStr value) then task.setFlag t else task
  | text t _ lines _ _ _ _ =>
      task.setText (task.getText t ++ (lines.map (· ++ ['\n'])).flatten) t

end TaskSection

/-- The file with these sections; the last line ends with a LF, or with the file. -/
def fileText (sections : List TaskSection) (lf : Bool) : Text :=
  joinLines (sections.flatMap TaskSection.lines ++ if lf then [[]] else [])

/-! ### Reading sections -/

theorem tagOf_eq {line tag : Text} (h : strcasecmpEq line tag = true) :
    tagOf line = (tags.find? fun t => tolower tag == tolower t.1).map Prod.snd := by
  have heq : tolower (cstr line) = tolower tag := beq_iff_eq.mp h
  rw [tagOf]
  simp only [strcasecmpEq, heq]

theorem tagOf_string {t : StringTag} {line : Text} (h : strcasecmpEq line t.opening = true) :
    tagOf line = some (.string t) := by
  rw [tagOf_eq h]
  cases t <;> decide

theorem tagOf_flag {t : FlagTag} {line : Text} (h : strcasecmpEq line t.opening = true) :
    tagOf line = some (.flag t) := by
  rw [tagOf_eq h]
  cases t <;> decide

theorem tagOf_text {t : TextTag} {line : Text} (h : strcasecmpEq line t.opening = true) :
    tagOf line = some (.text t) := by
  rw [tagOf_eq h]
  cases t <;> decide

theorem closingTag_eq (t : TextTag) : closingTag t = closing t.opening := by
  cases t <;> rfl

namespace Reader

theorem nextLine_ofLines {l : Text} (h : '\n' ∉ l) (ls : List Text) (line : Text)
    (task : TaskInf) : nextLine ⟨ofLines (l :: ls), line, task⟩ = ⟨ofLines ls, l, task⟩ := by
  rw [nextLine, getline_ofLines h]

/-- A text is read up to the line that closes it. -/
theorem readText_lines {t : TextTag} {ls rest : List Text} {last : Text}
    (hls : ∀ l ∈ ls, '\n' ∉ l ∧ strncasecmpEq l (closing t.opening) = false)
    (hline : '\n' ∉ last) (hlast : strncasecmpEq last (closing t.opening) = true)
    (line : Text) (task : TaskInf) :
    readText t ⟨ofLines (ls ++ last :: rest), line, task⟩ = ⟨ofLines rest, last,
      task.setText (task.getText t ++ (ls.map (· ++ ['\n'])).flatten) t⟩ := by
  induction ls generalizing line task with
  | nil =>
      have hself : task.setText (task.getText t ++ []) t = task := by
        rw [List.append_nil]
        cases t <;> rfl
      rw [List.nil_append, readText, dif_neg (by simp), nextLine_ofLines hline]
      simp only [closingTag_eq, hlast, if_true, List.map_nil, List.flatten_nil, hself]
  | cons l ls ih =>
      obtain ⟨⟨hl, hopen⟩, hls⟩ := List.forall_mem_cons.mp hls
      have hset : ∀ a b : Text, ((task.setText a t).setText b t) = task.setText b t := by
        intro a b
        cases t <;> rfl
      have hget : ∀ a : Text, (task.setText a t).getText t = a := by
        intro a
        cases t <;> rfl
      rw [List.cons_append, readText, dif_neg (by simp), nextLine_ofLines hl]
      simp only [closingTag_eq, hopen, Bool.false_eq_true, if_false]
      rw [ih hls, hget, hset, List.map_cons, List.flatten_cons, List.append_assoc]

/-- A section is read whole. -/
theorem readSection_lines (sec : TaskSection) (rest : List Text) (line : Text) (task : TaskInf) :
    ∃ line', readSection ⟨ofLines (sec.lines ++ rest), line, task⟩ =
      ⟨ofLines rest, line', sec.put task⟩ := by
  cases sec with
  | string t first value hvalue last =>
      refine ⟨last.text, ?_⟩
      rw [readSection, TaskSection.lines, List.cons_append, nextLine_ofLines first.line]
      dsimp only
      rw [tagOf_string first.tag, readTag, readString, List.cons_append, getline_ofLines hvalue]
      dsimp only
      rw [List.cons_append, nextLine_ofLines last.line]
      rfl
  | flag t first value hvalue last =>
      refine ⟨last.text, ?_⟩
      rw [readSection, TaskSection.lines, List.cons_append, nextLine_ofLines first.line]
      dsimp only
      rw [tagOf_flag first.tag, readTag, readFlag, List.cons_append, nextLine_ofLines hvalue]
      dsimp only
      rw [List.cons_append, nextLine_ofLines last.line]
      rfl
  | text t first lines hlines last hline hlast =>
      refine ⟨last, ?_⟩
      rw [readSection, TaskSection.lines, List.cons_append, nextLine_ofLines first.line]
      dsimp only
      rw [tagOf_text first.tag, readTag, List.append_assoc, List.singleton_append,
        readText_lines hlines hline hlast]
      rfl

/-- Sections are read one after the other. -/
theorem readAll_sections (secs : List TaskSection) (rest : List Text) (line : Text)
    (task : TaskInf) : ∃ line',
      readAll ⟨ofLines (secs.flatMap TaskSection.lines ++ rest), line, task⟩ =
        readAll ⟨ofLines rest, line', secs.foldl TaskSection.put task⟩ := by
  induction secs generalizing line task with
  | nil => exact ⟨line, rfl⟩
  | cons sec secs ih =>
      obtain ⟨line', hsection⟩ := readSection_lines sec
        (secs.flatMap TaskSection.lines ++ rest) line task
      obtain ⟨line'', hrest⟩ := ih line' (sec.put task)
      refine ⟨line'', ?_⟩
      have heof : ¬ (ofLines ((sec :: secs).flatMap TaskSection.lines ++ rest)).eof = true := by
        cases sec <;> simp [TaskSection.lines]
      rw [readAll, dif_neg heof, List.flatMap_cons, List.append_assoc, hsection, hrest]
      rfl

theorem readAll_ended (line : Text) (task : TaskInf) : readAll ⟨ended, line, task⟩ = task := by
  rw [readAll]
  exact dif_pos rfl

/-- Behind the LF of the last line there is an empty line. -/
theorem readAll_empty (line : Text) (task : TaskInf) :
    readAll ⟨ofLines [[]], line, task⟩ = task := by
  have hline : readSection ⟨ofLines [[]], line, task⟩ = ⟨ended, [], task⟩ := by
    have hnone : tagOf (trimStr []) = none := by decide
    rw [readSection, nextLine_ofLines (by simp), hnone]
    rfl
  rw [readAll, dif_neg (by simp), hline, readAll_ended]

end Reader

/-- The file is read section by section. -/
theorem fileGetTaskinf_text (secs : List TaskSection) (lf : Bool) (task : TaskInf) :
    fileGetTaskinf (fileText secs lf) task = secs.foldl TaskSection.put task.start := by
  rw [fileGetTaskinf, fileText]
  cases lf with
  | true =>
      obtain ⟨line', hall⟩ := Reader.readAll_sections secs [[]] [] task.start
      have hof : of (joinLines (secs.flatMap TaskSection.lines ++ [[]])) =
          ofLines (secs.flatMap TaskSection.lines ++ [[]]) := by
        cases secs.flatMap TaskSection.lines <;> rfl
      rw [if_pos rfl, hof, hall, Reader.readAll_empty]
  | false =>
      rw [if_neg (by decide), List.append_nil]
      cases secs with
      | nil => exact Reader.readAll_empty [] task.start
      | cons sec secs =>
          obtain ⟨line', hall⟩ := Reader.readAll_sections (sec :: secs) [] [] task.start
          have hof : of (joinLines ((sec :: secs).flatMap TaskSection.lines)) =
              ofLines ((sec :: secs).flatMap TaskSection.lines ++ []) := by
            cases sec <;> simp [TaskSection.lines, ofLines]
          rw [hof, hall]
          exact Reader.readAll_ended line' _

/-! ### What is stored -/

@[simp] theorem TaskInf.getString_setString (task : TaskInf) (v : Text) (t t' : StringTag) :
    (task.setString v t).getString t' = if t = t' then v else task.getString t' := by
  cases t <;> cases t' <;> rfl

@[simp] theorem TaskInf.getString_setFlag (task : TaskInf) (t : FlagTag) (t' : StringTag) :
    (task.setFlag t).getString t' = task.getString t' := by
  cases t <;> cases t' <;> rfl

@[simp] theorem TaskInf.getString_setText (task : TaskInf) (v : Text) (t : TextTag)
    (t' : StringTag) : (task.setText v t).getString t' = task.getString t' := by
  cases t <;> cases t' <;> rfl

@[simp] theorem TaskInf.getFlag_setString (task : TaskInf) (v : Text) (t : StringTag)
    (t' : FlagTag) : (task.setString v t).getFlag t' = task.getFlag t' := by
  cases t <;> cases t' <;> rfl

@[simp] theorem TaskInf.getFlag_setFlag (task : TaskInf) (t t' : FlagTag) :
    (task.setFlag t).getFlag t' = if t = t' then true else task.getFlag t' := by
  cases t <;> cases t' <;> rfl

@[simp] theorem TaskInf.getFlag_setText (task : TaskInf) (v : Text) (t : TextTag) (t' : FlagTag) :
    (task.setText v t).getFlag t' = task.getFlag t' := by
  cases t <;> cases t' <;> rfl

@[simp] theorem TaskInf.getText_setString (task : TaskInf) (v : Text) (t : StringTag)
    (t' : TextTag) : (task.setString v t).getText t' = task.getText t' := by
  cases t <;> cases t' <;> rfl

@[simp] theorem TaskInf.getText_setFlag (task : TaskInf) (t : FlagTag) (t' : TextTag) :
    (task.setFlag t).getText t' = task.getText t' := by
  cases t <;> cases t' <;> rfl

@[simp] theorem TaskInf.getText_setText (task : TaskInf) (v : Text) (t t' : TextTag) :
    (task.setText v t).getText t' = if t = t' then v else task.getText t' := by
  cases t <;> cases t' <;> rfl

namespace TaskSection

/-- A string is that of the last section for it. -/
theorem getString_foldl (t : StringTag) (secs : List TaskSection) (task : TaskInf) :
    (secs.foldl put task).getString t =
      ((secs.filterMap (string? t)).getLast?.map trimStr).getD (task.getString t) := by
  induction secs using List.reverseRecOn with
  | nil => rfl
  | append_singleton secs sec ih =>
      rw [List.foldl_concat, List.filterMap_append]
      cases sec with
      | string t' first value hvalue last =>
          by_cases ht : t' = t
          · simp [put, string?, ht]
          · simp [put, string?, ht, ih]
      | flag t' first value hvalue last =>
          rw [put]
          split <;> simp [string?, ih]
      | text t' first lines hlines last hline hlast => simp [put, string?, ih]

/-- A flag is set as soon as one section sets it. -/
theorem getFlag_foldl (t : FlagTag) (secs : List TaskSection) (task : TaskInf) :
    (secs.foldl put task).getFlag t =
      (task.getFlag t || (secs.filterMap (flag? t)).any fun v => isTrue (trimStr v)) := by
  induction secs using List.reverseRecOn with
  | nil => simp
  | append_singleton secs sec ih =>
      rw [List.foldl_concat, List.filterMap_append]
      cases sec with
      | string t' first value hvalue last => simp [put, flag?, ih]
      | flag t' first value hvalue last =>
          by_cases ht : t' = t
          · by_cases hv : isTrue (trimStr value) = true
            · simp [put, flag?, ht, hv]
            · simp [put, flag?, ht, hv, ih]
          · by_cases hv : isTrue (trimStr value) = true
            · simp [put, flag?, ht, hv, ih]
            · simp [put, flag?, ht, hv, ih]
      | text t' first lines hlines last hline hlast => simp [put, flag?, ih]

/-- A text goes on in every section for it. -/
theorem getText_foldl (t : TextTag) (secs : List TaskSection) (task : TaskInf) :
    (secs.foldl put task).getText t = task.getText t ++
      ((secs.filterMap (text? t)).flatten.map (· ++ ['\n'])).flatten := by
  induction secs using List.reverseRecOn with
  | nil => simp
  | append_singleton secs sec ih =>
      rw [List.foldl_concat, List.filterMap_append]
      cases sec with
      | string t' first value hvalue last => simp [put, text?, ih]
      | flag t' first value hvalue last =>
          rw [put]
          split <;> simp [text?, ih]
      | text t' first lines hlines last hline hlast =>
          by_cases ht : t' = t
          · simp [put, text?, ht, ih]
          · simp [put, text?, ht, ih]

end TaskSection

/-! ### What the file says -/

/-- The task is what the sections say: the value of the last section for a string or a flag, the
lines of all sections for a text. -/
structure ReadAsWritten (secs : List TaskSection) (task : TaskInf) : Prop where
  strings : ∀ t, task.getString t = ((secs.filterMap (TaskSection.string? t)).getLast?.map
    trimStr).getD (TaskInf.new.start.getString t)
  flags : ∀ t, task.getFlag t = ((secs.filterMap (TaskSection.flag? t)).getLast?.map
    fun v => isTrue (trimStr v)).getD false
  texts : ∀ t, task.getText t =
    ((secs.filterMap (TaskSection.text? t)).flatten.map (· ++ ['\n'])).flatten

/-- A flag that some section sets is set by the last section for it. -/
def FlagsStay (secs : List TaskSection) : Prop :=
  ∀ t, ∀ v ∈ secs.filterMap (TaskSection.flag? t), isTrue (trimStr v) = true →
    ∀ last ∈ (secs.filterMap (TaskSection.flag? t)).getLast?, isTrue (trimStr last) = true

/-- Whether one is true is whether the last one is, if no last one takes it back. -/
theorem any_eq_getLast {α : Type*} (p : α → Bool) (l : List α) :
    l.any p = (l.getLast?.map p).getD false ↔
      ∀ v ∈ l, p v = true → ∀ last ∈ l.getLast?, p last = true := by
  induction l using List.reverseRecOn with
  | nil => simp
  | append_singleton l a ih =>
      rw [List.getLast?_concat]
      cases ha : p a with
      | true => simp [ha]
      | false => simp [ha, or_imp, forall_and]

/-- A task file is read as it is written if and only if no flag is to be taken back. -/
theorem readAsWritten_iff (secs : List TaskSection) (lf : Bool) :
    ReadAsWritten secs (fileGetTaskinf (fileText secs lf) .new) ↔ FlagsStay secs := by
  rw [fileGetTaskinf_text]
  constructor
  · intro h t
    have hflag := h.flags t
    rw [TaskSection.getFlag_foldl] at hflag
    have hstart : TaskInf.new.start.getFlag t = false := by cases t <;> rfl
    rw [hstart, Bool.false_or] at hflag
    exact (any_eq_getLast _ _).mp hflag
  · intro h
    refine ⟨fun t => TaskSection.getString_foldl t secs _, fun t => ?_, fun t => ?_⟩
    · have hstart : TaskInf.new.start.getFlag t = false := by cases t <;> rfl
      rw [TaskSection.getFlag_foldl, hstart, Bool.false_or]
      exact (any_eq_getLast _ _).mpr (h t)
    · have hstart : TaskInf.new.start.getText t = [] := by cases t <;> rfl
      rw [TaskSection.getText_foldl, hstart, List.nil_append]

/-- An `AD` section with this value. -/
def adSection (value : Text) (hvalue : '\n' ∉ value) : TaskSection :=
  .flag .ad ⟨"<$AD>".toList, by decide, by decide⟩ value hvalue
    ⟨"</$AD>".toList, by decide, by decide⟩

/-- After `true` and `false` a task is still an advertisement. -/
theorem not_readAsWritten_ad :
    ¬ ReadAsWritten [adSection "true".toList (by decide), adSection "false".toList (by decide)]
      (fileGetTaskinf "<$AD>\ntrue\n</$AD>\n<$AD>\nfalse\n</$AD>\n".toList .new) := by
  intro h
  have hflag := h.flags .ad
  have htext : "<$AD>\ntrue\n</$AD>\n<$AD>\nfalse\n</$AD>\n".toList =
      fileText [adSection "true".toList (by decide), adSection "false".toList (by decide)]
        true := by
    decide
  rw [htext, fileGetTaskinf_text, TaskSection.getFlag_foldl] at hflag
  revert hflag
  decide

end Edm.Faceside
