import Edm.Faceside.TaskSections
import Edm.Support.Bytes

/-!
# Faceside — TaskRead

What the task of a file is like, whatever bytes the file has (`plain_fileGetTaskinf`): its single
values and those of the mail list have no LF, its texts are bytes, and what stands in the mail list
are C strings, the names with `$` around them.
-/

namespace Edm.Faceside
open Support

/-- A task as it is read from a file. -/
structure TaskInf.Plain (task : TaskInf) : Prop where
  string : ∀ t, '\n' ∉ task.getString t
  text : ∀ t, IsBytes (task.getText t)
  name : ∀ name ∈ task.maillist.name, name ≠ [] ∧ nul ∉ name
  value : ∀ value ∈ task.maillist.value, '\n' ∉ value ∧ nul ∉ value ∧ IsBytes value

namespace TaskInf.Plain

variable {task : TaskInf}

theorem setString (h : task.Plain) {v : Text} (hv : '\n' ∉ v) (t : StringTag) :
    (task.setString v t).Plain where
  string t' := by
    rw [getString_setString]
    split
    next => exact hv
    next => exact h.string t'
  text t' := by
    rw [getText_setString]
    exact h.text t'
  name := by cases t <;> exact h.name
  value := by cases t <;> exact h.value

theorem setFlag (h : task.Plain) (t : FlagTag) : (task.setFlag t).Plain where
  string t' := by
    rw [getString_setFlag]
    exact h.string t'
  text t' := by
    rw [getText_setFlag]
    exact h.text t'
  name := by cases t <;> exact h.name
  value := by cases t <;> exact h.value

theorem setText (h : task.Plain) {v : Text} (hv : IsBytes v) (t : TextTag) :
    (task.setText v t).Plain where
  string t' := by
    rw [getString_setText]
    exact h.string t'
  text t' := by
    rw [getText_setText]
    split
    next => exact hv
    next => exact h.text t'
  name := by cases t <;> exact h.name
  value := by cases t <;> exact h.value

end TaskInf.Plain

/-! ### What is cut out of a line -/

theorem mem_of_mem_trimStr {s : Text} {c : Char} (h : c ∈ trimStr s) : c ∈ s :=
  (List.dropWhile_suffix _).subset (mem_of_mem_eraseBack h)

theorem Reader.mem_of_mem_dwSplit {s v : Text} (h : v ∈ dwSplit s) {c : Char} (hc : c ∈ v) :
    c ∈ cstr s := mem_of_mem_splitOn h hc

/-- The names and the values of a mail list. -/
theorem TaskInf.Plain.addMailList {task : TaskInf} (h : task.Plain) (names : Text) {values : Text}
    (hlf : '\n' ∉ values) (hbytes : IsBytes values) : ({ task with maillist :=
      ⟨(task.maillist.name ++ Reader.dwSplit names).map fun name => '$' :: (name ++ ['$']),
        task.maillist.value ++ Reader.dwSplit values⟩ } : TaskInf).Plain := by
  refine ⟨h.string, h.text, ?_, ?_⟩
  · intro name hname
    obtain ⟨x, hx, rfl⟩ := List.mem_map.mp hname
    have hnul : nul ∉ x := by
      obtain hx | hx := List.mem_append.mp hx
      · exact (h.name x hx).2
      · exact fun hc => nul_not_mem_cstr _ (Reader.mem_of_mem_dwSplit hx hc)
    exact ⟨List.cons_ne_nil _ _, by simpa [nul] using hnul⟩
  · intro value hvalue
    obtain hvalue | hvalue := List.mem_append.mp hvalue
    · exact h.value value hvalue
    · have hmem : ∀ c ∈ value, c ∈ values := fun c hc =>
        (List.takeWhile_prefix _).subset (Reader.mem_of_mem_dwSplit hvalue hc)
      exact ⟨fun hc => hlf (hmem _ hc),
        fun hc => nul_not_mem_cstr _ (Reader.mem_of_mem_dwSplit hvalue hc),
        fun c hc => hbytes c (hmem c hc)⟩

/-! ### Reading -/

namespace Reader

/-- What is left of the file and the line are bytes, and the task is plain. -/
structure Holds (s : Reader) : Prop where
  rest : IsBytes s.fs.rest
  line : IsBytes s.line
  task : s.task.Plain

variable {s : Reader}

theorem Holds.nextLine (h : s.Holds) : s.nextLine.Holds :=
  have hread := LineStream.getline_forall h.rest h.line
  ⟨hread.2, hread.1, h.task⟩

theorem lf_not_mem_nextLine (h : s.fs.eof = true → '\n' ∉ s.line) : '\n' ∉ s.nextLine.line :=
  LineStream.lf_not_mem_getline h

theorem Holds.trim (h : s.Holds) : ({ s with line := trimStr s.line } : Reader).Holds :=
  ⟨h.rest, fun c hc => h.line c (mem_of_mem_trimStr hc), h.task⟩

theorem Holds.withTask (h : s.Holds) {task : TaskInf} (htask : task.Plain) :
    ({ s with task := task } : Reader).Holds := ⟨h.rest, h.line, htask⟩

theorem Holds.readString (h : s.Holds) (t : StringTag) : (s.readString t).Holds := by
  have hvalue : '\n' ∉ trimStr (s.fs.getline (s.task.getString t)).1 := fun hc =>
    LineStream.lf_not_mem_getline (fun _ => h.task.string t) (mem_of_mem_trimStr hc)
  -- What is read into the string need not be bytes, and what is left of the file is.
  have hread : ({ s with fs := (s.fs.getline (s.task.getString t)).2 } : Reader).Holds := by
    refine ⟨?_, h.line, h.task⟩
    have hrest : (s.fs.getline (s.task.getString t)).2 = (s.fs.getline s.line).2 := by
      rw [LineStream.getline, LineStream.getline]
      split
      next => rfl
      next => split <;> rfl
    rw [hrest]
    exact h.nextLine.rest
  exact hread.nextLine.withTask (h.task.setString hvalue t)

theorem Holds.readFlag (h : s.Holds) (t : FlagTag) : (s.readFlag t).Holds := by
  have hflag : (if isTrue (trimStr s.nextLine.line) then s.nextLine.task.setFlag t
      else s.nextLine.task).Plain := by
    split
    next => exact h.task.setFlag t
    next => exact h.task
  exact (h.nextLine.trim.withTask hflag).nextLine

theorem Holds.readText (h : s.Holds) (t : TextTag) : (s.readText t).Holds := by
  induction s using readText.induct t with
  | case1 s heof =>
      rw [Reader.readText, dif_pos heof]
      exact h
  | case2 s heof s' hclose =>
      rw [Reader.readText, dif_neg heof]
      exact if_pos hclose ▸ h.nextLine
  | case3 s heof s' hclose line ih =>
      have hline : IsBytes line := by
        intro c hc
        obtain hc | hc := List.mem_append.mp hc
        · exact h.nextLine.line c hc
        · rw [List.mem_singleton.mp hc]
          decide
      have htext : IsBytes (s'.task.getText t ++ line) := by
        intro c hc
        exact (List.mem_append.mp hc).elim (h.nextLine.task.text t c) (hline c)
      rw [Reader.readText, dif_neg heof]
      exact if_neg hclose ▸ ih ⟨h.nextLine.rest, hline, h.nextLine.task.setText htext t⟩

theorem Holds.skipMailList (h : s.Holds) : s.skipMailList.Holds := by
  induction s using skipMailList.induct with
  | case1 s heof =>
      rw [Reader.skipMailList, dif_pos heof]
      exact h
  | case2 s heof s' line hclose =>
      rw [Reader.skipMailList, dif_neg heof]
      exact if_pos hclose ▸ ⟨h.nextLine.rest,
        fun c hc => h.nextLine.line c ((List.dropWhile_suffix _).subset hc), h.nextLine.task⟩
  | case3 s heof s' line hclose ih =>
      rw [Reader.skipMailList, dif_neg heof]
      exact if_neg hclose ▸ ih ⟨h.nextLine.rest,
        fun c hc => h.nextLine.line c ((List.dropWhile_suffix _).subset hc), h.nextLine.task⟩

theorem Holds.readMailList (h : s.Holds) (hlf : '\n' ∉ s.line) : s.readMailList.Holds := by
  have hnames : ({ s.nextLine with line := trimStr s.nextLine.line } : Reader).Holds :=
    h.nextLine.trim
  have hvalues : '\n' ∉ trimStr
      (Reader.nextLine { s.nextLine with line := trimStr s.nextLine.line }).line := by
    intro hc
    refine lf_not_mem_nextLine (fun _ hline => ?_) (mem_of_mem_trimStr hc)
    exact lf_not_mem_nextLine (fun _ => hlf) (mem_of_mem_trimStr hline)
  have htask := hnames.nextLine.task.addMailList (trimStr s.nextLine.line) hvalues
    fun c hc => hnames.nextLine.line c (mem_of_mem_trimStr hc)
  exact (hnames.nextLine.trim.withTask htask).skipMailList

theorem Holds.readTag (h : s.Holds) (hlf : '\n' ∉ s.line) : ∀ t : Option Tag, (s.readTag t).Holds
  | some (.string t) => h.readString t
  | some (.flag t) => h.readFlag t
  | some (.text t) => h.readText t
  | some .isradomTrue => by
      have htask : ({ s.task with isradom := true } : TaskInf).Plain := h.task.setFlag .isradom
      exact (h.withTask htask).nextLine
  | some .mailList => h.readMailList hlf
  | none => h

theorem Holds.readSection (h : s.Holds) (heof : s.fs.eof = false) : s.readSection.Holds := by
  have hlf : '\n' ∉ s.nextLine.line := lf_not_mem_nextLine fun hc => by rw [heof] at hc; cases hc
  exact h.nextLine.trim.readTag (fun hc => hlf (mem_of_mem_trimStr hc)) _

theorem Holds.readAll (h : s.Holds) : s.readAll.Plain := by
  induction s using readAll.induct with
  | case1 s heof =>
      rw [Reader.readAll, dif_pos heof]
      exact h.task
  | case2 s heof ih =>
      rw [Reader.readAll, dif_neg heof]
      exact ih (h.readSection (eq_false_of_ne_true heof))

end Reader

/-- Whatever bytes a file has, its task is plain. -/
theorem plain_fileGetTaskinf {content : Text} (h : IsBytes content) :
    (fileGetTaskinf content .new).Plain := by
  have hstring : ∀ t, '\n' ∉ TaskInf.new.start.getString t := by
    intro t
    cases t <;> decide
  have htext : ∀ t, IsBytes (TaskInf.new.start.getText t) := by
    intro t
    cases t <;> exact nofun
  exact Reader.Holds.readAll ⟨h, nofun, hstring, htext, nofun, nofun⟩

/-- A task with an id, a sender, a template and a mail list. -/
def letterFile : Text :=
  "<$ID>\n1\n</$ID>\n<$SENDER>\na@b.cn\n</$SENDER>\n".toList ++
    "<$MODULA>\n<p>$name$</p>\n</$MODULA>\n".toList ++
    "<$MAILLIST>\nmail,name\nann@b.cn,Ann\n</$MAILLIST>\n".toList

theorem plain_fileGetTaskinf_letterFile : (fileGetTaskinf letterFile .new).Plain :=
  plain_fileGetTaskinf (by decide +kernel)

end Edm.Faceside
