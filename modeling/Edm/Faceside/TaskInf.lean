import Edm.Support.Getline

/-!
# Faceside — TaskInf

`file_get_taskinf`: a task file, read line by line.  A line that is an opening tag is followed by
the lines of its section: one line and a closing line for a single value, which are read whatever
they are, or lines up to one that begins with the closing tag.

Each turn of the loop reads a line of a file that has not ended, so the loop ends
(`readSection_lt`).
-/

namespace Edm.Faceside
open Support

/-! ### The task -/

/-- `mail_args_t`. -/
structure MailArgs where
  name : List Text
  value : List Text
  deriving DecidableEq

/-- `taskinf_t`. -/
structure TaskInf where
  ad : Bool
  isradom : Bool
  rand : Bool
  samefrom : Bool
  id : Text
  helo : Text
  pipe : Text
  subject : Text
  sender : Text
  nickname : Text
  smstype : Text
  istest : Text
  replier : Text
  robot : Text
  appendixname : Text
  appendixtext : Text
  modula : Text
  modula_text : Text
  modula_qvga : Text
  maillist : MailArgs
  deriving DecidableEq

/-- `taskinf_t task;` -/
def TaskInf.new : TaskInf where
  ad := false
  isradom := false
  rand := false
  samefrom := false
  id := []
  helo := []
  pipe := []
  subject := []
  sender := []
  nickname := []
  smstype := []
  istest := []
  replier := []
  robot := []
  appendixname := []
  appendixtext := []
  modula := []
  modula_text := []
  modula_qvga := []
  maillist := ⟨[], []⟩

/-- The sections with one value. -/
inductive StringTag where
  | id | helo | pipe | subject | sender | nickname | sms | test | replier | robot | appendixname
  deriving DecidableEq

/-- The sections with `true` or not. -/
inductive FlagTag where
  | ad | isradom | rand | samefrom
  deriving DecidableEq

/-- The sections with lines. -/
inductive TextTag where
  | appendix | modulaText | modulaQvga | modula
  deriving DecidableEq

namespace TaskInf

def getString (task : TaskInf) : StringTag → Text
  | .id => task.id
  | .helo => task.helo
  | .pipe => task.pipe
  | .subject => task.subject
  | .sender => task.sender
  | .nickname => task.nickname
  | .sms => task.smstype
  | .test => task.istest
  | .replier => task.replier
  | .robot => task.robot
  | .appendixname => task.appendixname

def setString (task : TaskInf) (v : Text) : StringTag → TaskInf
  | .id => { task with id := v }
  | .helo => { task with helo := v }
  | .pipe => { task with pipe := v }
  | .subject => { task with subject := v }
  | .sender => { task with sender := v }
  | .nickname => { task with nickname := v }
  | .sms => { task with smstype := v }
  | .test => { task with istest := v }
  | .replier => { task with replier := v }
  | .robot => { task with robot := v }
  | .appendixname => { task with appendixname := v }

def getFlag (task : TaskInf) : FlagTag → Bool
  | .ad => task.ad
  | .isradom => task.isradom
  | .rand => task.rand
  | .samefrom => task.samefrom

def setFlag (task : TaskInf) : FlagTag → TaskInf
  | .ad => { task with ad := true }
  | .isradom => { task with isradom := true }
  | .rand => { task with rand := true }
  | .samefrom => { task with samefrom := true }

def getText (task : TaskInf) : TextTag → Text
  | .appendix => task.appendixtext
  | .modulaText => task.modula_text
  | .modulaQvga => task.modula_qvga
  | .modula => task.modula

def setText (task : TaskInf) (v : Text) : TextTag → TaskInf
  | .appendix => { task with appendixtext := v }
  | .modulaText => { task with modula_text := v }
  | .modulaQvga => { task with modula_qvga := v }
  | .modula => { task with modula := v }

end TaskInf

/-! ### Tags -/

/-- What a line opens. -/
inductive Tag where
  | string (t : StringTag)
  | flag (t : FlagTag)
  | text (t : TextTag)
  | isradomTrue
  | mailList
  deriving DecidableEq

/-- The comparisons of the loop, in their order. -/
def tags : List (Text × Tag) :=
  [("<$ID>".toList, .string .id), ("<$AD>".toList, .flag .ad), ("<$HELO>".toList, .string .helo),
    ("<$ISRADOM>true".toList, .isradomTrue), ("<$ISRADOM>".toList, .flag .isradom),
    ("<$RAND>".toList, .flag .rand), ("<$SAMEFROM>".toList, .flag .samefrom),
    ("<$PIPE>".toList, .string .pipe), ("<$SUBJECT>".toList, .string .subject),
    ("<$SENDER>".toList, .string .sender), ("<$NICKNAME>".toList, .string .nickname),
    ("<$SMS>".toList, .string .sms), ("<$TEST>".toList, .string .test),
    ("<$REPLIER>".toList, .string .replier), ("<$ROBOT>".toList, .string .robot),
    ("<$APPENDIXNAME>".toList, .string .appendixname), ("<$APPENDIX>".toList, .text .appendix),
    ("<$MODULA_TEXT>".toList, .text .modulaText), ("<$MODULA_QVGA>".toList, .text .modulaQvga),
    ("<$MODULA>".toList, .text .modula), ("<$MAILLIST>".toList, .mailList)]

/-- What the trimmed line opens. -/
def tagOf (line : Text) : Option Tag :=
  (tags.find? fun t => strcasecmpEq line t.1).map Prod.snd

/-- The closing tags that end a section of lines. -/
def closingTag : TextTag → Text
  | .appendix => "</$APPENDIX>".toList
  | .modulaText => "</$MODULA_TEXT>".toList
  | .modulaQvga => "</$MODULA_QVGA>".toList
  | .modula => "</$MODULA>".toList

/-- `FILTER_STR`. -/
def filterStr : Text := "\t \r\n".toList

/-- `TRIMSTR(s, FILTER_STR)`. -/
def trimStr (s : Text) : Text := eraseBack filterStr (eraseFront filterStr s)

/-- `strcasecmp(line, "true") == 0`. -/
def isTrue (line : Text) : Bool := strcasecmpEq line "true".toList

/-! ### Reading -/

/-- The file, the string `line`, and the task. -/
structure Reader where
  fs : LineStream
  line : Text
  task : TaskInf

namespace Reader

/-- `getline(fs, line, '\n')`. -/
def nextLine (s : Reader) : Reader :=
  { s with fs := (s.fs.getline s.line).2, line := (s.fs.getline s.line).1 }

theorem nextLine_lt {s : Reader} (h : s.fs.eof = false) : s.nextLine.fs.left < s.fs.left :=
  LineStream.getline_lt h s.line

theorem nextLine_le (s : Reader) : s.nextLine.fs.left ≤ s.fs.left := s.fs.getline_le s.line

/-- A section with one value. -/
def readString (t : StringTag) (s : Reader) : Reader :=
  let value := s.fs.getline (s.task.getString t)
  let s := { s with fs := value.2 }.nextLine
  { s with task := s.task.setString (trimStr value.1) t }

/-- A section with `true` or not. -/
def readFlag (t : FlagTag) (s : Reader) : Reader :=
  let s := s.nextLine
  let task := if isTrue (trimStr s.line) then s.task.setFlag t else s.task
  { s with line := trimStr s.line, task := task }.nextLine

/-- A section with lines. -/
def readText (t : TextTag) (s : Reader) : Reader :=
  if _h : s.fs.eof = true then s
  else
    let s' := s.nextLine
    if strncasecmpEq s'.line (closingTag t) then s'
    else
      let line := s'.line ++ ['\n']
      readText t { s' with line := line, task := s'.task.setText (s'.task.getText t ++ line) t }
  termination_by s.fs.left
  decreasing_by exact nextLine_lt (eq_false_of_ne_true _h)

/-- The lines behind the values of a mail list. -/
def skipMailList (s : Reader) : Reader :=
  if _h : s.fs.eof = true then s
  else
    let s' := s.nextLine
    let line := eraseFront filterStr s'.line
    if strncasecmpEq line "</$MAILLIST>".toList then { s' with line := line }
    else skipMailList { s' with line := line }
  termination_by s.fs.left
  decreasing_by exact nextLine_lt (eq_false_of_ne_true _h)

/-- `dw_split(line.c_str(), ',', …)`. -/
def dwSplit (line : Text) : List Text := (cstr line).splitOn ','

/-- The names and the values of a mail list. -/
def readMailList (s : Reader) : Reader :=
  let s := s.nextLine
  let names := (s.task.maillist.name ++ dwSplit (trimStr s.line)).map fun name =>
    '$' :: (name ++ ['$'])
  let s := { s with line := trimStr s.line }.nextLine
  let values := s.task.maillist.value ++ dwSplit (trimStr s.line)
  let task := { s.task with maillist := ⟨names, values⟩ }
  { s with line := trimStr s.line, task := task }.skipMailList

/-- What a line opens is read. -/
def readTag (s : Reader) : Option Tag → Reader
  | some (.string t) => s.readString t
  | some (.flag t) => s.readFlag t
  | some (.text t) => s.readText t
  | some .isradomTrue => { s with task := { s.task with isradom := true } }.nextLine
  | some .mailList => s.readMailList
  | none => s

/-- One turn of the loop. -/
def readSection (s : Reader) : Reader :=
  let s := s.nextLine
  { s with line := trimStr s.line }.readTag (tagOf (trimStr s.line))

theorem readText_le (t : TextTag) (s : Reader) : (s.readText t).fs.left ≤ s.fs.left := by
  induction s using readText.induct t with
  | case1 s h => rw [readText, dif_pos h]
  | case2 s h s' hclose =>
      rw [readText, dif_neg h]
      exact (if_pos hclose ▸ s.nextLine_le)
  | case3 s h s' hclose line ih =>
      rw [readText, dif_neg h]
      exact (if_neg hclose ▸ Nat.le_trans ih s.nextLine_le)

theorem skipMailList_le (s : Reader) : s.skipMailList.fs.left ≤ s.fs.left := by
  induction s using skipMailList.induct with
  | case1 s h => rw [skipMailList, dif_pos h]
  | case2 s h s' line hclose =>
      rw [skipMailList, dif_neg h]
      exact (if_pos hclose ▸ s.nextLine_le)
  | case3 s h s' line hclose ih =>
      rw [skipMailList, dif_neg h]
      exact (if_neg hclose ▸ Nat.le_trans ih s.nextLine_le)

theorem readString_le (t : StringTag) (s : Reader) : (s.readString t).fs.left ≤ s.fs.left :=
  Nat.le_trans (LineStream.getline_le _ _) (LineStream.getline_le _ _)

theorem readFlag_le (t : FlagTag) (s : Reader) : (s.readFlag t).fs.left ≤ s.fs.left :=
  Nat.le_trans (LineStream.getline_le _ _) s.nextLine_le

theorem readMailList_le (s : Reader) : s.readMailList.fs.left ≤ s.fs.left :=
  Nat.le_trans (skipMailList_le _) (Nat.le_trans (LineStream.getline_le _ _) s.nextLine_le)

theorem readTag_le (s : Reader) : ∀ t : Option Tag, (s.readTag t).fs.left ≤ s.fs.left
  | some (.string t) => s.readString_le t
  | some (.flag t) => s.readFlag_le t
  | some (.text t) => s.readText_le t
  | some .isradomTrue => s.fs.getline_le s.line
  | some .mailList => s.readMailList_le
  | none => Nat.le_refl _

/-- A turn of the loop reads on. -/
theorem readSection_lt {s : Reader} (h : s.fs.eof = false) :
    s.readSection.fs.left < s.fs.left :=
  Nat.lt_of_le_of_lt (readTag_le _ _) (nextLine_lt h)

/-- `while (!fs.eof())`. -/
def readAll (s : Reader) : TaskInf :=
  if _h : s.fs.eof = true then s.task else readAll s.readSection
  termination_by s.fs.left
  decreasing_by exact readSection_lt (eq_false_of_ne_true _h)

end Reader

/-- What is set before the file is read. -/
def TaskInf.start (task : TaskInf) : TaskInf :=
  { task with ad := false, isradom := false, rand := false, samefrom := false, smstype := ['0'] }

/-- `file_get_taskinf`, for the content of the file. -/
def fileGetTaskinf (content : Text) (task : TaskInf) : TaskInf :=
  Reader.readAll ⟨.of content, [], task.start⟩

end Edm.Faceside
