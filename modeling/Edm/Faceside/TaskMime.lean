import Mathlib
import Edm.Faceside.Base64
import Edm.Faceside.Linefeed
import Edm.Faceside.TaskMerge
import Edm.Support.Mime

/-!
# Faceside — TaskMime

What the file of `taskinf_dump` says when it is read as a MIME message: the parts between the lines
of the boundary, and the texts of base 64 decoded (`readMail`).

* `fileOf_eq`: the file is a multipart text, behind the commands and the header, none of whose lines
  begins with a dash (`noDash_preambleOf`).
* **The file of a task is its mail** (`mime_iff`): the merged text, if there is any, the merged
  HTML with its comment, and the appendix.  It is so if the file can be opened, nothing goes wrong
  while it is made, no text is too long for the encoder, and the HTML is not empty; and only then,
  but for texts that are too long.
-/

namespace Edm.Faceside
open Support

/-! ### Reading the mail -/

/-- A text without its line ends. -/
def withoutBreaks (s : Text) : Text := s.filter fun c => ¬ Linefeed.IsBreak c

/-- The type of a part. -/
def contentType (head : List Text) : Text :=
  (((head.find? fun l => "Content-Type: ".toList.isPrefixOf l).getD []).drop 14).takeWhile
    (· != ';')

def attachmentType : Text := "application/octet-stream".toList

/-- The type of a part and its text; an attachment stays in base 64. -/
def readPart (part : MimePart) : Option (Text × Text) :=
  let type := contentType part.head
  let body := withoutBreaks part.body.flatten
  if type = attachmentType then some (type, body)
  else match Base64.dwDecodeBase64 body with
    | .ok (0, text) => some (type, text)
    | _ => none

def mailBoundary : Text := "----=_NextPart".toList

/-- The parts of the mail in a file. -/
def readMail (file : Text) : Option (List (Text × Text)) :=
  (mimeParts mailBoundary file).mapM readPart

/-! ### The mail of a task -/

/-- The parts that the mail of a task should have. -/
def mailOf (env : Env) (task : TaskInf) (rcpt : Text) : List (Text × Text) :=
  (if (mergedOf env task rcpt).modula_text.isEmpty then []
    else [("text/plain".toList, (mergedOf env task rcpt).modula_text)]) ++
  ([("text/html".toList, htmlOf env task rcpt)] ++
  if task.appendixname.isEmpty || task.appendixtext.isEmpty then []
  else [(attachmentType, withoutBreaks task.appendixtext)])

/-- The file of a task is its mail. -/
def Means (env : Env) (task : TaskInf) : Prop :=
  ∃ value ∈ task.maillist.value.head?, ∃ file, taskinfDump env task = .ok (some file) ∧
    readMail file = some (mailOf env task (cstr value))

/-! ### The head of the file -/

/-- The lines of the commands and of the header. -/
def headerLines (env : Env) (letter : Letter) : List Text :=
  let task := letter.task
  let rcpt := letter.rcpt
  ["HELO ".toList ++ cstr task.helo,
    "MAIL FROM: <".toList ++ (cstr task.robot ++ ">".toList),
    "RCPT TO: <".toList ++ (rcpt ++ ">".toList),
    "DATA".toList,
    "Received: from ".toList ++ (cstr task.helo ++ ("[127.0.0.1] (account ".toList ++
      (cstr task.robot ++ ")".toList))),
    "\tby Side.MTarget with SMTP for ".toList ++ (rcpt ++ ";".toList),
    "\t".toList ++ env.date,
    "From: \"=?utf-8?B?".toList ++ (cstr task.nickname ++ ("?=\" <".toList ++ (cstr task.sender ++
      ">".toList))),
    "To: ".toList ++ rcpt,
    "Subject: ".toList ++ cstr task.subject,
    "Date: ".toList ++ env.date,
    "Reply-To: <".toList ++ (cstr task.replier ++ ">".toList),
    "X-mailer: iedm version 1.2".toList,
    "MIME-Version: 1.0".toList,
    "Message-ID: <".toList ++ (showInt env.now ++ (".".toList ++ (showInt env.randnum ++
      (".".toList ++ (rcpt ++ ">".toList)))))] ++
  ((if task.istest.isEmpty then [] else ["ISTESTMAIL:".toList ++ cstr task.istest]) ++
  ["X-RICHINFO:NOTIFYTYPE:".toList ++
      ((if task.smstype = "99".toList then "0".toList else cstr task.smstype) ++
        (";ISMULTITEMPLATE:".toList ++
          ((if task.modula_qvga.isEmpty then "0".toList else "1".toList) ++
            ";TEMPLATELIST:4".toList))),
    "Content-Type: ".toList ++
      ((if task.appendixname.isEmpty || task.appendixtext.isEmpty then
        "multipart/alternative".toList else "multipart/mixed".toList) ++ ";".toList),
    "\tboundary=\"----=_NextPart\"".toList,
    [],
    "This is a multi-part message in MIME format.".toList,
    []])

theorem header_eq (env : Env) (letter : Letter) :
    header env letter = linesText (headerLines env letter) [] := by
  have hfrom : ">\r\n".toList = ">".toList ++ crlf := by simp [crlf]
  have hdata : "DATA\r\n".toList = "DATA".toList ++ crlf := by simp [crlf]
  have haccount : ")\r\n".toList = ")".toList ++ crlf := by simp [crlf]
  have hfor : ";\r\n\t".toList = ";".toList ++ (crlf ++ "\t".toList) := by simp [crlf]
  have hmailer : "X-mailer: iedm version 1.2\r\n".toList =
    "X-mailer: iedm version 1.2".toList ++ crlf := by simp [crlf]
  have hversion : "MIME-Version: 1.0\r\n".toList = "MIME-Version: 1.0".toList ++ crlf := by
    simp [crlf]
  have hlist : ";TEMPLATELIST:4\r\n".toList = ";TEMPLATELIST:4".toList ++ crlf := by
    simp [crlf]
  have htype : ";\r\n".toList = ";".toList ++ crlf := by simp [crlf]
  have hboundary : "\tboundary=\"----=_NextPart\"\r\n\r\n".toList =
    "\tboundary=\"----=_NextPart\"".toList ++ (crlf ++ crlf) := by simp [crlf]
  have hmulti : "This is a multi-part message in MIME format.\r\n\r\n".toList =
    "This is a multi-part message in MIME format.".toList ++ (crlf ++ crlf) := by simp [crlf]
  rw [header, headerLines, linesText_append, linesText_append]
  rw [hfrom, hdata, haccount, hfor, hmailer, hversion, hlist, htype, hboundary, hmulti,
    Linefeed.crlf_eq]
  simp only [linesText, List.foldr_cons, List.foldr_nil, List.flatten_cons, List.flatten_nil,
    List.append_assoc, List.append_nil, List.nil_append]
  split
  · rfl
  · simp only [List.foldr_cons, List.foldr_nil, List.append_assoc]

/-- Nothing that the commands and the header show has a LF. -/
structure OneLine (letter : Letter) : Prop where
  helo : '\n' ∉ letter.task.helo
  robot : '\n' ∉ letter.task.robot
  sender : '\n' ∉ letter.task.sender
  replier : '\n' ∉ letter.task.replier
  nickname : '\n' ∉ letter.task.nickname
  subject : '\n' ∉ letter.task.subject
  istest : '\n' ∉ letter.task.istest
  smstype : '\n' ∉ letter.task.smstype
  rcpt : '\n' ∉ letter.rcpt
  decode_subject : '\n' ∉ letter.decode_subject

/-- The settings and the date are written in one line. -/
structure OneLineEnv (env : Env) : Prop where
  helo : '\n' ∉ env.smtp_default_helo
  reply : '\n' ∉ env.smtp_default_reply
  date : '\n' ∉ env.date

theorem not_mem_cstr {c : Char} {s : Text} (h : c ∉ s) : c ∉ cstr s := fun hc =>
  h ((List.takeWhile_prefix _).subset hc)

theorem lf_not_mem_randomised {flag : Bool} {z : Int} {address : Text} (h : '\n' ∉ address) :
    '\n' ∉ randomised flag (showInt z) address := by
  rw [randomised]
  split
  next =>
    simp only [insertRandom, List.mem_append, List.mem_cons, not_or]
    exact ⟨fun hc => h (mem_of_mem_cut (.inl hc)), (plainValue_showInt z).lf, by decide,
      fun hc => h (mem_of_mem_cut (.inr hc))⟩
  next => exact h

section

variable {env : Env} {task : TaskInf} {rcpt : Text}

theorem oneLine_letterOf (henv : OneLineEnv env) (h : task.Plain) (hrcpt : PlainValue rcpt)
    (hvars : ∀ var ∈ mailVars env task rcpt, PlainVar var) :
    OneLine (letterOf env task rcpt) where
  helo := by
    change '\n' ∉ (if task.helo.isEmpty then env.smtp_default_helo else task.helo)
    split
    next => exact henv.helo
    next => exact h.string .helo
  robot := by
    refine lf_not_mem_randomised ?_
    rw [robotOf]
    split
    next => exact h.string .sender
    next => exact h.string .robot
  sender := lf_not_mem_randomised (h.string .sender)
  replier := by
    change '\n' ∉ (if dwCheckMailbox task.replier then task.replier else env.smtp_default_reply)
    split
    next => exact h.string .replier
    next => exact henv.reply
  nickname := by
    refine lf_not_mem_encoded ?_
    rw [nicknameOf]
    split
    next => exact fun hc => lf_not_mem_randomised (h.string .sender) (mem_of_mem_cut (.inl hc))
    next => exact h.string .nickname
  subject := by
    have hsubject := lf_not_mem_encoded (lf_not_mem_subjectOf h hvars)
    change '\n' ∉ (if _ then [] else _)
    split
    next => exact List.not_mem_nil
    next => simp [hsubject]
  istest := h.string .test
  smstype := h.string .sms
  rcpt := hrcpt.lf
  decode_subject := lf_not_mem_subjectOf h hvars

end

theorem plainLine_append {a s : Text} (ha : PlainLine a) (hne : a ≠ []) (hs : '\n' ∉ s) :
    PlainLine (a ++ s) := by
  obtain ⟨c, a, rfl⟩ := List.exists_cons_of_ne_nil hne
  exact ⟨fun hc => (List.mem_append.mp hc).elim ha.1 hs, ha.2⟩

theorem plainLine_headerLines {env : Env} (henv : OneLineEnv env) {letter : Letter}
    (h : OneLine letter) : ∀ l ∈ headerLines env letter, PlainLine l := by
  have hlit : ∀ {a : Text} (s : Text), '\n' ∉ a ∧ a.head? ≠ some '-' ∧ a ≠ [] → '\n' ∉ s →
      PlainLine (a ++ s) := fun s ha hs => plainLine_append ⟨ha.1, ha.2.1⟩ ha.2.2 hs
  have hhelo := not_mem_cstr h.helo
  have hrobot := not_mem_cstr h.robot
  have hsms : '\n' ∉ (if letter.task.smstype = "99".toList then "0".toList
      else cstr letter.task.smstype) := by
    split
    next => simp
    next => exact not_mem_cstr h.smstype
  have hqvga : '\n' ∉ (if letter.task.modula_qvga.isEmpty then "0".toList else "1".toList) := by
    split <;> simp
  have htype : '\n' ∉ (if letter.task.appendixname.isEmpty || letter.task.appendixtext.isEmpty then
      "multipart/alternative".toList else "multipart/mixed".toList) := by
    split <;> simp
  have hshow : ∀ z, '\n' ∉ showInt z := fun z => (plainValue_showInt z).lf
  have hnot : ∀ {a s : Text}, '\n' ∉ a → '\n' ∉ s → '\n' ∉ a ++ s := fun ha hs hc =>
    (List.mem_append.mp hc).elim ha hs
  rw [headerLines]
  refine List.forall_mem_append.mpr ⟨?_, List.forall_mem_append.mpr ⟨?_, ?_⟩⟩
  · simp only [List.forall_mem_cons]
    exact ⟨hlit _ (by simp) hhelo,
      hlit _ (by simp) (hnot hrobot (by simp)),
      hlit _ (by simp) (hnot h.rcpt (by simp)),
      ⟨by simp, by simp⟩,
      hlit _ (by simp) (hnot hhelo (hnot (by simp) (hnot hrobot (by simp)))),
      hlit _ (by simp) (hnot h.rcpt (by simp)),
      hlit _ (by simp) henv.date,
      hlit _ (by simp) (hnot (not_mem_cstr h.nickname) (hnot (by simp)
        (hnot (not_mem_cstr h.sender) (by simp)))),
      hlit _ (by simp) h.rcpt,
      hlit _ (by simp) (not_mem_cstr h.subject),
      hlit _ (by simp) henv.date,
      hlit _ (by simp) (hnot (not_mem_cstr h.replier) (by simp)),
      ⟨by simp, by simp⟩,
      ⟨by simp, by simp⟩,
      hlit _ (by simp) (hnot (hshow _) (hnot (by simp) (hnot (hshow _) (hnot (by simp)
        (hnot h.rcpt (by simp)))))),
      nofun⟩
  · split
    next => exact nofun
    next =>
      intro l hl
      rw [List.mem_singleton.mp hl]
      exact hlit _ (by simp) (not_mem_cstr h.istest)
  · simp only [List.forall_mem_cons]
    exact ⟨hlit _ (by simp) (hnot hsms (hnot (by simp) (hnot hqvga (by simp)))),
      hlit _ (by simp) (hnot htype (by simp)),
      ⟨by simp, by simp⟩, ⟨by simp, by simp⟩, ⟨by simp, by simp⟩,
      ⟨by simp, by simp⟩, nofun⟩

/-- What stands in front of the parts. -/
def preambleOf (env : Env) (letter : Letter) : Text :=
  (if letter.task.smstype = "99".toList then smsText letter else []) ++ header env letter

theorem noDash_preambleOf {env : Env} (henv : OneLineEnv env) {letter : Letter}
    (h : OneLine letter) : NoDash (preambleOf env letter) := by
  have hheader : NoDash (header env letter) := by
    rw [header_eq]
    exact NoDash.linesText (plainLine_headerLines henv h) (noDash_of_not_mem nofun)
  have hmessage : '\n' ∉ (cut '@' letter.rcpt).1 ++ '|' :: cstr letter.decode_subject := by
    simp only [List.mem_append, List.mem_cons, not_or]
    exact ⟨fun hc => h.rcpt (mem_of_mem_cut (.inl hc)), by simp, not_mem_cstr h.decode_subject⟩
  rw [preambleOf]
  split
  next =>
    rw [smsText]
    split
    next =>
      have hlines : "MESSAGE:".toList ++ ((cut '@' letter.rcpt).1 ++
          '|' :: (cstr letter.decode_subject ++ crlf)) ++ header env letter =
          linesText ["MESSAGE:".toList ++ ((cut '@' letter.rcpt).1 ++
            '|' :: cstr letter.decode_subject)] (header env letter) := by
        simp only [linesText, List.foldr_cons, List.foldr_nil, List.append_assoc,
          List.cons_append, Linefeed.crlf_eq]
      rw [hlines]
      refine NoDash.linesText (fun l hl => ?_) hheader
      rw [List.mem_singleton.mp hl]
      exact plainLine_append ⟨by simp, by simp⟩ (by simp) hmessage
    next => exact hheader
  next => exact hheader

/-! ### The parts -/

/-- A part of the mail, and what it says. -/
structure MailPart where
  head : List Text
  body : Text
  type : Text
  text : Text

/-- A text as a part. -/
def textPartOf (type text : Text) : MailPart where
  head := ["Content-Type: ".toList ++ (type ++ ";".toList), "\tcharset=\"utf-8\"".toList,
    "Content-Transfer-Encoding: base64".toList]
  body := codeLines text
  type := type
  text := text

/-- The appendix as a part. -/
def attachmentOf (name text : Text) : MailPart where
  head := ["Content-Type: application/octet-stream;".toList, "\tcharset=\"utf-8\"".toList,
    "\tname=\"=?utf-8?B?".toList ++ (encoded name ++ "?=\"".toList),
    "Content-Disposition: attachment;".toList,
    "\tfilename=\"=?utf-8?B?".toList ++ (encoded name ++ "?=\"".toList),
    "Content-Transfer-Encoding: base64".toList]
  body := cstr (linefeedFrom 76 text.length 0 text).1
  type := attachmentType
  text := withoutBreaks text

/-- The part is read as it is meant. -/
structure MailPart.Reads (p : MailPart) : Prop where
  head : ∀ l ∈ p.head, PlainLine l ∧ l ≠ []
  body : NoDash p.body
  read : readPart ⟨p.head, crlfLines p.body ++ [[]]⟩ = some (p.type, p.text)

theorem withoutBreaks_append (s t : Text) :
    withoutBreaks (s ++ t) = withoutBreaks s ++ withoutBreaks t := List.filter_append ..

theorem withoutBreaks_crlfLines (s : Text) :
    withoutBreaks (crlfLines s ++ [[]]).flatten = withoutBreaks s := by
  have hlines : ∀ ls : List Text, withoutBreaks (ls.map (· ++ Support.crlf)).flatten =
      withoutBreaks ls.flatten := by
    intro ls
    induction ls with
    | nil => rfl
    | cons l ls ih =>
        rw [List.map_cons, List.flatten_cons, List.flatten_cons, withoutBreaks_append,
          withoutBreaks_append, withoutBreaks_append, ih]
        exact congrArg (· ++ _) (List.append_nil _)
  rw [List.flatten_append, withoutBreaks_append, ← hlines, flatten_crlfLines, withoutBreaks_append]
  exact (List.append_nil _).trans (List.append_nil _)

theorem withoutBreaks_wrapLeft (pos : Nat) : ∀ (n : Nat) (s : Text),
    withoutBreaks (wrapLeft crlf pos n s) = withoutBreaks s
  | 0, [] => rfl
  | _ + 1, [] => rfl
  | 0, c :: s => by
      have hcrlf : withoutBreaks crlf = [] := by decide
      have hcons : ∀ t, c :: t = [c] ++ t := fun _ => rfl
      rw [wrapLeft, withoutBreaks_append, hcrlf, hcons, hcons s, withoutBreaks_append,
        withoutBreaks_append, withoutBreaks_wrapLeft pos]
      rfl
  | n + 1, c :: s => by
      have hcons : ∀ t, c :: t = [c] ++ t := fun _ => rfl
      rw [wrapLeft, hcons, hcons s, withoutBreaks_append, withoutBreaks_append,
        withoutBreaks_wrapLeft pos]

/-- Without its line ends, an encoded text is its code. -/
theorem withoutBreaks_codeLines (text : Text) : withoutBreaks (codeLines text) = base64 text := by
  have hall : ∀ c ∈ base64 text, ¬ Linefeed.IsBreak c :=
    forall_base64 (by decide +kernel) (by decide) text
  have hwrap : withoutBreaks (codeLines text) = withoutBreaks (base64 text) :=
    withoutBreaks_wrapLeft 76 76 (base64 text)
  rw [hwrap, withoutBreaks, List.filter_eq_self]
  simpa using hall

theorem head_textPartOf {type : Text} (htype : '\n' ∉ type) (text : Text) :
    ∀ l ∈ (textPartOf type text).head, PlainLine l ∧ l ≠ [] := by
  have hline : '\n' ∉ type ++ ";".toList := by simp [htype]
  simp only [textPartOf, List.forall_mem_cons]
  exact ⟨⟨plainLine_append ⟨by simp, by simp⟩ (by simp) hline, by simp⟩,
    ⟨⟨by simp, by simp⟩, by simp⟩, ⟨⟨by simp, by simp⟩, by simp⟩, by simp⟩

theorem contentType_textPartOf {type : Text} (htype : ';' ∉ type) (text : Text) :
    contentType (textPartOf type text).head = type := by
  have hfind : ((textPartOf type text).head.find? fun l =>
      "Content-Type: ".toList.isPrefixOf l) =
        some ("Content-Type: ".toList ++ (type ++ ";".toList)) := rfl
  rw [contentType, hfind]
  exact takeWhile_ne_append htype []

theorem reads_textPartOf {type text : Text} (htype : '\n' ∉ type ∧ ';' ∉ type)
    (hne : type ≠ attachmentType) (h : IsBytes text) (htext : text ≠ []) :
    (textPartOf type text).Reads where
  head := head_textPartOf htype.1 text
  body := noDash_of_not_mem (not_mem_codeLines (by decide) text)
  read := by
    rw [readPart, contentType_textPartOf htype.2]
    dsimp only
    rw [if_neg hne, withoutBreaks_crlfLines, textPartOf, withoutBreaks_codeLines,
      Base64.dwDecodeBase64_base64 h htext]
    rfl

/-- Line ends apart, the attachment is what was given. -/
theorem withoutBreaks_linefeedFrom (size : Nat) (s : Text) :
    withoutBreaks (linefeedFrom 76 size 0 s).1 = withoutBreaks s := by
  rw [Linefeed.fst_linefeedFrom (by decide)]
  exact Linefeed.filter_refeed s 0

theorem not_mem_linefeedFrom {c : Char} (hc : ¬ Linefeed.IsBreak c) {s : Text} (h : c ∉ s)
    (size : Nat) : c ∉ (linefeedFrom 76 size 0 s).1 := by
  intro hmem
  have hin : c ∈ withoutBreaks (linefeedFrom 76 size 0 s).1 :=
    List.mem_filter.mpr ⟨hmem, by simpa using hc⟩
  rw [withoutBreaks_linefeedFrom] at hin
  exact h (List.mem_of_mem_filter hin)

theorem reads_attachmentOf {name text : Text} (hname : '\n' ∉ name)
    (h : ∀ c ∈ text, c ∈ digits64 ∨ c = '=' ∨ Linefeed.IsBreak c) :
    (attachmentOf name text).Reads := by
  have hnot : ∀ {c : Char}, c ∉ digits64 → c ≠ '=' → ¬ Linefeed.IsBreak c → c ∉ text := by
    intro c hdigit heq hbreak hc
    obtain hc | hc | hc := h c hc
    · exact hdigit hc
    · exact heq hc
    · exact hbreak hc
  have hcstr : cstr (linefeedFrom 76 text.length 0 text).1 =
      (linefeedFrom 76 text.length 0 text).1 :=
    cstr_self (not_mem_linefeedFrom (by decide) (hnot (by decide) (by decide) (by decide)) _)
  refine ⟨?_, ?_, ?_⟩
  · have hname : '\n' ∉ encoded name ++ "?=\"".toList := by
      simp [lf_not_mem_encoded hname]
    simp only [attachmentOf, List.forall_mem_cons]
    refine ⟨⟨⟨by simp, by simp⟩, by simp⟩, ⟨⟨by simp, by simp⟩, by simp⟩,
      ⟨plainLine_append ⟨by simp, by simp⟩ (by simp) hname, by simp⟩,
      ⟨⟨by simp, by simp⟩, by simp⟩,
      ⟨plainLine_append ⟨by simp, by simp⟩ (by simp) hname, by simp⟩,
      ⟨⟨by simp, by simp⟩, by simp⟩, by simp⟩
  · rw [attachmentOf, hcstr]
    exact noDash_of_not_mem
      (not_mem_linefeedFrom (by decide) (hnot (by decide) (by decide) (by decide)) _)
  · have htypeof : contentType (attachmentOf name text).head = attachmentType := rfl
    rw [readPart, htypeof]
    dsimp only
    rw [if_pos rfl, withoutBreaks_crlfLines, attachmentOf, hcstr, withoutBreaks_linefeedFrom]

/-- The parts that are written. -/
def mailPartsOf (task : TaskInf) (text html : Text) : List MailPart :=
  (if text.isEmpty then [] else [textPartOf "text/plain".toList text]) ++
  ((if html.isEmpty then [] else [textPartOf "text/html".toList html]) ++
  if task.appendixname.isEmpty || task.appendixtext.isEmpty then []
  else [attachmentOf task.appendixname task.appendixtext])

/-- A part in the file. -/
def MailPart.inFile (p : MailPart) : Text :=
  Support.crlf ++ (Support.crlf ++ (delimiter mailBoundary ++ (Support.crlf ++
    partText p.head p.body)))

theorem boundary_eq : boundary =
    Support.crlf ++ (Support.crlf ++ (delimiter mailBoundary ++ Support.crlf)) := by
  change "\r\n\r\n------=_NextPart\r\n".toList = Support.crlf ++ (Support.crlf ++
    ('-' :: '-' :: "----=_NextPart".toList ++ Support.crlf))
  simp [Support.crlf]

theorem isEmpty_codeLines (text : Text) : (codeLines text).isEmpty = text.isEmpty := by
  cases text with
  | nil => rfl
  | cons c s =>
      have hne : codeLines (c :: s) ≠ [] := by
        intro hnil
        have hlen : (base64 (c :: s)).length = 0 := by
          rw [← withoutBreaks_codeLines, hnil]
          rfl
        rw [length_base64, List.length_cons] at hlen
        omega
      rw [List.isEmpty_eq_false_iff.mpr hne]
      rfl

theorem partOf_eq (type text : Text) : partOf type (codeLines text) =
    (if text.isEmpty then [] else [textPartOf type text]).flatMap MailPart.inFile := by
  have hnul : nul ∉ codeLines text := not_mem_codeLines (by decide) text
  rw [partOf, isEmpty_codeLines, cstr_self hnul]
  split
  next => rfl
  next =>
    have hcharset : ";\r\n\tcharset=\"utf-8\"\r\n".toList =
        ";".toList ++ (Support.crlf ++ ("\tcharset=\"utf-8\"".toList ++ Support.crlf)) := by
      simp [Support.crlf]
    have hencoding : "Content-Transfer-Encoding: base64\r\n\r\n".toList =
        "Content-Transfer-Encoding: base64".toList ++ (Support.crlf ++ Support.crlf) := by
      simp [Support.crlf]
    rw [partHead, boundary_eq, hcharset, hencoding]
    simp only [List.flatMap_cons, List.flatMap_nil, MailPart.inFile, textPartOf, partText,
      linesText, List.foldr_cons, List.foldr_nil, List.append_assoc, List.append_nil]

theorem appendixOf_eq (task : TaskInf) : appendixOf task =
    (if task.appendixname.isEmpty || task.appendixtext.isEmpty then []
      else [attachmentOf task.appendixname task.appendixtext]).flatMap MailPart.inFile := by
  rw [appendixOf]
  split
  next => rfl
  next =>
    have htype : "Content-Type: application/octet-stream;\r\n\tcharset=\"utf-8\"\r\n".toList =
        "Content-Type: application/octet-stream;".toList ++ (Support.crlf ++
          ("\tcharset=\"utf-8\"".toList ++ Support.crlf)) := by
      simp [Support.crlf]
    have hdisposition :
        "?=\"\r\nContent-Disposition: attachment;\r\n\tfilename=\"=?utf-8?B?".toList =
          "?=\"".toList ++ (Support.crlf ++ ("Content-Disposition: attachment;".toList ++
            (Support.crlf ++ "\tfilename=\"=?utf-8?B?".toList))) := by
      simp [Support.crlf]
    have hencoding : "?=\"\r\nContent-Transfer-Encoding: base64\r\n\r\n".toList =
        "?=\"".toList ++ (Support.crlf ++ ("Content-Transfer-Encoding: base64".toList ++
          (Support.crlf ++ Support.crlf))) := by
      simp [Support.crlf]
    rw [appendixHead, boundary_eq, htype, hdisposition, hencoding]
    simp only [List.flatMap_cons, List.flatMap_nil, MailPart.inFile, attachmentOf, partText,
      linesText, List.foldr_cons, List.foldr_nil, List.append_assoc, List.append_nil]

/-- The file is a multipart text. -/
theorem fileOf_eq (env : Env) (letter : Letter) {texts : Bodies} {text html : Text}
    (htext : linesOf texts.marked.modula_text = codeLines text)
    (hhtml : linesOf (texts.marked.html letter.encode_subject) = codeLines html) :
    fileOf env letter texts = mimeText mailBoundary (preambleOf env letter)
      ((mailPartsOf letter.task text html).map fun p => partText p.head p.body) := by
  have hlast : lastBoundary = Support.crlf ++ (Support.crlf ++
    (closeDelimiter mailBoundary ++ (Support.crlf ++ []))) := by
    change "\r\n\r\n------=_NextPart--\r\n".toList = Support.crlf ++ (Support.crlf ++
      ('-' :: '-' :: "----=_NextPart".toList ++ ['-', '-'] ++ (Support.crlf ++ [])))
    simp [Support.crlf]
  have hparts : ((mailPartsOf letter.task text html).map fun p => partText p.head p.body).flatMap
      (fun p => Support.crlf ++ (Support.crlf ++ (delimiter mailBoundary ++
        (Support.crlf ++ p)))) = (mailPartsOf letter.task text html).flatMap MailPart.inFile :=
    List.flatMap_map ..
  rw [mimeText, hparts, fileOf, partsOf, htext, hhtml, partOf_eq, partOf_eq, appendixOf_eq, hlast,
    mailPartsOf, preambleOf, List.flatMap_append, List.flatMap_append]
  simp only [List.append_assoc]

/-- Parts that read as they are meant are read. -/
theorem readMail_mimeText {preamble : Text} (hpre : NoDash preamble) {ps : List MailPart}
    (h : ∀ p ∈ ps, p.Reads) :
    readMail (mimeText mailBoundary preamble (ps.map fun p => partText p.head p.body)) =
      some (ps.map fun p => (p.type, p.text)) := by
  have hnodash : ∀ t ∈ ps.map fun p => partText p.head p.body, NoDash t := by
    intro t ht
    obtain ⟨p, hp, rfl⟩ := List.mem_map.mp ht
    exact NoDash.partText (fun l hl => ((h p hp).head l hl).1) (h p hp).body
  have hlf : '\n' ∉ mailBoundary := by
    change '\n' ∉ "----=_NextPart".toList
    simp
  rw [readMail, mimeParts_mimeText hlf hpre hnodash, List.map_map]
  clear hnodash
  induction ps with
  | nil => rfl
  | cons p ps ih =>
      obtain ⟨hp, hps⟩ := List.forall_mem_cons.mp h
      have hpart : mimePart (crlfLines (partText p.head p.body) ++ [[]]) =
          ⟨p.head, crlfLines p.body ++ [[]]⟩ :=
        mimePart_partText (fun l hl => ⟨(hp.head l hl).1.1, (hp.head l hl).2⟩) p.body
      rw [List.map_cons, List.mapM_cons, ih hps, Function.comp_apply, hpart, hp.read]
      rfl

/-! ### The mail in the file -/

/-- What the task is given: an id, a mailbox, HTML, values without `$` and `|`, and an appendix in
base 64. -/
structure Given (task : TaskInf) : Prop where
  id : task.id ≠ []
  mailbox : ∃ value ∈ task.maillist.value.head?, dwCheckMailbox value = true
  modula : task.modula ≠ []
  value : ∀ value ∈ task.maillist.value, '$' ∉ value ∧ '|' ∉ value
  appendix : ∀ c ∈ task.appendixtext, c ∈ digits64 ∨ c = '=' ∨ Linefeed.IsBreak c

/-- What is read in the file of a task: all of its mail, but no HTML that is empty. -/
theorem readMail_fileOf {env : Env} (henv : OneLineEnv env) {task : TaskInf} (h : task.Plain)
    (hgiven : Given task) {value : Text} (hvalue : value ∈ task.maillist.value)
    (hshort : Short env task value) :
    readMail (fileOf env (letterOf env task value) (textsOf env task value)) = some
      ((if (mergedOf env task value).modula_text.isEmpty then []
        else [("text/plain".toList, (mergedOf env task value).modula_text)]) ++
      ((if (htmlOf env task value).isEmpty then []
        else [("text/html".toList, htmlOf env task value)]) ++
      if task.appendixname.isEmpty || task.appendixtext.isEmpty then []
      else [(attachmentType, withoutBreaks task.appendixtext)])) := by
  have hvalues : ∀ v ∈ task.maillist.value, PlainValue v := fun v hv =>
    ⟨(h.value v hv).1, (h.value v hv).2.1, (hgiven.value v hv).2, (h.value v hv).2.2⟩
  have hvars : ∀ var ∈ mailVars env task value, PlainVar var :=
    plainVar_of_mem h hvalues (hvalues value hvalue)
  have hmarked := marked_textsOf h hvars hshort
  have htext : IsBytes (mergedOf env task value).modula_text :=
    isBytes_mergedText hvars (isBytes_plainTemplate h)
  have hhtml := isBytes_htmlOf h hvars hshort.subject
  have hplain_ne : "text/plain".toList ≠ attachmentType := by
    change "text/plain".toList ≠ "application/octet-stream".toList
    simp
  have hhtml_ne : "text/html".toList ≠ attachmentType := by
    change "text/html".toList ≠ "application/octet-stream".toList
    simp
  have hreads : ∀ p ∈ mailPartsOf task (mergedOf env task value).modula_text
      (htmlOf env task value), p.Reads := by
    refine List.forall_mem_append.mpr ⟨?_, List.forall_mem_append.mpr ⟨?_, ?_⟩⟩
    · intro p hp
      split at hp
      next => cases hp
      next hne =>
        rw [List.mem_singleton.mp hp]
        exact reads_textPartOf (by simp) hplain_ne htext (mt List.isEmpty_iff.mpr hne)
    · intro p hp
      split at hp
      next => cases hp
      next hne =>
        rw [List.mem_singleton.mp hp]
        exact reads_textPartOf (by simp) hhtml_ne hhtml (mt List.isEmpty_iff.mpr hne)
    · intro p hp
      split at hp
      next => cases hp
      next =>
        rw [List.mem_singleton.mp hp]
        exact reads_attachmentOf (h.string .appendixname) hgiven.appendix
  have hpre := noDash_preambleOf henv (oneLine_letterOf henv h (hvalues value hvalue) hvars)
  have hfile := @fileOf_eq env (letterOf env task value) (textsOf env task value) _ _
    (by rw [hmarked]; exact linesOf_eq htext hshort.text)
    (by rw [hmarked]; exact (congrArg linesOf (html_mergedOf h hvars hshort)).trans
          (linesOf_eq hhtml hshort.html))
  have htask : mailPartsOf (letterOf env task value).task = mailPartsOf task := rfl
  rw [hfile, htask, readMail_mimeText hpre hreads, mailPartsOf, List.map_append, List.map_append,
    apply_ite (List.map _), apply_ite (List.map _), apply_ite (List.map _)]
  rfl

/-- A text that is encoded is too long for the encoder. -/
def TooLong (env : Env) (task : TaskInf) : Prop :=
  ∃ value ∈ task.maillist.value.head?, ¬ Short env task value

/-- **The file of a task is its mail** if it can be opened, the task does no harm, no text is too
long and its HTML is not empty; and only then, but for texts that are too long. -/
theorem mime_iff {env : Env} (henv : OneLineEnv env) {task : TaskInf} (h : task.Plain)
    (hgiven : Given task) :
    (env.opened = true ∧ Harmless env task ∧ ¬ TooLong env task ∧
      (∀ value ∈ task.maillist.value.head?, htmlOf env task value ≠ []) → Means env task) ∧
    (Means env task → env.opened = true ∧ Harmless env task ∧
      (TooLong env task ∨ ∀ value ∈ task.maillist.value.head?, htmlOf env task value ≠ [])) := by
  have hyields := taskinfDump_yields env h
  obtain ⟨value, hhead, -⟩ := hgiven.mailbox
  have hid : task.id.isEmpty = false := List.isEmpty_eq_false_iff.mpr hgiven.id
  have hvalue : value ∈ task.maillist.value := List.mem_of_mem_head? hhead
  have hcstr : cstr value = value := cstr_self (h.value value hvalue).2.1
  rw [Option.mem_def] at hhead
  have honly : ∀ v ∈ task.maillist.value.head?, v = value := fun v hv =>
    Option.some.inj (hv.symm.trans hhead)
  rw [hid, hhead, Option.map_some, Bool.false_or] at hyields
  constructor
  · rintro ⟨hopened, hharmless, hlong, hhtml⟩
    have hshort : Short env task value := not_not.mp fun hnot => hlong ⟨value, hhead, hnot⟩
    refine ⟨value, hhead, fileOf env (letterOf env task value) (textsOf env task value), ?_, ?_⟩
    · rw [hyields.ok hharmless, hopened, hcstr]
      rfl
    · have hne : (htmlOf env task value).isEmpty = false :=
        List.isEmpty_eq_false_iff.mpr (hhtml value hhead)
      rw [readMail_fileOf henv h hgiven hvalue hshort, hcstr, mailOf, hne]
      rfl
  · rintro ⟨v, hv, file, hfile, hmail⟩
    obtain rfl := honly v hv
    have hharmless : Harmless env task := hyields.isOk_iff.mp (by rw [hfile]; rfl)
    rw [hyields.ok hharmless, hcstr] at hfile
    rw [hcstr] at hmail
    cases hopened : env.opened with
    | false =>
        rw [hopened] at hfile
        cases Except.ok.inj hfile
    | true =>
        rw [hopened] at hfile
        obtain rfl : fileOf env (letterOf env task v) (textsOf env task v) = file :=
          Option.some.inj (Except.ok.inj hfile)
        refine ⟨rfl, hharmless, or_iff_not_imp_left.mpr fun hlong v' hv' hempty => ?_⟩
        obtain rfl := honly v' hv'
        have hshort : Short env task v' := not_not.mp fun hnot => hlong ⟨v', hhead, hnot⟩
        -- There is one part too few.
        rw [readMail_fileOf henv h hgiven hvalue hshort, mailOf, hempty] at hmail
        have hlen := congrArg List.length (Option.some.inj hmail)
        simp only [List.length_append, List.isEmpty_nil, if_true, List.length_nil,
          List.length_singleton] at hlen
        omega

/-- A task for one mailbox. -/
def helloTask : TaskInf :=
  { TaskInf.new.start with
    id := ['1']
    sender := "edm@b.cn".toList
    modula := "<p>Hello</p>".toList
    modula_text := "Hello".toList
    maillist := ⟨["$mail$".toList], ["ann@b.cn".toList]⟩ }

theorem plain_helloTask : helloTask.Plain where
  string t := by cases t <;> decide
  text t := by cases t <;> decide
  name := by decide
  value := by decide

theorem given_helloTask : Given helloTask :=
  ⟨by decide, ⟨"ann@b.cn".toList, rfl, by decide⟩, by decide, by decide, nofun⟩

theorem oneLineEnv_exampleEnv : OneLineEnv exampleEnv := ⟨by decide, by decide, by decide⟩

theorem means_hello : Means exampleEnv helloTask := by
  have hrcpt : PlainValue "ann@b.cn".toList := ⟨by decide, by decide, by decide, by decide⟩
  have hvars : ∀ var ∈ mailVars exampleEnv helloTask "ann@b.cn".toList, PlainVar var :=
    plainVar_of_mem plain_helloTask (fun v hv => (List.mem_singleton.mp hv).symm ▸ hrcpt) hrcpt
  have htexts : textsOf exampleEnv helloTask "ann@b.cn".toList =
      ⟨"<p>Hello</p>".toList, [], "Hello".toList⟩ := by
    have hmerge : mergeTexts (letterOf exampleEnv helloTask "ann@b.cn".toList).task
        (letterOf exampleEnv helloTask "ann@b.cn".toList).task.maillist =
          ⟨"<p>Hello</p>".toList, [], "Hello".toList, .empty⟩ := rfl
    exact textsOf_eq (fun var hvar => (hvars var hvar).cvar) hmerge
  have hnone : ∀ s ∈ ["<p>Hello</p>".toList, [], "Hello".toList],
      nextMarked base64Begin base64End s = none := by decide
  have hcstr : cstr "ann@b.cn".toList = "ann@b.cn".toList := by decide
  obtain ⟨hshort, hhtml⟩ := Short.of_unmarked hvars htexts hnone (by decide) (by decide)
  refine (mime_iff oneLineEnv_exampleEnv plain_helloTask given_helloTask).1 ⟨rfl, ?_, ?_, ?_⟩
  · intro _ value hvalue
    obtain rfl : "ann@b.cn".toList = value := Option.some.inj hvalue
    rw [hcstr]
    refine ⟨nofun, nofun, rfl, fun _ => by decide, fun _ => by decide, fun _ => by decide,
      fun _ h => absurd h (by decide), fun _ => ?_, fun _ h => absurd rfl h⟩
    rw [htexts]
    exact .of_unmarked hnone ⟨fun _ => by decide, .inl (by decide)⟩ (fun _ => by decide)
      ⟨fun _ => by decide, .inl (by decide)⟩
  · rintro ⟨value, hvalue, hlong⟩
    obtain rfl : "ann@b.cn".toList = value := Option.some.inj hvalue
    exact hlong hshort
  · intro value hvalue
    obtain rfl : "ann@b.cn".toList = value := Option.some.inj hvalue
    rw [hhtml]
    exact List.cons_ne_nil _ _

/-- The name in front of the `@` is a single byte, and there is no nickname. -/
def shortTask : TaskInf := { helloTask with sender := "a@b.cn".toList }

theorem not_means_short : ¬ ∀ env task, OneLineEnv env → task.Plain → Given task →
    env.opened = true → Means env task := by
  have hplain : shortTask.Plain := by
    refine ⟨fun t => ?_, fun t => ?_, by decide, by decide⟩
    · cases t <;> decide
    · cases t <;> decide
  have hgiven : Given shortTask :=
    ⟨by decide, ⟨"ann@b.cn".toList, rfl, by decide⟩, by decide, by decide, nofun⟩
  intro h
  have hharmless := ((mime_iff oneLineEnv_exampleEnv hplain hgiven).2
    (h exampleEnv shortTask oneLineEnv_exampleEnv hplain hgiven rfl)).2.1
  have hroom := (hharmless (by decide) "ann@b.cn".toList rfl).nickname_room
  exact absurd (hroom (by decide)).1 (by decide)

end Edm.Faceside
