import Edm.Faceside.DwString
import Edm.Faceside.TaskInf
import Edm.Support.Decimal
import Edm.Support.Mailbox

/-!
# Faceside — TaskDump

`taskinf_dump`: a task is made into a file with the SMTP commands and the mail, a MIME message of
up to three parts.

Nothing is checked before it is used: an address need not have an `@`, a text may be a single byte,
and the appendix is a format for `fprintf`.
-/

namespace Edm.Faceside
open Support

/-- What the function finds besides the task: the settings, the clock and `rand_r`, whether the
file can be opened, how large the block of the appendix is, and whether the bytes of the first value
stay where they are when the vector of the values grows. -/
structure Env where
  smtp_default_helo : Text
  smtp_default_reply : Text
  randnum : Int
  now : Int
  date : Text
  opened : Bool
  capacity : Nat
  stays : Bool

/-- `dw_check_mailbox(s.c_str()) == 0`. -/
def dwCheckMailbox (s : Text) : Bool := checkMailbox (cstr s)

/-! ### The addresses and the subject -/

/-- The settings that a task leaves open. -/
def fillIn (env : Env) (task : TaskInf) : TaskInf :=
  { task with
    subject := if task.ad then "(AD)".toList ++ task.subject else task.subject
    helo := if task.helo.isEmpty then env.smtp_default_helo else task.helo
    replier := if dwCheckMailbox task.replier then task.replier else env.smtp_default_reply
    robot := if task.samefrom || !dwCheckMailbox task.robot then task.sender else task.robot }

/-- A number in front of the `@`. -/
def insertRandom (random address : Text) : Text :=
  (cut '@' address).1 ++ (random ++ '@' :: (cut '@' address).2)

/-- `address.insert(address.find('@'), tmpbuf)`, if the flag is set. -/
def randomise (flag : Bool) (random address : Text) : Except Fault Text := do
  if flag && !address.isEmpty then
    require ('@' ∈ address) .outOfRange
    return insertRandom random address
  return address

namespace MailArgs

def push (args : MailArgs) (name value : Text) : MailArgs :=
  ⟨args.name ++ [name], args.value ++ [value]⟩

/-- The names that have a value. -/
def pairs (args : MailArgs) : List (Text × Text) := args.name.zip args.value

/-- The variables of `taskinf_dump` itself. -/
def withMailbox (args : MailArgs) (random rcpt b64_rcpt : Text) : MailArgs :=
  (((args.push "$iedm_ran$".toList random).push "$mailbox$".toList rcpt).push
    "$iedm2_to$".toList b64_rcpt).push "$iedm_to$".toList rcpt

end MailArgs

/-- `dw_replace` of a variable. -/
def replaceVar (text : Text) (var : Text × Text) : Text :=
  (Deliver.dwReplace text (cstr var.1) (cstr var.2)).1

/-- The subject, with its variables. -/
def mergeSubject (subject : Text) (args : MailArgs) : Text :=
  if subject.contains '$' then args.pairs.foldl replaceVar subject else subject

/-- The name of the sender. -/
def nicknameOf (task : TaskInf) (sender : Text) : Text :=
  if task.nickname.isEmpty then (cut '@' sender).1 else task.nickname

/-- The mail before the file is opened. -/
structure Letter where
  task : TaskInf
  rcpt : Text
  decode_subject : Text
  encode_subject : Text

/-- What is done before the file is opened. -/
def prepare (env : Env) (task : TaskInf) (rcpt : Text) : Except Fault Letter := do
  let task := fillIn env task
  let random := showInt env.randnum
  let sender ← randomise task.isradom random task.sender
  let robot ← randomise task.rand random task.robot
  -- `rcpt` is a pointer into a vector that has grown.
  require env.stays .moved
  let b64_rcpt ← Base64.dwEncodeBase64 rcpt
  let args := task.maillist.withMailbox random rcpt b64_rcpt
  let subject := mergeSubject task.subject args
  let encode_subject ← Base64.dwEncodeBase64 subject
  let nickname ← Base64.dwEncodeBase64 (nicknameOf task sender)
  return {
    task := { task with
      sender := sender
      robot := robot
      nickname := nickname
      maillist := args
      subject := if subject.isEmpty then [] else
        "=?utf-8?B?".toList ++ (encode_subject ++ "?=".toList) }
    rcpt := rcpt
    decode_subject := subject
    encode_subject := encode_subject }

/-! ### The head of the file -/

/-- The line for a mobile number at `139.com`. -/
def smsText (letter : Letter) : Text :=
  let cellphone := (cut '@' letter.rcpt).1
  if strcasecmpEq (letter.rcpt.dropWhile (· != '@')) "@139.com".toList &&
      cellphone.length == 11 && cellphone.head? == some '1' && cellphone.all Char.isDigit then
    "MESSAGE:".toList ++ (cellphone ++ '|' :: (cstr letter.decode_subject ++ crlf))
  else []

/-- The line for an SMS. -/
def smsLine (letter : Letter) : Except Fault Text := do
  if letter.task.smstype = "99".toList then
    require ('@' ∈ letter.rcpt) .outOfRange
    return smsText letter
  return []

/-- The commands, and the header of the mail. -/
def header (env : Env) (letter : Letter) : Text :=
  let task := letter.task
  let rcpt := letter.rcpt
  ["HELO ".toList, cstr task.helo, crlf,
    "MAIL FROM: <".toList, cstr task.robot, ">\r\n".toList,
    "RCPT TO: <".toList, rcpt, ">\r\n".toList,
    "DATA\r\n".toList,
    "Received: from ".toList, cstr task.helo, "[127.0.0.1] (account ".toList, cstr task.robot,
      ")\r\n".toList,
    "\tby Side.MTarget with SMTP for ".toList, rcpt, ";\r\n\t".toList, env.date, crlf,
    "From: \"=?utf-8?B?".toList, cstr task.nickname, "?=\" <".toList, cstr task.sender,
      ">\r\n".toList,
    "To: ".toList, rcpt, crlf,
    "Subject: ".toList, cstr task.subject, crlf,
    "Date: ".toList, env.date, crlf,
    "Reply-To: <".toList, cstr task.replier, ">\r\n".toList,
    "X-mailer: iedm version 1.2\r\n".toList,
    "MIME-Version: 1.0\r\n".toList,
    "Message-ID: <".toList, showInt env.now, ".".toList, showInt env.randnum, ".".toList, rcpt,
      ">\r\n".toList,
    if task.istest.isEmpty then [] else "ISTESTMAIL:".toList ++ (cstr task.istest ++ crlf),
    "X-RICHINFO:NOTIFYTYPE:".toList,
      if task.smstype = "99".toList then "0".toList else cstr task.smstype,
      ";ISMULTITEMPLATE:".toList, if task.modula_qvga.isEmpty then "0".toList else "1".toList,
      ";TEMPLATELIST:4\r\n".toList,
    "Content-Type: ".toList,
      if task.appendixname.isEmpty || task.appendixtext.isEmpty then "multipart/alternative".toList
      else "multipart/mixed".toList, ";\r\n".toList,
    "\tboundary=\"----=_NextPart\"\r\n\r\n".toList,
    "This is a multi-part message in MIME format.\r\n\r\n".toList].flatten

/-! ### The parts -/

/-- The texts and the tables of the merge. -/
structure Texts where
  modula : Text
  modula_qvga : Text
  modula_text : Text
  tables : Deliver.Tables

/-- A variable is a column of a table, or it is replaced in the three texts. -/
def Texts.mergeVar (texts : Texts) (var : Text × Text) : Texts :=
  match tableFirstStep var.1 var.2 texts.tables with
  | some tables => { texts with tables := tables }
  | none =>
      { texts with
        modula := replaceVar texts.modula var
        modula_qvga := replaceVar texts.modula_qvga var
        modula_text := replaceVar texts.modula_text var }

/-- The texts of a task with its variables: those in tables are not put into the plain text. -/
def mergeTexts (task : TaskInf) (args : MailArgs) : Texts :=
  let texts := args.pairs.foldl Texts.mergeVar
    { modula := task.modula
      modula_qvga := task.modula_qvga
      modula_text := if task.modula_text.isEmpty then getHtmlText task.modula else task.modula_text
      tables := .empty }
  { texts with
    modula := tableSecondStep texts.modula texts.tables
    modula_qvga := tableSecondStep texts.modula_qvga texts.tables }

/-- `fprintf(out, text.c_str())`. -/
def printText (text : Text) : Except Fault Text := do
  require ('%' ∉ cstr text) .format
  return cstr text

/-- The lines in front of a part. -/
def boundary : Text := "\r\n\r\n------=_NextPart\r\n".toList

/-- The comment in the HTML. -/
def comment (encode_subject modula_text modula_qvga : Text) : Text :=
  "\r\n<!--\r\n<RICHINFO>\r\n<NOTI TYPE=\"SMS\">".toList ++ (encode_subject ++
    ("</NOTI>\r\n<NOTI TYPE=\"LONGSMS\">".toList ++ (modula_text ++
      ("</NOTI>\r\n<WEB TYPE=\"QVGA\">".toList ++ (modula_qvga ++
        "</WEB>\r\n</RICHINFO>\r\n-->".toList)))))

/-- A text in base 64, in lines of 76 characters. -/
def encodeLines (text : Text) : Except Fault Text := do
  let b64 ← Base64.dwEncodeBase64 text
  return dwLineWrap b64 76 crlf

/-- The lines in front of a text. -/
def partHead (type : Text) : Text :=
  boundary ++ ("Content-Type: ".toList ++ (type ++ (";\r\n\tcharset=\"utf-8\"\r\n".toList ++
    "Content-Transfer-Encoding: base64\r\n\r\n".toList)))

/-- A text as a part of the mail, or nothing. -/
def textPart (type encoded : Text) : Except Fault Text := do
  if encoded.isEmpty then return []
  let body ← printText encoded
  return partHead type ++ body

/-- The lines in front of the appendix. -/
def appendixHead (name : Text) : Text :=
  boundary ++ ("Content-Type: application/octet-stream;\r\n\tcharset=\"utf-8\"\r\n".toList ++
    ("\tname=\"=?utf-8?B?".toList ++ (name ++
      ("?=\"\r\nContent-Disposition: attachment;\r\n\tfilename=\"=?utf-8?B?".toList ++ (name ++
        "?=\"\r\nContent-Transfer-Encoding: base64\r\n\r\n".toList)))))

/-- The appendix, or nothing. -/
def appendixPart (capacity : Nat) (task : TaskInf) : Except Fault Text := do
  if task.appendixname.isEmpty || task.appendixtext.isEmpty then return []
  let name ← Base64.dwEncodeBase64 task.appendixname
  let appendix ← dwLinefeed capacity task.appendixtext
  let body ← printText appendix
  return appendixHead name ++ body

/-- The line behind the parts. -/
def lastBoundary : Text := "\r\n\r\n------=_NextPart--\r\n".toList

/-- The three parts, and the line behind them. -/
def parts (env : Env) (letter : Letter) : Except Fault Text := do
  let texts := mergeTexts letter.task letter.task.maillist
  let modula ← dwSubstrBase64Encode texts.modula
  let modula_qvga ← dwSubstrBase64Encode texts.modula_qvga
  let modula_text ← dwSubstrBase64Encode texts.modula_text
  let text ← encodeLines modula_text
  let plain ← textPart "text/plain".toList text
  let qvga ← encodeLines modula_qvga
  let html ← encodeLines
    (if modula_qvga.isEmpty then modula else modula ++ comment letter.encode_subject text qvga)
  let html ← textPart "text/html".toList html
  let appendix ← appendixPart env.capacity letter.task
  return plain ++ (html ++ (appendix ++ lastBoundary))

/-- `taskinf_dump`: the file, or `none` if it returns -1. -/
def taskinfDump (env : Env) (task : TaskInf) : Except Fault (Option Text) := do
  if task.id.isEmpty then return none
  match task.maillist.value with
  | [] => return none
  | value :: _ =>
      let letter ← prepare env task (cstr value)
      if !env.opened then return none
      let sms ← smsLine letter
      let body ← parts env letter
      return some (sms ++ (header env letter ++ body))

end Edm.Faceside
