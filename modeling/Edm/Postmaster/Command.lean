import Edm.Support.Mailbox
import Edm.Support.Crlf
import Edm.Support.Split

/-!
# Postmaster — Command

The dialogue of one connection, line by line: `handler_request_command`, which reads a user name, a
password or a command, and `handler_request_data`, which stores a line of a message.  Which commands
are allowed is a mask (`forword`); the mask that is `FW_AUTH` alone says that the user name is
awaited, and `FW_DATA` alone that a message is being read.

What the clock and `fopen` give when a message is stored is a parameter (`Moment`).
-/

namespace Edm.Postmaster
open Support

/-! ### Masks and responses -/

def fwHelo : Nat := 0x01
def fwEhlo : Nat := 0x02
def fwAuth : Nat := 0x04
def fwPass : Nat := 0x08
def fwMail : Nat := 0x10
def fwRcpt : Nat := 0x20
def fwData : Nat := 0x40
def fwRset : Nat := 0x80
def fwNoop : Nat := 0x100
def fwQuit : Nat := 0x200
def fwExit : Nat := 0x400

/-- The mask of a new connection. -/
def maskNew : Nat := fwHelo ||| fwEhlo ||| fwRset ||| fwNoop ||| fwQuit
/-- The mask behind HELO, EHLO, RSET and a password. -/
def maskHelo : Nat := fwHelo ||| fwEhlo ||| fwAuth ||| fwMail ||| fwRset ||| fwNoop ||| fwQuit
/-- The mask behind MAIL. -/
def maskMail : Nat := fwHelo ||| fwEhlo ||| fwMail ||| fwRcpt ||| fwRset ||| fwNoop ||| fwQuit
/-- The mask behind RCPT. -/
def maskRcpt : Nat :=
  fwHelo ||| fwEhlo ||| fwMail ||| fwRcpt ||| fwData ||| fwRset ||| fwNoop ||| fwQuit
/-- The mask behind a message. -/
def maskEnd : Nat := fwHelo ||| fwEhlo ||| fwMail ||| fwRset ||| fwNoop ||| fwQuit

def esmtp220 : Text := "220 M.Target System\r\n".toList
def esmtp221 : Text := "221 Bye\r\n".toList
def esmtp235 : Text := "235 Authentication successful\r\n".toList
def esmtp250 : Text := "250 OK\r\n".toList
def esmtpU334 : Text := "334 VXNlcm5hbWU6\r\n".toList
def esmtpP334 : Text := "334 UGFzc3dvcmQ6\r\n".toList
def esmtp354 : Text := "354 End with <CRLF>.<CRLF>\r\n".toList
def esmtp501 : Text := "501 Syntax error\r\n".toList
def esmtpH501 : Text := "501 Syntax: HELO/EHLO hostname\r\n".toList
def esmtpM501 : Text := "501 Syntax: MAIL FROM: <address>\r\n".toList
def esmtpR501 : Text := "501 Syntax: RCPT TO: <address>\r\n".toList
def esmtp502 : Text := "502 Error: Command not implemented\r\n".toList
def esmtp503 : Text := "503 Error: Bad sequence of commands\r\n".toList

/-! ### Storage -/

/-- Where a message is read: `EDMSMTP_HEADER`, `EDMSMTP_BODY`, `EDMSMTP_END`. -/
inductive Follow where
  | header
  | body
  | finish
  deriving DecidableEq

/-- `storage_t`: the two folders, and what the maps of the filter have under a key. -/
structure Storage where
  backup : Text
  filter : Text
  domain : Text → Option Nat
  mailbox : Text → Option Nat
  address : BitVec 32 → Option Nat

/-- What `snprintf`, `strftime` and `fopen` give when a message is stored. -/
structure Moment where
  day : Text
  name : Text
  date : Text
  opened : Bool
  date_line : '\n' ∉ date

/-- `esmtp_commands_t`. -/
structure Commands where
  helo : Text
  user : Text
  pass : Text
  mail : Text
  rcpt : Text
  emlpath : Text

/-- `edmsmtp_ctx_t`, without its buffer for reading and its place in the wheel.  `fdev` is what was
written into the open file, `stored` are the files that were renamed, and `wtbuf` is the response
that is still to be sent.  `status` is read only where it was just written, and is no field here. -/
structure Context where
  forword : Nat
  follow : Follow
  address : BitVec 32
  fdev : Option Text
  stored : List (Text × Text)
  wtbuf : Text
  cmds : Commands

/-- `Create_edmsmtp_context` and the greeting of `epoll_accept`. -/
def Context.accepted (address : BitVec 32) : Context where
  forword := maskNew
  follow := .header
  address := address
  fdev := none
  stored := []
  wtbuf := esmtp220
  cmds := ⟨[], [], [], [], [], []⟩

/-- An entry of a map of the filter, or its default, has a bit of the mask. -/
def checkStorage {K : Type} (entries : K → Option Nat) (default key : K) (mask : Nat) : Bool :=
  match (entries key).or (entries default) with
  | some flags => flags &&& mask != 0
  | none => false

def defaultKey : Text := "default".toList

def checkStorageAddress (s : Storage) (address : BitVec 32) (mask : Nat) : Bool :=
  checkStorage s.address 0 address mask

/-- The key is what stands behind the first `@`; the whole text, if it has none. -/
def checkStorageDomain (s : Storage) (mailbox : Text) (mask : Nat) : Bool :=
  checkStorage s.domain defaultKey (if '@' ∈ mailbox then (cut '@' mailbox).2 else mailbox) mask

def checkStorageMailbox (s : Storage) (mailbox : Text) (mask : Nat) : Bool :=
  checkStorage s.mailbox defaultKey mailbox mask

def isStorageFilter (s : Storage) (ctx : Context) : Bool :=
  !s.filter.isEmpty &&
    (checkStorageAddress s ctx.address 1 || checkStorageDomain s ctx.cmds.mail 1 ||
      checkStorageDomain s ctx.cmds.rcpt 2 || checkStorageMailbox s ctx.cmds.mail 1 ||
      checkStorageMailbox s ctx.cmds.rcpt 2)

/-- `inet_ntoa` of an address in network byte order. -/
def inetNtoa (address : BitVec 32) : Text :=
  let part (k : Nat) : Text := Nat.toDigits 10 (address.toNat / 256 ^ k % 256)
  part 0 ++ '.' :: (part 1 ++ '.' :: (part 2 ++ '.' :: part 3))

/-- The header that `start_storage` writes in front of a message, up to its date. -/
def receivedFrom (address : BitVec 32) (helo mail rcpt : Text) : Text :=
  "Received: from ".toList ++ helo ++ "[".toList ++ inetNtoa address ++
    "] (account ".toList ++ mail ++
    ")\r\n".toList ++ "\tby M.Target with SMTP for ".toList ++ rcpt ++ ";\r\n\t".toList

/-- The whole header. -/
def receivedHeader (address : BitVec 32) (helo mail rcpt date : Text) : Text :=
  receivedFrom address helo mail rcpt ++ (date ++ crlf)

/-- Where the header ends is known. -/
theorem receivedHeader_inj {address : BitVec 32} {helo mail rcpt date date' t t' : Text}
    (hd : '\n' ∉ date) (hd' : '\n' ∉ date')
    (h : receivedHeader address helo mail rcpt date ++ t = receivedHeader address helo mail
      rcpt date' ++ t') :
    t = t' := by
  have hline : ∀ {d : Text}, '\n' ∉ d → '\n' ∉ d ++ ['\r'] := by
    intro d hd hmem
    rcases List.mem_append.mp hmem with hmem | hmem
    · exact hd hmem
    · exact absurd (List.mem_singleton.mp hmem) (by decide)
  have hsplit : ∀ d t : Text, d ++ (crlf ++ t) = (d ++ ['\r']) ++ '\n' :: t := fun d t => by
    rw [List.append_assoc]
    rfl
  simp only [receivedHeader, List.append_assoc] at h
  have htail := List.append_cancel_left h
  rw [hsplit, hsplit] at htail
  have hcut := congrArg (cut '\n') htail
  rw [cut_append (hline hd), cut_append (hline hd')] at hcut
  exact (Prod.mk.inj hcut).2

/-- `start_storage`: no file is opened when no folder is configured, or when `fopen` fails. -/
def startStorage (s : Storage) (now : Moment) (ctx : Context) : Context :=
  let folder := if isStorageFilter s ctx then s.filter else s.backup
  if folder.isEmpty then { ctx with fdev := none }
  else
    { ctx with
      cmds.emlpath := folder ++ now.day ++ now.name
      fdev :=
        if now.opened then
          some (receivedHeader ctx.address ctx.cmds.helo ctx.cmds.mail ctx.cmds.rcpt now.date)
        else none }

/-- Storing changes the path and the file; a file that was opened has the header. -/
theorem startStorage_eq (s : Storage) (now : Moment) (ctx : Context) : ∃ emlpath fdev,
    startStorage s now ctx = { ctx with cmds.emlpath := emlpath, fdev := fdev } ∧
      ∀ file, fdev = some file →
        file = receivedHeader ctx.address ctx.cmds.helo ctx.cmds.mail ctx.cmds.rcpt now.date := by
  unfold startStorage
  generalize (if isStorageFilter s ctx then s.filter else s.backup) = folder
  dsimp only
  split
  · exact ⟨ctx.cmds.emlpath, none, rfl, fun file h => absurd h.symm (Option.some_ne_none file)⟩
  · refine ⟨folder ++ now.day ++ now.name, _, rfl, fun file h => ?_⟩
    split at h
    · exact (Option.some.inj h).symm
    · cases h

/-! ### Commands -/

/-- `set_edmsmtp_response`. -/
def Context.respond (ctx : Context) (msg : Text) : Context := { ctx with wtbuf := msg }

/-- `isblank`. -/
def isblank (c : Char) : Bool := c == ' ' || c == '\t'

/-- What `where_mailbox` assigns to the mailbox, if it gets that far.  Whatever stands in the place
of the colon is skipped. -/
def assigned (keyword ptr : Text) : Option Text :=
  if strncasecmpEq ptr keyword then
    match skipBlanks (ptr.drop keyword.length) with
    | [] => none
    | _ :: ptr =>
        let ptr := match skipBlanks ptr with
          | '<' :: ptr => skipBlanks ptr
          | ptr => ptr
        if ptr.isEmpty then none else some (eraseBack " \t>".toList ptr)
  else none

/-- `where_mailbox`: the mailbox is assigned before it is judged. -/
def whereMailbox (keyword ptr mailbox : Text) : Bool × Text :=
  match assigned keyword ptr with
  | none => (false, mailbox)
  | some mailbox => (checkMailbox (cstr mailbox), mailbox)

/-- The comparisons of `handler_request_command`, in their order. -/
def keywords : List (Text × Nat) :=
  [("HELO".toList, fwHelo), ("EHLO".toList, fwEhlo), ("AUTH".toList, fwAuth),
    ("MAIL".toList, fwMail),
    ("RCPT".toList, fwRcpt), ("DATA".toList, fwData), ("RSET".toList, fwRset),
    ("NOOP".toList, fwNoop),
    ("QUIT".toList, fwQuit)]

def doHelo (ptr : Text) (ctx : Context) : Context :=
  if ptr.length < 1 then ctx.respond esmtpH501
  else { ctx with cmds.helo := ptr, forword := maskHelo }.respond esmtp250

def doAuth (ptr : Text) (ctx : Context) : Context :=
  if ptr.length < 5 || !strncasecmpEq ptr "LOGIN".toList then ctx.respond esmtp501
  else if !(ptr.drop 5).all isblank then ctx.respond esmtp501
  else { ctx with forword := fwAuth }.respond esmtpU334

def doMail (ptr : Text) (ctx : Context) : Context :=
  match whereMailbox "FROM".toList ptr ctx.cmds.mail with
  | (false, mail) => { ctx with cmds.mail := mail }.respond esmtpM501
  | (true, mail) => { ctx with cmds.mail := tolower mail, forword := maskMail }.respond esmtp250

def doRcpt (ptr : Text) (ctx : Context) : Context :=
  match whereMailbox "TO".toList ptr ctx.cmds.rcpt with
  | (false, rcpt) => { ctx with cmds.rcpt := rcpt }.respond esmtpR501
  | (true, rcpt) => { ctx with cmds.rcpt := tolower rcpt, forword := maskRcpt }.respond esmtp250

def doData (s : Storage) (now : Moment) (ctx : Context) : Context :=
  { startStorage s now ctx with follow := .header, forword := fwData }.respond esmtp354

def doRset (ctx : Context) : Context :=
  { ctx with
    cmds := { ctx.cmds with user := [], pass := [], mail := [], rcpt := [] }
    forword := maskHelo }.respond esmtp250

/-- The `switch` over the command, if it is allowed. -/
def doCommand (s : Storage) (now : Moment) (asked : Nat) (ptr : Text) (ctx : Context) : Context :=
  if asked = fwHelo ∨ asked = fwEhlo then doHelo ptr ctx
  else if asked = fwAuth then doAuth ptr ctx
  else if asked = fwMail then doMail ptr ctx
  else if asked = fwRcpt then doRcpt ptr ctx
  else if asked = fwData then doData s now ctx
  else if asked = fwRset then doRset ctx
  else if asked = fwNoop then ctx.respond esmtp250
  else if asked = fwQuit then { ctx with forword := fwExit }.respond esmtp221
  else ctx.respond esmtp503

/-- The keyword of a command and its argument. -/
def parseCommand (ptr : Text) : Option (Nat × Text) :=
  match keywords.find? fun k => strncasecmpEq ptr k.1 with
  | none => none
  | some (_, status) =>
      if ((ptr.drop 4).take 1).all isblank then some (status, skipBlanks (ptr.drop 4)) else none

/-- `handler_request_command`. -/
def handlerRequestCommand (s : Storage) (now : Moment) (ctx : Context) (buf : Text) : Context :=
  if ctx.forword = fwAuth then
    { ctx with cmds.user := buf, forword := fwPass }.respond esmtpP334
  else if ctx.forword = fwPass then
    { ctx with cmds.pass := buf, forword := maskHelo }.respond esmtp235
  else if (skipBlanks buf).length < 1 then ctx
  else if (skipBlanks buf).length < 4 then ctx.respond esmtp502
  else match parseCommand (skipBlanks buf) with
    | none => ctx.respond esmtp502
    | some (status, ptr) => doCommand s now (ctx.forword &&& status) ptr ctx

/-! ### Data -/

/-- What `handler_request_data` takes a line for. -/
def lineFlags (follow : Follow) (buf : Text) : Follow :=
  if buf = ".\n".toList ∨ buf = ".\r\n".toList then .finish
  else if (buf = "\n".toList ∨ buf = "\r\n".toList) ∧ follow = .header then .body
  else follow

/-- `handler_request_data`; a line is written as it came. -/
def handlerRequestData (ctx : Context) (buf : Text) : Context :=
  match lineFlags ctx.follow buf with
  | .finish =>
      { ctx with
        stored :=
          ctx.stored ++ (ctx.fdev.map fun file => (ctx.cmds.emlpath ++ "ml".toList, file)).toList
        fdev := none
        follow := .finish
        forword := maskEnd }.respond esmtp250
  | flags =>
      { ctx with
        follow := if flags = .body ∧ ctx.follow = .header then .body else ctx.follow
        fdev := ctx.fdev.map (· ++ buf) }

/-! ### Lines -/

/-- The line without its end and the blanks before it. -/
def trimLine (line : Text) : Text := eraseBack "\r \t\n".toList line

/-- What `epoll_input` does with a line that has its end; `none`: the connection is closed. -/
def handleLine (s : Storage) (now : Moment) (ctx : Context) (line : Text) : Option Context :=
  if ctx.forword = fwExit then none
  else if ctx.forword = fwData then some (handlerRequestData ctx line)
  else some (handlerRequestCommand s now ctx (trimLine line))

end Edm.Postmaster
