import Edm.Support.CString

/-!
# Smtp — Context

The data of one SMTP session of the relay (`smtpsvr.h`): the commands, the reply texts, and
`Smtp_Context`, whose mutable fields every command handler reads and writes.  The socket of the
client is not a field: a reply is the text a handler sends.

`MimeParser.isValidEmailAddress` is the address check of the charset library.  The session is
modelled over an arbitrary check; this is the one the server links.
-/

namespace Edm.Smtp
open Support

/-! ### Commands and replies -/

/-- `enum SmtpCommand`.  `next_steps`, a bit set of commands, is the list of its members. -/
inductive SmtpCommand where
  | zero | helo | ehlo | mail | rcpt | data | rset | noop | quit | auth | pswd
  deriving DecidableEq, Repr

def smtpDot : Text := ".".toList
def smtpCrlf : Text := "\r\n".toList

def smtpReply221 : Text := "221 Bye\r\n".toList
def smtpReply250 : Text := "250 OK\r\n".toList
def smtpReply354 : Text := "354 End with <CRLF>.<CRLF>\r\n".toList
def smtpReply401 : Text := "401 Can not connect to mail exchange server\r\n".toList
def smtpReply402 : Text := "402 The connection to the server is closed\r\n".toList
def smtpReply502 : Text := "502 Command not implemented\r\n".toList
def smtpReply503 : Text := "503 Bad sequence of commands \r\n".toList
def smtpReply508 : Text := "508 Syntax: HELO/EHLO hostname\r\n".toList
def smtpReply509 : Text := "509 Invalid User\r\n".toList
def smtpReply510 : Text := "510 Failed DNS Lookup\r\n".toList
def smtpReply511 : Text := "511 Timeout while trying to connect to mail exchange server\r\n".toList
def smtpReply512 : Text := "512 Mailtext size limit exceeded\r\n".toList
def smtpReply600 : Text := "600 Sender message rate limit exceeded\r\n".toList

def smtpUsername : Text := "334 VXNlcm5hbWU6\r\n".toList
def smtpPassword : Text := "334 UGFzc3dvcmQ6\r\n".toList
def smtpAuthMsg : Text := "235 Delayed verification\r\n".toList

/-- A 2xx or 3xx reply. -/
def positive (reply : Text) : Bool :=
  match reply with
  | c :: _ => c == '2' || c == '3'
  | [] => false

/-! ### The session -/

/-- `struct Smtp_Context`. -/
structure SmtpContext where
  command : SmtpCommand
  nextSteps : List SmtpCommand
  clientHost : Text
  clientPort : Int
  remoteHandle : Int
  remotePort : Int
  remoteHost : Text
  smtpHelo : Text
  smtpMail : Text
  smtpRcpt : Text
  smtpData : Text
  smtpUser : Text
  smtpPswd : Text
  realSender : Text
  msgHeader : Text
  rcptDomain : Text
  replyText : Text
  xMid : Text
  bytesTotal : Int
  point : Int
  abSize : Int
  sendbuffer : List Text
  listHistory : List Text
  filePath : Text
  curRetryCount : Int
  nextSendTime : Int
  deriving DecidableEq

/-- The context `poll4accept` hands to a new session.  No constructor or `clear` writes
`ab_size`, so it holds whatever the memory held. -/
def SmtpContext.accepted (host : Text) (port now abSize : Int) : SmtpContext where
  command := .zero
  nextSteps := [.helo, .ehlo, .noop, .rset, .quit]
  clientHost := host
  clientPort := port
  remoteHandle := -1
  remotePort := 0
  remoteHost := []
  smtpHelo := []
  smtpMail := []
  smtpRcpt := []
  smtpData := []
  smtpUser := []
  smtpPswd := []
  realSender := []
  msgHeader := []
  rcptDomain := []
  replyText := []
  xMid := []
  bytesTotal := 0
  point := now
  abSize := abSize
  sendbuffer := []
  listHistory := []
  filePath := []
  curRetryCount := -1
  nextSendTime := 0

/-! ### The address check -/

namespace MimeParser

/-- `isValidEmailChar`: the characters whose entry in `m_lpValidEmailChar` is 1. -/
def isValidEmailChar (c : Char) : Bool :=
  33 ≤ c.toNat && !"\"(),:;<>@[\\]".toList.contains c

/-- The loop of `isValidEmailAddress`, at the characters after `prev`. -/
def scanAddress (bGetAt bGetDomainPoint : Bool) (prev : Option Char) : Text → Bool
  | [] => bGetAt && bGetDomainPoint
  | c :: rest =>
      if c == '@' then
        if bGetAt || prev.isNone || rest.isEmpty then false
        else scanAddress true bGetDomainPoint (some c) rest
      else if bGetAt && c == '.' then
        if prev == some '@' || rest.isEmpty then false
        else scanAddress bGetAt true (some c) rest
      else if !isValidEmailChar c then false
      else scanAddress bGetAt bGetDomainPoint (some c) rest

/-- `MimeParser::isValidEmailAddress`. -/
def isValidEmailAddress (strEmailAddress : Text) : Bool :=
  scanAddress false false none strEmailAddress

example : isValidEmailAddress "a@b.c".toList = true := by decide
example : isValidEmailAddress "a@@b.c".toList = false := by decide

end MimeParser

end Edm.Smtp
