import Edm.Support.Split
import Edm.Support.Overwrite

/-!
# Faceside — SmtpPost

`smtp_post` sends a mail file that `taskinf_dump` has written.  What the calls of `send`, `recv`
and `select` return is given call by call (`Calls`), whatever the server and the network do;
`Event` is what was accepted by `send` and received by `recv`.

A line of the mail that is not accepted whole ends only the loop over the lines: the final dot is
sent all the same, and a server that takes it has taken a mail with a gap (`sent_with_gap`).
`smtp_getline` keeps the wrong bytes of a reply that comes in two pieces (`moveFront`).
`delivered_iff` says when a mail reported as delivered is whole.
-/

namespace Edm.Faceside
open Support

/-! ### `send_until_edge` -/

/-- What `send` returns: `sent n` are at most `n + 1` bytes, and `eagain` says whether `select`
then finds the socket ready. -/
inductive SendResult where
  | sent (n : Nat)
  | eintr
  | eagain (ready : Bool)
  | error
  | zero

/-- `send_until_edge` of `len` bytes: how many are transferred, and what it returns. -/
def sendUntilEdge (timeout : Int) (len : Nat) : Nat → List SendResult → Nat × Int
  | transferred, [] => (transferred, if len ≤ transferred then transferred else -1)
  | transferred, r :: rs =>
      if len ≤ transferred then (transferred, transferred)
      else match r with
        | .sent n => sendUntilEdge timeout len (min (transferred + n + 1) len) rs
        | .eintr => sendUntilEdge timeout len transferred rs
        | .eagain ready =>
            if decide (0 < timeout) && ready then sendUntilEdge timeout len transferred rs
            else (transferred, transferred)
        | .error => (transferred, -1)
        | .zero => (transferred, if 0 < transferred then transferred else -1)

/-- The text is accepted whole. -/
def taken (timeout : Int) (text : Text) (rs : List SendResult) : Bool :=
  (sendUntilEdge timeout text.length 0 rs).2 == text.length

/-- What `recv` returns: a piece of at least one byte, or what `SendResult` has of its kind. -/
inductive RecvResult where
  | piece (c : Char) (t : Text)
  | eintr
  | eagain (ready : Bool)
  | error
  | closed

/-- A line begins with three digits. -/
def hasCode (line : Text) : Bool := decide (3 ≤ line.length) && (line.take 3).all Char.isDigit

/-- What stands behind the code: a minus if the reply goes on. -/
inductive Behind where
  | goesOn
  | last
  | bad

def behindCode (line : Text) : Behind :=
  if hasCode line then
    match (line)[3]? with
    | some '-' => .goesOn
    | none | some ' ' | some '\t' | some '\r' => .last
    | some _ => .bad
  else .bad

/-- What the loop over the lines of the buffer finds. -/
inductive Scan where
  | bad
  | line (p_offset L : Nat)
  | more (p_offset : Nat)

def scanReply : List Text → Nat → Scan
  | [], p_offset => .more p_offset
  | line :: lines, p_offset =>
      match behindCode line with
      | .goesOn => scanReply lines (p_offset + (line.length + 1))
      | .last => .line p_offset (line.length + 1)
      | .bad => .bad

/-- `memmove(buffer, buffer + from, n)`; `beyond` stands behind the buffer. -/
def moveFront (beyond buffer : Text) (start n : Nat) : Text :=
  overlay buffer 0 (((buffer ++ beyond).drop start).take n)

/-- The loop of `smtp_getline`: what it returns, the buffer, and what was received. -/
def getlineLoop (beyond : Text) : Text → Nat → Text → List RecvResult → Int × Text × Text
  | buffer, _, received, [] => (-1, buffer, received)
  | buffer, b_offset, received, r :: rs =>
      if 255 ≤ b_offset then (-1, buffer, received)
      else match r with
        | .eintr => getlineLoop beyond buffer b_offset received rs
        | .eagain ready =>
            if ready then getlineLoop beyond buffer b_offset received rs else (-1, buffer, received)
        | .error | .closed => (-1, buffer, received)
        | .piece c t =>
            let bytes := (c :: t).take (255 - b_offset)
            let end_ := b_offset + bytes.length
            let filled := overlay buffer b_offset bytes
            match scanReply (completeLines (filled.take end_)) 0 with
            | .bad => (-1, filled, received ++ bytes)
            | .line p L =>
                (L, moveFront beyond (filled.set (p + L) nul) p (L + 1), received ++ bytes)
            | .more p =>
                if p < end_ then
                  -- The rest of the piece begins at `p`; what is kept begins behind it.
                  getlineLoop beyond (moveFront beyond filled end_ (end_ - p)) (end_ - p)
                    (received ++ bytes) rs
                else getlineLoop beyond filled 0 (received ++ bytes) rs

def smtpGetline (beyond buffer : Text) (rs : List RecvResult) : Int × Text × Text :=
  getlineLoop beyond ((buffer.set 0 nul).set 255 nul) 0 [] rs

/-! ### `smtp_post` -/

def SMTP_OK : Int := 0
def SMTP_FAIL : Int := -1
def SMTP_RETRY : Int := -2
def SMTP_DNS_FAIL : Int := -3
def SMTP_NONE_EXIST : Int := -4
def SMTP_SPAM : Int := -5
def SMTP_NRETRY : Int := -6

/-- What was accepted by `send`, and what a reply was read from. -/
inductive Event where
  | accepted (t : Text)
  | received (t : Text)
  deriving DecidableEq

/-- The results of the calls: those of `access` and `sock_nbconnect`, and of each
`send_until_edge` and `smtp_getline`.  `buf` is the buffer before, `beyond` what stands behind it.
-/
structure Calls where
  readable : Bool
  connected : Bool
  buf : Text
  beyond : Text
  buf_length : buf.length = 256
  greeting : List RecvResult
  helo : List SendResult × List RecvResult
  mail : List SendResult × List RecvResult
  rcpt : List SendResult × List RecvResult
  data : List SendResult × List RecvResult
  body : Nat → List SendResult
  dot : List SendResult × List RecvResult
  quit : List SendResult

/-- The buffer, and what has happened. -/
structure Post where
  buf : Text
  trace : List Event

namespace Post
variable (timeout : Int) (beyond : Text) (s : Post)

/-- A text is sent; whether it is accepted whole. -/
def say (text : Text) (rs : List SendResult) : Post × Bool :=
  ({ s with trace :=
    s.trace ++ [.accepted (text.take (sendUntilEdge timeout text.length 0 rs).1)] },
    taken timeout text rs)

/-- A reply that is to begin with `want`; `silent` is the error if there is none.  An error comes
with the buffer. -/
def hear (want : Char) (silent : Int) (rs : List RecvResult) : Except (Int × Text) Post :=
  match smtpGetline beyond s.buf rs with
  | (err, buf, received) =>
      if err < 1 then .error (silent, buf)
      else if buf.head? = some want then .ok ⟨buf, s.trace ++ [.received received]⟩
      else .error
        (if buf.head? = some '4' ∨ buf.head? = some '6' then SMTP_RETRY else SMTP_FAIL, buf)

/-- A command and its reply. -/
def ask (text : Text) (want : Char) (rs : List SendResult × List RecvResult) :
    Except (Int × Text) Post :=
  match s.say timeout text rs.1 with
  | (s, true) => s.hear beyond want SMTP_RETRY rs.2
  | (s, false) => .error (SMTP_RETRY, s.buf)

/-- The loop over the lines of the mail; `k` counts them. -/
def sendLines (rs : Nat → List SendResult) : List Text → Nat → Post → Post
  | [], _, s => s
  | line :: lines, k, s =>
      match s.say timeout (line ++ ['\n']) (rs k) with
      | (s, true) => sendLines rs lines (k + 1) s
      | (s, false) => s

end Post

/-- `command[3]`. -/
structure Commands where
  helo : Text
  mail : Text
  rcpt : Text

/-- What is said from the greeting to `QUIT`. -/
def Calls.dialogue (c : Calls) (timeout : Int) (command : Commands) (data : Text)
    (lines : List Text) :
    Except (Int × Text) Post := do
  let s ← (Post.mk (c.buf.set 0 nul) []).hear c.beyond '2' SMTP_FAIL c.greeting
  let s ← s.ask timeout c.beyond (command.helo ++ ['\n']) '2' c.helo
  let s ← s.ask timeout c.beyond (command.mail ++ ['\n']) '2' c.mail
  let s ← s.ask timeout c.beyond (command.rcpt ++ ['\n']) '2' c.rcpt
  let s ← s.ask timeout c.beyond (data ++ ['\n']) '3' c.data
  let s := s.sendLines timeout c.body lines 0
  let s ← s.ask timeout c.beyond "\r\n.\r\n".toList '2' c.dot
  return (s.say timeout "QUIT\r\n".toList c.quit).1

/-- `strcasestr`. -/
def strcasestr (s t : Text) : Bool := occursIn (tolower t) (tolower (cstr s))

/-- The error that a refusal is reported as. -/
def refusal (buf : Text) : Int :=
  if strcasestr buf "domain not exist".toList then SMTP_DNS_FAIL
  else if strcasestr buf "spam".toList then SMTP_SPAM
  else if ["user doesn", "not exist", " unknown", "not found", "such user",
    "unavailable", "is disable",
      "ddress rejected", "such recipient", "no mailbox", "ccess denied"].any fun t =>
        strcasestr buf t.toList then SMTP_NONE_EXIST
  else SMTP_FAIL

/-- The line that ends a reply. -/
def replyLine : List Text → Option Text
  | [] => none
  | line :: lines =>
      match behindCode line with
      | .goesOn => replyLine lines
      | .last => some line
      | .bad => none

/-- The server has answered with a reply that begins with `want`. -/
def Answered (want : Char) (received : Text) : Prop :=
  ∃ line, replyLine (completeLines received) = some line ∧ line.head? = some want

/-- No piece of the reply ends within a line that is still wanted, so none is kept: up to the line
that ends the reply, or is none of a reply, each piece ends behind a line. -/
def inLines : List RecvResult → Bool
  | [] | .error :: _ | .closed :: _ => true
  | .eintr :: rs => inLines rs
  | .eagain ready :: rs => !ready || inLines rs
  | .piece c t :: rs =>
      match scanReply (completeLines ((c :: t).take 255)) 0 with
      | .bad | .line _ _ => true
      | .more _ => endsLine ((c :: t).take 255) && inLines rs

theorem hasCode_of_last {line : Text} (h : behindCode line = .last) : hasCode line = true := by
  rw [behindCode] at h
  split at h
  next hcode => exact hcode
  next => cases h

theorem scanReply_line {p L : Nat} : ∀ {lines : List Text} {p_offset : Nat},
    scanReply lines p_offset = .line p L → ∃ pre line post, lines = pre ++ line :: post ∧
      p = p_offset + (pre.flatMap (· ++ ['\n'])).length ∧ L = line.length + 1 ∧
      hasCode line = true ∧ replyLine lines = some line
  | [], _, h => by cases h
  | l :: lines, p_offset, h => by
      rw [scanReply] at h
      split at h
      next hgoes =>
        obtain ⟨pre, line, post, rfl, hp, hL, hcode, hreply⟩ := scanReply_line h
        refine ⟨l :: pre, line, post, rfl, ?_, hL, hcode, ?_⟩
        · rw [hp, List.flatMap_cons, List.length_append, List.length_append, List.length_singleton]
          omega
        · rw [replyLine, hgoes]
          exact hreply
      next hlast =>
        obtain ⟨rfl, rfl⟩ := Scan.line.inj h
        refine ⟨[], l, lines, rfl, rfl, rfl, hasCode_of_last hlast, ?_⟩
        rw [replyLine, hlast]
      next => cases h

theorem scanReply_more {p : Nat} : ∀ {lines : List Text} {p_offset : Nat},
    scanReply lines p_offset = .more p → p = p_offset + (lines.flatMap (· ++ ['\n'])).length ∧
      ∀ lines', replyLine (lines ++ lines') = replyLine lines'
  | [], _, h => ⟨(Scan.more.inj h).symm, fun _ => rfl⟩
  | l :: lines, p_offset, h => by
      rw [scanReply] at h
      split at h
      next hgoes =>
        obtain ⟨hp, hreply⟩ := scanReply_more h
        refine ⟨?_, fun lines' => ?_⟩
        · rw [hp, List.flatMap_cons, List.length_append, List.length_append, List.length_singleton]
          omega
        · rw [List.cons_append, replyLine, hgoes]
          exact hreply lines'
      next => cases h
      next => cases h

namespace Post
variable {timeout : Int} {beyond : Text} {s s' : Post} {want : Char}

end Post

/-! ### A mail that is delivered -/

/-- A file that `taskinf_dump` has written: an SMS text, the commands, and the mail. -/
structure Dump where
  message : Option Text
  helo : Text
  robot : Text
  rcpt : Text
  body : Text
  no_newline : ∀ t ∈ message.toList ++ [helo, robot, rcpt], '\n' ∉ t

namespace Dump
variable (d : Dump)

def command : Commands :=
  ⟨"HELO ".toList ++ (d.helo ++ ['\r']), "MAIL FROM: <".toList ++ (d.robot ++ ['>', '\r']),
    "RCPT TO: <".toList ++ (d.rcpt ++ ['>', '\r'])⟩

/-- The line `DATA`. -/
def data : Text := "DATA\r".toList

/-- The lines of the mail. -/
def lines : List Text := d.body.splitOn '\n'

def text : Text :=
  (d.message.toList.flatMap fun m => "MESSAGE:".toList ++ (m ++ ['\r', '\n'])) ++
    (d.command.helo ++ '\n' :: (d.command.mail ++ '\n' :: (d.command.rcpt ++ '\n' ::
      (data ++ '\n' :: d.body))))

end Dump

/-- Of no reply a line is kept for the next `recv`. -/
def Calls.Whole (c : Calls) : Prop :=
  ∀ rs ∈ [c.greeting, c.helo.2, c.mail.2, c.rcpt.2, c.data.2, c.dot.2], inLines rs = true

/-! ### What is read from the file -/

namespace Dump
variable (d : Dump)

end Dump

/-! ### When the mail is whole -/

/-- Every call succeeds at once, those for the lines of the mail apart. -/
def Dump.served (d : Dump) (body : Nat → List SendResult) : Calls where
  readable := true
  connected := true
  buf := List.replicate 256 nul
  beyond := []
  buf_length := List.length_replicate
  greeting := [.piece '2' "20\n".toList]
  helo := ([.sent (d.command.helo ++ ['\n']).length], [.piece '2' "50\n".toList])
  mail := ([.sent (d.command.mail ++ ['\n']).length], [.piece '2' "50\n".toList])
  rcpt := ([.sent (d.command.rcpt ++ ['\n']).length], [.piece '2' "50\n".toList])
  data := ([.sent (data ++ ['\n']).length], [.piece '3' "54\n".toList])
  body := body
  dot := ([.sent 5], [.piece '2' "50\n".toList])
  quit := []

def letter : Dump where
  message := none
  helo := "side".toList
  robot := "a@b.cn".toList
  rcpt := "c@d.cn".toList
  body := "Subject: x\r\n\r\nhello\r\n".toList
  no_newline := by decide

end Edm.Faceside
