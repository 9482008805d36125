import Edm.Postmaster.Envelope

/-!
# Postmaster — Input

One connection of `epoll_input` and `epoll_output` with its client: bytes arrive in pieces of any
size, a line that is not complete waits in the buffer, and each line that is complete is handled.
The client waits for each response before it goes on, and doubles the dot a line of its data
starts with.

The model is one pass of the loop of `epoll_input` at a time: `recv_n`, and the lines that are
complete behind it.  A response that waits to be sent means that `EPOLLOUT` is what is waited for.
-/

namespace Edm.Postmaster
open Support

/-! ### Receiving -/

def rwbufSize : Nat := 4096

/-- What `recv` does when it is called: it gives `n + 1` bytes at most, or none. -/
inductive Recv where
  | bytes (n : Nat)
  | eintr
  | eagain
  | error

/-- How `recv_n` ends. -/
inductive Ended where
  | full
  | again
  | error
  | closed
  deriving DecidableEq

/-- What `recv_n` has transferred, what it has left, and how it ended. -/
structure Received where
  got : Text
  rest : Text
  ended : Ended

/-- `recv_n` into `room` bytes; `recv` is answered by the list, and by `EAGAIN` behind its end.
`closed`: the client closes behind what is pending. -/
def recvN (closed : Bool) : List Recv → Nat → Text → Received
  | [], room, pending => ⟨[], pending, if room = 0 then .full else .again⟩
  | r :: rs, room, pending =>
      if room = 0 then ⟨[], pending, .full⟩
      else match r with
        | .eintr => recvN closed rs room pending
        | .eagain => ⟨[], pending, .again⟩
        | .error => ⟨[], pending, .error⟩
        | .bytes n =>
            if pending = [] then ⟨[], [], if closed then .closed else .again⟩
            else
              let k := min (min (n + 1) room) pending.length
              let r := recvN closed rs (room - k) (pending.drop k)
              { r with got := pending.take k ++ r.got }

/-- What `recv_n` returns. -/
def Received.retval (r : Received) : Int :=
  match r.ended with
  | .full | .again => r.got.length
  | .error => -1
  | .closed => 0

/-- `errno` is `EAGAIN`; where the client has closed, it is what an earlier call has left. -/
def Received.eagain (r : Received) (stale : Bool) : Bool :=
  match r.ended with
  | .again => true
  | .error => false
  | .full | .closed => stale

/-- What `recv_n` takes are the first bytes. -/
theorem got_append_rest (closed : Bool) : ∀ (rs : List Recv) (room : Nat) (pending : Text),
    (recvN closed rs room pending).got ++ (recvN closed rs room pending).rest = pending := by
  intro rs
  induction rs with
  | nil => exact fun _ _ => rfl
  | cons r rs ih =>
    intro room pending
    unfold recvN
    split
    · rfl
    · cases r with
      | eintr => exact ih room pending
      | eagain | error => rfl
      | bytes n =>
        dsimp only
        split
        next h => exact h.symm
        next => rw [List.append_assoc, ih, List.take_append_drop]

/-- `recv_n` ends without a reason only when its buffer is full. -/
theorem room_le_got (closed : Bool) : ∀ (rs : List Recv) (room : Nat) (pending : Text),
    (recvN closed rs room pending).ended = .full →
      room ≤ (recvN closed rs room pending).got.length := by
  intro rs
  induction rs with
  | nil =>
    intro room pending h
    unfold recvN at h
    dsimp only at h
    split at h
    next h₀ =>
      rw [h₀]
      exact Nat.zero_le _
    next => cases h
  | cons r rs ih =>
    intro room pending
    unfold recvN
    split
    next h₀ =>
      rw [h₀]
      exact fun _ => Nat.zero_le _
    next =>
      cases r with
      | eintr => exact ih room pending
      | eagain | error =>
        intro h
        cases h
      | bytes n =>
        dsimp only
        split
        · intro h
          dsimp only at h
          split at h <;> cases h
        next =>
          intro h
          have hrest := ih _ _ h
          rw [List.length_append, List.length_take]
          omega

/-! ### Lines -/

/-- A line is handled and noted. -/
def Session.handle (s : Storage) (now : Moment) (x : Session) (line : Text) : Option Session :=
  (handleLine s now x.ctx line).map fun ctx => ⟨ctx, x.log ++ [⟨x.ctx.reading, line, ctx.wtbuf⟩]⟩

/-- The loop over the lines in the buffer.  A command, and the end of a message, empty the buffer
(`true`); `none`: the connection is closed. -/
def handleLines (s : Storage) (now : Moment) : List Text → Session → Option (Session × Bool)
  | [], x => some (x, false)
  | line :: lines, x =>
      match x.handle s now line with
      | none => none
      | some x' =>
          if x.ctx.forword = fwData ∧ x'.ctx.forword = fwData then handleLines s now lines x'
          else some (x', true)

/-! ### Connections -/

/-- A line of blanks. -/
def blank (line : Text) : Bool := (skipBlanks (trimLine line)).isEmpty

/-- What a client sends at once: a line, or a message. -/
inductive Piece where
  | line (text : Text)
  | message (lines : List Text)
  deriving DecidableEq

/-- A line that starts with a dot is sent with a second dot. -/
def stuff (line : Text) : Text := if line.head? = some '.' then '.' :: line else line

/-- The lines of a piece without their line feed, and whether they are data. -/
def Piece.lines : Piece → List (Text × Bool)
  | .line text => [(text ++ ['\r'], false)]
  | .message lines => lines.map (fun l => (stuff l ++ ['\r'], true)) ++ [(".\r".toList, true)]

def Piece.text (p : Piece) : Text := p.lines.flatMap fun l => l.1 ++ ['\n']

/-- The lines have no line feed in them, and they fit the buffer. -/
def Piece.Fits (p : Piece) : Prop := ∀ l ∈ p.lines, '\n' ∉ l.1 ∧ l.1.length < rwbufSize

/-- What `send` does when it is called. -/
inductive Send where
  | bytes (n : Nat)
  | eintr
  | eagain
  | error

/-- A connection and its client: the session of the server and its buffer, what the client has sent
(`sent`) and what of it is still to be received, what the client was told, and how many responses it
expects to have been told when it has an answer to everything. -/
structure Connection where
  session : Session
  rdbuf : Text
  opened : Bool
  pending : Text
  closed : Bool
  sent : List Piece
  told : Text
  expects : Nat

/-- What happens on a connection.  `stale`: `errno` is `EAGAIN` from an earlier call. -/
inductive Act where
  | send (p : Piece)
  | close
  | input (now : Moment) (recvs : List Recv) (stale : Bool)
  | output (sends : List Send)
  | drop

namespace Connection

def accepted (address : BitVec 32) : Connection where
  session := .accepted address
  rdbuf := []
  opened := true
  pending := []
  closed := false
  sent := []
  told := []
  expects := 1

/-- What `recv_n` gives in a pass. -/
def received (recvs : List Recv) (c : Connection) : Received :=
  recvN c.closed recvs (rwbufSize - c.rdbuf.length) c.pending

/-- One pass of the loop of `epoll_input`. -/
def input (s : Storage) (now : Moment) (recvs : List Recv) (stale : Bool)
    (c : Connection) : Connection :=
  if rwbufSize ≤ c.rdbuf.length then { c with opened := false }
  else
    let r := c.received recvs
    if r.retval < 1 then
      { c with
        pending := r.rest
        opened := r.eagain stale && decide (c.session.ctx.forword ≠ fwExit) }
    else
      let buffer := c.rdbuf ++ r.got
      match handleLines s now ((completeLines buffer).map (· ++ ['\n'])) c.session with
      | none => { c with pending := r.rest, rdbuf := buffer, opened := false }
      | some (x, reset) =>
          { c with
            session := x
            pending := r.rest
            rdbuf := if reset then [] else if x.ctx.wtbuf ≠ [] then buffer else lastPart buffer }

/-- The loop of `epoll_output`: what is sent, and whether the context is kept. -/
def sendLoop : List Send → Text → Text × Bool
  | [], _ => ([], true)
  | r :: rs, wtbuf =>
      if wtbuf = [] then ([], true)
      else match r with
        | .eintr => sendLoop rs wtbuf
        | .eagain => ([], true)
        | .error => ([], false)
        | .bytes n =>
            let r := sendLoop rs (wtbuf.drop (n + 1))
            (wtbuf.take (n + 1) ++ r.1, r.2)

/-- What is sent are the first bytes. -/
theorem sendLoop_prefix : ∀ (rs : List Send) (wtbuf : Text), (sendLoop rs wtbuf).1 <+: wtbuf := by
  intro rs
  induction rs with
  | nil => exact fun _ => List.nil_prefix
  | cons r rs ih =>
    intro wtbuf
    unfold sendLoop
    split
    · exact List.nil_prefix
    · cases r with
      | eintr => exact ih wtbuf
      | eagain | error => exact List.nil_prefix
      | bytes n =>
        have h := (List.prefix_append_right_inj (wtbuf.take (n + 1))).mpr (ih (wtbuf.drop (n + 1)))
        rw [List.take_append_drop] at h
        exact h

/-- `epoll_output`: behind the response to QUIT the context is released. -/
def output (sends : List Send) (c : Connection) : Connection :=
  let r := sendLoop sends c.session.ctx.wtbuf
  let rest := c.session.ctx.wtbuf.drop r.1.length
  { c with
    session := { c.session with ctx := { c.session.ctx with wtbuf := rest } }
    told := c.told ++ r.1
    opened := r.2 && decide (rest ≠ [] ∨ c.session.ctx.forword ≠ fwExit) }

/-- The client was asked for a user name or a password. -/
def Asked (c : Connection) : Prop := esmtpU334 <:+ c.told ∨ esmtpP334 <:+ c.told

instance (c : Connection) : Decidable c.Asked := inferInstanceAs (Decidable (_ ∨ _))

/-- The responses a piece asks for: a blank line is answered only in the place of credentials. -/
def asks (c : Connection) : Piece → Nat
  | .line text => if c.Asked ∨ blank (text ++ crlf) = false then 1 else 0
  | .message _ => 1

/-- A client that waits for its responses, and sends a message exactly when it was told to. -/
def MaySend (c : Connection) (p : Piece) : Prop :=
  c.closed = false ∧ c.told.count '\n' = c.expects ∧
    match p with
    | .line _ => ¬ esmtp354 <:+ c.told
    | .message _ => esmtp354 <:+ c.told

instance (c : Connection) (p : Piece) : Decidable (c.MaySend p) := by
  cases p <;> exact inferInstanceAs (Decidable (_ ∧ _ ∧ _))

instance (p : Piece) : Decidable p.Fits := inferInstanceAs (Decidable (∀ l ∈ p.lines, _))

/-- A step of a connection. -/
def step (s : Storage) (c : Connection) : Act → Option Connection
  | .send p =>
      if c.MaySend p ∧ p.Fits then
        some { c with
          pending := c.pending ++ p.text
          sent := c.sent ++ [p]
          expects := c.expects + c.asks p }
      else none
  | .close => some { c with closed := true }
  | .input now recvs stale =>
      if c.opened && c.session.ctx.wtbuf.isEmpty then some (c.input s now recvs stale) else none
  | .output sends =>
      if c.opened && !c.session.ctx.wtbuf.isEmpty then some (c.output sends) else none
  | .drop => some { c with opened := false }

end Connection

end Edm.Postmaster
