import Edm.Smtp.RateControl
import Edm.Smtp.Quota

/-!
# Smtp — Session

`SmtpSvr::handle_line` and what it calls: `parse_type`, the command handlers and `on_input`, as
built with `SEND_ONCE_VERSION`.  `handleLine` takes a line of the client and returns the value
the caller counts, the tables, the session and the texts sent to the client.

Whether a line is message text is not a field of the session.  `dataPhase` is the test
`handle_line` makes: the last command is DATA and `reply_text` begins with `354`.

* `route` is the branch `handle_line` takes; `handleLine_eq` is the function, branch by branch.
* `onMail_cases`, `onRcpt_cases`, `onData_cases`, `onInput_cases` say what a handler can do.
-/

namespace Edm.Smtp
open Support

/-! ### What a line is handled in -/

/-- `auth_node_t`. -/
structure AuthNode where
  authUser : Text
  authPswd : Text

/-- What the handlers read of the server and do not write: the address check it is linked with,
`m_ignore_auth`, `m_auth_list` and the control limits. -/
structure SmtpSvr where
  isValidEmailAddress : Text → Bool
  mIgnoreAuth : Int
  mAuthList : List AuthNode
  control : Control

/-- The tables sessions share: the rows of the table `smtp`, and the quotas. -/
structure Tables where
  smtp : List SmtpRow
  quotas : Quotas

/-- The moment a line is handled at: the clocks of the server and of its database, `rand()`, what
the database answers, the value `send` returns, and the value a caller finds when `on_data` runs
off its end without returning one. -/
structure Moment where
  now : Int
  dbNow : Int
  rand : Nat
  mysql : Mysql
  sent : Int
  offEnd : Int

/-! ### `parse_type` -/

/-- `parse_type`. -/
def parseType (line : Text) : SmtpCommand :=
  if strncasecmpEq line "HELO".toList then .helo
  else if strncasecmpEq line "EHLO".toList then .ehlo
  else if strncasecmpEq line "MAIL ".toList then .mail
  else if strncasecmpEq line "RCPT ".toList then .rcpt
  else if strcasecmpEq line "DATA".toList then .data
  else if strcasecmpEq line "RSET".toList then .rset
  else if strcasecmpEq line "NOOP".toList then .noop
  else if strcasecmpEq line "QUIT".toList then .quit
  else if strcasecmpEq line "AUTH LOGIN".toList then .auth
  else .zero

/-! ### The handlers -/

/-- `on_helo`. -/
def onHelo (line : Text) (ctx : SmtpContext) : Int × SmtpContext :=
  if skipBlanks ((cstr line).drop 4) = [] then (-1, { ctx with replyText := smtpReply508 })
  else
    -- `line[0] = 'H'; line[1] = 'E'`: an EHLO is passed on as a HELO
    (0, { ctx with
      smtpHelo := 'H' :: 'E' :: line.drop 2
      nextSteps := [.helo, .ehlo, .mail, .rset, .noop, .quit, .auth]
      replyText := smtpReply250 })

/-- What follows `key` and a colon in the argument of MAIL and RCPT: `FROM:` and `TO:`. -/
def afterKey (key line : Text) : Option Text :=
  let p := skipBlanks ((cstr line).drop 5)
  if strncasecmpEq p key then
    match skipBlanks (p.drop key.length) with
    | ':' :: p => some p
    | _ => none
  else none

/-- The address in it, without blanks and angle brackets. -/
def trimAddress (p : Text) : Text := eraseBack " \t>".toList (eraseFront " \t<".toList p)

/-- The address a MAIL names. -/
def mailArgument (line : Text) : Option Text :=
  (afterKey "FROM".toList line).map fun p => tolower (trimAddress p)

/-- The address a RCPT names. -/
def rcptArgument (line : Text) : Option Text := (afterKey "TO".toList line).map trimAddress

/-- `s.substr(s.find("@") + 1)`. -/
def domainOf (s : Text) : Text := if '@' ∈ s then (cut '@' s).2 else s

/-- `on_mail`, with `valid` for `MimeParser::isValidEmailAddress`. -/
def onMail (valid : Text → Bool) (line : Text) (ctx : SmtpContext) : Int × SmtpContext :=
  match mailArgument line with
  | none => (-1, { ctx with replyText := smtpReply502 })
  | some address =>
      let ctx := { ctx with smtpMail := address }
      if !valid ctx.smtpMail then (-1, { ctx with replyText := smtpReply509 })
      else
        (0, { ctx with
          nextSteps := [.helo, .ehlo, .mail, .rcpt, .rset, .noop, .quit]
          replyText := smtpReply250 })

/-- `on_rcpt`. -/
def onRcpt (valid : Text → Bool) (line : Text) (ctx : SmtpContext) : Int × SmtpContext :=
  match rcptArgument line with
  | none => (-1, { ctx with replyText := smtpReply502 })
  | some address =>
      let ctx := { ctx with smtpRcpt := address }
      if !valid ctx.smtpRcpt then (-1, { ctx with replyText := smtpReply509 })
      else
        (0, { ctx with
          rcptDomain := tolower (domainOf ctx.smtpRcpt)
          nextSteps := [.helo, .ehlo, .mail, .rcpt, .data, .rset, .noop, .quit]
          replyText := smtpReply250 })

/-- `basis64`, at an index below 64. -/
def basis64 (n : Nat) : Char :=
  "ABCDEFGHIJKLMNOPQRSTUVWXYZabcdefghijklmnopqrstuvwxyz0123456789+/".toList.getD n '='

/-- `ngx_encode_base64`. -/
def ngxEncodeBase64 : Text → Text
  | [] => []
  | [a] => [basis64 (a.toNat >>> 2 &&& 0x3f), basis64 ((a.toNat &&& 3) <<< 4), '=', '=']
  | [a, b] =>
      [basis64 (a.toNat >>> 2 &&& 0x3f), basis64 ((a.toNat &&& 3) <<< 4 ||| b.toNat >>> 4),
        basis64 ((b.toNat &&& 0x0f) <<< 2), '=']
  | a :: b :: c :: s =>
      basis64 (a.toNat >>> 2 &&& 0x3f) :: basis64 ((a.toNat &&& 3) <<< 4 ||| b.toNat >>> 4) ::
        basis64 ((b.toNat &&& 0x0f) <<< 2 ||| c.toNat >>> 6) :: basis64 (c.toNat &&& 0x3f) ::
        ngxEncodeBase64 s

/-- The account `on_data` draws from `m_auth_list`. -/
def SmtpSvr.drawAuth (svr : SmtpSvr) (m : Moment) (ctx : SmtpContext) : SmtpContext :=
  if svr.mIgnoreAuth = 0 then
    match svr.mAuthList[m.rand % svr.mAuthList.length]? with
    | some node =>
        { ctx with smtpUser := ngxEncodeBase64 node.authUser, smtpPswd := node.authPswd }
    | none => ctx
  else ctx

/-- The session after `on_data` has refused the message. -/
def refuseData (ctx : SmtpContext) : SmtpContext :=
  { ctx with
    nextSteps := [.helo, .ehlo, .mail, .rset, .noop, .quit]
    listHistory := []
    command := .quit }

@[simp] theorem refuseData_replyText (ctx : SmtpContext) :
    (refuseData ctx).replyText = ctx.replyText := rfl

/-- `on_data`.  A message it does not refuse is returned no value for. -/
def SmtpSvr.onData (svr : SmtpSvr) (m : Moment) (t : Tables) (ctx : SmtpContext) :
    Option Int × Tables × SmtpContext :=
  let ctx := { svr.drawAuth m ctx with abSize := -1 }
  let hr := checkHRControl m.mysql m.dbNow t.smtp ctx
  if hr.1 ≠ 0 then (some (-1), { t with smtp := hr.2.1 }, refuseData hr.2.2)
  else
    let rs := setRealSender svr.control m.now t.quotas hr.2.2
    let t : Tables := ⟨hr.2.1, rs.2.1⟩
    if rs.1 ≠ 0 then (some (-1), t, refuseData rs.2.2)
    else (none, t, { rs.2.2 with
      sendbuffer := []
      bytesTotal := 0
      xMid := []
      replyText := smtpReply354 })

/-- The field `x_mid` after a line of message text. -/
def noteXMid (line : Text) (xMid : Text) : Text :=
  let xMid := if line = [] ∧ xMid = [] then [' '] else xMid
  if xMid = [] ∧ strncasecmpEq line "x-mid".toList then
    match skipBlanks ((cstr line).drop 5) with
    | ':' :: p => skipBlanks p
    | _ => xMid
  else xMid

/-- The message is over the limit `ab_size` already. -/
def SmtpContext.overSize (ctx : SmtpContext) : Prop :=
  0 ≤ ctx.abSize ∧ ctx.abSize < ctx.bytesTotal

instance (ctx : SmtpContext) : Decidable ctx.overSize := inferInstanceAs (Decidable (_ ∧ _))

/-- `int bytes = ctx->smtp_data.length()`, for the line with its CRLF. -/
def inputBytes (line : Text) : Int := int32 (line ++ smtpCrlf).length

/-- The session with a line of message text put at the end of the buffer. -/
def SmtpContext.buffered (line : Text) (ctx : SmtpContext) : SmtpContext :=
  if 0 < inputBytes line then
    { ctx with
      bytesTotal := int32 (ctx.bytesTotal + inputBytes line)
      sendbuffer := ctx.sendbuffer ++ [ctx.smtpData] }
  else ctx

/-- `on_input`, with the texts it sends. -/
def onInput (line : Text) (ctx : SmtpContext) : Int × SmtpContext × List Text :=
  let ctx := { ctx with xMid := noteXMid line ctx.xMid, smtpData := line ++ smtpCrlf }
  if 0 < inputBytes line ∧ ctx.overSize then
    (-1, { ctx with replyText := smtpReply512, remoteHandle := -1 }, [])
  else
    let ctx := ctx.buffered line
    if line = smtpDot then
      (0, { ctx with replyText := smtpReply250, curRetryCount := 0 }, [smtpReply250])
    else (0, ctx, [])

/-- `on_rset`.  What an open relay connection answers to its RSET is overwritten. -/
def onRset (ctx : SmtpContext) : Int × SmtpContext :=
  (0, { ctx with
    smtpMail := []
    smtpRcpt := []
    msgHeader := []
    smtpUser := []
    smtpPswd := []
    xMid := []
    sendbuffer := []
    nextSteps := [.helo, .ehlo, .mail, .rset, .noop, .quit]
    replyText := smtpReply250 })

/-- `on_quit`. -/
def onQuit (ctx : SmtpContext) : Int × SmtpContext :=
  (0, { ctx with replyText := smtpReply221, nextSteps := [] })

/-! ### `handle_line` -/

/-- What comes of a line: the value `handle_line` returns, the tables, the session, and the texts
sent to the client. -/
structure Handled where
  err : Int
  tables : Tables
  ctx : SmtpContext
  sent : List Text

/-- A command in its place: the cases of the second `switch` of `handle_line`, and the value of
`err_code` after it. -/
def SmtpSvr.runCommand (svr : SmtpSvr) (m : Moment) (t : Tables) (line : Text)
    (ctx : SmtpContext) : SmtpCommand → Option Int × Tables × SmtpContext
  | .helo | .ehlo => (some (onHelo line ctx).1, t, (onHelo line ctx).2)
  | .auth =>
      (some 0, t, { ctx with
        nextSteps := [.auth]
        replyText := smtpUsername
        smtpUser := []
        smtpPswd := [] })
  | .mail =>
      let r := onMail svr.isValidEmailAddress line ctx
      (some r.1, t, r.2)
  | .rcpt =>
      let r := onRcpt svr.isValidEmailAddress line ctx
      (some r.1, t, r.2)
  | .data => svr.onData m t ctx
  | .rset => (some (onRset ctx).1, t, (onRset ctx).2)
  | .noop => (some 0, t, { ctx with replyText := smtpReply250 })
  | .quit => (some (onQuit ctx).1, t, (onQuit ctx).2)
  | .pswd | .zero => (some (-1), t, { ctx with replyText := smtpReply503 })

/-- That `switch`, on `command & next_steps`. -/
def SmtpSvr.execute (svr : SmtpSvr) (m : Moment) (t : Tables) (line : Text) (ctx : SmtpContext) :
    Option Int × Tables × SmtpContext :=
  if ctx.command ∈ ctx.nextSteps then svr.runCommand m t line ctx ctx.command
  else (some (-1), t, { ctx with replyText := smtpReply503 })

namespace SmtpContext

/-- The last command is DATA, and its reply began with `354`. -/
def dataPhase (ctx : SmtpContext) : Bool :=
  ctx.command == .data && strncmpEq ctx.replyText "354".toList

/-- The session with the line a user name. -/
def withUser (ctx : SmtpContext) (line : Text) : SmtpContext :=
  { ctx with
    listHistory := ctx.listHistory ++ [line]
    smtpUser := line
    replyText := smtpPassword
    nextSteps := [.pswd] }

/-- The session with the line a password. -/
def withPassword (ctx : SmtpContext) (line : Text) : SmtpContext :=
  { ctx with
    listHistory := ctx.listHistory ++ ["(password hidden)".toList]
    smtpPswd := line
    replyText := smtpAuthMsg
    nextSteps := [.helo, .ehlo, .mail, .rset, .noop, .quit] }

/-- The session with the line a command. -/
def received (ctx : SmtpContext) (line : Text) : SmtpContext :=
  { ctx with listHistory := ctx.listHistory ++ [line], command := parseType line }

end SmtpContext

@[simp] theorem SmtpContext.withUser_replyText (ctx : SmtpContext) (line : Text) :
    (ctx.withUser line).replyText = smtpPassword := rfl

@[simp] theorem SmtpContext.withPassword_replyText (ctx : SmtpContext) (line : Text) :
    (ctx.withPassword line).replyText = smtpAuthMsg := rfl

/-- `smtp_reply(ctx); return err`. -/
def smtpReply (err : Int) (t : Tables) (ctx : SmtpContext) : Handled :=
  ⟨err, t, ctx, [ctx.replyText]⟩

/-- `handle_line`. -/
def SmtpSvr.handleLine (svr : SmtpSvr) (m : Moment) (t : Tables) (line : Text)
    (ctx : SmtpContext) : Handled :=
  if ctx.nextSteps = [.auth] then smtpReply m.sent t (ctx.withUser line)
  else if ctx.nextSteps = [.pswd] then smtpReply m.sent t (ctx.withPassword line)
  else if ctx.dataPhase then
    let r := onInput line ctx
    ⟨r.1, t, r.2.1, r.2.2⟩
  else if ctx.command ≠ .data ∧ line = [] then ⟨-1, t, ctx, []⟩
  else
    let ctx := ctx.received line
    if ctx.command = .zero then smtpReply (-1) t { ctx with replyText := smtpReply502 }
    else
      let r := svr.execute m t line ctx
      smtpReply (r.1.getD m.offEnd) r.2.1 r.2.2

/-! ### The branches of `handle_line` -/

/-- The branches of `handle_line`: the two lines of an AUTH LOGIN, message text, an empty line, a
line that is no command, a command out of sequence, and a command in its place. -/
inductive Route where
  | user | password | input | ignored | unknown | misplaced
  | run (c : SmtpCommand)
  deriving DecidableEq

namespace SmtpContext

/-- The branch `handle_line` takes. -/
def route (ctx : SmtpContext) (line : Text) : Route :=
  if ctx.nextSteps = [.auth] then .user
  else if ctx.nextSteps = [.pswd] then .password
  else if ctx.dataPhase then .input
  else if ctx.command ≠ .data ∧ line = [] then .ignored
  else if parseType line = .zero then .unknown
  else if parseType line ∈ ctx.nextSteps then .run (parseType line)
  else .misplaced

end SmtpContext

/-- The answer to a command in its place. -/
def SmtpSvr.answer (svr : SmtpSvr) (m : Moment) (t : Tables) (line : Text) (ctx : SmtpContext)
    (c : SmtpCommand) : Handled :=
  let r := svr.runCommand m t line (ctx.received line) c
  smtpReply (r.1.getD m.offEnd) r.2.1 r.2.2

/-- The session after a line that is refused with `reply` and nothing else. -/
def SmtpContext.rejected (ctx : SmtpContext) (line reply : Text) : SmtpContext :=
  { ctx.received line with replyText := reply }

@[simp] theorem SmtpContext.rejected_replyText (ctx : SmtpContext) (line reply : Text) :
    (ctx.rejected line reply).replyText = reply := rfl

/-- What each branch of `handle_line` does. -/
def SmtpSvr.branch (svr : SmtpSvr) (m : Moment) (t : Tables) (line : Text) (ctx : SmtpContext) :
    Route → Handled
  | .user => smtpReply m.sent t (ctx.withUser line)
  | .password => smtpReply m.sent t (ctx.withPassword line)
  | .input => ⟨(onInput line ctx).1, t, (onInput line ctx).2.1, (onInput line ctx).2.2⟩
  | .ignored => ⟨-1, t, ctx, []⟩
  | .unknown => smtpReply (-1) t (ctx.rejected line smtpReply502)
  | .misplaced => smtpReply (-1) t (ctx.rejected line smtpReply503)
  | .run c => svr.answer m t line ctx c

/-- `handle_line`, branch by branch. -/
theorem handleLine_eq (svr : SmtpSvr) (m : Moment) (t : Tables) (line : Text)
    (ctx : SmtpContext) :
    svr.handleLine m t line ctx = svr.branch m t line ctx (ctx.route line) := by
  unfold SmtpSvr.handleLine SmtpContext.route
  by_cases h₁ : ctx.nextSteps = [.auth]
  · rw [if_pos h₁, if_pos h₁]; rfl
  by_cases h₂ : ctx.nextSteps = [.pswd]
  · rw [if_neg h₁, if_neg h₁, if_pos h₂, if_pos h₂]; rfl
  by_cases h₃ : ctx.dataPhase = true
  · rw [if_neg h₁, if_neg h₁, if_neg h₂, if_neg h₂, if_pos h₃, if_pos h₃]; rfl
  by_cases h₄ : ctx.command ≠ .data ∧ line = []
  · rw [if_neg h₁, if_neg h₁, if_neg h₂, if_neg h₂, if_neg h₃, if_neg h₃, if_pos h₄, if_pos h₄]; rfl
  rw [if_neg h₁, if_neg h₁, if_neg h₂, if_neg h₂, if_neg h₃, if_neg h₃, if_neg h₄, if_neg h₄]
  by_cases h₅ : parseType line = .zero
  · rw [if_pos h₅]
    exact if_pos h₅
  rw [if_neg h₅]
  by_cases h₆ : parseType line ∈ ctx.nextSteps
  · rw [if_pos h₆]
    refine (if_neg h₅).trans ?_
    rw [SmtpSvr.execute,
      if_pos (show (ctx.received line).command ∈ (ctx.received line).nextSteps from h₆)]
    rfl
  · rw [if_neg h₆]
    refine (if_neg h₅).trans ?_
    rw [SmtpSvr.execute,
      if_neg (show ¬ (ctx.received line).command ∈ (ctx.received line).nextSteps from h₆)]
    rfl

/-- A command that is run is in `next_steps`. -/
theorem mem_of_route_run {ctx : SmtpContext} {line : Text} {c : SmtpCommand}
    (h : ctx.route line = .run c) : c = parseType line ∧ c ≠ .zero ∧ c ∈ ctx.nextSteps ∧
      ctx.nextSteps ≠ [.auth] ∧ ctx.nextSteps ≠ [.pswd] ∧ ctx.dataPhase = false := by
  unfold SmtpContext.route at h
  split at h
  · cases h
  split at h
  · cases h
  split at h
  · cases h
  split at h
  · cases h
  split at h
  · cases h
  split at h
  · cases h
    rename_i h₁ h₂ h₃ _ hz h₄
    exact ⟨rfl, hz, h₄, h₁, h₂, by simpa using h₃⟩
  · cases h

theorem parseType_ne_pswd (line : Text) : parseType line ≠ .pswd := by
  unfold parseType
  repeat' split
  all_goals decide

theorem nextSteps_of_route_user {ctx : SmtpContext} {line : Text} (h : ctx.route line = .user) :
    ctx.nextSteps = [.auth] := by
  unfold SmtpContext.route at h
  split at h
  · assumption
  · repeat' split at h
    all_goals cases h

theorem nextSteps_of_route_password {ctx : SmtpContext} {line : Text}
    (h : ctx.route line = .password) : ctx.nextSteps = [.pswd] := by
  unfold SmtpContext.route at h
  split at h
  · cases h
  · split at h
    · assumption
    · repeat' split at h
      all_goals cases h

/-- In the data phase, outside an AUTH LOGIN, the line is message text. -/
theorem route_input {ctx : SmtpContext} {line : Text} (h₁ : ctx.nextSteps ≠ [.auth])
    (h₂ : ctx.nextSteps ≠ [.pswd]) (h : ctx.dataPhase = true) : ctx.route line = .input := by
  rw [SmtpContext.route, if_neg h₁, if_neg h₂, if_pos h]

/-! ### What a handler can do -/

section Handlers
variable (svr : SmtpSvr) (m : Moment) (t : Tables) (valid : Text → Bool) (line : Text)
  (ctx : SmtpContext)

/-- HELO and EHLO. -/
theorem onHelo_cases :
    onHelo line ctx = (-1, { ctx with replyText := smtpReply508 }) ∨
      ∃ h, onHelo line ctx = (0, { ctx with
        smtpHelo := h
        nextSteps := [.helo, .ehlo, .mail, .rset, .noop, .quit, .auth]
        replyText := smtpReply250 }) := by
  unfold onHelo
  split
  · exact .inl rfl
  · exact .inr ⟨_, rfl⟩

/-- A MAIL is refused for its syntax, refused for its address, which it has stored by then, or
accepted. -/
theorem onMail_cases :
    (mailArgument line = none ∧
      onMail valid line ctx = (-1, { ctx with replyText := smtpReply502 })) ∨
    (∃ a, mailArgument line = some a ∧ valid a = false ∧
      onMail valid line ctx = (-1, { ctx with smtpMail := a, replyText := smtpReply509 })) ∨
    (∃ a, mailArgument line = some a ∧ valid a = true ∧
      onMail valid line ctx = (0, { ctx with
        smtpMail := a
        nextSteps := [.helo, .ehlo, .mail, .rcpt, .rset, .noop, .quit]
        replyText := smtpReply250 })) := by
  unfold onMail
  cases mailArgument line with
  | none => exact .inl ⟨rfl, rfl⟩
  | some a =>
      cases hv : valid a with
      | false => exact .inr (.inl ⟨a, rfl, hv, by simp [hv]⟩)
      | true => exact .inr (.inr ⟨a, rfl, hv, by simp [hv]⟩)

/-- A RCPT is refused for its syntax, refused for its address, which it has stored by then, or
accepted. -/
theorem onRcpt_cases :
    (rcptArgument line = none ∧
      onRcpt valid line ctx = (-1, { ctx with replyText := smtpReply502 })) ∨
    (∃ a, rcptArgument line = some a ∧ valid a = false ∧
      onRcpt valid line ctx = (-1, { ctx with smtpRcpt := a, replyText := smtpReply509 })) ∨
    (∃ a, rcptArgument line = some a ∧ valid a = true ∧
      onRcpt valid line ctx = (0, { ctx with
        smtpRcpt := a
        rcptDomain := tolower (domainOf a)
        nextSteps := [.helo, .ehlo, .mail, .rcpt, .data, .rset, .noop, .quit]
        replyText := smtpReply250 })) := by
  unfold onRcpt
  cases rcptArgument line with
  | none => exact .inl ⟨rfl, rfl⟩
  | some a =>
      cases hv : valid a with
      | false => exact .inr (.inl ⟨a, rfl, hv, by simp [hv]⟩)
      | true => exact .inr (.inr ⟨a, rfl, hv, by simp [hv]⟩)

theorem drawAuth_eq : ∃ u p, svr.drawAuth m ctx = { ctx with smtpUser := u, smtpPswd := p } := by
  unfold SmtpSvr.drawAuth
  split
  · split
    · exact ⟨_, _, rfl⟩
    · exact ⟨ctx.smtpUser, ctx.smtpPswd, rfl⟩
  · exact ⟨ctx.smtpUser, ctx.smtpPswd, rfl⟩

/-- A DATA is refused by the client's limits, with the reply text it found; refused by the
sender's quota, with the reply 600; or not refused, with an empty buffer and the reply 354. -/
theorem onData_cases :
    (HrRefuses m.mysql m.dbNow t.smtp ctx.clientHost ∧ ∃ u p a, svr.onData m t ctx =
      (some (-1), t, refuseData { ctx with smtpUser := u, smtpPswd := p, abSize := a })) ∨
    (¬ HrRefuses m.mysql m.dbNow t.smtp ctx.clientHost ∧
      ((∃ t' u p a, svr.onData m t ctx = (some (-1), t', refuseData { ctx with
          smtpUser := u
          smtpPswd := p
          abSize := a
          replyText := smtpReply600 })) ∨
        ∃ t' u p a s, svr.onData m t ctx = (none, t', { ctx with
          smtpUser := u
          smtpPswd := p
          abSize := a
          realSender := s
          sendbuffer := []
          bytesTotal := 0
          xMid := []
          replyText := smtpReply354 }))) := by
  obtain ⟨u, p, hauth⟩ := drawAuth_eq svr m ctx
  unfold SmtpSvr.onData
  simp only [hauth]
  rcases checkHRControl_cases m.mysql m.dbNow t.smtp
    { ctx with smtpUser := u, smtpPswd := p, abSize := -1 } with ⟨hr, a, h⟩ | ⟨hr, tab, a, h⟩
  · rw [h]
    exact .inl ⟨hr, u, p, a, if_pos (show (-1 : Int) ≠ 0 by decide)⟩
  · refine .inr ⟨hr, ?_⟩
    rw [h, if_neg (show ¬ (0 : Int) ≠ 0 by decide)]
    rcases setRealSender_cases svr.control m.now t.quotas
      { ctx with smtpUser := u, smtpPswd := p, abSize := a } with ⟨qs, s, h'⟩ | ⟨qs, h'⟩
    · simp only [h']
      exact .inr ⟨_, u, p, a, s, if_neg (show ¬ (0 : Int) ≠ 0 by decide)⟩
    · simp only [h']
      exact .inl ⟨_, u, p, a, if_pos (show (-1 : Int) ≠ 0 by decide)⟩

/-- Whether `set_real_sender` refuses depends on the two addresses only. -/
theorem setRealSender_congr (ctl : Control) (now : Int) (qs : Quotas) (ctx ctx' : SmtpContext)
    (hd : ctx'.rcptDomain = ctx.rcptDomain) (hm : ctx'.smtpMail = ctx.smtpMail) :
    (setRealSender ctl now qs ctx').1 = (setRealSender ctl now qs ctx).1 := by
  unfold setRealSender
  rw [hd, hm]
  split
  · dsimp only
    split <;> rfl
  · split
    · rfl
    · split
      · rfl
      · dsimp only
        split <;> rfl

/-- A DATA that the limits of the client do not refuse: what `set_real_sender` makes of it. -/
theorem onData_verdict
    (hr : ¬ HrRefuses m.mysql m.dbNow t.smtp ctx.clientHost) :
    ((setRealSender svr.control m.now t.quotas ctx).1 = 0 ∧ (svr.onData m t ctx).1 = none ∧
      (svr.onData m t ctx).2.2.replyText = smtpReply354) ∨
    ((setRealSender svr.control m.now t.quotas ctx).1 ≠ 0 ∧
      (svr.onData m t ctx).1 = some (-1) ∧
      (svr.onData m t ctx).2.2.replyText = smtpReply600) := by
  obtain ⟨u, w, hauth⟩ := drawAuth_eq svr m ctx
  unfold SmtpSvr.onData
  simp only [hauth]
  rcases checkHRControl_cases m.mysql m.dbNow t.smtp
    { ctx with smtpUser := u, smtpPswd := w, abSize := -1 } with ⟨hr', -⟩ | ⟨-, tab, a, he⟩
  · exact absurd hr' hr
  · rw [he, if_neg (show ¬ (0 : Int) ≠ 0 by decide)]
    have hcongr := setRealSender_congr svr.control m.now t.quotas ctx
      { ctx with smtpUser := u, smtpPswd := w, abSize := a } rfl rfl
    rcases setRealSender_cases svr.control m.now t.quotas
      { ctx with smtpUser := u, smtpPswd := w, abSize := a } with ⟨qs, s, h⟩ | ⟨qs, h⟩
    · rw [h] at hcongr
      refine .inl ⟨hcongr.symm, ?_⟩
      simp only [h]
      exact ⟨rfl, rfl⟩
    · rw [h] at hcongr
      refine .inr ⟨fun h₀ => absurd (hcongr.trans h₀) (show (-1 : Int) ≠ 0 by decide), ?_⟩
      simp only [h]
      exact ⟨rfl, rfl⟩

theorem buffered_eq : ∃ n buffer,
    (0 < inputBytes line → buffer = ctx.sendbuffer ++ [ctx.smtpData]) ∧
      ctx.buffered line = { ctx with bytesTotal := n, sendbuffer := buffer } := by
  unfold SmtpContext.buffered
  split
  · exact ⟨_, _, fun _ => rfl, rfl⟩
  · exact ⟨ctx.bytesTotal, ctx.sendbuffer, fun h => absurd h (by assumption), rfl⟩

/-- A line of message text is thrown away when the message is over its limit already, and is put
at the end of the buffer otherwise; the last one is answered 250. -/
theorem onInput_cases :
    (0 < inputBytes line ∧ ctx.overSize ∧ ∃ x d, onInput line ctx = (-1, { ctx with
      xMid := x
      smtpData := d
      replyText := smtpReply512
      remoteHandle := -1 }, [])) ∨
    (¬ (0 < inputBytes line ∧ ctx.overSize) ∧ ∃ x d n buffer,
      (0 < inputBytes line → buffer = ctx.sendbuffer ++ [line ++ smtpCrlf]) ∧
      ((line = smtpDot ∧ onInput line ctx = (0, { ctx with
          xMid := x
          smtpData := d
          bytesTotal := n
          sendbuffer := buffer
          replyText := smtpReply250
          curRetryCount := 0 }, [smtpReply250])) ∨
        (line ≠ smtpDot ∧ onInput line ctx = (0, { ctx with
          xMid := x
          smtpData := d
          bytesTotal := n
          sendbuffer := buffer }, [])))) := by
  by_cases ho : 0 < inputBytes line ∧ SmtpContext.overSize
      { ctx with xMid := noteXMid line ctx.xMid, smtpData := line ++ smtpCrlf }
  · refine .inl ⟨ho.1, ho.2, noteXMid line ctx.xMid, line ++ smtpCrlf, ?_⟩
    unfold onInput
    simp only [if_pos ho]
  · obtain ⟨n, buffer, hb, he⟩ := buffered_eq line
      { ctx with xMid := noteXMid line ctx.xMid, smtpData := line ++ smtpCrlf }
    refine .inr ⟨ho, noteXMid line ctx.xMid, line ++ smtpCrlf, n, buffer, hb, ?_⟩
    unfold onInput
    simp only [he, if_neg ho]
    by_cases hd : line = smtpDot
    · exact .inl ⟨hd, if_pos hd⟩
    · exact .inr ⟨hd, if_neg hd⟩

end Handlers

/-! ### What a line can do -/

/-- What a line does to the session, branch by branch: the branch `handle_line` takes, the session
after it and the texts sent.  `limited` says that the client is over its limits. -/
inductive Outcome (valid : Text → Bool) (limited : Prop) (line : Text) (ctx : SmtpContext) :
    Route → SmtpContext → List Text → Prop where
  | user : Outcome valid limited line ctx .user (ctx.withUser line) [smtpPassword]
  | password : Outcome valid limited line ctx .password (ctx.withPassword line) [smtpAuthMsg]
  | oversize (x d : Text) (h : 0 < inputBytes line ∧ ctx.overSize) :
      Outcome valid limited line ctx .input { ctx with
        xMid := x
        smtpData := d
        replyText := smtpReply512
        remoteHandle := -1 } []
  | text (x d : Text) (n : Int) (buffer : List Text)
      (hn : ¬ (0 < inputBytes line ∧ ctx.overSize)) (hline : line ≠ smtpDot)
      (hb : 0 < inputBytes line → buffer = ctx.sendbuffer ++ [line ++ smtpCrlf]) :
      Outcome valid limited line ctx .input { ctx with
        xMid := x
        smtpData := d
        bytesTotal := n
        sendbuffer := buffer } []
  | last (x d : Text) (n : Int) (buffer : List Text)
      (hn : ¬ (0 < inputBytes line ∧ ctx.overSize)) (hline : line = smtpDot)
      (hb : 0 < inputBytes line → buffer = ctx.sendbuffer ++ [line ++ smtpCrlf]) :
      Outcome valid limited line ctx .input { ctx with
        xMid := x
        smtpData := d
        bytesTotal := n
        sendbuffer := buffer
        replyText := smtpReply250
        curRetryCount := 0 } [smtpReply250]
  | ignored : Outcome valid limited line ctx .ignored ctx []
  | unknown : Outcome valid limited line ctx .unknown (ctx.rejected line smtpReply502)
      [smtpReply502]
  | misplaced : Outcome valid limited line ctx .misplaced (ctx.rejected line smtpReply503)
      [smtpReply503]
  | heloSyntax (c : SmtpCommand) (hc : c = .helo ∨ c = .ehlo) :
      Outcome valid limited line ctx (.run c) (ctx.rejected line smtpReply508) [smtpReply508]
  | helo (c : SmtpCommand) (hc : c = .helo ∨ c = .ehlo) (name : Text) :
      Outcome valid limited line ctx (.run c) { ctx.received line with
        smtpHelo := name
        nextSteps := [.helo, .ehlo, .mail, .rset, .noop, .quit, .auth]
        replyText := smtpReply250 } [smtpReply250]
  | auth : Outcome valid limited line ctx (.run .auth) { ctx.received line with
        nextSteps := [.auth]
        replyText := smtpUsername
        smtpUser := []
        smtpPswd := [] } [smtpUsername]
  | mailSyntax (h : mailArgument line = none) :
      Outcome valid limited line ctx (.run .mail) (ctx.rejected line smtpReply502) [smtpReply502]
  | mailInvalid (a : Text) (h : mailArgument line = some a) (hv : valid a = false) :
      Outcome valid limited line ctx (.run .mail) { ctx.received line with
        smtpMail := a
        replyText := smtpReply509 } [smtpReply509]
  | mail (a : Text) (h : mailArgument line = some a) (hv : valid a = true) :
      Outcome valid limited line ctx (.run .mail) { ctx.received line with
        smtpMail := a
        nextSteps := [.helo, .ehlo, .mail, .rcpt, .rset, .noop, .quit]
        replyText := smtpReply250 } [smtpReply250]
  | rcptSyntax (h : rcptArgument line = none) :
      Outcome valid limited line ctx (.run .rcpt) (ctx.rejected line smtpReply502) [smtpReply502]
  | rcptInvalid (a : Text) (h : rcptArgument line = some a) (hv : valid a = false) :
      Outcome valid limited line ctx (.run .rcpt) { ctx.received line with
        smtpRcpt := a
        replyText := smtpReply509 } [smtpReply509]
  | rcpt (a : Text) (h : rcptArgument line = some a) (hv : valid a = true) :
      Outcome valid limited line ctx (.run .rcpt) { ctx.received line with
        smtpRcpt := a
        rcptDomain := tolower (domainOf a)
        nextSteps := [.helo, .ehlo, .mail, .rcpt, .data, .rset, .noop, .quit]
        replyText := smtpReply250 } [smtpReply250]
  | dataLimited (u p : Text) (a : Int) (h : limited) :
      Outcome valid limited line ctx (.run .data) (refuseData { ctx.received line with
        smtpUser := u
        smtpPswd := p
        abSize := a }) [ctx.replyText]
  | dataQuota (u p : Text) (a : Int) (h : ¬ limited) :
      Outcome valid limited line ctx (.run .data) (refuseData { ctx.received line with
        smtpUser := u
        smtpPswd := p
        abSize := a
        replyText := smtpReply600 }) [smtpReply600]
  | data (u p : Text) (a : Int) (s : Text) (h : ¬ limited) :
      Outcome valid limited line ctx (.run .data) { ctx.received line with
        smtpUser := u
        smtpPswd := p
        abSize := a
        realSender := s
        sendbuffer := []
        bytesTotal := 0
        xMid := []
        replyText := smtpReply354 } [smtpReply354]
  | rset : Outcome valid limited line ctx (.run .rset) { ctx.received line with
        smtpMail := []
        smtpRcpt := []
        msgHeader := []
        smtpUser := []
        smtpPswd := []
        xMid := []
        sendbuffer := []
        nextSteps := [.helo, .ehlo, .mail, .rset, .noop, .quit]
        replyText := smtpReply250 } [smtpReply250]
  | noop : Outcome valid limited line ctx (.run .noop) { ctx.received line with
        replyText := smtpReply250 } [smtpReply250]
  | quit : Outcome valid limited line ctx (.run .quit) { ctx.received line with
        replyText := smtpReply221
        nextSteps := [] } [smtpReply221]

section Outcome
variable (svr : SmtpSvr) (m : Moment) (t : Tables) {line : Text} {ctx : SmtpContext}

/-- A command in its place does one of these. -/
theorem answer_outcome {c : SmtpCommand} (h : ctx.route line = .run c) :
    Outcome svr.isValidEmailAddress (HrRefuses m.mysql m.dbNow t.smtp ctx.clientHost) line ctx
      (.run c) (svr.answer m t line ctx c).ctx (svr.answer m t line ctx c).sent := by
  have helo : ∀ c, c = .helo ∨ c = .ehlo →
      Outcome svr.isValidEmailAddress (HrRefuses m.mysql m.dbNow t.smtp ctx.clientHost) line ctx
        (.run c) (onHelo line (ctx.received line)).2
        [(onHelo line (ctx.received line)).2.replyText] := by
    intro c hc
    rcases onHelo_cases line (ctx.received line) with h | ⟨name, h⟩ <;> rw [h]
    · exact .heloSyntax c hc
    · exact .helo c hc name
  cases c with
  | helo => exact helo _ (.inl rfl)
  | ehlo => exact helo _ (.inr rfl)
  | mail =>
      show Outcome _ _ _ _ _ (onMail svr.isValidEmailAddress line (ctx.received line)).2
        [(onMail svr.isValidEmailAddress line (ctx.received line)).2.replyText]
      rcases onMail_cases svr.isValidEmailAddress line (ctx.received line) with
        ⟨ha, h⟩ | ⟨a, ha, hv, h⟩ | ⟨a, ha, hv, h⟩ <;> rw [h]
      · exact .mailSyntax ha
      · exact .mailInvalid a ha hv
      · exact .mail a ha hv
  | rcpt =>
      show Outcome _ _ _ _ _ (onRcpt svr.isValidEmailAddress line (ctx.received line)).2
        [(onRcpt svr.isValidEmailAddress line (ctx.received line)).2.replyText]
      rcases onRcpt_cases svr.isValidEmailAddress line (ctx.received line) with
        ⟨ha, h⟩ | ⟨a, ha, hv, h⟩ | ⟨a, ha, hv, h⟩ <;> rw [h]
      · exact .rcptSyntax ha
      · exact .rcptInvalid a ha hv
      · exact .rcpt a ha hv
  | data =>
      show Outcome _ _ _ _ _ (svr.onData m t (ctx.received line)).2.2
        [(svr.onData m t (ctx.received line)).2.2.replyText]
      rcases onData_cases svr m t (ctx.received line) with
        ⟨hr, u, p, a, h⟩ | ⟨hr, ⟨t', u, p, a, h⟩ | ⟨t', u, p, a, s, h⟩⟩ <;> rw [h]
      · exact .dataLimited u p a hr
      · exact .dataQuota u p a hr
      · exact .data u p a s hr
  | auth => exact .auth
  | rset => exact .rset
  | noop => exact .noop
  | quit => exact .quit
  | zero => exact absurd rfl (mem_of_route_run h).2.1
  | pswd => exact absurd (mem_of_route_run h).1.symm (parseType_ne_pswd line)

/-- Message text does one of these. -/
theorem onInput_outcome (valid : Text → Bool) (limited : Prop) (line : Text) (ctx : SmtpContext) :
    Outcome valid limited line ctx .input (onInput line ctx).2.1 (onInput line ctx).2.2 := by
  rcases onInput_cases line ctx with
    ⟨hb, ho, x, d, h⟩ | ⟨hn, x, d, n, buffer, hb, ⟨hline, h⟩ | ⟨hline, h⟩⟩ <;> rw [h]
  · exact .oversize x d ⟨hb, ho⟩
  · exact .last x d n buffer hn hline hb
  · exact .text x d n buffer hn hline hb

/-- **A line does one of these.** -/
theorem handleLine_outcome :
    Outcome svr.isValidEmailAddress (HrRefuses m.mysql m.dbNow t.smtp ctx.clientHost) line ctx
      (ctx.route line) (svr.handleLine m t line ctx).ctx (svr.handleLine m t line ctx).sent := by
  rw [handleLine_eq]
  cases h : ctx.route line with
  | user => exact .user
  | password => exact .password
  | input =>
      have hr : ∀ r : Int × SmtpContext × List Text,
          Outcome svr.isValidEmailAddress (HrRefuses m.mysql m.dbNow t.smtp ctx.clientHost) line
            ctx .input r.2.1 r.2.2 →
          Outcome svr.isValidEmailAddress (HrRefuses m.mysql m.dbNow t.smtp ctx.clientHost) line
            ctx .input (Handled.mk r.1 t r.2.1 r.2.2).ctx (Handled.mk r.1 t r.2.1 r.2.2).sent :=
        fun _ h => h
      rw [SmtpSvr.branch]
      exact hr _ (onInput_outcome _ _ line ctx)
  | ignored => exact .ignored
  | unknown => exact .unknown
  | misplaced => exact .misplaced
  | run c => exact answer_outcome svr m t h

end Outcome

end Edm.Smtp
