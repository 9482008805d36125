import Edm.Smtp.Dialogue
import Edm.Smtp.Exchange

/-!
# Smtp — the relay

A client connection from its first line to its end (`thread_service`, as built with
`SEND_ONCE_VERSION`), and the connection to the mail exchanger after it
(`connect_mail_eXchange`).

`serviceStep` handles one line while the client has refusals left and has not said QUIT.
`Service.close` ends the connection, which can happen after any line: when the last line of a
message was answered 250, `connect_mail_eXchange` is called up to `g_send_retry` times, and what it
does not relay goes to `addRetryTask`.  A `Handover` is the message a session held when it was
given to one of the two.

* `connect_cases`: a successful call has sent the message, any other leaves it in the session.
* **No acknowledged message is lost** (`relay_run`).  The message lives in the fields of the
  session, and these are handed over once, at the end.  In a run without the lines `RelayGuard`
  excludes, a message answered 250 is still the one in the session when it ends.
-/

namespace Edm.Smtp
open Support

/-! ### The connection to the exchanger -/

/-- What the relay reads of its configuration. -/
structure RelayConf where
  mDomainMap : StdMap Text Text
  mQueryDnsTtl : Int
  gDefaultHelo : Text
  gSendRetry : Nat
  gRecvRetry : Nat
  gSendTimeInterval : Int

/-- What a call of `connect_mail_eXchange` meets: the cache of exchangers and the answers of the
resolver, the value of `connect4`, and what `recv_line` reads after each command (nothing, when it
fails). -/
structure Attempt where
  mMailEXchange : MailxMap
  query : MailQuery
  handle : Int
  ready : Text
  helo : Text
  auth : Text
  user : Text
  pswd : Text
  mail : Text
  rcpt : Text
  data : Text
  dataEnd : Text
  bye : Text

/-- The conversation with the exchanger: the session, and the texts sent. -/
structure Talk where
  ctx : SmtpContext
  sent : List Text

/-- A command to the exchanger, with the steps that are left when its reply does not begin with
`want`. -/
def Talk.command (text reply want : Text) (steps : List SmtpCommand) (t : Talk) :
    Except Talk Talk :=
  let t : Talk := ⟨{ t.ctx with replyText := reply }, t.sent ++ [text]⟩
  if strncmpEq reply want then .ok t else .error { t with ctx := { t.ctx with nextSteps := steps } }

/-- The HELO.  A refusal is noted in `next_steps` only: some exchangers take one HELO for several
messages. -/
def Talk.helo (conf : RelayConf) (a : Attempt) (ctx : SmtpContext) : Talk :=
  let helo :=
    if conf.gDefaultHelo.length > 0 then "HELO ".toList ++ conf.gDefaultHelo else ctx.smtpHelo
  { ctx := { ctx with
      smtpHelo := helo
      replyText := a.helo
      nextSteps :=
        if strncmpEq a.helo "250".toList then ctx.nextSteps
        else [.helo, .ehlo, .rset, .noop, .quit] }
    sent := [helo ++ smtpCrlf] }

/-- The AUTH LOGIN. -/
def Talk.authLogin (a : Attempt) (t : Talk) : Except Talk Talk := do
  let steps := [.helo, .ehlo, .mail, .rset, .noop, .quit, .auth]
  let t ← t.command ("AUTH LOGIN".toList ++ smtpCrlf) a.auth "334".toList steps
  let t ← t.command (t.ctx.smtpUser ++ smtpCrlf) a.user "334".toList steps
  t.command (t.ctx.smtpPswd ++ smtpCrlf) a.pswd "235".toList steps

/-- The end of the message.  Without an answer the relay makes one up. -/
def Talk.message (a : Attempt) (t : Talk) : Except Talk Talk :=
  let t : Talk := ⟨{ t.ctx with replyText := a.dataEnd }, t.sent ++ t.ctx.sendbuffer⟩
  if strncmpEq a.dataEnd "250".toList then .ok t
  else if a.dataEnd.length < 1 then
    .error { t with ctx := { t.ctx with replyText := "512 DATA End failed\r\n".toList } }
  else .error t

/-- The envelope and the message. -/
def Talk.envelope (a : Attempt) (t : Talk) : Except Talk Talk := do
  let t ← t.command ("MAIL FROM: <".toList ++ t.ctx.realSender ++ ">\r\n".toList) a.mail
    "2".toList [.helo, .ehlo, .mail, .rset, .noop, .quit]
  let t ← t.command ("RCPT TO: <".toList ++ t.ctx.smtpRcpt ++ ">\r\n".toList) a.rcpt
    "2".toList [.helo, .ehlo, .mail, .rcpt, .rset, .noop, .quit]
  let t ← t.command "DATA\r\n".toList a.data "354".toList
    [.helo, .ehlo, .mail, .rset, .noop, .quit]
  t.message a

/-- The conversation up to QUIT, from the HELO on. -/
def talk (conf : RelayConf) (a : Attempt) (usingAuthLogin : Bool) (ctx : SmtpContext) :
    Except Talk Talk :=
  let t := Talk.helo conf a ctx
  if usingAuthLogin then t.authLogin a >>= Talk.envelope a else t.envelope a

/-- What a call returns, the cache and the session it leaves, and the texts it sent. -/
structure Connected where
  err : Int
  mMailEXchange : MailxMap
  ctx : SmtpContext
  sent : List Text

/-- The session relays with an account: `using_auth_login`. -/
def usingAuthLogin (svr : SmtpSvr) (ctx : SmtpContext) : Bool :=
  svr.mIgnoreAuth == 0 && decide (ctx.smtpUser.length > 0) && decide (ctx.smtpPswd.length > 0)

/-- The domain whose exchanger is asked for. -/
def smtpDomain (svr : SmtpSvr) (conf : RelayConf) (ctx : SmtpContext) : Text :=
  let domain := if usingAuthLogin svr ctx then domainOf ctx.realSender else ctx.rcptDomain
  (conf.mDomainMap.find domain).getD domain

/-- `connect_mail_eXchange`; there is no result when the program dies in `query_mail_eXchange`. -/
def connectMailEXchange (svr : SmtpSvr) (conf : RelayConf) (a : Attempt) (ctx : SmtpContext) :
    Option Connected := do
  let ctx := { ctx with remoteHandle := if ctx.remoteHandle > 0 then -1 else ctx.remoteHandle }
  let q ← queryMailEXchange conf.mQueryDnsTtl a.mMailEXchange { a.query with
    domain := cstr (smtpDomain svr conf ctx)
    host := ctx.remoteHost
    port := ctx.remotePort }
  let ctx := { ctx with remoteHost := q.host, remotePort := q.port }
  if q.err = -1 then
    return ⟨-2, q.table, { ctx with replyText := smtpReply510 }, []⟩
  let ctx := { ctx with remoteHandle := a.handle }
  if a.handle < 1 then
    let reply := if a.handle = -1 then smtpReply401 else smtpReply511
    return ⟨-3, q.table, { ctx with replyText := reply }, []⟩
  let ctx := { ctx with replyText := a.ready }
  if !strncmpEq a.ready "220".toList then
    let ctx := { ctx with nextSteps := [.helo, .ehlo, .rset, .noop, .quit] }
    if a.ready.length < 1 then
      return ⟨-1, q.table, { ctx with replyText := smtpReply401, remoteHandle := -1 }, []⟩
    return ⟨-1, q.table, ctx, []⟩
  match talk conf a (usingAuthLogin svr ctx) ctx with
  | .ok t =>
      return ⟨0, q.table, { t.ctx with
        replyText := a.bye
        remoteHandle := -1
        sendbuffer := []
        listHistory := [] }, t.sent ++ ["QUIT\r\n".toList]⟩
  | .error t =>
      if t.ctx.replyText.length < 1 then
        return ⟨-1, q.table, { t.ctx with replyText := smtpReply402, remoteHandle := -1 }, t.sent⟩
      return ⟨-1, q.table, t.ctx, t.sent⟩

/-! ### A client connection -/

/-- A connection: its session and transcript, and the refusals since the last line that was not
refused. -/
structure Service where
  dialogue : Dialogue
  retryCount : Nat

namespace Service

/-- A connection `poll4accept` has accepted. -/
def accepted (host : Text) (port now abSize : Int) : Service := ⟨.accepted host port now abSize, 0⟩

/-- The connection after a line. -/
def step (svr : SmtpSvr) (conf : RelayConf) (s : Service) (f : Feed) : Service :=
  let d := s.dialogue.step svr f
  let retryCount := if (s.dialogue.handle svr f).err ≠ 0 then s.retryCount + 1 else 0
  if retryCount ≥ conf.gRecvRetry then
    ⟨{ d with ctx := { d.ctx with listHistory := [] } }, retryCount⟩
  else ⟨d, retryCount⟩

end Service

/-- The connection goes on by a line. -/
def serviceStep (svr : SmtpSvr) (conf : RelayConf) (s : Service) (f : Feed) (s' : Service) : Prop :=
  s.retryCount < conf.gRecvRetry ∧ s.dialogue.ctx.command ≠ .quit ∧ s' = s.step svr conf f

/-! ### Its end -/

/-- What a session holds when it is given to `connect_mail_eXchange` or to `addRetryTask`. -/
structure Handover where
  smtpMail : Text
  realSender : Text
  smtpRcpt : Text
  sendbuffer : List Text
  deriving DecidableEq

def SmtpContext.handover (ctx : SmtpContext) : Handover :=
  ⟨ctx.smtpMail, ctx.realSender, ctx.smtpRcpt, ctx.sendbuffer⟩

/-- The end of a connection: the session, whether the program is alive and the message was relayed,
the texts of the call that relayed it, and what was given to `connect_mail_eXchange` and to
`addRetryTask`. -/
structure Closing where
  ctx : SmtpContext
  alive : Bool
  sendSuccess : Bool
  sent : List Text
  connected : List Handover
  stored : List Handover

/-- One turn of the loop over `connect_mail_eXchange`. -/
def sendOnce (svr : SmtpSvr) (conf : RelayConf) (e : Closing) (a : Attempt) : Closing :=
  if e.sendSuccess || !e.alive then e
  else
    let e := { e with connected := e.connected ++ [e.ctx.handover] }
    match connectMailEXchange svr conf a e.ctx with
    | none => { e with alive := false }
    | some r =>
        if r.err = 0 then { e with ctx := r.ctx, sendSuccess := true, sent := r.sent }
        else if r.err = -2 ∨ r.err = -3 then { e with ctx := r.ctx }
        else { e with ctx := { r.ctx with listHistory := [] } }

/-- `addRetryTask`, at the time `now`: the session goes to the retry queue. -/
def retryLater (conf : RelayConf) (now : Int) (e : Closing) : Closing :=
  let ctx := { e.ctx with nextSendTime := now + conf.gSendTimeInterval }
  { e with ctx := ctx, stored := e.stored ++ [ctx.handover] }

/-- The end of `thread_service`, after the last line of the client. -/
def Service.close (svr : SmtpSvr) (conf : RelayConf) (attempt : Nat → Attempt) (now : Int)
    (s : Service) : Closing :=
  let ctx := s.dialogue.ctx
  let e : Closing := ⟨ctx, true, false, [], [], []⟩
  let e := if ctx.curRetryCount = 0 then
      ((List.range conf.gSendRetry).map attempt).foldl (sendOnce svr conf) e
    else e
  if !e.alive || e.sendSuccess || e.ctx.curRetryCount == -1 then e else retryLater conf now e

/-- The message was handed over with its sender, for each of its recipients. -/
def Closing.Keeps (e : Closing) (m : Message) : Prop :=
  (∃ h ∈ e.connected ++ e.stored, some h.smtpMail = m.mail ∧ h.realSender = m.realSender ∧
      h.sendbuffer = m.text) ∧
    ∀ r ∈ m.rcpts, ∃ h ∈ e.connected ++ e.stored, some h.smtpMail = m.mail ∧
      h.realSender = m.realSender ∧ h.sendbuffer = m.text ∧ h.smtpRcpt = r

/-! ### What the session holds -/

/-- `on_data` refuses the message. -/
def SmtpSvr.RefusesData (svr : SmtpSvr) (m : Moment) (t : Tables) (ctx : SmtpContext) : Prop :=
  HrRefuses m.mysql m.dbNow t.smtp ctx.clientHost ∨
    (setRealSender svr.control m.now t.quotas ctx).1 ≠ 0

/-- The lines that keep the message the session holds.  After a message was answered 250 there is
no RSET, no DATA that is accepted, and no MAIL or RCPT that names another address; before it no
RCPT that names another address than one accepted already, and no MAIL whose address is refused
where a RCPT may follow.  A line of the message is shorter than `2^31 - 2` characters. -/
structure RelayGuard (svr : SmtpSvr) (d : Dialogue) (f : Feed) : Prop where
  text : d.route f = .input → 0 < inputBytes f.line
  rset : d.route f = .run .rset → d.tr.acked = []
  data : d.route f = .run .data → d.tr.acked = [] ∨ svr.RefusesData f.moment f.tables d.ctx
  mail : d.route f = .run .mail → ∀ a ∈ mailArgument f.line, a = d.ctx.smtpMail ∨
    d.tr.acked = [] ∧ (.rcpt ∈ d.ctx.nextSteps → svr.isValidEmailAddress a = true)
  rcpt : d.route f = .run .rcpt → ∀ a ∈ rcptArgument f.line,
    if d.tr.acked = [] then ∀ r ∈ d.tr.rcpts, r = a else a = d.ctx.smtpRcpt

/-- The session holds the message. -/
structure SmtpContext.Holds (ctx : SmtpContext) (m : Message) : Prop where
  mail : m.mail = some ctx.smtpMail
  realSender : m.realSender = ctx.realSender
  rcpts : ∀ r ∈ m.rcpts, r = ctx.smtpRcpt
  text : m.text = ctx.sendbuffer

/-- Before the first 250, no line loses anything that does not follow a MAIL or a RCPT that was
accepted with another of its kind. -/
theorem RelayGuard.of_first {svr : SmtpSvr} {d : Dialogue} {f : Feed} (hacked : d.tr.acked = [])
    (htext : d.route f = .input → 0 < inputBytes f.line)
    (hmail : d.route f = .run .mail → .rcpt ∉ d.ctx.nextSteps)
    (hrcpt : d.route f = .run .rcpt → d.tr.rcpts = []) : RelayGuard svr d f where
  text := htext
  rset := fun _ => hacked
  data := fun _ => .inl hacked
  mail := fun h _ _ => .inr ⟨hacked, fun hr => absurd hr (hmail h)⟩
  rcpt := fun h _ _ => by
    rw [if_pos hacked, hrcpt h]
    exact fun _ hr => absurd hr List.not_mem_nil

/-- No message was answered 250: what the session will hold when one is. -/
structure Pending (tr : Transcript) (ctx : SmtpContext) : Prop where
  acked : tr.acked = []
  rcpt_of_data : .data ∈ ctx.nextSteps → .rcpt ∈ ctx.nextSteps
  mail : .rcpt ∈ ctx.nextSteps → tr.mail = some ctx.smtpMail
  rcpts : ∀ r ∈ tr.rcpts, r = ctx.smtpRcpt
  text : ctx.dataPhase = true → tr.mail = some ctx.smtpMail ∧ tr.text = ctx.sendbuffer

/-- A message was answered 250: the session holds it, and its end will hand it over. -/
structure Held (tr : Transcript) (ctx : SmtpContext) : Prop where
  acked : ∃ m, tr.acked = [m] ∧ ctx.Holds m
  count : ctx.curRetryCount = 0
  idle : ctx.dataPhase = false

/-- The invariant of a connection. -/
structure RelayInv (d : Dialogue) : Prop where
  honest : d.ctx.Honest
  holds : Pending d.tr d.ctx ∨ Held d.tr d.ctx

section Step
variable {svr : SmtpSvr} {d : Dialogue} {f : Feed} {tr tr' : Transcript} {ctx ctx' : SmtpContext}
  {line realSender : Text} {sent : List Text} {r : Route}

theorem dataPhase_of_replyText (h : strncmpEq ctx.replyText "354".toList = false) :
    ctx.dataPhase = false := by
  rw [SmtpContext.dataPhase, h, Bool.and_false]

theorem dataPhase_of_route_input (h : ctx.route line = .input) : ctx.dataPhase = true := by
  unfold SmtpContext.route at h
  split at h
  · cases h
  split at h
  · cases h
  split at h
  · assumption
  · repeat' split at h
    all_goals cases h

/-- Only the last line of a message adds one to those answered 250. -/
theorem note_acked (h : r = .input → sent ≠ [smtpReply250]) :
    (tr.note r line sent realSender).acked = tr.acked := by
  unfold Transcript.note
  cases r with
  | input =>
      dsimp only
      rw [if_neg (h rfl)]
  | run c =>
      dsimp only
      split
      · cases c <;> rfl
      · split <;> rfl
  | user | password | ignored | unknown | misplaced => rfl

/-- A DATA that is refused is not answered 354. -/
theorem data_refused (hon : d.ctx.Honest) (h : d.route f = .run .data)
    (hr : svr.RefusesData f.moment f.tables d.ctx) : (d.handle svr f).sent ≠ [smtpReply354] := by
  have hroute : d.ctx.route f.line = .run .data := h
  rw [Dialogue.handle, handleLine_eq, hroute]
  show [(svr.onData f.moment f.tables (d.ctx.received f.line)).2.2.replyText] ≠ [smtpReply354]
  rcases onData_cases svr f.moment f.tables (d.ctx.received f.line) with
    ⟨-, u, p, a, he⟩ | ⟨hn, -⟩
  · rw [he]
    exact fun h => hon.ne (mem_of_route_run hroute).2.2.2.2.2 (List.cons.inj h).1
  · have hcongr := setRealSender_congr svr.control f.moment.now f.tables.quotas d.ctx
      (d.ctx.received f.line) rfl rfl
    rcases onData_verdict svr f.moment f.tables (d.ctx.received f.line) hn with
      ⟨hs, -, -⟩ | ⟨-, -, he⟩
    · exact absurd (hcongr.symm.trans hs) (hr.resolve_left hn)
    · rw [he]
      decide

theorem Pending.same (h : Pending tr ctx) (ha : tr'.acked = tr.acked)
    (ht : tr'.envelope = tr.envelope) (hc : ctx'.envelope = ctx.envelope)
    (hd : ctx'.dataPhase = false) : Pending tr' ctx' := by
  simp only [SmtpContext.envelope, Transcript.envelope, Prod.mk.injEq] at hc ht
  obtain ⟨hn, hm, hr, -⟩ := hc
  obtain ⟨-, ht₂, ht₃, -⟩ := ht
  obtain ⟨h₁, h₂, h₃, h₄, -⟩ := h
  refine ⟨ha.trans h₁, ?_, ?_, ?_, fun h => absurd h (by rw [hd]; decide)⟩
  · rwa [hn]
  · rwa [hn, ht₂, hm]
  · rwa [ht₃, hr]

/-- A session that asks for a HELO or a MAIL next. -/
theorem Pending.fresh (steps : List SmtpCommand) (hn : ctx'.nextSteps = steps)
    (ha : tr'.acked = []) (hrcpts : ∀ r ∈ tr'.rcpts, r = ctx'.smtpRcpt)
    (hd : ctx'.dataPhase = false) (hr : .rcpt ∉ steps) (hdata : .data ∉ steps) :
    Pending tr' ctx' := by
  subst hn
  exact ⟨ha, fun h => absurd h hdata, fun h => absurd h hr, hrcpts,
    fun h => absurd h (by rw [hd]; decide)⟩

theorem Held.same (h : Held tr ctx) (ha : tr'.acked = tr.acked)
    (hc : ctx'.handover = ctx.handover) (hn : ctx'.curRetryCount = ctx.curRetryCount)
    (hd : ctx'.dataPhase = false) : Held tr' ctx' := by
  simp only [SmtpContext.handover, Handover.mk.injEq] at hc
  obtain ⟨hm, hs, hr, hb⟩ := hc
  obtain ⟨⟨m, hacked, h₁, h₂, h₃, h₄⟩, hcount, -⟩ := h
  refine ⟨⟨m, ha.trans hacked, ?_, ?_, ?_, ?_⟩, hn.trans hcount, hd⟩
  · rwa [hm]
  · rwa [hs]
  · rwa [hr]
  · rwa [hb]

/-- **A line keeps the message the session holds.** -/
theorem step_held (hon : d.ctx.Honest) (hh : Held d.tr d.ctx) (hg : RelayGuard svr d f) :
    Held (d.step svr f).tr (d.step svr f).ctx := by
  obtain ⟨-, g₂, g₃, g₄, g₅⟩ := hg
  have hne : d.tr.acked ≠ [] := by
    obtain ⟨m, hm, -⟩ := hh.acked
    rw [hm]
    exact List.cons_ne_nil _ _
  have hdata : d.route f = .run .data → (d.handle svr f).sent ≠ [smtpReply354] := fun h =>
    data_refused hon h ((g₃ h).resolve_left hne)
  have o := step_outcome svr d f
  unfold Dialogue.step at o ⊢
  have hroute : d.ctx.route f.line = d.route f := rfl
  have hinput : d.route f ≠ .input := fun h => by
    have := dataPhase_of_route_input h
    rw [hh.idle] at this
    cases this
  generalize d.route f = r at *
  generalize (d.handle svr f).ctx = ctx', (d.handle svr f).sent = sent at *
  dsimp only at o ⊢
  have ha : (d.tr.note r f.line sent ctx'.realSender).acked = d.tr.acked :=
    note_acked fun h => absurd h hinput
  cases o with
  | oversize | text | last => exact absurd rfl hinput
  | ignored => exact hh.same ha rfl rfl hh.idle
  | data u p a s hl => exact absurd rfl (hdata rfl)
  | dataLimited u p a hl => exact hh.same ha rfl rfl rfl
  | dataQuota u p a hl => exact hh.same ha rfl rfl rfl
  | rset => exact absurd (g₂ rfl) hne
  | mailInvalid a hm hv =>
      obtain rfl := (g₄ rfl a hm).resolve_right fun h => hne h.1
      exact hh.same ha rfl rfl (dataPhase_of_replyText (by simp +decide))
  | mail a hm hv =>
      obtain rfl := (g₄ rfl a hm).resolve_right fun h => hne h.1
      exact hh.same ha rfl rfl (dataPhase_of_replyText (by simp +decide))
  | rcptInvalid a hr hv =>
      have := g₅ rfl a hr
      rw [if_neg hne] at this
      subst this
      exact hh.same ha rfl rfl (dataPhase_of_replyText (by simp +decide))
  | rcpt a hr hv =>
      have := g₅ rfl a hr
      rw [if_neg hne] at this
      subst this
      exact hh.same ha rfl rfl (dataPhase_of_replyText (by simp +decide))
  | user | password | unknown | misplaced | heloSyntax | helo | auth | mailSyntax | rcptSyntax
  | noop | quit => exact hh.same ha rfl rfl (dataPhase_of_replyText (by simp +decide))

/-- **A line on the way to the first 250.** -/
theorem step_pending (hp : Pending d.tr d.ctx) (hg : RelayGuard svr d f) :
    Pending (d.step svr f).tr (d.step svr f).ctx ∨ Held (d.step svr f).tr (d.step svr f).ctx := by
  obtain ⟨g₁, -, -, g₄, g₅⟩ := hg
  have o := step_outcome svr d f
  unfold Dialogue.step at o ⊢
  have hroute : d.ctx.route f.line = d.route f := rfl
  generalize d.route f = r at *
  generalize (d.handle svr f).ctx = ctx', (d.handle svr f).sent = sent at *
  dsimp only at o ⊢
  have hacked := hp.acked
  have ha : (r = .input → sent ≠ [smtpReply250]) →
      (d.tr.note r f.line sent ctx'.realSender).acked = d.tr.acked := note_acked
  have quiet : sent ≠ [smtpReply250] →
      (d.tr.note r f.line sent ctx'.realSender).envelope = d.tr.envelope :=
    fun hs => note_envelope hs r
  have rcpts : (d.tr.note r f.line sent ctx'.realSender).envelope = d.tr.envelope →
      ∀ a ∈ (d.tr.note r f.line sent ctx'.realSender).rcpts, a = d.ctx.smtpRcpt := fun h => by
    simp only [Transcript.envelope, Prod.mk.injEq] at h
    rw [h.2.2.1]
    exact hp.rcpts
  cases o with
  | last x e n buffer hn hl hb =>
      obtain ⟨hm, ht⟩ := hp.text (dataPhase_of_route_input hroute)
      refine .inr ⟨⟨⟨d.tr.mail, d.ctx.realSender, d.tr.rcpts, d.tr.text ++ [f.line ++ smtpCrlf]⟩,
        ?_, hm, rfl, hp.rcpts, ?_⟩, rfl, dataPhase_of_replyText (by simp +decide)⟩
      · show d.tr.acked ++ [_] = _
        rw [hacked]
        rfl
      · show d.tr.text ++ _ = buffer
        rw [hb (g₁ rfl), ht]
  | text x e n buffer hn hl hb =>
      obtain ⟨hm, ht⟩ := hp.text (dataPhase_of_route_input hroute)
      refine .inl ⟨hacked, hp.rcpt_of_data, hp.mail, hp.rcpts, fun _ => ⟨hm, ?_⟩⟩
      show d.tr.text ++ _ = buffer
      rw [hb (g₁ rfl), ht]
  | data u p a s hl =>
      have hmem : SmtpCommand.data ∈ d.ctx.nextSteps := (mem_of_route_run hroute).2.2.1
      exact .inl ⟨hacked, hp.rcpt_of_data, hp.mail, hp.rcpts,
        fun _ => ⟨hp.mail (hp.rcpt_of_data hmem), rfl⟩⟩
  | ignored => exact .inl ⟨hacked, hp.rcpt_of_data, hp.mail, hp.rcpts, hp.text⟩
  | helo c hc name =>
      refine .inl (.fresh [.helo, .ehlo, .mail, .rset, .noop, .quit, .auth] rfl
        ((ha (by rintro ⟨⟩)).trans hacked) ?_ (dataPhase_of_replyText (by simp +decide))
        (by decide) (by decide))
      rcases hc with rfl | rfl <;> exact fun _ h => absurd h List.not_mem_nil
  | rset =>
      exact .inl (.fresh [.helo, .ehlo, .mail, .rset, .noop, .quit] rfl hacked
        (fun _ h => absurd h List.not_mem_nil) (dataPhase_of_replyText (by simp +decide))
        (by decide) (by decide))
  | mail a hm hv =>
      exact .inl ⟨hacked, fun hd => absurd (show SmtpCommand.data ∈
          [SmtpCommand.helo, .ehlo, .mail, .rcpt, .rset, .noop, .quit] from hd) (by decide),
        fun _ => hm, fun _ h => absurd h List.not_mem_nil,
        fun h => absurd h (by rw [dataPhase_of_replyText (by simp +decide)]; decide)⟩
  | mailInvalid a hm hv =>
      refine .inl ⟨(ha (by rintro ⟨⟩)).trans hacked, hp.rcpt_of_data, fun hr => ?_,
        rcpts (quiet (by decide)),
        fun h => absurd h (by rw [dataPhase_of_replyText (by simp +decide)]; decide)⟩
      -- the sender that was accepted is named again, or none was
      rcases g₄ rfl a hm with rfl | ⟨-, hvalid⟩
      · exact hp.mail hr
      · rw [hvalid hr] at hv
        cases hv
  | rcpt a hr hv =>
      have hg := g₅ rfl a hr
      rw [if_pos hacked] at hg
      refine .inl ⟨hacked, fun _ => ?_,
        fun _ => hp.mail (mem_of_route_run hroute).2.2.1, fun b hb => ?_,
        fun h => absurd h (by rw [dataPhase_of_replyText (by simp +decide)]; decide)⟩
      · exact (by decide : SmtpCommand.rcpt ∈
          [SmtpCommand.helo, .ehlo, .mail, .rcpt, .data, .rset, .noop, .quit])
      · rcases List.mem_append.mp (show b ∈ d.tr.rcpts ++ (rcptArgument f.line).toList from hb) with
          hb | hb
        · exact hg b hb
        · rw [hr] at hb
          exact List.mem_singleton.mp hb
  | rcptInvalid a hr hv =>
      have hg := g₅ rfl a hr
      rw [if_pos hacked] at hg
      exact .inl ⟨(ha (by rintro ⟨⟩)).trans hacked, hp.rcpt_of_data, hp.mail, hg,
        fun h => absurd h (by rw [dataPhase_of_replyText (by simp +decide)]; decide)⟩
  | dataLimited u p a hl =>
      exact .inl (.fresh [.helo, .ehlo, .mail, .rset, .noop, .quit] rfl
        ((ha (by rintro ⟨⟩)).trans hacked) (rcpts (note_run_other fun _ => rfl)) rfl
        (by decide) (by decide))
  | dataQuota u p a hl =>
      exact .inl (.fresh [.helo, .ehlo, .mail, .rset, .noop, .quit] rfl hacked hp.rcpts rfl
        (by decide) (by decide))
  | user =>
      exact .inl (.fresh [.pswd] rfl hacked hp.rcpts (dataPhase_of_replyText (by simp +decide))
        (by decide) (by decide))
  | password =>
      exact .inl (.fresh [.helo, .ehlo, .mail, .rset, .noop, .quit] rfl hacked hp.rcpts
        (dataPhase_of_replyText (by simp +decide)) (by decide) (by decide))
  | auth =>
      exact .inl (.fresh [.auth] rfl hacked hp.rcpts (dataPhase_of_replyText (by simp +decide))
        (by decide) (by decide))
  | quit =>
      exact .inl (.fresh [] rfl hacked hp.rcpts (dataPhase_of_replyText (by simp +decide))
        (by decide) (by decide))
  | noop =>
      exact .inl (hp.same (ha (by rintro ⟨⟩)) (note_run_other fun _ => rfl) rfl
        (dataPhase_of_replyText (by simp +decide)))
  | oversize | unknown | misplaced | heloSyntax | mailSyntax | rcptSyntax =>
      exact .inl (hp.same (ha fun _ => by decide) (quiet (by decide)) rfl
        (dataPhase_of_replyText (by simp +decide)))

/-- **A line keeps the invariant of a connection.** -/
theorem step_relayInv (hi : RelayInv d) (hg : RelayGuard svr d f) : RelayInv (d.step svr f) :=
  ⟨step_honest svr f hi.honest,
    hi.holds.elim (fun hp => step_pending hp hg) fun hh => .inr (step_held hi.honest hh hg)⟩

theorem accepted_relayInv (host : Text) (port now abSize : Int) :
    RelayInv (.accepted host port now abSize) := by
  have hsteps : ∀ c, c ∈ (SmtpContext.accepted host port now abSize).nextSteps →
      c ∈ [SmtpCommand.helo, .ehlo, .noop, .rset, .quit] := fun _ h => h
  exact ⟨(accepted_dataInv host port now abSize).honest,
    .inl ⟨rfl, fun h => absurd (hsteps _ h) (by decide), fun h => absurd (hsteps _ h) (by decide),
      fun _ h => absurd h List.not_mem_nil, fun h => by cases h⟩⟩

end Step

/-! ### What the conversation leaves and sends -/

/-- What the conversation leaves as it is. -/
def SmtpContext.core (ctx : SmtpContext) : Handover × Text × Int :=
  (ctx.handover, ctx.filePath, ctx.curRetryCount)

/-- The conversation, when it ends well or not, leaves the session with the core `c`. -/
def Talk.Leaves (c : Handover × Text × Int) : Except Talk Talk → Prop
  | .ok t | .error t => t.ctx.core = c

section Talk
variable {c : Handover × Text × Int} {svr : SmtpSvr} {conf : RelayConf} {a : Attempt}
  {ctx : SmtpContext} {r : Connected}

theorem Talk.Leaves.bind {x : Except Talk Talk} {f : Talk → Except Talk Talk}
    (hx : Leaves c x) (hf : ∀ t, t.ctx.core = c → Leaves c (f t)) : Leaves c (x >>= f) := by
  cases x with
  | ok t => exact hf t hx
  | error t => exact hx

theorem Talk.leaves_command {t : Talk} (h : t.ctx.core = c) (text reply want : Text)
    (steps : List SmtpCommand) : Leaves c (t.command text reply want steps) := by
  unfold Talk.command
  dsimp only
  split <;> exact h

theorem Talk.leaves_envelope (a : Attempt) {t : Talk} (h : t.ctx.core = c) :
    Leaves c (t.envelope a) := by
  unfold Talk.envelope
  refine (leaves_command h _ _ _ _).bind fun t ht => (leaves_command ht _ _ _ _).bind fun t ht =>
    (leaves_command ht _ _ _ _).bind fun t ht => ?_
  unfold Talk.message
  dsimp only
  split
  · exact ht
  · split <;> exact ht

theorem Talk.leaves_authLogin (a : Attempt) {t : Talk} (h : t.ctx.core = c) :
    Leaves c (t.authLogin a) :=
  (leaves_command h _ _ _ _).bind fun _ ht => (leaves_command ht _ _ _ _).bind fun _ ht =>
    leaves_command ht _ _ _ _

theorem leaves_talk (conf : RelayConf) (a : Attempt) (usingAuthLogin : Bool) (ctx : SmtpContext) :
    Talk.Leaves ctx.core (talk conf a usingAuthLogin ctx) := by
  have hhelo : (Talk.helo conf a ctx).ctx.core = ctx.core := rfl
  unfold talk
  dsimp only
  split
  · exact (Talk.leaves_authLogin a hhelo).bind fun _ => Talk.leaves_envelope a
  · exact Talk.leaves_envelope a hhelo

/-- The texts that relay a message, after the greeting. -/
def Handover.texts (h : Handover) : List Text :=
  ["MAIL FROM: <".toList ++ h.realSender ++ ">\r\n".toList,
    "RCPT TO: <".toList ++ h.smtpRcpt ++ ">\r\n".toList, "DATA\r\n".toList] ++ h.sendbuffer

theorem Talk.command_ok {t t' : Talk} {text reply want : Text} {steps : List SmtpCommand}
    (h : t.command text reply want steps = .ok t') :
    t'.sent = t.sent ++ [text] ∧ t'.ctx.core = t.ctx.core := by
  unfold Talk.command at h
  dsimp only at h
  split at h
  · cases h; exact ⟨rfl, rfl⟩
  · cases h

theorem Talk.bind_ok {x : Except Talk Talk} {f : Talk → Except Talk Talk} {t' : Talk}
    (h : x >>= f = .ok t') : ∃ t, x = .ok t ∧ f t = .ok t' := by
  cases x with
  | ok t => exact ⟨t, rfl, h⟩
  | error t => cases h

theorem Talk.envelope_ok {t t' : Talk} (h : t.envelope a = .ok t') :
    t'.sent = t.sent ++ t.ctx.handover.texts := by
  obtain ⟨t₁, h₁, h⟩ := Talk.bind_ok h
  obtain ⟨t₂, h₂, h⟩ := Talk.bind_ok h
  obtain ⟨t₃, h₃, h⟩ := Talk.bind_ok h
  obtain ⟨s₁, c₁⟩ := Talk.command_ok h₁
  obtain ⟨s₂, c₂⟩ := Talk.command_ok h₂
  obtain ⟨s₃, c₃⟩ := Talk.command_ok h₃
  have hs : t'.sent = t₃.sent ++ t₃.ctx.sendbuffer := by
    unfold Talk.message at h
    dsimp only at h
    split at h
    · cases h; rfl
    · split at h <;> cases h
  have hc₁ : t₁.ctx.handover = t.ctx.handover := (Prod.mk.inj c₁).1
  have hc₃ : t₃.ctx.handover = t.ctx.handover := (Prod.mk.inj (c₃.trans (c₂.trans c₁))).1
  have hr : t₁.ctx.smtpRcpt = t.ctx.handover.smtpRcpt := congrArg Handover.smtpRcpt hc₁
  have hb : t₃.ctx.sendbuffer = t.ctx.handover.sendbuffer := congrArg Handover.sendbuffer hc₃
  rw [hs, s₃, s₂, s₁, hr, hb]
  simp only [Handover.texts, List.append_assoc, List.cons_append, List.nil_append]
  rfl

theorem talk_ok {usingAuthLogin : Bool} {t : Talk} (h : talk conf a usingAuthLogin ctx = .ok t) :
    ∃ greeting, t.sent = greeting ++ ctx.handover.texts := by
  unfold talk at h
  dsimp only at h
  split at h
  · obtain ⟨t₁, h₁, h⟩ := Talk.bind_ok h
    have hleaves := Talk.leaves_authLogin (c := ctx.core) a (t := Talk.helo conf a ctx) rfl
    rw [h₁] at hleaves
    refine ⟨t₁.sent, ?_⟩
    rw [Talk.envelope_ok h, show t₁.ctx.handover = ctx.handover from (Prod.mk.inj hleaves).1]
  · exact ⟨_, Talk.envelope_ok h⟩

/-- Every exit of `connect_mail_eXchange` leaves the session its file and its count.  The successful
one has sent the message; the others leave it in the session. -/
theorem connect_cases (h : connectMailEXchange svr conf a ctx = some r) :
    r.ctx.filePath = ctx.filePath ∧ r.ctx.curRetryCount = ctx.curRetryCount ∧
      (r.err = 0 ∧ (∃ greeting, r.sent = greeting ++ ctx.handover.texts ++ ["QUIT\r\n".toList]) ∨
        r.err ≠ 0 ∧ r.ctx.handover = ctx.handover) := by
  unfold connectMailEXchange at h
  dsimp only at h
  rw [Option.bind_eq_bind, Option.bind_eq_some_iff] at h
  obtain ⟨q, -, h⟩ := h
  have h₁ : (-1 : Int) ≠ 0 := by decide
  have h₂ : (-2 : Int) ≠ 0 := by decide
  have h₃ : (-3 : Int) ≠ 0 := by decide
  -- no exchanger, no connection, no 220
  split at h
  · cases h; exact ⟨rfl, rfl, .inr ⟨h₂, rfl⟩⟩
  split at h
  · cases h; exact ⟨rfl, rfl, .inr ⟨h₃, rfl⟩⟩
  split at h
  · split at h <;> cases h <;> exact ⟨rfl, rfl, .inr ⟨h₁, rfl⟩⟩
  generalize hctx : SmtpContext.mk _ _ _ _ _ _ _ _ _ _ _ _ _ _ _ _ _ _ _ _ _ _ _ _ _ _ = ctx' at h
  have hcore : ctx'.core = ctx.core := by subst hctx; rfl
  have hleaves := leaves_talk conf a (usingAuthLogin svr ctx') ctx'
  rw [hcore] at hleaves
  cases hx : talk conf a (usingAuthLogin svr ctx') ctx' with
  | ok t =>
      obtain ⟨greeting, hsent⟩ := talk_ok hx
      rw [hx] at h hleaves
      simp only [SmtpContext.core, Prod.mk.injEq, Talk.Leaves] at hleaves
      cases h
      refine ⟨hleaves.2.1, hleaves.2.2, .inl ⟨rfl, greeting, ?_⟩⟩
      rw [hsent, show ctx'.handover = ctx.handover from (Prod.mk.inj hcore).1]
  | error t =>
      rw [hx] at h hleaves
      simp only [SmtpContext.core, Prod.mk.injEq, Talk.Leaves] at hleaves
      dsimp only at h
      split at h <;> cases h <;>
        exact ⟨hleaves.2.1, hleaves.2.2, .inr ⟨h₁, hleaves.1⟩⟩

end Talk

/-! ### Handing the message over -/

section Close
variable {svr : SmtpSvr} {conf : RelayConf} {s : Service}

variable (svr conf) in
theorem sendOnce_connected (e : Closing) (a : Attempt) :
    e.connected ⊆ (sendOnce svr conf e a).connected := by
  have happ : e.connected ⊆ e.connected ++ [e.ctx.handover] := List.subset_append_left _ _
  unfold sendOnce
  split
  · exact fun _ h => h
  · dsimp only
    split
    · exact happ
    · split
      · exact happ
      · split <;> exact happ

variable (svr conf) in
theorem foldl_sendOnce_connected : ∀ (as : List Attempt) (e : Closing),
    e.connected ⊆ (as.foldl (sendOnce svr conf) e).connected
  | [], _ => fun _ h => h
  | a :: as, e => fun _ h => foldl_sendOnce_connected as _ (sendOnce_connected svr conf e a h)

variable (svr conf) in
/-- The first call is given what the session holds. -/
theorem sendOnce_first {e : Closing} (ha : e.alive = true) (hs : e.sendSuccess = false)
    (a : Attempt) : e.ctx.handover ∈ (sendOnce svr conf e a).connected := by
  have happ : e.ctx.handover ∈ e.connected ++ [e.ctx.handover] :=
    List.mem_append_right _ (List.mem_singleton_self _)
  unfold sendOnce
  rw [ha, hs, if_neg (by decide)]
  dsimp only
  split
  · exact happ
  · split
    · exact happ
    · split <;> exact happ

variable (svr conf) in
/-- A session whose last line was answered 250 is handed over. -/
theorem close_handover (attempt : Nat → Attempt) (now : Int)
    (h : s.dialogue.ctx.curRetryCount = 0) : s.dialogue.ctx.handover ∈
      (s.close svr conf attempt now).connected ++ (s.close svr conf attempt now).stored := by
  unfold Service.close
  dsimp only
  rw [if_pos h]
  cases hn : conf.gSendRetry with
  | zero =>
      -- no call is made
      rw [List.range_zero, List.map_nil, List.foldl_nil]
      dsimp only
      rw [h, if_neg (by decide)]
      exact List.mem_append_right _ (List.mem_singleton_self _)
  | succ n =>
      rw [List.range_succ_eq_map, List.map_cons, List.foldl_cons]
      have hfirst := sendOnce_first svr conf (e := ⟨s.dialogue.ctx, true, false, [], [], []⟩)
        rfl rfl (attempt 0)
      have hmem := foldl_sendOnce_connected svr conf
        ((List.map Nat.succ (List.range n)).map attempt) _ hfirst
      split <;> exact List.mem_append_left _ hmem

/-- Clearing the history says nothing about the message. -/
theorem RelayInv.clearHistory {d : Dialogue} (h : RelayInv d) :
    RelayInv { d with ctx := { d.ctx with listHistory := [] } } :=
  ⟨h.honest, h.holds.imp (fun p => ⟨p.acked, p.rcpt_of_data, p.mail, p.rcpts, p.text⟩)
    fun p => ⟨p.acked.imp fun _ hm => ⟨hm.1, hm.2.mail, hm.2.realSender, hm.2.rcpts, hm.2.text⟩,
      p.count, p.idle⟩⟩

/-- **No acknowledged message is lost.**  In a run of a connection whose lines all keep the message
the session holds, a message answered 250 is handed over when the connection ends, after whichever
line. -/
theorem relay_run {host : Text} {port now abSize : Int} {fs : List Feed}
    (h : Run (Guarded (fun s f => RelayGuard svr s.dialogue f) (serviceStep svr conf))
      (.accepted host port now abSize) fs s) (attempt : Nat → Attempt) (closedAt : Int) :
    ∀ m ∈ s.dialogue.tr.acked, (s.close svr conf attempt closedAt).Keeps m := by
  have hinv : RelayInv s.dialogue := h.invariant (I := fun s => RelayInv s.dialogue)
    (fun s f s' hs hstep => by
      obtain ⟨hg, -, -, rfl⟩ := hstep
      have hnext := step_relayInv hs hg
      unfold Service.step
      dsimp only
      generalize (if (s.dialogue.handle svr f).err ≠ 0 then s.retryCount + 1 else 0) = retryCount
      split
      · exact hnext.clearHistory
      · exact hnext)
    (accepted_relayInv host port now abSize)
  intro m hm
  rcases hinv.holds with hp | hh
  · rw [hp.acked] at hm
    cases hm
  · obtain ⟨m', hacked, hholds⟩ := hh.acked
    rw [hacked, List.mem_singleton] at hm
    subst hm
    have hmem := close_handover svr conf attempt closedAt hh.count
    refine ⟨⟨_, hmem, hholds.mail.symm, hholds.realSender.symm, hholds.text.symm⟩, fun r hr => ?_⟩
    exact ⟨_, hmem, hholds.mail.symm, hholds.realSender.symm, hholds.text.symm,
      (hholds.rcpts r hr).symm⟩

end Close

/-! ### Connections to look at -/

/-- A relay that calls `connect_mail_eXchange` once. -/
def plainConf : RelayConf := ⟨.empty, 3600, [], 1, 5, 900⟩

/-- A call that does not find the domain. -/
def notFound : Attempt where
  mMailEXchange := .empty
  query := callAt 1000000000 none
  handle := -1
  ready := []
  helo := []
  auth := []
  user := []
  pswd := []
  mail := []
  rcpt := []
  data := []
  dataEnd := []
  bye := []

/-- A message is answered 250, and a RSET after it is the end of it. -/
theorem relay_rset : ∃ s, Run (serviceStep plainSvr plainConf)
    (.accepted "10.0.0.1".toList 2525 1000000000 0)
    (envelopeFeeds none ++ [feed none ".", feed none "RSET"]) s ∧
    ∃ m ∈ s.dialogue.tr.acked,
      ¬ (s.close plainSvr plainConf (fun _ => notFound) 1000000060).Keeps m := by
  refine ⟨_, Run.of_visits (f := Service.step plainSvr plainConf) ?_, ?_⟩
  · have hgo : ∀ p ∈ visits (Service.step plainSvr plainConf)
        (.accepted "10.0.0.1".toList 2525 1000000000 0)
        (envelopeFeeds none ++ [feed none ".", feed none "RSET"]),
        p.1.retryCount < plainConf.gRecvRetry ∧ p.1.dialogue.ctx.command ≠ .quit := by decide
    exact fun p hp => ⟨(hgo p hp).1, (hgo p hp).2, rfl⟩
  · refine ⟨⟨some "a@b.c".toList, "a@b.c".toList, ["d@e.f".toList], [".\r\n".toList]⟩,
      by decide, ?_⟩
    rintro ⟨⟨h, hmem, -, -, ht⟩, -⟩
    revert h
    decide

/-- The same message without it is handed over. -/
theorem relay_plain : ∃ s, Run (serviceStep plainSvr plainConf)
    (.accepted "10.0.0.1".toList 2525 1000000000 0) (envelopeFeeds none ++ [feed none "."]) s ∧
    s.dialogue.tr.acked ≠ [] ∧ ∀ m ∈ s.dialogue.tr.acked,
      (s.close plainSvr plainConf (fun _ => notFound) 1000000060).Keeps m := by
  have hgo : ∀ p ∈ visits (Service.step plainSvr plainConf)
      (.accepted "10.0.0.1".toList 2525 1000000000 0) (envelopeFeeds none ++ [feed none "."]),
      (p.1.retryCount < plainConf.gRecvRetry ∧ p.1.dialogue.ctx.command ≠ .quit) ∧
        p.1.dialogue.tr.acked = [] ∧
        (p.1.dialogue.route p.2 = .input → 0 < inputBytes p.2.line) ∧
        (p.1.dialogue.route p.2 = .run .mail → .rcpt ∉ p.1.dialogue.ctx.nextSteps) ∧
        (p.1.dialogue.route p.2 = .run .rcpt → p.1.dialogue.tr.rcpts = []) := by decide
  have hrun := Run.of_visits (f := Service.step plainSvr plainConf)
    (R := Guarded (fun s f => RelayGuard plainSvr s.dialogue f) (serviceStep plainSvr plainConf))
    fun p hp => by
      obtain ⟨⟨h₁, h₂⟩, h₃, h₄, h₅, h₆⟩ := hgo p hp
      exact ⟨.of_first h₃ h₄ h₅ h₆, h₁, h₂, rfl⟩
  exact ⟨_, hrun.toRun, by decide, relay_run hrun _ _⟩

end Edm.Smtp
