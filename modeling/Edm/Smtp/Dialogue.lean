import Edm.Support.Run
import Edm.Smtp.Session

/-!
# Smtp — Dialogue

A session line by line.  Beside the session, a `Dialogue` keeps a `Transcript` of what the client
was told: whether a HELO was accepted, the sender and the recipients accepted since the last
message, the text sent since a 354, and the messages whose last line was answered 250.

Every line is handled at its own moment and with its own tables, so that other sessions may have
changed them in between.

* `Outcome.of_sent_354`: a session whose `reply_text` is that of its last command answers 354 to
  an accepted DATA only.
* `data_phase_run`: in a run in which no line of message text finds its message over the size
  limit, every line a 354 asks for is message text.
* `envelope_run`: in a run without the four kinds of line `EnvelopeGuard` excludes, the envelope
  of every DATA answered 354 is the one the client was told is accepted.
-/

namespace Edm.Smtp
open Support

/-! ### The transcript -/

/-- A message whose last line was answered 250: the sender and the recipients accepted for it,
the sender it is relayed under, and its lines. -/
structure Message where
  mail : Option Text
  realSender : Text
  rcpts : List Text
  text : List Text
  deriving DecidableEq

/-- What the client was told. -/
structure Transcript where
  /-- A HELO or EHLO was accepted. -/
  helo : Bool
  /-- The sender accepted in this transaction. -/
  mail : Option Text
  /-- The recipients accepted in this transaction. -/
  rcpts : List Text
  /-- A message was completed, and no MAIL, RSET or HELO accepted since. -/
  completed : Bool
  /-- A 354 was sent, and no line `.` received since. -/
  owed : Bool
  /-- The lines of message text received since the last 354. -/
  text : List Text
  /-- The messages answered 250. -/
  acked : List Message
  deriving DecidableEq

namespace Transcript

/-- Nothing was said. -/
def empty : Transcript := ⟨false, none, [], false, false, [], []⟩

/-- The transcript after a command that was answered 250. -/
def accept (tr : Transcript) (line : Text) : SmtpCommand → Transcript
  | .helo | .ehlo => { tr with helo := true, mail := none, rcpts := [], completed := false }
  | .mail => { tr with mail := mailArgument line, rcpts := [], completed := false }
  | .rcpt => { tr with rcpts := tr.rcpts ++ (rcptArgument line).toList }
  | .rset => { tr with mail := none, rcpts := [], completed := false }
  | _ => tr

/-- The transcript after the last line of a message was answered 250. -/
def complete (tr : Transcript) (realSender : Text) : Transcript :=
  { tr with
    acked := tr.acked ++ [⟨tr.mail, realSender, tr.rcpts, tr.text⟩]
    mail := none
    rcpts := []
    completed := true
    text := [] }

/-- What the transcript keeps of the envelope. -/
def envelope (tr : Transcript) : Bool × Option Text × List Text × Bool :=
  (tr.helo, tr.mail, tr.rcpts, tr.completed)

/-- The transcript after a line handled as `route` says and answered `sent`, with `realSender` the
sender the session is relayed under. -/
def note (tr : Transcript) (route : Route) (line : Text) (sent : List Text) (realSender : Text) :
    Transcript :=
  let tr := { tr with owed := (tr.owed && line != smtpDot) || sent == [smtpReply354] }
  match route with
  | .input =>
      let tr := { tr with text := tr.text ++ [line ++ smtpCrlf] }
      if sent = [smtpReply250] then tr.complete realSender else tr
  | .run c =>
      if sent = [smtpReply250] then tr.accept line c
      else if sent = [smtpReply354] then { tr with text := [] }
      else tr
  | _ => tr

end Transcript

/-! ### The dialogue -/

/-- A line of the client, the moment it is handled at, and the tables it finds. -/
structure Feed where
  line : Text
  moment : Moment
  tables : Tables

/-- A session and its transcript. -/
structure Dialogue where
  ctx : SmtpContext
  tr : Transcript

namespace Dialogue

/-- A session `poll4accept` has accepted. -/
def accepted (host : Text) (port now abSize : Int) : Dialogue :=
  ⟨.accepted host port now abSize, .empty⟩

variable (svr : SmtpSvr) (d : Dialogue) (f : Feed)

/-- What comes of a line. -/
def handle : Handled := svr.handleLine f.moment f.tables f.line d.ctx

/-- The branch `handle_line` takes. -/
def route : Route := d.ctx.route f.line

/-- The dialogue after a line. -/
def step : Dialogue :=
  ⟨(d.handle svr f).ctx,
    d.tr.note (d.route f) f.line (d.handle svr f).sent (d.handle svr f).ctx.realSender⟩

end Dialogue

/-- The dialogue goes on by a line. -/
def dialogueStep (svr : SmtpSvr) (d : Dialogue) (f : Feed) (d' : Dialogue) : Prop :=
  d' = d.step svr f

/-! ### The reply 354 -/

/-- A `reply_text` 354 is the reply to the last command. -/
def SmtpContext.Honest (ctx : SmtpContext) : Prop :=
  ctx.replyText = smtpReply354 → ctx.command = .data

theorem SmtpContext.Honest.ne {ctx : SmtpContext} (h : ctx.Honest) (hd : ctx.dataPhase = false) :
    ctx.replyText ≠ smtpReply354 := by
  intro he
  rw [dataPhase, h he, he] at hd
  exact absurd hd (by decide)

section Outcome
variable {valid : Text → Bool} {limited : Prop} {line : Text} {ctx ctx' : SmtpContext}
  {r : Route} {sent : List Text}

/-- A line keeps `reply_text` honest. -/
theorem Outcome.honest (o : Outcome valid limited line ctx r ctx' sent)
    (hr : ctx.route line = r) (h : ctx.Honest) : ctx'.Honest := by
  cases o with
  | ignored => exact h
  | text x d n buffer hn hline hb => exact h
  | dataLimited u p a hl => exact fun he => absurd he (h.ne (mem_of_route_run hr).2.2.2.2.2)
  | data u p a s hl => exact fun _ => (mem_of_route_run hr).1.symm
  | user | password | oversize | last | unknown | misplaced | heloSyntax | helo | auth | mailSyntax
  | mailInvalid | mail | rcptSyntax | rcptInvalid | rcpt | dataQuota | rset | noop | quit =>
      intro he
      simp +decide at he

/-- **A 354 is the answer to a DATA that is not refused.** -/
theorem Outcome.of_sent_354 (o : Outcome valid limited line ctx r ctx' sent)
    (hr : ctx.route line = r) (h : ctx.Honest) (hs : sent = [smtpReply354]) :
    r = .run .data ∧ ctx'.replyText = smtpReply354 ∧ ctx'.nextSteps = ctx.nextSteps ∧
      ctx'.smtpMail = ctx.smtpMail ∧ ctx'.smtpRcpt = ctx.smtpRcpt ∧
      ctx'.rcptDomain = ctx.rcptDomain ∧ ctx'.sendbuffer = [] := by
  cases o with
  | data u p a s hl => exact ⟨rfl, rfl, rfl, rfl, rfl, rfl, rfl⟩
  | dataLimited u p a hl =>
      exact absurd (List.cons.inj hs).1 (h.ne (mem_of_route_run hr).2.2.2.2.2)
  | user | password | oversize | text | last | ignored | unknown | misplaced | heloSyntax | helo
  | auth | mailSyntax | mailInvalid | mail | rcptSyntax | rcptInvalid | rcpt | dataQuota | rset
  | noop | quit => exact absurd hs (by decide)

end Outcome

/-! ### Message text -/

section DataPhase
variable {svr : SmtpSvr} {d : Dialogue} {f : Feed}

/-- What a line of a dialogue does. -/
theorem step_outcome (svr : SmtpSvr) (d : Dialogue) (f : Feed) :
    Outcome svr.isValidEmailAddress
      (HrRefuses f.moment.mysql f.moment.dbNow f.tables.smtp d.ctx.clientHost) f.line d.ctx
      (d.route f) (d.step svr f).ctx (d.handle svr f).sent :=
  handleLine_outcome svr f.moment f.tables

variable (svr f) in
theorem step_honest (h : d.ctx.Honest) : (d.step svr f).ctx.Honest :=
  (step_outcome svr d f).honest rfl h

@[simp] theorem note_owed (tr : Transcript) (r : Route) (line : Text) (sent : List Text)
    (realSender : Text) : (tr.note r line sent realSender).owed =
      ((tr.owed && line != smtpDot) || sent == [smtpReply354]) := by
  unfold Transcript.note
  cases r with
  | input =>
      dsimp only
      split <;> rfl
  | run c =>
      dsimp only
      split
      · cases c <;> rfl
      · split <;> rfl
  | user | password | ignored | unknown | misplaced => rfl

/-- A 354 is owed message text: the session is in the data phase, and not in an AUTH LOGIN. -/
structure DataInv (d : Dialogue) : Prop where
  honest : d.ctx.Honest
  owed : d.tr.owed = true →
    d.ctx.dataPhase = true ∧ d.ctx.nextSteps ≠ [.auth] ∧ d.ctx.nextSteps ≠ [.pswd]

theorem DataInv.route (h : DataInv d) (ho : d.tr.owed = true) (f : Feed) : d.route f = .input :=
  route_input (h.owed ho).2.1 (h.owed ho).2.2 (h.owed ho).1

/-- A line of message text does not find the message over its limit; the last line may. -/
def SizeGuard (d : Dialogue) (f : Feed) : Prop :=
  d.ctx.dataPhase = true → f.line ≠ smtpDot → ¬ (0 < inputBytes f.line ∧ d.ctx.overSize)

theorem accepted_dataInv (host : Text) (port now abSize : Int) :
    DataInv (.accepted host port now abSize) :=
  ⟨fun h => absurd (show ([] : Text) = smtpReply354 from h) (by decide), fun h => by cases h⟩

theorem step_dataInv (h : DataInv d) (hg : SizeGuard d f) : DataInv (d.step svr f) := by
  refine ⟨step_honest svr f h.honest, fun ho => ?_⟩
  have o := step_outcome svr d f
  rw [Dialogue.step, note_owed, Bool.or_eq_true, Bool.and_eq_true, beq_iff_eq] at ho
  rcases ho with ⟨ho, hline⟩ | hs
  · -- the text that is owed goes on: the line is neither the last one nor over the limit
    have hr := h.route ho f
    have hdata := (h.owed ho).1
    rw [bne_iff_ne] at hline
    rw [hr] at o
    generalize (d.step svr f).ctx = ctx', (d.handle svr f).sent = sent at o
    cases o with
    | oversize x e hov => exact absurd hov (hg hdata hline)
    | text x e n buffer hn hl hb => exact h.owed ho
    | last x e n buffer hn hl hb => exact absurd hl hline
  · -- the text is owed from now on: the line was a DATA
    obtain ⟨hr, hreply, hsteps, -⟩ := o.of_sent_354 rfl h.honest hs
    have hhon := step_honest svr f h.honest
    obtain ⟨-, -, -, h₁, h₂, -⟩ := mem_of_route_run hr
    refine ⟨?_, by rwa [hsteps], by rwa [hsteps]⟩
    rw [SmtpContext.dataPhase, hhon hreply, hreply]
    decide

/-- **Message text is not executed.**  In a run in which no line of message text finds its message
over the limit, every line a 354 asks for goes to `on_input`. -/
theorem data_phase_run {host : Text} {port now abSize : Int} {fs : List Feed}
    (h : Run (Guarded SizeGuard (dialogueStep svr)) (.accepted host port now abSize) fs d)
    (ho : d.tr.owed = true) (f : Feed) :
    d.route f = .input ∧ d.handle svr f = ⟨(onInput f.line d.ctx).1, f.tables,
      (onInput f.line d.ctx).2.1, (onInput f.line d.ctx).2.2⟩ := by
  have hinv : DataInv d := h.invariant
    (fun d f d' hd hs => by rw [hs.2]; exact step_dataInv hd hs.1)
    (accepted_dataInv host port now abSize)
  have hr := hinv.route ho f
  refine ⟨hr, ?_⟩
  rw [Dialogue.handle, handleLine_eq, show d.ctx.route f.line = .input from hr]
  rfl

end DataPhase

/-! ### The envelope -/

/-- The envelope the client was told is accepted: a HELO was, the sender and the last recipient of
the transaction are those of the session, both passed the address check, and the domain is that of
the recipient. -/
structure Envelope (valid : Text → Bool) (tr : Transcript) (ctx : SmtpContext) : Prop where
  helo : tr.helo = true
  mail : tr.mail = some ctx.smtpMail ∧ valid ctx.smtpMail = true
  rcpt : tr.rcpts.getLast? = some ctx.smtpRcpt ∧ valid ctx.smtpRcpt = true
  domain : ctx.rcptDomain = tolower (domainOf ctx.smtpRcpt)

/-- The lines that break it: a RSET before any HELO; a MAIL or a RCPT whose address is refused
after one that was accepted; a DATA after a completed message, before a new MAIL. -/
structure EnvelopeGuard (svr : SmtpSvr) (d : Dialogue) (f : Feed) : Prop where
  rset : d.route f = .run .rset → d.tr.helo = true
  mail : d.route f = .run .mail → .rcpt ∈ d.ctx.nextSteps →
    ∀ a, mailArgument f.line = some a → svr.isValidEmailAddress a = true
  rcpt : d.route f = .run .rcpt → .data ∈ d.ctx.nextSteps →
    ∀ a, rcptArgument f.line = some a → svr.isValidEmailAddress a = true
  data : d.route f = .run .data → d.tr.completed = false

/-- What `next_steps` promises. -/
structure EnvelopeInv (valid : Text → Bool) (tr : Transcript) (ctx : SmtpContext) : Prop where
  helo : tr.helo = true ∨ ∀ c ∈ ctx.nextSteps, c ∈ [SmtpCommand.helo, .ehlo, .noop, .rset, .quit]
  rcpt_of_data : .data ∈ ctx.nextSteps → .rcpt ∈ ctx.nextSteps
  mail : .rcpt ∈ ctx.nextSteps → tr.completed = true ∨
    (tr.mail = some ctx.smtpMail ∧ valid ctx.smtpMail = true)
  rcpt : .data ∈ ctx.nextSteps → tr.completed = true ∨
    (tr.rcpts.getLast? = some ctx.smtpRcpt ∧ valid ctx.smtpRcpt = true ∧
      ctx.rcptDomain = tolower (domainOf ctx.smtpRcpt))

/-- What the session keeps of the envelope. -/
def SmtpContext.envelope (ctx : SmtpContext) : List SmtpCommand × Text × Text × Text :=
  (ctx.nextSteps, ctx.smtpMail, ctx.smtpRcpt, ctx.rcptDomain)

section Envelope
variable {svr : SmtpSvr} {valid : Text → Bool} {d : Dialogue} {f : Feed} {tr tr' : Transcript}
  {ctx ctx' : SmtpContext} {line realSender : Text} {sent : List Text} {c : SmtpCommand}

/-- Only a 250 changes what the transcript keeps of the envelope. -/
theorem note_envelope (hs : sent ≠ [smtpReply250]) (r : Route) :
    (tr.note r line sent realSender).envelope = tr.envelope := by
  unfold Transcript.note
  cases r with
  | input =>
      dsimp only
      rw [if_neg hs]
      rfl
  | run c =>
      dsimp only
      rw [if_neg hs]
      split <;> rfl
  | user | password | ignored | unknown | misplaced => rfl

theorem note_run_250 :
    (tr.note (.run c) line [smtpReply250] realSender).envelope = (tr.accept line c).envelope := by
  cases c <;> rfl

/-- A command that says nothing about the envelope. -/
theorem note_run_other (hc : ∀ tr : Transcript, tr.accept line c = tr) :
    (tr.note (.run c) line sent realSender).envelope = tr.envelope := by
  by_cases hs : sent = [smtpReply250]
  · rw [hs, note_run_250, hc]
  · exact note_envelope hs _

namespace EnvelopeInv

/-- A session in which nothing the envelope is about changed. -/
theorem same (hi : EnvelopeInv valid tr ctx) (hc : ctx'.envelope = ctx.envelope)
    (ht : tr'.envelope = tr.envelope) : EnvelopeInv valid tr' ctx' := by
  simp only [SmtpContext.envelope, Transcript.envelope, Prod.mk.injEq] at hc ht
  obtain ⟨hn, hm, hr, hd⟩ := hc
  obtain ⟨ht₁, ht₂, ht₃, ht₄⟩ := ht
  obtain ⟨h₁, h₂, h₃, h₄⟩ := hi
  constructor
  · rwa [ht₁, hn]
  · rwa [hn]
  · rwa [hn, ht₄, ht₂, hm]
  · rwa [hn, ht₄, ht₃, hr, hd]

/-- A session that asks for a HELO or a MAIL next. -/
theorem fresh (steps : List SmtpCommand) (hn : ctx'.nextSteps = steps) (hh : tr'.helo = true)
    (hr : .rcpt ∉ steps) (hd : .data ∉ steps) : EnvelopeInv valid tr' ctx' := by
  subst hn
  exact ⟨.inl hh, fun h => absurd h hd, fun h => absurd h hr, fun h => absurd h hd⟩

/-- Anything but what a session may start with needs a HELO. -/
theorem helo_of_mem (hi : EnvelopeInv valid tr ctx) (hc : c ∈ ctx.nextSteps)
    (hn : c ∉ [SmtpCommand.helo, .ehlo, .noop, .rset, .quit]) : tr.helo = true :=
  hi.helo.resolve_right fun hall => hn (hall c hc)

theorem accepted (host : Text) (port now abSize : Int) :
    EnvelopeInv valid .empty (.accepted host port now abSize) where
  helo := .inr fun _ hc => hc
  rcpt_of_data := fun h => absurd (show SmtpCommand.data ∈
    [SmtpCommand.helo, .ehlo, .noop, .rset, .quit] from h) (by decide)
  mail := fun h => absurd (show SmtpCommand.rcpt ∈
    [SmtpCommand.helo, .ehlo, .noop, .rset, .quit] from h) (by decide)
  rcpt := fun h => absurd (show SmtpCommand.data ∈
    [SmtpCommand.helo, .ehlo, .noop, .rset, .quit] from h) (by decide)

end EnvelopeInv

theorem helo_of_envelope (ht : tr'.envelope = tr.envelope) : tr'.helo = tr.helo :=
  (Prod.mk.inj ht).1

/-- **One line keeps what `next_steps` promises.** -/
theorem step_envelopeInv (hi : EnvelopeInv svr.isValidEmailAddress d.tr d.ctx)
    (hg : EnvelopeGuard svr d f) :
    EnvelopeInv svr.isValidEmailAddress (d.step svr f).tr (d.step svr f).ctx := by
  obtain ⟨g₁, g₂, g₃, -⟩ := hg
  have o := step_outcome svr d f
  unfold Dialogue.step at o ⊢
  have hroute : d.ctx.route f.line = d.route f := rfl
  generalize d.route f = r at *
  generalize (d.handle svr f).ctx = ctx', (d.handle svr f).sent = sent at *
  dsimp only at o ⊢
  -- a command in its place, other than those a session may start with, has a HELO before it
  have helo : ∀ c, r = .run c → c ∉ [SmtpCommand.helo, .ehlo, .noop, .rset, .quit] →
      d.tr.helo = true := fun c hc hn => by
    subst hc
    exact hi.helo_of_mem (mem_of_route_run hroute).2.2.1 hn
  have quiet : sent ≠ [smtpReply250] →
      (d.tr.note r f.line sent ctx'.realSender).envelope = d.tr.envelope :=
    fun hs => note_envelope hs r
  cases o with
  | user =>
      have hh := hi.helo_of_mem (c := .auth) (by rw [nextSteps_of_route_user hroute]; decide)
        (by decide)
      exact .fresh [.pswd] rfl ((helo_of_envelope (quiet (by decide))).trans hh) (by decide)
        (by decide)
  | password =>
      have hh := hi.helo_of_mem (c := .pswd)
        (by rw [nextSteps_of_route_password hroute]; decide) (by decide)
      exact .fresh [.helo, .ehlo, .mail, .rset, .noop, .quit] rfl
        ((helo_of_envelope (quiet (by decide))).trans hh) (by decide) (by decide)
  | last x e n buffer hn hl hb =>
      exact ⟨hi.helo, hi.rcpt_of_data, fun _ => .inl rfl, fun _ => .inl rfl⟩
  | helo c hc name =>
      refine .fresh [.helo, .ehlo, .mail, .rset, .noop, .quit, .auth] rfl ?_ (by decide)
        (by decide)
      rw [helo_of_envelope note_run_250]
      rcases hc with rfl | rfl <;> rfl
  | auth =>
      exact .fresh [.auth] rfl ((helo_of_envelope (quiet (by decide))).trans
        (helo _ rfl (by decide))) (by decide) (by decide)
  | mailInvalid a ha hv =>
      -- no accepted sender is overwritten: after one, the guard wants the address valid
      have hn : .rcpt ∉ d.ctx.nextSteps := fun hm => by
        rw [g₂ rfl hm a ha] at hv
        cases hv
      exact .fresh d.ctx.nextSteps rfl ((helo_of_envelope (quiet (by decide))).trans
        (helo _ rfl (by decide))) hn fun hd => hn (hi.rcpt_of_data hd)
  | mail a ha hv =>
      have hh := helo _ rfl (by decide)
      exact ⟨.inl hh, fun hd => absurd (show SmtpCommand.data ∈
          [SmtpCommand.helo, .ehlo, .mail, .rcpt, .rset, .noop, .quit] from hd) (by decide),
        fun _ => .inr ⟨ha, hv⟩, fun hd => absurd (show SmtpCommand.data ∈
          [SmtpCommand.helo, .ehlo, .mail, .rcpt, .rset, .noop, .quit] from hd) (by decide)⟩
  | rcptInvalid a ha hv =>
      have hn : .data ∉ d.ctx.nextSteps := fun hm => by
        rw [g₃ rfl hm a ha] at hv
        cases hv
      have hsame : EnvelopeInv svr.isValidEmailAddress
          (d.tr.note (.run .rcpt) f.line [smtpReply509] d.ctx.realSender) d.ctx :=
        hi.same rfl (quiet (by decide))
      exact ⟨hsame.helo, fun hd => absurd hd hn, hsame.mail, fun hd => absurd hd hn⟩
  | rcpt a ha hv =>
      have hr : .rcpt ∈ d.ctx.nextSteps := (mem_of_route_run hroute).2.2.1
      refine ⟨.inl (helo _ rfl (by decide)), fun _ => ?_, fun _ => hi.mail hr, fun _ => .inr ?_⟩
      · exact (by decide : SmtpCommand.rcpt ∈
          [SmtpCommand.helo, .ehlo, .mail, .rcpt, .data, .rset, .noop, .quit])
      · refine ⟨?_, hv, rfl⟩
        show (d.tr.rcpts ++ (rcptArgument f.line).toList).getLast? = some a
        rw [ha]
        exact List.getLast?_concat
  | dataLimited u p a hl =>
      exact .fresh [.helo, .ehlo, .mail, .rset, .noop, .quit] rfl
        ((helo_of_envelope (note_run_other fun _ => rfl)).trans (helo _ rfl (by decide)))
        (by decide) (by decide)
  | dataQuota u p a hl =>
      exact .fresh [.helo, .ehlo, .mail, .rset, .noop, .quit] rfl
        ((helo_of_envelope (quiet (by decide))).trans (helo _ rfl (by decide)))
        (by decide) (by decide)
  | data u p a s hl => exact hi.same rfl (note_run_other fun _ => rfl)
  | rset =>
      refine .fresh [.helo, .ehlo, .mail, .rset, .noop, .quit] rfl ?_ (by decide) (by decide)
      rw [helo_of_envelope note_run_250]
      exact g₁ rfl
  | noop => exact hi.same rfl (note_run_other fun _ => rfl)
  | quit =>
      exact ⟨.inr fun _ hc => absurd hc List.not_mem_nil, fun hc => absurd hc List.not_mem_nil,
        fun hc => absurd hc List.not_mem_nil, fun hc => absurd hc List.not_mem_nil⟩
  | oversize | text | ignored | unknown | misplaced | heloSyntax | mailSyntax | rcptSyntax =>
      exact hi.same rfl (quiet (by decide))

/-- **The envelope of a DATA.**  In a run without the lines that break it, the envelope of every
DATA that is answered 354 is the one the client was told is accepted. -/
theorem envelope_run {host : Text} {port now abSize : Int} {fs : List Feed}
    (h : Run (Guarded (EnvelopeGuard svr) (dialogueStep svr)) (.accepted host port now abSize)
      fs d) (hg : EnvelopeGuard svr d f) (hs : (d.handle svr f).sent = [smtpReply354]) :
    Envelope svr.isValidEmailAddress d.tr (d.handle svr f).ctx := by
  have hinv : d.ctx.Honest ∧ EnvelopeInv svr.isValidEmailAddress d.tr d.ctx := h.invariant
    (I := fun d => d.ctx.Honest ∧ EnvelopeInv svr.isValidEmailAddress d.tr d.ctx)
    (fun d f d' hd hs => by
      rw [hs.2]
      exact ⟨step_honest _ _ hd.1, step_envelopeInv hd.2 hs.1⟩)
    ⟨(accepted_dataInv host port now abSize).honest, .accepted host port now abSize⟩
  obtain ⟨hon, hi⟩ := hinv
  obtain ⟨hr, -, -, hm, hrc, hd, -⟩ := (step_outcome svr d f).of_sent_354 rfl hon hs
  have hmem : SmtpCommand.data ∈ d.ctx.nextSteps := (mem_of_route_run hr).2.2.1
  have hcomp : ¬ d.tr.completed = true := by rw [hg.data hr]; decide
  obtain ⟨hrcpt, hrv, hdom⟩ := (hi.rcpt hmem).resolve_left hcomp
  have hmail := (hi.mail (hi.rcpt_of_data hmem)).resolve_left hcomp
  refine ⟨hi.helo_of_mem hmem (by decide), ?_, ?_, ?_⟩
  · rwa [show (d.handle svr f).ctx.smtpMail = _ from hm]
  · rw [show (d.handle svr f).ctx.smtpRcpt = _ from hrc]
    exact ⟨hrcpt, hrv⟩
  · rw [show (d.handle svr f).ctx.rcptDomain = _ from hd,
      show (d.handle svr f).ctx.smtpRcpt = _ from hrc]
    exact hdom

end Envelope

/-! ### Sessions to look at -/

/-- A server with its own address check and no accounts. -/
def plainSvr : SmtpSvr := ⟨MimeParser.isValidEmailAddress, 1, [], minuteControl⟩

/-- A line of a session whose client has the row `row`, when there is one. -/
def feed (row : Option SmtpRow) (line : String) : Feed where
  line := line.toList
  moment := ⟨1000000000, 1000000000, 0, .up, 0, 0⟩
  tables := ⟨row.toList, ⟨.empty, .empty⟩⟩

/-- The lines of an envelope. -/
def envelopeFeeds (row : Option SmtpRow) : List Feed :=
  [feed row "HELO h", feed row "MAIL FROM:<a@b.c>", feed row "RCPT TO:<d@e.f>", feed row "DATA"]

/-- A session of the client 10.0.0.1. -/
def plainSession : Dialogue := .accepted "10.0.0.1".toList 2525 1000000000 0

/-- A client that has sent nothing yet, and whose messages may have one line. -/
def tightRow : SmtpRow :=
  { hourlyRow with
    hour := 10
    quarterCount := none
    hourCount := none
    dayCount := none
    quarterTime := none
    hourTime := none
    dayTime := none }

/-- The second line of the text finds the message over the limit, and the third, still in the
text, ends the session as the command QUIT. -/
theorem data_phase_oversize : ∃ d, Run (dialogueStep plainSvr) plainSession
    (envelopeFeeds tightRow ++ [feed tightRow "one", feed tightRow "two"]) d ∧
      d.tr.owed = true ∧ d.route (feed tightRow "QUIT") = .run .quit :=
  ⟨_, Run.foldl _ _ _, by decide, by decide⟩

/-- Without a limit the same text is owed and goes to `on_input`. -/
theorem data_phase_unlimited : ∃ d, Run (dialogueStep plainSvr) plainSession
    (envelopeFeeds none ++ [feed none "one", feed none "two"]) d ∧ d.tr.owed = true ∧
      d.route (feed none "QUIT") = .input := by
  have hg : Run (Guarded SizeGuard (dialogueStep plainSvr)) plainSession
      (envelopeFeeds none ++ [feed none "one", feed none "two"])
      ((envelopeFeeds none ++ [feed none "one", feed none "two"]).foldl
        (Dialogue.step plainSvr) plainSession) := by
    refine .more ⟨?_, rfl⟩ (.more ⟨?_, rfl⟩ (.more ⟨?_, rfl⟩ (.more ⟨?_, rfl⟩
      (.more ⟨?_, rfl⟩ (.more ⟨?_, rfl⟩ (.refl _))))))
    all_goals exact fun _ _ => by decide
  exact ⟨_, hg.toRun, by decide, (data_phase_run hg (by decide) _).1⟩

/-- A MAIL whose address is refused replaces the sender that was accepted, and the RCPT and the DATA
after it are accepted. -/
theorem envelope_refused_mail : ∃ d, Run (dialogueStep plainSvr) plainSession
    [feed none "HELO h", feed none "MAIL FROM:<a@b.c>", feed none "MAIL FROM:<nobody>",
      feed none "RCPT TO:<d@e.f>"] d ∧
    (d.handle plainSvr (feed none "DATA")).sent = [smtpReply354] ∧
    ¬ Envelope plainSvr.isValidEmailAddress d.tr (d.handle plainSvr (feed none "DATA")).ctx := by
  refine ⟨_, Run.foldl _ _ _, by decide, fun h => ?_⟩
  have hv := h.mail.2
  revert hv
  decide

/-- The envelope of a session without them. -/
theorem envelope_plain : ∃ d, Run (dialogueStep plainSvr) plainSession
    [feed none "HELO h", feed none "MAIL FROM:<a@b.c>", feed none "RCPT TO:<d@e.f>"] d ∧
    Envelope plainSvr.isValidEmailAddress d.tr (d.handle plainSvr (feed none "DATA")).ctx := by
  have hg : Run (Guarded (EnvelopeGuard plainSvr) (dialogueStep plainSvr)) plainSession
      [feed none "HELO h", feed none "MAIL FROM:<a@b.c>", feed none "RCPT TO:<d@e.f>"]
      ([feed none "HELO h", feed none "MAIL FROM:<a@b.c>", feed none "RCPT TO:<d@e.f>"].foldl
        (Dialogue.step plainSvr) plainSession) := by
    refine .more ⟨⟨by decide, fun h => ?_, fun h => ?_, by decide⟩, rfl⟩
      (.more ⟨⟨by decide, fun _ h => ?_, fun h => ?_, by decide⟩, rfl⟩
        (.more ⟨⟨by decide, fun h => ?_, fun _ h => ?_, by decide⟩, rfl⟩ (.refl _)))
    all_goals exact absurd h (by decide)
  exact ⟨_, hg.toRun, envelope_run hg
    ⟨by decide, fun h => absurd h (by decide), fun h => absurd h (by decide), by decide⟩
    (by decide)⟩

end Edm.Smtp
