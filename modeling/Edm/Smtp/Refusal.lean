import Edm.Smtp.Dialogue

/-!
# Smtp — Refusal

What a refused command leaves behind, and what the client is told of it.

* `onData_refused_iff`: a refused DATA leaves the counters of the client and of every sender
  exactly when it is the client's own limits that refuse it; when it is the quota of the senders,
  each of them has counted the message.
* `handleLine_answered_iff`: a line outside the data phase is answered by a text of its own, 2xx or
  3xx exactly when it is accepted, unless it is a DATA that the client's limits refuse: that one is
  answered with the text the command before it left.
-/

namespace Edm.Smtp
open Support

/-! ### What a refused DATA consumes -/

/-- Every counter is what it was: those of the rows, those of the senders, and no sender is new.  A
window may have been restarted when it had expired. -/
structure ConsumesNothing (m : Moment) (t t' : Tables) : Prop where
  rows : ∀ (i : Nat) (row : SmtpRow), t.smtp[i]? = some row →
    ∃ row' : SmtpRow, t'.smtp[i]? = some row' ∧ ∀ u,
      row'.count u = row.count u ∨ (row.Older m.dbNow u.period u ∧ row'.start u ≠ row.start u)
  senders : ∀ p q, t.quotas.entry p = some q → ∃ q', t'.quotas.entry p = some q' ∧
    (q'.number = q.number ∨ (q.interval < m.now - q.tpoint ∧ q'.tpoint ≠ q.tpoint))
  noSender : ∀ p, t.quotas.entry p = none → t'.quotas.entry p = none

theorem ConsumesNothing.refl (m : Moment) (t : Tables) : ConsumesNothing m t t :=
  ⟨fun _ row h => ⟨row, h, fun _ => .inl rfl⟩, fun _ q h => ⟨q, h, .inl rfl⟩, fun _ h => h⟩

theorem int32_succ_ne (z : Int) : int32 (z + 1) ≠ z := by
  intro h
  have hm : int32 (z + 1) % 2 ^ 32 = (z + 1) % 2 ^ 32 := Int.bmod_emod
  rw [h] at hm
  omega

/-- A sender that is probed in vain has counted the probe, in the window it was in. -/
theorem DeliveryQuota.probe_refused {q : DeliveryQuota} {now : Int}
    (h : (q.probe now).2 = false) :
    (q.probe now).1.number ≠ q.number ∧ (q.probe now).1.tpoint = q.tpoint := by
  have hq := q.quota_pos
  have hfull : ¬ (q.refresh now).number < (q.refresh now).quota := of_decide_eq_false h
  rcases q.refresh_cases now with ⟨hr, -, -⟩ | ⟨hr, -⟩
  · refine ⟨?_, ?_⟩
    · show int32 ((q.refresh now).number + 1) ≠ q.number
      rw [hr]
      exact int32_succ_ne q.number
    · rw [DeliveryQuota.probe_tpoint, hr]
  · rw [hr] at hfull
    exact absurd (show (0 : Int) < q.quota by omega) hfull

/-- When no pair is given the mail, some sender was probed in vain. -/
theorem probed_of_winner_none (ctl : Control) (l : QuotaLedger) (c : SenderCall)
    (h : l.winner ctl c = none) : ∃ p q, l.quotas.entry p = some q ∧
      (l.step ctl c).quotas.entry p = some (q.probe c.now).1 ∧ (q.probe c.now).2 = false := by
  cases hc : l.quotas.configured c.ctx.rcptDomain with
  | some km =>
      obtain ⟨key, m⟩ := km
      obtain ⟨hw, he⟩ := QuotaLedger.step_configured ctl hc
      have hstop : (m.senders.visit fun _ => DeliveryQuota.probe c.now).2 = none :=
        Option.map_eq_none_iff.mp (hw.symm.trans h)
      obtain ⟨⟨s, q⟩, rest, hm⟩ := List.exists_cons_of_ne_nil m.nonempty
      have hmem : (s, q) ∈ m.senders.entries := by rw [hm]; exact List.mem_cons_self
      have hq := StdMap.find_eq_some_iff.mpr hmem
      refine ⟨.configured key s, q, ?_, ?_, ?_⟩
      · rw [Quotas.entry, mem_configured hc, Option.bind_some, hq]
      · rw [he, Quotas.entry_storeDelivery]
        dsimp only
        rw [if_pos rfl]
        have hall : ∀ s' ∈ (m.senders.visit fun _ => DeliveryQuota.probe c.now).2, s ≤ s' := by
          rw [hstop]
          exact fun _ h => absurd h (Option.not_mem_none _)
        have hv := m.senders.find_visit (fun _ => DeliveryQuota.probe c.now) s
        rw [hq, Option.map_some, if_pos hall] at hv
        exact hv
      · rw [StdMap.visit_snd, Option.map_eq_none_iff] at hstop
        have hn := List.find?_eq_none.mp hstop (s, q) hmem
        exact Bool.eq_false_of_not_eq_true hn
  | none =>
      cases hq : l.quotas.entry (.cached c.ctx.rcptDomain c.ctx.smtpMail) with
      | none =>
          have hnew := (QuotaLedger.step_new ctl hc hq).1
          rw [h] at hnew
          cases hnew
      | some q =>
          obtain ⟨hw, -, he⟩ := QuotaLedger.step_cached ctl hc hq
          refine ⟨.cached c.ctx.rcptDomain c.ctx.smtpMail, q, hq, ?_, ?_⟩
          · rw [he, if_pos rfl]
          · refine Bool.eq_false_of_not_eq_true fun hp => ?_
            rw [hw.mpr hp] at h
            cases h

/-- When `set_real_sender` refuses, it has probed some sender in vain. -/
theorem setRealSender_refused {ctl : Control} {now : Int} {qs : Quotas} {ctx : SmtpContext}
    (h : (setRealSender ctl now qs ctx).1 ≠ 0) : ∃ p q, qs.entry p = some q ∧
      (setRealSender ctl now qs ctx).2.1.entry p = some (q.probe now).1 ∧
      (q.probe now).2 = false :=
  probed_of_winner_none ctl ⟨qs, fun _ => 0, fun _ => 0⟩ ⟨now, ctx⟩ (by
    rw [QuotaLedger.winner]
    exact if_neg h)

/-- A DATA that the limits of the client do not refuse, and that is refused, has counted against a
sender. -/
theorem onData_quota {svr : SmtpSvr} {m : Moment} {t : Tables} {ctx : SmtpContext}
    (hr : ¬ HrRefuses m.mysql m.dbNow t.smtp ctx.clientHost)
    (h : (svr.onData m t ctx).1 = some (-1)) : ∃ p q q', t.quotas.entry p = some q ∧
      (svr.onData m t ctx).2.1.quotas.entry p = some q' ∧ q'.number ≠ q.number ∧
      q'.tpoint = q.tpoint := by
  obtain ⟨u, w, hauth⟩ := drawAuth_eq svr m ctx
  unfold SmtpSvr.onData at h ⊢
  simp only [hauth] at h ⊢
  rcases checkHRControl_cases m.mysql m.dbNow t.smtp
    { ctx with smtpUser := u, smtpPswd := w, abSize := -1 } with ⟨hr', -⟩ | ⟨-, tab, a, he⟩
  · exact absurd hr' hr
  · rw [he, if_neg (show ¬ (0 : Int) ≠ 0 by decide)] at h ⊢
    by_cases hs : (setRealSender svr.control m.now t.quotas
        { ctx with smtpUser := u, smtpPswd := w, abSize := a }).1 ≠ 0
    · obtain ⟨p, q, hq, hq', hp⟩ := setRealSender_refused hs
      rw [if_pos hs]
      exact ⟨p, q, _, hq, hq', DeliveryQuota.probe_refused hp⟩
    · rw [if_neg hs] at h
      cases h

/-- **What a refused DATA consumes.**  It consumes nothing exactly when it is refused by the limits
of the client. -/
theorem onData_refused_iff {svr : SmtpSvr} {m : Moment} {t : Tables} {ctx : SmtpContext}
    (h : (svr.onData m t ctx).1 = some (-1)) :
    ConsumesNothing m t (svr.onData m t ctx).2.1 ↔
      HrRefuses m.mysql m.dbNow t.smtp ctx.clientHost := by
  rcases onData_cases svr m t ctx with ⟨hr, u, p, a, he⟩ | ⟨hr, hrest⟩
  · rw [he]
    exact iff_of_true (.refl m t) hr
  · refine iff_of_false (fun hnone => ?_) hr
    obtain ⟨p, q, q', hq, hq', hne, ht⟩ := onData_quota hr h
    obtain ⟨q₁, hq₁, hsame⟩ := hnone.senders p q hq
    cases hq'.symm.trans hq₁
    rcases hsame with hsame | ⟨-, hstart⟩
    · exact hne hsame
    · exact hstart ht

/-- The tables after the one mail a minute of the configured sender, with the row of a client that
has sent nothing yet. -/
def spentTables : Tables :=
  ⟨[tightRow], ((QuotaLedger.loaded 1000000000 minuteConf).step minuteControl
    (callFor 1000000000)).quotas⟩

/-- A session of that client with a recipient in `x.com`. -/
def xClient : SmtpContext := { hourlyClient with rcptDomain := "x.com".toList }

/-- The second mail of the minute is refused, and the client's row has counted it. -/
theorem onData_quota_counts :
    (plainSvr.onData (feed none "").moment spentTables xClient).1 = some (-1) ∧
    ¬ ConsumesNothing (feed none "").moment spentTables
      (plainSvr.onData (feed none "").moment spentTables xClient).2.1 := by
  refine ⟨by decide, fun h => ?_⟩
  obtain ⟨row', hrow', hu⟩ := h.rows 0 tightRow (by decide)
  have hcount : ((plainSvr.onData (feed none "").moment spentTables
      xClient).2.1.smtp[0]?).map (fun r => r.count .hour) = some 1 := by decide
  rw [hrow', Option.map_some, Option.some.injEq] at hcount
  rcases hu .hour with hsame | ⟨hold, -⟩
  · rw [hsame] at hcount
    revert hcount
    decide
  · revert hold
    decide

/-- The second message of the hour is refused, and nothing is counted. -/
theorem onData_limit_keeps :
    ConsumesNothing { (feed none "").moment with dbNow := 60 } ⟨[hourlyRow], ⟨.empty, .empty⟩⟩
      (plainSvr.onData { (feed none "").moment with dbNow := 60 }
        ⟨[hourlyRow], ⟨.empty, .empty⟩⟩ hourlyClient).2.1 ↔
    HrRefuses .up 60 [hourlyRow] hourlyClient.clientHost :=
  onData_refused_iff (by decide)

/-! ### What the client is told -/

/-- The command is refused: it is none, it is out of sequence, or its handler returns an error. -/
def SmtpSvr.Refuses (svr : SmtpSvr) (m : Moment) (t : Tables) (line : Text) (ctx : SmtpContext) :
    Prop :=
  match ctx.route line with
  | .unknown | .misplaced => True
  | .run c => ∃ e, (svr.runCommand m t line (ctx.received line) c).1 = some e ∧ e ≠ 0
  | .user | .password | .input | .ignored => False

/-- The line is answered: one text is sent, which does not depend on the one the session had; it
is 2xx or 3xx exactly when the command is not refused. -/
structure Answered (svr : SmtpSvr) (m : Moment) (t : Tables) (line : Text) (ctx : SmtpContext) :
    Prop where
  reply : ∃ reply, (svr.handleLine m t line ctx).sent = [reply] ∧
    (positive reply = true ↔ ¬ svr.Refuses m t line ctx)
  own : ∀ r, strncmpEq r "354".toList = false →
    (svr.handleLine m t line { ctx with replyText := r }).sent =
      (svr.handleLine m t line ctx).sent

section Answered
variable {svr : SmtpSvr} {m : Moment} {t : Tables} {line : Text} {ctx : SmtpContext}

/-- The branch does not depend on `reply_text`, outside the data phase. -/
theorem route_replyText {r : Text} (hr : strncmpEq r "354".toList = false)
    (h : ctx.route line ≠ .input) :
    SmtpContext.route { ctx with replyText := r } line = ctx.route line := by
  have hd : SmtpContext.dataPhase { ctx with replyText := r } = false := by
    show (ctx.command == .data && strncmpEq r "354".toList) = false
    rw [hr, Bool.and_false]
  unfold SmtpContext.route at h ⊢
  rw [hd]
  by_cases h₁ : ctx.nextSteps = [.auth]
  · rw [if_pos h₁, if_pos h₁]
  by_cases h₂ : ctx.nextSteps = [.pswd]
  · rw [if_neg h₁, if_neg h₁, if_pos h₂, if_pos h₂]
  rw [if_neg h₁, if_neg h₂] at h
  by_cases h₃ : ctx.dataPhase = true
  · rw [if_pos h₃] at h
    exact absurd rfl h
  · rw [if_neg h₁, if_neg h₁, if_neg h₂, if_neg h₂, if_neg h₃, if_neg (by decide)]

theorem reply_negative (reply : Text) (h : positive reply = false) :
    positive reply = true ↔ ¬ ∃ e : Int, some (-1) = some e ∧ e ≠ 0 :=
  iff_of_false (by rw [h]; decide) (not_not.mpr ⟨-1, rfl, by decide⟩)

theorem reply_positive (reply : Text) {verdict : Option Int} (h : positive reply = true)
    (hv : verdict = some 0 ∨ verdict = none) :
    positive reply = true ↔ ¬ ∃ e, verdict = some e ∧ e ≠ 0 := by
  refine iff_of_true h ?_
  rintro ⟨e, he, hne⟩
  rcases hv with hv | hv
  · rw [hv] at he
    exact hne (Option.some.inj he).symm
  · rw [hv] at he
    cases he

/-- A command in its place is answered 2xx or 3xx exactly when its handler returns no error. -/
theorem command_reply {c : SmtpCommand} (h : ctx.route line = .run c)
    (hn : c = .data → ¬ HrRefuses m.mysql m.dbNow t.smtp ctx.clientHost) :
    positive (svr.runCommand m t line (ctx.received line) c).2.2.replyText = true ↔
      ¬ ∃ e, (svr.runCommand m t line (ctx.received line) c).1 = some e ∧ e ≠ 0 := by
  have helo : positive (onHelo line (ctx.received line)).2.replyText = true ↔
      ¬ ∃ e, some (onHelo line (ctx.received line)).1 = some e ∧ e ≠ 0 := by
    rcases onHelo_cases line (ctx.received line) with h | ⟨name, h⟩ <;> rw [h]
    · exact reply_negative smtpReply508 (by decide)
    · exact reply_positive smtpReply250 (by decide) (.inl rfl)
  cases c with
  | helo | ehlo => exact helo
  | mail =>
      show positive (onMail svr.isValidEmailAddress line (ctx.received line)).2.replyText = true ↔
        ¬ ∃ e, some (onMail svr.isValidEmailAddress line (ctx.received line)).1 = some e ∧ e ≠ 0
      rcases onMail_cases svr.isValidEmailAddress line (ctx.received line) with
        ⟨-, h⟩ | ⟨a, -, -, h⟩ | ⟨a, -, -, h⟩ <;> rw [h]
      · exact reply_negative smtpReply502 (by decide)
      · exact reply_negative smtpReply509 (by decide)
      · exact reply_positive smtpReply250 (by decide) (.inl rfl)
  | rcpt =>
      show positive (onRcpt svr.isValidEmailAddress line (ctx.received line)).2.replyText = true ↔
        ¬ ∃ e, some (onRcpt svr.isValidEmailAddress line (ctx.received line)).1 = some e ∧ e ≠ 0
      rcases onRcpt_cases svr.isValidEmailAddress line (ctx.received line) with
        ⟨-, h⟩ | ⟨a, -, -, h⟩ | ⟨a, -, -, h⟩ <;> rw [h]
      · exact reply_negative smtpReply502 (by decide)
      · exact reply_negative smtpReply509 (by decide)
      · exact reply_positive smtpReply250 (by decide) (.inl rfl)
  | data =>
      show positive (svr.onData m t (ctx.received line)).2.2.replyText = true ↔
        ¬ ∃ e, (svr.onData m t (ctx.received line)).1 = some e ∧ e ≠ 0
      rcases onData_verdict svr m t (ctx.received line) (hn rfl) with
        ⟨-, hv, hreply⟩ | ⟨-, hv, hreply⟩ <;> rw [hreply, hv]
      · exact reply_positive smtpReply354 (by decide) (.inr rfl)
      · exact reply_negative smtpReply600 (by decide)
  | auth => exact reply_positive smtpUsername (by decide) (.inl rfl)
  | quit => exact reply_positive smtpReply221 (by decide) (.inl rfl)
  | rset | noop => exact reply_positive smtpReply250 (by decide) (.inl rfl)
  | zero => exact absurd rfl (mem_of_route_run h).2.1
  | pswd => exact absurd (mem_of_route_run h).1.symm (parseType_ne_pswd line)

/-- The answer to a command in its place is set while it is handled. -/
theorem command_reply_own {c : SmtpCommand} (r : Text)
    (hn : c = .data → ¬ HrRefuses m.mysql m.dbNow t.smtp ctx.clientHost) :
    (svr.runCommand m t line (SmtpContext.received { ctx with replyText := r } line)
        c).2.2.replyText =
      (svr.runCommand m t line (ctx.received line) c).2.2.replyText := by
  cases c with
  | helo | ehlo =>
      show (onHelo line _).2.replyText = (onHelo line _).2.replyText
      unfold onHelo
      split <;> rfl
  | mail =>
      show (onMail _ line _).2.replyText = (onMail _ line _).2.replyText
      unfold onMail
      split
      · rfl
      · dsimp only
        split <;> rfl
  | rcpt =>
      show (onRcpt _ line _).2.replyText = (onRcpt _ line _).2.replyText
      unfold onRcpt
      split
      · rfl
      · dsimp only
        split <;> rfl
  | data =>
      show (svr.onData m t _).2.2.replyText = (svr.onData m t _).2.2.replyText
      have hcongr := setRealSender_congr svr.control m.now t.quotas
        (ctx.received line) (SmtpContext.received { ctx with replyText := r } line) rfl rfl
      rcases onData_verdict svr m t (ctx.received line) (hn rfl) with
        ⟨hs, -, h⟩ | ⟨hs, -, h⟩ <;>
      rcases onData_verdict svr m t (SmtpContext.received { ctx with replyText := r } line)
        (hn rfl) with ⟨hs', -, h'⟩ | ⟨hs', -, h'⟩
      · rw [h, h']
      · exact absurd (hcongr.trans hs) hs'
      · exact absurd (hcongr.symm.trans hs') hs
      · rw [h, h']
  | auth | rset | noop | quit | zero | pswd => rfl

variable (svr m t) in
/-- A DATA that the limits of the client refuse is answered with the text the session had. -/
theorem limited_reply (h : ctx.route line = .run .data)
    (hr : HrRefuses m.mysql m.dbNow t.smtp ctx.clientHost) :
    (svr.handleLine m t line ctx).sent = [ctx.replyText] ∧ svr.Refuses m t line ctx := by
  rw [handleLine_eq, SmtpSvr.Refuses, h]
  show [(svr.onData m t (ctx.received line)).2.2.replyText] = [ctx.replyText] ∧
    ∃ e, (svr.onData m t (ctx.received line)).1 = some e ∧ e ≠ 0
  rcases onData_cases svr m t (ctx.received line) with ⟨-, u, p, a, he⟩ | ⟨hn, -⟩
  · rw [he]
    exact ⟨rfl, -1, rfl, by decide⟩
  · exact absurd hr hn

/-- **Every answer is its own**, unless it is that to a DATA refused by the limits of the client. -/
theorem handleLine_answered_iff (hi : ctx.route line ≠ .input) (hg : ctx.route line ≠ .ignored) :
    Answered svr m t line ctx ↔ ¬ (ctx.route line = .run .data ∧
      HrRefuses m.mysql m.dbNow t.smtp ctx.clientHost) := by
  constructor
  · rintro ⟨⟨reply, hsent, hpos⟩, hown⟩ ⟨hroute, hr⟩
    obtain ⟨hs, href⟩ := limited_reply svr m t hroute hr
    have hroute' : SmtpContext.route { ctx with replyText := smtpReply250 } line = .run .data :=
      (route_replyText (by decide) hi).trans hroute
    have hs' := (limited_reply svr m t hroute' hr).1
    have h250 := hown smtpReply250 (by decide)
    rw [hs', hs, List.cons.injEq] at h250
    rw [hs, List.cons.injEq] at hsent
    have hp : positive smtpReply250 = true := by decide
    exact hpos.mp (by rw [← hsent.1, ← h250.1]; exact hp) href
  · intro hn
    have hdata : ∀ c, ctx.route line = .run c → c = .data →
        ¬ HrRefuses m.mysql m.dbNow t.smtp ctx.clientHost :=
      fun c hc e hr => hn ⟨e ▸ hc, hr⟩
    constructor
    · rw [handleLine_eq]
      unfold SmtpSvr.Refuses
      cases hroute : ctx.route line with
      | user => exact ⟨smtpPassword, rfl, iff_of_true (by decide) id⟩
      | password => exact ⟨smtpAuthMsg, rfl, iff_of_true (by decide) id⟩
      | unknown => exact ⟨smtpReply502, rfl, iff_of_false (by decide) (not_not.mpr trivial)⟩
      | misplaced => exact ⟨smtpReply503, rfl, iff_of_false (by decide) (not_not.mpr trivial)⟩
      | run c => exact ⟨_, rfl, command_reply hroute (hdata c hroute)⟩
      | input => exact absurd hroute hi
      | ignored => exact absurd hroute hg
    · intro r hr
      rw [handleLine_eq, handleLine_eq, route_replyText hr hi]
      cases hroute : ctx.route line with
      | run c => exact congrArg (fun reply => [reply]) (command_reply_own r (hdata c hroute))
      | input => exact absurd hroute hi
      | user | password | ignored | unknown | misplaced => rfl

end Answered

/-- A client that has sent its one message of the hour. -/
def busyRow : SmtpRow :=
  { hourlyRow with
    quarterTime := some 1000000000
    hourTime := some 1000000000
    dayTime := some 1000000000 }

/-- The client's second DATA of the hour is refused, and the client is told `250 OK`. -/
theorem data_limited_250 : ∃ d, Run (dialogueStep plainSvr) plainSession
    [feed busyRow "HELO h", feed busyRow "MAIL FROM:<a@b.c>", feed busyRow "RCPT TO:<d@e.f>"] d ∧
    (d.handle plainSvr (feed busyRow "DATA")).sent = [smtpReply250] ∧
    ¬ Answered plainSvr (feed busyRow "").moment (feed busyRow "").tables "DATA".toList d.ctx := by
  refine ⟨_, Run.foldl _ _ _, by decide, ?_⟩
  rintro ⟨⟨reply, hs, hp⟩, -⟩
  have hr := limited_reply plainSvr (feed busyRow "").moment (feed busyRow "").tables
    (show ([feed busyRow "HELO h", feed busyRow "MAIL FROM:<a@b.c>",
      feed busyRow "RCPT TO:<d@e.f>"].foldl (Dialogue.step plainSvr) plainSession).ctx.route
        "DATA".toList = .run .data by decide) ⟨rfl, rfl, busyRow, by decide, .hour, by decide⟩
  rw [hr.1, List.cons.injEq] at hs
  exact hp.mp (by rw [← hs.1]; decide) hr.2

/-- A DATA out of sequence has an answer of its own. -/
theorem data_misplaced_503 : Answered plainSvr (feed none "").moment (feed none "").tables
    "DATA".toList plainSession.ctx :=
  (handleLine_answered_iff (by decide) (by decide)).mpr fun h => absurd h.1 (by decide)

end Edm.Smtp
