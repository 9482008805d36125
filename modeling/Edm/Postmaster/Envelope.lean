import Edm.Support.Run
import Edm.Support.History
import Edm.Postmaster.Command
import Mathlib.Data.Nat.Bitwise

/-!
# Postmaster — Envelope

Which lines a connection takes for commands, for credentials and for a message, and what is known
of the envelope when DATA is answered 354.

`Effect` says once what a line can do.  The mask of the allowed commands is always that of one of
nine stages (`Stage`), and the last response tells the client which (`Polite`).  `RSET` opens
`MAIL` before any greeting, and a refused `MAIL` or `RCPT` has already replaced the address of the
accepted one; `data_valid_run` says that the envelope is valid in a run in which that does not
happen.
-/

namespace Edm.Postmaster
open Support

/-! ### What a line does -/

/-- What a line is read as. -/
inductive Reading where
  | user
  | pass
  | data
  | command
  deriving DecidableEq

def Context.reading (ctx : Context) : Reading :=
  if ctx.forword = fwAuth then .user
  else if ctx.forword = fwPass then .pass
  else if ctx.forword = fwData then .data
  else .command

theorem reading_command_iff {ctx : Context} : ctx.reading = .command ↔
    ctx.forword ≠ fwAuth ∧ ctx.forword ≠ fwPass ∧ ctx.forword ≠ fwData := by
  unfold Context.reading
  split
  next h => exact iff_of_false (by intro hr; cases hr) (fun hne => hne.1 h)
  next h =>
    split
    next h' => exact iff_of_false (by intro hr; cases hr) (fun hne => hne.2.1 h')
    next h' =>
      split
      next h'' => exact iff_of_false (by intro hr; cases hr) (fun hne => hne.2.2 h'')
      next h'' => exact iff_of_true rfl ⟨h, h', h''⟩

theorem reading_data_iff {ctx : Context} : ctx.reading = .data ↔ ctx.forword = fwData := by
  constructor
  · intro hr
    unfold Context.reading at hr
    split at hr
    · cases hr
    · split at hr
      · cases hr
      · split at hr
        next h => exact h
        next => cases hr
  · intro hf
    rw [Context.reading, hf]
    rfl

/-- The command on a line, and its argument. -/
def commandOf (line : Text) : Option (Nat × Text) := parseCommand (skipBlanks (trimLine line))

/-- A command is allowed. -/
def Context.Allows (ctx : Context) (fw : Nat) : Prop := ctx.forword &&& fw = fw

instance (ctx : Context) (fw : Nat) : Decidable (ctx.Allows fw) :=
  inferInstanceAs (Decidable (_ = _))

/-- What a command line does. -/
inductive Command (s : Storage) (now : Moment) (ctx : Context) (line : Text) : Context → Prop where
  | blank (hb : (skipBlanks (trimLine line)).length < 1) : Command s now ctx line ctx
  | refused (msg : Text) (hmsg : msg ∈ [esmtp501, esmtpH501, esmtp502, esmtp503]) :
      Command s now ctx line (ctx.respond msg)
  | helo {status : Nat} {ptr : Text} (hc : commandOf line = some (status, ptr))
      (hs : status = fwHelo ∨ status = fwEhlo) :
      Command s now ctx line ({ ctx with cmds.helo := ptr, forword := maskHelo }.respond esmtp250)
  | auth {ptr : Text} (hc : commandOf line = some (fwAuth, ptr)) (ha : ctx.Allows fwAuth) :
      Command s now ctx line ({ ctx with forword := fwAuth }.respond esmtpU334)
  | mail {ptr mail : Text} (hc : commandOf line = some (fwMail, ptr)) (ha : ctx.Allows fwMail)
      (hm : assigned "FROM".toList ptr = some mail) (hgood : checkMailbox (cstr mail) = true) :
      Command s now ctx line
        ({ ctx with cmds.mail := tolower mail, forword := maskMail }.respond esmtp250)
  | badMail {ptr mail : Text} (hc : commandOf line = some (fwMail, ptr)) (ha : ctx.Allows fwMail)
      (hm : mail = (assigned "FROM".toList ptr).getD ctx.cmds.mail)
      (hbad : ∀ m, assigned "FROM".toList ptr = some m → checkMailbox (cstr m) = false) :
      Command s now ctx line ({ ctx with cmds.mail := mail }.respond esmtpM501)
  | rcpt {ptr rcpt : Text} (hc : commandOf line = some (fwRcpt, ptr)) (ha : ctx.Allows fwRcpt)
      (hm : assigned "TO".toList ptr = some rcpt) (hgood : checkMailbox (cstr rcpt) = true) :
      Command s now ctx line
        ({ ctx with cmds.rcpt := tolower rcpt, forword := maskRcpt }.respond esmtp250)
  | badRcpt {ptr rcpt : Text} (hc : commandOf line = some (fwRcpt, ptr)) (ha : ctx.Allows fwRcpt)
      (hm : rcpt = (assigned "TO".toList ptr).getD ctx.cmds.rcpt)
      (hbad : ∀ m, assigned "TO".toList ptr = some m → checkMailbox (cstr m) = false) :
      Command s now ctx line ({ ctx with cmds.rcpt := rcpt }.respond esmtpR501)
  | data {ptr : Text} (hc : commandOf line = some (fwData, ptr)) (ha : ctx.Allows fwData) :
      Command s now ctx line (doData s now ctx)
  | rset {ptr : Text} (hc : commandOf line = some (fwRset, ptr)) :
      Command s now ctx line (doRset ctx)
  | noop {ptr : Text} (hc : commandOf line = some (fwNoop, ptr)) :
      Command s now ctx line (ctx.respond esmtp250)
  | quit {ptr : Text} (hc : commandOf line = some (fwQuit, ptr)) :
      Command s now ctx line ({ ctx with forword := fwExit }.respond esmtp221)

/-- What a line does. -/
inductive Effect (s : Storage) (now : Moment) (ctx : Context) (line : Text) : Context → Prop where
  | user (h : ctx.forword = fwAuth) :
      Effect s now ctx line
        ({ ctx with cmds.user := trimLine line, forword := fwPass }.respond esmtpP334)
  | pass (h : ctx.forword = fwPass) :
      Effect s now ctx line
        ({ ctx with cmds.pass := trimLine line, forword := maskHelo }.respond esmtp235)
  | text (h : ctx.forword = fwData) (follow : Follow) (fdev : Option Text) :
      Effect s now ctx line { ctx with follow := follow, fdev := fdev }
  | finish (h : ctx.forword = fwData) (stored : List (Text × Text)) :
      Effect s now ctx line
        ({ ctx with stored := stored, fdev := none, follow := .finish, forword :=
          maskEnd }.respond esmtp250)
  | command {ctx' : Context} (hr : ctx.reading = .command) (h : Command s now ctx line ctx') :
      Effect s now ctx line ctx'

/-- A keyword stands for one bit. -/
theorem asked_eq {k : Text × Nat} (hk : k ∈ keywords) (forword : Nat) :
    forword &&& k.2 = k.2 ∨ forword &&& k.2 = 0 := by
  have hpow : ∃ i, k.2 = 2 ^ i := by
    have hall : ∀ k ∈ keywords, ∃ i < 10, k.2 = 2 ^ i := by decide
    obtain ⟨i, -, hi⟩ := hall k hk
    exact ⟨i, hi⟩
  obtain ⟨i, hi⟩ := hpow
  rw [hi, Nat.and_two_pow]
  cases forword.testBit i with
  | true => exact .inl (Nat.one_mul _)
  | false => exact .inr (Nat.zero_mul _)

theorem mem_of_parseCommand {p ptr : Text} {status : Nat}
    (h : parseCommand p = some (status, ptr)) :
    ∃ k ∈ keywords, k.2 = status := by
  unfold parseCommand at h
  split at h
  next => cases h
  next k hk =>
    obtain ⟨h, -⟩ := Prod.mk.inj (Option.some.inj (Option.ite_none_right_eq_some.mp h).2)
    exact ⟨_, List.mem_of_find?_eq_some hk, h⟩

section
variable {s : Storage} {now : Moment} {ctx : Context} {line ptr : Text}

theorem command_helo {status : Nat} (hc : commandOf line = some (status, ptr))
    (hs : status = fwHelo ∨ status = fwEhlo) : Command s now ctx line (doHelo ptr ctx) := by
  unfold doHelo
  split
  · exact .refused _ (by simp)
  · exact .helo hc hs

theorem command_auth (hc : commandOf line = some (fwAuth, ptr)) (ha : ctx.Allows fwAuth) :
    Command s now ctx line (doAuth ptr ctx) := by
  unfold doAuth
  split
  · exact .refused _ (by simp)
  · split
    · exact .refused _ (by simp)
    · exact .auth hc ha

/-- What `where_mailbox` judges is what it has assigned. -/
theorem whereMailbox_cases (keyword ptr mailbox : Text) :
    (∃ m, assigned keyword ptr = some m ∧ checkMailbox (cstr m) = true ∧
      whereMailbox keyword ptr mailbox = (true, m)) ∨
    (∀ m, assigned keyword ptr = some m → checkMailbox (cstr m) = false) ∧
      whereMailbox keyword ptr mailbox = (false, (assigned keyword ptr).getD mailbox) := by
  unfold whereMailbox
  cases hm : assigned keyword ptr with
  | none => exact .inr ⟨fun m h => absurd h.symm (Option.some_ne_none m), rfl⟩
  | some m =>
    dsimp only
    cases hgood : checkMailbox (cstr m) with
    | false => exact .inr ⟨fun m' h => Option.some.inj h ▸ hgood, rfl⟩
    | true => exact .inl ⟨m, rfl, hgood, rfl⟩

theorem command_mail (hc : commandOf line = some (fwMail, ptr)) (ha : ctx.Allows fwMail) :
    Command s now ctx line (doMail ptr ctx) := by
  unfold doMail
  rcases whereMailbox_cases "FROM".toList ptr ctx.cmds.mail with ⟨m, hm, hgood, h⟩ | ⟨hbad, h⟩
  · rw [h]
    exact .mail hc ha hm hgood
  · rw [h]
    exact .badMail hc ha rfl hbad

theorem command_rcpt (hc : commandOf line = some (fwRcpt, ptr)) (ha : ctx.Allows fwRcpt) :
    Command s now ctx line (doRcpt ptr ctx) := by
  unfold doRcpt
  rcases whereMailbox_cases "TO".toList ptr ctx.cmds.rcpt with ⟨m, hm, hgood, h⟩ | ⟨hbad, h⟩
  · rw [h]
    exact .rcpt hc ha hm hgood
  · rw [h]
    exact .badRcpt hc ha rfl hbad

/-- An allowed command is done, and another one is refused. -/
theorem command_do {status : Nat} (hc : commandOf line = some (status, ptr)) :
    Command s now ctx line (doCommand s now (ctx.forword &&& status) ptr ctx) := by
  obtain ⟨k, hk, hstatus⟩ := mem_of_parseCommand hc
  rcases asked_eq hk ctx.forword with ha | ha
  · rw [← hstatus] at hc
    rw [← hstatus, ha]
    change ctx.Allows k.2 at ha
    clear hstatus
    simp only [keywords, List.mem_cons, List.not_mem_nil, or_false] at hk
    rcases hk with rfl | rfl | rfl | rfl | rfl | rfl | rfl | rfl | rfl
    · exact command_helo hc (.inl rfl)
    · exact command_helo hc (.inr rfl)
    · exact command_auth hc ha
    · exact command_mail hc ha
    · exact command_rcpt hc ha
    · exact .data hc ha
    · exact .rset hc
    · exact .noop hc
    · exact .quit hc
  · rw [← hstatus, ha]
    exact .refused esmtp503 (by simp)

theorem command_of_reading (hr : ctx.reading = .command) :
    Command s now ctx line (handlerRequestCommand s now ctx (trimLine line)) := by
  obtain ⟨hauth, hpass, -⟩ := reading_command_iff.mp hr
  rw [handlerRequestCommand, if_neg hauth, if_neg hpass]
  split
  next hb => exact .blank hb
  next =>
    split
    · exact .refused _ (by simp)
    · cases hc : parseCommand (skipBlanks (trimLine line)) with
      | none => exact .refused _ (by simp)
      | some c => exact command_do hc

/-- What `epoll_input` does with a line is an effect. -/
theorem effect_of_handleLine {ctx' : Context} (h : handleLine s now ctx line = some ctx') :
    ctx.forword ≠ fwExit ∧ Effect s now ctx line ctx' := by
  unfold handleLine at h
  split at h
  · cases h
  next hexit =>
    refine ⟨hexit, ?_⟩
    split at h
    next hdata =>
      obtain rfl := Option.some.inj h
      unfold handlerRequestData
      split
      · exact .finish hdata _
      · exact .text hdata _ _
    next hdata =>
      obtain rfl := Option.some.inj h
      by_cases hauth : ctx.forword = fwAuth
      · rw [handlerRequestCommand, if_pos hauth]
        exact .user hauth
      · by_cases hpass : ctx.forword = fwPass
        · rw [handlerRequestCommand, if_neg hauth, if_pos hpass]
          exact .pass hpass
        · have hr : ctx.reading = .command := reading_command_iff.mpr ⟨hauth, hpass, hdata⟩
          exact .command hr (command_of_reading hr)

end

/-! ### Sessions -/

/-- A line, what it was read as, and the response to it (empty: none). -/
structure Exchange where
  reading : Reading
  line : Text
  reply : Text

/-- A connection, and what was said on it. -/
structure Session where
  ctx : Context
  log : List Exchange

namespace Session

def accepted (address : BitVec 32) : Session := ⟨.accepted address, []⟩

/-- A line is handled after the response before it was sent. -/
def step (s : Storage) (x : Session) (i : Moment × Text) : Option Session :=
  (handleLine s i.1 { x.ctx with wtbuf := [] } i.2).map fun ctx =>
    ⟨ctx, x.log ++ [⟨x.ctx.reading, i.2, ctx.wtbuf⟩]⟩

/-- The last thing the client was told. -/
def told (x : Session) : Text :=
  ((x.log.map Exchange.reply).filter fun r => !r.isEmpty).getLastD esmtp220

end Session

namespace Exchange
variable (e : Exchange)

/-- The line is this command, and it was answered 250. -/
def Does (status : Nat) (ptr : Text) : Prop :=
  e.reading = .command ∧ e.reply = esmtp250 ∧ commandOf e.line = some (status, ptr)

/-- HELO or EHLO was accepted. -/
def Greets : Prop := ∃ ptr, e.Does fwHelo ptr ∨ e.Does fwEhlo ptr

/-- MAIL was accepted with this address. -/
def TakesMail (address : Text) : Prop :=
  ∃ ptr m, e.Does fwMail ptr ∧ assigned "FROM".toList ptr = some m ∧ address = tolower m

/-- RCPT was accepted with this address. -/
def TakesRcpt (address : Text) : Prop :=
  ∃ ptr m, e.Does fwRcpt ptr ∧ assigned "TO".toList ptr = some m ∧ address = tolower m

/-- A message was completed, or RSET was accepted. -/
def Ends : Prop := e.reply = esmtp250 ∧ (e.reading = .data ∨ ∃ ptr, e.Does fwRset ptr)

variable {e}

theorem not_ends_of_reply (h : e.reply ≠ esmtp250) : ¬ e.Ends := fun h' => h h'.1

theorem not_ends_of_does {status : Nat} {ptr : Text} (h : e.Does status ptr)
    (hs : status ≠ fwRset) :
    ¬ e.Ends := by
  rintro ⟨-, hdata | ⟨ptr', -, -, hrset⟩⟩
  · rw [h.1] at hdata
    cases hdata
  · rw [h.2.2] at hrset
    exact hs (Prod.mk.inj (Option.some.inj hrset)).1

end Exchange

theorem told_concat (ctx : Context) (log : List Exchange) (e : Exchange) :
    (Session.mk ctx (log ++ [e])).told
      = if e.reply.isEmpty then (Session.mk ctx log).told else e.reply := by
  rw [Session.told, Session.told, List.map_append, List.filter_append, List.map_singleton,
    List.filter_singleton]
  cases e.reply.isEmpty with
  | true => exact congrArg (List.getLastD · esmtp220) (List.append_nil _)
  | false => exact List.getLastD_concat

/-- What a step does. -/
theorem step_cases {s : Storage} {x x' : Session} {i : Moment × Text} (h : x.step s i = some x') :
    x.ctx.forword ≠ fwExit ∧ Effect s i.1 { x.ctx with wtbuf := [] } i.2 x'.ctx ∧
      x'.log = x.log ++ [⟨x.ctx.reading, i.2, x'.ctx.wtbuf⟩] := by
  obtain ⟨ctx', hline, rfl⟩ := Option.map_eq_some_iff.mp h
  obtain ⟨hexit, heffect⟩ := effect_of_handleLine hline
  exact ⟨hexit, heffect, rfl⟩

/-! ### The nine masks -/

/-- How far a connection is. -/
inductive Stage where
  | new
  | greeted
  | user
  | pass
  | mailed
  | rcpted
  | data
  | ended
  | quit
  deriving DecidableEq

namespace Stage

/-- What is allowed at a stage. -/
def mask : Stage → Nat
  | new => maskNew
  | greeted => maskHelo
  | user => fwAuth
  | pass => fwPass
  | mailed => maskMail
  | rcpted => maskRcpt
  | data => fwData
  | ended => maskEnd
  | quit => fwExit

theorem mask_inj {a b : Stage} : a.mask = b.mask → a = b := by
  cases a <;> cases b <;> decide

theorem of_allows_auth {st : Stage} : st.mask &&& fwAuth = fwAuth → st = greeted ∨ st = user := by
  cases st <;> decide

theorem of_allows_mail {st : Stage} :
    st.mask &&& fwMail = fwMail → st = greeted ∨ st = mailed ∨ st = rcpted ∨ st = ended := by
  cases st <;> decide

theorem of_allows_rcpt {st : Stage} : st.mask &&& fwRcpt = fwRcpt → st = mailed ∨ st = rcpted := by
  cases st <;> decide

theorem of_allows_data {st : Stage} : st.mask &&& fwData = fwData → st = rcpted ∨ st = data := by
  cases st <;> decide

end Stage

/-! ### Credentials -/

/-- The client knows from the last response what its next line is read as. -/
structure Polite (x : Session) : Prop where
  stage : ∃ st : Stage, x.ctx.forword = st.mask
  user : x.told = esmtpU334 ↔ x.ctx.forword = fwAuth
  pass : x.told = esmtpP334 ↔ x.ctx.forword = fwPass
  data : x.told = esmtp354 ↔ x.ctx.forword = fwData

/-- A response fits the mask that it leaves. -/
def Fits (reply : Text) (forword : Nat) : Prop :=
  reply.isEmpty = false ∧ (reply = esmtpU334 ↔ forword = fwAuth) ∧
    (reply = esmtpP334 ↔ forword = fwPass) ∧ (reply = esmtp354 ↔ forword = fwData)

instance (reply : Text) (forword : Nat) : Decidable (Fits reply forword) :=
  inferInstanceAs (Decidable (_ ∧ _ ∧ _ ∧ _))

theorem polite_accepted (address : BitVec 32) : Polite (.accepted address) where
  stage := ⟨.new, rfl⟩
  user := show esmtp220 = esmtpU334 ↔ maskNew = fwAuth by decide
  pass := show esmtp220 = esmtpP334 ↔ maskNew = fwPass by decide
  data := show esmtp220 = esmtp354 ↔ maskNew = fwData by decide

theorem Polite.told {x x' : Session} {e : Exchange} (hlog : x'.log = x.log ++ [e])
    (hst : ∃ st : Stage, x'.ctx.forword = st.mask) (hfits : Fits e.reply x'.ctx.forword)
      : Polite x' := by
  have htold : x'.told = e.reply := by
    obtain ⟨ctx', log'⟩ := x'
    obtain rfl : log' = x.log ++ [e] := hlog
    rw [told_concat, hfits.1]
    rfl
  obtain ⟨-, hu, hp, hd⟩ := hfits
  rw [← htold] at hu hp hd
  exact ⟨hst, hu, hp, hd⟩

theorem Polite.silent {x x' : Session} {e : Exchange} (h : Polite x) (hlog : x'.log = x.log ++ [e])
    (hreply : e.reply = []) (hsame : x'.ctx.forword = x.ctx.forword) : Polite x' := by
  have htold : x'.told = x.told := by
    obtain ⟨ctx', log'⟩ := x'
    obtain rfl : log' = x.log ++ [e] := hlog
    rw [told_concat, hreply]
    rfl
  obtain ⟨hst, hu, hp, hd⟩ := h
  rw [← htold] at hu hp hd
  rw [← hsame] at hst hu hp hd
  exact ⟨hst, hu, hp, hd⟩

/-- A response to a command that leaves the mask as it is. -/
theorem fits_of_reading {ctx : Context} (hr : ctx.reading = .command) {msg : Text}
    (hmsg : msg ∈ [esmtp501, esmtpH501, esmtp502, esmtp503, esmtpM501, esmtpR501, esmtp250]) :
    Fits msg ctx.forword := by
  obtain ⟨hauth, hpass, hdata⟩ := reading_command_iff.mp hr
  have hall : ∀ msg ∈ [esmtp501, esmtpH501, esmtp502, esmtp503, esmtpM501, esmtpR501, esmtp250],
      msg.isEmpty = false ∧ msg ≠ esmtpU334 ∧ msg ≠ esmtpP334 ∧ msg ≠ esmtp354 := by decide
  obtain ⟨hne, hu, hp, hd⟩ := hall msg hmsg
  exact ⟨hne, iff_of_false hu hauth, iff_of_false hp hpass, iff_of_false hd hdata⟩

theorem Polite.step {s : Storage} {x x' : Session} {i : Moment × Text} (h : Polite x)
    (hstep : x.step s i = some x') : Polite x' := by
  obtain ⟨-, heffect, hlog⟩ := step_cases hstep
  obtain ⟨ctx', log'⟩ := x'
  dsimp only at heffect hlog
  cases heffect with
  | user => exact .told hlog ⟨.pass, rfl⟩ (show Fits esmtpP334 fwPass by decide)
  | pass => exact .told hlog ⟨.greeted, rfl⟩ (show Fits esmtp235 maskHelo by decide)
  | text => exact h.silent hlog rfl rfl
  | finish => exact .told hlog ⟨.ended, rfl⟩ (show Fits esmtp250 maskEnd by decide)
  | command hr hc =>
    have hkeep : ∀ msg ∈ [esmtp501, esmtpH501, esmtp502, esmtp503, esmtpM501, esmtpR501, esmtp250],
        Fits msg x.ctx.forword := fun msg hmsg => fits_of_reading hr hmsg
    cases hc with
    | blank => exact h.silent hlog rfl rfl
    | refused msg hmsg => exact .told hlog h.stage (hkeep msg (by
        have hsub : [esmtp501, esmtpH501, esmtp502, esmtp503] ⊆
          [esmtp501, esmtpH501, esmtp502, esmtp503, esmtpM501, esmtpR501, esmtp250] := by simp
        exact hsub hmsg))
    | helo => exact .told hlog ⟨.greeted, rfl⟩ (show Fits esmtp250 maskHelo by decide)
    | auth => exact .told hlog ⟨.user, rfl⟩ (show Fits esmtpU334 fwAuth by decide)
    | mail => exact .told hlog ⟨.mailed, rfl⟩ (show Fits esmtp250 maskMail by decide)
    | badMail => exact .told hlog h.stage (hkeep esmtpM501 (by simp))
    | rcpt => exact .told hlog ⟨.rcpted, rfl⟩ (show Fits esmtp250 maskRcpt by decide)
    | badRcpt => exact .told hlog h.stage (hkeep esmtpR501 (by simp))
    | data => exact .told hlog ⟨.data, rfl⟩ (show Fits esmtp354 fwData by decide)
    | rset => exact .told hlog ⟨.greeted, rfl⟩ (show Fits esmtp250 maskHelo by decide)
    | noop => exact .told hlog h.stage (hkeep esmtp250 (by simp))
    | quit => exact .told hlog ⟨.quit, rfl⟩ (show Fits esmtp221 fwExit by decide)

/-- A line is read as credentials exactly where the response before asked for them: then it is kept,
whatever it says, and a line read as a command keeps the credentials or clears them. -/
structure Separate (x : Session) (line : Text) (x' : Session) : Prop where
  user : x.told = esmtpU334 → x'.ctx =
    { x.ctx with cmds.user := trimLine line, forword := fwPass, wtbuf := esmtpP334 }
  pass : x.told = esmtpP334 → x'.ctx =
    { x.ctx with cmds.pass := trimLine line, forword := maskHelo, wtbuf := esmtp235 }
  command : x.told ≠ esmtpU334 → x.told ≠ esmtpP334 →
    (x'.ctx.cmds.user = x.ctx.cmds.user ∧ x'.ctx.cmds.pass = x.ctx.cmds.pass) ∨
      (x'.ctx.cmds.user = [] ∧ x'.ctx.cmds.pass = [])

theorem Polite.separate {s : Storage} {x x' : Session} {i : Moment × Text} (h : Polite x)
    (hstep : x.step s i = some x') : Separate x i.2 x' := by
  obtain ⟨-, heffect, -⟩ := step_cases hstep
  obtain ⟨ctx', log'⟩ := x'
  dsimp only at heffect
  -- Whatever the line is read as, the mask says what the client was told.
  have huser : x.ctx.forword ≠ fwAuth → x.told ≠ esmtpU334 := fun hne ht => hne (h.user.mp ht)
  have hpass : x.ctx.forword ≠ fwPass → x.told ≠ esmtpP334 := fun hne ht => hne (h.pass.mp ht)
  cases heffect with
  | user hf =>
    have hf : x.ctx.forword = fwAuth := hf
    have hp : x.ctx.forword ≠ fwPass := by
      rw [hf]
      decide
    exact ⟨fun _ => rfl, fun ht => absurd ht (hpass hp), fun hu _ => absurd (h.user.mpr hf) hu⟩
  | pass hf =>
    have hf : x.ctx.forword = fwPass := hf
    have hu : x.ctx.forword ≠ fwAuth := by
      rw [hf]
      decide
    exact ⟨fun ht => absurd ht (huser hu), fun _ => rfl, fun _ hp => absurd (h.pass.mpr hf) hp⟩
  | text hf | finish hf =>
    have hf : x.ctx.forword = fwData := hf
    have hu : x.ctx.forword ≠ fwAuth := by
      rw [hf]
      decide
    have hp : x.ctx.forword ≠ fwPass := by
      rw [hf]
      decide
    exact ⟨fun ht => absurd ht (huser hu), fun ht => absurd ht (hpass hp), fun _ _ =>
      .inl ⟨rfl, rfl⟩⟩
  | command hr hc =>
    obtain ⟨hu, hp, -⟩ := reading_command_iff.mp hr
    refine ⟨fun ht => absurd ht (huser hu), fun ht => absurd ht (hpass hp), fun _ _ => ?_⟩
    cases hc with
    | data =>
      obtain ⟨emlpath, fdev, heq, -⟩ := startStorage_eq s i.1 { x.ctx with wtbuf := [] }
      refine .inl ?_
      dsimp only
      rw [doData, heq]
      exact ⟨rfl, rfl⟩
    | rset => exact .inr ⟨rfl, rfl⟩
    | _ => exact .inl ⟨rfl, rfl⟩

/-! ### The envelope -/

def Greeted (log : List Exchange) : Prop := ∃ e ∈ log, e.Greets

/-- MAIL was accepted, and no message was completed and RSET not accepted since. -/
def Mailed (log : List Exchange) (mail : Text) : Prop :=
  Since Exchange.Ends (fun _ e => e.TakesMail mail) log

/-- RCPT was accepted behind MAIL. -/
def Rcpted (log : List Exchange) (mail rcpt : Text) : Prop :=
  Since Exchange.Ends (fun before e => e.TakesRcpt rcpt ∧ Mailed before mail) log

/-- The envelope is valid. -/
structure Valid (x : Session) : Prop where
  greeted : Greeted x.log
  mail : checkMailbox (cstr x.ctx.cmds.mail) = true
  rcpt : checkMailbox (cstr x.ctx.cmds.rcpt) = true
  order : Rcpted x.log x.ctx.cmds.mail x.ctx.cmds.rcpt

/-- What is known at a stage. -/
def Stage.Known (x : Session) : Stage → Prop
  | new | quit => True
  | mailed => Greeted x.log ∧ Mailed x.log x.ctx.cmds.mail ∧
      checkMailbox (cstr x.ctx.cmds.mail) = true
  | rcpted => Mailed x.log x.ctx.cmds.mail ∧ Valid x
  | _ => Greeted x.log

/-- The invariant of a calm run. -/
def Envelope (x : Session) : Prop := ∃ st : Stage, x.ctx.forword = st.mask ∧ st.Known x

theorem Greeted.concat {log : List Exchange} (h : Greeted log) (e : Exchange) :
    Greeted (log ++ [e]) := by
  obtain ⟨d, hd, hg⟩ := h
  exact ⟨d, List.mem_append_left _ hd, hg⟩

/-- Nothing is forgotten while the addresses stay and nothing ends. -/
theorem Stage.Known.keep {x x' : Session} {st : Stage} {e : Exchange} (h : st.Known x)
    (hlog : x'.log = x.log ++ [e]) (hmail : x'.ctx.cmds.mail = x.ctx.cmds.mail)
    (hrcpt : st = rcpted → x'.ctx.cmds.rcpt = x.ctx.cmds.rcpt) (he : ¬ e.Ends) : st.Known x' := by
  cases st with
  | new | quit => trivial
  | greeted | user | pass | data | ended =>
    change Greeted x'.log
    rw [hlog]
    exact Greeted.concat h e
  | mailed =>
    obtain ⟨hg, hm, hgood⟩ := h
    refine ⟨?_, ?_, ?_⟩
    · rw [hlog]
      exact hg.concat e
    · rw [hlog, hmail]
      exact Since.concat hm he
    · rw [hmail]
      exact hgood
  | rcpted =>
    obtain ⟨hm, hg, hgood, hgood', ho⟩ := h
    have hrcpt := hrcpt rfl
    refine ⟨?_, ?_, ?_, ?_, ?_⟩
    · rw [hlog, hmail]
      exact Since.concat hm he
    · rw [hlog]
      exact hg.concat e
    · rw [hmail]
      exact hgood
    · rw [hrcpt]
      exact hgood'
    · rw [hlog, hmail, hrcpt]
      exact Since.concat ho he

/-- What is known at a stage includes the greeting. -/
theorem Stage.Known.greeted {x : Session} {st : Stage} (h : st.Known x) (hnew : st ≠ new)
    (hquit : st ≠ quit) : Greeted x.log := by
  cases st with
  | new => exact absurd rfl hnew
  | quit => exact absurd rfl hquit
  | mailed => exact h.1
  | rcpted => exact h.2.greeted
  | greeted | user | pass | data | ended => exact h

/-- No RSET before a greeting, and no address refused in the place of an accepted one. -/
def Calm (x : Session) (i : Moment × Text) : Prop :=
  ∀ c ∈ commandOf i.2, x.ctx.reading = .command →
    (c.1 = fwRset → x.ctx.forword ≠ maskNew) ∧
    (c.1 = fwMail → x.ctx.Allows fwMail → x.ctx.Allows fwRcpt →
      ∀ m ∈ assigned "FROM".toList c.2, checkMailbox (cstr m) = true) ∧
    (c.1 = fwRcpt → x.ctx.Allows fwRcpt → x.ctx.Allows fwData →
      ∀ m ∈ assigned "TO".toList c.2, checkMailbox (cstr m) = true)

instance (x : Session) (i : Moment × Text) : Decidable (Calm x i) := by
  delta Calm
  exact @Option.decidableForallMem _ _
    (fun _ => @forall_prop_decidable _ _ _ fun _ => instDecidableAnd) _

theorem checkMailbox_small {m : Text} (h : checkMailbox (cstr m) = true) :
    checkMailbox (cstr (tolower m)) = true := by
  rw [cstr_tolower, checkMailbox_tolower]
  exact h

theorem envelope_accepted (address : BitVec 32) :
    Envelope (.accepted address) := ⟨.new, rfl, trivial⟩

theorem Envelope.command {s : Storage} {x x' : Session} {i : Moment × Text} (hx : Envelope x)
    (hcalm : Calm x i) (hexit : x.ctx.forword ≠ fwExit) (hr : x.ctx.reading = .command)
    (hc : Command s i.1 { x.ctx with wtbuf := [] } i.2 x'.ctx)
    (hlog : x'.log = x.log ++ [⟨x.ctx.reading, i.2, x'.ctx.wtbuf⟩]) : Envelope x' := by
  obtain ⟨st, hst, hknown⟩ := hx
  have hquit : st ≠ .quit := by
    rintro rfl
    exact hexit hst
  have hdata : st ≠ .data := by
    rintro rfl
    rw [Context.reading, hst] at hr
    cases hr
  have huser : st ≠ .user := by
    rintro rfl
    rw [Context.reading, hst] at hr
    cases hr
  have hallows : ∀ {fw}, x.ctx.Allows fw → st.mask &&& fw = fw := fun h => hst ▸ h
  obtain ⟨ctx', log'⟩ := x'
  dsimp only at hc hlog
  subst hlog
  cases hc with
  | blank => exact ⟨st, hst, hknown.keep rfl rfl (fun _ => rfl) (Exchange.not_ends_of_reply
      (show ([] : Text) ≠ esmtp250 by decide))⟩
  | refused msg hmsg =>
    have hall : ∀ msg ∈ [esmtp501, esmtpH501, esmtp502, esmtp503], msg ≠ esmtp250 := by decide
    exact ⟨st, hst, hknown.keep rfl rfl (fun _ => rfl) (Exchange.not_ends_of_reply (hall msg hmsg))⟩
  | helo hc hs =>
    have hgreets : Exchange.Greets ⟨x.ctx.reading, i.2, esmtp250⟩ := by
      rcases hs with rfl | rfl
      · exact ⟨_, .inl ⟨hr, rfl, hc⟩⟩
      · exact ⟨_, .inr ⟨hr, rfl, hc⟩⟩
    exact ⟨.greeted, rfl, _, List.mem_append_right _ List.mem_cons_self, hgreets⟩
  | auth hc ha =>
    rcases Stage.of_allows_auth (hallows ha) with rfl | rfl
    · exact ⟨.user, rfl, Greeted.concat hknown _⟩
    · exact absurd rfl huser
  | mail hc ha hm hgood =>
    have hnew : st ≠ .new := by
      rintro rfl
      exact absurd (hallows ha) (by decide)
    refine ⟨.mailed, rfl, (hknown.greeted hnew hquit).concat _,
      .now ⟨_, _, ⟨hr, rfl, hc⟩, hm, rfl⟩, checkMailbox_small hgood⟩
  | @badMail ptr mail hc ha hm hbad =>
    have hend : ¬ Exchange.Ends ⟨x.ctx.reading, i.2, esmtpM501⟩ :=
      Exchange.not_ends_of_reply (show esmtpM501 ≠ esmtp250 by decide)
    by_cases hrcpt : x.ctx.Allows fwRcpt
    · -- The accepted address is still in use: it was not replaced.
      have hnone : assigned "FROM".toList ptr = none := by
        refine Option.eq_none_iff_forall_ne_some.mpr fun m h => ?_
        exact Bool.noConfusion ((hbad m h).symm.trans ((hcalm _ hc hr).2.1 rfl ha hrcpt m h))
      rw [hnone] at hm
      exact ⟨st, hst, hknown.keep rfl hm (fun _ => rfl) hend⟩
    · -- At these stages only the greeting is known.
      rcases Stage.of_allows_mail (hallows ha) with rfl | rfl | rfl | rfl
      · exact ⟨.greeted, hst, Greeted.concat hknown _⟩
      · exact absurd (show _ &&& _ = _ by rw [hst]; rfl) hrcpt
      · exact absurd (show _ &&& _ = _ by rw [hst]; rfl) hrcpt
      · exact ⟨.ended, hst, Greeted.concat hknown _⟩
  | rcpt hc ha hm hgood =>
    have htakes : Exchange.TakesRcpt ⟨x.ctx.reading, i.2, esmtp250⟩ _ :=
      ⟨_, _, ⟨hr, rfl, hc⟩, hm, rfl⟩
    have hend : ¬ Exchange.Ends ⟨x.ctx.reading, i.2, esmtp250⟩ :=
      Exchange.not_ends_of_does ⟨hr, rfl, hc⟩ (by decide)
    have hmailed : Greeted x.log ∧ Mailed x.log x.ctx.cmds.mail ∧
        checkMailbox (cstr x.ctx.cmds.mail) = true := by
      rcases Stage.of_allows_rcpt (hallows ha) with rfl | rfl
      · exact hknown
      · exact ⟨hknown.2.greeted, hknown.1, hknown.2.mail⟩
    obtain ⟨hg, hmail, hgoodmail⟩ := hmailed
    exact ⟨.rcpted, rfl, Since.concat hmail hend, hg.concat _, hgoodmail, checkMailbox_small hgood,
      .now ⟨htakes, hmail⟩⟩
  | @badRcpt ptr rcpt hc ha hm hbad =>
    have hend : ¬ Exchange.Ends ⟨x.ctx.reading, i.2, esmtpR501⟩ :=
      Exchange.not_ends_of_reply (show esmtpR501 ≠ esmtp250 by decide)
    refine ⟨st, hst, hknown.keep rfl rfl ?_ hend⟩
    rintro rfl
    have hdata : x.ctx.Allows fwData := by
      rw [Context.Allows, hst]
      rfl
    have hnone : assigned "TO".toList ptr = none := by
      refine Option.eq_none_iff_forall_ne_some.mpr fun m h => ?_
      exact Bool.noConfusion ((hbad m h).symm.trans ((hcalm _ hc hr).2.2 rfl ha hdata m h))
    rw [hnone] at hm
    exact hm
  | data hc ha =>
    have hnew : st ≠ .new := by
      rintro rfl
      exact absurd (hallows ha) (by decide)
    exact ⟨.data, rfl, (hknown.greeted hnew hquit).concat _⟩
  | rset hc =>
    have hnew : st ≠ .new := by
      rintro rfl
      exact (hcalm _ hc hr).1 rfl hst
    exact ⟨.greeted, rfl, (hknown.greeted hnew hquit).concat _⟩
  | noop hc =>
    exact ⟨st, hst, hknown.keep rfl rfl (fun _ => rfl)
      (Exchange.not_ends_of_does ⟨hr, rfl, hc⟩ (by decide))⟩
  | quit hc => exact ⟨.quit, rfl, trivial⟩

theorem Envelope.step {s : Storage} {x x' : Session} {i : Moment × Text} (hx : Envelope x)
    (hcalm : Calm x i) (hstep : x.step s i = some x') : Envelope x' := by
  obtain ⟨hexit, heffect, hlog⟩ := step_cases hstep
  obtain ⟨st, hst, hknown⟩ := hx
  obtain ⟨ctx', log'⟩ := x'
  dsimp only at heffect hlog
  subst hlog
  cases heffect with
  | user h =>
    obtain rfl := Stage.mask_inj (a := st) (b := .user) (hst.symm.trans h)
    exact ⟨.pass, rfl, Greeted.concat hknown _⟩
  | pass h =>
    obtain rfl := Stage.mask_inj (a := st) (b := .pass) (hst.symm.trans h)
    exact ⟨.greeted, rfl, Greeted.concat hknown _⟩
  | text h =>
    obtain rfl := Stage.mask_inj (a := st) (b := .data) (hst.symm.trans h)
    exact ⟨.data, hst, Greeted.concat hknown _⟩
  | finish h =>
    obtain rfl := Stage.mask_inj (a := st) (b := .data) (hst.symm.trans h)
    exact ⟨.ended, rfl, Greeted.concat hknown _⟩
  | command hr hc => exact Envelope.command ⟨st, hst, hknown⟩ hcalm hexit hr hc rfl

/-- DATA is answered 354 where the envelope is valid. -/
theorem Envelope.valid {s : Storage} {x x' : Session} {i : Moment × Text} (hx : Envelope x)
    (hstep : x.step s i = some x') (hreply : x'.ctx.wtbuf = esmtp354) : Valid x := by
  obtain ⟨-, heffect, -⟩ := step_cases hstep
  obtain ⟨st, hst, hknown⟩ := hx
  have hdata : x.ctx.reading = .command ∧ x.ctx.Allows fwData := by
    obtain ⟨ctx', log'⟩ := x'
    dsimp only at heffect hreply
    have hne : ∀ msg ∈ [[], esmtp221, esmtp235, esmtp250, esmtpU334, esmtpP334, esmtp501, esmtpH501,
        esmtpM501, esmtpR501, esmtp502, esmtp503], msg ≠ esmtp354 := by decide
    cases heffect with
    | user => exact absurd hreply (hne esmtpP334 (by simp))
    | pass => exact absurd hreply (hne esmtp235 (by simp))
    | text => exact absurd hreply (hne [] (by simp))
    | finish => exact absurd hreply (hne esmtp250 (by simp))
    | command hr hc =>
      refine ⟨hr, ?_⟩
      cases hc with
      | blank => exact absurd hreply (hne [] (by simp))
      | refused msg hmsg =>
        have hsub : [esmtp501, esmtpH501, esmtp502, esmtp503] ⊆
          [[], esmtp221, esmtp235, esmtp250, esmtpU334, esmtpP334, esmtp501, esmtpH501, esmtpM501,
            esmtpR501, esmtp502, esmtp503] := by simp
        exact absurd hreply (hne msg (hsub hmsg))
      | helo | mail | rcpt | rset | noop => exact absurd hreply (hne esmtp250 (by simp))
      | auth => exact absurd hreply (hne esmtpU334 (by simp))
      | badMail => exact absurd hreply (hne esmtpM501 (by simp))
      | badRcpt => exact absurd hreply (hne esmtpR501 (by simp))
      | data hc ha => exact ha
      | quit => exact absurd hreply (hne esmtp221 (by simp))
  have hallows : st.mask &&& fwData = fwData := hst ▸ hdata.2
  rcases Stage.of_allows_data hallows with rfl | rfl
  · exact hknown.2
  · have hr := hdata.1
    rw [Context.reading, hst] at hr
    cases hr

/-- The steps of a session. -/
def Lines (s : Storage) (x : Session) (i : Moment × Text) (x' : Session) : Prop :=
    x.step s i = some x'

/-- **Credentials are never commands, and the envelope is valid when DATA is answered 354**: the
first in every run, the second in every run in which no RSET comes before a greeting and no MAIL
or RCPT is refused after it has replaced an accepted address. -/
theorem data_valid_run {s : Storage} {address : BitVec 32} {is : List (Moment × Text)} {x : Session}
    (h : Run (Lines s) (.accepted address) is x) :
    (∀ i x', Lines s x i x' → Separate x i.2 x') ∧
    (Run (Guarded Calm (Lines s)) (.accepted address) is x →
      ∀ i x', Lines s x i x' → x'.ctx.wtbuf = esmtp354 → Valid x) := by
  have hpolite :
      Polite x := h.invariant (fun _ _ _ hx hstep => hx.step hstep) (polite_accepted address)
  refine ⟨fun i x' hstep => hpolite.separate hstep, fun hcalm i x' hstep hreply => ?_⟩
  have henvelope : Envelope x :=
    hcalm.invariant (fun _ _ _ hx hstep => hx.step hstep.1 hstep.2) (envelope_accepted address)
  exact henvelope.valid hstep hreply

/-- A storage with a folder, and no filter. -/
def backupOnly : Storage := ⟨"/mail/".toList, [], fun _ => none, fun _ => none, fun _ => none⟩

def aMoment : Moment :=
  ⟨"20140301/".toList, "H120000.P00001.S000001.e".toList, "Sat, 01 Mar 2014".toList, true,
    by decide⟩

/-- Lines of a client, each with its line end. -/
def said (lines : List String) : List (Moment × Text) := lines.map fun l =>
    (aMoment, l.toList ++ crlf)

theorem data_valid_run_greeted : ∃ x x' : Session, x'.ctx.wtbuf = esmtp354 ∧
    Lines backupOnly x (aMoment, "DATA\r\n".toList) x' ∧
      Separate x "DATA\r\n".toList x' ∧ Valid x := by
  have hrun :
      (((said ["EHLO a", "MAIL FROM:<A@b.c>", "RCPT TO: <d@e.f> "]).foldlM (fun (x : Session) i =>
      if decide (Calm x i) then x.step backupOnly i else none) (.accepted 0)).any fun x =>
        (x.step backupOnly (aMoment, "DATA\r\n".toList)).any fun x' =>
          x'.ctx.wtbuf == esmtp354) = true := by
    decide +kernel
  obtain ⟨x, hx, hnext⟩ := (Option.any_eq_true _ _).mp hrun
  obtain ⟨x', hstep, hreply⟩ := (Option.any_eq_true _ _).mp hnext
  have hcalm : Run (Guarded Calm (Lines backupOnly)) (.accepted 0) _ x :=
    Run.of_checked (fun _ _ h => of_decide_eq_true h) hx
  obtain ⟨hseparate, hvalid⟩ := data_valid_run hcalm.toRun
  exact ⟨x, x', beq_iff_eq.mp hreply, hstep, hseparate _ _ hstep,
    hvalid hcalm _ _ hstep (beq_iff_eq.mp hreply)⟩

/-- DATA is answered 354 with an address that was refused. -/
theorem address_replaced :
    ¬ ∀ (s : Storage) (address : BitVec 32) (is : List (Moment × Text)) (x : Session),
    Run (Lines s) (.accepted address) is x →
      ∀ i x', Lines s x i x' → x'.ctx.wtbuf = esmtp354 → Valid x := by
  intro h
  have hrun :
      (((said ["EHLO a", "MAIL FROM:<a@b.c>", "MAIL FROM:<nobody>", "RCPT TO:<d@e.f>"]).foldlM
      (fun (x : Session) i => x.step backupOnly i) (.accepted 0)).any fun x =>
        !checkMailbox (cstr x.ctx.cmds.mail) &&
          (x.step backupOnly (aMoment, "DATA\r\n".toList)).any fun x' =>
            x'.ctx.wtbuf == esmtp354) = true := by
    decide +kernel
  obtain ⟨x, hx, hnext⟩ := (Option.any_eq_true _ _).mp hrun
  obtain ⟨hmail, hnext⟩ := (Bool.and_eq_true _ _).mp hnext
  obtain ⟨x', hstep, hreply⟩ := (Option.any_eq_true _ _).mp hnext
  have hvalid := h backupOnly 0 _ x (Run.of_foldlM hx) _ x' hstep (beq_iff_eq.mp hreply)
  rw [hvalid.mail] at hmail
  cases hmail

/-- Without a greeting, too. -/
example : ((said ["RSET", "MAIL FROM:<a@b.c>", "RCPT TO:<d@e.f>", "DATA"]).foldlM
    (fun (x : Session) i => x.step backupOnly i) (.accepted 0)).any
    (fun x => x.ctx.wtbuf == esmtp354) =
      true := by
  decide +kernel

end Edm.Postmaster
