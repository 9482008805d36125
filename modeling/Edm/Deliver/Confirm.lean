import Edm.Deliver.Report
import Edm.Support.Run

/-!
# Deliver — Confirm

The delivery engine and the list daemon at the two ends of a connection.  The engine asks for
mails, for templates, and reports its results; it waits for an answer in `RequestMail::ParseRsp`
each time.  The daemon handles the requests of a connection in order.  A message may take any time,
and the connection may be closed at any moment.

The answer to a report does not say which report it answers, and `ParseRsp` returns 0 also when
nothing came for sixty seconds, or when the answer to an earlier request came.  The engine then
erases the mails it has reported.

Where the engine reports only when nothing else is unanswered, and the answer comes in time, it
erases no mail whose record the daemon has not handled (`confirmed_run`).
-/

namespace Edm.Deliver
open Support

/-- What the engine asks for.  The number of a report is not sent. -/
inductive Request where
  | mailList
  | template
  | report (n : Nat) (body : Text)

/-- A message of the daemon: codes 1, 2, 3 and 4.  The number of the report is not sent. -/
inductive Answer where
  | mailList (mailnum : Nat) (mail : Text)
  | template (rsp : Text)
  | reported (n : Nat)
  | notice (stop : List TaskId)

/-- A connection, with the requests and the answers that are under way. -/
structure Connection where
  requests : List Request
  answers : List Answer
  /-- The engine has read whole answers. -/
  framed : Bool
  /-- The daemon has not closed it. -/
  isOpen : Bool

def Connection.fresh : Connection := ⟨[], [], true, true⟩

/-- Nothing is under way. -/
def Connection.Clean (c : Connection) : Prop :=
  c.requests = [] ∧ c.answers = [] ∧ c.framed = true

/-- A mail erased by a report. -/
structure Erasure where
  mail : Mail
  report : Nat

/-- The engine, the connection and the daemon.  `handled`, `heard` and `erased` only remember. -/
structure Delivery where
  engine : Engine
  conn : Connection
  /-- Requests on connections that the engine has closed. -/
  left : List Request
  /-- How many reports have been sent. -/
  reports : Nat
  /-- The records that the daemon has handled, with the number of their report. -/
  handled : List (Nat × Record)
  /-- The reports whose answer was read while the engine waited for it. -/
  heard : List Nat
  erased : List Erasure

/-! ### The daemon -/

/-- `ReceivePackage` takes messages of up to 1024000 bytes. -/
def Request.received : Request → Bool
  | .mailList | .template => true
  | .report _ body => decide (body.length ≤ 1024000)

/-- The records a request makes the daemon handle. -/
def Request.handled : Request → List (Nat × Record)
  | .mailList | .template => []
  | .report n body => (readReport body).map (n, ·)

/-- The answer to a request, with the mails or the template that the daemon has. -/
def Request.answer (mails : Nat × Text) (rsp : Text) : Request → Answer
  | .mailList => .mailList mails.1 mails.2
  | .template => .template rsp
  | .report n _ => .reported n

namespace Delivery
variable (s : Delivery)

/-- A session of the daemon: a notice of stopped tasks, if there is one, then the request, then the
answer, if it can be sent. -/
def serve (stop : List TaskId) (mails : Nat × Text) (rsp : Text) (answered : Bool) :
    Option Delivery :=
  match s.conn.requests with
  | [] => none
  | r :: requests =>
      if s.conn.isOpen = false then none
      else if r.received = false then
        some { s with conn := { s.conn with requests := requests, isOpen := false } }
      else
        some { s with
          handled := s.handled ++ r.handled
          conn := { s.conn with
            requests := requests
            answers := s.conn.answers ++ (if stop.isEmpty then [] else [.notice stop])
              ++ (if answered then [r.answer mails rsp] else [])
            isOpen := answered } }

/-- The daemon handles a request of a connection that the engine has closed. -/
def serveLeft : Option Delivery :=
  match s.left with
  | [] => none
  | r :: left => some { s with left := left, handled := s.handled ++ r.handled }

/-! ### The engine -/

/-- `close` and `CreateClient`. -/
def reconnect : Delivery := { s with conn := .fresh, left := s.left ++ s.conn.requests }

/-- A request is sent, when `send` succeeds. -/
def send (sent : Bool) (r : Request) : Delivery :=
  if sent then { s with conn := { s.conn with requests := s.conn.requests ++ [r] } } else s

/-- The mails that a confirmed report erases. -/
def erasures (vec : List (Nat × Char)) : List Erasure :=
  (s.engine.m_map_mail.keep fun k => (vec.map Prod.fst).contains k).entries.map
    fun e => ⟨e.2, s.reports⟩

/-- `ParseRsp` returns 0 (`iret`) or -1, and `template` says whether it has read one.  After a
fourth attempt to get a template the connection stays as it is. -/
def answer (iret template : Bool) (now : Int) (sent : Bool) : Option Delivery :=
  (s.engine.step (.answer iret template now)).map fun engine =>
    let s' := { s with engine := engine }
    match s.engine.phase with
    | .template _ i _ =>
        if iret && template then s'
        else if i < 3 then s'.reconnect.send sent .template
        else s'
    | .answer vec _ =>
        if iret then
          { s' with erased := s.erased ++ s.erasures vec }
        else s'.reconnect
    | _ => if iret then s' else s'.reconnect

/-- `ParseRsp` has a message. -/
def take (now : Int) (sent : Bool) : Answer → Option Delivery
  | .notice stop => (s.engine.step (.notify stop now)).map fun e => { s with engine := e }
  | .mailList mailnum mail =>
      (s.engine.step (.list mailnum mail)).bind fun e =>
        { s with engine := e }.answer true false now sent
  | .template rsp => s.answer true (!rsp.isEmpty) now sent
  | .reported _ => s.answer true false now sent

/-- The reports answered so far, when the message `a` is read. -/
def hear : Answer → List Nat
  | .reported n => if n = s.reports then n :: s.heard else s.heard
  | _ => s.heard

/-- `ParseRsp` reads the next message. -/
def read (now : Int) (sent : Bool) : Option Delivery :=
  match s.conn.answers with
  | [] => none
  | a :: answers =>
      { s with conn := { s.conn with answers := answers }, heard := s.hear a }.take now sent a

/-- A step of the engine outside `ParseRsp`. -/
def work (e : Event) (sent : Bool) : Option Delivery :=
  (s.engine.step e).bind fun engine =>
    let s' := { s with engine := engine }
    match e with
    | .request => some (s'.send sent .mailList)
    | .look _ _ =>
        match engine.phase with
        | .template _ _ _ => some (s'.send sent .template)
        | _ => some s'
    | .report now _ =>
        match engine.phase with
        | .answer _ _ =>
            (report s.engine.m_map_mail).map fun msg =>
              { s' with reports := s.reports + 1 }.send true (.report (s.reports + 1) (msg.drop 4))
        | _ =>
            -- `send` has failed, or it is not yet time.
            if s.engine.m_reportiterval ≤ now - s.engine.m_iterval ∧
                s.engine.m_map_mail.entries ≠ [] then some s'.reconnect
            else some s'
    | .send _ _ | .result _ _ | .update | .totle _ => some s'
    | .notify _ _ | .list _ _ | .answer _ _ _ => none

end Delivery

/-- A step.  `sent` says whether the request that the step ends with could be sent. -/
inductive Move where
  | work (e : Event) (sent : Bool)
  | read (now : Int) (sent : Bool)
  /-- `select` returns 0 before a message. -/
  | timeout (now : Int) (sent : Bool)
  /-- `ParseRsp` returns -1, and has read a part of a message when `torn`. -/
  | fail (torn : Bool) (now : Int) (sent : Bool)
  /-- `ParseRsp` takes for the message `a` what is none: it reads in the middle of one, or the
  connection is reset inside one and the count of the bytes it has read wraps. -/
  | garbled (a : Answer) (now : Int) (sent : Bool)
  | serve (stop : List TaskId) (mails : Nat × Text) (rsp : Text) (answered : Bool)
  | serveLeft
  | close

namespace Delivery

def step (s : Delivery) : Move → Option Delivery
  | .work e sent => s.work e sent
  | .read now sent => if s.conn.framed then s.read now sent else none
  | .timeout now sent => s.answer true false now sent
  | .fail torn now sent =>
      { s with conn := { s.conn with framed := s.conn.framed && !torn } }.answer
        false false now sent
  | .garbled a now sent =>
      { s with conn := { s.conn with framed := false } }.take now sent a
  | .serve stop mails rsp answered => s.serve stop mails rsp answered
  | .serveLeft => s.serveLeft
  | .close => some { s with conn := { s.conn with isOpen := false } }

/-- The engine at its start, connected. -/
def init (engine : Engine) : Delivery where
  engine := engine
  conn := .fresh
  left := []
  reports := 0
  handled := []
  heard := []
  erased := []

end Delivery

/-- The record of a mail. -/
def Record.Of (r : Record) (m : Mail) : Prop :=
  r.id = m.node.taskId.bytes ∧ r.mail = cstr m.node.mail

/-- Each mail was erased after the answer to its report was read, and the daemon has handled its
record. -/
def Confirmed (s : Delivery) : Prop :=
  ∀ e ∈ s.erased, e.report ∈ s.heard ∧ ∃ r, (e.report, r) ∈ s.handled ∧ r.Of e.mail

/-- The engine does not wait for the answer to a report with mails in it. -/
def Delivery.Unreported (s : Delivery) : Prop :=
  ∀ vec got, s.engine.phase = .answer vec got → vec = []

/-- A report is sent when nothing is under way, and its answer comes in time and whole. -/
def Careful (s : Delivery) : Move → Prop
  | .work (.report _ true) _ => s.engine.reported = [] ∨ s.conn.Clean
  | .timeout _ _ | .garbled _ _ _ => s.Unreported
  | _ => True

/-! ### What the steps of the engine do to a report -/

namespace Engine
variable {s s' : Engine}

/-- An answer ends the wait. -/
theorem phase_of_answer {iret template : Bool} {now : Int}
    (h : s.step (.answer iret template now) = some s') (vec : List (Nat × Char)) (got : Bool) :
    s'.phase ≠ .answer vec got := by
  simp only [step] at h
  split at h
  · split at h
    · cases h
    · obtain rfl := Option.some.inj h
      simp only
      split <;> simp
  · split at h
    · cases h
    · obtain rfl := Option.some.inj h
      rw [checkTemplate]
      split
      · simp
      · split <;> simp
  · split at h
    · cases h
    · obtain rfl := Option.some.inj h
      simp [endReport]
  · cases h

/-- A notice leaves the phase, and the number and the mailbox of each mail. -/
theorem of_notify {stop : List TaskId} {now : Int} (h : s.step (.notify stop now) = some s') :
    s'.phase = s.phase ∧ ∀ k m', s'.m_map_mail.find k = some m' →
      ∃ m, s.m_map_mail.find k = some m ∧ m'.node.taskId = m.node.taskId ∧
        m'.node.mail = m.node.mail := by
  simp only [step] at h
  split at h
  · obtain rfl := Option.some.inj h
    refine ⟨rfl, fun k m' hm' => ?_⟩
    rw [handleNotifyMsg, StdMap.find_mapVals] at hm'
    obtain ⟨m, hm, rfl⟩ := Option.map_eq_some_iff.mp hm'
    refine ⟨m, hm, ?_⟩
    split
    · exact ⟨rfl, rfl⟩
    · exact ⟨rfl, rfl⟩
  · cases h

theorem phase_of_list {mailnum : Nat} {mail : Text} (h : s.step (.list mailnum mail) = some s')
    {vec : List (Nat × Char)} {got : Bool} (hp : s'.phase = .answer vec got) :
    ∃ got', s.phase = .answer vec got' := by
  simp only [step] at h
  split at h
  · obtain ⟨nodes, -, rfl⟩ := Option.map_eq_some_iff.mp h
    cases hs : s.phase with
    | answer vec' got' =>
        simp only [hs, Phase.parsed, Phase.answer.injEq] at hp
        exact ⟨got', by rw [hp.1]⟩
    | request => simp [hs, Phase.parsed] at hp
    | response _ => simp [hs, Phase.parsed] at hp
    | scan _ => simp [hs, Phase.parsed] at hp
    | template _ _ _ => simp [hs, Phase.parsed] at hp
    | prepared _ => simp [hs, Phase.parsed] at hp
    | update => simp [hs, Phase.parsed] at hp
    | report => simp [hs, Phase.parsed] at hp
    | totle => simp [hs, Phase.parsed] at hp
  · cases h

theorem phase_of_look {now : Int} {known : Bool} (h : s.step (.look now known) = some s')
    (vec : List (Nat × Char)) (got : Bool) : s'.phase ≠ .answer vec got := by
  simp only [step] at h
  split at h
  · obtain rfl := Option.some.inj h
    rw [scan]
    split
    · simp
    · split
      · simp
      · split
        · simp only
          split <;> simp
        · simp
  · cases h

theorem phase_of_send {now : Int} {o : Sending} (h : s.step (.send now o) = some s')
    (vec : List (Nat × Char)) (got : Bool) : s'.phase ≠ .answer vec got := by
  simp only [step] at h
  split at h
  · obtain rfl := Option.some.inj h
    cases o with
    | unfit => simp [send]
    | noDomain => simp [send]
    | noThread => simp [send]
    | started => simp [send]
  · cases h

/-- The delivery threads do not touch the map of the mails. -/
theorem of_result {k : Nat} {r : TmpNode} (h : s.step (.result k r) = some s') :
    s'.phase = s.phase ∧ s'.m_map_mail = s.m_map_mail := by
  simp only [step] at h
  split at h
  · obtain rfl := Option.some.inj h
    exact ⟨rfl, rfl⟩
  · cases h

/-- The engine waits for the answer to a report it has just sent. -/
theorem of_report {now : Int} {sent : Bool} (h : s.step (.report now sent) = some s')
    {vec : List (Nat × Char)} {got : Bool} (hp : s'.phase = .answer vec got) :
    sent = true ∧ vec = s.reported ∧ s'.m_map_mail = s.m_map_mail := by
  simp only [step] at h
  split at h
  · obtain rfl := Option.some.inj h
    rw [sendReport] at hp ⊢
    split at hp
    · split at hp
      next hsent =>
        rw [if_pos ‹_›, if_pos hsent]
        simp only [Phase.answer.injEq] at hp
        exact ⟨hsent, hp.1.symm, rfl⟩
      next => cases hp
    · cases hp
  · cases h

/-- Nothing but a report leads to the wait. -/
theorem phase_of_pass {e : Event} (he : e = .request ∨ e = .update ∨ ∃ now, e = .totle now)
    (h : s.step e = some s') (vec : List (Nat × Char)) (got : Bool) :
    s'.phase ≠ .answer vec got := by
  rcases he with rfl | rfl | ⟨now, rfl⟩
  all_goals
    simp only [step] at h
    split at h
    · obtain rfl := Option.some.inj h
      simp
    · cases h

/-- Each number that is reported has the record of its mail in the report. -/
theorem record_of_reported {k : Nat} (hk : k ∈ s.reported.map Prod.fst) {m : Mail}
    (hm : s.m_map_mail.find k = some m) : ∃ r ∈ records s.m_map_mail, r.Of m := by
  obtain ⟨⟨k', c⟩, hc, rfl⟩ := List.mem_map.mp hk
  obtain ⟨⟨k'', m'⟩, hmem, he⟩ := List.mem_filterMap.mp hc
  obtain ⟨c', hcode, he⟩ := Option.map_eq_some_iff.mp he
  obtain ⟨rfl, rfl⟩ := Prod.mk.inj he
  have hm' := StdMap.find_eq_some_iff.mpr hmem
  obtain rfl := Option.some.inj (hm.symm.trans hm')
  have hrecord :
      m.record = some ⟨m.node.taskId.bytes, c', cstr m.node.mail, cstr m.node.errstr⟩ := by
    rw [Mail.record, hcode]
    rfl
  exact ⟨_, List.mem_filterMap.mpr ⟨_, hmem, hrecord⟩, rfl, rfl⟩

end Engine

/-! ### The law -/

namespace Delivery

/-- Report `s.reports` is under way: it has not been handled, or what is read next is a notice or
its answer. -/
def Exchange (s : Delivery) (records : List Record) : Prop :=
  (∃ body, s.conn.requests = [.report s.reports body] ∧ s.conn.answers = [] ∧
    readReport body = records) ∨
  (s.conn.requests = [] ∧ ∀ a ∈ s.conn.answers, (∃ stop, a = .notice stop) ∨
    (a = .reported s.reports ∧ ∀ r ∈ records, (s.reports, r) ∈ s.handled))

/-- The engine waits for the answer to a report with these records. -/
structure Waiting (s : Delivery) (vec : List (Nat × Char)) (records : List Record) : Prop where
  framed : s.conn.framed = true
  mails : ∀ k ∈ vec.map Prod.fst, ∀ m, s.engine.m_map_mail.find k = some m →
    ∃ r ∈ records, r.Of m
  exchange : s.Exchange records

/-- What holds after careful steps. -/
structure Law (s : Delivery) : Prop where
  confirmed : Confirmed s
  waiting : ∀ vec got, s.engine.phase = .answer vec got → vec ≠ [] →
    ∃ records, s.Waiting vec records

variable {s s' : Delivery}

theorem Law.of_unreported (hc : Confirmed s) (h : s.Unreported) : s.Law where
  confirmed := hc
  waiting vec got hp hne := absurd (h vec got hp) hne

theorem mem_erasures {vec : List (Nat × Char)} {e : Erasure} (h : e ∈ s.erasures vec) :
    e.report = s.reports ∧ ∃ k ∈ vec.map Prod.fst, s.engine.m_map_mail.find k = some e.mail := by
  obtain ⟨⟨k, m⟩, hmem, rfl⟩ := List.mem_map.mp h
  have hfind := StdMap.find_eq_some_iff.mpr hmem
  rw [StdMap.find_keep] at hfind
  split at hfind
  next hk => exact ⟨rfl, k, List.contains_iff_mem.mp hk, hfind⟩
  next => cases hfind

/-- `ParseRsp` ends, and whatever is erased may be. -/
theorem law_of_answer {iret template : Bool} {now : Int} {sent : Bool}
    (h : s.answer iret template now sent = some s') (hc : Confirmed s)
    (hok : ∀ vec got, s.engine.phase = .answer vec got → iret = true → ∀ e ∈ s.erasures vec,
      e.report ∈ s.heard ∧ ∃ r, (e.report, r) ∈ s.handled ∧ r.Of e.mail) : s'.Law := by
  obtain ⟨engine, he, hs⟩ := Option.map_eq_some_iff.mp h
  have hphase := Engine.phase_of_answer he
  have hquiet : ∀ t : Delivery, t.engine = engine → t.Unreported := by
    rintro t rfl vec got hp
    exact absurd hp (hphase vec got)
  cases hp : s.engine.phase with
  | answer vec got =>
      simp only [hp] at hs
      subst hs
      split
      next hi =>
        refine Law.of_unreported (fun e hmem => ?_) (hquiet _ rfl)
        rcases List.mem_append.mp hmem with hmem | hmem
        · exact hc e hmem
        · exact hok vec got hp hi e hmem
      next => exact Law.of_unreported hc (hquiet _ rfl)
  | template k i got =>
      simp only [hp] at hs
      subst hs
      split
      · exact Law.of_unreported hc (hquiet _ rfl)
      · split
        · rw [send]
          split
          · exact Law.of_unreported hc (hquiet _ rfl)
          · exact Law.of_unreported hc (hquiet _ rfl)
        · exact Law.of_unreported hc (hquiet _ rfl)
  | response _ =>
      simp only [hp] at hs
      subst hs
      split
      · exact Law.of_unreported hc (hquiet _ rfl)
      · exact Law.of_unreported hc (hquiet _ rfl)
  | request => rw [Engine.step, hp] at he; cases he
  | scan _ => rw [Engine.step, hp] at he; cases he
  | prepared _ => rw [Engine.step, hp] at he; cases he
  | update => rw [Engine.step, hp] at he; cases he
  | report => rw [Engine.step, hp] at he; cases he
  | totle => rw [Engine.step, hp] at he; cases he

theorem Unreported.erasures {vec : List (Nat × Char)} {got : Bool} (h : s.Unreported)
    (hp : s.engine.phase = .answer vec got) {e : Erasure} : e ∉ s.erasures vec := by
  intro he
  obtain ⟨-, k, hk, -⟩ := mem_erasures he
  rw [h vec got hp] at hk
  cases hk

/-- Where no mail can be lost, whatever is taken for a message may be. -/
theorem law_of_take {a : Answer} {now : Int} {sent : Bool} (hc : Confirmed s) (hu : s.Unreported)
    (h : s.take now sent a = some s') : s'.Law := by
  have hanswer : ∀ {t t' : Delivery} {iret template : Bool}, Confirmed t → t.Unreported →
      t.answer iret template now sent = some t' → t'.Law := fun hc hu h =>
    law_of_answer h hc fun _ _ hp _ _ he => absurd he (hu.erasures hp)
  cases a with
  | notice stop =>
      obtain ⟨e, he, rfl⟩ := Option.map_eq_some_iff.mp h
      refine Law.of_unreported hc fun vec got hp => hu vec got ?_
      rw [← (Engine.of_notify he).1]
      exact hp
  | mailList mailnum mail =>
      obtain ⟨e, he, h⟩ := Option.bind_eq_some_iff.mp h
      refine hanswer ?_ (fun vec got hp => ?_) h
      · exact hc
      · obtain ⟨got', hp⟩ := Engine.phase_of_list he hp
        exact hu vec got' hp
  | template rsp => exact hanswer hc hu h
  | reported n => exact hanswer hc hu h

/-- Whatever is read is a notice, or the answer to the report. -/
theorem Law.read {now : Int} {sent : Bool} (hl : s.Law) (hframed : s.conn.framed = true)
    (h : s.read now sent = some s') : s'.Law := by
  rw [Delivery.read] at h
  split at h
  · cases h
  · next a answers hanswers =>
    have hc : Confirmed { s with
        conn := { s.conn with answers := answers }, heard := s.hear a } := by
      intro e he
      obtain ⟨hheard, hrecord⟩ := hl.confirmed e he
      refine ⟨?_, hrecord⟩
      cases a with
      | reported n =>
          simp only [hear]
          split
          · exact List.mem_cons_of_mem _ hheard
          · exact hheard
      | mailList _ _ => exact hheard
      | template _ => exact hheard
      | notice _ => exact hheard
    by_cases hu : s.Unreported
    · exact law_of_take hc hu h
    · simp only [Unreported, not_forall] at hu
      obtain ⟨vec, got, hp, hne⟩ := hu
      obtain ⟨records, hw⟩ := hl.waiting vec got hp hne
      rcases hw.exchange with ⟨body, -, hnone, -⟩ | ⟨hrequests, hall⟩
      · rw [hnone] at hanswers
        cases hanswers
      · rw [hanswers, List.forall_mem_cons] at hall
        rcases hall.1 with ⟨stop, rfl⟩ | ⟨rfl, hhandled⟩
        · obtain ⟨e, he, rfl⟩ := Option.map_eq_some_iff.mp h
          obtain ⟨hphase, hmails⟩ := Engine.of_notify he
          refine ⟨hc, fun vec' got' hp' _ => ⟨records, hframed, ?_, .inr ⟨hrequests, hall.2⟩⟩⟩
          rw [hphase, hp] at hp'
          obtain ⟨rfl, rfl⟩ := Phase.answer.inj hp'
          intro k hk m' hm'
          obtain ⟨m, hm, hid, hmail⟩ := hmails k m' hm'
          obtain ⟨r, hr, hof⟩ := hw.mails k hk m hm
          exact ⟨r, hr, hof.1.trans (congrArg TaskId.bytes hid.symm),
            hof.2.trans (congrArg cstr hmail.symm)⟩
        · refine law_of_answer h hc fun vec' got' hp' _ e he => ?_
          obtain ⟨rfl, rfl⟩ := Phase.answer.inj (hp.symm.trans hp')
          obtain ⟨hreport, k, hk, hm⟩ := mem_erasures he
          obtain ⟨r, hr, hof⟩ := hw.mails k hk e.mail hm
          rw [hreport]
          refine ⟨?_, r, hhandled r hr, hof⟩
          rw [hear, if_pos rfl]
          exact List.mem_cons_self

/-- The daemon only adds to what it has handled. -/
theorem Law.handle {added : List (Nat × Record)} (hl : s.Law) {conn : Connection}
    {left : List Request} (hframed : conn.framed = s.conn.framed)
    (hexchange : ∀ records, s.Exchange records →
      Exchange { s with handled := s.handled ++ added, conn := conn, left := left } records) :
    Law { s with handled := s.handled ++ added, conn := conn, left := left } where
  confirmed e he := by
    obtain ⟨hheard, r, hr, hof⟩ := hl.confirmed e he
    exact ⟨hheard, r, List.mem_append_left _ hr, hof⟩
  waiting vec got hp hne := by
    obtain ⟨records, hw⟩ := hl.waiting vec got hp hne
    exact ⟨records, hframed.trans hw.framed, hw.mails, hexchange records hw.exchange⟩

theorem Law.serve {stop : List TaskId} {mails : Nat × Text} {rsp : Text} {answered : Bool}
    (hl : s.Law) (h : s.serve stop mails rsp answered = some s') : s'.Law := by
  rw [Delivery.serve] at h
  split at h
  · cases h
  · next r requests hrequests =>
    split at h
    · cases h
    · split at h
      · obtain rfl := Option.some.inj h
        have hclosed : Law { s with
            handled := s.handled ++ []
            conn := { s.conn with requests := requests, isOpen := false }
            left := s.left } := by
          refine hl.handle rfl ?_
          rintro records (⟨body, hr, hnone, hread⟩ | ⟨hr, -⟩)
          · rw [hr] at hrequests
            obtain ⟨-, rfl⟩ := List.cons.inj hrequests
            refine .inr ⟨rfl, fun a ha => ?_⟩
            rw [hnone] at ha
            cases ha
          · rw [hr] at hrequests
            cases hrequests
        rwa [List.append_nil] at hclosed
      · obtain rfl := Option.some.inj h
        refine hl.handle rfl ?_
        rintro records (⟨body, hr, hnone, rfl⟩ | ⟨hr, -⟩)
        · rw [hr] at hrequests
          obtain ⟨rfl, rfl⟩ := List.cons.inj hrequests
          refine .inr ⟨rfl, fun a ha => ?_⟩
          simp only [hnone, List.nil_append] at ha
          rcases List.mem_append.mp ha with ha | ha
          · split at ha
            · cases ha
            · exact .inl ⟨stop, List.mem_singleton.mp ha⟩
          · split at ha
            · refine .inr ⟨List.mem_singleton.mp ha, fun r hr => ?_⟩
              exact List.mem_append_right _ (List.mem_map_of_mem hr)
            · cases ha
        · rw [hr] at hrequests
          cases hrequests

theorem Law.serveLeft (hl : s.Law) (h : s.serveLeft = some s') : s'.Law := by
  rw [Delivery.serveLeft] at h
  split at h
  · cases h
  · next r left hleft =>
    obtain rfl := Option.some.inj h
    refine hl.handle rfl fun records he => ?_
    refine he.imp id fun ⟨hr, hall⟩ => ⟨hr, fun a ha => (hall a ha).imp id fun ⟨ha, hh⟩ => ?_⟩
    exact ⟨ha, fun r' hr' => List.mem_append_left _ (hh r' hr')⟩

/-- The engine works on, and may send a report. -/
theorem Law.work {e : Event} {sent : Bool} (hl : s.Law) (hcareful : Careful s (.work e sent))
    (h : s.work e sent = some s') : s'.Law := by
  obtain ⟨engine, he, h⟩ := Option.bind_eq_some_iff.mp h
  have hquiet : ∀ t : Delivery, t.engine = engine → Confirmed t →
      (∀ vec got, engine.phase ≠ .answer vec got) → t.Law := by
    rintro t rfl hc hne
    exact Law.of_unreported hc fun vec got hp => absurd hp (hne vec got)
  cases e with
  | request =>
      obtain rfl := Option.some.inj h
      rw [send]
      split
      · exact hquiet _ rfl hl.confirmed (Engine.phase_of_pass (.inl rfl) he)
      · exact hquiet _ rfl hl.confirmed (Engine.phase_of_pass (.inl rfl) he)
  | look now known =>
      simp only at h
      split at h
      · obtain rfl := Option.some.inj h
        rw [send]
        split
        · exact hquiet _ rfl hl.confirmed (Engine.phase_of_look he)
        · exact hquiet _ rfl hl.confirmed (Engine.phase_of_look he)
      · obtain rfl := Option.some.inj h
        exact hquiet _ rfl hl.confirmed (Engine.phase_of_look he)
  | report now ok =>
      simp only at h
      split at h
      next vec got hp =>
        obtain ⟨msg, hmsg, rfl⟩ := Option.map_eq_some_iff.mp h
        obtain ⟨rfl, rfl, hmails⟩ := Engine.of_report he hp
        refine ⟨hl.confirmed, fun vec' got' hp' hne => ?_⟩
        obtain ⟨rfl, -⟩ := Phase.answer.inj (hp.symm.trans hp')
        obtain ⟨hrequests, hanswers, hframed⟩ := hcareful.resolve_left hne
        refine ⟨records s.engine.m_map_mail, hframed, fun k hk m hm => ?_, .inl ⟨_, ?_, hanswers,
          readReport_report hmsg⟩⟩
        · have hm' : engine.m_map_mail.find k = some m := hm
          rw [hmails] at hm'
          exact Engine.record_of_reported hk hm'
        · rw [send, if_pos rfl]
          exact congrArg (· ++ _) hrequests
      next hne =>
        split at h
        · obtain rfl := Option.some.inj h
          exact hquiet _ rfl hl.confirmed hne
        · obtain rfl := Option.some.inj h
          exact hquiet _ rfl hl.confirmed hne
  | send now o =>
      obtain rfl := Option.some.inj h
      exact hquiet _ rfl hl.confirmed (Engine.phase_of_send he)
  | result k r =>
      obtain rfl := Option.some.inj h
      obtain ⟨hphase, hmails⟩ := Engine.of_result he
      refine ⟨hl.confirmed, fun vec got hp hne => ?_⟩
      obtain ⟨records, hw⟩ := hl.waiting vec got (hphase ▸ hp) hne
      exact ⟨records, hw.framed, fun k hk m hm => hw.mails k hk m (hmails ▸ hm), hw.exchange⟩
  | update =>
      obtain rfl := Option.some.inj h
      exact hquiet _ rfl hl.confirmed (Engine.phase_of_pass (.inr (.inl rfl)) he)
  | totle now =>
      obtain rfl := Option.some.inj h
      exact hquiet _ rfl hl.confirmed (Engine.phase_of_pass (.inr (.inr ⟨now, rfl⟩)) he)
  | notify _ _ => cases h
  | list _ _ => cases h
  | answer _ _ _ => cases h

/-- A careful step keeps the law. -/
theorem Law.step {m : Move} (hl : s.Law) (hcareful : Careful s m) (h : s.step m = some s') :
    s'.Law := by
  cases m with
  | work e sent => exact hl.work hcareful h
  | read now sent =>
      rw [Delivery.step] at h
      split at h
      next hframed => exact hl.read hframed h
      next => cases h
  | timeout now sent =>
      exact law_of_answer h hl.confirmed fun vec got hp _ e he => absurd he (hcareful.erasures hp)
  | fail torn now sent =>
      rw [Delivery.step] at h
      refine law_of_answer h ?_ fun vec got hp hi => absurd hi Bool.false_ne_true
      exact hl.confirmed
  | garbled a now sent =>
      rw [Delivery.step] at h
      refine law_of_take ?_ ?_ h
      · exact hl.confirmed
      · exact hcareful
  | serve stop mails rsp answered => exact hl.serve h
  | serveLeft => exact hl.serveLeft h
  | close =>
      obtain rfl := Option.some.inj h
      refine ⟨hl.confirmed, fun vec got hp hne => ?_⟩
      obtain ⟨records, hw⟩ := hl.waiting vec got hp hne
      exact ⟨records, hw.framed, hw.mails, hw.exchange⟩

theorem law_init {engine : Engine} (h : engine.phase = .request) : (Delivery.init engine).Law := by
  refine Law.of_unreported (fun e he => ?_) fun vec got hp => ?_
  · cases he
  · rw [init, h] at hp
    cases hp

end Delivery

/-- In a run of careful steps every mail that a report erased was handled by the daemon, and its
answer was read. -/
theorem confirmed_run {m_map_domain : Domains} {m_reportiterval now : Int} {moves : List Move}
    {s : Delivery}
    (h : Run (Guarded Careful fun s m s' => s.step m = some s')
      (.init (.init m_map_domain m_reportiterval now)) moves s) : Confirmed s :=
  (h.invariant (fun _ _ _ hl hs => hl.step hs.1 hs.2) (Delivery.law_init rfl)).confirmed

/-! ### A mail forgotten -/

/-- A mail is read, its domain is not found, and it is reported. -/
def reportOne : List Move :=
  [.work .request true, .serve [] (1, oneMail) [] true, .read 0 true, .work (.look 0 true) true,
    .work (.send 0 .noDomain) true, .work (.look 0 true) true, .work .update true,
    .work (.report 10 true) true]

/-- The daemon answers in time. -/
def answerOne : List Move := [.serve [] (0, []) [] true, .read 10 true]

/-- The daemon does not answer. -/
def answerNone : List Move := [.timeout 70 true]

/-- A check that a step is careful. -/
def Delivery.careful (s : Delivery) : Move → Bool
  | .work (.report _ true) _ => s.conn.requests.isEmpty && s.conn.answers.isEmpty && s.conn.framed
  | .timeout _ _ | .garbled _ _ _ => false
  | _ => true

theorem Delivery.careful_of_check (s : Delivery) (m : Move) (h : s.careful m = true) :
    Careful s m := by
  cases m with
  | work e sent =>
      cases e with
      | report now ok =>
          cases ok with
          | true =>
              simp only [careful, Bool.and_eq_true, List.isEmpty_iff] at h
              exact .inr ⟨h.1.1, h.1.2, h.2⟩
          | false => trivial
      | request => trivial
      | notify _ _ => trivial
      | list _ _ => trivial
      | answer _ _ _ => trivial
      | look _ _ => trivial
      | send _ _ => trivial
      | result _ _ => trivial
      | update => trivial
      | totle _ => trivial
  | read now sent => trivial
  | timeout now sent => cases h
  | fail torn now sent => trivial
  | garbled a now sent => cases h
  | serve stop mails rsp answered => trivial
  | serveLeft => trivial
  | close => trivial

/-- The daemon answers, and the mail is erased. -/
theorem confirmed_run_answered : ∃ s : Delivery, s.erased.length = 1 ∧ Confirmed s := by
  have hrun : ((reportOne ++ answerOne).foldlM
      (fun (s : Delivery) m => if s.careful m then s.step m else none)
      (Delivery.init (.init .empty 0 0))).map (·.erased.length) = some 1 := by decide +kernel
  obtain ⟨s, hs, herased⟩ := Option.map_eq_some_iff.mp hrun
  exact ⟨s, herased, confirmed_run (Run.of_checked Delivery.careful_of_check hs)⟩

/-- Nothing comes for sixty seconds, and the mail is erased all the same. -/
theorem erased_unconfirmed : ¬ ∀ (doms : Domains) (m_reportiterval now : Int) (moves : List Move)
    (s : Delivery), Run (fun s m s' => s.step m = some s')
      (.init (.init doms m_reportiterval now)) moves s → Confirmed s := by
  intro h
  have hrun : ((reportOne ++ answerNone).foldlM Delivery.step
      (Delivery.init (.init .empty 0 0))).map (fun s => (s.erased.length, s.heard))
        = some (1, []) := by decide +kernel
  obtain ⟨s, hs, hlast⟩ := Option.map_eq_some_iff.mp hrun
  obtain ⟨herased, hheard⟩ := Prod.mk.inj hlast
  obtain ⟨e, he⟩ := List.exists_mem_of_length_pos (Nat.lt_of_lt_of_eq Nat.one_pos herased.symm)
  have hmem := (h _ _ _ _ s (.of_foldlM hs) e he).1
  rw [hheard] at hmem
  cases hmem

end Edm.Deliver
