import Edm.Deliver.Node

/-!
# Deliver — Engine

The main loop of the delivery engine (`DeliverEngineApp::onRun`) as a machine that takes one small
step at a time: `MailListRequest`, `ParseRsp`, `ScanList`, `UpdateList`, `SendReport` and
`UpdateTotle`, in this order, with delivery threads that end at any time.  `Phase` says where the
loop stands.  An `Event` is a step with what the world decides in it: the clock, the messages of
the list daemon, whether a template or a domain is found, what a delivery came to.

A message is read in the middle of three functions.  Any number of notices of stopped tasks may
come before the one that ends `ParseRsp`.

A `Mail` has a `Life` beside its node: what has happened to it.  The engine keeps none of this and
no step depends on it; `gone` holds the mails that left the map.
-/

namespace Edm.Deliver
open Support

/-! ### Mails -/

/-- What has happened to a mail: whether a notice marked it, how often it was handed to a thread,
how many deliveries failed and how many of these softly, whether a request has been made since it
was sent or given up, and what requests added to the counters of its domain. -/
structure Life where
  marked : Bool
  attempts : Nat
  failures : Nat
  softs : Nat
  asked : Bool
  total : Nat
  failed : Nat

def Life.new : Life := ⟨false, 0, 0, 0, false, 0, 0⟩

/-- A mail of `m_map_mail`. -/
structure Mail where
  node : MailNode
  life : Life

/-- `s_flag` of a delivery. -/
inductive Flag where
  | sent | soft | hard
  deriving DecidableEq

def Flag.status : Flag → Status
  | .sent => .sent
  | .soft => .soft
  | .hard => .hard

/-- `struct tmp_node`. -/
structure TmpNode where
  flag : Flag
  stime : Int
  errstr : Text

namespace Mail

/-- A notice of stopped tasks reaches a mail (`handle_notify_msg`). -/
def isStopped (stop : List TaskId) (m : Mail) : Bool :=
  stop.contains m.node.taskId && m.node.status != .sent

def mark (now : Int) (m : Mail) : Mail :=
  { node := { m.node with status := .stopped, stime := now }
    life := { m.life with marked := true } }

/-- The result of a delivery (`UpdateList`). -/
def takeResult (r : TmpNode) (m : Mail) : Mail :=
  if r.flag = .sent then
    { m with node := { m.node with status := .sent, stime := r.stime, errstr := r.errstr } }
  else
    { node := { m.node with
        status := r.flag.status, stime := r.stime, errstr := r.errstr
        failtimes := (m.node.failtimes + 1) % 2 ^ 16 }
      life := { m.life with
        failures := m.life.failures + 1
        softs := m.life.softs + if r.flag = .soft then 1 else 0 } }

/-- There is nothing to send, or nobody to send it to (`ScanList`). -/
def fail (now : Int) (errstr : Text) (m : Mail) : Mail :=
  { m with node := { m.node with
      status := .hard, errstr := errstr, stime := now
      failtimes := (m.node.failtimes + 1) % 2 ^ 16 } }

/-- A thread delivers the mail. -/
def start (m : Mail) : Mail :=
  { node := { m.node with status := .sending }
    life := { m.life with attempts := m.life.attempts + 1 } }

/-- What a request adds to `fail` and `total` on account of a mail. -/
def counted (m : Mail) : Option (Nat × Nat) :=
  match m.node.status with
  | .hard => some (m.node.failtimes, m.node.failtimes)
  | .sent => some (m.node.failtimes, m.node.failtimes + 1)
  | _ => none

def request (m : Mail) : Mail :=
  match m.counted with
  | none => m
  | some (f, t) =>
      { node := { m.node with failtimes := 0 }
        life := { m.life with
          asked := true
          failed := m.life.failed + f
          total := m.life.total + t } }

/-- The letter a mail is reported with (`RequestMail::SendReport`). -/
def code (m : Mail) : Option Char :=
  match m.node.status with
  | .sent => some 's'
  | .hard => some 'f'
  | .stopped => some 'x'
  | .soft => if m.node.failtimes = 3 then some 'd' else none
  | _ => none

end Mail

/-! ### Counters of the domains -/

/-- The windows failures are counted in. -/
inductive Window where
  | day | minute | quarter | hour
  deriving DecidableEq

/-- The counters of `struct domain_node`, each an `unsigned int`: `fail` and `total`, with `_m`,
`_q`, `_h` or alone. -/
structure DomainNode where
  fail : Window → Nat
  total : Window → Nat

def DomainNode.zero : DomainNode := ⟨fun _ => 0, fun _ => 0⟩

def DomainNode.count (f t : Nat) (n : DomainNode) : DomainNode :=
  ⟨fun w => (n.fail w + f) % 2 ^ 32, fun w => (n.total w + t) % 2 ^ 32⟩

/-- A window starts anew.  That of the day keeps its `total`. -/
def DomainNode.reset (w : Window) (n : DomainNode) : DomainNode :=
  ⟨Function.update n.fail w 0, if w = .day then n.total else Function.update n.total w 0⟩

abbrev Domains := StdMap Text DomainNode

/-- The domain a mail is counted under. -/
def account (doms : Domains) (domain : Text) : Text :=
  if (doms.find domain).isSome then domain else "other".toList

/-- A request counts one mail. -/
def charge (doms : Domains) (m : Mail) : Domains :=
  match m.counted with
  | none => doms
  | some (f, t) =>
      doms.upsert (account doms m.node.domain) fun n => (n.getD .zero).count f t

/-! ### The engine -/

/-- Where the loop stands.  `it` is where the scan goes on, `i` the tries to get a template, and
`got` says that `ParseRsp` has read a list of mails and ends. -/
inductive Phase where
  | request
  | response (got : Bool)
  | scan (it : Nat)
  | template (it i : Nat) (got : Bool)
  | prepared (it : Nat)
  | update
  | report
  | answer (vec : List (Nat × Char)) (got : Bool)
  | totle

/-- What becomes of a mail whose template is there: it cannot be put together, its domain has no
address, no thread starts, or a thread does. -/
inductive Sending where
  | unfit | noDomain | noThread | started

inductive Event where
  | request
  | notify (stop : List TaskId) (now : Int)
  | list (mailnum : Nat) (mail : Text)
  | answer (iret template : Bool) (now : Int)
  | look (now : Int) (known : Bool)
  | send (now : Int) (o : Sending)
  | result (k : Nat) (r : TmpNode)
  | update
  | report (now : Int) (sent : Bool)
  | totle (now : Int)

structure Engine where
  m_map_mail : StdMap Nat Mail
  m_map_mail_tmp : StdMap Nat TmpNode
  m_map_domain : Domains
  m_iterval : Int
  m_reportiterval : Int
  m_iter : Window → Int
  seq_no : Nat
  threads : List Nat
  gone : List Mail
  phase : Phase

/-- The engine at its start, with the domains of its configuration. -/
def Engine.init (m_map_domain : Domains) (m_reportiterval now : Int) : Engine where
  m_map_mail := .empty
  m_map_mail_tmp := .empty
  m_map_domain := m_map_domain.mapVals fun _ _ => .zero
  m_iterval := now
  m_reportiterval := m_reportiterval
  m_iter := fun _ => now
  seq_no := 0
  threads := []
  gone := []
  phase := .request

namespace Phase

/-- `ParseRsp` waits for a message. -/
def parsing : Phase → Bool
  | response got | template _ _ got | answer _ got => !got
  | _ => false

/-- `ParseRsp` has read a list of mails. -/
def parsed : Phase → Phase
  | response _ => response true
  | template it i _ => template it i true
  | answer vec _ => answer vec true
  | p => p

end Phase

/-- `if(seq_no++ == 10000000) seq_no = 0;`. -/
def nextSeq (seq_no : Nat) : Nat := if seq_no = 10000000 then 0 else seq_no + 1

/-- How long a window is, in seconds. -/
def Window.period : Window → Int
  | .minute => 60
  | .quarter => 60 * 15
  | .hour => 60 * 60
  | .day => 24 * 60 * 60

namespace Engine
variable (s : Engine)

/-- A mail of a list goes into the map; what was there under its number is gone. -/
def addMail (s : Engine) (node : Option MailNode) : Engine :=
  match node with
  | none => { s with seq_no := nextSeq s.seq_no }
  | some n =>
      { s with
        seq_no := nextSeq s.seq_no
        m_map_mail := s.m_map_mail.set (nextSeq s.seq_no) ⟨n, .new⟩
        gone := s.gone ++ (s.m_map_mail.find (nextSeq s.seq_no)).toList }

/-- `MailListReq`, up to the request itself. -/
def mailListReq : Engine :=
  { s with
    m_map_domain := s.m_map_mail.entries.foldl (fun doms e => charge doms e.2) s.m_map_domain
    m_map_mail := s.m_map_mail.mapVals fun _ m => m.request }

/-- `handle_notify_msg`. -/
def handleNotifyMsg (stop : List TaskId) (now : Int) : Engine :=
  { s with m_map_mail :=
      s.m_map_mail.mapVals fun _ m => if m.isStopped stop then m.mark now else m }

/-- `UpdateList`: a result whose mail is not there is dropped. -/
def updateList : Engine :=
  { s with
    m_map_mail := s.m_map_mail.mapVals fun k m =>
      (s.m_map_mail_tmp.find k).elim m fun r => m.takeResult r
    m_map_mail_tmp := .empty }

/-- The mails `SendReport` reports, each with its letter. -/
def reported : List (Nat × Char) :=
  s.m_map_mail.entries.filterMap fun e => e.2.code.map (e.1, ·)

/-- The mails of an answered report leave the map. -/
def eraseMails (vec : List (Nat × Char)) : Engine :=
  { s with
    m_map_mail := s.m_map_mail.keep fun k => !(vec.map Prod.fst).contains k
    gone := s.gone ++ (s.m_map_mail.keep fun k => (vec.map Prod.fst).contains k).entries.map
      Prod.snd }

/-- The first window whose time is over.  The loop over the domains that it resets leaves the
iterator at the end, so no other window is reset. -/
def elapsed (now : Int) : Option Window :=
  [Window.minute, .quarter, .hour, .day].find? fun w => decide (w.period < now - s.m_iter w)

/-- `UpdateTotle`. -/
def updateTotle (now : Int) : Engine :=
  match s.elapsed now with
  | none => s
  | some w =>
      if s.m_map_domain.entries = [] then s
      else
        { s with
          m_map_domain := s.m_map_domain.mapVals fun _ n => n.reset w
          m_iter := Function.update s.m_iter w now }

/-- The entry the scan comes to next. -/
def next (it : Nat) : Option (Nat × Mail) := s.m_map_mail.entries.find? fun e => decide (it ≤ e.1)

/-- `ScanList` at its next entry. -/
def scan (it : Nat) (now : Int) (known : Bool) : Engine :=
  match s.next it with
  | none => { s with phase := .update }
  | some (k, m) =>
      if m.node.status = .soft ∧ now - m.node.stime < 120 then { s with phase := .scan (k + 1) }
      else if m.node.status = .unsent ∨ m.node.status = .soft then
        { s with phase := if known then .prepared k else .template k 0 false }
      else { s with phase := .scan (k + 1) }

/-- `ScanList` behind the template. -/
def send (k : Nat) (now : Int) : Sending → Engine
  | .unfit => { s with phase := .scan (k + 1) }
  | .noDomain =>
      { s with
        m_map_mail :=
          s.m_map_mail.modify k (·.fail now "550 Mailbox not found,Domain not exist".toList)
        phase := .scan (k + 1) }
  | .noThread => { s with phase := .update }
  | .started =>
      { s with
        m_map_mail := s.m_map_mail.modify k (·.start)
        threads := k :: s.threads
        phase := .scan (k + 1) }

/-- `CheckTemplate` at the end of a try. -/
def checkTemplate (k i : Nat) (found : Bool) (now : Int) : Engine :=
  if found then { s with phase := .prepared k }
  else if i < 3 then { s with phase := .template k (i + 1) false }
  else
    { s with
      m_map_mail := s.m_map_mail.modify k (·.fail now "499 can't get template".toList)
      phase := .scan (k + 1) }

/-- `DeliverEngineApp::SendReport` up to the answer. -/
def sendReport (now : Int) (sent : Bool) : Engine :=
  if s.m_reportiterval ≤ now - s.m_iterval ∧ s.m_map_mail.entries ≠ [] then
    if sent then { s with phase := .answer s.reported false }
    else { s with m_iterval := now, phase := .totle }
  else { s with phase := .totle }

/-- `DeliverEngineApp::SendReport` behind the answer. -/
def endReport (vec : List (Nat × Char)) (iret : Bool) (now : Int) : Engine :=
  { (if iret then s.eraseMails vec else s) with m_iterval := now, phase := .totle }

/-- One step of the engine; `none` if it cannot be taken. -/
def step (s : Engine) : Event → Option Engine
  | .request =>
      match s.phase with
      | .request => some { s.mailListReq with phase := .response false }
      | _ => none
  | .notify stop now => if s.phase.parsing then some (s.handleNotifyMsg stop now) else none
  | .list mailnum mail =>
      if s.phase.parsing then
        (makeMailList mailnum mail).map fun nodes =>
          { nodes.foldl addMail s with phase := s.phase.parsed }
      else none
  | .answer iret template now =>
      match s.phase with
      | .response got =>
          if got && (!iret || template) then none
          else some { s with phase := if s.m_map_mail.entries = [] then .request else .scan 0 }
      | .template k i got =>
          if got && (!iret || template) then none
          else some (s.checkTemplate k i (iret && template) now)
      | .answer vec got =>
          if got && (!iret || template) then none else some (s.endReport vec iret now)
      | _ => none
  | .look now known =>
      match s.phase with
      | .scan it => some (s.scan it now known)
      | _ => none
  | .send now o =>
      match s.phase with
      | .prepared k => some (s.send k now o)
      | _ => none
  | .result k r =>
      if k ∈ s.threads then
        some { s with threads := s.threads.erase k, m_map_mail_tmp := s.m_map_mail_tmp.set k r }
      else none
  | .update =>
      match s.phase with
      | .update => some { s.updateList with phase := .report }
      | _ => none
  | .report now sent =>
      match s.phase with
      | .report => some (s.sendReport now sent)
      | _ => none
  | .totle now =>
      match s.phase with
      | .totle => some { s.updateTotle now with phase := .request }
      | _ => none

/-- The engine takes a step. -/
def Steps (s : Engine) (e : Event) (s' : Engine) : Prop := s.step e = some s'

end Engine

end Edm.Deliver
