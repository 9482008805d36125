import Edm.LableManager.EpollOutput
import Edm.LableManager.Request
import Edm.LableManager.ThreadPool
import Edm.Support.Places
import Edm.Support.Run

/-!
# LableManager — Contexts

The life of the connections of the label manager.  The thread of `epoll_engine` makes a context for
each, and reads its request; then a worker has it, asks the database with one of the handles of
`mysql_queue`, responds and deletes it.  The imports have handles from the same queue.

* `owned_run`: unless a `send` fails, every context that was made is in one place at any moment: epoll
  watches it, it is in the queue, one worker has it, or it was cleaned up, once; and nobody uses one
  that is deleted.
* `handles_run`: so is every handle, and none is lost: at rest they are in the queue, or closed.

The contexts and the handles are numbered as they are made.
-/

namespace Edm.LableManager
open Support

/-! ### The state -/

/-- A `task_context_t` with its socket. -/
structure Connection where
  tctx : TaskContext
  mysql : Option Nat
  sendbuf : Option Text

/-- Where a worker is in `thread_task_process`, and with which context. -/
inductive Job where
  | idle
  | has (k : Nat)
  /-- It has a handle. -/
  | connected (k : Nat)
  | answered (k : Nat)
  deriving DecidableEq

namespace Job

def context : Job → Option Nat
  | idle => none
  | has k | connected k | answered k => some k

end Job

/-- The label manager with workers `W` and threads `V` that import. -/
structure Manager (W V : Type*) where
  contexts : Nat → Option Connection
  /-- The sockets that epoll watches. -/
  watched : Nat → Bool
  accepted : Nat
  /-- The calls of `cleanup_task_context`. -/
  cleaned : Nat → Nat
  /-- A context that is deleted was used. -/
  misused : Bool
  work_thread_queue : ThreadPool Nat
  jobs : W → Job
  mysql_queue : List Nat
  imports : V → Option Nat
  connections : Nat
  closed : List Nat

namespace Manager
variable {W V : Type*} (m : Manager W V)

/-- The pool is started, and `init_mysql_queue` has made connections. -/
def start (connections : Nat) : Manager W V where
  contexts _ := none
  watched _ := false
  accepted := 0
  cleaned _ := 0
  misused := false
  work_thread_queue := ⟨[], true⟩
  jobs _ := .idle
  mysql_queue := List.range connections
  imports _ := none
  connections := connections
  closed := []

/-- A thread writes to a context. -/
def write (k : Nat) (f : Connection → Connection) : Manager W V :=
  match m.contexts k with
  | none => { m with misused := true }
  | some c => { m with contexts := Function.update m.contexts k (some (f c)) }

/-- `cleanup_task_context`: the socket is closed, and so not watched any more, the handle is put
back, and the context deleted. -/
def cleanup (k : Nat) : Manager W V :=
  match m.contexts k with
  | none => { m with
      misused := true
      cleaned := Function.update m.cleaned k (m.cleaned k + 1) }
  | some c => { m with
      contexts := Function.update m.contexts k none
      watched := Function.update m.watched k false
      mysql_queue := m.mysql_queue ++ c.mysql.toList
      cleaned := Function.update m.cleaned k (m.cleaned k + 1) }

/-- `epoll_accept`; `added` says that epoll takes the socket. -/
def accept (added : Bool) : Manager W V :=
  let k := m.accepted
  let m := { m with
    contexts := Function.update m.contexts k (some ⟨.accepted, none, none⟩)
    watched := Function.update m.watched k added
    accepted := k + 1 }
  if added then m else m.cleanup k

/-- `epoll_input`, and what `epoll_engine` does when it returns -1. -/
def input (k : Nat) (s : List Arrival) (others : Bool) : Manager W V :=
  match m.contexts k with
  | none => { m with misused := true }
  | some c =>
      match epollInput c.tctx s others with
      | (.handed, tctx) =>
          { m.write k fun c => { c with tctx := tctx } with
            watched := Function.update m.watched k false
            work_thread_queue := m.work_thread_queue.run k }
      | (.fails, tctx) => (m.write k fun c => { c with tctx := tctx }).cleanup k
      | (_, tctx) => m.write k fun c => { c with tctx := tctx }

end Manager

/-- What a thread does next. -/
inductive Deed (W V : Type*) where
  | accept (added : Bool)
  /-- `s` has arrived for a socket that epoll watches; an import may have set the flag meanwhile. -/
  | input (k : Nat) (s : List Arrival) (others : Bool)
  | take (w : W)
  /-- The worker has a handle from `mysql_queue`; if `mysql_ping` fails, it is closed, and perhaps
  replaced. -/
  | connect (w : W) (alive replaced : Bool)
  /-- `task_process_imp` is through. -/
  | answer (w : W) (sendbuf : Option Text)
  /-- The end of `thread_task_process`. -/
  | finish (w : W) (results : List Sent)
  | borrow (v : V)
  | giveBack (v : V)

namespace Manager
variable {W V : Type*} [DecidableEq W] [DecidableEq V] (m : Manager W V)

/-- A worker goes on. -/
def job (w : W) (j : Job) : Manager W V := { m with jobs := Function.update m.jobs w j }

/-- The end of `thread_task_process`, with the context; none while `send` is still to come. -/
def finish (k : Nat) (c : Connection) (results : List Sent) : Option (Manager W V) :=
  if c.tctx.request.method &&& HTTP_CLOSE ≠ 0 then some (m.cleanup k)
  else match epollOutput c.sendbuf [] results with
    | 0 => none
    | n => some ((fun m => cleanup m k)^[n] m)

def step : Deed W V → Option (Manager W V)
  | .accept added => some (m.accept added)
  | .input k s others => if m.watched k then some (m.input k s others) else none
  | .take w =>
      match m.jobs w, m.work_thread_queue.take with
      | .idle, (some k, pool) =>
          some (({ m with work_thread_queue := pool }.job w (.has k)).write k
            fun c => { c with sendbuf := none })
      | _, _ => none
  | .connect w alive replaced =>
      match m.jobs w, m.mysql_queue with
      | .has k, h :: rest =>
          if alive then
            some (({ m with mysql_queue := rest }.job w (.connected k)).write k
              fun c => { c with mysql := some h })
          else if replaced then
            some { m with
              closed := h :: m.closed
              mysql_queue := rest ++ [m.connections]
              connections := m.connections + 1 }
          else some { m with closed := h :: m.closed, mysql_queue := rest }
      | _, _ => none
  | .answer w sendbuf =>
      match m.jobs w with
      | .has k | .connected k =>
          some ((m.job w (.answered k)).write k fun c => { c with sendbuf := sendbuf })
      | _ => none
  | .finish w results =>
      match m.jobs w with
      | .answered k =>
          match m.contexts k with
          | none => some { m.job w .idle with misused := true }
          | some c => (m.job w .idle).finish k c results
      | _ => none
  | .borrow v =>
      match m.imports v, m.mysql_queue with
      | none, h :: rest =>
          some { m with mysql_queue := rest, imports := Function.update m.imports v (some h) }
      | _, _ => none
  | .giveBack v =>
      match m.imports v with
      | some h => some { m with
          mysql_queue := m.mysql_queue ++ [h]
          imports := Function.update m.imports v none }
      | none => none

end Manager

/-- A context whose lock is free, and which has no request yet: `epoll_input` waits, hands it over or
gives it up. -/
theorem epollInput_cases {tctx : TaskContext} (hlock : tctx.synlock = false)
    (hmethod : tctx.request.method = HTTP_NULL) (s : List Arrival) (others : Bool) : ∃ r tctx',
    epollInput tctx s others = (r, tctx') ∧
      ((r = .waits ∧ tctx'.synlock = false ∧ tctx'.request = tctx.request) ∨
        (r = .handed ∧ tctx'.synlock = true) ∨ r = .fails) := by
  unfold epollInput
  rw [if_neg (by simp [hlock])]
  obtain ⟨ret, recvbuf, s'⟩ := ScanLog.recvUntilEdge s tctx.recvbuf ScanLog.MAX_LENGTH
  dsimp only
  by_cases hret : ret < 0
  · rw [if_pos hret, if_pos hmethod]
    exact ⟨_, _, rfl, .inr (.inr rfl)⟩
  · rw [if_neg hret]
    by_cases hline : '\n' ∉ recvbuf
    · rw [if_pos hline]
      split
      · exact ⟨_, _, rfl, .inr (.inr rfl)⟩
      · exact ⟨_, _, rfl, .inl ⟨rfl, rfl, rfl⟩⟩
    · rw [if_neg hline]
      split
      · exact ⟨_, _, rfl, .inr (.inr rfl)⟩
      · split
        · exact ⟨_, _, rfl, .inr (.inr rfl)⟩
        · exact ⟨_, _, rfl, .inr (.inl ⟨rfl, rfl⟩)⟩

/-- A `send` that fails, so that the connection is cleaned up twice. -/
def Sent.Fails (r : Sent) : Prop := ¬ r.GoesOn ∧ r ≠ .fails EAGAIN

theorem fails_of_epollOutput {sendbuf : Option Text} {results : List Sent}
    (h : 1 < epollOutput sendbuf [] results) : ∃ r ∈ results, r.Fails := by
  cases sendbuf with
  | none => exact absurd h (Nat.lt_irrefl 1)
  | some sendbuf =>
      have hcleanups : 1 < cleanups (sendLoop sendbuf [] results).left := h
      rcases sendLoop_stops results [] sendbuf with hleft | ⟨hleft, -⟩ | ⟨r, hr, hmeets⟩
      · rw [List.nil_append] at hleft
        rw [hleft] at hcleanups
        exact absurd hcleanups (by decide)
      · rw [List.nil_append] at hleft
        rw [hleft] at hcleanups
        exact absurd hcleanups (by decide)
      · obtain ⟨before, after, hsplit, -, -⟩ := id hmeets
        refine ⟨r, by rw [hsplit]; simp, hr, ?_⟩
        rintro rfl
        have hleft := (@sendLoop_of_meets _ hr _ [] _ hmeets).1
        rw [List.nil_append, if_pos rfl] at hleft
        rw [hleft] at hcleanups
        exact absurd hcleanups (by decide)

/-- The deed has a `send` that fails. -/
def Deed.Fails {W V : Type*} : Deed W V → Prop
  | .finish _ results => ∃ r ∈ results, r.Fails
  | _ => False

instance : DecidablePred Sent.Fails
  | .takes room => inferInstanceAs (Decidable (¬ 0 < room ∧ Sent.takes room ≠ .fails EAGAIN))
  | .fails errno =>
      inferInstanceAs (Decidable (¬ errno = EINTR ∧ Sent.fails errno ≠ .fails EAGAIN))

instance {W V : Type*} : DecidablePred (Deed.Fails (W := W) (V := V))
  | .finish _ results => inferInstanceAs (Decidable (∃ r ∈ results, r.Fails))
  | .accept _ | .input _ _ _ | .take _ | .connect _ _ _ | .answer _ _ | .borrow _ | .giveBack _ =>
      inferInstanceAs (Decidable False)

/-! ### The places -/

/-- Where a context is. -/
inductive Place (W : Type*) where
  | watched | queued
  | worker (w : W)
  | cleaned

/-- Where a handle is. -/
inductive HandlePlace (V : Type*) where
  | queued
  | context (k : Nat)
  | importer (v : V)
  | closed

namespace Manager
variable {W V : Type*} (m : Manager W V)

def At (k : Nat) : Place W → Prop
  | .watched => m.watched k = true
  | .queued => k ∈ m.work_thread_queue.queue_
  | .worker w => (m.jobs w).context = some k
  | .cleaned => 0 < m.cleaned k

def HandleAt (h : Nat) : HandlePlace V → Prop
  | .queued => h ∈ m.mysql_queue
  | .context k => (m.contexts k).bind Connection.mysql = some h
  | .importer v => m.imports v = some h
  | .closed => h ∈ m.closed

/-- A context is as its place says: its lock is free while epoll watches it, and it gets a handle
from its worker. -/
def Fits (k : Nat) : Place W → Prop
  | .watched => ∃ c, m.contexts k = some c ∧ c.tctx.synlock = false ∧
      c.tctx.request.method = HTTP_NULL ∧ c.mysql = none
  | .queued => ∃ c, m.contexts k = some c ∧ c.tctx.synlock = true ∧ c.mysql = none
  | .worker w => ∃ c, m.contexts k = some c ∧ c.tctx.synlock = true ∧
      (m.jobs w = .has k → c.mysql = none)
  | .cleaned => m.contexts k = none

/-- Every context is in one place. -/
structure Owned : Prop where
  placed : Placed (· < m.accepted) m.At
  nodup : m.work_thread_queue.queue_.Nodup
  fits : ∀ k p, m.At k p → m.Fits k p
  fresh : ∀ k, m.accepted ≤ k → m.contexts k = none

/-- Every handle is in one place. -/
structure Handled : Prop where
  placed : Placed (· < m.connections) m.HandleAt
  nodup : m.mysql_queue.Nodup

variable {m}

/-! ### What a step is -/

theorem write_of_live {k : Nat} {c : Connection} (hc : m.contexts k = some c)
    (f : Connection → Connection) :
    m.write k f = { m with contexts := Function.update m.contexts k (some (f c)) } := by
  rw [write, hc]

theorem cleanup_of_live {k : Nat} {c : Connection} (hc : m.contexts k = some c) :
    m.cleanup k = { m with
      contexts := Function.update m.contexts k none
      watched := Function.update m.watched k false
      mysql_queue := m.mysql_queue ++ c.mysql.toList
      cleaned := Function.update m.cleaned k (m.cleaned k + 1) } := by
  rw [cleanup, hc]

/-- A context that is cleaned up once and `n` times more. -/
def deleted (m : Manager W V) (k : Nat) (c : Connection) (n : Nat) : Manager W V := { m with
  contexts := Function.update m.contexts k none
  watched := Function.update m.watched k false
  mysql_queue := m.mysql_queue ++ c.mysql.toList
  cleaned := Function.update m.cleaned k (m.cleaned k + (n + 1))
  misused := m.misused || decide (0 < n) }

theorem cleanup_eq_deleted {k : Nat} {c : Connection} (hc : m.contexts k = some c) :
    m.cleanup k = m.deleted k c 0 := by
  rw [cleanup_of_live hc, deleted]
  simp

theorem iterate_cleanup {k : Nat} {c : Connection} (hc : m.contexts k = some c) (n : Nat) :
    (fun m => cleanup m k)^[n + 1] m = m.deleted k c n := by
  induction n with
  | zero => exact cleanup_eq_deleted hc
  | succ n ih =>
      rw [Function.iterate_succ_apply', ih]
      unfold cleanup deleted
      simp only [Function.update_self, Function.update_idem, Nat.zero_lt_succ]
      simp
      rfl

variable [DecidableEq W] [DecidableEq V]

/-- What a step makes of the label manager; `fails` is what a `send` that fails is known by. -/
inductive Went (m : Manager W V) (fails : Prop) : Manager W V → Prop
  | accepted : Went m fails { m with
      contexts := Function.update m.contexts m.accepted (some ⟨.accepted, none, none⟩)
      watched := Function.update m.watched m.accepted true
      accepted := m.accepted + 1 }
  | refused : Went m fails ({ m with accepted := m.accepted + 1 }.deleted m.accepted
      ⟨.accepted, none, none⟩ 0)
  | waited {k : Nat} {c : Connection} (tctx : TaskContext) (hk : m.watched k = true)
      (hc : m.contexts k = some c) (hlock : tctx.synlock = false)
      (hmethod : tctx.request.method = HTTP_NULL) :
      Went m fails { m with contexts := Function.update m.contexts k (some { c with tctx := tctx }) }
  | handed {k : Nat} {c : Connection} (tctx : TaskContext) (hk : m.watched k = true)
      (hc : m.contexts k = some c) (hlock : tctx.synlock = true) :
      Went m fails { m with
        contexts := Function.update m.contexts k (some { c with tctx := tctx })
        watched := Function.update m.watched k false
        work_thread_queue := m.work_thread_queue.run k }
  | failed {k : Nat} {c : Connection} (hk : m.watched k = true) (hc : m.contexts k = some c) :
      Went m fails (m.deleted k c 0)
  | taken {w : W} {k : Nat} {c : Connection} {rest : List Nat} (hw : m.jobs w = .idle)
      (hqueue : m.work_thread_queue.queue_ = k :: rest) (hc : m.contexts k = some c) :
      Went m fails { m.job w (.has k) with
        work_thread_queue := { m.work_thread_queue with queue_ := rest }
        contexts := Function.update m.contexts k (some { c with sendbuf := none }) }
  | connected {w : W} {k : Nat} {c : Connection} {h : Nat} {rest : List Nat}
      (hw : m.jobs w = .has k) (hqueue : m.mysql_queue = h :: rest) (hc : m.contexts k = some c) :
      Went m fails { m.job w (.connected k) with
        mysql_queue := rest
        contexts := Function.update m.contexts k (some { c with mysql := some h }) }
  | closed {h : Nat} {rest : List Nat} (hqueue : m.mysql_queue = h :: rest) :
      Went m fails { m with closed := h :: m.closed, mysql_queue := rest }
  | replaced {h : Nat} {rest : List Nat} (hqueue : m.mysql_queue = h :: rest) :
      Went m fails { m with
        closed := h :: m.closed
        mysql_queue := rest ++ [m.connections]
        connections := m.connections + 1 }
  | answered {w : W} {k : Nat} {c : Connection} (sendbuf : Option Text)
      (hw : m.jobs w = .has k ∨ m.jobs w = .connected k) (hc : m.contexts k = some c) :
      Went m fails { m.job w (.answered k) with
        contexts := Function.update m.contexts k (some { c with sendbuf := sendbuf }) }
  | finished {w : W} {k : Nat} {c : Connection} (n : Nat) (hw : m.jobs w = .answered k)
      (hc : m.contexts k = some c) (hn : 0 < n → fails) :
      Went m fails ((m.job w .idle).deleted k c n)
  | borrowed {v : V} {h : Nat} {rest : List Nat} (hv : m.imports v = none)
      (hqueue : m.mysql_queue = h :: rest) : Went m fails { m with
        mysql_queue := rest
        imports := Function.update m.imports v (some h) }
  | givenBack {v : V} {h : Nat} (hv : m.imports v = some h) : Went m fails { m with
      mysql_queue := m.mysql_queue ++ [h]
      imports := Function.update m.imports v none }

omit [DecidableEq W] [DecidableEq V] in
/-- The context of a worker is there. -/
theorem Owned.live (h : Owned m) {k : Nat} {p : Place W} (hk : m.At k p) (hp : p ≠ .cleaned) :
    ∃ c, m.contexts k = some c := by
  have hfits := h.fits k p hk
  cases p with
  | cleaned => exact absurd rfl hp
  | watched | queued | worker w =>
      obtain ⟨c, hc, -⟩ := hfits
      exact ⟨c, hc⟩

theorem went (h : Owned m) {d : Deed W V} {m' : Manager W V} (hs : m.step d = some m') :
    Went m d.Fails m' := by
  cases d with
  | accept added =>
      obtain rfl := Option.some.inj hs
      unfold accept
      cases added with
      | true => exact .accepted
      | false =>
          dsimp only
          rw [if_neg (by simp), cleanup_eq_deleted (Function.update_self _ _ _)]
          have hrefused : Went m (Deed.Fails (.accept false : Deed W V)) _ := .refused
          unfold deleted at hrefused ⊢
          simpa using hrefused
  | input k s others =>
      dsimp only [step] at hs
      split at hs
      next hk =>
        obtain rfl := Option.some.inj hs
        obtain ⟨c, hc, hlock, hmethod, -⟩ := h.fits k .watched hk
        obtain ⟨r, tctx, hinput, hcases⟩ := epollInput_cases hlock hmethod s others
        unfold input
        rw [hc]
        dsimp only
        rw [hinput]
        rcases hcases with ⟨rfl, hlock, hreq⟩ | ⟨rfl, hlock⟩ | rfl
        · dsimp only
          rw [write_of_live hc]
          exact .waited tctx hk hc hlock (by rw [hreq, hmethod])
        · dsimp only
          rw [write_of_live hc]
          exact .handed tctx hk hc hlock
        · dsimp only
          rw [write_of_live hc, cleanup_eq_deleted (Function.update_self _ _ _)]
          have hfailed : Went m (Deed.Fails (.input k s others : Deed W V)) _ := .failed hk hc
          unfold deleted at hfailed ⊢
          simpa using hfailed
      next => cases hs
  | take w =>
      dsimp only [step] at hs
      split at hs
      next k pool hw htake =>
        obtain rfl := Option.some.inj hs
        unfold ThreadPool.take at htake
        split at htake
        next => cases htake
        next k' rest hqueue =>
          cases htake
          obtain ⟨c, hc⟩ := h.live (p := .queued)
            (by rw [At, hqueue]; exact List.mem_cons_self) (by simp)
          unfold write
          dsimp only [job]
          rw [hc]
          exact .taken hw hqueue hc
      next => cases hs
  | connect w alive replaced =>
      dsimp only [step] at hs
      split at hs
      next k handle rest hw hqueue =>
        cases alive with
        | true =>
            obtain ⟨c, hc⟩ := h.live (p := .worker w) (by rw [At, hw]; rfl) (by simp)
            rw [if_pos rfl] at hs
            unfold write at hs
            dsimp only [job] at hs
            rw [hc] at hs
            obtain rfl := Option.some.inj hs
            exact .connected hw hqueue hc
        | false =>
            rw [if_neg (by simp)] at hs
            cases replaced with
            | true =>
                rw [if_pos rfl] at hs
                obtain rfl := Option.some.inj hs
                exact .replaced hqueue
            | false =>
                rw [if_neg (by simp)] at hs
                obtain rfl := Option.some.inj hs
                exact .closed hqueue
      next => cases hs
  | answer w sendbuf =>
      dsimp only [step] at hs
      split at hs
      next k hw =>
        obtain ⟨c, hc⟩ := h.live (p := .worker w) (by rw [At, hw]; rfl) (by simp)
        rw [write_of_live (m := m.job w (.answered k)) hc] at hs
        obtain rfl := Option.some.inj hs
        exact .answered sendbuf (.inl hw) hc
      next k hw =>
        obtain ⟨c, hc⟩ := h.live (p := .worker w) (by rw [At, hw]; rfl) (by simp)
        rw [write_of_live (m := m.job w (.answered k)) hc] at hs
        obtain rfl := Option.some.inj hs
        exact .answered sendbuf (.inr hw) hc
      next => cases hs
  | finish w results =>
      dsimp only [step] at hs
      split at hs
      next k hw =>
        obtain ⟨c, hc⟩ := h.live (p := .worker w) (by rw [At, hw]; rfl) (by simp)
        rw [hc] at hs
        dsimp only [finish] at hs
        split at hs
        next =>
          obtain rfl := Option.some.inj hs
          rw [cleanup_eq_deleted (m := m.job w .idle) hc]
          exact .finished 0 hw hc fun hlt => absurd hlt (Nat.lt_irrefl 0)
        next =>
          split at hs
          next => cases hs
          next hne =>
            obtain ⟨n, hn⟩ := Nat.exists_eq_succ_of_ne_zero hne
            rw [hn] at hs
            obtain rfl := Option.some.inj hs
            rw [iterate_cleanup (m := m.job w .idle) hc]
            exact .finished n hw hc fun hlt =>
              @fails_of_epollOutput c.sendbuf _ (by omega)
      next => cases hs
  | borrow v =>
      dsimp only [step] at hs
      split at hs
      next handle rest hv hqueue =>
        obtain rfl := Option.some.inj hs
        exact .borrowed hv hqueue
      next => cases hs
  | giveBack v =>
      dsimp only [step] at hs
      split at hs
      next handle hv =>
        obtain rfl := Option.some.inj hs
        exact .givenBack hv
      next => cases hs

/-! ### Every context is in one place -/

omit [DecidableEq W] [DecidableEq V] in
theorem Owned.start (connections : Nat) : Owned (start connections : Manager W V) where
  placed := ⟨fun _ hk => absurd hk (Nat.not_lt_zero _), fun k _ p hp => by
    cases p with
    | watched | queued | worker w => cases hp
    | cleaned => exact absurd hp (Nat.lt_irrefl 0)⟩
  nodup := List.nodup_nil
  fits k p hp := by
    cases p with
    | watched | queued | worker w => cases hp
    | cleaned => rfl
  fresh _ _ := rfl

omit [DecidableEq W] [DecidableEq V] in
theorem Owned.known (h : Owned m) {k : Nat} {p : Place W} (hk : m.At k p) : k < m.accepted :=
  h.placed.known_of hk

omit [DecidableEq W] [DecidableEq V] in
/-- One context is moved, or changed in its place; the others stay as they are. -/
theorem Owned.move (h : Owned m) {m' : Manager W V} {k : Nat} {p : Place W}
    (hat : Moves m.At m'.At k p) (hfits : m'.Fits k p)
    (hnodup : m'.work_thread_queue.queue_.Nodup)
    (haccepted : m'.accepted = m.accepted ∨ k = m.accepted ∧ m'.accepted = m.accepted + 1)
    (hk : k < m'.accepted) (hcontexts : ∀ k', k' ≠ k → m'.contexts k' = m.contexts k')
    (hjobs : ∀ w, (m'.jobs w).context ≠ some k → (m'.jobs w).context ≠ none →
      m'.jobs w = m.jobs w) : Owned m' := by
  refine ⟨h.placed.move hat fun k' => ?_, hnodup, fun k' q hq => ?_, fun k' hk' => ?_⟩
  · rcases haccepted with heq | ⟨rfl, heq⟩
    · omega
    · omega
  · by_cases hkk : k' = k
    · subst hkk
      rw [(hat.here q).mp hq]
      exact hfits
    · have hold := h.fits k' q ((hat.others k' hkk q).mp hq)
      cases q with
      | watched | queued | cleaned => simpa only [Fits, hcontexts k' hkk] using hold
      | worker w =>
          have hw : (m'.jobs w).context = some k' := hq
          have hjob := hjobs w (by rw [hw]; simpa using hkk) (by rw [hw]; simp)
          simpa only [Fits, hcontexts k' hkk, hjob] using hold
  · rw [hcontexts k' (by omega)]
    exact h.fresh k' (by omega)

omit [DecidableEq W] [DecidableEq V] in
/-- A context is cleaned up that is nowhere but with epoll. -/
theorem Moves.deleted {k : Nat} (hnot : ∀ q, q ≠ .watched → ¬ m.At k q) (c : Connection) (n : Nat) :
    Moves m.At (m.deleted k c n).At k .cleaned := by
  refine ⟨fun q => ?_, fun k' hk' q => ?_⟩
  · cases q with
    | watched => simp [At, Manager.deleted]
    | queued => exact iff_of_false (hnot .queued (by simp)) (by simp)
    | worker w => exact iff_of_false (hnot (.worker w) (by simp)) (by simp)
    | cleaned => simp [At, Manager.deleted]
  · cases q with
    | watched | cleaned => simp [At, Manager.deleted, Function.update_of_ne hk']
    | queued | worker w => exact Iff.rfl

omit [DecidableEq V] in
/-- A worker whose context is `k` goes on. -/
theorem Moves.job {w : W} {k : Nat} {j : Job} (hw : (m.jobs w).context = some k)
    (hj : j.context = some k) (h : Owned m) : Moves m.At (m.job w j).At k (.worker w) := by
  have hsame : ∀ k' q, (m.job w j).At k' q ↔ m.At k' q := by
    intro k' q
    cases q with
    | watched | queued | cleaned => exact Iff.rfl
    | worker u =>
        by_cases hu : u = w
        · subst hu
          simp [At, Manager.job, hw, hj]
        · simp [At, Manager.job, Function.update_of_ne hu]
  exact ⟨fun q => (hsame k q).trans (h.placed.iff_eq hw), fun k' _ q => hsame k' q⟩

omit [DecidableEq V] in
/-- The other workers stay where they are. -/
theorem job_of_ne {w u : W} {j : Job} (hu : ((m.job w j).jobs u).context ≠ j.context) :
    (m.job w j).jobs u = m.jobs u := by
  by_cases huw : u = w
  · subst huw
    simp [Manager.job] at hu
  · exact Function.update_of_ne huw _ _

theorem Owned.went (h : Owned m) {fails : Prop} {m' : Manager W V} (hw : Went m fails m') :
    Owned m' := by
  have hother : ∀ {k : Nat} {p q : Place W}, m.At k p → q ≠ p → ¬ m.At k q :=
    fun hp hq hat => hq (h.placed.unique hat hp)
  have hnew : ∀ q, ¬ m.At m.accepted q := h.placed.none m.accepted (Nat.lt_irrefl _)
  cases hw with
  | accepted =>
      refine h.move (k := m.accepted) (p := .watched) ⟨fun q => ?_, fun k' hk' q => ?_⟩
        ⟨_, Function.update_self _ _ _, rfl, rfl, rfl⟩ h.nodup (.inr ⟨rfl, rfl⟩)
        (Nat.lt_succ_self _) (fun k' hk' => Function.update_of_ne hk' _ _) (fun _ _ _ => rfl)
      · cases q with
        | watched => simp [At]
        | queued => exact iff_of_false (hnew .queued) (by simp)
        | worker w => exact iff_of_false (hnew (.worker w)) (by simp)
        | cleaned => exact iff_of_false (hnew .cleaned) (by simp)
      · cases q with
        | watched => simp [At, Function.update_of_ne hk']
        | queued | worker w | cleaned => exact Iff.rfl
  | refused =>
      exact h.move (Moves.deleted (m := { m with accepted := m.accepted + 1 }) (fun q _ => hnew q) _ 0)
        (Function.update_self _ _ _) h.nodup (.inr ⟨rfl, rfl⟩) (Nat.lt_succ_self _)
        (fun k' hk' => Function.update_of_ne hk' _ _) (fun _ _ _ => rfl)
  | @waited k c tctx hk hc hlock hmethod =>
      obtain ⟨c', hc', -, -, hmysql⟩ := h.fits k .watched hk
      obtain rfl := Option.some.inj (hc'.symm.trans hc)
      exact h.move (k := k) (p := .watched) ⟨fun q => h.placed.iff_eq hk, fun _ _ _ => Iff.rfl⟩
        ⟨_, Function.update_self _ _ _, hlock, hmethod, hmysql⟩ h.nodup (.inl rfl)
        (h.known (p := .watched) hk) (fun k' hk' => Function.update_of_ne hk' _ _)
        (fun _ _ _ => rfl)
  | @handed k c tctx hk hc hlock =>
      obtain ⟨c', hc', -, -, hmysql⟩ := h.fits k .watched hk
      obtain rfl := Option.some.inj (hc'.symm.trans hc)
      have hnot : ∀ q, q ≠ .watched → ¬ m.At k q := fun q hq => hother (p := .watched) hk hq
      refine h.move (k := k) (p := .queued) ⟨fun q => ?_, fun k' hk' q => ?_⟩
        ⟨_, Function.update_self _ _ _, hlock, hmysql⟩ ?_ (.inl rfl)
        (h.known (p := .watched) hk) (fun k' hk' => Function.update_of_ne hk' _ _)
        (fun _ _ _ => rfl)
      · cases q with
        | watched => simp [At]
        | queued => simp [At, ThreadPool.run]
        | worker w => exact iff_of_false (hnot (.worker w) (by simp)) (by simp)
        | cleaned => exact iff_of_false (hnot .cleaned (by simp)) (by simp)
      · cases q with
        | watched => simp [At, Function.update_of_ne hk']
        | queued => simp [At, ThreadPool.run, hk']
        | worker w | cleaned => exact Iff.rfl
      · exact List.nodup_append.mpr ⟨h.nodup, List.nodup_singleton k, fun a ha b hb => by
          rintro rfl
          rw [List.mem_singleton] at hb
          exact hnot .queued (by simp) (hb ▸ ha)⟩
  | @failed k c hk hc =>
      exact h.move (Moves.deleted (fun q hq => hother (p := .watched) hk hq) c 0)
        (Function.update_self _ _ _) h.nodup (.inl rfl) (h.known (p := .watched) hk)
        (fun k' hk' => Function.update_of_ne hk' _ _) (fun _ _ _ => rfl)
  | @taken w k c rest hw hqueue hc =>
      have hk : m.At k .queued := by
        rw [At, hqueue]
        exact List.mem_cons_self
      obtain ⟨c', hc', hlock, hmysql⟩ := h.fits k .queued hk
      obtain rfl := Option.some.inj (hc'.symm.trans hc)
      have hnodup := h.nodup
      rw [hqueue, List.nodup_cons] at hnodup
      have hnot : ∀ q, q ≠ .queued → ¬ m.At k q := fun q hq => hother hk hq
      refine h.move (k := k) (p := .worker w) ⟨fun q => ?_, fun k' hk' q => ?_⟩
        ⟨_, Function.update_self _ _ _, hlock, fun _ => hmysql⟩ hnodup.2 (.inl rfl)
        (h.known hk) (fun k' hk' => Function.update_of_ne hk' _ _) (fun u hu _ => ?_)
      · cases q with
        | watched => exact iff_of_false (hnot .watched (by simp)) (by simp)
        | queued => exact iff_of_false hnodup.1 (by simp)
        | worker u =>
            by_cases hu : u = w
            · subst hu
              simp [At, Manager.job, Job.context]
            · refine iff_of_false ?_ (by simpa using hu)
              simp only [At, Manager.job, Function.update_of_ne hu]
              exact hnot (.worker u) (by simp)
        | cleaned => exact iff_of_false (hnot .cleaned (by simp)) (by simp)
      · cases q with
        | watched | cleaned => exact Iff.rfl
        | queued => simp [At, hqueue, hk']
        | worker u =>
            by_cases hu : u = w
            · subst hu
              simp [At, Manager.job, Job.context, hw, Ne.symm hk']
            · simp [At, Manager.job, Function.update_of_ne hu]
      · by_cases huw : u = w
        · subst huw
          simp [Manager.job, Job.context] at hu
        · exact Function.update_of_ne huw _ _
  | @connected w k c handle rest hw hqueue hc =>
      have hk : m.At k (.worker w) := by rw [At, hw]; rfl
      obtain ⟨c', hc', hlock, -⟩ := h.fits k _ hk
      obtain rfl := Option.some.inj (hc'.symm.trans hc)
      exact h.move (Moves.job (j := .connected k) hk rfl h)
        ⟨_, Function.update_self _ _ _, hlock, fun hjob => by simp [Manager.job] at hjob⟩ h.nodup
        (.inl rfl) (h.known hk) (fun k' hk' => Function.update_of_ne hk' _ _)
        (fun u hu _ => job_of_ne hu)
  | closed hqueue => exact ⟨h.placed, h.nodup, h.fits, h.fresh⟩
  | replaced hqueue => exact ⟨h.placed, h.nodup, h.fits, h.fresh⟩
  | @answered w k c sendbuf hw hc =>
      have hk : m.At k (.worker w) := by
        rcases hw with hw | hw
        · rw [At, hw]; rfl
        · rw [At, hw]; rfl
      obtain ⟨c', hc', hlock, -⟩ := h.fits k _ hk
      obtain rfl := Option.some.inj (hc'.symm.trans hc)
      exact h.move (Moves.job (j := .answered k) hk rfl h)
        ⟨_, Function.update_self _ _ _, hlock, fun hjob => by simp [Manager.job] at hjob⟩ h.nodup
        (.inl rfl) (h.known hk) (fun k' hk' => Function.update_of_ne hk' _ _)
        (fun u hu _ => job_of_ne hu)
  | @finished w k c n hw hc hn =>
      have hk : m.At k (.worker w) := by rw [At, hw]; rfl
      have hnot : ∀ q, q ≠ .worker w → ¬ m.At k q := fun q hq => hother hk hq
      refine h.move (k := k) (p := .cleaned) ⟨fun q => ?_, fun k' hk' q => ?_⟩
        (Function.update_self _ _ _) h.nodup (.inl rfl) (h.known hk)
        (fun k' hk' => Function.update_of_ne hk' _ _) (fun u _ hu => job_of_ne hu)
      · cases q with
        | watched => simp [At, Manager.deleted]
        | queued => exact iff_of_false (hnot .queued (by simp)) (by simp)
        | worker u =>
            refine iff_of_false ?_ (by simp)
            by_cases hu : u = w
            · subst hu
              simp [At, Manager.deleted, Manager.job, Job.context]
            · simp only [At, Manager.deleted, Manager.job, Function.update_of_ne hu]
              exact hnot (.worker u) (by simpa using hu)
        | cleaned => simp [At, Manager.deleted]
      · cases q with
        | watched | cleaned => simp [At, Manager.deleted, Manager.job, Function.update_of_ne hk']
        | queued => exact Iff.rfl
        | worker u =>
            by_cases hu : u = w
            · subst hu
              simp [At, Manager.deleted, Manager.job, Job.context, hw, Ne.symm hk']
            · simp [At, Manager.deleted, Manager.job, Function.update_of_ne hu]
  | borrowed hv hqueue => exact ⟨h.placed, h.nodup, h.fits, h.fresh⟩
  | givenBack hv => exact ⟨h.placed, h.nodup, h.fits, h.fresh⟩

/-! ### Nobody uses what is deleted -/

/-- No context was used behind its deletion, and none deleted twice. -/
structure Clean (m : Manager W V) : Prop where
  safe : m.misused = false
  once : ∀ k, m.cleaned k ≤ 1

theorem Clean.went (hc : Clean m) (h : Owned m) {fails : Prop} (hf : ¬ fails) {m' : Manager W V}
    (hw : Went m fails m') : Clean m' := by
  have hdeleted : ∀ {k : Nat} (c : Connection) {n : Nat}, ¬ m.At k .cleaned → (0 < n → fails) →
      Clean (m.deleted k c n) := by
    intro k c n hk hn
    obtain rfl : n = 0 := Nat.eq_zero_of_not_pos fun hpos => hf (hn hpos)
    refine ⟨by simp [deleted, hc.safe], fun k' => ?_⟩
    by_cases hk' : k' = k
    · subst hk'
      simp [deleted, Nat.eq_zero_of_not_pos hk]
    · simpa [deleted, Function.update_of_ne hk'] using hc.once k'
  cases hw with
  | refused =>
      have hclean := hdeleted ⟨.accepted, none, none⟩
        (h.placed.none m.accepted (Nat.lt_irrefl _) .cleaned) (fun hn => absurd hn (Nat.lt_irrefl 0))
      exact ⟨hclean.safe, hclean.once⟩
  | failed hk _ =>
      refine hdeleted _ (fun hat => ?_) (fun hn => absurd hn (Nat.lt_irrefl 0))
      have hk : m.At _ .watched := hk
      cases h.placed.unique hk hat
  | @finished w k c n hw _ hn =>
      have hk : m.At k (.worker w) := by rw [At, hw]; rfl
      have hclean := hdeleted (k := k) c (fun hat => by cases h.placed.unique hk hat) hn
      exact ⟨hclean.safe, hclean.once⟩
  | accepted | waited | handed | taken | connected | closed | replaced | answered | borrowed
  | givenBack => exact ⟨hc.safe, hc.once⟩

/-! ### Every handle is in one place -/

omit [DecidableEq W] [DecidableEq V] in
theorem Handled.start (connections : Nat) : Handled (start connections : Manager W V) where
  placed := by
    refine ⟨fun k hk => ⟨.queued, List.mem_range.mpr hk, fun p hp => ?_⟩, fun k hk p hp => ?_⟩
    · cases p with
      | queued => rfl
      | context | importer | closed => cases hp
    · cases p with
      | queued => exact hk (List.mem_range.mp hp)
      | context | importer | closed => cases hp
  nodup := List.nodup_range

omit [DecidableEq W] [DecidableEq V] in
/-- No handle is moved. -/
theorem Handled.congr (hh : Handled m) {m' : Manager W V}
    (hcontexts : ∀ k, (m'.contexts k).bind Connection.mysql = (m.contexts k).bind Connection.mysql)
    (hqueue : m'.mysql_queue = m.mysql_queue) (himports : m'.imports = m.imports)
    (hclosed : m'.closed = m.closed) (hconnections : m'.connections = m.connections) :
    Handled m' := by
  refine ⟨?_, by rw [hqueue]; exact hh.nodup⟩
  rw [hconnections]
  refine hh.placed.congr fun handle q => ?_
  cases q with
  | queued => rw [HandleAt, HandleAt, hqueue]
  | context k => rw [HandleAt, HandleAt, hcontexts]
  | importer v => rw [HandleAt, HandleAt, himports]
  | closed => rw [HandleAt, HandleAt, hclosed]

omit [DecidableEq W] [DecidableEq V] in
/-- The first handle of the queue is taken to `p`. -/
theorem Handled.pop (hh : Handled m) {handle : Nat} {rest : List Nat}
    (hqueue : m.mysql_queue = handle :: rest) {m' : Manager W V} {p : HandlePlace V}
    (hqueue' : m'.mysql_queue = rest) (hp : p ≠ .queued) (hothers : ∀ q, q ≠ .queued → ∀ h',
      m'.HandleAt h' q ↔ m.HandleAt h' q ∨ (q = p ∧ h' = handle))
    (hconnections : m'.connections = m.connections) : Handled m' := by
  have hnodup := hh.nodup
  rw [hqueue, List.nodup_cons] at hnodup
  have hat : m.HandleAt handle .queued := by
    rw [HandleAt, hqueue]
    exact List.mem_cons_self
  refine ⟨hh.placed.move (k := handle) (p := p) ⟨fun q => ?_, fun h' hne q => ?_⟩ fun h' => ?_,
    by rw [hqueue']; exact hnodup.2⟩
  · by_cases hq : q = .queued
    · subst hq
      rw [HandleAt, hqueue']
      exact iff_of_false hnodup.1 (Ne.symm hp)
    · rw [hothers q hq, or_iff_right fun hold => hq (hh.placed.unique hold hat)]
      exact and_iff_left rfl
  · by_cases hq : q = .queued
    · subst hq
      rw [HandleAt, HandleAt, hqueue', hqueue, List.mem_cons, or_iff_right hne]
    · rw [hothers q hq, or_iff_left fun hnew => hne hnew.2]
  · rw [hconnections, or_iff_left_of_imp]
    rintro rfl
    exact hh.placed.known_of hat

omit [DecidableEq W] [DecidableEq V] in
/-- A handle is put behind the others. -/
theorem Handled.push (hh : Handled m) {handle : Nat} (hnew : ¬ m.HandleAt handle .queued)
    {m' : Manager W V} (hqueue' : m'.mysql_queue = m.mysql_queue ++ [handle])
    (hothers : ∀ q, q ≠ .queued → ∀ h', m'.HandleAt h' q ↔ m.HandleAt h' q ∧ h' ≠ handle)
    (hconnections : ∀ h', h' < m'.connections ↔ h' < m.connections ∨ h' = handle) :
    Handled m' := by
  refine ⟨hh.placed.move (k := handle) (p := .queued) ⟨fun q => ?_, fun h' hne q => ?_⟩
    hconnections, ?_⟩
  · by_cases hq : q = .queued
    · subst hq
      rw [HandleAt, hqueue']
      simp
    · rw [hothers q hq]
      exact iff_of_false (fun hold => hold.2 rfl) hq
  · by_cases hq : q = .queued
    · subst hq
      rw [HandleAt, HandleAt, hqueue', List.mem_append, List.mem_singleton, or_iff_left hne]
    · rw [hothers q hq]
      exact and_iff_left hne
  · rw [hqueue']
    exact List.nodup_append.mpr ⟨hh.nodup, List.nodup_singleton handle, fun a ha b hb => by
      rintro rfl
      rw [List.mem_singleton] at hb
      exact hnew (hb ▸ ha)⟩

theorem Handled.went (hh : Handled m) (h : Owned m) {fails : Prop} {m' : Manager W V}
    (hw : Went m fails m') : Handled m' := by
  have hsame : ∀ {k : Nat} {o : Option Connection},
      o.bind Connection.mysql = (m.contexts k).bind Connection.mysql → ∀ k',
        (Function.update m.contexts k o k').bind Connection.mysql
          = (m.contexts k').bind Connection.mysql := by
    intro k o ho k'
    by_cases hk' : k' = k
    · subst hk'
      rw [Function.update_self, ho]
    · rw [Function.update_of_ne hk']
  cases hw with
  | accepted =>
      exact hh.congr (hsame (by rw [h.fresh _ (Nat.le_refl _)]; rfl)) rfl rfl rfl rfl
  | refused =>
      exact hh.congr (hsame (by rw [h.fresh _ (Nat.le_refl _)])) (List.append_nil _) rfl rfl rfl
  | waited tctx hk hc => exact hh.congr (hsame (by rw [hc]; rfl)) rfl rfl rfl rfl
  | handed tctx hk hc => exact hh.congr (hsame (by rw [hc]; rfl)) rfl rfl rfl rfl
  | failed hk hc =>
      obtain ⟨c', hc', -, -, hmysql⟩ := h.fits _ .watched hk
      obtain rfl := Option.some.inj (hc'.symm.trans hc)
      refine hh.congr (hsame (by rw [hc, Option.bind_some, hmysql]; rfl)) ?_ rfl rfl rfl
      rw [deleted, hmysql]
      exact List.append_nil _
  | taken hw hqueue hc => exact hh.congr (hsame (by rw [hc]; rfl)) rfl rfl rfl rfl
  | @connected w k c handle rest hw hqueue hc =>
      have hk : m.At k (.worker w) := by rw [At, hw]; rfl
      obtain ⟨c', hc', -, hmysql⟩ := h.fits k _ hk
      obtain rfl := Option.some.inj (hc'.symm.trans hc)
      have hnone : (m.contexts k).bind Connection.mysql = none := by
        rw [hc, Option.bind_some, hmysql hw]
      refine hh.pop hqueue (p := .context k) rfl (by simp) (fun q hq h' => ?_) rfl
      cases q with
      | queued => exact absurd rfl hq
      | importer v | closed => simp [HandleAt, Manager.job]
      | context k' =>
          by_cases hk' : k' = k
          · subst hk'
            simp [HandleAt, hnone, eq_comm]
          · simp [HandleAt, hk']
  | @closed handle rest hqueue =>
      refine hh.pop hqueue (p := .closed) rfl (by simp) (fun q hq h' => ?_) rfl
      cases q with
      | queued => exact absurd rfl hq
      | importer v | context k => simp [HandleAt]
      | closed => simp [HandleAt, or_comm]
  | @replaced handle rest hqueue =>
      have hpop : Handled { m with closed := handle :: m.closed, mysql_queue := rest } := by
        refine hh.pop hqueue (p := .closed) rfl (by simp) (fun q hq h' => ?_) rfl
        cases q with
        | queued => exact absurd rfl hq
        | importer v | context k => simp [HandleAt]
        | closed => simp [HandleAt, or_comm]
      have hnone := hpop.placed.none m.connections (Nat.lt_irrefl _)
      refine hpop.push (hnone .queued) rfl (fun q hq h' => ?_)
        fun h' => Nat.lt_succ_iff_lt_or_eq
      have hsame : ∀ m' : Manager W V, m'.contexts = m.contexts → m'.imports = m.imports →
          m'.closed = handle :: m.closed → (m'.HandleAt h' q ↔ { m with
            closed := handle :: m.closed, mysql_queue := rest }.HandleAt h' q) := by
        intro m' hcontexts himports hclosed
        cases q with
        | queued => exact absurd rfl hq
        | context k => rw [HandleAt, HandleAt, hcontexts]
        | importer v => rw [HandleAt, HandleAt, himports]
        | closed => rw [HandleAt, HandleAt, hclosed]
      have hmoved := hsame { m with
        closed := handle :: m.closed
        mysql_queue := rest ++ [m.connections]
        connections := m.connections + 1 } rfl rfl rfl
      refine hmoved.trans (and_iff_left_of_imp ?_).symm
      rintro hold rfl
      exact hnone q hold
  | answered sendbuf hw hc => exact hh.congr (hsame (by rw [hc]; rfl)) rfl rfl rfl rfl
  | @finished w k c n hw hc hn =>
      cases hmysql : c.mysql with
      | none =>
          refine hh.congr (hsame (by rw [hc, Option.bind_some, hmysql]; rfl)) ?_ rfl rfl rfl
          rw [deleted, hmysql]
          exact List.append_nil _
      | some handle =>
          have hat : m.HandleAt handle (.context k) := by rw [HandleAt, hc, Option.bind_some, hmysql]
          refine hh.push (fun hq : m.HandleAt handle .queued => ?_) ?_ (fun q hq h' => ?_) fun h' => ?_
          · cases hh.placed.unique hq hat
          · rw [deleted, hmysql]
            rfl
          · have hne : q ≠ .context k → m.HandleAt h' q → h' ≠ handle := by
              rintro hqk hold rfl
              exact hqk (hh.placed.unique hold hat)
            cases q with
            | queued => exact absurd rfl hq
            | importer v | closed => exact (and_iff_left_of_imp (hne (by simp))).symm
            | context k' =>
                by_cases hk' : k' = k
                · subst hk'
                  simp [HandleAt, deleted, hc, hmysql, eq_comm]
                · have hsame : ((m.job w .idle).deleted k c n).HandleAt h' (.context k')
                      ↔ m.HandleAt h' (.context k') := by
                    simp [HandleAt, deleted, Manager.job, Function.update_of_ne hk']
                  rw [hsame]
                  exact (and_iff_left_of_imp (hne (by simpa using hk'))).symm
          · refine (or_iff_left_of_imp ?_).symm
            rintro rfl
            exact hh.placed.known_of hat
  | @borrowed v handle rest hv hqueue =>
      refine hh.pop hqueue (p := .importer v) rfl (by simp) (fun q hq h' => ?_) rfl
      cases q with
      | queued => exact absurd rfl hq
      | context k | closed => simp [HandleAt]
      | importer u =>
          by_cases hu : u = v
          · subst hu
            simp [HandleAt, hv, eq_comm]
          · simp [HandleAt, hu]
  | @givenBack v handle hv =>
      have hat : m.HandleAt handle (.importer v) := hv
      refine hh.push (fun hq : m.HandleAt handle .queued => ?_) rfl (fun q hq h' => ?_) fun h' => ?_
      · cases hh.placed.unique hq hat
      · have hne : q ≠ .importer v → m.HandleAt h' q → h' ≠ handle := by
          rintro hqv hold rfl
          exact hqv (hh.placed.unique hold hat)
        cases q with
        | queued => exact absurd rfl hq
        | context k | closed => exact (and_iff_left_of_imp (hne (by simp))).symm
        | importer u =>
            by_cases hu : u = v
            · subst hu
              simp [HandleAt, hv, eq_comm]
            · simpa [HandleAt, Function.update_of_ne hu] using hne (by simpa using hu)
      · refine (or_iff_left_of_imp ?_).symm
        rintro rfl
        exact hh.placed.known_of hat

/-! ### Over a run -/

/-- A step of any thread. -/
abbrev Steps (m : Manager W V) (d : Deed W V) (m' : Manager W V) : Prop := m.step d = some m'

/-- The steps with no `send` that fails. -/
abbrev SentSteps : Manager W V → Deed W V → Manager W V → Prop :=
  Guarded (fun _ d => ¬ d.Fails) Steps

theorem owned_and_clean {connections : Nat} {ds : List (Deed W V)}
    (hr : Run SentSteps (start connections) ds m) : Owned m ∧ Clean m :=
  hr.invariant (I := fun m => Owned m ∧ Clean m)
    (fun _ _ _ h hs => ⟨h.1.went (went h.1 hs.2), h.2.went h.1 hs.1 (went h.1 hs.2)⟩)
    ⟨.start connections, rfl, fun _ => Nat.zero_le 1⟩

theorem handled {connections : Nat} {ds : List (Deed W V)}
    (hr : Run SentSteps (start connections) ds m) : Owned m ∧ Handled m :=
  hr.invariant (I := fun m => Owned m ∧ Handled m)
    (fun _ _ _ h hs => ⟨h.1.went (went h.1 hs.2), h.2.went h.1 (went h.1 hs.2)⟩)
    ⟨.start connections, .start connections⟩

omit [DecidableEq W] [DecidableEq V] in
/-- A context with a handle is with a worker. -/
theorem Owned.worker_of_mysql (h : Owned m) {k handle : Nat} (hk : m.HandleAt handle (.context k)) :
    ∃ w, (m.jobs w).context = some k := by
  rw [HandleAt, Option.bind_eq_some_iff] at hk
  obtain ⟨c, hc, hmysql⟩ := hk
  have hknown : k < m.accepted := by
    by_contra hk
    rw [h.fresh k (Nat.le_of_not_lt hk)] at hc
    cases hc
  obtain ⟨p, hp, -⟩ := h.placed.one k hknown
  have hfits := h.fits k p hp
  have hnone : (∃ c', m.contexts k = some c' ∧ c'.mysql = none) → False := by
    rintro ⟨c', hc', hmysql'⟩
    obtain rfl := Option.some.inj (hc'.symm.trans hc)
    rw [hmysql] at hmysql'
    cases hmysql'
  cases p with
  | watched =>
      obtain ⟨c', hc', -, -, hmysql'⟩ := hfits
      exact (hnone ⟨c', hc', hmysql'⟩).elim
  | queued =>
      obtain ⟨c', hc', -, hmysql'⟩ := hfits
      exact (hnone ⟨c', hc', hmysql'⟩).elim
  | worker w => exact ⟨w, hp⟩
  | cleaned =>
      rw [Fits, hc] at hfits
      cases hfits

/-- Unless a `send` fails: every context is in one place, nobody uses one that is deleted, and none
is cleaned up twice. -/
theorem owned_run {connections : Nat} {ds : List (Deed W V)}
    (hr : Run SentSteps (start connections) ds m) :
    (∀ k < m.accepted, ∃! p, m.At k p) ∧ m.work_thread_queue.queue_.Nodup ∧ m.misused = false ∧
      ∀ k, m.cleaned k ≤ 1 :=
  have ⟨howned, hclean⟩ := owned_and_clean hr
  ⟨howned.placed.one, howned.nodup, hclean.safe, hclean.once⟩

/-- Two clients come, and the second goes away; the first one's request is answered, while an import
has the other handle. -/
def answerOne : List (Deed Unit Unit) :=
  [.accept true, .accept true, .input 0 [.piece "get /Query?Label=7 HTTP/1.1\r\n".toList] false,
    .input 1 [.failed] true, .take (), .borrow (), .connect () true false,
    .answer () (some "200".toList), .finish () [.takes 2, .fails EINTR, .takes 1]]

theorem answerOne_run : ∃ m : Manager Unit Unit, Run SentSteps (start 2) answerOne m := by
  have hsent : ∀ (_ : Manager Unit Unit) (d : Deed Unit Unit), decide (¬ d.Fails) = true → ¬ d.Fails :=
    fun _ _ => of_decide_eq_true
  exact ⟨_, .of_checked hsent (Option.some_get (by decide : Option.isSome _ = true)).symm⟩

theorem owned_run_answerOne : ∃ m : Manager Unit Unit, Run SentSteps (start 2) answerOne m ∧
    (∀ k < m.accepted, ∃! p, m.At k p) ∧ m.work_thread_queue.queue_.Nodup ∧ m.misused = false ∧
      ∀ k, m.cleaned k ≤ 1 :=
  have ⟨m, hr⟩ := answerOne_run
  ⟨m, hr, owned_run hr⟩

/-- Unless a `send` fails: every handle is in one place, and all that are not closed are in the
queue while no worker has a context and nothing is imported. -/
theorem handles_run {connections : Nat} {ds : List (Deed W V)}
    (hr : Run SentSteps (start connections) ds m) :
    (∀ handle < m.connections, ∃! p, m.HandleAt handle p) ∧ m.mysql_queue.Nodup ∧
      ((∀ w, m.jobs w = .idle) → (∀ v, m.imports v = none) →
        ∀ handle < m.connections, handle ∈ m.mysql_queue ∨ handle ∈ m.closed) := by
  have ⟨howned, hhandled⟩ := handled hr
  refine ⟨hhandled.placed.one, hhandled.nodup, fun hidle hnone handle hhandle => ?_⟩
  obtain ⟨p, hp, -⟩ := hhandled.placed.one handle hhandle
  cases p with
  | queued => exact .inl hp
  | closed => exact .inr hp
  | context k =>
      obtain ⟨w, hw⟩ := howned.worker_of_mysql hp
      rw [hidle w] at hw
      cases hw
  | importer v =>
      rw [HandleAt, hnone v] at hp
      cases hp

theorem handles_run_answerOne : ∃ m : Manager Unit Unit, Run SentSteps (start 2) answerOne m ∧
    (∀ handle < m.connections, ∃! p, m.HandleAt handle p) ∧ m.mysql_queue.Nodup ∧
      ((∀ w, m.jobs w = .idle) → (∀ v, m.imports v = none) →
        ∀ handle < m.connections, handle ∈ m.mysql_queue ∨ handle ∈ m.closed) :=
  have ⟨m, hr⟩ := answerOne_run
  ⟨m, hr, handles_run hr⟩

end Manager

end Edm.LableManager
