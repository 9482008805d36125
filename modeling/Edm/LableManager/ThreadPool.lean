import Edm.Support.Monitor
import Mathlib.Algebra.Order.Group.Multiset
import Mathlib.Tactic.Abel

/-!
# LableManager — ThreadPool

The requests of the label manager, and the imports they begin, wait in a `Thread_Pool` for a worker.
`run` puts a task behind the others, a worker takes the first one, and `stop` lets the workers leave.

Every task is in one place, the queue, a worker's hands or the past, and they leave the queue in the
order in which they came (`served_run`).  No worker sleeps when a task waits and nobody has been
told of it, nor when the pool is stopped (`woken_run`).
-/

namespace Edm.LableManager
open Support

/-- The fields that the mutex guards. -/
structure ThreadPool (α : Type*) where
  queue_ : List α
  running_ : Bool

namespace ThreadPool
variable {α : Type*} (p : ThreadPool α)

def stop : ThreadPool α := { p with running_ := false }

def run (task : α) : ThreadPool α := { p with queue_ := p.queue_ ++ [task] }

/-- `take`, behind its loop; it may find no task. -/
def take : Option α × ThreadPool α :=
  match p.queue_ with
  | [] => (none, p)
  | task :: rest => (some task, { p with queue_ := rest })

end ThreadPool

/-! ### The threads -/

/-- Where a thread is in `thread_svc`. -/
inductive Svc (α : Type*) where
  /-- At the condition of its loop. -/
  | looks
  | takes
  | has (task : α)
  /-- It is no worker, or not any more. -/
  | left

/-- The task in a worker's hands. -/
def Svc.held {α : Type*} : Svc α → Multiset α
  | .has task => {task}
  | .looks | .takes | .left => 0

/-- What a thread does. -/
inductive SvcCall (α : Type*) where
  | run (task : α)
  | stop
  | look
  | take
  /-- `thrfunc` returns. -/
  | finish

/-- The pool, where its threads are, the tasks it was given, those that workers took, and those that
are done. -/
structure Svcs (T α : Type*) where
  pool : ThreadPool α
  svc : T → Svc α
  given : List α
  taken : List α
  done : Multiset α

namespace Svcs
variable {T α : Type*} [DecidableEq T] (s : Svcs T α)

/-- `t` goes on. -/
def go (t : T) (svc : Svc α) : Svcs T α := { s with svc := Function.update s.svc t svc }

/-- `take`, from the condition of its loop on. -/
def take (t : T) : Section (Svcs T α) Unit Unit :=
  if s.pool.queue_ = [] ∧ s.pool.running_ = true then ⟨s, .nobody, some ()⟩
  else match s.pool.take with
    | (none, pool) => ⟨{ s with pool := pool }.go t .looks, .nobody, none⟩
    | (some task, pool) =>
        ⟨{ s with pool := pool, taken := s.taken ++ [task] }.go t (.has task), .nobody, none⟩

def enter (t : T) : SvcCall α → Section (Svcs T α) Unit Unit
  | .run task =>
      ⟨{ s with pool := s.pool.run task, given := s.given ++ [task] }, .one (), none⟩
  | .stop => ⟨{ s with pool := s.pool.stop }, .all (), none⟩
  | .look => ⟨s.go t (if s.pool.running_ = true then .takes else .left), .nobody, none⟩
  | .take => s.take t
  | .finish => ⟨{ s with done := s.done + (s.svc t).held }.go t .looks, .nobody, none⟩

/-- `start`: the workers are at the beginning of `thread_svc`. -/
def start (worker : T → Bool) : Svcs T α :=
  ⟨⟨[], true⟩, fun t => if worker t then .looks else .left, [], [], 0⟩

end Svcs

/-- Any thread runs tasks and stops the pool; a worker goes through `thread_svc`. -/
def svcMonitor (T α : Type*) [DecidableEq T] :
    Monitor T (Svcs T α) (SvcCall α) Unit Unit where
  may t c s :=
    match c, s.svc t with
    | .run _, _ | .stop, _ | .look, .looks | .take, .takes | .finish, .has _ => true
    | _, _ => false
  enter t c s := s.enter t c
  resume t _ _ s := s.take t
  cond _ := ()
  timed _ := false

/-! ### What a section does -/

namespace Svcs
variable {T α : Type*} [DecidableEq T] {s : Svcs T α} {t : T}

/-- `take` waits on an empty queue of a running pool, takes the first task, or finds none in a pool
that is stopped. -/
theorem take_cases (s : Svcs T α) (t : T) :
    (s.pool.queue_ = [] ∧ s.pool.running_ = true ∧ s.take t = ⟨s, .nobody, some ()⟩) ∨
    (∃ task rest, s.pool.queue_ = task :: rest ∧ s.take t =
      ⟨{ s with pool := ⟨rest, s.pool.running_⟩, taken := s.taken ++ [task] }.go t (.has task),
        .nobody, none⟩) ∨
    (s.pool.queue_ = [] ∧ s.pool.running_ = false ∧
      s.take t = ⟨s.go t .looks, .nobody, none⟩) := by
  unfold take ThreadPool.take
  cases hqueue : s.pool.queue_ with
  | nil =>
      by_cases hrun : s.pool.running_ = true
      · exact .inl ⟨rfl, hrun, if_pos ⟨rfl, hrun⟩⟩
      · exact .inr (.inr ⟨rfl, Bool.eq_false_iff.mpr hrun, if_neg fun h => hrun h.2⟩)
  | cons task rest =>
      refine .inr (.inl ⟨task, rest, rfl, ?_⟩)
      rw [if_neg (by simp)]

theorem may_cases {c : SvcCall α} (hc : (svcMonitor T α).may t c s = true) :
    (∃ task, c = .run task) ∨ c = .stop ∨ (c = .look ∧ s.svc t = .looks) ∨
      (c = .take ∧ s.svc t = .takes) ∨ (∃ task, c = .finish ∧ s.svc t = .has task) := by
  dsimp only [svcMonitor] at hc
  split at hc
  next => exact .inl ⟨_, rfl⟩
  next => exact .inr (.inl rfl)
  next ht => exact .inr (.inr (.inl ⟨rfl, ht⟩))
  next ht => exact .inr (.inr (.inr (.inl ⟨rfl, ht⟩)))
  next ht => exact .inr (.inr (.inr (.inr ⟨_, rfl, ht⟩)))
  next => cases hc

/-! ### Every task is in one place -/

/-- The tasks leave the queue in the order they came in, and who has left it is in a worker's hands
or done. -/
structure Served [Fintype T] (s : Svcs T α) : Prop where
  order : s.given = s.taken ++ s.pool.queue_
  places : (s.taken : Multiset α) = s.done + ∑ t, (s.svc t).held

variable [Fintype T]

omit [DecidableEq T] in
theorem Served.start (worker : T → Bool) : Served (.start worker : Svcs T α) := by
  refine ⟨rfl, ?_⟩
  have hheld : ∀ t, (if worker t then Svc.looks else .left : Svc α).held = 0 := by
    intro t
    split <;> rfl
  simp [Svcs.start, hheld]

/-- A thread goes on. -/
theorem Served.go (h : Served s) {s' : Svcs T α} {svc : Svc α}
    (hsvc : s'.svc = Function.update s.svc t svc) (horder : s'.given = s'.taken ++ s'.pool.queue_)
    (hplaces : (s'.taken : Multiset α) + s.done + (s.svc t).held = s.taken + s'.done + svc.held) :
    Served s' := by
  refine ⟨horder, ?_⟩
  have hsum := sum_update Svc.held s.svc t svc
  rw [← hsvc] at hsum
  refine add_right_cancel (b := s.done + (s.svc t).held) ?_
  calc (s'.taken : Multiset α) + (s.done + (s.svc t).held)
      = s.done + ∑ u, (s.svc u).held + s'.done + svc.held := by rw [← add_assoc, hplaces, h.places]
    _ = s.done + s'.done + (∑ u, (s.svc u).held + svc.held) := by abel
    _ = s'.done + ∑ u, (s'.svc u).held + (s.done + (s.svc t).held) := by
        rw [← hsum]
        abel

/-! ### A section -/

/-- What a section of `t` does; `paid` is 1 when the thread has been told of a task. -/
structure SvcSection (s : Svcs T α) (t : T) (paid : Nat) (sec : Section (Svcs T α) Unit Unit) :
    Prop where
  served : Served sec.shared
  others : ∀ u, u ≠ t → sec.shared.svc u = s.svc u
  running : sec.tells = .all () ∨ sec.shared.pool.running_ = s.pool.running_
  waits : ∀ w, sec.waits = some w → sec.shared.svc t = .takes ∧ sec.shared.pool.queue_ = [] ∧
    sec.shared.pool.running_ = true
  fair : Monitor.Fair () (fun s => s.pool.queue_.length) s paid sec

theorem SvcSection.take (h : Served s) (ht : s.svc t = .takes) {paid : Nat} (hpaid : paid ≤ 1) :
    SvcSection s t paid (s.take t) := by
  rcases take_cases s t with ⟨hqueue, hrun, htake⟩ | ⟨task, rest, hqueue, htake⟩ |
    ⟨hqueue, -, htake⟩
  · rw [htake]
    exact ⟨h, fun _ _ => rfl, .inr rfl, fun _ _ => ⟨ht, hqueue, hrun⟩,
      .inr (.inl (List.length_eq_zero_iff.mpr hqueue))⟩
  · rw [htake]
    refine ⟨h.go rfl ?_ ?_, fun u hu => Function.update_of_ne hu _ _, .inr rfl,
      fun w hw => (by cases hw), .inr (.inr ?_)⟩
    · dsimp only [Svcs.go]
      rw [h.order, hqueue, List.append_assoc, List.singleton_append]
    · rw [ht]
      dsimp only [Svcs.go, Svc.held]
      rw [← Multiset.coe_add, add_zero, add_right_comm]
      rfl
    · dsimp only [Svcs.go]
      rw [hqueue, List.length_cons]
      omega
  · rw [htake]
    refine ⟨h.go rfl h.order ?_, fun u hu => Function.update_of_ne hu _ _, .inr rfl,
      fun w hw => (by cases hw), .inr (.inl (List.length_eq_zero_iff.mpr hqueue))⟩
    rw [ht]
    rfl

theorem SvcSection.enter (h : Served s) {c : SvcCall α}
    (hc : (svcMonitor T α).may t c s = true) : SvcSection s t 0 (s.enter t c) := by
  rcases may_cases hc with ⟨task, rfl⟩ | rfl | ⟨rfl, ht⟩ | ⟨rfl, ht⟩ | ⟨task, rfl, ht⟩
  · refine ⟨⟨?_, h.places⟩, fun _ _ => rfl, .inr rfl, fun w hw => (by cases hw), .inr (.inr ?_)⟩
    · dsimp only [Svcs.enter, ThreadPool.run]
      rw [h.order, List.append_assoc]
    · dsimp only [Svcs.enter, ThreadPool.run]
      rw [List.length_append]
      exact Nat.le_refl _
  · exact ⟨⟨h.order, h.places⟩, fun _ _ => rfl, .inl rfl, fun w hw => (by cases hw), .inl rfl⟩
  · refine ⟨h.go rfl h.order ?_, fun u hu => Function.update_of_ne hu _ _, .inr rfl,
      fun w hw => (by cases hw), .inr (.inr (Nat.le_refl _))⟩
    rw [ht]
    dsimp only [Svcs.enter, Svcs.go]
    split <;> rfl
  · exact .take h ht (Nat.zero_le _)
  · refine ⟨h.go rfl h.order ?_, fun u hu => Function.update_of_ne hu _ _, .inr rfl,
      fun w hw => (by cases hw), .inr (.inr (Nat.le_refl _))⟩
    rw [ht]
    dsimp only [Svcs.enter, Svcs.go, Svc.held]
    rw [ht, add_zero, add_assoc]

end Svcs

/-! ### The runs -/

/-- The pool and its threads. -/
abbrev SvcHall (T α : Type*) := Hall T (Svcs T α) Unit

namespace SvcHall
variable {T α : Type*} [Fintype T] [DecidableEq T] {h h' : SvcHall T α}

/-- No thread is in a call. -/
def start (worker : T → Bool) : SvcHall T α := ⟨.start worker, fun _ => .out⟩

/-- Who waits is in `take`, and waits for a task that nobody has been told of in a pool that runs. -/
structure Inv (h : SvcHall T α) : Prop where
  served : h.shared.Served
  takes : ∀ t w, (h.threads t).under = some w → h.shared.svc t = .takes
  attended : Monitor.Attended (svcMonitor T α) () (fun s => s.pool.queue_.length) h
  running : ∀ t, (svcMonitor T α).sleeps () (h.threads t) = true → h.shared.pool.running_ = true

theorem Inv.start (worker : T → Bool) : Inv (.start worker : SvcHall T α) where
  served := .start worker
  takes _ _ ht := by cases ht
  attended _ ht := by cases ht
  running _ ht := by cases ht

theorem Inv.take (hi : Inv h) {t : T} {sec : Section (Svcs T α) Unit Unit} {ws : List T}
    (ht : (svcMonitor T α).sleeps () (h.threads t) = false)
    (hsec : h.shared.SvcSection t ((svcMonitor T α).told () (h.threads t)) sec)
    (hs : (svcMonitor T α).take h t sec ws = some h') : Inv h' := by
  obtain ⟨hws, htaken⟩ := Monitor.taken hs
  refine ⟨?_, fun u w hu => ?_, hi.attended.take ht (fun _ _ => hsec.fair) (fun w hw _ => ?_) hs,
    fun u hu => ?_⟩
  · rw [htaken.shared]
    exact hsec.served
  · rw [htaken.shared]
    by_cases hut : u = t
    · subst hut
      rw [htaken.self, Seat.under_behind] at hu
      exact (hsec.waits w hu).1
    · rw [hsec.others u hut]
      rw [htaken.others u hut] at hu
      split at hu
      · exact hi.takes u w (by rwa [Seat.under_wake] at hu)
      · exact hi.takes u w hu
  · rw [(hsec.waits w hw).2.1, List.length_nil]
  · rw [htaken.shared]
    by_cases hut : u = t
    · subst hut
      rw [htaken.self] at hu
      cases hwaits : sec.waits with
      | none =>
          rw [hwaits] at hu
          cases hu
      | some w => exact (hsec.waits w hwaits).2.2
    · obtain ⟨hnot, hu⟩ := Monitor.sleeps_taken htaken hut hu
      rcases hsec.running with hall | hrun
      · -- `stop` has woken everybody.
        rw [hall] at hws
        exact absurd ((hws u).mpr hu) hnot
      · rw [hrun]
        exact hi.running u hu

theorem Inv.step (hi : Inv h) {a : T × Turn T (SvcCall α)}
    (hs : (svcMonitor T α).step h a = some h') : Inv h' := by
  rcases Monitor.step_cases hs with ⟨c, ws, -, hseat, hmay, hs⟩ | ⟨ws, w, timedOut, -, hseat, hs⟩ |
    ⟨w, timedOut, -, hseat, -, rfl⟩
  · refine hi.take (by rw [hseat]; rfl) ?_ hs
    rw [hseat]
    exact .enter hi.served hmay
  · refine hi.take (by rw [hseat]; rfl) (.take hi.served (hi.takes _ w (by rw [hseat]; rfl)) ?_) hs
    rw [hseat]
    cases timedOut <;> simp [Monitor.told]
  · refine ⟨hi.served, fun u w' hu => ?_, hi.attended.wakes hseat timedOut, fun u hu => ?_⟩
    · by_cases hut : u = a.1
      · subst hut
        exact hi.takes _ w (by rw [hseat]; rfl)
      · dsimp only at hu
        rw [Function.update_of_ne hut] at hu
        exact hi.takes u w' hu
    · by_cases hut : u = a.1
      · subst hut
        exact hi.running _ (by rw [hseat]; rfl)
      · dsimp only at hu
        rw [Function.update_of_ne hut] at hu
        exact hi.running u hu

/-- **Every task is served once, in turn**: the tasks given to the pool are those the workers took,
in their order, and behind them the queue; what was taken is done or in a worker's hands. -/
theorem served_run {worker : T → Bool} {as : List (T × Turn T (SvcCall α))}
    (hrun : Run (svcMonitor T α).Steps (start worker) as h) :
    h.shared.given = h.shared.taken ++ h.shared.pool.queue_ ∧
      (h.shared.taken : Multiset α) = h.shared.done + ∑ t, (h.shared.svc t).held := by
  have hinv := hrun.invariant (I := Inv) (fun _ _ _ hi hs => hi.step hs) (.start worker)
  exact ⟨hinv.served.order, hinv.served.places⟩

/-- A worker waits, and is given a task by another thread. -/
def firstTask : List (Bool × Turn Bool (SvcCall Nat)) :=
  [(true, .call .look []), (true, .call .take []), (false, .call (.run 7) [true]),
    (false, .call (.run 8) []), (true, .resume []), (true, .call .finish [])]

theorem served_run_firstTask : ∃ h : SvcHall Bool Nat,
    Run (svcMonitor Bool Nat).Steps (start id) firstTask h ∧
      h.shared.given = h.shared.taken ++ h.shared.pool.queue_ ∧
      (h.shared.taken : Multiset Nat) = h.shared.done + ∑ t, (h.shared.svc t).held := by
  have hrun : Run (svcMonitor Bool Nat).Steps (start id) firstTask _ :=
    .of_foldlM (Option.some_get (by decide : Option.isSome _ = true)).symm
  exact ⟨_, hrun, served_run hrun⟩

/-- **No worker is left asleep**: while one sleeps the pool runs, and as many workers have been told
as there are tasks in the queue. -/
theorem woken_run {worker : T → Bool} {as : List (T × Turn T (SvcCall α))}
    (hrun : Run (svcMonitor T α).Steps (start worker) as h) (t : T)
    (ht : (svcMonitor T α).sleeps () (h.threads t) = true) :
    h.shared.pool.running_ = true ∧
      h.shared.pool.queue_.length ≤ Monitor.calls (svcMonitor T α) () h := by
  have hinv := hrun.invariant (I := Inv) (fun _ _ _ hi hs => hi.step hs) (.start worker)
  exact ⟨hinv.running t ht, hinv.attended t ht⟩

/-- Two workers wait, and one of them is told of a task. -/
def twoAsleep : List (Fin 3 × Turn (Fin 3) (SvcCall Nat)) :=
  [(1, .call .look []), (2, .call .look []), (1, .call .take []), (2, .call .take []),
    (0, .call (.run 7) [1])]

theorem woken_run_twoAsleep : ∃ h : SvcHall (Fin 3) Nat,
    Run (svcMonitor (Fin 3) Nat).Steps (start fun t => decide (t ≠ 0)) twoAsleep h ∧
      h.shared.pool.queue_ = [7] ∧ h.shared.pool.running_ = true ∧
      h.shared.pool.queue_.length ≤ Monitor.calls (svcMonitor (Fin 3) Nat) () h := by
  have hrun : Run (svcMonitor (Fin 3) Nat).Steps (start fun t => decide (t ≠ 0)) twoAsleep _ :=
    .of_foldlM (Option.some_get (by decide : Option.isSome _ = true)).symm
  -- The second worker is still asleep.
  exact ⟨_, hrun, rfl, woken_run hrun 2 rfl⟩

end SvcHall

end Edm.LableManager
