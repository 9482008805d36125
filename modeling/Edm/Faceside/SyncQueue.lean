import Edm.Support.Run
import Mathlib.Data.Fintype.Basic
import Mathlib.Logic.Function.Basic

/-!
# Faceside — SyncQueue

The bounded queue between the threads of `faceside`, and `Sync_Queue` of `deliver_help`, which
differs in what a timeout returns.  Any number of threads take their steps in any order.  The mutex
and the condition variables are those of POSIX: a wait lets go of the mutex and begins to wait at
once, a signal wakes at least one waiting thread, and a thread may wake by itself.

What is put is got in order, and the queue never grows beyond its capacity (`lawful_run`).  But
`deactivate` does not take the mutex, and `deactivate_` is looked at only behind a wait: a thread
that begins to wait behind the broadcast is not woken (`sleeps_through`).  `safe_run` says that no
thread sleeps when `deactivate` finds no call between its look at the queue and its wait, and the
calls that look at the queue later find what they need.
-/

namespace Edm.Faceside
open Support

/-! ### The program of a thread -/

/-- The two classes. -/
inductive QueueClass where
  | SyncQueue
  | Sync_Queue

/-- What a timeout returns. -/
def QueueClass.timedOut : QueueClass → Int
  | .SyncQueue => -2
  | .Sync_Queue => -1

/-- A call; it waits without end when `seconds` is negative. -/
inductive Call (α : Type*) where
  | put (x : α) (seconds : Int)
  | get (seconds : Int)

inductive Cond where
  | not_full
  | not_empty
  deriving DecidableEq

namespace Call
variable {α : Type*}

def seconds : Call α → Int
  | put _ seconds | get seconds => seconds

/-- What the call waits for. -/
def cond : Call α → Cond
  | put .. => .not_full
  | get .. => .not_empty

/-- The condition of its loop. -/
def blocked (capacity_ : Int) (queue_ : List α) : Call α → Bool
  | put .. => decide ((queue_.length : Int) = capacity_)
  | get .. => queue_.isEmpty

end Call

/-- Where a thread is. -/
inductive Phase (α : Type*) where
  | out
  /-- It takes the mutex. -/
  | lock (c : Call α)
  /-- It looks at the queue. -/
  | test (c : Call α)
  /-- It has seen that it must wait. -/
  | enter (c : Call α)
  | waiting (c : Call α)
  /-- It takes the mutex again. -/
  | woken (c : Call α) (timedOut : Bool)
  /-- It looks at `deactivate_`. -/
  | check (c : Call α)
  /-- It changes the queue. -/
  | act (c : Call α)
  | signal (cond : Cond)
  | unlock (code : Int)
  /-- In `deactivate`. -/
  | setFlag
  | broadcast (cond : Cond)

namespace Phase
variable {α : Type*}

/-- The thread holds the mutex. -/
def holds : Phase α → Bool
  | test _ | enter _ | check _ | act _ | signal _ | unlock _ => true
  | _ => false

/-- The thread waits for `cond`. -/
def waitsFor (cond : Cond) : Phase α → Bool
  | waiting c => c.cond == cond
  | _ => false

/-- The thread has seen that it must wait for `cond`. -/
def entersFor (cond : Cond) : Phase α → Bool
  | enter c => c.cond == cond
  | _ => false

/-- What the thread waits for, or is about to wait for. -/
def awaits : Phase α → Option Cond
  | enter c | waiting c => some c.cond
  | _ => none

/-- A waiting thread is woken. -/
def wake : Phase α → Phase α
  | waiting c => woken c false
  | p => p

/-- The call has not changed the queue, and will not if it returns an error. -/
def unchanged : Phase α → Bool
  | lock _ | test _ | enter _ | waiting _ | woken .. | check _ | act _ => true
  | unlock code => code != 0
  | _ => false

end Phase

/-- The queue with its threads.  `put`, `got`, `changed`, `told` and `returned` only remember: what
was put and got, whether the last call of a thread has changed the queue, which broadcasts there
have been, and whether `deactivate` has returned. -/
structure QueueState (T α : Type*) where
  queue_ : List α
  deactivate_ : Bool
  mutex_ : Option T
  threads : T → Phase α
  put : List α
  got : List α
  changed : T → Bool
  told : Cond → Bool
  returned : Bool

/-- What a thread does. -/
inductive QueueAct (T α : Type*) where
  | call (c : Call α)
  | deactivate
  /-- The next step of its call; `ws` are woken by a signal. -/
  | next (ws : List T)
  /-- It wakes by itself, or at the end of its time. -/
  | wakes (timedOut : Bool)

namespace QueueState
variable {T α : Type*} [DecidableEq T] (cls : QueueClass) (capacity_ : Int) (s : QueueState T α)

/-- A queue that no thread uses yet. -/
def init : QueueState T α := ⟨[], false, none, fun _ => .out, [], [], fun _ => false,
  fun _ => false, false⟩

/-- A thread goes on. -/
def goto (t : T) (p : Phase α) : QueueState T α :=
  { s with threads := Function.update s.threads t p }

/-- The threads of `ws` are woken. -/
def wake (ws : T → Bool) : QueueState T α :=
  { s with threads := fun u => if ws u then (s.threads u).wake else s.threads u }

/-- The threads that wait for `cond`. -/
def waiters (cond : Cond) (u : T) : Bool := (s.threads u).waitsFor cond

/-- The queue changes; an empty one cannot give its first item. -/
def change (t : T) : Call α → Option (QueueState T α)
  | .put x _ => some { s with
      queue_ := s.queue_ ++ [x]
      put := s.put ++ [x]
      changed := Function.update s.changed t true }
  | .get _ =>
      match s.queue_ with
      | [] => none
      | x :: queue_ => some { s with
          queue_ := queue_
          got := s.got ++ [x]
          changed := Function.update s.changed t true }

/-- What is signalled behind a change. -/
def signalled : Call α → Cond
  | .put .. => .not_empty
  | .get .. => .not_full

/-- A broadcast of `deactivate`. -/
def tell (cond : Cond) : QueueState T α :=
  { s.wake (s.waiters cond) with told := Function.update s.told cond true }

/-- The next step of the call of a thread. -/
def next [Fintype T] (t : T) (ws : List T) : Option (QueueState T α) :=
  match s.threads t with
  | .out | .waiting _ => none
  | .lock c => if s.mutex_.isNone then some ({ s with mutex_ := some t }.goto t (.test c)) else none
  | .test c => some (s.goto t (if c.blocked capacity_ s.queue_ then .enter c else .act c))
  | .enter c => some ({ s with mutex_ := none }.goto t (.waiting c))
  | .woken c timedOut =>
      if s.mutex_.isNone then
        some ({ s with mutex_ := some t }.goto t
          (if timedOut then .unlock cls.timedOut else .check c))
      else none
  | .check c => some (s.goto t (if s.deactivate_ then .unlock (-1) else .test c))
  | .act c => (s.change t c).map fun s => s.goto t (.signal (signalled c))
  | .signal cond =>
      if (∀ u ∈ ws, s.waiters cond u) ∧ (ws = [] → ∀ u, ¬ s.waiters cond u) then
        some ((s.wake fun u => decide (u ∈ ws)).goto t (.unlock 0))
      else none
  | .unlock _ => some ({ s with mutex_ := none }.goto t .out)
  | .setFlag => some ({ s with deactivate_ := true }.goto t (.broadcast .not_full))
  | .broadcast .not_full => some ((s.tell .not_full).goto t (.broadcast .not_empty))
  | .broadcast .not_empty => some ({ s.tell .not_empty with returned := true }.goto t .out)

def step [Fintype T] (a : T × QueueAct T α) : Option (QueueState T α) :=
  match a.2, s.threads a.1 with
  | .call c, .out =>
      some ({ s with changed := Function.update s.changed a.1 false }.goto a.1 (.lock c))
  | .deactivate, .out => some (s.goto a.1 .setFlag)
  | .wakes timedOut, .waiting c =>
      if timedOut = true → 0 ≤ c.seconds then some (s.goto a.1 (.woken c timedOut)) else none
  | .next ws, _ => s.next cls capacity_ a.1 ws
  | _, _ => none

end QueueState

/-! ### What holds in every run -/

namespace QueueState
variable {T α : Type*} (capacity_ : Int) (s : QueueState T α)

/-- What is put is got in order, within the capacity, and an error changes nothing. -/
structure Lawful : Prop where
  bounded : (s.queue_.length : Int) ≤ capacity_
  fifo : s.got <+: s.put
  error : ∀ t code, s.threads t = .unlock code → code ≠ 0 → s.changed t = false

/-- No thread is left waiting when `deactivate` has returned. -/
def Awake : Prop := s.returned = true → ∀ t c, s.threads t ≠ .waiting c

/-- A broadcast of `deactivate` finds no thread that has seen that it must wait; and what is looked
at behind the broadcast is not full (for `put`), or not empty (for `get`). -/
def timely [Fintype T] (a : T × QueueAct T α) : Bool :=
  match s.threads a.1, a.2 with
  | .broadcast cond, .next _ => decide (∀ u, (s.threads u).entersFor cond = false)
  | .test c, .next _ => !s.told c.cond || !c.blocked capacity_ s.queue_
  | _, _ => true

/-- What every step keeps. -/
structure Law : Prop where
  bounded : (s.queue_.length : Int) ≤ capacity_
  fifo : s.put = s.got ++ s.queue_
  mutex : ∀ t, (s.threads t).holds = true → s.mutex_ = some t
  act : ∀ t c, s.threads t = .act c → c.blocked capacity_ s.queue_ = false
  unchanged : ∀ t, (s.threads t).unchanged = true → s.changed t = false

variable {capacity_ s}

theorem Law.lawful (h : s.Law capacity_) : s.Lawful capacity_ where
  bounded := h.bounded
  fifo := ⟨s.queue_, h.fifo.symm⟩
  error t code ht hcode := h.unchanged t (by rw [ht]; exact bne_iff_ne.mpr hcode)

theorem Law.init (hcap : 0 < capacity_) : (init : QueueState T α).Law capacity_ where
  bounded := Int.le_of_lt hcap
  fifo := rfl
  mutex _ h := by cases h
  act _ _ h := by cases h
  unchanged _ h := by cases h

end QueueState

namespace Phase
variable {α : Type*}

theorem holds_wake (p : Phase α) : p.wake.holds = p.holds := by
  cases p <;> rfl

theorem unchanged_wake (p : Phase α) : p.wake.unchanged = p.unchanged := by
  cases p <;> rfl

theorem wake_eq_act {p : Phase α} {c : Call α} : p.wake = act c ↔ p = act c := by
  cases p <;> simp [wake]

theorem wake_eq_broadcast {p : Phase α} {cond : Cond} :
    p.wake = broadcast cond ↔ p = broadcast cond := by
  cases p <;> simp [wake]

theorem awaits_wake {p : Phase α} {cond : Cond} (h : p.wake.awaits = some cond) :
    p.entersFor cond = true := by
  cases p with
  | enter c => exact beq_iff_eq.mpr (Option.some.inj h)
  | _ => cases h

theorem awaits_cases {p : Phase α} {cond : Cond} (h : p.awaits = some cond) :
    p.entersFor cond = true ∨ p.waitsFor cond = true := by
  cases p with
  | enter c => exact .inl (beq_iff_eq.mpr (Option.some.inj h))
  | waiting c => exact .inr (beq_iff_eq.mpr (Option.some.inj h))
  | _ => cases h

theorem awaits_of_entersFor {p : Phase α} {cond : Cond} (h : p.entersFor cond = true) :
    p.awaits = some cond := by
  cases p with
  | enter c => exact congrArg some (beq_iff_eq.mp h)
  | _ => cases h

end Phase

namespace QueueState
variable {T α : Type*} {capacity_ : Int} {s s' : QueueState T α} {t : T}

/-- The other threads stay where they are, or are woken. -/
def Others (t : T) (s s' : QueueState T α) : Prop :=
  ∀ u, u ≠ t → s'.threads u = s.threads u ∨ s'.threads u = (s.threads u).wake

theorem Others.holds (h : Others t s s') {u : T} (hu : u ≠ t) :
    (s'.threads u).holds = (s.threads u).holds := by
  rcases h u hu with h | h
  · rw [h]
  · rw [h, Phase.holds_wake]

theorem Others.unchanged (h : Others t s s') {u : T} (hu : u ≠ t) :
    (s'.threads u).unchanged = (s.threads u).unchanged := by
  rcases h u hu with h | h
  · rw [h]
  · rw [h, Phase.unchanged_wake]

theorem Others.act (h : Others t s s') {u : T} (hu : u ≠ t) {c : Call α}
    (hc : s'.threads u = .act c) : s.threads u = .act c := by
  rcases h u hu with h | h
  · rwa [h] at hc
  · rw [h] at hc
    exact Phase.wake_eq_act.mp hc

theorem Others.awaits (h : Others t s s') {u : T} (hu : u ≠ t) {cond : Cond}
    (hc : (s'.threads u).awaits = some cond) : (s.threads u).awaits = some cond := by
  rcases h u hu with h | h
  · rwa [h] at hc
  · rw [h] at hc
    exact Phase.awaits_of_entersFor (Phase.awaits_wake hc)

theorem Others.broadcast (h : Others t s s') {u : T} (hu : u ≠ t) {cond : Cond}
    (hc : s'.threads u = .broadcast cond) : s.threads u = .broadcast cond := by
  rcases h u hu with h | h
  · rwa [h] at hc
  · rw [h] at hc
    exact Phase.wake_eq_broadcast.mp hc

/-- A step of `t` that leaves the queue alone. -/
structure Quiet (capacity_ : Int) (t : T) (s s' : QueueState T α) : Prop where
  queue : s'.queue_ = s.queue_
  put : s'.put = s.put
  got : s'.got = s.got
  others : Others t s s'
  changed : ∀ u, u ≠ t → s'.changed u = s.changed u
  mutex : ∀ u, u ≠ t → s.mutex_ = some u → s'.mutex_ = some u
  own : (s'.threads t).holds = true → s'.mutex_ = some t
  act : ∀ c, s'.threads t = .act c → c.blocked capacity_ s.queue_ = false
  unchanged : (s'.threads t).unchanged = true → s'.changed t = false

theorem Law.quiet (h : s.Law capacity_) (hs : Quiet capacity_ t s s') : s'.Law capacity_ where
  bounded := by
    rw [hs.queue]
    exact h.bounded
  fifo := by rw [hs.put, hs.got, hs.queue, h.fifo]
  mutex u hu := by
    by_cases hut : u = t
    · subst hut
      exact hs.own hu
    · rw [hs.others.holds hut] at hu
      exact hs.mutex u hut (h.mutex u hu)
  act u c hu := by
    rw [hs.queue]
    by_cases hut : u = t
    · subst hut
      exact hs.act c hu
    · exact h.act u c (hs.others.act hut hu)
  unchanged u hu := by
    by_cases hut : u = t
    · subst hut
      exact hs.unchanged hu
    · rw [hs.others.unchanged hut] at hu
      rw [hs.changed u hut, h.unchanged u hu]

variable [DecidableEq T] {cls : QueueClass}

@[simp] theorem goto_self (t : T) (p : Phase α) : (s.goto t p).threads t = p :=
  Function.update_self _ _ _

theorem goto_of_ne {t u : T} (h : u ≠ t) (p : Phase α) : (s.goto t p).threads u = s.threads u :=
  Function.update_of_ne h _ _

theorem others_goto (t : T) (p : Phase α) : Others t s (s.goto t p) :=
  fun _ hu => .inl (goto_of_ne hu p)

theorem others_wake (ws : T → Bool) (t : T) (p : Phase α) : Others t s ((s.wake ws).goto t p) := by
  intro u hu
  rw [goto_of_ne hu]
  dsimp only [wake]
  split
  · exact .inr rfl
  · exact .inl rfl

/-- `t` goes on, and others may be woken. -/
theorem Law.goto (h : s.Law capacity_) {p : Phase α} (ws : T → Bool)
    (hown : p.holds = true → (s.threads t).holds = true)
    (hact : ∀ c, p = .act c → c.blocked capacity_ s.queue_ = false)
    (hunchanged : p.unchanged = true → s.changed t = false) :
    ((s.wake ws).goto t p).Law capacity_ := by
  refine h.quiet ⟨rfl, rfl, rfl, others_wake ws t p, fun _ _ => rfl, fun _ _ hm => hm, ?_, ?_, ?_⟩
  · rw [goto_self]
    exact fun hp => h.mutex t (hown hp)
  · rw [goto_self]
    exact hact
  · rw [goto_self]
    exact hunchanged

/-- `t` alone goes on. -/
theorem Law.move (h : s.Law capacity_) {p : Phase α}
    (hown : p.holds = true → (s.threads t).holds = true)
    (hact : ∀ c, p = .act c → c.blocked capacity_ s.queue_ = false)
    (hunchanged : p.unchanged = true → s.changed t = false) : (s.goto t p).Law capacity_ :=
  h.goto (fun _ => false) hown hact hunchanged

/-- `t` takes the mutex. -/
theorem Law.take (h : s.Law capacity_) (hfree : s.mutex_ = none) {p : Phase α}
    (hact : ∀ c, p ≠ .act c) (hunchanged : s.changed t = false) :
    ({ s with mutex_ := some t }.goto t p).Law capacity_ := by
  have hnone : ∀ u : T, s.mutex_ ≠ some u := by
    intro u hu
    rw [hfree] at hu
    cases hu
  refine h.quiet ⟨rfl, rfl, rfl, others_goto t p, fun _ _ => rfl, fun u _ hm => (hnone u hm).elim,
    fun _ => rfl, ?_, fun _ => hunchanged⟩
  rw [goto_self]
  exact fun c hc => (hact c hc).elim

/-- `t` lets go of the mutex. -/
theorem Law.leave (h : s.Law capacity_) (hown : (s.threads t).holds = true) {p : Phase α}
    (hp : p.holds = false) (hunchanged : p.unchanged = true → s.changed t = false) :
    ({ s with mutex_ := none }.goto t p).Law capacity_ := by
  have hmutex : s.mutex_ = some t := h.mutex t hown
  refine h.quiet ⟨rfl, rfl, rfl, others_goto t p, fun _ _ => rfl, ?_, ?_, ?_, ?_⟩
  · intro u hu hm
    exact absurd (Option.some.inj (hm.symm.trans hmutex)) hu
  · rw [goto_self, hp]
    exact fun hc => (Bool.false_ne_true hc).elim
  · rw [goto_self]
    rintro c rfl
    cases hp
  · rw [goto_self]
    exact hunchanged

theorem change_frame {c : Call α} {s₁ : QueueState T α} (hs : s.change t c = some s₁) :
    s₁.threads = s.threads ∧ s₁.told = s.told ∧ s₁.returned = s.returned := by
  cases c with
  | put x seconds =>
    obtain rfl := Option.some.inj hs
    exact ⟨rfl, rfl, rfl⟩
  | get seconds =>
    rw [QueueState.change] at hs
    split at hs
    next => cases hs
    next =>
      obtain rfl := Option.some.inj hs
      exact ⟨rfl, rfl, rfl⟩

/-- The queue changes in the hands of the thread that has the mutex. -/
theorem Law.change (h : s.Law capacity_) {c : Call α} (ht : s.threads t = .act c)
    {s₁ : QueueState T α}
    (hs : s.change t c = some s₁) (cond : Cond) : (s₁.goto t (.signal cond)).Law capacity_ := by
  have hown : s.mutex_ = some t := h.mutex t (by rw [ht]; rfl)
  have hblocked := h.act t c ht
  have halone : ∀ u, u ≠ t → (s.threads u).holds = false := by
    intro u hu
    by_contra hholds
    rw [Bool.not_eq_false] at hholds
    exact hu (Option.some.inj ((h.mutex u hholds).symm.trans hown))
  -- What is in the queue now, and what is the same.
  obtain ⟨hbounded, hfifo, hthreads, hmutex, hchanged⟩ :
      (s₁.queue_.length : Int) ≤ capacity_ ∧ s₁.put = s₁.got ++ s₁.queue_ ∧
        s₁.threads = s.threads ∧ s₁.mutex_ = s.mutex_ ∧ ∀ u, u ≠ t → s₁.changed u
          = s.changed u := by
    have hle := h.bounded
    cases c with
    | put x seconds =>
      obtain rfl := Option.some.inj hs
      have hne : (s.queue_.length : Int) ≠ capacity_ := of_decide_eq_false hblocked
      refine ⟨?_, ?_, rfl, rfl, fun u hu => Function.update_of_ne hu _ _⟩
      · rw [List.length_append, List.length_singleton]
        omega
      · exact (congrArg (· ++ [x]) h.fifo).trans (List.append_assoc ..)
    | get seconds =>
      rw [QueueState.change] at hs
      cases hq : s.queue_ with
      | nil =>
        rw [hq] at hs
        cases hs
      | cons x queue_ =>
        rw [hq] at hs
        obtain rfl := Option.some.inj hs
        rw [hq, List.length_cons] at hle
        refine ⟨by dsimp only; omega, ?_, rfl, rfl, fun u hu => Function.update_of_ne hu _ _⟩
        dsimp only
        rw [h.fifo, hq, List.append_assoc, List.singleton_append]
  constructor
  case bounded => exact hbounded
  case fifo => exact hfifo
  case mutex =>
    intro u hu
    by_cases hut : u = t
    · subst hut
      exact hmutex.trans hown
    · rw [goto_of_ne hut, hthreads, halone u hut] at hu
      cases hu
  case act =>
    intro u d hu
    by_cases hut : u = t
    · subst hut
      rw [goto_self] at hu
      cases hu
    · rw [goto_of_ne hut, hthreads] at hu
      have := halone u hut
      rw [hu] at this
      cases this
  case unchanged =>
    intro u hu
    by_cases hut : u = t
    · subst hut
      rw [goto_self] at hu
      cases hu
    · rw [goto_of_ne hut, hthreads] at hu
      exact (hchanged u hut).trans (h.unchanged u hu)

variable [Fintype T]

theorem Law.next (h : s.Law capacity_) {ws : List T} (hs : s.next cls capacity_ t ws = some s') :
    s'.Law capacity_ := by
  have hunchanged := h.unchanged t
  unfold QueueState.next at hs
  cases ht : s.threads t with
  | out | waiting c =>
    rw [ht] at hs
    cases hs
  | lock c =>
    simp only [ht] at hs hunchanged
    split at hs
    next hfree =>
      obtain rfl := Option.some.inj hs
      exact h.take (Option.isNone_iff_eq_none.mp hfree) (by simp) (hunchanged rfl)
    next => cases hs
  | test c =>
    have hholds : (s.threads t).holds = true := by rw [ht]; rfl
    simp only [ht] at hs hunchanged
    obtain rfl := Option.some.inj hs
    split
    next => exact h.move (fun _ => hholds) (by simp) fun _ => hunchanged rfl
    next hblocked =>
      refine h.move (fun _ => hholds) (fun d hd => ?_) fun _ => hunchanged rfl
      obtain rfl := Phase.act.inj hd
      exact Bool.eq_false_iff.mpr hblocked
  | enter c =>
    simp only [ht] at hs hunchanged
    obtain rfl := Option.some.inj hs
    exact h.leave (by rw [ht]; rfl) rfl fun _ => hunchanged rfl
  | woken c timedOut =>
    simp only [ht] at hs hunchanged
    split at hs
    next hfree =>
      obtain rfl := Option.some.inj hs
      refine h.take (Option.isNone_iff_eq_none.mp hfree) ?_ (hunchanged rfl)
      cases timedOut <;> simp
    next => cases hs
  | check c =>
    have hholds : (s.threads t).holds = true := by rw [ht]; rfl
    simp only [ht] at hs hunchanged
    obtain rfl := Option.some.inj hs
    split
    next => exact h.move (fun _ => hholds) (by simp) fun _ => hunchanged rfl
    next => exact h.move (fun _ => hholds) (by simp) fun _ => hunchanged rfl
  | act c =>
    simp only [ht] at hs
    obtain ⟨s₁, hs₁, rfl⟩ := Option.map_eq_some_iff.mp hs
    exact h.change ht hs₁ _
  | signal cond =>
    simp only [ht] at hs
    split at hs
    next =>
      obtain rfl := Option.some.inj hs
      exact h.goto _ (by simp [ht, Phase.holds]) (by simp) (by simp [Phase.unchanged])
    next => cases hs
  | unlock code =>
    simp only [ht] at hs
    obtain rfl := Option.some.inj hs
    exact h.leave (by rw [ht]; rfl) rfl (by simp [Phase.unchanged])
  | setFlag =>
    simp only [ht] at hs
    obtain rfl := Option.some.inj hs
    exact h.quiet ⟨rfl, rfl, rfl, others_goto t _, fun _ _ => rfl, fun _ _ hm => hm,
      by simp [Phase.holds], by simp, by simp [Phase.unchanged]⟩
  | broadcast cond =>
    simp only [ht] at hs
    cases cond with
    | not_full =>
      obtain rfl := Option.some.inj hs
      exact h.quiet ⟨rfl, rfl, rfl, others_wake _ t _, fun _ _ => rfl, fun _ _ hm => hm,
        by simp [Phase.holds], by simp, by simp [Phase.unchanged]⟩
    | not_empty =>
      obtain rfl := Option.some.inj hs
      exact h.quiet ⟨rfl, rfl, rfl, others_wake _ t _, fun _ _ => rfl, fun _ _ hm => hm,
        by simp [Phase.holds], by simp, by simp [Phase.unchanged]⟩

theorem Law.step (h : s.Law capacity_) {a : T × QueueAct T α}
    (hs : s.step cls capacity_ a = some s') : s'.Law capacity_ := by
  obtain ⟨t, act⟩ := a
  unfold QueueState.step at hs
  split at hs
  next c _ hout =>
    obtain rfl := Option.some.inj hs
    exact h.quiet (t := t) ⟨rfl, rfl, rfl, others_goto t _,
      fun u hu => Function.update_of_ne hu _ _, fun _ _ hm => hm, by simp [Phase.holds], by simp,
      fun _ => Function.update_self _ _ _⟩
  next hout =>
    obtain rfl := Option.some.inj hs
    exact h.move (by simp [Phase.holds]) (by simp) (by simp [Phase.unchanged])
  next timedOut c _ hwaiting =>
    split at hs
    next =>
      obtain rfl := Option.some.inj hs
      exact h.move (by simp [Phase.holds]) (by simp) fun _ => h.unchanged t (by rw [hwaiting]; rfl)
    next => cases hs
  next ws _ => exact h.next hs
  next => cases hs

/-- A step of any thread. -/
abbrev Steps (cls : QueueClass) (capacity_ : Int) (s : QueueState T α) (a : T × QueueAct T α)
    (s' : QueueState T α) : Prop :=
  s.step cls capacity_ a = some s'

/-- What is put is got in order, within the capacity, whatever the threads do. -/
theorem lawful_run (hcap : 0 < capacity_) {as : List (T × QueueAct T α)} {s : QueueState T α}
    (h : Run (Steps cls capacity_) init as s) : s.Lawful capacity_ := by
  have hlaw : s.Law capacity_ :=
    h.invariant (fun s _ _ (hlaw : s.Law capacity_) hs => hlaw.step hs) (Law.init hcap)
  exact hlaw.lawful

/-! ### The end -/

/-- Who waits, or is about to, has not been told; and when `deactivate` has returned, all have been
told. -/
structure Told (s : QueueState T α) : Prop where
  awaits : ∀ t cond, (s.threads t).awaits = some cond → s.told cond = false
  first : ∀ t, s.threads t = .broadcast .not_empty → s.told .not_full = true
  returned : s.returned = true → ∀ cond, s.told cond = true

omit [DecidableEq T] [Fintype T] in
theorem Told.init : (init : QueueState T α).Told where
  awaits _ _ h := by cases h
  first _ h := by cases h
  returned h := by cases h

omit [DecidableEq T] [Fintype T] in
theorem Told.awake (h : s.Told) : s.Awake := fun hreturned t c ht =>
  Bool.false_ne_true
    ((h.awaits t c.cond (by rw [ht]; rfl)).symm.trans (h.returned hreturned c.cond))

omit [DecidableEq T] [Fintype T] in
/-- Nobody is told anything. -/
theorem Told.quiet (h : s.Told) (hothers : Others t s s') (htold : s'.told = s.told)
    (hreturned : s'.returned = s.returned)
    (hawaits : ∀ cond, (s'.threads t).awaits = some cond → s.told cond = false)
    (hfirst : s'.threads t ≠ .broadcast .not_empty) : s'.Told where
  awaits u cond hu := by
    rw [htold]
    by_cases hut : u = t
    · subst hut
      exact hawaits cond hu
    · exact h.awaits u cond (hothers.awaits hut hu)
  first u hu := by
    rw [htold]
    by_cases hut : u = t
    · subst hut
      exact absurd hu hfirst
    · exact h.first u (hothers.broadcast hut hu)
  returned := by
    rw [hreturned, htold]
    exact h.returned

omit [DecidableEq T] [Fintype T] in
theorem told_tell (cond : Cond) {c : Cond} (h : s.told c = true) : (s.tell cond).told c = true := by
  by_cases hc : c = cond
  · subst hc
    exact Function.update_self _ _ _
  · exact (Function.update_of_ne hc _ _).trans h

omit [Fintype T] in
/-- Who waits for `cond` is told, and nobody is about to. -/
theorem Told.tell (h : s.Told) (cond : Cond) {p : Phase α} {returned : Bool}
    (hnone : ∀ u, (s.threads u).entersFor cond = false)
    (hp : p.awaits = none) (hfirst : p = .broadcast .not_empty → cond = .not_full)
    (hreturned : returned = true →
      s.returned = true ∨ cond = .not_empty ∧ s.told .not_full = true) :
    ({ s.tell cond with returned := returned }.goto t p).Told where
  awaits u c hu := by
    by_cases hut : u = t
    · subst hut
      rw [goto_self, hp] at hu
      cases hu
    · have hothers : Others t s ((s.wake (s.waiters cond)).goto t p) := others_wake _ t p
      have hs := hothers.awaits hut hu
      have hne : c ≠ cond := by
        rintro rfl
        rw [goto_of_ne hut] at hu
        dsimp only [QueueState.tell, wake] at hu
        have henters : (s.threads u).entersFor c = true := by
          split at hu
          next => exact Phase.awaits_wake hu
          next hw => exact (Phase.awaits_cases hu).resolve_right hw
        exact Bool.false_ne_true ((hnone u).symm.trans henters)
      exact (Function.update_of_ne hne _ _).trans (h.awaits u c hs)
  first u hu := by
    by_cases hut : u = t
    · subst hut
      rw [goto_self] at hu
      obtain rfl := hfirst hu
      exact Function.update_self Cond.not_full true s.told
    · have hothers : Others t s ((s.wake (s.waiters cond)).goto t p) := others_wake _ t p
      exact told_tell cond (h.first u (hothers.broadcast hut hu))
  returned hr c := by
    by_cases hc : c = cond
    · subst hc
      exact Function.update_self _ _ _
    · rcases hreturned hr with hs | ⟨rfl, hfull⟩
      · exact told_tell cond (h.returned hs c)
      · cases c with
        | not_full => exact told_tell .not_empty hfull
        | not_empty => exact absurd rfl hc

/-- A thread that goes on without the queue. -/
theorem Told.next (h : s.Told) {ws : List T} (hin : s.timely capacity_ (t, .next ws) = true)
    (hs : s.next cls capacity_ t ws = some s') : s'.Told := by
  unfold QueueState.next at hs
  cases ht : s.threads t with
  | out | waiting c =>
    rw [ht] at hs
    cases hs
  | lock c =>
    simp only [ht] at hs
    split at hs
    next =>
      obtain rfl := Option.some.inj hs
      exact h.quiet (others_goto t _) rfl rfl (by simp [Phase.awaits]) (by simp)
    next => cases hs
  | test c =>
    simp only [ht] at hs
    obtain rfl := Option.some.inj hs
    simp only [timely, ht] at hin
    split
    next hblocked =>
      rw [hblocked, Bool.not_true, Bool.or_false, Bool.not_eq_true'] at hin
      refine h.quiet (others_goto t _) rfl rfl (fun cond hcond => ?_) (by simp)
      rw [goto_self] at hcond
      exact Option.some.inj hcond ▸ hin
    next => exact h.quiet (others_goto t _) rfl rfl (by simp [Phase.awaits]) (by simp)
  | enter c =>
    simp only [ht] at hs
    obtain rfl := Option.some.inj hs
    refine h.quiet (others_goto t _) rfl rfl (fun cond hcond => ?_) (by simp)
    rw [goto_self] at hcond
    exact h.awaits t cond (by rw [ht]; exact hcond)
  | woken c timedOut =>
    simp only [ht] at hs
    split at hs
    next =>
      obtain rfl := Option.some.inj hs
      refine h.quiet (others_goto t _) rfl rfl ?_ ?_ <;> rw [goto_self] <;> split <;>
        simp [Phase.awaits]
    next => cases hs
  | check c =>
    simp only [ht] at hs
    obtain rfl := Option.some.inj hs
    refine h.quiet (others_goto t _) rfl rfl ?_ ?_ <;> rw [goto_self] <;> split <;>
      simp [Phase.awaits]
  | act c =>
    simp only [ht] at hs
    obtain ⟨s₁, hs₁, rfl⟩ := Option.map_eq_some_iff.mp hs
    obtain ⟨hthreads, htold, hreturned⟩ := change_frame hs₁
    have hothers : Others t s (s₁.goto t (.signal (signalled c))) := by
      intro u hu
      rw [goto_of_ne hu, hthreads]
      exact .inl rfl
    exact h.quiet hothers htold hreturned (by simp [Phase.awaits]) (by simp)
  | signal cond =>
    simp only [ht] at hs
    split at hs
    next =>
      obtain rfl := Option.some.inj hs
      exact h.quiet (others_wake _ t _) rfl rfl (by simp [Phase.awaits]) (by simp)
    next => cases hs
  | unlock code =>
    simp only [ht] at hs
    obtain rfl := Option.some.inj hs
    exact h.quiet (others_goto t _) rfl rfl (by simp [Phase.awaits]) (by simp)
  | setFlag =>
    simp only [ht] at hs
    obtain rfl := Option.some.inj hs
    exact h.quiet (others_goto t _) rfl rfl (by simp [Phase.awaits]) (by simp)
  | broadcast cond =>
    simp only [ht] at hs
    simp only [timely, ht] at hin
    have hnone := of_decide_eq_true hin
    cases cond with
    | not_full =>
      obtain rfl := Option.some.inj hs
      exact h.tell .not_full hnone rfl (fun _ => rfl) .inl
    | not_empty =>
      obtain rfl := Option.some.inj hs
      exact h.tell .not_empty hnone rfl (by simp) fun _ => .inr ⟨rfl, h.first t ht⟩

theorem Told.step (h : s.Told) {a : T × QueueAct T α} (hin : s.timely capacity_ a = true)
    (hs : s.step cls capacity_ a = some s') : s'.Told := by
  obtain ⟨t, act⟩ := a
  unfold QueueState.step at hs
  split at hs
  next =>
    obtain rfl := Option.some.inj hs
    exact h.quiet (t := t) (others_goto t _) rfl rfl (by simp [Phase.awaits]) (by simp)
  next =>
    obtain rfl := Option.some.inj hs
    exact h.quiet (others_goto t _) rfl rfl (by simp [Phase.awaits]) (by simp)
  next =>
    split at hs
    next =>
      obtain rfl := Option.some.inj hs
      exact h.quiet (others_goto t _) rfl rfl (by simp [Phase.awaits]) (by simp)
    next => cases hs
  next ws hact =>
    obtain rfl : act = .next ws := hact
    exact h.next hin hs
  next => cases hs

/-- The queue is right, and nobody sleeps through the end, when the broadcasts find no thread on its
way to wait, and behind them no thread finds that it must wait. -/
theorem safe_run (hcap : 0 < capacity_) {as : List (T × QueueAct T α)} {s : QueueState T α}
    (h : Run (Guarded (fun s a => s.timely capacity_ a = true) (Steps cls capacity_)) init as s) :
      s.Lawful capacity_ ∧ s.Awake := by
  have htold : s.Told :=
    h.invariant (fun s _ _ (htold : s.Told) hs => htold.step hs.1 hs.2) Told.init
  exact ⟨lawful_run hcap h.toRun, htold.awake⟩

end QueueState

/-- The consumer `false` waits for an item of the producer `true`, and then for the end. -/
def consumerWaits : List (Bool × QueueAct Bool Nat) :=
  [(false, .call (.get (-1))), (false, .next []), (false, .next []), (false, .next []),
    (true, .call (.put 7 (-1))), (true, .next []), (true, .next []), (true, .next []),
    (true, .next [false]), (true, .next []),
    (false, .next []), (false, .next []), (false, .next []), (false, .next []), (false, .next []),
    (false, .next []),
    (false, .call (.get (-1))), (false, .next []), (false, .next []), (false, .next []),
    (true, .deactivate), (true, .next []), (true, .next []), (true, .next []), (false, .next [])]

theorem safe_run_consumer : ∃ s : QueueState Bool Nat, s.got = [7] ∧ s.returned = true ∧
    s.Lawful 1 ∧ s.Awake := by
  have hrun : ((consumerWaits.foldlM (fun (s : QueueState Bool Nat) a =>
      if s.timely 1 a then s.step .SyncQueue 1 a else none) .init).any
        fun s => s.got == [7] && s.returned) = true := by decide +kernel
  obtain ⟨s, hs, hend⟩ := (Option.any_eq_true _ _).mp hrun
  obtain ⟨hgot, hreturned⟩ := (Bool.and_eq_true _ _).mp hend
  have hsafe : s.Lawful 1 ∧ s.Awake :=
    QueueState.safe_run (by decide) (Run.of_checked (fun _ _ h => h) hs)
  exact ⟨s, beq_iff_eq.mp hgot, hreturned, hsafe⟩

/-- The consumer has seen that the queue is empty; before it waits, all is told. -/
def consumerIsLate : List (Bool × QueueAct Bool Nat) :=
  [(false, .call (.get (-1))), (false, .next []), (false, .next []),
    (true, .deactivate), (true, .next []), (true, .next []), (true, .next []), (false, .next [])]

/-- The consumer begins to wait when all has been told. -/
theorem sleeps_through : ¬ ∀ (cls : QueueClass) (capacity_ : Int), 0 < capacity_ →
    ∀ (as : List (Bool × QueueAct Bool Nat)) (s : QueueState Bool Nat),
      Run (QueueState.Steps cls capacity_) .init as s → s.Lawful capacity_ ∧ s.Awake := by
  intro h
  have hrun : ((consumerIsLate.foldlM (fun (s : QueueState Bool Nat) a =>
      s.step .SyncQueue 1 a) .init).any fun s =>
        s.returned && (s.threads false).waitsFor .not_empty)
        = true := by decide +kernel
  obtain ⟨s, hs, hend⟩ := (Option.any_eq_true _ _).mp hrun
  obtain ⟨hreturned, hwaits⟩ := (Bool.and_eq_true _ _).mp hend
  have hawake := (h .SyncQueue 1 (by decide) _ s (Run.of_foldlM hs)).2
  cases ht : s.threads false with
  | waiting c => exact hawake hreturned false c ht
  | _ =>
    rw [ht] at hwaits
    cases hwaits

end Edm.Faceside
