import Edm.Support.Run
import Mathlib.Logic.Function.Basic

/-!
# Cachedb — EventQueue

The two threads of `cachedb` and their three lists.  The receiving thread (`ParseMessage`) pushes
what it decodes on `list_task`, `list_task_domain` or `list_url`; `DBprocess` takes it from there.

`ParseMessage` holds `mutex_task` whatever list it pushes on.  `DBprocess` holds `mutex_task` on
the first two lists and `mutex_url` on `list_url`.  So both may be at `list_url` at once.  And its
handler of a `DBException` unlocks `mutex_url` when `flag` is set, which it still is while
`DBUpdateUrl` runs, without the mutex.

Where nothing that is pushed clashes with `list_url` and `DBUpdateUrl` does not throw, the locks are
used as they should be (`disciplined_run`).
-/

namespace Edm.Cachedb
open Support

/-- `list_task`, `list_task_domain` and `list_url`. -/
inductive Queue where
  | task | domain | url
  deriving DecidableEq

inductive Mutex where
  | mutex_task | mutex_url
  deriving DecidableEq

inductive Thread where
  | dbprocess | receiver
  deriving DecidableEq

/-- The mutex `DBprocess` holds when it takes from a list. -/
def takeMutex : Queue → Mutex
  | .task | .domain => .mutex_task
  | .url => .mutex_url

/-- The mutex `ParseMessage` holds when it pushes on a list. -/
def pushMutex (_ : Queue) : Mutex := .mutex_task

/-- Where `DBprocess` stands, before its next operation. -/
inductive DbAt where
  /-- The `while` on `terminal`. -/
  | top
  | lock (q : Queue)
  /-- `flag = true`. -/
  | setFlag
  /-- The size of the list is read, and its front taken. -/
  | take (q : Queue)
  /-- `select user()`, with the mutex. -/
  | heartbeat
  /-- The list was empty. -/
  | leave (q : Queue)
  /-- A node was taken. -/
  | unlock (q : Queue)
  /-- `DBUpdateTask`, `DBUpdateTaskDomain`, `DBUpdateUrl`. -/
  | update (q : Queue)
  /-- `flag = false`. -/
  | clearFlag
  /-- `commit_bdbcache_to_mysql`, which lets no exception out. -/
  | commit
  | handler
  | handlerUnlock
  | exited
  deriving DecidableEq

/-- Where the receiving thread stands. -/
inductive RecvAt where
  | idle
  | lock (q : Queue) (node : Nat)
  | push (q : Queue) (node : Nat)
  | unlock (q : Queue)
  deriving DecidableEq

structure Threads where
  holder : Mutex → Option Thread
  list : Queue → List Nat
  flag : Bool
  terminal : Bool
  db : DbAt
  recv : RecvAt

/-- Both threads start with no mutex held. -/
def Threads.init : Threads where
  holder _ := none
  list _ := []
  flag := false
  terminal := false
  db := .top
  recv := .idle

/-- `pthread_mutex_lock`, when the mutex is free. -/
def Threads.lock (s : Threads) (t : Thread) (m : Mutex) : Option Threads :=
  if s.holder m = none then some { s with holder := Function.update s.holder m (some t) } else none

/-- `pthread_mutex_unlock`, whoever holds the mutex. -/
def Threads.unlock (s : Threads) (m : Mutex) : Threads :=
  { s with holder := Function.update s.holder m none }

/-- The next loop of `DBprocess`, when the list of this one is empty. -/
def DbAt.afterList : Queue → DbAt
  | .task => .lock .domain
  | .domain => .lock .url
  | .url => .clearFlag

/-- The next operation of `DBprocess`; `throws` says whether its statement throws. -/
def Threads.dbStep (s : Threads) (throws : Bool) : Option Threads :=
  match s.db with
  | .top => some { s with db := if s.terminal then .exited else .lock .task }
  | .lock q =>
      (s.lock .dbprocess (takeMutex q)).map fun s =>
        { s with db := if q = .url then .setFlag else .take q }
  | .setFlag => some { s with flag := true, db := .take .url }
  | .take q =>
      match s.list q with
      | [] => some { s with db := if q = .url then .heartbeat else .leave q }
      | _ :: nodes =>
          some { s with list := Function.update s.list q nodes, db := .unlock q }
  | .heartbeat => some { s with db := if throws then .handler else .leave .url }
  | .leave q => some { s.unlock (takeMutex q) with db := .afterList q }
  | .unlock q => some { s.unlock (takeMutex q) with db := .update q }
  | .update q => some { s with db := if throws then .handler else .lock q }
  | .clearFlag => some { s with flag := false, db := .commit }
  | .commit => some { s with db := .top }
  | .handler =>
      some (if s.flag then { s with db := .handlerUnlock } else { s with db := .top })
  | .handlerUnlock => some { s.unlock .mutex_url with flag := false, db := .top }
  | .exited => none

/-- The next operation of the receiving thread. -/
def Threads.recvStep (s : Threads) : Option Threads :=
  match s.recv with
  | .idle => none
  | .lock q node =>
      (s.lock .receiver (pushMutex q)).map fun s => { s with recv := .push q node }
  | .push q node =>
      some { s with list := Function.update s.list q (s.list q ++ [node]), recv := .unlock q }
  | .unlock q => some { s.unlock (pushMutex q) with recv := .idle }

/-- What may happen: a step of `DBprocess`, a signal, a message with a node for a list, a step of
the receiving thread. -/
inductive Act where
  | db (throws : Bool)
  | sigterm
  | message (q : Queue) (node : Nat)
  | recv
  deriving DecidableEq

def Threads.step (s : Threads) : Act → Option Threads
  | .db throws => s.dbStep throws
  | .sigterm => some { s with terminal := true }
  | .message q node => if s.recv = .idle then some { s with recv := .lock q node } else none
  | .recv => s.recvStep

/-! ### The discipline -/

/-- The list whose section `DBprocess` is in, from the lock to the unlock. -/
def DbAt.inside : DbAt → Option Queue
  | .take q | .leave q | .unlock q => some q
  | .setFlag | .heartbeat => some .url
  | _ => none

def RecvAt.inside : RecvAt → Option Queue
  | .push q _ | .unlock q => some q
  | _ => none

/-- The mutex that the next operation unlocks. -/
def DbAt.unlocks : DbAt → Option Mutex
  | .leave q | .unlock q => some (takeMutex q)
  | .handlerUnlock => some .mutex_url
  | _ => none

def RecvAt.unlocks : RecvAt → Option Mutex
  | .unlock q => some (pushMutex q)
  | _ => none

/-- The threads are never inside the sections of two lists that `clash`, and each unlocks only a
mutex it holds. -/
structure Disciplined (clash : Queue → Queue → Prop) (s : Threads) : Prop where
  exclusive : ∀ q q', s.db.inside = some q → s.recv.inside = some q' → ¬ clash q q'
  dbUnlocks : ∀ m, s.db.unlocks = some m → s.holder m = some .dbprocess
  recvUnlocks : ∀ m, s.recv.unlocks = some m → s.holder m = some .receiver

/-- `DBUpdateUrl` does not throw, and no message has a node for a list that clashes with `list_url`,
whose sections `mutex_task` does not guard in `DBprocess`. -/
structure Careful (clash : Queue → Queue → Prop) (s : Threads) (a : Act) : Prop where
  noThrow : a = .db true → s.db ≠ .update .url
  message : ∀ q node, a = .message q node → ¬ clash .url q

/-! ### Who holds which mutex -/

/-- `DBprocess` holds just the mutex `db`, and the receiving thread just `recv`. -/
def Holds (holder : Mutex → Option Thread) (db recv : Option Mutex) : Prop :=
  ∀ m, (holder m = some .dbprocess ↔ db = some m) ∧ (holder m = some .receiver ↔ recv = some m)

section Holds

variable {holder : Mutex → Option Thread} {db recv : Option Mutex} {m : Mutex}

theorem Holds.db_ne (h : Holds holder (some m) recv) : recv ≠ some m := by
  intro hr
  have hdb := (h m).1.mpr rfl
  rw [(h m).2.mpr hr] at hdb
  cases hdb

theorem Holds.lockDb (h : Holds holder none recv) (hm : holder m = none) :
    Holds (Function.update holder m (some .dbprocess)) (some m) recv := by
  have hr : recv ≠ some m := fun hr => by rw [(h m).2.mpr hr] at hm; cases hm
  intro m'
  by_cases hm' : m' = m
  · subst hm'
    simp [hr]
  · rw [Function.update_of_ne hm']
    exact ⟨by simp [(h m').1, Ne.symm hm'], (h m').2⟩

theorem Holds.unlockDb (h : Holds holder (some m) recv) :
    Holds (Function.update holder m none) none recv := by
  have hr := h.db_ne
  intro m'
  by_cases hm' : m' = m
  · subst hm'
    simp [hr]
  · rw [Function.update_of_ne hm']
    exact ⟨by simp [(h m').1, Ne.symm hm'], (h m').2⟩

theorem Holds.lockRecv (h : Holds holder db none) (hm : holder m = none) :
    Holds (Function.update holder m (some .receiver)) db (some m) := by
  have hd : db ≠ some m := fun hd => by rw [(h m).1.mpr hd] at hm; cases hm
  intro m'
  by_cases hm' : m' = m
  · subst hm'
    simp [hd]
  · rw [Function.update_of_ne hm']
    exact ⟨(h m').1, by simp [(h m').2, Ne.symm hm']⟩

theorem Holds.unlockRecv (h : Holds holder db (some m)) :
    Holds (Function.update holder m none) db none := by
  have hd : db ≠ some m := by
    rintro rfl
    exact h.db_ne rfl
  intro m'
  by_cases hm' : m' = m
  · subst hm'
    simp [hd]
  · rw [Function.update_of_ne hm']
    exact ⟨(h m').1, by simp [(h m').2, Ne.symm hm']⟩

end Holds

/-- The mutex `DBprocess` should hold. -/
def DbAt.holds (flag : Bool) : DbAt → Option Mutex
  | .handler => if flag then some .mutex_url else none
  | .handlerUnlock => some .mutex_url
  | db => db.inside.map takeMutex

/-- `flag` is set in the loop over `list_url`, from the first lock to `clearFlag`. -/
def DbAt.flagged (flag : Bool) : DbAt → Prop
  | .take .url | .heartbeat | .leave .url | .unlock .url | .update .url | .clearFlag
  | .handlerUnlock => flag = true
  | .lock .url | .setFlag | .handler => True
  | _ => flag = false

/-- The list that the message is for. -/
def RecvAt.handles : RecvAt → Option Queue
  | .idle => none
  | .lock q _ | .push q _ | .unlock q => some q

theorem RecvAt.handles_of_inside {recv : RecvAt} {q : Queue} (h : recv.inside = some q) :
    recv.handles = some q := by
  cases recv with
  | idle | lock => cases h
  | push | unlock => exact h

/-- What every step keeps. -/
structure Locked (clash : Queue → Queue → Prop) (s : Threads) : Prop where
  holds : Holds s.holder (s.db.holds s.flag) (s.recv.inside.map pushMutex)
  flagged : s.db.flagged s.flag
  handled : ∀ q, s.recv.handles = some q → ¬ clash .url q

theorem Locked.init (clash : Queue → Queue → Prop) : Locked clash .init where
  holds m := by simp [Threads.init, DbAt.holds, DbAt.inside, RecvAt.inside]
  flagged := rfl
  handled q h := by cases h

theorem Locked.disciplined {clash : Queue → Queue → Prop} {s : Threads} (h : Locked clash s) :
    Disciplined clash s := by
  constructor
  · intro q q' hdb hrecv
    cases q with
    | url => exact h.handled q' (RecvAt.handles_of_inside hrecv)
    | task | domain =>
        -- Both threads would hold `mutex_task`.
        have hd : s.holder .mutex_task = some .dbprocess := (h.holds _).1.mpr (by
          cases hs : s.db <;> simp_all [DbAt.inside, DbAt.holds, takeMutex])
        have hr : s.holder .mutex_task = some .receiver := (h.holds _).2.mpr (by
          rw [hrecv]; rfl)
        rw [hd] at hr
        cases hr
  · intro m hm
    refine (h.holds m).1.mpr ?_
    cases hs : s.db <;> simp_all [DbAt.unlocks, DbAt.inside, DbAt.holds]
  · intro m hm
    refine (h.holds m).2.mpr ?_
    cases hs : s.recv <;> simp_all [RecvAt.unlocks, RecvAt.inside]

theorem Threads.lock_eq_some {s s' : Threads} {t : Thread} {m : Mutex}
    (h : s.lock t m = some s') :
    s.holder m = none ∧ s' = { s with holder := Function.update s.holder m (some t) } := by
  rw [lock] at h
  split at h
  next hm => exact ⟨hm, (Option.some.inj h).symm⟩
  next => cases h

/-- A step of `DBprocess`. -/
theorem Locked.dbStep {clash : Queue → Queue → Prop} {s s' : Threads} {throws : Bool}
    (h : Locked clash s) (hc : Careful clash s (.db throws)) (hs : s.dbStep throws = some s') :
    Locked clash s' := by
  obtain ⟨holder, list, flag, terminal, db, recv⟩ := s
  obtain ⟨hholds, hflag, hhandled⟩ := h
  cases db with
  | top =>
      obtain rfl := Option.some.inj hs
      cases terminal
      · exact ⟨hholds, hflag, hhandled⟩
      · exact ⟨hholds, hflag, hhandled⟩
  | lock q =>
      obtain ⟨s₁, hlock, rfl⟩ := Option.map_eq_some_iff.mp hs
      obtain ⟨hm, rfl⟩ := Threads.lock_eq_some hlock
      have hholds := hholds.lockDb hm
      cases q with
      | task | domain => exact ⟨hholds, hflag, hhandled⟩
      | url => exact ⟨hholds, trivial, hhandled⟩
  | setFlag =>
      obtain rfl := Option.some.inj hs
      exact ⟨hholds, rfl, hhandled⟩
  | take q =>
      simp only [Threads.dbStep] at hs
      split at hs
      · obtain rfl := Option.some.inj hs
        cases q with
        | task | domain => exact ⟨hholds, hflag, hhandled⟩
        | url => exact ⟨hholds, hflag, hhandled⟩
      · obtain rfl := Option.some.inj hs
        cases q with
        | task | domain => exact ⟨hholds, hflag, hhandled⟩
        | url => exact ⟨hholds, hflag, hhandled⟩
  | heartbeat =>
      obtain rfl := Option.some.inj hs
      obtain rfl : flag = true := hflag
      cases throws
      · exact ⟨hholds, rfl, hhandled⟩
      · exact ⟨hholds, trivial, hhandled⟩
  | leave q =>
      obtain rfl := Option.some.inj hs
      have hholds := hholds.unlockDb
      cases q with
      | task => exact ⟨hholds, hflag, hhandled⟩
      | domain => exact ⟨hholds, trivial, hhandled⟩
      | url => exact ⟨hholds, hflag, hhandled⟩
  | unlock q =>
      obtain rfl := Option.some.inj hs
      have hholds := hholds.unlockDb
      cases q with
      | task | domain | url => exact ⟨hholds, hflag, hhandled⟩
  | update q =>
      obtain rfl := Option.some.inj hs
      cases throws with
      | false =>
          cases q with
          | task | domain => exact ⟨hholds, hflag, hhandled⟩
          | url => exact ⟨hholds, trivial, hhandled⟩
      | true =>
          cases q with
          | task | domain =>
              obtain rfl : flag = false := hflag
              exact ⟨hholds, trivial, hhandled⟩
          | url => exact absurd rfl (hc.noThrow rfl)
  | clearFlag =>
      obtain rfl := Option.some.inj hs
      exact ⟨hholds, rfl, hhandled⟩
  | commit =>
      obtain rfl := Option.some.inj hs
      exact ⟨hholds, hflag, hhandled⟩
  | handler =>
      obtain rfl := Option.some.inj hs
      cases flag
      · exact ⟨hholds, rfl, hhandled⟩
      · exact ⟨hholds, rfl, hhandled⟩
  | handlerUnlock =>
      obtain rfl := Option.some.inj hs
      exact ⟨hholds.unlockDb, rfl, hhandled⟩
  | exited => cases hs

/-- A step of the receiving thread. -/
theorem Locked.recvStep {clash : Queue → Queue → Prop} {s s' : Threads} (h : Locked clash s)
    (hs : s.recvStep = some s') : Locked clash s' := by
  obtain ⟨holder, list, flag, terminal, db, recv⟩ := s
  obtain ⟨hholds, hflag, hhandled⟩ := h
  cases recv with
  | idle => cases hs
  | lock q node =>
      obtain ⟨s₁, hlock, rfl⟩ := Option.map_eq_some_iff.mp hs
      obtain ⟨hm, rfl⟩ := Threads.lock_eq_some hlock
      exact ⟨hholds.lockRecv hm, hflag, hhandled⟩
  | push q node =>
      obtain rfl := Option.some.inj hs
      exact ⟨hholds, hflag, hhandled⟩
  | unlock q =>
      obtain rfl := Option.some.inj hs
      exact ⟨hholds.unlockRecv, hflag, fun q' hq => by cases hq⟩

theorem Locked.step {clash : Queue → Queue → Prop} {s s' : Threads} {a : Act}
    (h : Locked clash s) (hs : Guarded (Careful clash) (fun s a s' => s.step a = some s') s a s') :
    Locked clash s' := by
  obtain ⟨hc, hs⟩ := hs
  cases a with
  | db throws => exact h.dbStep hc hs
  | recv => exact h.recvStep hs
  | sigterm =>
      obtain rfl := Option.some.inj hs
      exact ⟨h.holds, h.flagged, h.handled⟩
  | message q node =>
      obtain ⟨holder, list, flag, terminal, db, recv⟩ := s
      simp only [Threads.step] at hs
      split at hs
      next hidle =>
        subst hidle
        obtain rfl := Option.some.inj hs
        refine ⟨h.holds, h.flagged, fun q' hq => ?_⟩
        obtain rfl : q = q' := Option.some.inj hq
        exact hc.message q node rfl
      next => cases hs

/-- In every run whose steps are all careful the locks are used as they should be. -/
theorem disciplined_run {clash : Queue → Queue → Prop} {acts : List Act} {s : Threads}
    (h : Run (Guarded (Careful clash) fun s a s' => s.step a = some s') .init acts s) :
    Disciplined clash s :=
  (h.invariant (fun _ _ _ hi hs => hi.step hs) (Locked.init clash)).disciplined

/-- No statement throws, and no event arrives. -/
def Act.harmless : Act → Bool
  | .db true | .message .url _ => false
  | _ => true

theorem Act.careful_of_harmless (s : Threads) (a : Act) (h : a.harmless = true) :
    Careful Eq s a where
  noThrow ha := by
    rw [ha] at h
    cases h
  message q node ha hq := by
    rw [ha, ← hq] at h
    cases h

/-- `DBprocess` looks at all three lists, then a task arrives, and is pushed while `DBprocess` waits
for `mutex_task`. -/
def pushedActs : List Act :=
  List.replicate 14 (.db false) ++ [.message .task 1, .recv, .db false, .recv]

theorem disciplined_run_pushed : ∃ s : Threads, s.db = .lock .task ∧ s.recv = .unlock .task ∧
    s.list .task = [1] ∧ Disciplined Eq s := by
  have hrun : (pushedActs.foldlM (fun (s : Threads) (a : Act) =>
      if a.harmless then s.step a else none) .init).map (fun s => (s.db, s.recv, s.list .task)) =
      some (.lock .task, .unlock .task, [1]) := by decide
  obtain ⟨s, hs, hat⟩ := Option.map_eq_some_iff.mp hrun
  simp only [Prod.mk.injEq] at hat
  exact ⟨s, hat.1, hat.2.1, hat.2.2, disciplined_run (.of_checked Act.careful_of_harmless hs)⟩

/-- `DBprocess` gets to `list_url`, and then an event arrives. -/
def raceActs : List Act := List.replicate 9 (.db false) ++ [.message .url 1, .recv]

/-- Both threads are at `list_url`. -/
theorem race_at_list_url : ¬ ∀ (acts : List Act) (s : Threads),
    Run (fun s a s' => s.step a = some s') .init acts s → Disciplined Eq s := by
  intro h
  have hrun : (raceActs.foldlM Threads.step .init).map (fun s => (s.db, s.recv))
      = some (.take .url, .push .url 1) := by decide
  obtain ⟨s, hs, hat⟩ := Option.map_eq_some_iff.mp hrun
  obtain ⟨hdb, hrecv⟩ := Prod.mk.inj hat
  refine (h raceActs s (.of_foldlM hs)).exclusive .url .url ?_ ?_ rfl
  · rw [hdb]
    rfl
  · rw [hrecv]
    rfl

end Edm.Cachedb
