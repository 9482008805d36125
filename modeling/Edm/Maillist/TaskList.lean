import Edm.Maillist.Task
import Edm.Support.Bytes
import Edm.Support.Dlist
import Mathlib.Logic.Function.Basic

/-!
# Maillist — TaskList

The tasks of the list daemon are the nodes of a doubly linked list: `pBegin`, `pEnd` and `nNumber`
are the daemon's, `pPrev` and `pNext` are in the tasks.  `AddTaskQueue` puts a task behind the
last one; `DelOneTask` and `DelOneTask2` take a task out wherever it is, and free it.

Memory is modelled field by field: `pPrev p` is what `pPrev` of the task at `p` holds.  Every
operation is an `Option`: `none` is a crash, through a pointer that is `NULL` or to what is no
task.

* `Linked`: the tasks in memory are linked both ways, in the order they were added.
* `taskQueue_linked`: after any calls on tasks of the queue, a walk from either end meets the tasks
  that were added and not deleted.
-/

namespace Edm.Maillist
open Support

abbrev Addr := Nat

/-- What `AddTaskQueue` writes into a task besides its links; `time` is the clock. -/
structure QueuedTask extends TaskQueue where
  sModula : Text
  nModulaSize : Int
  nTotalCount : Int
  tBeginTime : Int
  sFileName : Text

/-- The arguments of `AddTaskQueue` that make up the task. -/
structure NewTask where
  pAlias : DomainAlias
  pMailList : Fin (pAlias.nDomainNum + 1) → MailList
  sModula : Text
  nModulaSize : Int
  sID : Text
  sFileName : Text
  nPaus : Int

/-- A loop over the lists of a task that sums up a counter. -/
def sumLists {n : Nat} (count : MailList → Int) (pMailList : Fin n → MailList) : Int :=
  (List.finRange n).foldl (fun sum i => sum + count (pMailList i)) 0

/-- The task `AddTaskQueue` makes. -/
def NewTask.task (a : NewTask) (time : Int) : QueuedTask where
  pAlias := a.pAlias
  pMailList := a.pMailList
  sModula := a.sModula
  nModulaSize := a.nModulaSize
  sID := a.sID.take 12
  tFinishTime := 0
  tPauseTime := if a.nPaus ≠ 0 ∧ ofBe32 a.sID ≥ 100 then 10 else 0
  tBeginTime := time
  nTotalCount := sumLists (·.nCount) a.pMailList
  sFileName := a.sFileName.take 199

/-- The tasks in memory, and the daemon's list of them; `nFinishSum` is the counter `DelOneTask2` is
given. -/
structure TaskList where
  task : Addr → Option QueuedTask
  pPrev : Addr → Option Addr
  pNext : Addr → Option Addr
  pBegin : Option Addr
  pEnd : Option Addr
  nNumber : Int
  nFinishSum : Int

namespace TaskList

/-- The daemon when it starts. -/
def empty : TaskList := ⟨fun _ => none, fun _ => none, fun _ => none, none, none, 0, 0⟩

/-- `p->pNext = q`. -/
def setNext (s : TaskList) (p q : Option Addr) : Option TaskList := do
  let p ← p
  let _ ← s.task p
  some { s with pNext := Function.update s.pNext p q }

/-- `p->pPrev = q`. -/
def setPrev (s : TaskList) (p q : Option Addr) : Option TaskList := do
  let p ← p
  let _ ← s.task p
  some { s with pPrev := Function.update s.pPrev p q }

/-- `if(p) p->pNext = q`. -/
def tellNext (s : TaskList) (p q : Option Addr) : Option TaskList :=
  if p = none then some s else s.setNext p q

/-- `if(p) p->pPrev = q`. -/
def tellPrev (s : TaskList) (p q : Option Addr) : Option TaskList :=
  if p = none then some s else s.setPrev p q

/-- `malloc` and `memset`: a task at `pTask`, with no links. -/
def allocate (s : TaskList) (pTask : Addr) (task : QueuedTask) : TaskList :=
  { s with
    task := Function.update s.task pTask (some task)
    pPrev := Function.update s.pPrev pTask none
    pNext := Function.update s.pNext pTask none }

def addTaskQueue (s : TaskList) (pTask : Addr) (a : NewTask) (time : Int) : Option TaskList := do
  let s := s.allocate pTask (a.task time)
  let s ←
    if s.pBegin = none then some { s with pBegin := some pTask, pEnd := some pTask }
    else do
      let s ← s.setNext s.pEnd (some pTask)
      let s ← s.setPrev (some pTask) s.pEnd
      some { s with pEnd := some pTask }
  some { s with nNumber := s.nNumber + 1 }

/-- `DelOneTask`, where `finish` is what is counted of the task before it is freed.  Its lists, its
aliases, its template and its lock go with it. -/
def delTask (finish : QueuedTask → Int) (s : TaskList) : Option Addr → Option TaskList
  | none => some s
  | some pTask =>
      if s.pBegin = none then some s
      else do
        let task ← s.task pTask
        let s := { s with
          pBegin := if s.pBegin = some pTask then s.pNext pTask else s.pBegin
          pEnd := if s.pEnd = some pTask then s.pPrev pTask else s.pEnd }
        let s ← s.tellNext (s.pPrev pTask) (s.pNext pTask)
        let s ← s.tellPrev (s.pNext pTask) (s.pPrev pTask)
        let s ← s.tellPrev s.pBegin none
        let s ← s.tellNext s.pEnd none
        some { s with
          nNumber := s.nNumber - 1
          nFinishSum := s.nFinishSum + finish task
          task := Function.update s.task pTask none }

def delOneTask : TaskList → Option Addr → Option TaskList := delTask fun _ => 0

def delOneTask2 : TaskList → Option Addr → Option TaskList :=
  delTask fun task => sumLists (·.nSend) task.pMailList

end TaskList

/-- A call on the list of tasks; `malloc` puts the task of an addition at `pTask`. -/
inductive TaskCall where
  | add (pTask : Addr) (a : NewTask) (time : Int)
  | del (pTask : Addr)
  | del2 (pTask : Addr)

def TaskList.call (s : TaskList) : TaskCall → Option TaskList
  | .add pTask a time => s.addTaskQueue pTask a time
  | .del pTask => s.delOneTask (some pTask)
  | .del2 pTask => s.delOneTask2 (some pTask)

/-! ### What is in the queue -/

/-- The tasks that were added and not deleted, each with its place in memory, after one more call.
-/
def queueAfter (queue : List (Addr × QueuedTask)) : TaskCall → List (Addr × QueuedTask)
  | .add pTask a time => queue ++ [(pTask, a.task time)]
  | .del pTask | .del2 pTask => queue.filter (·.1 ≠ pTask)

/-- The places of the tasks. -/
def places (queue : List (Addr × QueuedTask)) : List Addr := queue.map Prod.fst

/-- A task is added where none is, and one that is deleted is in the queue. -/
def TaskCall.Current (queue : List (Addr × QueuedTask)) : TaskCall → Prop
  | .add pTask _ _ => pTask ∉ places queue
  | .del pTask | .del2 pTask => pTask ∈ places queue

/-- Every call is on the tasks the calls before it have left. -/
def AllCurrent (queue : List (Addr × QueuedTask)) : List TaskCall → Prop
  | [] => True
  | c :: calls => c.Current queue ∧ AllCurrent (queueAfter queue c) calls

namespace TaskList
variable {s : TaskList} {queue : List (Addr × QueuedTask)} {p : Addr}

/-- `p->pNext`, where a task is at `p`. -/
def nextOf (s : TaskList) (p : Addr) : Option (Option Addr) := (s.task p).map fun _ => s.pNext p

/-- `p->pPrev`, where a task is at `p`. -/
def prevOf (s : TaskList) (p : Addr) : Option (Option Addr) := (s.task p).map fun _ => s.pPrev p

/-- The tasks in memory are those of the queue, linked both ways and counted. -/
structure Linked (s : TaskList) (queue : List (Addr × QueuedTask)) : Prop where
  dlist : Dlist s.pPrev s.pNext s.pBegin s.pEnd (places queue)
  number : s.nNumber = queue.length
  stored : ∀ {e}, e ∈ queue → s.task e.1 = some e.2

namespace Linked

theorem empty : Linked TaskList.empty [] where
  dlist := .nil
  number := rfl
  stored h := absurd h List.not_mem_nil

theorem task_isSome (h : s.Linked queue) (hp : p ∈ places queue) :
    ∃ task, s.task p = some task := by
  obtain ⟨e, he, rfl⟩ := List.mem_map.mp hp
  exact ⟨e.2, h.stored he⟩

end Linked

theorem setNext_eq {q : Option Addr} (hp : ∃ task, s.task p = some task) :
    s.setNext (some p) q = some { s with pNext := Function.update s.pNext p q } := by
  obtain ⟨task, hp⟩ := hp
  simp [setNext, hp]

theorem setPrev_eq {q : Option Addr} (hp : ∃ task, s.task p = some task) :
    s.setPrev (some p) q = some { s with pPrev := Function.update s.pPrev p q } := by
  obtain ⟨task, hp⟩ := hp
  simp [setPrev, hp]

/-- The first task. -/
theorem addTaskQueue_nil (hbegin : s.pBegin = none) (a : NewTask) (time : Int) :
    s.addTaskQueue p a time = some { s.allocate p (a.task time) with
      pBegin := some p, pEnd := some p, nNumber := s.nNumber + 1 } := by
  simp only [addTaskQueue, allocate, hbegin]
  rfl

/-- A task behind the task at `last`. -/
theorem addTaskQueue_concat {last : Addr} (hbegin : s.pBegin ≠ none) (hend : s.pEnd = some last)
    (htask : ∃ task, s.task last = some task) (hp : last ≠ p) (a : NewTask) (time : Int) :
    s.addTaskQueue p a time = some { s.allocate p (a.task time) with
      pNext := Function.update (s.allocate p (a.task time)).pNext last (some p)
      pPrev := Function.update s.pPrev p (some last)
      pEnd := some p
      nNumber := s.nNumber + 1 } := by
  have hbegin' : (s.allocate p (a.task time)).pBegin ≠ none := hbegin
  have hend' : (s.allocate p (a.task time)).pEnd = some last := hend
  have hlast : ∃ task, (s.allocate p (a.task time)).task last = some task := by
    simpa only [allocate, Function.update_of_ne hp] using htask
  rw [addTaskQueue, if_neg hbegin', hend', setNext_eq hlast]
  simp only [Option.bind_eq_bind, Option.bind_some]
  rw [setPrev_eq ⟨a.task time, Function.update_self ..⟩]
  simp [allocate, hend]

theorem Linked.stored_concat (h : s.Linked queue) (hp : p ∉ places queue) (task : QueuedTask)
    {e : Addr × QueuedTask} (he : e ∈ queue ++ [(p, task)]) :
    Function.update s.task p (some task) e.1 = some e.2 := by
  rcases List.mem_append.mp he with he | he
  · have hne : e.1 ≠ p := fun hep => hp (hep ▸ List.mem_map_of_mem he)
    rw [Function.update_of_ne hne]
    exact h.stored he
  · obtain rfl := List.mem_singleton.mp he
    exact Function.update_self ..

/-- A task is put behind the last one. -/
theorem Linked.addTaskQueue (h : s.Linked queue) (hp : p ∉ places queue)
    (a : NewTask) (time : Int) :
    ∃ s', s.addTaskQueue p a time = some s' ∧ s'.Linked (queue ++ [(p, a.task time)]) := by
  have hplaces : places (queue ++ [(p, a.task time)]) = places queue ++ [p] := List.map_append
  have hnumber : s.nNumber + 1 = (queue ++ [(p, a.task time)]).length := by simp [h.number]
  have hne : ∀ q ∈ places queue, q ≠ p := fun q hq hqp => hp (hqp ▸ hq)
  cases hend : s.pEnd with
  | none =>
    -- The list is empty: the task is its only node.
    have hnil : places queue = [] := List.getLast?_eq_none_iff.mp (h.dlist.tail.symm.trans hend)
    have hbegin : s.pBegin = none := by rw [h.dlist.head, hnil, List.head?_nil]
    refine ⟨_, addTaskQueue_nil hbegin a time, ⟨?_, hnumber, fun he => h.stored_concat hp _ he⟩⟩
    rw [hplaces]
    refine h.dlist.concat hp ?_ rfl ?_ fun q hq => absurd hq (hnil ▸ List.not_mem_nil)
    · rw [hbegin, Option.none_or]
    · rw [hend]
      exact ⟨Function.update_self .., Function.update_self ..⟩
  | some last =>
    have hlast : last ∈ places queue := List.mem_of_getLast? (h.dlist.tail.symm.trans hend)
    have hbegin : s.pBegin ≠ none := by
      rw [h.dlist.head, ne_eq, List.head?_eq_none_iff]
      exact List.ne_nil_of_mem hlast
    refine ⟨_, addTaskQueue_concat hbegin hend (h.task_isSome hlast) (hne last hlast) a time,
      ⟨?_, hnumber, fun he => h.stored_concat hp _ he⟩⟩
    rw [hplaces]
    refine h.dlist.concat hp ?_ rfl ?_ fun q hq => ?_
    · exact (Option.or_of_isSome (Option.isSome_iff_ne_none.mpr hbegin)).symm
    · refine ⟨(Function.update_self ..).trans hend.symm, ?_⟩
      dsimp only
      rw [Function.update_of_ne (hne last hlast).symm]
      exact Function.update_self ..
    · refine ⟨Function.update_of_ne (hne q hq) .., ?_⟩
      dsimp only
      rw [Function.update_apply, hend]
      simp only [allocate, Function.update_of_ne (hne q hq), Option.some.injEq, eq_comm (a := q)]

/-- What stands in the place `p`, if there is one, is told `x`. -/
def told (f : Addr → Option Addr) (p x : Option Addr) (q : Addr) : Option Addr :=
  if p = some q then x else f q

theorem told_some (f : Addr → Option Addr) (x : Option Addr) :
    told f (some p) x = Function.update f p x := by
  funext q
  rw [told, Function.update_apply]
  exact if_congr ((Option.some.injEq p q).to_iff.trans eq_comm) rfl rfl

/-- What points nowhere may be told so. -/
theorem told_none {f : Addr → Option Addr} {x : Option Addr} {q : Addr}
    (h : x = some q → f q = none) :
    told f x none q = f q := by
  by_cases hx : x = some q
  · rw [told, if_pos hx, h hx]
  · exact if_neg hx

theorem tellNext_eq {p x : Option Addr} (hp : ∀ q, p = some q → ∃ task, s.task q = some task) :
    s.tellNext p x = some { s with pNext := told s.pNext p x } := by
  cases p with
  | none => rfl
  | some q => rw [tellNext, if_neg (Option.some_ne_none q), setNext_eq (hp q rfl), told_some]

theorem tellPrev_eq {p x : Option Addr} (hp : ∀ q, p = some q → ∃ task, s.task q = some task) :
    s.tellPrev p x = some { s with pPrev := told s.pPrev p x } := by
  cases p with
  | none => rfl
  | some q => rw [tellPrev, if_neg (Option.some_ne_none q), setPrev_eq (hp q rfl), told_some]

/-- What a deletion does to the links: the neighbours of the task are told, then the new ends. -/
theorem delTask_eq {finish : QueuedTask → Int} {task : QueuedTask} {pBegin pEnd : Option Addr}
    (htask : s.task p = some task) (hne : s.pBegin ≠ none) (hprev : s.pPrev p ≠ some p)
    (hbegin : (if s.pBegin = some p then s.pNext p else s.pBegin) = pBegin)
    (hend : (if s.pEnd = some p then s.pPrev p else s.pEnd) = pEnd)
    (hlive : ∀ q, some q ∈ [s.pPrev p, s.pNext p, pBegin, pEnd] → ∃ task, s.task q = some task) :
    s.delTask finish (some p) = some { s with
      task := Function.update s.task p none
      pPrev := told (told s.pPrev (s.pNext p) (s.pPrev p)) pBegin none
      pNext := told (told s.pNext (s.pPrev p) (s.pNext p)) pEnd none
      pBegin := pBegin
      pEnd := pEnd
      nNumber := s.nNumber - 1
      nFinishSum := s.nFinishSum + finish task } := by
  have hnext : told s.pNext (s.pPrev p) (s.pNext p) p = s.pNext p := if_neg hprev
  rw [delTask, if_neg hne, htask]
  simp only [Option.bind_eq_bind, Option.bind_some, hbegin, hend]
  rw [tellNext_eq]
  · simp only [Option.bind_some, hnext]
    rw [tellPrev_eq]
    · simp only [Option.bind_some]
      rw [tellPrev_eq]
      · simp only [Option.bind_some]
        rw [tellNext_eq]
        · rfl
        · exact fun q hq => hlive q (by simp [hq])
      · exact fun q hq => hlive q (by simp [hq])
    · exact fun q hq => hlive q (by simp [hq])
  · exact fun q hq => hlive q (by simp [hq])

/-- A task is taken out: its neighbours are told, and what is told to the ends they know. -/
theorem Linked.delTask {finish : QueuedTask → Int} {a b : List (Addr × QueuedTask)}
    {task : QueuedTask}
    (h : s.Linked (a ++ (p, task) :: b)) :
    ∃ s', s.delTask finish (some p) = some s' ∧ s'.Linked (a ++ b) := by
  have hplaces : places (a ++ (p, task) :: b) = places a ++ p :: places b := List.map_append
  have hplaces' : places (a ++ b) = places a ++ places b := List.map_append
  have hd := hplaces ▸ h.dlist
  obtain ⟨hprev, hnext⟩ := hd.place rfl
  have hmem : ∀ {q}, q ∈ places a ++ places b → q ∈ places a ++ p :: places b := fun hq =>
    (List.mem_append.mp hq).elim (List.mem_append_left _)
      fun hq => List.mem_append_right _ (List.mem_cons_of_mem _ hq)
  have hp : p ∉ places a ++ places b := (List.nodup_cons.mp (List.nodup_middle.mp hd.nodup)).1
  have hbegin : (if s.pBegin = some p then s.pNext p else s.pBegin)
      = (places a ++ places b).head? := by
    split
    next hfirst =>
      rw [hd.eq_nil_of_first rfl hfirst, hnext, List.nil_append]
    next hfirst =>
      rw [hd.head] at hfirst ⊢
      cases hpa : places a with
      | nil => simp [hpa] at hfirst
      | cons q c => rfl
  have hend : (if s.pEnd = some p then s.pPrev p else s.pEnd)
      = (places a ++ places b).getLast? := by
    split
    next hlast =>
      rw [hd.eq_nil_of_last rfl hlast, hprev, List.append_nil]
    next hlast =>
      rw [hd.tail] at hlast ⊢
      rcases List.eq_nil_or_concat (places b) with hpb | ⟨c, q, hpb⟩
      · simp [hpb] at hlast
      · rw [hpb, List.concat_eq_append, ← List.cons_append, ← List.append_assoc,
          ← List.append_assoc,
          List.getLast?_concat, List.getLast?_concat]
  have hlive : ∀ q, some q ∈ [s.pPrev p, s.pNext p, (places a ++ places b).head?,
      (places a ++ places b).getLast?] → ∃ task, s.task q = some task := by
    intro q hq
    refine h.task_isSome (hplaces ▸ hmem ?_)
    simp only [List.mem_cons, List.not_mem_nil, or_false, hprev, hnext] at hq
    rcases hq with hq | hq | hq | hq
    · exact List.mem_append_left _ (List.mem_of_getLast? hq.symm)
    · exact List.mem_append_right _ (List.mem_of_head? hq.symm)
    · exact List.mem_of_head? hq.symm
    · exact List.mem_of_getLast? hq.symm
  refine ⟨_, delTask_eq (h.stored (List.mem_append_right a List.mem_cons_self)) ?_ ?_
    hbegin hend hlive,
    ?_, ?_, ?_⟩
  · rw [hd.head, ne_eq, List.head?_eq_none_iff]
    exact List.append_ne_nil_of_right_ne_nil _ (List.cons_ne_nil _ _)
  · rw [hprev]
    exact fun hlast => hp (List.mem_append_left _ (List.mem_of_getLast? hlast))
  · have hunlinked : Dlist (told s.pPrev (s.pNext p) (s.pPrev p))
      (told s.pNext (s.pPrev p) (s.pNext p))
        (places a ++ places b).head? (places a ++ places b).getLast? (places a ++ places b) :=
      hd.unlink rfl rfl fun q _ => by
        rw [hprev, hnext]
        exact ⟨rfl, rfl⟩
    rw [hplaces']
    refine hunlinked.congr fun q _ => ⟨?_, ?_⟩
    · exact told_none fun hfirst => hunlinked.prev_head hfirst
    · exact told_none fun hlast => hunlinked.next_tail hlast
  · simp only [h.number, List.length_append, List.length_cons]
    omega
  · intro e he
    have hne : e.1 ≠ p := fun hep => hp (hep ▸ hplaces' ▸ List.mem_map_of_mem he)
    have he' : e ∈ a ++ (p, task) :: b := (List.mem_append.mp he).elim (List.mem_append_left _)
      fun he => List.mem_append_right _ (List.mem_cons_of_mem _ he)
    exact (Function.update_of_ne hne ..).trans (h.stored he')

/-- The task at a place of the queue leaves it. -/
theorem Linked.delTask_place (h : s.Linked queue) (hp : p ∈ places queue)
    (finish : QueuedTask → Int) :
    ∃ s', s.delTask finish (some p) = some s' ∧ s'.Linked (queue.filter (·.1 ≠ p)) := by
  obtain ⟨⟨q, task⟩, he, rfl⟩ := List.mem_map.mp hp
  obtain ⟨a, b, rfl⟩ := List.append_of_mem he
  have hnodup := h.dlist.nodup
  rw [places, List.map_append, List.map_cons, List.nodup_middle, List.nodup_cons, ← List.map_append]
    at hnodup
  have hfilter : (a ++ (q, task) :: b).filter (·.1 ≠ q) = a ++ b := by
    have hab : (a ++ b).filter (·.1 ≠ q) = a ++ b := List.filter_eq_self.mpr fun e he =>
      decide_eq_true fun heq => hnodup.1 (List.mem_map.mpr ⟨e, he, heq⟩)
    rw [List.filter_append] at hab ⊢
    rw [List.filter_cons_of_neg (by simp), hab]
  rw [hfilter]
  exact h.delTask

/-- A call on a task of the queue. -/
theorem Linked.call (h : s.Linked queue) {c : TaskCall} (hc : c.Current queue) :
    ∃ s', s.call c = some s' ∧ s'.Linked (queueAfter queue c) := by
  cases c with
  | add p a time => exact h.addTaskQueue hc a time
  | del p => exact h.delTask_place hc _
  | del2 p => exact h.delTask_place hc _

theorem Linked.calls {calls : List TaskCall} (h : s.Linked queue) (hc : AllCurrent queue calls) :
    ∃ s', calls.foldlM TaskList.call s = some s' ∧ s'.Linked (calls.foldl queueAfter queue) := by
  induction calls generalizing s queue with
  | nil => exact ⟨s, rfl, h⟩
  | cons c calls ih =>
    obtain ⟨s₁, hs₁, h₁⟩ := h.call hc.1
    obtain ⟨s', hs', h'⟩ := ih h₁ hc.2
    exact ⟨s', by rw [List.foldlM_cons, hs₁]; exact hs', h'⟩

/-- The daemon's list holds the tasks of the queue: a walk from `pBegin` meets them in order, one
from `pEnd` meets them in the opposite order, both end at `NULL`, and `nNumber` is how many there
are. -/
structure Queued (s : TaskList) (queue : List (Addr × QueuedTask)) : Prop where
  forward : Visits s.nextOf s.pBegin (places queue)
  backward : Visits s.prevOf s.pEnd (places queue).reverse
  first : ∀ {p}, s.pBegin = some p → s.prevOf p = some none
  last : ∀ {p}, s.pEnd = some p → s.nextOf p = some none
  stored : ∀ {e}, e ∈ queue → s.task e.1 = some e.2
  distinct : (places queue).Nodup
  number : s.nNumber = queue.length

theorem Linked.queued (h : s.Linked queue) : s.Queued queue := by
  have hnext : ∀ p ∈ places queue, s.nextOf p = some (s.pNext p) := fun p hp => by
    obtain ⟨task, htask⟩ := h.task_isSome hp
    rw [nextOf, htask, Option.map_some]
  have hprev : ∀ p ∈ places queue, s.prevOf p = some (s.pPrev p) := fun p hp => by
    obtain ⟨task, htask⟩ := h.task_isSome hp
    rw [prevOf, htask, Option.map_some]
  refine ⟨h.dlist.visits_next hnext, h.dlist.visits_prev hprev, fun {p} hp => ?_, fun {p} hp => ?_,
    h.stored, h.dlist.nodup, h.number⟩
  · rw [hprev p (List.mem_of_head? (h.dlist.head.symm.trans hp)), h.dlist.prev_head hp]
  · rw [hnext p (List.mem_of_getLast? (h.dlist.tail.symm.trans hp)), h.dlist.next_tail hp]

end TaskList

/-- Any calls on tasks of the queue, from the empty queue, leave the tasks added and not deleted,
in the order they were added. -/
theorem taskQueue_linked {calls : List TaskCall} (h : AllCurrent [] calls) :
    ∃ s, calls.foldlM TaskList.call TaskList.empty = some s ∧
      s.Queued (calls.foldl queueAfter []) := by
  obtain ⟨s, hs, hlinked⟩ := TaskList.Linked.empty.calls h
  exact ⟨s, hs, hlinked.queued⟩

/-- A task with no aliases. -/
def sampleNewTask : NewTask where
  pAlias := ⟨0, []⟩
  pMailList := fun _ => MailList.empty []
  sModula := "{$SUBJECT}".toList
  nModulaSize := 11
  sID := be32 0 ++ be32 0 ++ be32 1
  sFileName := "task.1".toList
  nPaus := 0

/-- Three tasks; the one in the middle goes, then the first; its place is used again. -/
def sampleCalls : List TaskCall :=
  [.add 1 sampleNewTask 10, .add 2 sampleNewTask 11, .add 3 sampleNewTask 12, .del 2, .del2 1,
    .add 1 sampleNewTask 13]

theorem taskQueue_linked_sample : ∃ s, sampleCalls.foldlM TaskList.call TaskList.empty = some s ∧
    s.Queued (sampleCalls.foldl queueAfter []) :=
  taskQueue_linked (by simp [sampleCalls, AllCurrent, TaskCall.Current, queueAfter, places])

end Edm.Maillist
