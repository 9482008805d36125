import Edm.Support.Split
import Edm.Support.Decimal
import Mathlib.Data.List.Nodup

/-!
# Maillist — YxList

The list of the preferred tasks: `yx_reload_list` reads it from a file, and `yx_find` searches it.
Nodes are numbered as they are allocated, and `freed` are those that `yx_release` has freed.

Each line is inserted behind the node that the line before it gave, and a line that names no task
gives no node, so that what follows it is read for nothing (`load_pieces`).

* `reload_right_iff`: no node is lost or freed twice; the list has the tasks of the file exactly
  when these are the tasks read in front of the first piece that names none.
-/

namespace Edm.Maillist.YxList
open Support

/-! ### The code -/

/-- `corp_id`, `task_id` and `tmpl_id`. -/
abbrev TaskNo := Int × Int × Int

/-- `YX_list_t`. -/
structure Node where
  id : Nat
  task : TaskNo
  reseverd : Int

/-- The static variables, how many nodes were allocated, and which of them were freed. -/
structure State where
  yx_head : List Node
  yxtime : Int
  made : Nat
  freed : List Nat

def init : State := ⟨[], 0, 0, []⟩

/-- A list that is being read: its nodes, the place of the last insertion, and the number of nodes
allocated. -/
structure Loading where
  yx_head : List Node
  p : Option Nat
  made : Nat

/-- `yx_insert`, behind the node at the place `p`. -/
def yxInsert (w : Loading) (task : TaskNo) : Loading :=
  match w.p with
  | none => w
  | some p =>
      { yx_head := w.yx_head.take (p + 1) ++ ⟨w.made, task, 0⟩ :: w.yx_head.drop (p + 1)
        p := some (p + 1)
        made := w.made + 1 }

/-- `sscanf(str, "%d.%d.%d", …)`, if it reads all three. -/
def scanTask (str : Text) : Option TaskNo :=
  match scanInt (cstr str) with
  | some (corp_id, '.' :: str) =>
      match scanInt str with
      | some (task_id, '.' :: str) => (scanInt str).map fun e => (corp_id, task_id, e.1)
      | _ => none
  | _ => none

/-- `p = yx_insert_str(p, buf)`. -/
def yxInsertStr (w : Loading) (str : Text) : Loading :=
  match scanTask str with
  | none => { w with p := none }
  | some task => yxInsert w task

/-- `yx_find`. -/
def yxFind (h : List Node) (task : TaskNo) : Option Node := h.find? fun p => p.task = task

/-- A file, as `stat` and `fopen` see it. -/
structure PriorityFile where
  text : Text
  st_mtime : Int

/-- The list is freed and read again: `yx_create` makes its first node. -/
def load (s : State) (file : PriorityFile) : State :=
  let head : Node := ⟨s.made, (0, 0, 0), 0⟩
  let w := (fgetsLines 64 file.text).foldl yxInsertStr ⟨[head], some 0, s.made + 1⟩
  { yx_head := w.yx_head
    yxtime := file.st_mtime
    made := w.made
    freed := s.freed ++ s.yx_head.map Node.id }

/-- `yx_reload_list`; there is no file if it cannot be accessed. -/
def yxReloadList (s : State) (file : Option PriorityFile) (opens : Bool) : Int × State :=
  match file with
  | none => (-1, s)
  | some file =>
      if file.st_mtime = s.yxtime then (-1, s)
      else if !opens then (-1, { s with yxtime := file.st_mtime })
      else (0, load s file)

/-- `yx_test` on the list: the counter of the first node of the task. -/
def testList (task : TaskNo) (level : Int) : List Node → List Node
  | [] => []
  | p :: h =>
      if p.task = task then
        { p with reseverd := if level > p.reseverd then p.reseverd + 1 else 0 } :: h
      else p :: testList task level h

/-- What happens to the list. -/
inductive Event where
  | reload (file : Option PriorityFile) (opens : Bool)
  | test (task : TaskNo) (level : Int)

def step (s : State) : Event → State
  | .reload file opens => (yxReloadList s file opens).2
  | .test task level => { s with yx_head := testList task level s.yx_head }

/-! ### What is promised -/

/-- The tasks that the lines of a file begin with. -/
def tasksOf (text : Text) : List TaskNo := (text.splitOn '\n').filterMap scanTask

/-- A reload: when it reads the file, the list has its tasks; and each node that was allocated is
in the list, or was freed once. -/
structure ReloadRight (s : State) (file : PriorityFile) (opens : Bool) : Prop where
  find : (yxReloadList s file opens).1 = 0 → ∀ task ≠ (0, 0, 0),
    ((yxFind (yxReloadList s file opens).2.yx_head task).isSome ↔ task ∈ tasksOf file.text)
  nodes : ∀ id < (yxReloadList s file opens).2.made,
    let ids := (yxReloadList s file opens).2.yx_head.map Node.id
    let freed := (yxReloadList s file opens).2.freed
    id ∈ ids ∧ id ∉ freed ∨ id ∉ ids ∧ freed.count id = 1

/-- The tasks in front of the first piece that names none. -/
def tasksUntilBad : List Text → List TaskNo
  | [] => []
  | str :: pieces =>
      match scanTask str with
      | none => []
      | some task => task :: tasksUntilBad pieces

/-- The pieces that `fgets` gives name the tasks of the lines before one of them names none. -/
def ReadsLines (text : Text) : Prop :=
  ∀ task ≠ (0, 0, 0), task ∈ tasksUntilBad (fgetsLines 64 text) ↔ task ∈ tasksOf text

/-! ### What a reload does -/

/-- New nodes for tasks. -/
def nodesFrom : Nat → List TaskNo → List Node
  | _, [] => []
  | made, task :: tasks => ⟨made, task, 0⟩ :: nodesFrom (made + 1) tasks

theorem map_id_nodesFrom (tasks : List TaskNo) : ∀ made : Nat,
    (nodesFrom made tasks).map Node.id = List.range' made tasks.length := by
  induction tasks with
  | nil => exact fun made => rfl
  | cons task tasks ih =>
      intro made
      rw [nodesFrom, List.map_cons, ih, List.length_cons, List.range'_succ]

theorem map_task_nodesFrom (tasks : List TaskNo) : ∀ made : Nat,
    (nodesFrom made tasks).map Node.task = tasks := by
  induction tasks with
  | nil => exact fun made => rfl
  | cons task tasks ih =>
      intro made
      rw [nodesFrom, List.map_cons, ih]

/-- Behind no node nothing is inserted. -/
theorem load_none (pieces : List Text) : ∀ (h : List Node) (made : Nat),
    pieces.foldl yxInsertStr ⟨h, none, made⟩ = ⟨h, none, made⟩ := by
  induction pieces with
  | nil => exact fun h made => rfl
  | cons str pieces ih =>
      intro h made
      have hstep : yxInsertStr ⟨h, none, made⟩ str = ⟨h, none, made⟩ := by
        rw [yxInsertStr]
        split <;> rfl
      rw [List.foldl_cons, hstep, ih]

/-- The loop, behind the last node of a list. -/
theorem load_pieces (pieces : List Text) : ∀ (h : List Node) (p made : Nat), p + 1 = h.length →
    (pieces.foldl yxInsertStr ⟨h, some p, made⟩).yx_head
        = h ++ nodesFrom made (tasksUntilBad pieces) ∧
      (pieces.foldl yxInsertStr ⟨h, some p, made⟩).made
        = made + (tasksUntilBad pieces).length := by
  induction pieces with
  | nil => exact fun h p made _ => ⟨(List.append_nil h).symm, rfl⟩
  | cons str pieces ih =>
      intro h p made hp
      rw [List.foldl_cons, yxInsertStr, tasksUntilBad]
      cases hscan : scanTask str with
      | none =>
          dsimp only
          rw [load_none]
          exact ⟨(List.append_nil h).symm, rfl⟩
      | some task =>
          dsimp only [yxInsert]
          rw [hp, List.take_length, List.drop_length]
          obtain ⟨hhead, hmade⟩ := ih (h ++ [⟨made, task, 0⟩]) h.length (made + 1) (by simp)
          rw [hhead, hmade, nodesFrom, List.append_assoc, List.singleton_append, List.length_cons]
          exact ⟨rfl, by omega⟩

theorem load_spec (s : State) (file : PriorityFile) :
    (load s file).yx_head
        = nodesFrom s.made ((0, 0, 0) :: tasksUntilBad (fgetsLines 64 file.text)) ∧
      (load s file).made = s.made + ((tasksUntilBad (fgetsLines 64 file.text)).length + 1) := by
  obtain ⟨hhead, hmade⟩ :=
    load_pieces (fgetsLines 64 file.text) [⟨s.made, (0, 0, 0), 0⟩] 0 (s.made + 1) rfl
  exact ⟨hhead, hmade.trans (by omega)⟩

theorem yxFind_isSome {h : List Node} {task : TaskNo} :
    (yxFind h task).isSome ↔ task ∈ h.map Node.task := by
  rw [yxFind, List.find?_isSome, List.mem_map]
  simp only [decide_eq_true_eq]

/-- After a reload that has read the file. -/
theorem find_load {s : State} {file : PriorityFile} {task : TaskNo} (h : task ≠ (0, 0, 0)) :
    (yxFind (load s file).yx_head task).isSome ↔
      task ∈ tasksUntilBad (fgetsLines 64 file.text) := by
  rw [yxFind_isSome, (load_spec s file).1, map_task_nodesFrom, List.mem_cons, or_iff_right h]

/-! ### The nodes -/

/-- Every node that was allocated is in the list or was freed, and once. -/
def Exact (s : State) : Prop := (s.freed ++ s.yx_head.map Node.id).Perm (List.range s.made)

theorem Exact.load {s : State} (h : Exact s) (file : PriorityFile) : Exact (load s file) := by
  obtain ⟨hhead, hmade⟩ := load_spec s file
  have hfreed : (YxList.load s file).freed = s.freed ++ s.yx_head.map Node.id := rfl
  have hrange : ∀ n, List.range (s.made + n) = List.range s.made ++ List.range' s.made n := by
    intro n
    have hsplit := List.range'_append_1 (s := 0) (m := s.made) (n := n)
    rw [Nat.zero_add] at hsplit
    rw [List.range_eq_range', List.range_eq_range', hsplit]
  rw [Exact, hhead, hmade, map_id_nodesFrom, hfreed, List.length_cons, hrange]
  exact h.append_right _

theorem map_id_testList (task : TaskNo) (level : Int) (h : List Node) :
    (testList task level h).map Node.id = h.map Node.id := by
  induction h with
  | nil => rfl
  | cons p h ih =>
      rw [testList]
      split
      · rfl
      · rw [List.map_cons, List.map_cons, ih]

theorem Exact.reload {s : State} (h : Exact s) (file : Option PriorityFile) (opens : Bool) :
    Exact (yxReloadList s file opens).2 := by
  cases file with
  | none => exact h
  | some file =>
      rw [yxReloadList]
      split
      · exact h
      · split
        · exact h
        · exact h.load file

theorem Exact.step {s : State} (h : Exact s) (e : Event) : Exact (step s e) := by
  cases e with
  | reload file opens => exact h.reload file opens
  | test task level =>
      rw [Exact, YxList.step, map_id_testList]
      exact h

theorem Exact.run (events : List Event) : Exact (events.foldl YxList.step init) :=
  List.foldlRecOn events YxList.step (List.Perm.refl []) fun _ h e _ => h.step e

theorem Exact.nodes {s : State} (h : Exact s) {id : Nat} (hid : id < s.made) :
    id ∈ s.yx_head.map Node.id ∧ id ∉ s.freed ∨
      id ∉ s.yx_head.map Node.id ∧ s.freed.count id = 1 := by
  have hcount : s.freed.count id + (s.yx_head.map Node.id).count id = 1 := by
    rw [← List.count_append, h.count_eq]
    exact List.count_eq_one_of_mem List.nodup_range (List.mem_range.mpr hid)
  by_cases hmem : id ∈ s.yx_head.map Node.id
  · have := List.count_pos_iff.mpr hmem
    exact .inl ⟨hmem, List.count_eq_zero.mp (by omega)⟩
  · have := List.count_eq_zero.mpr hmem
    exact .inr ⟨hmem, by omega⟩

/-- After any reloads and tests, a reload is right exactly when it does not read the file, or the
tasks of the lines are all read in front of the first piece that names none. -/
theorem reload_right_iff (events : List Event) (file : PriorityFile) (opens : Bool) :
    ReloadRight (events.foldl step init) file opens ↔
      file.st_mtime = (events.foldl step init).yxtime ∨ opens = false ∨ ReadsLines file.text := by
  have hnodes := fun id => @Exact.nodes _ ((Exact.run events).reload (some file) opens) id
  have hskip : (yxReloadList (events.foldl step init) file opens).1 ≠ 0 →
      ReloadRight (events.foldl step init) file opens := fun h => ⟨fun h₀ => absurd h₀ h, hnodes⟩
  by_cases htime : file.st_mtime = (events.foldl step init).yxtime
  · have hret : (yxReloadList (events.foldl step init) file opens).1 = -1 := by
      rw [yxReloadList, if_pos htime]
    exact iff_of_true (hskip (by rw [hret]; decide)) (.inl htime)
  · cases opens with
    | false =>
        have hret : (yxReloadList (events.foldl step init) file false).1 = -1 := by
          rw [yxReloadList, if_neg htime, if_pos (by decide)]
        exact iff_of_true (hskip (by rw [hret]; decide)) (.inr (.inl rfl))
    | true =>
        have hread : yxReloadList (events.foldl step init) file true
            = (0, load (events.foldl step init) file) := by
          rw [yxReloadList, if_neg htime, if_neg (by decide)]
        rw [or_iff_right htime, or_iff_right (by decide)]
        constructor
        · intro h task htask
          have hfind := h.find (by rw [hread]) task htask
          rw [hread, find_load htask] at hfind
          exact hfind
        · intro h
          refine ⟨fun _ task htask => ?_, hnodes⟩
          rw [hread, find_load htask]
          exact h task htask

/-- The line in front names no task, and the task of the next line is not in the list. -/
theorem line_lost : ¬ ∀ (events : List Event) (file : PriorityFile) (opens : Bool),
    ReloadRight (events.foldl step init) file opens := by
  intro h
  have hfind := (h [] ⟨"x\n1.2.3\n".toList, 1⟩ true).find rfl (1, 2, 3) (by decide)
  have hmem : (1, 2, 3) ∈ tasksOf "x\n1.2.3\n".toList := by decide +kernel
  exact absurd (hfind.mpr hmem) (by decide +kernel)

end Edm.Maillist.YxList
