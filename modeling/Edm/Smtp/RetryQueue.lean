import Edm.Smtp.Relay
import Edm.Smtp.RetryStore

/-!
# Smtp — the retry queue

The worker threads and the retry thread, which share the files below `g_mail_save_dir` and
`keep_retry_queue`.  A step is one lock section, one file operation, or one look at the queue
without the lock.

A worker gives up a message in three steps (`addRetryTask`): `mkdir` counts `sequeue` up and makes
the directory of the day; `write` names the file, with the number `sequeue` has by then, and writes
it; `push` puts the session on the queue.  The retry thread takes the tasks that are due off the
queue, tries each, and puts those that are left back, or writes them back to their files when the
queue is long.  When it finds the queue empty it loads a task for every file below the directory.

* `RetryState.live` are the sessions that have a file: those between `write` and `push`, those on
  the queue, and those in the hands of the retry thread.
* `RetryWatch` keeps, beside the state, which names were used and which files a scan should leave
  alone.
* **A task is in memory once** (`retry_run`).  In a run in which no save uses a second and a number
  that were used before, and no scan reads a file that was saved and not on the queue when the queue
  was found empty, or saved since, no two live sessions have one file.
-/

namespace Edm.Smtp
open Support

/-! ### The steps -/

/-- Where the retry thread stands. -/
inductive RetryPc where
  | idle
  /-- `getRetryTasks` has the iterator up to which it takes: the place of a task, or `end()`. -/
  | splicing (task_it : Option Nat)
  /-- The loop over `out_tasks`: the tasks it has kept, and those it has not reached. -/
  | sending (now : Int) (kept left : List SmtpContext)
  | requeueing (tasks : List SmtpContext)
  | rewriting (tasks : List SmtpContext)
  /-- `getRetryTasks` returned 0. -/
  | testing
  /-- `loadTasksFromDir`: the entries it has read, and the tasks it has made of them. -/
  | scanning (read : List Text) (tasks : List SmtpContext)

/-- The sessions the retry thread holds. -/
def RetryPc.tasks : RetryPc → List SmtpContext
  | .idle | .splicing _ | .testing => []
  | .sending _ kept left => kept ++ left
  | .requeueing tasks | .rewriting tasks | .scanning _ tasks => tasks

/-- What the threads share, the sessions of the workers that are giving up their message, and the
retry thread. -/
structure RetryState where
  files : PathName → Option TaskFile
  sequeue : Nat
  /-- Sessions whose directory is made, and the second it is made for. -/
  naming : List (SmtpContext × LocalTime)
  /-- Sessions whose file is written. -/
  saved : List SmtpContext
  keepRetryQueue : List SmtpContext
  pc : RetryPc

/-- The sessions that have a file. -/
def RetryState.live (s : RetryState) : List SmtpContext :=
  s.saved ++ (s.keepRetryQueue ++ s.pc.tasks)

/-- The file of a session. -/
def SmtpContext.file (ctx : SmtpContext) : PathName := resolvePath ctx.filePath

/-- The session with the name `saveRetryTask` gives its file. -/
def SmtpContext.named (conf : RetryConf) (t : LocalTime) (sequeue : Nat) (ctx : SmtpContext) :
    SmtpContext :=
  { ctx with filePath := taskPath conf t sequeue }

/-- The end of `saveRetryTask`: the file is written, if it can be opened. -/
def writeTask (good : Bool) (ctx : SmtpContext) (files : PathName → Option TaskFile) :
    PathName → Option TaskFile :=
  if good then Function.update files ctx.file (some (.ofContext ctx)) else files

/-- The file part of `delRetryTask`. -/
def removeTask (removed : Bool) (ctx : SmtpContext) (files : PathName → Option TaskFile) :
    PathName → Option TaskFile :=
  if removed then Function.update files ctx.file none else files

/-- The number of tasks `getRetryTasks` takes.  On a long queue `std::advance` goes back from the
first task, round the end of the list, and leaves all but the first `g_queue_limit_size + 1`. -/
def dueTasks (conf : RetryConf) (now : Int) (queue : List SmtpContext) : Nat :=
  if queue.length > conf.gQueueLimitSize then conf.gQueueLimitSize + 1
  else (queue.takeWhile fun task => decide (task.nextSendTime ≤ now)).length

/-- Where the iterator of `getRetryTasks` stands.  At `end()` it is behind what is pushed later,
too. -/
def taskIt (conf : RetryConf) (now : Int) (queue : List SmtpContext) : Option Nat :=
  if dueTasks conf now queue < queue.length then some (dueTasks conf now queue) else none

/-- What a thread does.  The flags tell whether the system lets it: `good` that the file can be
opened, `removed` that it can be removed. -/
inductive RetryAct where
  | mkdir (ctx : SmtpContext) (t : LocalTime)
  | write (i : Nat) (good : Bool)
  | push (i : Nat)
  | count (now : Int)
  | splice (now : Int)
  | send (a : Attempt) (removed : Bool)
  | sent
  | requeue
  | rewrite (good : Bool)
  | test
  | load (entry : Text) (now : Int)
  | loaded

/-- One attempt of the retry thread: the task it keeps, or the files it leaves without it. -/
def sendTask (svr : SmtpSvr) (relay : RelayConf) (conf : RetryConf) (now : Int) (a : Attempt)
    (removed : Bool) (files : PathName → Option TaskFile) (task : SmtpContext) :
    Option ((PathName → Option TaskFile) × Option SmtpContext) :=
  (connectMailEXchange svr relay a task).map fun r =>
    if r.err = 0 then (removeTask removed r.ctx files, none)
    else if conf.gMaxFailCount > r.ctx.curRetryCount then
      (files, some { r.ctx with
        curRetryCount := r.ctx.curRetryCount + 1
        nextSendTime := now + relay.gSendTimeInterval })
    else (removeTask removed r.ctx files, none)

/-- A step.  There is none when the thread is not there, or the program dies. -/
def retryAct (svr : SmtpSvr) (relay : RelayConf) (conf : RetryConf) (s : RetryState) :
    RetryAct → Option RetryState
  | .mkdir ctx t =>
      if ctx.filePath = [] then
        some { s with sequeue := s.sequeue % 999999 + 1, naming := s.naming ++ [(ctx, t)] }
      else none
  | .write i good =>
      s.naming[i]?.map fun (ctx, t) => { s with
        files := writeTask good (ctx.named conf t s.sequeue) s.files
        naming := s.naming.eraseIdx i
        saved := s.saved ++ [ctx.named conf t s.sequeue] }
  | .push i =>
      s.saved[i]?.map fun ctx =>
        { s with saved := s.saved.eraseIdx i, keepRetryQueue := s.keepRetryQueue ++ [ctx] }
  | .count now =>
      match s.pc with
      | .idle =>
          some { s with
            pc := if s.keepRetryQueue = [] ∨ dueTasks conf now s.keepRetryQueue = 0 then .testing
              else .splicing (taskIt conf now s.keepRetryQueue) }
      | _ => none
  | .splice now =>
      match s.pc with
      | .splicing task_it =>
          let number := task_it.getD s.keepRetryQueue.length
          some { s with
            keepRetryQueue := s.keepRetryQueue.drop number
            pc := .sending now [] (s.keepRetryQueue.take number) }
      | _ => none
  | .send a removed =>
      match s.pc with
      | .sending now kept (task :: left) =>
          (sendTask svr relay conf now a removed s.files task).map fun (files, task) =>
            { s with files := files, pc := .sending now (kept ++ task.toList) left }
      | _ => none
  | .sent =>
      match s.pc with
      | .sending _ kept [] => some { s with
          pc :=
            if kept = [] then .idle
            else if s.keepRetryQueue.length < conf.gQueueLimitSize then .requeueing kept
            else .rewriting kept }
      | _ => none
  | .requeue =>
      match s.pc with
      | .requeueing tasks =>
          some { s with keepRetryQueue := s.keepRetryQueue ++ tasks, pc := .idle }
      | _ => none
  | .rewrite good =>
      match s.pc with
      | .rewriting (task :: tasks) => some { s with
          files := writeTask good task s.files
          pc := .rewriting tasks }
      | .rewriting [] => some { s with pc := .idle }
      | _ => none
  | .test =>
      match s.pc with
      | .testing => some { s with
          pc := if s.keepRetryQueue.length < 1 then .scanning [] [] else .idle }
      | _ => none
  | .load entry now =>
      match s.pc with
      | .scanning read tasks =>
          -- what the directory lists, each entry once
          if Entry entry ∧ entry ∉ read ∧
              (s.files (resolvePath (conf.gMailSaveDir ++ entry))).isSome then
            let path := scanPath conf entry
            some { s with
              pc := .scanning (read ++ [entry])
                (tasks ++ ((s.files (resolvePath path)).map (loadTaskFromFile path now)).toList) }
          else none
      | _ => none
  | .loaded =>
      match s.pc with
      | .scanning _ tasks =>
          some { s with keepRetryQueue := s.keepRetryQueue ++ tasks, pc := .idle }
      | _ => none

/-- A state with nothing but files in it. -/
def RetryState.start (files : PathName → Option TaskFile) : RetryState :=
  ⟨files, 0, [], [], [], .idle⟩

/-- The threads go on by a step. -/
def retryStep (svr : SmtpSvr) (relay : RelayConf) (conf : RetryConf) (s : RetryState) (a : RetryAct)
    (s' : RetryState) : Prop :=
  retryAct svr relay conf s a = some s'

/-! ### What a run has used -/

/-- A state, the files left by earlier processes, the seconds and numbers that names were made of,
and the files that were saved and not on the queue when the queue was last found empty, or saved
since. -/
structure RetryWatch where
  state : RetryState
  old : PathName → Option TaskFile
  used : List (LocalTime × Nat)
  recent : List PathName

namespace RetryWatch

def start (files : PathName → Option TaskFile) : RetryWatch := ⟨.start files, files, [], []⟩

/-- What a step to `s'` adds. -/
def note (conf : RetryConf) (w : RetryWatch) (s' : RetryState) : RetryAct → RetryWatch
  | .write i _ =>
      match w.state.naming[i]? with
      | some (_, t) =>
          ⟨s', w.old, (t, w.state.sequeue) :: w.used,
            resolvePath (taskPath conf t w.state.sequeue) :: w.recent⟩
      | none => { w with state := s' }
  | .test => { w with state := s', recent := w.state.saved.map SmtpContext.file }
  | _ => { w with state := s' }

/-- The name is one of this process or of an earlier one. -/
def Known (conf : RetryConf) (w : RetryWatch) (k : PathName) : Prop :=
  (w.old k).isSome ∨ ∃ p ∈ w.used, k = resolvePath (taskPath conf p.1 p.2)

end RetryWatch

/-- The threads go on by a step, watched. -/
def watchStep (svr : SmtpSvr) (relay : RelayConf) (conf : RetryConf) (w : RetryWatch)
    (a : RetryAct) (w' : RetryWatch) : Prop :=
  (retryAct svr relay conf w.state a).map (fun s' => w.note conf s' a) = some w'

/-- A save names its file after a second and a number that no save was named after, and that name no
file of an earlier process; the path of the directory fits its buffer.  A scan reads no file that
was saved and not on the queue when the queue was found empty, or saved since; its path fits. -/
def RetryGuard (conf : RetryConf) (w : RetryWatch) : RetryAct → Prop
  | .write i _ => ∀ ctx t, w.state.naming[i]? = some (ctx, t) → conf.Fits t ∧
      (t, w.state.sequeue) ∉ w.used ∧ w.old (resolvePath (taskPath conf t w.state.sequeue)) = none
  | .load entry _ => (conf.gMailSaveDir ++ '/' :: entry).length ≤ 510 ∧
      resolvePath (conf.gMailSaveDir ++ entry) ∉ w.recent
  | _ => True

/-! ### One session for one file -/

/-- The invariant of a run: the live sessions have different files, of known names; while a scan
goes on, those it did not make itself have recent ones. -/
structure RetryInv (conf : RetryConf) (w : RetryWatch) : Prop where
  nodup : (w.state.live.map SmtpContext.file).Nodup
  fits : ∀ p ∈ w.used, conf.Fits p.1
  live : ∀ c ∈ w.state.live, w.Known conf c.file
  files : ∀ k, (w.state.files k).isSome → w.Known conf k
  scan : ∀ read tasks, w.state.pc = .scanning read tasks →
    (∀ c ∈ w.state.saved ++ w.state.keepRetryQueue, c.file ∈ w.recent) ∧
      (∀ c ∈ tasks, ∃ e ∈ read, c.file = resolvePath (conf.gMailSaveDir ++ e)) ∧
      ∀ e ∈ read, Entry e

section Step
variable {svr : SmtpSvr} {relay : RelayConf} {conf : RetryConf} {w w' : RetryWatch}
  {s' : RetryState} {a : RetryAct}

/-- A step that makes no session and no name. -/
theorem RetryInv.subperm (h : RetryInv conf w)
    (hlive : (s'.live.map SmtpContext.file).Subperm (w.state.live.map SmtpContext.file))
    (hfiles : ∀ k, (s'.files k).isSome → w.Known conf k)
    (hscan : ∀ read tasks, s'.pc = .scanning read tasks →
      (∀ c ∈ s'.saved ++ s'.keepRetryQueue, c.file ∈ w.recent) ∧
        (∀ c ∈ tasks, ∃ e ∈ read, c.file = resolvePath (conf.gMailSaveDir ++ e)) ∧
        ∀ e ∈ read, Entry e) : RetryInv conf { w with state := s' } where
  nodup := by
    obtain ⟨l, hl, hsub⟩ := hlive
    exact hl.nodup_iff.mp (hsub.nodup h.nodup)
  fits := h.fits
  live := fun c hc => by
    obtain ⟨c', hc', he⟩ := List.mem_map.mp (hlive.subset (List.mem_map_of_mem hc))
    show w.Known conf c.file
    rw [← he]
    exact h.live c' hc'
  files := hfiles
  scan := hscan

theorem isSome_writeTask {good : Bool} {ctx : SmtpContext} {files : PathName → Option TaskFile}
    {k : PathName} (h : (writeTask good ctx files k).isSome) : k = ctx.file ∨ (files k).isSome := by
  unfold writeTask at h
  split at h
  · rw [Function.update_apply] at h
    split at h
    · exact .inl ‹_›
    · exact .inr h
  · exact .inr h

theorem isSome_removeTask {removed : Bool} {ctx : SmtpContext}
    {files : PathName → Option TaskFile} {k : PathName}
    (h : (removeTask removed ctx files k).isSome) : (files k).isSome := by
  unfold removeTask at h
  split at h
  · rw [Function.update_apply] at h
    split at h
    · cases h
    · exact h
  · exact h

/-- The retry thread keeps a task under its file, or gives it up. -/
theorem sendTask_cases {now : Int} {b : Attempt} {removed : Bool}
    {files files' : PathName → Option TaskFile} {task : SmtpContext} {kept : Option SmtpContext}
    (h : sendTask svr relay conf now b removed files task = some (files', kept)) :
    (∀ k, (files' k).isSome → (files k).isSome) ∧ ∀ c ∈ kept, c.file = task.file := by
  unfold sendTask at h
  obtain ⟨r, hr, he⟩ := Option.map_eq_some_iff.mp h
  obtain ⟨hpath, -⟩ := connect_cases hr
  split at he
  · cases he
    exact ⟨fun k hk => isSome_removeTask hk, fun c hc => by cases hc⟩
  · split at he
    · cases he
      refine ⟨fun k hk => hk, fun c hc => ?_⟩
      cases hc
      exact congrArg resolvePath hpath
    · cases he
      exact ⟨fun k hk => isSome_removeTask hk, fun c hc => by cases hc⟩

/-- A new name is not known. -/
theorem not_known {t : LocalTime} {n : Nat} (h : RetryInv conf w) (hf : conf.Fits t)
    (hu : (t, n) ∉ w.used) (ho : w.old (resolvePath (taskPath conf t n)) = none) :
    ¬ w.Known conf (resolvePath (taskPath conf t n)) := by
  rintro (hk | ⟨p, hp, hk⟩)
  · rw [ho] at hk
    cases hk
  · obtain ⟨h₁, h₂⟩ := resolvePath_taskPath_inj hf (h.fits p hp) hk
    exact hu (by rw [h₁, h₂]; exact hp)

/-- **Naming a file.** -/
theorem write_retryInv {i : Nat} {good : Bool} (h : RetryInv conf w)
    (hg : RetryGuard conf w (.write i good))
    (hs : retryAct svr relay conf w.state (.write i good) = some s') :
    RetryInv conf (w.note conf s' (.write i good)) := by
  obtain ⟨⟨ctx, t⟩, hi, rfl⟩ := Option.map_eq_some_iff.mp hs
  obtain ⟨hf, hu, ho⟩ := hg ctx t hi
  have hnew := not_known h hf hu ho
  rw [RetryWatch.note, hi]
  dsimp only
  have htask : (ctx.named conf t w.state.sequeue).file =
      resolvePath (taskPath conf t w.state.sequeue) := rfl
  generalize ctx.named conf t w.state.sequeue = task at htask ⊢
  have hperm : (w.state.saved ++ [task] ++ (w.state.keepRetryQueue ++ w.state.pc.tasks)).Perm
      (task :: w.state.live) := by
    rw [List.append_assoc]
    exact List.perm_middle
  -- the names known after the step
  have hknown : ∀ k, (k = task.file ∨ w.Known conf k) →
      (w.old k).isSome ∨ ∃ p ∈ (t, w.state.sequeue) :: w.used,
        k = resolvePath (taskPath conf p.1 p.2) := by
    rintro k (rfl | hk | ⟨p, hp, hk⟩)
    · exact .inr ⟨_, List.mem_cons_self, htask⟩
    · exact .inl hk
    · exact .inr ⟨p, List.mem_cons_of_mem _ hp, hk⟩
  refine ⟨?_, ?_, fun c hc => hknown _ ?_, fun k hk => hknown k ?_, fun read tasks hpc => ?_⟩
  · refine ((hperm.map SmtpContext.file).nodup_iff).mpr ?_
    rw [List.map_cons, List.nodup_cons]
    refine ⟨fun hmem => ?_, h.nodup⟩
    obtain ⟨c, hc, he⟩ := List.mem_map.mp hmem
    rw [htask] at he
    exact hnew (he ▸ h.live c hc)
  · intro p hp
    rcases List.mem_cons.mp hp with rfl | hp
    · exact hf
    · exact h.fits p hp
  · rcases List.mem_cons.mp (hperm.mem_iff.mp hc) with rfl | hc
    · exact .inl rfl
    · exact .inr (h.live c hc)
  · exact (isSome_writeTask hk).imp id (h.files k)
  · obtain ⟨h₁, h₂, h₃⟩ := h.scan read tasks hpc
    refine ⟨fun c hc => ?_, h₂, h₃⟩
    rw [List.mem_append, List.mem_append, List.mem_singleton, or_assoc, or_left_comm] at hc
    rcases hc with rfl | hc
    · rw [htask]
      exact List.mem_cons_self
    · exact List.mem_cons_of_mem _ (h₁ c (List.mem_append.mpr hc))

/-- **Reading a file.** -/
theorem load_retryInv {entry : Text} {now : Int} (h : RetryInv conf w)
    (hg : RetryGuard conf w (.load entry now))
    (hs : retryAct svr relay conf w.state (.load entry now) = some s') :
    RetryInv conf { w with state := s' } := by
  obtain ⟨hfit, hrecent⟩ := hg
  unfold retryAct at hs
  dsimp only at hs
  split at hs
  · rename_i read tasks hpc
    split at hs
    · rename_i hentry
      obtain ⟨hent, hnew, hfile⟩ := hentry
      cases hs
      obtain ⟨h₁, h₂, h₃⟩ := h.scan read tasks hpc
      have hpath := resolvePath_scanPath hfit
      rw [hpath]
      obtain ⟨f, hf⟩ := Option.isSome_iff_exists.mp hfile
      rw [hf, Option.map_some, Option.toList_some]
      generalize htask : loadTaskFromFile (scanPath conf entry) now f = task
      have hfile' : task.file = resolvePath (conf.gMailSaveDir ++ entry) := by
        rw [← htask]; exact hpath
      have hlive : w.state.live = w.state.saved ++ (w.state.keepRetryQueue ++ tasks) := by
        rw [RetryState.live, hpc]; rfl
      have hperm : (w.state.saved ++ (w.state.keepRetryQueue ++ (tasks ++ [task]))).Perm
          (task :: w.state.live) := by
        rw [hlive, ← List.append_assoc, ← List.append_assoc, ← List.append_assoc]
        exact List.perm_append_singleton _ _
      refine ⟨?_, h.fits, fun c hc => ?_, h.files, ?_⟩
      · refine ((hperm.map SmtpContext.file).nodup_iff).mpr ?_
        rw [List.map_cons, List.nodup_cons]
        refine ⟨fun hmem => ?_, h.nodup⟩
        obtain ⟨c, hc, he⟩ := List.mem_map.mp hmem
        rw [hfile'] at he
        rw [hlive, ← List.append_assoc] at hc
        rcases List.mem_append.mp hc with hc | hc
        · exact hrecent (he ▸ h₁ c hc)
        · obtain ⟨e, hmem, hce⟩ := h₂ c hc
          exact hnew (entry_inj hent (h₃ e hmem) (he.symm.trans hce) ▸ hmem)
      · rcases List.mem_cons.mp (hperm.mem_iff.mp hc) with rfl | hc
        · rw [hfile']
          exact h.files _ hfile
        · exact h.live c hc
      · rintro read' tasks' ⟨⟩
        refine ⟨h₁, fun c hc => ?_, fun e he => ?_⟩
        · rcases List.mem_append.mp hc with hc | hc
          · obtain ⟨e, he, hce⟩ := h₂ c hc
            exact ⟨e, List.mem_append_left _ he, hce⟩
          · rw [List.mem_singleton.mp hc]
            exact ⟨entry, List.mem_append_right _ (List.mem_singleton_self _), hfile'⟩
        · rcases List.mem_append.mp he with he | he
          · exact h₃ e he
          · rw [List.mem_singleton.mp he]
            exact hent
    · cases hs
  · cases hs

/-- **Looking whether the queue is empty.**  If it is, only the workers have live sessions. -/
theorem test_retryInv (h : RetryInv conf w) (hpc : w.state.pc = .testing) {pc : RetryPc}
    (hnext : pc = .idle ∨ w.state.keepRetryQueue = [] ∧ pc = .scanning [] []) :
    RetryInv conf { w with
      state := { w.state with pc := pc }
      recent := w.state.saved.map SmtpContext.file } := by
  have htasks : pc.tasks = w.state.pc.tasks := by
    rw [hpc]
    rcases hnext with rfl | ⟨-, rfl⟩ <;> rfl
  have hlive : RetryState.live { w.state with pc := pc } = w.state.live := by
    rw [RetryState.live, htasks]
    rfl
  refine ⟨?_, h.fits, fun c hc => h.live c (hlive ▸ hc), h.files, fun read tasks hscan => ?_⟩
  · rw [hlive]
    exact h.nodup
  · rcases hnext with rfl | ⟨hq, rfl⟩
    · cases hscan
    · cases hscan
      refine ⟨fun c hc => ?_, fun c hc => absurd hc List.not_mem_nil,
        fun e he => absurd he List.not_mem_nil⟩
      rw [show RetryState.keepRetryQueue _ = [] from hq, List.append_nil] at hc
      exact List.mem_map_of_mem hc

/-- Making the directory. -/
theorem mkdir_retryInv {ctx : SmtpContext} {t : LocalTime} (h : RetryInv conf w)
    (hact : retryAct svr relay conf w.state (.mkdir ctx t) = some s') :
    RetryInv conf { w with state := s' } := by
  unfold retryAct at hact
  dsimp only at hact
  split at hact
  · cases hact
    exact h.subperm (.refl _) h.files h.scan
  · cases hact

/-- Queueing a session. -/
theorem push_retryInv {i : Nat} (h : RetryInv conf w)
    (hact : retryAct svr relay conf w.state (.push i) = some s') :
    RetryInv conf { w with state := s' } := by
  obtain ⟨ctx, hi, rfl⟩ := Option.map_eq_some_iff.mp hact
  have hsaved : (ctx :: w.state.saved.eraseIdx i).Perm w.state.saved := by
    obtain ⟨hlt, rfl⟩ := List.getElem?_eq_some_iff.mp hi
    exact List.getElem_cons_eraseIdx_perm hlt
  have hperm : (w.state.saved.eraseIdx i ++ ((w.state.keepRetryQueue ++ [ctx]) ++
      w.state.pc.tasks)).Perm w.state.live := by
    refine List.Perm.trans ?_ (hsaved.append_right _)
    rw [List.append_assoc, List.singleton_append, ← List.append_assoc]
    refine List.perm_middle.trans ?_
    rw [List.append_assoc]
    rfl
  refine h.subperm (hperm.map _).subperm h.files fun read tasks hpc => ?_
  obtain ⟨h₁, h₂, h₃⟩ := h.scan read tasks hpc
  refine ⟨fun c hc => h₁ c ?_, h₂, h₃⟩
  have : (w.state.saved.eraseIdx i ++ (w.state.keepRetryQueue ++ [ctx])).Perm
      (w.state.saved ++ w.state.keepRetryQueue) := by
    refine List.Perm.trans ?_ (hsaved.append_right _)
    rw [← List.append_assoc]
    exact List.perm_append_singleton _ _
  exact this.mem_iff.mp hc

/-- Counting the tasks that are due. -/
theorem count_retryInv {now : Int} (h : RetryInv conf w)
    (hact : retryAct svr relay conf w.state (.count now) = some s') :
    RetryInv conf { w with state := s' } := by
  unfold retryAct at hact
  dsimp only at hact
  split at hact
  · rename_i hpc
    cases hact
    refine h.subperm ?_ h.files ?_
    · rw [RetryState.live, RetryState.live, hpc]
      dsimp only
      split <;> exact .refl _
    · dsimp only
      split <;> rintro _ _ ⟨⟩
  · cases hact

/-- Taking them off the queue. -/
theorem splice_retryInv {now : Int} (h : RetryInv conf w)
    (hact : retryAct svr relay conf w.state (.splice now) = some s') :
    RetryInv conf { w with state := s' } := by
  unfold retryAct at hact
  dsimp only at hact
  split at hact
  · rename_i task_it hpc
    cases hact
    generalize task_it.getD w.state.keepRetryQueue.length = number
    refine h.subperm ?_ h.files (by rintro _ _ ⟨⟩)
    rw [RetryState.live, RetryState.live, hpc]
    refine (List.Perm.map _ (List.Perm.append_left _ ?_)).subperm
    refine List.perm_append_comm.trans ?_
    show (w.state.keepRetryQueue.take number ++ w.state.keepRetryQueue.drop number).Perm _
    rw [List.take_append_drop]
    exact .of_eq (List.append_nil _).symm
  · cases hact

/-- Trying a task. -/
theorem send_retryInv {b : Attempt} {removed : Bool} (h : RetryInv conf w)
    (hact : retryAct svr relay conf w.state (.send b removed) = some s') :
    RetryInv conf { w with state := s' } := by
  unfold retryAct at hact
  dsimp only at hact
  split at hact
  · rename_i now kept task left hpc
    obtain ⟨⟨files', task'⟩, htask, rfl⟩ := Option.map_eq_some_iff.mp hact
    obtain ⟨hfiles, hkept⟩ := sendTask_cases htask
    refine h.subperm ?_ (fun k hk => h.files k (hfiles k hk)) (by rintro _ _ ⟨⟩)
    rw [RetryState.live, RetryState.live, hpc]
    simp only [RetryPc.tasks, List.map_append, List.map_cons, List.append_assoc]
    refine (List.Sublist.append_left (List.Sublist.append_left (List.Sublist.append_left ?_ _)
      _) _).subperm
    cases task' with
    | none => exact List.sublist_cons_self _ _
    | some c =>
        show (c.file :: left.map SmtpContext.file).Sublist _
        rw [hkept c rfl]
  · cases hact

/-- The end of the loop. -/
theorem sent_retryInv (h : RetryInv conf w)
    (hact : retryAct svr relay conf w.state .sent = some s') :
    RetryInv conf { w with state := s' } := by
  unfold retryAct at hact
  dsimp only at hact
  split at hact
  · rename_i now kept hpc
    cases hact
    refine h.subperm ?_ h.files ?_
    · rw [RetryState.live, RetryState.live, hpc]
      dsimp only
      split
      · rename_i hk
        rw [hk]
        exact .refl _
      · split <;> rw [RetryPc.tasks, RetryPc.tasks, List.append_nil]
    · dsimp only
      split
      · rintro _ _ ⟨⟩
      · split <;> rintro _ _ ⟨⟩
  · cases hact

/-- Putting tasks back. -/
theorem requeue_retryInv (h : RetryInv conf w)
    (hact : retryAct svr relay conf w.state .requeue = some s') :
    RetryInv conf { w with state := s' } := by
  unfold retryAct at hact
  dsimp only at hact
  split at hact
  · rename_i tasks hpc
    cases hact
    refine h.subperm ?_ h.files (by rintro _ _ ⟨⟩)
    rw [RetryState.live, RetryState.live, hpc]
    simp only [RetryPc.tasks, List.append_nil]
    exact .refl _
  · cases hact

/-- Writing a task back to its file. -/
theorem rewrite_retryInv {good : Bool} (h : RetryInv conf w)
    (hact : retryAct svr relay conf w.state (.rewrite good) = some s') :
    RetryInv conf { w with state := s' } := by
  unfold retryAct at hact
  dsimp only at hact
  split at hact
  · rename_i task tasks hpc
    cases hact
    have hmem : task ∈ w.state.live := by
      rw [RetryState.live, hpc]
      exact List.mem_append_right _ (List.mem_append_right _ List.mem_cons_self)
    refine h.subperm ?_ (fun k hk => ?_) (by rintro _ _ ⟨⟩)
    · rw [RetryState.live, RetryState.live, hpc]
      exact (List.Sublist.map _ (List.Sublist.append_left (List.Sublist.append_left
        (List.sublist_cons_self _ _) _) _)).subperm
    · rcases isSome_writeTask hk with rfl | hk
      · exact h.live task hmem
      · exact h.files k hk
  · rename_i hpc
    cases hact
    refine h.subperm ?_ h.files (by rintro _ _ ⟨⟩)
    rw [RetryState.live, RetryState.live, hpc]
    exact .refl _
  · cases hact

/-- The end of a scan. -/
theorem loaded_retryInv (h : RetryInv conf w)
    (hact : retryAct svr relay conf w.state .loaded = some s') :
    RetryInv conf { w with state := s' } := by
  unfold retryAct at hact
  dsimp only at hact
  split at hact
  · rename_i read tasks hpc
    cases hact
    refine h.subperm ?_ h.files (by rintro _ _ ⟨⟩)
    rw [RetryState.live, RetryState.live, hpc]
    simp only [RetryPc.tasks, List.append_nil]
    exact .refl _
  · cases hact

/-- **A step keeps the invariant.** -/
theorem step_retryInv (h : RetryInv conf w) (hg : RetryGuard conf w a)
    (hs : watchStep svr relay conf w a w') : RetryInv conf w' := by
  obtain ⟨s', hact, rfl⟩ := Option.map_eq_some_iff.mp hs
  cases a with
  | write i good => exact write_retryInv h hg hact
  | load entry now => exact load_retryInv h hg hact
  | mkdir ctx t => exact mkdir_retryInv h hact
  | push i => exact push_retryInv h hact
  | count now => exact count_retryInv h hact
  | splice now => exact splice_retryInv h hact
  | send b removed => exact send_retryInv h hact
  | sent => exact sent_retryInv h hact
  | requeue => exact requeue_retryInv h hact
  | rewrite good => exact rewrite_retryInv h hact
  | test =>
      unfold retryAct at hact
      dsimp only at hact
      split at hact
      · rename_i hpc
        cases hact
        refine test_retryInv h hpc ?_
        split
        · rename_i hq
          exact .inr ⟨List.length_eq_zero_iff.mp (Nat.lt_one_iff.mp hq), rfl⟩
        · exact .inl rfl
      · cases hact
  | loaded => exact loaded_retryInv h hact

end Step

theorem start_retryInv (conf : RetryConf) (files : PathName → Option TaskFile) :
    RetryInv conf (.start files) :=
  ⟨List.nodup_nil, fun _ h => absurd h List.not_mem_nil, fun _ h => absurd h List.not_mem_nil,
    fun _ h => .inl h, by rintro _ _ ⟨⟩⟩

/-- **A task is in memory once.**  In a run in which no save uses a second and a number again and no
scan reads a file it should leave alone, no two live sessions have one `file_path`, nor two that
name one file. -/
theorem retry_run {svr : SmtpSvr} {relay : RelayConf} {conf : RetryConf}
    {files : PathName → Option TaskFile} {acts : List RetryAct} {w : RetryWatch}
    (h : Run (Guarded (RetryGuard conf) (watchStep svr relay conf)) (.start files) acts w) :
    (w.state.live.map (·.filePath)).Nodup ∧ (w.state.live.map SmtpContext.file).Nodup := by
  have hinv : RetryInv conf w :=
    h.invariant (I := RetryInv conf) (fun _ _ _ hi hs => step_retryInv hi hs.1 hs.2)
      (start_retryInv conf files)
  refine ⟨?_, hinv.nodup⟩
  have hfile : w.state.live.map SmtpContext.file =
      (w.state.live.map (·.filePath)).map resolvePath := by
    rw [List.map_map]
    rfl
  exact List.Nodup.of_map resolvePath (hfile ▸ hinv.nodup)

/-! ### Runs to look at -/

/-- A retry queue in the directory `data/`. -/
def plainRetry : RetryConf where
  gMailSaveDir := "data/".toList
  slash := ⟨"data".toList, rfl⟩
  pid := 1
  gQueueLimitSize := 10000
  gMaxFailCount := 6

/-- The first second of a day. -/
def midnight : LocalTime :=
  ⟨2026, 1, 1, 0, 0, 0, by decide, by decide, by decide, by decide, by decide⟩

/-- A session with nothing in it. -/
def plainTask : SmtpContext := .accepted "10.0.0.1".toList 2525 1000000000 0

/-- Two workers make the directory before either names its file, and both use the number of the
second.  A file is read by a scan before the worker that wrote it has put its session on the
queue. -/
theorem retry_twice :
    (∃ s, Run (retryStep plainSvr plainConf plainRetry) (.start fun _ => none)
      [.mkdir plainTask midnight, .mkdir plainTask midnight, .write 0 true, .write 0 true] s ∧
      ¬ (s.live.map (·.filePath)).Nodup) ∧
    ∃ s, Run (retryStep plainSvr plainConf plainRetry) (.start fun _ => none)
      [.mkdir plainTask midnight, .write 0 true, .count 0, .test,
        .load "20260101/H000000.P00001.S000001".toList 0, .loaded, .push 0] s ∧
      ¬ (s.live.map SmtpContext.file).Nodup := by
  have reach : ∀ (acts : List RetryAct) (p : RetryState → Prop) [DecidablePred p],
      ((acts.foldlM (retryAct plainSvr plainConf plainRetry) (.start fun _ => none)).map
        fun s => decide (p s)) = some true →
      ∃ s, Run (retryStep plainSvr plainConf plainRetry) (.start fun _ => none) acts s ∧ p s := by
    intro acts p _ h
    obtain ⟨s, hs, hp⟩ := Option.map_eq_some_iff.mp h
    exact ⟨s, Run.of_foldlM hs, of_decide_eq_true hp⟩
  exact ⟨reach _ _ (by decide), reach _ _ (by decide)⟩

/-- A worker saves a message, and the retry thread counts it.  Before it is taken off the queue,
another worker saves one in the same second, and both are taken.  The attempts fail, and both
messages are put back. -/
def twoWorkers : List RetryAct :=
  [.mkdir plainTask midnight, .write 0 true, .push 0, .count 1000000000,
    .mkdir plainTask midnight, .write 0 true, .push 0, .splice 1000000000,
    .send notFound true, .send notFound true, .sent, .requeue]

theorem retry_run_twoWorkers : ∃ w, Run (watchStep plainSvr plainConf plainRetry)
    (.start fun _ => none) twoWorkers w ∧ w.state.keepRetryQueue.length = 2 ∧
      (w.state.live.map (·.filePath)).Nodup ∧ (w.state.live.map SmtpContext.file).Nodup := by
  have hfits : plainRetry.Fits midnight := by unfold RetryConf.Fits; decide
  have hrun : ∃ w, Run (Guarded (RetryGuard plainRetry) (watchStep plainSvr plainConf plainRetry))
      (.start fun _ => none) twoWorkers w ∧ w.state.keepRetryQueue.length = 2 := by
    refine ⟨_, .more ⟨trivial, rfl⟩ <| .more ⟨?_, rfl⟩ <| .more ⟨trivial, rfl⟩ <|
      .more ⟨trivial, rfl⟩ <| .more ⟨trivial, rfl⟩ <| .more ⟨?_, rfl⟩ <| .more ⟨trivial, rfl⟩ <|
      .more ⟨trivial, rfl⟩ <| .more ⟨trivial, rfl⟩ <| .more ⟨trivial, rfl⟩ <|
      .more ⟨trivial, rfl⟩ <| .one ⟨trivial, rfl⟩, rfl⟩
    · intro ctx t h
      obtain ⟨-, rfl⟩ : plainTask = ctx ∧ midnight = t := Prod.mk.inj (Option.some.inj h)
      exact ⟨hfits, List.not_mem_nil, rfl⟩
    · intro ctx t h
      obtain ⟨-, rfl⟩ : plainTask = ctx ∧ midnight = t := Prod.mk.inj (Option.some.inj h)
      exact ⟨hfits, by decide, rfl⟩
  obtain ⟨w, h, hlen⟩ := hrun
  exact ⟨w, h.toRun, hlen, retry_run h⟩

end Edm.Smtp
