import Edm.Support.History
import Edm.Support.StdMap
import Edm.DeliverHelp.Report

/-!
# DeliverHelp — Worker

`thread_http_process` and its handle of the database.  `make_mysql_instance` connects when the
thread has no handle; the thread passes what it returns to a task, and closes the handle behind
each task, or with keepalive at its end.

When the connection fails, the handle is closed and deleted, and the reference still points to it:
the next task gets it, or it is closed once more (`handlesRight_iff`).
-/

namespace Edm.DeliverHelp
open Support

/-! ### What a task asks -/

/-- The functions through which a task asks the database: `query_context_result`, and
`mysql_common_query`, which looks whether there is a handle. -/
inductive Query where
  | context
  | common
  deriving DecidableEq

/-- A task: the fields of its url if `parse_task_action` accepts it, what stands on the stack behind
the bytes of `check_inet_addr`, whether the record of a report is put, and the number of records
whose rule `bdb_query_status` asks for. -/
structure Task where
  param : Option (StdMap Text Text)
  beyond : Text
  put : Bool
  records : Nat

/-- `tctx->action.param[field]`, which enters the field if it is not there. -/
def paramAt (param : StdMap Text Text) (field : Text) : Text × StdMap Text Text :=
  ((param.find field).getD [], param.upsert field (·.getD []))

/-- `try2forget_1001`, `try2forget_1002` and `try2forget_1003`, which differ in the statement. -/
def try2forget_100 (t : Task) (ip : Text) (param : StdMap Text Text) : List Query :=
  if param.entries.length ≠ 2 then []
  else if !checkInetAddr t.beyond (cstr ip) then []
  else [.context]

def queries_2001 (t : Task) (ip : Text) (param : StdMap Text Text) : List Query :=
  let from_ := (param.find "from".toList).getD []
  let rcpt := (param.find "rcpt".toList).getD []
  let status := (param.find "status".toList).getD []
  match try2forget_2001 t.beyond (cstr ip) from_ rcpt status with
  | none => []
  | some _ => if t.put then [.common] else []

def queries_2003 (t : Task) (param : StdMap Text Text) : List Query :=
  let ok (field : Text) (p : Text → Bool) : Bool := (param.find field).all p
  if !ok "from".toList checkDomain then []
  else if !ok "rcpt".toList fun rcpt => strcasecmpEq rcpt "other".toList || checkDomain rcpt then []
  else if !ok "status".toList fun status =>
      strcasecmpEq status "normal".toList || strcasecmpEq status "stop".toList then []
  else List.replicate t.records .common

/-- `context_process`: what it asks the database. -/
def contextProcess (t : Task) : List Query :=
  match t.param with
  | none => []
  | some param =>
      let (command, param) := paramAt param "cmd".toList
      if command.length < 1 then []
      else
        let (ip, param) := paramAt param "ip".toList
        match strtol (cstr command) with
        | none => []
        | some nid =>
            if strtolRest (cstr command) ≠ [] then []
            else if int32 nid = 1001 ∨ int32 nid = 1002 ∨ int32 nid = 1003 then
              try2forget_100 t ip param
            else if int32 nid = 2001 then queries_2001 t ip param
            else if int32 nid = 2003 then queries_2003 t param
            else []

/-! ### The thread -/

/-- What happens to the handles, which are numbered as they are made. -/
inductive DbEvent where
  /-- `mysql_real_connect` returns the handle. -/
  | connected (mysql : Nat)
  /-- `mysql_close` and `delete`. -/
  | closed (mysql : Nat)
  /-- It is passed to a task. -/
  | passed (mysqldb : Option Nat)
  /-- It is passed to `mysql_query`. -/
  | queried (mysql : Option Nat)
  deriving DecidableEq

structure Worker where
  mysql_instance : Option Nat
  made : Nat
  log : List DbEvent

namespace Worker

def init : Worker := ⟨none, 0, []⟩

def say (w : Worker) (es : List DbEvent) : Worker := { w with log := w.log ++ es }

/-- `make_mysql_instance`; `connects` says which calls of `mysql_real_connect` succeed. -/
def makeMysqlInstance (connects : Nat → Bool) (w : Worker) : Worker × Option Nat :=
  match w.mysql_instance with
  | some mysql => (w, some mysql)
  | none =>
      let w' := { w with mysql_instance := some w.made, made := w.made + 1 }
      if connects w.made then (w'.say [.connected w.made], some w.made)
      -- What the reference points to is deleted, and the reference is not changed.
      else (w'.say [.closed w.made], none)

/-- `mysql_close(mysql_instance); delete mysql_instance; mysql_instance = NULL;`. -/
def close (w : Worker) : Worker :=
  match w.mysql_instance with
  | none => w
  | some mysql => { w.say [.closed mysql] with mysql_instance := none }

/-- `mysql_query` is called for a task. -/
def asks (mysqldb : Option Nat) : Query → List DbEvent
  | .context => [.queried mysqldb]
  | .common => if mysqldb.isNone then [] else [.queried mysqldb]

/-- One round of the loop of `thread_http_process`. -/
def round (keepalive : Bool) (connects : Nat → Bool) (w : Worker) (t : Task) : Worker :=
  let (w, mysqldb) := w.makeMysqlInstance connects
  let w := w.say (.passed mysqldb :: (contextProcess t).flatMap (asks mysqldb))
  if !keepalive then w.close else w

/-- `thread_http_process`, over the tasks until its queue is deactivated. -/
def threadHttpProcess (keepalive : Bool) (connects : Nat → Bool) (tasks : List Task) : Worker :=
  (tasks.foldl (round keepalive connects) (init.makeMysqlInstance connects).1).close

end Worker

/-! ### What is promised -/

/-- A task gets no handle or one that is open, `mysql_query` gets a handle, and no handle is closed
and deleted again. -/
def Allowed (before : List DbEvent) : DbEvent → Prop
  | .connected _ => True
  | .closed mysql => .closed mysql ∉ before
  | .passed mysqldb => ∀ mysql ∈ mysqldb, .connected mysql ∈ before ∧ .closed mysql ∉ before
  | .queried mysql => mysql ≠ none

def HandlesRight (log : List DbEvent) : Prop := Throughout Allowed log

/-- How often a thread connects when no connection fails. -/
def connections (keepalive : Bool) (tasks : List Task) : Nat :=
  if keepalive then 1 else max 1 tasks.length

namespace Worker
variable {keepalive : Bool} {connects : Nat → Bool} {w : Worker}

/-! ### What every round keeps -/

/-- The thread has no handle, or one that is open. -/
structure Law (w : Worker) : Prop where
  right : HandlesRight w.log
  /-- A handle that is still to be made was not closed. -/
  fresh : ∀ mysql, w.made ≤ mysql → .closed mysql ∉ w.log
  holds : ∀ mysql ∈ w.mysql_instance,
    .connected mysql ∈ w.log ∧ .closed mysql ∉ w.log ∧ mysql < w.made

theorem Law.init : init.Law := ⟨throughout_nil, by simp [Worker.init], by simp [Worker.init]⟩

/-- A connection that succeeds. -/
theorem Law.connect (h : w.Law) (hnone : w.mysql_instance = none)
    (hconnects : connects w.made = true) :
    (w.makeMysqlInstance connects).1.Law ∧
      (w.makeMysqlInstance connects).1.mysql_instance = some w.made ∧
      (w.makeMysqlInstance connects).2 = some w.made ∧
      (w.makeMysqlInstance connects).1.made = w.made + 1 := by
  have hmake : w.makeMysqlInstance connects =
      ({ w with mysql_instance := some w.made, made := w.made + 1 }.say [.connected w.made],
        some w.made) := by
    simp only [makeMysqlInstance, hnone, hconnects, if_true]
  rw [hmake]
  refine ⟨⟨throughout_concat.mpr ⟨h.right, trivial⟩, fun mysql hge => ?_, ?_⟩, rfl, rfl, rfl⟩
  · simpa [say] using h.fresh mysql (Nat.le_of_succ_le hge)
  · rintro mysql ⟨⟩
    exact ⟨by simp [say], by simpa [say] using h.fresh w.made (Nat.le_refl _), Nat.lt_succ_self _⟩

/-- What a task does. -/
theorem Law.passed (h : w.Law) {mysql : Nat} (hmysql : w.mysql_instance = some mysql)
    (queries : List Query) :
    (w.say (.passed (some mysql) :: queries.flatMap (asks (some mysql)))).Law := by
  obtain ⟨hopen, hclosed, hlt⟩ := h.holds mysql hmysql
  have hasks : ∀ e ∈ queries.flatMap (asks (some mysql)), e = .queried (some mysql) := by
    intro e he
    obtain ⟨query, -, hquery⟩ := List.mem_flatMap.mp he
    cases query <;> exact List.mem_singleton.mp hquery
  have hmem : ∀ m, DbEvent.closed m ∉ DbEvent.passed (some mysql) ::
      queries.flatMap (asks (some mysql)) := by
    intro m hm
    rcases List.mem_cons.mp hm with hm | hm
    · cases hm
    · cases hasks _ hm
  refine ⟨throughout_append.mpr ⟨h.right, ?_⟩, fun m hge => ?_, fun m hm => ?_⟩
  · rintro (_ | ⟨d, before⟩) e after hsplit
    · obtain ⟨rfl, -⟩ := List.cons.inj hsplit
      rintro m ⟨⟩
      rw [List.append_nil]
      exact ⟨hopen, hclosed⟩
    · have he : e ∈ queries.flatMap (asks (some mysql)) := by
        rw [List.cons_append] at hsplit
        rw [(List.cons.inj hsplit).2]
        simp
      rw [hasks e he]
      exact Option.some_ne_none mysql
  · exact fun hmem' => (List.mem_append.mp hmem').elim (h.fresh m hge) (hmem m)
  · obtain ⟨h₁, h₂, h₃⟩ := h.holds m hm
    exact ⟨List.mem_append_left _ h₁,
      fun hmem' => (List.mem_append.mp hmem').elim h₂ (hmem m), h₃⟩

/-- An open handle is closed. -/
theorem Law.close (h : w.Law) : w.close.Law := by
  rw [Worker.close]
  split
  next => exact h
  next mysql hmysql =>
    obtain ⟨-, hclosed, hlt⟩ := h.holds mysql hmysql
    refine ⟨throughout_concat.mpr ⟨h.right, hclosed⟩, fun m hge => ?_, fun m hm => nomatch hm⟩
    intro hm
    rcases List.mem_append.mp hm with hm | hm
    · exact h.fresh m hge hm
    · obtain ⟨⟩ := List.mem_singleton.mp hm
      exact Nat.lt_irrefl _ (Nat.lt_of_lt_of_le hlt hge)

theorem close_made : w.close.made = w.made := by
  rw [Worker.close]
  split <;> rfl

theorem close_mysql_instance : w.close.mysql_instance = none := by
  rw [Worker.close]
  split
  next h => exact h
  next => rfl

/-- A round whose connection, if it makes one, succeeds. -/
theorem Law.round (h : w.Law) (hconnects : w.mysql_instance = none → connects w.made = true)
    (t : Task) :
    (w.round keepalive connects t).Law ∧
      (w.round keepalive connects t).made
        = (if w.mysql_instance = none then w.made + 1 else w.made) ∧
      ((w.round keepalive connects t).mysql_instance = none ↔ keepalive = false) := by
  obtain ⟨w', mysql, hmake, hlaw, hmysql, hmade⟩ : ∃ w' mysql,
      w.makeMysqlInstance connects = (w', some mysql) ∧ w'.Law ∧ w'.mysql_instance = some mysql ∧
        w'.made = if w.mysql_instance = none then w.made + 1 else w.made := by
    cases hnone : w.mysql_instance with
    | none =>
        obtain ⟨hlaw, hmysql, hret, hmade⟩ := h.connect hnone (hconnects hnone)
        exact ⟨_, w.made, Prod.ext rfl hret, hlaw, hmysql, by rw [hmade, if_pos rfl]⟩
    | some mysql =>
        refine ⟨w, mysql, by simp only [makeMysqlInstance, hnone], h, hnone, ?_⟩
        rw [if_neg (Option.some_ne_none mysql)]
  have hpassed := hlaw.passed hmysql (contextProcess t)
  simp only [Worker.round, hmake]
  cases keepalive with
  | false => exact ⟨hpassed.close, close_made.trans hmade, iff_of_true close_mysql_instance rfl⟩
  | true =>
      refine ⟨hpassed, hmade, iff_of_false (fun hnone => ?_) (by decide)⟩
      exact Option.some_ne_none mysql (hmysql.symm.trans hnone)

/-! ### A connection that fails -/

theorem log_close : w.log <+: w.close.log := by
  rw [close]
  split
  next => exact List.prefix_rfl
  next => exact List.prefix_append ..

theorem log_round (t : Task) : w.log <+: (w.round keepalive connects t).log := by
  have hmake : w.log <+: (w.makeMysqlInstance connects).1.log := by
    rw [makeMysqlInstance]
    split
    next => exact List.prefix_rfl
    next => dsimp only; split <;> exact List.prefix_append ..
  have hsay : w.log <+: ((w.makeMysqlInstance connects).1.say
      (.passed (w.makeMysqlInstance connects).2 ::
        (contextProcess t).flatMap (asks (w.makeMysqlInstance connects).2))).log :=
    hmake.trans (List.prefix_append ..)
  simp only [Worker.round]
  split
  next => exact hsay.trans log_close
  next => exact hsay

theorem log_rounds (tasks : List Task) :
    ∀ w : Worker, w.log <+: (tasks.foldl (Worker.round keepalive connects) w).log := by
  induction tasks with
  | nil => exact fun w => List.prefix_rfl
  | cons t tasks ih => exact fun w => (log_round t).trans (ih _)

/-- What went wrong stays in the log. -/
theorem handlesRight_of_rounds {tasks : List Task}
    (h : HandlesRight (tasks.foldl (Worker.round keepalive connects) w).close.log) :
    HandlesRight w.log := by
  have hlog : w.log <+: (tasks.foldl (Worker.round keepalive connects) w).log := log_rounds tasks w
  obtain ⟨rest, hrest⟩ := hlog.trans log_close
  rw [← hrest] at h
  exact h.of_append

/-- The reference points to a handle that was closed. -/
def Dangling (w : Worker) : Prop := ∃ mysql ∈ w.mysql_instance, .closed mysql ∈ w.log

theorem Dangling.not_close (h : w.Dangling) : ¬ HandlesRight w.close.log := by
  obtain ⟨mysql, hmysql, hclosed⟩ := h
  intro hright
  simp only [close, Option.mem_def.mp hmysql, say] at hright
  exact (throughout_concat.mp hright).2 hclosed

/-- It is passed to the next task, or closed once more at the end. -/
theorem Dangling.not_rounds (h : w.Dangling) (tasks : List Task) :
    ¬ HandlesRight (tasks.foldl (Worker.round keepalive connects) w).close.log := by
  cases tasks with
  | nil => exact h.not_close
  | cons t tasks =>
      obtain ⟨mysql, hmysql, hclosed⟩ := h
      intro hright
      have hround : HandlesRight (w.round keepalive connects t).log :=
        @handlesRight_of_rounds keepalive connects _ tasks hright
      obtain ⟨rest, hrest⟩ : w.log ++ [DbEvent.passed (some mysql)] <+:
          (w.round keepalive connects t).log := by
        have hsay : w.log ++ [DbEvent.passed (some mysql)] <+: (w.say (.passed (some mysql) ::
            (contextProcess t).flatMap (asks (some mysql)))).log :=
          List.prefix_append_right_inj _ |>.mpr (List.prefix_append [_] _)
        simp only [Worker.round, makeMysqlInstance, Option.mem_def.mp hmysql]
        split
        next => exact hsay.trans log_close
        next => exact hsay
      rw [← hrest] at hround
      exact ((throughout_concat.mp hround.of_append).2 mysql rfl).2 hclosed

theorem dangling_of_fails (hnone : w.mysql_instance = none) (hfails : connects w.made = false) :
    (w.makeMysqlInstance connects).1.Dangling := by
  refine ⟨w.made, ?_, ?_⟩ <;>
    simp only [makeMysqlInstance, hnone, hfails, say, Bool.false_eq_true, if_false]
  · rfl
  · exact List.mem_append_right _ (List.mem_singleton_self _)

/-- A task for which the connection fails. -/
theorem not_right_of_fails (hnone : w.mysql_instance = none) (hfails : connects w.made = false)
    (t : Task) (tasks : List Task) :
    ¬ HandlesRight ((t :: tasks).foldl (Worker.round keepalive connects) w).close.log := by
  obtain ⟨mysql, hmysql, hclosed⟩ := dangling_of_fails hnone hfails
  have hdangling : ∀ es, ((w.makeMysqlInstance connects).1.say es).Dangling :=
    fun es => ⟨mysql, hmysql, List.mem_append_left _ hclosed⟩
  intro hright
  rw [List.foldl_cons] at hright
  cases keepalive with
  | false => exact (hdangling _).not_close (handlesRight_of_rounds hright)
  | true => exact (hdangling _).not_rounds tasks hright

/-! ### The whole thread -/

/-- With keepalive the handle of the thread serves all tasks. -/
theorem right_of_keepalive {tasks : List Task} : ∀ {w : Worker}, w.Law → w.mysql_instance ≠ none →
    HandlesRight (tasks.foldl (Worker.round true connects) w).close.log := by
  induction tasks with
  | nil => exact fun h _ => h.close.right
  | cons t tasks ih =>
      intro w h hsome
      obtain ⟨hlaw, -, hnone⟩ :=
        @Law.round true connects w h (fun hnone => absurd hnone hsome) t
      exact ih hlaw fun hinst => Bool.noConfusion (hnone.mp hinst)

/-- Without it, each task has its own. -/
theorem right_iff_of_not_keepalive {tasks : List Task} :
    ∀ {w : Worker}, w.Law → w.mysql_instance = none →
      (HandlesRight (tasks.foldl (Worker.round false connects) w).close.log ↔
        ∀ n, w.made ≤ n → n < w.made + tasks.length → connects n = true) := by
  induction tasks with
  | nil => exact fun h _ => iff_of_true h.close.right fun n h₁ h₂ => absurd h₂ (by simpa using h₁)
  | cons t tasks ih =>
      intro w h hnone
      cases hconnects : connects w.made with
      | false =>
          refine iff_of_false (not_right_of_fails hnone hconnects t tasks) fun hall => ?_
          rw [hall w.made (Nat.le_refl _) (by rw [List.length_cons]; omega)] at hconnects
          cases hconnects
      | true =>
          obtain ⟨hlaw, hmade, hinst⟩ :=
            @Law.round false connects w h (fun _ => hconnects) t
          rw [if_pos hnone] at hmade
          rw [List.foldl_cons, ih hlaw (hinst.mpr rfl), hmade, List.length_cons]
          constructor
          · intro hall n h₁ h₂
            rcases Nat.eq_or_lt_of_le h₁ with rfl | h₁
            · exact hconnects
            · exact hall n h₁ (by omega)
          · exact fun hall n h₁ h₂ => hall n (by omega) (by omega)

/-- A thread handles its database rightly exactly when all its connections succeed. -/
theorem handlesRight_iff (keepalive : Bool) (connects : Nat → Bool) (tasks : List Task) :
    HandlesRight (threadHttpProcess keepalive connects tasks).log ↔
      ∀ n < connections keepalive tasks, connects n = true := by
  have hpos : 0 < connections keepalive tasks := by
    rw [connections]
    split <;> omega
  rw [threadHttpProcess]
  cases hconnects : connects 0 with
  | false =>
      have hdangling := @dangling_of_fails connects init rfl hconnects
      refine iff_of_false (hdangling.not_rounds tasks) fun hall => ?_
      rw [hall 0 hpos] at hconnects
      cases hconnects
  | true =>
      obtain ⟨hlaw, hmysql, -, hmade⟩ := Law.init.connect rfl hconnects
      have hsome : (init.makeMysqlInstance connects).1.mysql_instance ≠ none := by
        rw [hmysql]
        exact Option.some_ne_none _
      cases keepalive with
      | true =>
          refine iff_of_true (right_of_keepalive hlaw hsome) fun n hn => ?_
          obtain rfl : n = 0 := Nat.lt_one_iff.mp hn
          exact hconnects
      | false =>
          cases tasks with
          | nil =>
              refine iff_of_true hlaw.close.right fun n hn => ?_
              obtain rfl : n = 0 := Nat.lt_one_iff.mp hn
              exact hconnects
          | cons t tasks =>
              obtain ⟨hround, hmade', hinst⟩ :=
                @Law.round false connects _ hlaw (fun hnone => absurd hnone hsome) t
              rw [if_neg hsome, hmade] at hmade'
              have hcount : connections false (t :: tasks) = tasks.length + 1 := by
                rw [connections, if_neg (by decide), List.length_cons]
                omega
              have hinit : init.made = 0 := rfl
              rw [List.foldl_cons, right_iff_of_not_keepalive hround (hinst.mpr rfl), hmade',
                hcount, hinit]
              constructor
              · intro hall n hn
                cases n with
                | zero => exact hconnects
                | succ n => exact hall (n + 1) (by omega) (by omega)
              · exact fun hall n h₁ h₂ => hall n (by omega)

/-- The first connection fails, and at its end the thread closes the handle once more. -/
theorem closed_twice :
    ¬ ∀ (keepalive : Bool) (connects : Nat → Bool) (tasks : List Task),
      HandlesRight (threadHttpProcess keepalive connects tasks).log := by
  intro h
  have hlog : (threadHttpProcess true (fun _ => false) []).log = [.closed 0, .closed 0] := by decide
  have hright := h true (fun _ => false) []
  rw [hlog] at hright
  exact hright [.closed 0] (.closed 0) [] rfl (List.mem_singleton_self _)

end Worker

end Edm.DeliverHelp
