import Edm.Cachedb.SqlText
import Edm.Support.Run
import Edm.Support.Tally
import Mathlib.Algebra.Group.Pi.Basic
import Mathlib.Algebra.Ring.Int.Defs
import Mathlib.Data.List.Dedup
import Mathlib.Data.List.Nodup

/-!
# Cachedb — EventCount

The way of an event from `list_url` to MySQL.  `DBprocess` takes it from the list, `DBUpdateUrl`
adds it to the record of its task in the Berkeley DB cache, and `commit_bdbcache_to_mysql` adds
the records to the rows of the result table and deletes them from the cache.

A statement of `DBUpdateUrl` that throws takes the event with it: `DBprocess` has it off the list
already, and its handler deletes it.  And `cursor_traversal_delete` deletes a record whether its
statement was executed or not, since `execute_structured_query_language` lets no exception out.
`Domain_Update` has 64 bytes for each part of a mailbox, and mailbox and url are printed as formats.
When no statement fails and no text breaks a step, nothing is lost (`kept_run`).
-/

namespace Edm.Cachedb
open Support

/-! ### Tasks and events -/

/-- The numbers of a task. -/
structure TaskNo where
  corp_id : Int
  task_id : Int
  template_id : Int
  fits : IsInt corp_id ∧ IsInt task_id ∧ IsInt template_id
  deriving DecidableEq

/-- `"%d,%d,%d"`. -/
def TaskNo.text (t : TaskNo) : Text :=
  showInt t.corp_id ++ ',' :: (showInt t.task_id ++ ',' :: showInt t.template_id)

def UrlNode.task (un : UrlNode) : TaskNo := ⟨un.corp_id, un.task_id, un.template_id, un.idsFit⟩

/-- What the database knows and how it compares: `known` says that `tb_task` has one row of a task,
and two mailboxes are equal to it when `collate` maps them to the same text. -/
structure TaskDb where
  known : TaskNo → Bool
  collate : Text → Text

/-- The numbers of automatic tasks, which need no row. -/
def autoTask (task_id : Int) : Bool :=
  (20120700 < task_id && task_id < 20200000) || (1020120800 < task_id && task_id < 1020200000) ||
    (100000000 < task_id && task_id < 1000000000)

/-- Events of the task are counted. -/
def TaskDb.counts (db : TaskDb) (t : TaskNo) : Bool := autoTask t.task_id || db.known t

/-- The counters of a record that events change. -/
inductive Counter where
  | read_count | read_user_count | click_count | click_user_count | unsubscribe_count
  | forward_count
  deriving DecidableEq

/-- `result_t`, without the counters of sent mails. -/
abbrev Rst := Counter → Int

/-- The event is that of somebody who unsubscribes or complains. -/
def UrlNode.unsubscribes (un : UrlNode) : Bool := un.tag == 3 || un.tag == 4

/-- The event is one of those in the history. -/
def UrlNode.shows (un : UrlNode) : Bool := un.tag == 1 || un.tag == 2

/-- `DBUpdateUrl` calls `Domain_Update`. -/
def UrlNode.updatesDomain (un : UrlNode) (fresh : Bool) : Bool :=
  if un.unsubscribes then fresh else un.shows || un.tag == 5

/-- The texts `DBUpdateUrl` makes of the event run over no buffer, and none is a format that reads
arguments. -/
def UrlNode.survives (un : UrlNode) (fresh : Bool) (havior : TableName) (updatetime : Int) : Bool :=
  (!un.updatesDomain fresh || un.domain.isSome) &&
    (!un.shows || (haviorLine havior un updatetime).isSome)

/-- What an event adds; `fresh` says that the mailbox is new in its list. -/
def UrlNode.rst (un : UrlNode) (fresh : Bool) : Rst
  | .read_count => if un.tag == 2 then 1 else 0
  | .read_user_count => if un.tag == 2 && fresh then 1 else 0
  | .click_count => if un.tag == 1 then 1 else 0
  | .click_user_count => if un.tag == 1 && fresh then 1 else 0
  | .unsubscribe_count => if un.unsubscribes && fresh then 1 else 0
  | .forward_count => if un.tag == 5 then 1 else 0

/-- The key of a task's record in the cache: `BDB_RESULT` and the numbers. -/
def TaskNo.resultKey (t : TaskNo) : Text := '1' :: t.text

/-- The key of a mailbox in the history of those that opened or clicked. -/
def UrlNode.haviorKey (un : UrlNode) : Text :=
  un.ids ++ ',' :: (quoted (tolower un.mail) ++ ',' :: (if un.tag == 2 then ['1'] else ['2']))

/-! ### The store -/

/-- The list, the cache, the tables and the history.  `pushed` and `taken` only remember. -/
structure EventStore where
  list_url : List UrlNode
  cache : List (Text × Rst)
  tb_result : List (Text × Rst)
  tb_stat_task_unsubscribe : List (Text × Text)
  havior : List Text
  pushed : List UrlNode
  taken : List UrlNode

/-- The statement of `DBUpdateUrl` that throws; an insertion may have taken place. -/
inductive Statement where
  | selectTask
  | selectUnsubscribe
  | insertUnsubscribe (applied : Bool)
  deriving DecidableEq

inductive EventAct where
  /-- `ParseMessage` pushes an event. -/
  | push (un : UrlNode)
  /-- `DBprocess` takes an event; the daily file is that of `havior`. -/
  | take (throws : Option Statement) (havior : TableName) (updatetime : Int)
  /-- The list is empty. -/
  | heartbeat (throws : Bool)
  /-- `commit_bdbcache_to_mysql`; `applied` says which statements take place. -/
  | commit (applied : Text → Bool)

/-- The fields of two records added up. -/
def addRst (a b : Rst) : Rst := fun c => int32 (a c + b c)

/-- The record has something to commit. -/
def positive (r : Rst) : Bool :=
  decide (0 < r .read_count) || decide (0 < r .read_user_count) || decide (0 < r .click_count) ||
    decide (0 < r .click_user_count) || decide (0 < r .unsubscribe_count) ||
    decide (0 < r .forward_count)

namespace EventStore
variable (db : TaskDb) (s : EventStore)

/-- The mailbox of the event is not in its list yet. -/
def fresh (un : UrlNode) : Bool :=
  if un.unsubscribes then
    !s.tb_stat_task_unsubscribe.any fun r => r.1 == un.ids && db.collate r.2 == db.collate un.mail
  else if un.shows then !s.havior.contains un.haviorKey
  else false

/-- `update_cache_result`. -/
def updateCache (un : UrlNode) (fresh : Bool) : EventStore :=
  { s with cache := addAt addRst un.task.resultKey (un.rst fresh) s.cache }

/-- `insert into tb_stat_task_unsubscribe`. -/
def insertUnsubscribe (un : UrlNode) : EventStore :=
  { s with tb_stat_task_unsubscribe := (un.ids, un.mail) :: s.tb_stat_task_unsubscribe }

/-- `find_havior_history`, for an event that needs it. -/
def noteHavior (un : UrlNode) : EventStore :=
  if un.shows && !s.havior.contains un.haviorKey then
    { s with havior := un.haviorKey :: s.havior }
  else s

/-- `DBUpdateUrl`; `none` when a text runs over its buffer, or is a format that reads arguments. -/
def dbUpdateUrl (un : UrlNode) (throws : Option Statement) (havior : TableName)
    (updatetime : Int) : Option EventStore :=
  if throws = some .selectTask then some s
  else if !db.counts un.task then some s
  else if un.unsubscribes then
    if throws = some .selectUnsubscribe then some s
    else if s.fresh db un then
      match throws with
      | some (.insertUnsubscribe applied) => some (if applied then s.insertUnsubscribe un else s)
      | _ =>
          if un.survives true havior updatetime then
            some ((s.insertUnsubscribe un).updateCache un true)
          else none
    else some (s.updateCache un false)
  else if un.survives (s.fresh db un) havior updatetime then
    some ((s.noteHavior un).updateCache un (s.fresh db un))
  else none

/-- `commit_bdbcache_to_mysql` and `cursor_traversal_delete`. -/
def commit (applied : Text → Bool) : EventStore :=
  { s with
    cache := []
    tb_result := (s.cache.filter fun e => positive e.2 && applied e.1).foldl
      (fun t e => addAt (· + ·) e.1.tail e.2 t) s.tb_result }

def step : EventAct → Option EventStore
  | .push un => some { s with list_url := s.list_url ++ [un], pushed := s.pushed ++ [un] }
  | .take throws havior updatetime =>
      match s.list_url with
      | [] => some s
      | un :: list_url =>
          { s with list_url := list_url, taken := s.taken ++ [un] }.dbUpdateUrl db un throws havior
            updatetime
  | .heartbeat _ => some s
  | .commit applied => some (s.commit applied)

def init : EventStore := ⟨[], [], [], [], [], [], []⟩

/-- What stands for a task in the cache and in the table. -/
def value (t : TaskNo) : Rst :=
  total (· == t.resultKey) s.cache + total (· == t.text) s.tb_result

/-- The number of events of a task with a tag that were taken. -/
def number (t : TaskNo) (tag : Nat) : Int :=
  s.taken.countP fun un => un.task == t && un.tag == tag

/-- The mailboxes of a task that unsubscribed, as the database compares them. -/
def boxes (t : TaskNo) : List Text :=
  (s.taken.filter fun un => un.task == t && un.unsubscribes).map fun un => db.collate un.mail

/-- No event is lost or counted twice. -/
structure Kept : Prop where
  read : ∀ t, db.counts t = true → s.value t .read_count = s.number t 2
  click : ∀ t, db.counts t = true → s.value t .click_count = s.number t 1
  forward : ∀ t, db.counts t = true → s.value t .forward_count = s.number t 5
  unsubscribe : ∀ t, db.counts t = true →
    s.value t .unsubscribe_count = (s.boxes db t).dedup.length
  pushed : s.pushed = s.taken ++ s.list_url

/-- A statement throws that the event needs. -/
def lost (un : UrlNode) : Option Statement → Bool
  | none => false
  | some .selectTask => true
  | some .selectUnsubscribe => un.unsubscribes
  | some (.insertUnsubscribe _) => un.unsubscribes && s.fresh db un

/-- No statement fails that a counted event needs, no text of it breaks a step, and no counter of
the cache overflows. -/
def Careful : EventAct → Prop
  | .push _ | .heartbeat _ => True
  | .take throws _ _ => ∀ un ∈ s.list_url.head?, db.counts un.task = true →
      s.lost db un throws = false ∧
        (un.updatesDomain (s.fresh db un) = true → un.DomainFits) ∧
        (un.shows = true → '%' ∉ un.box ∧ '%' ∉ un.haviorUrl) ∧
        ∀ e ∈ s.cache, e.1 = un.task.resultKey → ∀ c, e.2 c + 1 < 2 ^ 31
  | .commit applied => ∀ e ∈ s.cache, positive e.2 = true → applied e.1 = true

end EventStore

theorem showInt_inj {y z : Int} (hy : IsInt y) (hz : IsInt z) (h : showInt y = showInt z) :
    y = z := by
  rw [← atoi_showInt hy, h, atoi_showInt hz]

theorem comma_not_mem_showInt (z : Int) : ',' ∉ showInt z :=
  not_mem_showInt (by decide) (by decide) z

/-- Behind the commas stands the third number. -/
theorem TaskNo.text_append {t t' : TaskNo} {u u' : Text} (h : t.text ++ u = t'.text ++ u') :
    showInt t.corp_id = showInt t'.corp_id ∧ showInt t.task_id = showInt t'.task_id ∧
      showInt t.template_id ++ u = showInt t'.template_id ++ u' := by
  simp only [TaskNo.text, List.append_assoc, List.cons_append] at h
  have hcut := congrArg (cut ',') h
  rw [cut_append (comma_not_mem_showInt _), cut_append (comma_not_mem_showInt _),
    Prod.mk.injEq] at hcut
  have hcut' := congrArg (cut ',') hcut.2
  rw [cut_append (comma_not_mem_showInt _), cut_append (comma_not_mem_showInt _),
    Prod.mk.injEq] at hcut'
  exact ⟨hcut.1, hcut'⟩

/-- The text of a task's numbers determines the task. -/
theorem TaskNo.text_inj {t t' : TaskNo} (h : t.text = t'.text) : t = t' := by
  obtain ⟨hcorp, htask, htemplate⟩ := TaskNo.text_append (congrArg (· ++ []) h)
  rw [List.append_nil, List.append_nil] at htemplate
  cases t with
  | mk corp task template fits =>
    cases t' with
    | mk corp' task' template' fits' =>
      obtain rfl := showInt_inj fits.1 fits'.1 hcorp
      obtain rfl := showInt_inj fits.2.1 fits'.2.1 htask
      obtain rfl := showInt_inj fits.2.2 fits'.2.2 htemplate
      rfl

theorem TaskNo.text_beq (t t' : TaskNo) : (t.text == t'.text) = (t == t') := by
  rw [Bool.eq_iff_iff, beq_iff_eq, beq_iff_eq]
  exact ⟨TaskNo.text_inj, fun h => h ▸ rfl⟩

theorem TaskNo.resultKey_beq (t t' : TaskNo) : (t.resultKey == t'.resultKey) = (t == t') := by
  rw [Bool.eq_iff_iff, beq_iff_eq, beq_iff_eq]
  exact ⟨fun h => TaskNo.text_inj (List.cons.inj h).2, fun h => h ▸ rfl⟩

/-! ### What stands for a task -/

theorem UrlNode.rst_range (un : UrlNode) (fresh : Bool) (c : Counter) :
    0 ≤ un.rst fresh c ∧ un.rst fresh c ≤ 1 := by
  cases c <;> unfold UrlNode.rst <;> split_ifs <;> decide

/-- An amount that is not counted adds nothing. -/
theorem eq_zero_of_not_positive {r : Rst} (h : positive r = false) (h₀ : ∀ c, 0 ≤ r c) : r = 0 := by
  simp only [positive, Bool.or_eq_false_iff, decide_eq_false_iff_not, Int.not_lt] at h
  funext c
  have hc := h₀ c
  cases c <;> simp only [Pi.zero_apply] <;> omega

namespace EventStore
variable {db : TaskDb} {s : EventStore}

/-- The cache adds without overflow. -/
theorem value_updateCache {un : UrlNode} {fresh : Bool} (h₀ : ∀ e ∈ s.cache, ∀ c, 0 ≤ e.2 c)
    (hroom : ∀ e ∈ s.cache, e.1 = un.task.resultKey → ∀ c, e.2 c + 1 < 2 ^ 31) (t : TaskNo) :
    (s.updateCache un fresh).value t = s.value t + if un.task = t then un.rst fresh else 0 := by
  have hexact : ∀ e ∈ s.cache, e.1 = un.task.resultKey →
      addRst e.2 (un.rst fresh) = e.2 + un.rst fresh := by
    intro e he hkey
    funext c
    have h₁ := un.rst_range fresh c
    have h₂ := h₀ e he c
    have h₃ := hroom e he hkey c
    exact int32_of_range (by omega) (by omega)
  rw [value, value, updateCache, total_addAt hexact, TaskNo.resultKey_beq, add_right_comm]
  simp only [beq_iff_eq]

theorem value_commit {applied : Text → Bool}
    (hkeys : ∀ e ∈ s.cache, ∃ t : TaskNo, e.1 = t.resultKey)
    (h₀ : ∀ e ∈ s.cache, ∀ c, 0 ≤ e.2 c) (hc : s.Careful db (.commit applied)) (t : TaskNo) :
    (s.commit applied).value t = s.value t := by
  have hall : ∀ e ∈ s.cache, (positive e.2 && applied e.1) = false → e.2 = 0 := by
    intro e he hfalse
    refine eq_zero_of_not_positive ?_ (h₀ e he)
    cases hp : positive e.2 with
    | false => rfl
    | true =>
      rw [hp, hc e he hp] at hfalse
      cases hfalse
  have htail : ∀ e ∈ s.cache, (e.1.tail == t.text) = (e.1 == t.resultKey) := by
    intro e he
    obtain ⟨t', ht'⟩ := hkeys e he
    rw [ht', TaskNo.resultKey_beq]
    exact TaskNo.text_beq t' t
  have hcache : total (fun k => k.tail == t.text) s.cache = total (· == t.resultKey) s.cache :=
    total_congr htail
  rw [value, value, commit, total_nil, zero_add, total_merge, total_filter hall, hcache, add_comm]

/-! ### The mailboxes that unsubscribed -/

/-- The rows of a task, as the database compares them. -/
def rows (db : TaskDb) (s : EventStore) (t : TaskNo) : List Text :=
  (s.tb_stat_task_unsubscribe.filter fun r => r.1 == t.text).map fun r => db.collate r.2

/-- What `DBUpdateUrl` remembers of a mailbox. -/
def noted (db : TaskDb) (s : EventStore) (un : UrlNode) : EventStore :=
  if un.unsubscribes then if s.fresh db un then s.insertUnsubscribe un else s
  else s.noteHavior un

theorem UrlNode.survives_of {un : UrlNode} {fresh : Bool} {havior : TableName} {updatetime : Int}
    (hdomain : un.updatesDomain fresh = true → un.DomainFits)
    (hline : un.shows = true → '%' ∉ un.box ∧ '%' ∉ un.haviorUrl) :
    un.survives fresh havior updatetime = true := by
  rw [UrlNode.survives, Bool.and_eq_true]
  constructor
  · cases hup : un.updatesDomain fresh with
    | false => rfl
    | true => exact isSome_domain (hdomain hup)
  · cases hshows : un.shows with
    | false => rfl
    | true => exact isSome_haviorLine havior updatetime (hline hshows).1 (hline hshows).2

/-- Nothing is printed of one who unsubscribed before. -/
theorem UrlNode.survives_false {un : UrlNode} (hun : un.unsubscribes = true) (havior : TableName)
    (updatetime : Int) : un.survives false havior updatetime = true := by
  have hshows : un.shows = false := by
    rw [UrlNode.unsubscribes, Bool.or_eq_true, beq_iff_eq, beq_iff_eq] at hun
    rw [UrlNode.shows]
    rcases hun with h | h <;> rw [h] <;> rfl
  rw [UrlNode.survives, UrlNode.updatesDomain, hun, if_pos rfl, hshows]
  rfl

/-- An event of a task that is counted, when no statement fails. -/
theorem dbUpdateUrl_eq {un : UrlNode} {throws : Option Statement} {havior : TableName}
    {updatetime : Int} (hcounts : db.counts un.task = true) (hlost : s.lost db un throws = false) :
    s.dbUpdateUrl db un throws havior updatetime
      = if un.survives (s.fresh db un) havior updatetime then
          some ((s.noted db un).updateCache un (s.fresh db un))
        else none := by
  have htask : throws ≠ some .selectTask := by
    rintro rfl
    cases hlost
  unfold dbUpdateUrl noted
  rw [if_neg htask, hcounts, Bool.not_true, if_neg Bool.false_ne_true]
  by_cases hun : un.unsubscribes = true
  · have hselect : throws ≠ some .selectUnsubscribe := by
      rintro rfl
      rw [lost, hun] at hlost
      cases hlost
    rw [if_pos hun, if_pos hun, if_neg hselect]
    cases hfresh : s.fresh db un with
    | false =>
      rw [UrlNode.survives_false hun]
      rfl
    | true =>
      match throws with
      | none => rfl
      | some .selectTask => exact absurd rfl htask
      | some .selectUnsubscribe => exact absurd rfl hselect
      | some (.insertUnsubscribe applied) =>
        rw [lost, hun, hfresh] at hlost
        cases hlost
  · rw [if_neg hun, if_neg hun]

theorem dbUpdateUrl_of_not_counts {un : UrlNode} {throws : Option Statement} {havior : TableName}
    {updatetime : Int} (hcounts : db.counts un.task = false) :
    s.dbUpdateUrl db un throws havior updatetime = some s := by
  unfold dbUpdateUrl
  rw [hcounts, Bool.not_false, if_pos rfl, ite_self]

@[simp] theorem noted_cache (un : UrlNode) : (s.noted db un).cache = s.cache := by
  unfold noted noteHavior
  split_ifs <;> rfl

@[simp] theorem noted_tb_result (un : UrlNode) : (s.noted db un).tb_result = s.tb_result := by
  unfold noted noteHavior
  split_ifs <;> rfl

@[simp] theorem noted_lists (un : UrlNode) : (s.noted db un).list_url = s.list_url ∧
    (s.noted db un).pushed = s.pushed ∧ (s.noted db un).taken = s.taken := by
  unfold noted noteHavior
  split_ifs <;> exact ⟨rfl, rfl, rfl⟩

/-- A mailbox that unsubscribes is new when no row of its task is equal to it. -/
theorem fresh_iff {un : UrlNode} (hun : un.unsubscribes = true) :
    s.fresh db un = true ↔ db.collate un.mail ∉ s.rows db un.task := by
  rw [fresh, if_pos hun, Bool.not_eq_true', ← Bool.not_eq_true, List.any_eq_true, rows]
  refine not_congr ⟨?_, fun h => ?_⟩
  · rintro ⟨r, hr, h⟩
    rw [Bool.and_eq_true, beq_iff_eq, beq_iff_eq] at h
    exact List.mem_map.mpr ⟨r, List.mem_filter.mpr ⟨hr, beq_iff_eq.mpr h.1⟩, h.2⟩
  · obtain ⟨r, hr, h⟩ := List.mem_map.mp h
    obtain ⟨hr, hids⟩ := List.mem_filter.mp hr
    refine ⟨r, hr, ?_⟩
    rw [Bool.and_eq_true]
    exact ⟨hids, beq_iff_eq.mpr h⟩

theorem rows_noted (un : UrlNode) (t : TaskNo) : (s.noted db un).rows db t
    = if un.unsubscribes = true ∧ s.fresh db un = true ∧ un.task = t then
        db.collate un.mail :: s.rows db t
      else s.rows db t := by
  have hids : (un.ids == t.text) = (un.task == t) := TaskNo.text_beq un.task t
  rw [noted]
  by_cases hun : un.unsubscribes = true
  · by_cases hfresh : s.fresh db un = true
    · rw [if_pos hun, if_pos hfresh, rows, insertUnsubscribe]
      by_cases ht : un.task = t
      · rw [if_pos ⟨hun, hfresh, ht⟩,
          List.filter_cons_of_pos (by rw [hids]; exact beq_iff_eq.mpr ht)]
        rfl
      · rw [if_neg fun h => ht h.2.2, List.filter_cons_of_neg (by rw [hids]; simpa using ht)]
        rfl
    · rw [if_pos hun, if_neg hfresh, if_neg fun h => hfresh h.2.1]
  · rw [if_neg hun, if_neg fun h => hun h.1, noteHavior]
    split <;> rfl

/-! ### The law -/

/-- What holds after careful steps. -/
structure Law (db : TaskDb) (s : EventStore) : Prop where
  keys : ∀ e ∈ s.cache, ∃ t : TaskNo, e.1 = t.resultKey
  nonneg : ∀ e ∈ s.cache, ∀ c, 0 ≤ e.2 c
  read : ∀ t, db.counts t = true → s.value t .read_count = s.number t 2
  click : ∀ t, db.counts t = true → s.value t .click_count = s.number t 1
  forward : ∀ t, db.counts t = true → s.value t .forward_count = s.number t 5
  unsubscribe : ∀ t, db.counts t = true → s.value t .unsubscribe_count = (s.rows db t).length
  nodup : ∀ t, (s.rows db t).Nodup
  same : ∀ t, db.counts t = true → ∀ x, x ∈ s.rows db t ↔ x ∈ s.boxes db t
  pushed : s.pushed = s.taken ++ s.list_url

theorem Law.init : Law db init where
  keys e he := by cases he
  nonneg e he := by cases he
  read _ _ := rfl
  click _ _ := rfl
  forward _ _ := rfl
  unsubscribe _ _ := rfl
  nodup _ := List.nodup_nil
  same _ _ _ := Iff.rfl
  pushed := rfl

theorem Law.kept (h : Law db s) : s.Kept db where
  read := h.read
  click := h.click
  forward := h.forward
  unsubscribe t ht := by
    have hperm : (s.rows db t).Perm (s.boxes db t).dedup :=
      (List.perm_ext_iff_of_nodup (h.nodup t) (List.nodup_dedup _)).mpr fun x =>
        (h.same t ht x).trans List.mem_dedup.symm
    rw [h.unsubscribe t ht, hperm.length_eq]
  pushed := h.pushed

theorem Law.push (h : Law db s) (un : UrlNode) :
    Law db { s with list_url := s.list_url ++ [un], pushed := s.pushed ++ [un] } where
  keys := h.keys
  nonneg := h.nonneg
  read := h.read
  click := h.click
  forward := h.forward
  unsubscribe := h.unsubscribe
  nodup := h.nodup
  same := h.same
  pushed := by
    rw [← List.append_assoc, ← h.pushed]

theorem Law.commit {applied : Text → Bool} (h : Law db s)
    (hc : s.Careful db (.commit applied)) : Law db (s.commit applied) := by
  have hvalue := value_commit h.keys h.nonneg hc
  constructor
  case keys =>
    intro e he
    cases he
  case nonneg =>
    intro e he
    cases he
  case read => exact fun t ht => (congrFun (hvalue t) _).trans (h.read t ht)
  case click => exact fun t ht => (congrFun (hvalue t) _).trans (h.click t ht)
  case forward => exact fun t ht => (congrFun (hvalue t) _).trans (h.forward t ht)
  case unsubscribe => exact fun t ht => (congrFun (hvalue t) _).trans (h.unsubscribe t ht)
  case nodup => exact h.nodup
  case same => exact h.same
  case pushed => exact h.pushed

/-- An event of a task that is not counted is taken and changes nothing. -/
theorem Law.ignore {un : UrlNode} {list_url : List UrlNode} (h : Law db s)
    (hlist : s.list_url = un :: list_url) (hcounts : db.counts un.task = false) :
    Law db { s with list_url := list_url, taken := s.taken ++ [un] } := by
  have hother : ∀ t, db.counts t = true → (un.task == t) = false := by
    intro t ht
    refine beq_eq_false_iff_ne.mpr ?_
    rintro rfl
    rw [ht] at hcounts
    cases hcounts
  have hnumber : ∀ t tag, db.counts t = true →
      number { s with list_url := list_url, taken := s.taken ++ [un] } t tag = s.number t tag := by
    intro t tag ht
    rw [number, number, List.countP_append, List.countP_singleton, hother t ht]
    rfl
  constructor
  case keys => exact h.keys
  case nonneg => exact h.nonneg
  case read => exact fun t ht => (h.read t ht).trans (hnumber t 2 ht).symm
  case click => exact fun t ht => (h.click t ht).trans (hnumber t 1 ht).symm
  case forward => exact fun t ht => (h.forward t ht).trans (hnumber t 5 ht).symm
  case unsubscribe => exact h.unsubscribe
  case nodup => exact h.nodup
  case same =>
    intro t ht x
    rw [boxes, List.filter_append, List.filter_cons_of_neg (by simp [hother t ht]), List.filter_nil,
      List.append_nil]
    exact h.same t ht x
  case pushed => rw [h.pushed, hlist, List.append_assoc, List.singleton_append]

/-- The event is off the list. -/
def popped (s : EventStore) (un : UrlNode) (list_url : List UrlNode) : EventStore :=
  { s with list_url := list_url, taken := s.taken ++ [un] }

section
variable {un : UrlNode} {list_url : List UrlNode}

theorem number_popped (t : TaskNo) (tag : Nat) : (s.popped un list_url).number t tag
    = s.number t tag + if un.task = t ∧ un.tag = tag then 1 else 0 := by
  rw [number, number, popped, List.countP_append, List.countP_singleton, Int.natCast_add]
  simp only [Bool.and_eq_true, beq_iff_eq, Nat.cast_ite, Nat.cast_one, Nat.cast_zero]

theorem boxes_popped (t : TaskNo) : (s.popped un list_url).boxes db t
    = s.boxes db t ++ if un.task = t ∧
      un.unsubscribes = true then [db.collate un.mail] else [] := by
  rw [boxes, boxes, popped, List.filter_append, List.map_append]
  congr 1
  by_cases hcond : un.task = t ∧ un.unsubscribes = true
  · rw [if_pos hcond, List.filter_cons_of_pos (by simpa using hcond)]
    rfl
  · rw [if_neg hcond, List.filter_cons_of_neg (by simpa using hcond)]
    rfl

theorem rows_popped (t : TaskNo) : ((s.popped un list_url).noted db un).rows db t
    = if un.unsubscribes = true ∧ s.fresh db un = true ∧ un.task = t then
        db.collate un.mail :: s.rows db t
      else s.rows db t :=
  rows_noted (s := s.popped un list_url) un t

variable (h : Law db s)
include h

/-- The rows and the mailboxes grow by the same mailbox. -/
theorem Law.noted_same (t : TaskNo) (ht : db.counts t = true) (x : Text) :
    x ∈ ((s.popped un list_url).noted db un).rows db t ↔ x ∈ (s.popped un list_url).boxes db t := by
  have hsame := h.same t ht x
  rw [boxes_popped]
  by_cases hcond : un.task = t ∧ un.unsubscribes = true
  · obtain ⟨rfl, hun⟩ := hcond
    rw [if_pos ⟨rfl, hun⟩, List.mem_append, List.mem_singleton, ← hsame, rows_popped]
    by_cases hfresh : s.fresh db un = true
    · rw [if_pos ⟨hun, hfresh, rfl⟩, List.mem_cons]
      exact or_comm
    · have hold : db.collate un.mail ∈ s.rows db un.task := by
        by_contra hnew
        exact hfresh ((fresh_iff hun).mpr hnew)
      rw [if_neg fun hc => hfresh hc.2.1]
      constructor
      · exact .inl
      · rintro (hx | rfl)
        · exact hx
        · exact hold
  · rw [if_neg hcond, List.append_nil, rows_popped, if_neg fun hc => hcond ⟨hc.2.2, hc.1⟩]
    exact hsame

theorem Law.noted_nodup (t : TaskNo) : (((s.popped un list_url).noted db un).rows db t).Nodup := by
  rw [rows_popped]
  split
  next hcond =>
    obtain ⟨hun, hfresh, rfl⟩ := hcond
    exact List.nodup_cons.mpr ⟨(fresh_iff hun).mp hfresh, h.nodup un.task⟩
  next => exact h.nodup t

/-- An event of a task that is counted is taken. -/
theorem Law.count (hlist : s.list_url = un :: list_url)
    (hroom : ∀ e ∈ s.cache, e.1 = un.task.resultKey → ∀ c, e.2 c + 1 < 2 ^ 31) :
    Law db (((s.popped un list_url).noted db un).updateCache un (s.fresh db un)) := by
  have hcache : ((s.popped un list_url).noted db un).cache = s.cache := noted_cache un
  have hvalue : ∀ t c,
      (((s.popped un list_url).noted db un).updateCache un (s.fresh db un)).value t c
        = s.value t c + if un.task = t then un.rst (s.fresh db un) c else 0 := by
    intro t c
    rw [value_updateCache (by rw [hcache]; exact h.nonneg) (by rw [hcache]; exact hroom), value,
      hcache, noted_tb_result, Pi.add_apply]
    congr 1
    split <;> rfl
  have hnumber : ∀ t tag, (((s.popped un list_url).noted db un).updateCache un
      (s.fresh db un)).number t tag = (s.popped un list_url).number t tag := by
    intro t tag
    rw [number, updateCache, (noted_lists un).2.2]
    rfl
  have hboxes : ∀ t, (((s.popped un list_url).noted db un).updateCache un
      (s.fresh db un)).boxes db t = (s.popped un list_url).boxes db t := by
    intro t
    rw [boxes, updateCache, (noted_lists un).2.2]
    rfl
  constructor
  case keys =>
    refine forall_addAt ⟨un.task, rfl⟩ ?_ fun e _ hkey => ⟨un.task, hkey ▸ rfl⟩
    rw [hcache]
    exact h.keys
  case nonneg =>
    refine forall_addAt (fun c => (un.rst_range _ c).1) ?_ ?_
    · rw [hcache]
      exact h.nonneg
    · intro e he hkey c
      rw [hcache] at he
      have h₁ := un.rst_range (s.fresh db un) c
      have h₂ := h.nonneg e he c
      have h₃ := hroom e he hkey c
      have hsum : addRst e.2 (un.rst (s.fresh db un)) c = e.2 c + un.rst (s.fresh db un) c :=
        int32_of_range (by omega) (by omega)
      exact (Int.add_nonneg h₂ h₁.1).trans_eq hsum.symm
  case read =>
    intro t ht
    rw [hvalue, hnumber, number_popped, h.read t ht]
    simp only [UrlNode.rst, beq_iff_eq, ite_and]
  case click =>
    intro t ht
    rw [hvalue, hnumber, number_popped, h.click t ht]
    simp only [UrlNode.rst, beq_iff_eq, ite_and]
  case forward =>
    intro t ht
    rw [hvalue, hnumber, number_popped, h.forward t ht]
    simp only [UrlNode.rst, beq_iff_eq, ite_and]
  case unsubscribe =>
    intro t ht
    have hrows : (((s.popped un list_url).noted db un).updateCache un (s.fresh db un)).rows db t
        = _ := rows_popped t
    rw [hvalue, hrows, h.unsubscribe t ht]
    by_cases hcond : un.unsubscribes = true ∧ s.fresh db un = true ∧ un.task = t
    · obtain ⟨hun, hfresh, rfl⟩ := hcond
      rw [if_pos rfl, if_pos ⟨hun, hfresh, rfl⟩, List.length_cons, Int.natCast_add,
        UrlNode.rst, hun,
        hfresh]
      rfl
    · rw [if_neg hcond]
      have hnone : (if un.task = t then un.rst (s.fresh db un) .unsubscribe_count else 0) = 0 := by
        simp only [UrlNode.rst, Bool.and_eq_true]
        split_ifs with hut hboth
        · exact absurd ⟨hboth.1, hboth.2, hut⟩ hcond
        · rfl
        · rfl
      rw [hnone, Int.add_zero]
  case nodup => exact h.noted_nodup
  case same =>
    intro t ht x
    rw [hboxes]
    exact h.noted_same t ht x
  case pushed =>
    obtain ⟨hurl, hpushed, htaken⟩ : ((s.popped un list_url).noted db un).list_url = list_url ∧
        ((s.popped un list_url).noted db un).pushed = s.pushed ∧
          ((s.popped un list_url).noted db un).taken = s.taken ++ [un] := noted_lists un
    rw [updateCache, hurl, hpushed, htaken, h.pushed, hlist, List.append_assoc,
      List.singleton_append]

end

/-- A careful step is possible and keeps the law. -/
theorem Law.step {a : EventAct} (h : Law db s) (hc : s.Careful db a) :
    ∃ s', s.step db a = some s' ∧ Law db s' := by
  cases a with
  | push un => exact ⟨_, rfl, h.push un⟩
  | heartbeat throws => exact ⟨_, rfl, h⟩
  | commit applied => exact ⟨_, rfl, h.commit hc⟩
  | take throws havior updatetime =>
    unfold EventStore.step
    cases hlist : s.list_url with
    | nil => exact ⟨_, rfl, h⟩
    | cons un list_url =>
      cases hcounts : db.counts un.task with
      | false => exact ⟨_, dbUpdateUrl_of_not_counts hcounts, h.ignore hlist hcounts⟩
      | true =>
        obtain ⟨hlost, hdomain, hline, hroom⟩ := hc un (by rw [hlist]; rfl) hcounts
        have hlost' : (s.popped un list_url).lost db un throws = false := hlost
        have hsurvives : un.survives ((s.popped un list_url).fresh db un) havior updatetime = true :=
          UrlNode.survives_of hdomain hline
        exact ⟨_, (dbUpdateUrl_eq hcounts hlost').trans (if_pos hsurvives), h.count hlist hroom⟩

end EventStore

/-- No event is lost in a run of careful steps, and the next careful step is possible. -/
theorem kept_run {db : TaskDb} {as : List EventAct} {s : EventStore}
    (h : Run (Guarded (EventStore.Careful db) fun s a s' => s.step db a = some s') .init as s) :
    s.Kept db ∧ ∀ a, s.Careful db a → (s.step db a).isSome = true := by
  have hlaw : EventStore.Law db s := by
    refine h.invariant (fun s a s' hlaw hstep => ?_) .init
    obtain ⟨s'', hs'', hlaw''⟩ := hlaw.step hstep.1
    exact Option.some.inj (hs''.symm.trans hstep.2) ▸ hlaw''
  refine ⟨hlaw.kept, fun a hc => ?_⟩
  obtain ⟨s', hs', -⟩ := hlaw.step hc
  rw [hs']
  rfl

/-- The address of a sample. -/
theorem url_fits : ([] : Text).length ≤ 255 := by decide

/-- The numbers of a sample. -/
theorem ids_fit : IsInt 1 ∧ IsInt 2 ∧ IsInt 3 := by decide

/-- A mail of the task `1,2,3` was forwarded. -/
def forwarded : UrlNode where
  tag := 5
  mail := "a@b.c".toList
  url := []
  area := []
  template_id := 3
  corp_id := 1
  task_id := 2
  hour := 0
  osid := 0
  browserid := 0
  slangid := 0
  mailFits := by decide
  urlFits := url_fits
  idsFit := ids_fit

def everyTask : TaskDb := ⟨fun _ => true, id⟩

/-- The event is counted in the cache and then in the table. -/
theorem kept_run_forwarded : ∃ s : EventStore,
    s.value forwarded.task .forward_count = 1 ∧ s.cache = [] ∧ s.Kept everyTask := by
  have hsurvives : forwarded.survives false ⟨[], by decide⟩ 0 = true := by decide
  let s₁ : EventStore := { EventStore.init with list_url := [forwarded], pushed := [forwarded] }
  let s₂ := (EventStore.popped s₁ forwarded []).updateCache forwarded false
  let s₃ := s₂.commit fun _ => true
  have hrun : Run (Guarded (EventStore.Careful everyTask) fun s a s' => s.step everyTask a = some s')
      .init [.push forwarded, .take none ⟨[], by decide⟩ 0, .commit fun _ => true] s₃ := by
    have htaken : EventStore.Careful everyTask s₁ (.take none ⟨[], by decide⟩ 0) := by
      intro un hun _
      obtain rfl := Option.some.inj hun
      exact ⟨rfl, fun _ _ => by decide, fun h => absurd h (by decide),
        fun e he => absurd he List.not_mem_nil⟩
    have hcommitted : EventStore.Careful everyTask s₂ (.commit fun _ => true) := fun e _ _ => rfl
    exact .more ⟨trivial, rfl⟩ (.more ⟨htaken, rfl⟩ (.one ⟨hcommitted, rfl⟩))
  exact ⟨s₃, by decide, rfl, (kept_run hrun).1⟩

/-- The flush of a record is refused: the record is deleted all the same. -/
theorem refused_flush : ¬ ∀ (db : TaskDb) (as : List EventAct) (s : EventStore),
    Run (fun s a s' => s.step db a = some s') .init as s → s.Kept db := by
  intro h
  have hkept := h everyTask [.push forwarded, .take none ⟨[], by decide⟩ 0, .commit fun _ => false]
    _ (.more rfl (.more rfl (.one rfl)))
  exact absurd (hkept.forward forwarded.task rfl) (by decide)

end Edm.Cachedb
