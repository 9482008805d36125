import Edm.Cachedb.EventCount
import Mathlib.Logic.Function.Basic

/-!
# Cachedb — Breakdown

The five tables of results.  Beside the record of its task, an event adds to records of its region,
the domain of its mailbox, its hour and its url, each under a key of its own in the cache;
`commit_bdbcache_to_mysql` makes a statement of each record and deletes it.

Each table gets the same amounts, so their sums agree, and `find_havior_history` counts a mailbox
once (`agree_run`).  That is, unless a text from outside breaks it: a part of the mailbox that does
not fit `Domain_Update`, a `%` in what is printed as a format, a domain or url that MySQL does not
read back.
-/

namespace Edm.Cachedb
open Support

/-! ### Tables and keys -/

inductive Table where
  | result | region | domain | url | hour
  deriving DecidableEq

namespace Table

/-- `BDB_RESULT`, `BDB_REGION`, `BDB_DOMAIN`, `BDB_URL` and `BDB_HOUR`. -/
def digit : Table → Char
  | result => '1'
  | region => '2'
  | domain => '3'
  | url => '4'
  | hour => '5'

/-- The table `pf_submit_select` takes a record for. -/
def ofDigit (c : Char) : Option Table := [result, region, domain, url, hour].find? (·.digit == c)

/-- What stands behind the numbers of the task in a key. -/
def keyTail : Table → Text → Text
  | result, _ => []
  | region, v | hour, v => ',' :: v
  | domain, v | url, v => ',' :: quoted v

/-- The key of a record in the cache. -/
def key (k : Table) (t : TaskNo) (v : Text) : Text := k.digit :: (t.text ++ k.keyTail v)

/-- The record is one of the task. -/
def ofTask (k : Table) (t : TaskNo) (s : Text) : Bool :=
  s == k.digit :: t.text || (k.digit :: (t.text ++ [','])).isPrefixOf s

/-- The counters an event may change in a record. -/
def moves : Table → Counter → Bool
  | result, _ | region, _ | domain, _ => true
  | url, c => c == .click_count
  | hour, c => c == .read_count || c == .click_count

/-- The columns of a table, and the counters in them; nothing is in a column for sent mails. -/
def columns : Table → List (Text × Option Counter)
  | result | domain =>
      [("email_count".toList, none), ("sent_count".toList, none), ("reach_count".toList, none),
        ("read_count".toList, some .read_count), ("read_user_count".toList, some .read_user_count),
        ("click_count".toList, some .click_count),
        ("click_user_count".toList, some .click_user_count),
        ("unsubscribe_count".toList, some .unsubscribe_count),
        ("forward_count".toList, some .forward_count), ("soft_bounce_count".toList, none),
        ("hard_bounce_count".toList, none), ("none_exist_count".toList, none),
        ("none_exist_count1".toList, none), ("dns_fail_count".toList, none),
        ("spam_garbage_count".toList, none)]
  | region =>
      [("read_count".toList, some .read_count), ("read_user_count".toList, some .read_user_count),
        ("click_count".toList, some .click_count),
        ("click_user_count".toList, some .click_user_count),
        ("unsubscribe_count".toList, some .unsubscribe_count),
        ("forward_count".toList, some .forward_count)]
  | url => [("click_count".toList, some .click_count)]
  | hour =>
      [("read_count".toList, some .read_count), ("read_user_count".toList, some .read_user_count),
        ("click_count".toList, some .click_count),
        ("click_user_count".toList, some .click_user_count)]

/-- The counters of a record, in the order of its statement. -/
def counters (k : Table) (r : Rst) : List (Text × Int) :=
  k.columns.map fun c => (c.1, c.2.elim 0 r)

/-- What a statement shows of a record. -/
def shown (k : Table) (r : Rst) : Rst := fun c => if k.columns.any (·.2 == some c) then r c else 0

/-- The record has something to commit. -/
def positive (k : Table) (r : Rst) : Bool := (k.counters r).any fun c => decide (0 < c.2)

/-! ### Statements -/

/-- The last column of the key. -/
def column : Table → Text
  | result => []
  | region => ",region_id".toList
  | domain => ",email_domain".toList
  | url => ",url".toList
  | hour => ",hour".toList

/-- What stands in a statement before the key. -/
def statementHead (name : TableName) (k : Table) : Text :=
  "insert into ".toList ++ name.text ++ " (corp_id,task_id,template_id".toList ++ k.column
    ++ k.columns.flatMap (fun c => ',' :: c.1)
    ++ (if k = result then ",begin_send_time,end_send_time".toList else [])
    ++ ")  values (".toList

/-- What stands behind it. -/
def statementTail (k : Table) (r : Rst) : Text :=
  (k.counters r).flatMap (fun c => ',' :: showInt c.2)
    ++ (if k = result then ",now(),NULL".toList else [])
    ++ (if k = hour then ") ON DUPLICATE KEY UPDATE  ".toList
        else ")  ON DUPLICATE KEY UPDATE  ".toList)
    ++ [','].intercalate
      ((k.counters r).map fun c => c.1 ++ " = ".toList ++ c.1 ++ " + ".toList ++ showInt c.2)
    ++ (if k = result then
        ",begin_send_time = begin_send_time,end_send_time = end_send_time".toList else [])

/-- How much of a statement its buffer holds. -/
def size : Table → Nat
  | result | domain => 2046
  | region | hour => 1022
  | url => 510

/-- `commit_cache_…_result`, for the key without its digit. -/
def statement (name : TableName) (k : Table) (s : Text) (r : Rst) : Text :=
  (statementHead name k ++ s ++ statementTail k r).take k.size

/-- What a statement means. -/
def pieces (name : TableName) (k : Table) (t : TaskNo) (v : Text) (r : Rst) :
    List (Piece Text Char) :=
  .lit (statementHead name k ++ t.text) ::
    ((match k with
      | result => []
      | region | hour => [.lit (',' :: v)]
      | domain | url => [.lit [','], .hole v]) ++ [.lit (statementTail k r)])

end Table

/-! ### The store -/

/-- The rows of the tables: each is of a task, and of a value of the last column of the key. -/
abbrev Tables := Table → List ((TaskNo × Text) × Rst)

/-- A row grows; where there is none, it is new. -/
def Tables.add (T : Tables) (k : Table) (row : TaskNo × Text) (r : Rst) : Tables :=
  Function.update T k (addAt (· + ·) row r (T k))

/-- The cache, the tables and the history.  `counted` only remembers. -/
structure StatStore where
  bdbCache : List (Text × Rst)
  tables : Tables
  bdbHaviorHistory : List Text
  counted : List UrlNode

/-- What `cachedb` reads at its start. -/
structure StatConfig where
  map_region : List (Text × Int)
  map_bigcity : List (Text × Int)
  g_tablename : Table → TableName

inductive StatAct where
  /-- `DBUpdateUrl`.  `known` says that the database has the task, `listed` that it has the mailbox
  among those that unsubscribed. -/
  | update (un : UrlNode) (known listed : Bool) (havior : TableName) (updatetime : Int)
  /-- `commit_bdbcache_to_mysql`; `exec` is what MySQL does with a statement. -/
  | flush (exec : Text → Tables → Tables)

/-- `GetRegionId`. -/
def StatConfig.getRegionId (cfg : StatConfig) (area : Text) : Int :=
  let region_id := (cfg.map_region ++ cfg.map_bigcity).foldl
    (fun region_id e => if (strstr e.1 area).isSome then e.2 else region_id) 1
  if region_id = 1 then 999 else region_id

namespace UrlNode

/-- The value of an event in the last column of a key; `none` when it does not fit. -/
def keyValue (cfg : StatConfig) (un : UrlNode) : Table → Option Text
  | .result => some []
  | .region => some (showInt (int32 (cfg.getRegionId un.area)))
  | .domain => un.domain
  | .url => some (tolower un.url)
  | .hour => some (showInt (int32 un.hour))

/-- The tables of an event, in the order of their updates. -/
def tables (un : UrlNode) (fresh : Bool) : List Table :=
  if un.unsubscribes then if fresh then [.region, .domain, .result] else [.result]
  else if un.tag == 5 then [.region, .domain, .result]
  else if un.tag == 2 then [.region, .domain, .hour, .result]
  else if un.tag == 1 then [.region, .domain, .hour, .url, .result]
  else [.result]

/-- What an event adds to a record. -/
def amount (un : UrlNode) (fresh : Bool) (k : Table) : Rst :=
  fun c => if k.moves c then un.rst fresh c else 0

end UrlNode

namespace StatStore
variable (cfg : StatConfig) (s : StatStore)

/-- The mailbox of the event is new. -/
def fresh (un : UrlNode) (listed : Bool) : Bool :=
  if un.unsubscribes then !listed
  else un.shows && !s.bdbHaviorHistory.contains un.haviorKey

/-- `find_havior_history`, for an event that needs it. -/
def noteHavior (un : UrlNode) : StatStore :=
  if un.shows && !s.bdbHaviorHistory.contains un.haviorKey then
    { s with bdbHaviorHistory := un.haviorKey :: s.bdbHaviorHistory }
  else s

/-- The store before the records of a counted event. -/
def noted (un : UrlNode) : StatStore :=
  { s.noteHavior un with counted := s.counted ++ [un] }

/-- `update_cache_…_result`. -/
def updateCache (un : UrlNode) (fresh : Bool) (k : Table) (v : Text) : StatStore :=
  { s with bdbCache := addAt addRst ((k.key un.task v).take 1022) (un.amount fresh k) s.bdbCache }

/-- `Region_Update`, `Domain_Update`, `Hour_Update` and what `DBUpdateUrl` does itself. -/
def updateTables (un : UrlNode) (fresh : Bool) (ks : List Table) : Option StatStore :=
  ks.foldlM (fun s k => (un.keyValue cfg k).map (s.updateCache un fresh k)) s

/-- `DBUpdateUrl`; `none` when a text does not fit, or is no format. -/
def dbUpdateUrl (un : UrlNode) (known listed : Bool) (havior : TableName) (updatetime : Int) :
    Option StatStore :=
  if !(autoTask un.task_id || known) then some s
  else if un.shows && (haviorLine havior un updatetime).isNone then none
  else
    (s.noted un).updateTables cfg un (s.fresh un listed) (un.tables (s.fresh un listed))

/-- `pf_submit_select`. -/
def submit (exec : Text → Tables → Tables) (T : Tables) (e : Text × Rst) : Tables :=
  match e.1 with
  | [] => T
  | c :: key =>
      match Table.ofDigit c with
      | none => T
      | some k =>
          if k.positive e.2 then exec (k.statement (cfg.g_tablename k) key e.2) T else T

/-- `commit_bdbcache_to_mysql`. -/
def flush (exec : Text → Tables → Tables) : StatStore :=
  { s with bdbCache := [], tables := s.bdbCache.foldl (submit cfg exec) s.tables }

def step : StatAct → Option StatStore
  | .update un known listed havior updatetime =>
      s.dbUpdateUrl cfg un known listed havior updatetime
  | .flush exec => some (s.flush cfg exec)

def init : StatStore := ⟨[], fun _ => [], [], []⟩

/-- What stands for a task in the records of a table, in the cache and in MySQL together. -/
def value (k : Table) (t : TaskNo) : Rst :=
  total (k.ofTask t) s.bdbCache + total (·.1 == t) (s.tables k)

/-- The mailboxes of the counted events of a task with a tag, compared without case. -/
def boxes (t : TaskNo) (tag : Nat) : List Text :=
  (s.counted.filter fun un => un.task == t && un.tag == tag).map fun un => tolower un.mail

/-- The breakdowns agree with the counters of the tasks. -/
structure Agree : Prop where
  region : ∀ t c, s.value .region t c = s.value .result t c
  domain : ∀ t c, s.value .domain t c = s.value .result t c
  hour : ∀ t c, c = .read_count ∨ c = .click_count → s.value .hour t c = s.value .result t c
  url : ∀ t, s.value .url t .click_count = s.value .result t .click_count
  readers : ∀ t, s.value .result t .read_user_count = (s.boxes t 2).dedup.length
  clickers : ∀ t, s.value .result t .click_user_count = (s.boxes t 1).dedup.length

/-- MySQL does what a statement means: a row of the task grows by the counters. -/
def Executes (exec : Text → Tables → Tables) (k : Table) (t : TaskNo) (v : Text) (r : Rst) : Prop :=
  ∀ s, lex none s = some ((k.pieces (cfg.g_tablename k) t v r).flatMap meant) →
    ∀ T : Tables, ∃ w, exec s T = T.add k (t, w) (k.shown r)

/-- The statement of a record is read back, fits its buffer and is executed. -/
def Submits (exec : Text → Tables → Tables) (k : Table) (t : TaskNo) (v : Text) (r : Rst) : Prop :=
  (k = .domain ∨ k = .url → plain v = true) ∧
    (render quoted (k.pieces (cfg.g_tablename k) t v r)).length ≤ k.size ∧ Executes cfg exec k t v r

/-- No text breaks a step, no counter of the cache overflows, and no statement fails. -/
def Careful : StatAct → Prop
  | .update un known listed _ _ => (autoTask un.task_id || known) = true →
      (.domain ∈ un.tables (s.fresh un listed) → un.DomainFits) ∧
      (un.shows = true → '%' ∉ un.box ∧ '%' ∉ un.haviorUrl) ∧
      ∀ e ∈ s.bdbCache, ∀ k : Table, k.ofTask un.task e.1 = true → ∀ c, e.2 c + 1 < 2 ^ 31
  | .flush exec => ∀ k t v r, (Table.key k t v, r) ∈ s.bdbCache → k.positive r = true →
      Submits cfg exec k t v r

end StatStore

/-! ### Keys -/

/-- A text that may stand behind the numbers of a task. -/
def Behind (u : Text) : Prop := u = [] ∨ ∃ v, u = ',' :: v

theorem cut_behind {s u : Text} (hs : ',' ∉ s) (hu : Behind u) : (cut ',' (s ++ u)).1 = s := by
  rcases hu with rfl | ⟨v, rfl⟩
  · rw [List.append_nil, cut, takeWhile_ne hs]
  · rw [cut_append hs]

/-- Texts that begin with the numbers of a task differ when the tasks or the rests do. -/
theorem TaskNo.text_append_inj {t t' : TaskNo} {u u' : Text} (hu : Behind u) (hu' : Behind u')
    (h : t.text ++ u = t'.text ++ u') : t = t' ∧ u = u' := by
  obtain ⟨hcorp, htask, hlast⟩ := TaskNo.text_append h
  have htemplate : showInt t.template_id = showInt t'.template_id := by
    rw [← cut_behind (comma_not_mem_showInt t.template_id) hu, hlast,
      cut_behind (comma_not_mem_showInt _) hu']
  refine ⟨TaskNo.text_inj ?_, ?_⟩
  · rw [TaskNo.text, TaskNo.text, hcorp, htask, htemplate]
  · rw [htemplate] at hlast
    exact List.append_cancel_left hlast

namespace Table

theorem digit_inj {k k' : Table} (h : k.digit = k'.digit) : k = k' := by
  cases k <;> cases k' <;> first | rfl | exact absurd h (by decide)

@[simp] theorem ofDigit_digit (k : Table) : ofDigit k.digit = some k := by
  cases k <;> rfl

theorem behind_keyTail (k : Table) (v : Text) : Behind (k.keyTail v) := by
  cases k with
  | result => exact .inl rfl
  | region | domain | url | hour => exact .inr ⟨_, rfl⟩

theorem ofTask_iff {k : Table} {t : TaskNo} {s : Text} :
    k.ofTask t s = true ↔ ∃ u, Behind u ∧ s = k.digit :: (t.text ++ u) := by
  rw [ofTask, Bool.or_eq_true, beq_iff_eq, List.isPrefixOf_iff_prefix]
  constructor
  · rintro (rfl | ⟨v, rfl⟩)
    · exact ⟨[], .inl rfl, by rw [List.append_nil]⟩
    · exact ⟨',' :: v, .inr ⟨v, rfl⟩, by simp⟩
  · rintro ⟨u, rfl | ⟨v, rfl⟩, rfl⟩
    · exact .inl (by rw [List.append_nil])
    · exact .inr ⟨v, by simp⟩

/-- A key tells its table and its task. -/
theorem ofTask_key {k k' : Table} {t t' : TaskNo} {v : Text} :
    k.ofTask t (k'.key t' v) = true ↔ k' = k ∧ t' = t := by
  rw [ofTask_iff]
  constructor
  · rintro ⟨u, hu, h⟩
    obtain ⟨hdigit, htext⟩ := List.cons.inj h
    exact ⟨digit_inj hdigit, (TaskNo.text_append_inj (behind_keyTail k' v) hu htext).1⟩
  · rintro ⟨rfl, rfl⟩
    exact ⟨_, behind_keyTail k' v, rfl⟩

theorem key_inj {k k' : Table} {t t' : TaskNo} {v v' : Text} (h : k.key t v = k'.key t' v') :
    k = k' ∧ t = t' ∧ k.keyTail v = k'.keyTail v' := by
  obtain ⟨hdigit, htext⟩ := List.cons.inj h
  exact ⟨digit_inj hdigit, TaskNo.text_append_inj (behind_keyTail k v) (behind_keyTail k' v') htext⟩

end Table

/-- The text of an event's numbers is that of its task. -/
theorem UrlNode.ids_eq (un : UrlNode) : un.ids = un.task.text := rfl

/-- The key of the history tells the task, the tag and the mailbox. -/
theorem UrlNode.haviorKey_inj {un un' : UrlNode} (h : un.shows = true) (h' : un'.shows = true) :
    un.haviorKey = un'.haviorKey ↔
      un.task = un'.task ∧ un.tag = un'.tag ∧ tolower un.mail = tolower un'.mail := by
  have htags : ∀ un : UrlNode, un.shows = true → un.tag = 1 ∨ un.tag = 2 := by
    intro un h
    simpa [shows] using h
  constructor
  · intro hkey
    rw [haviorKey, haviorKey, ids_eq, ids_eq] at hkey
    obtain ⟨htask, hrest⟩ := TaskNo.text_append_inj (.inr ⟨_, rfl⟩) (.inr ⟨_, rfl⟩) hkey
    have hreverse := congrArg List.reverse (List.cons.inj hrest).2
    rcases htags un h with htag | htag <;> rcases htags un' h' with htag' | htag' <;>
      simp [htag, htag', quoted] at hreverse ⊢ <;> exact ⟨htask, hreverse⟩
  · rintro ⟨htask, htag, hmail⟩
    rw [haviorKey, haviorKey, ids_eq, ids_eq, htask, htag, hmail]

/-! ### Statements read back -/

namespace Table

/-- The statements of three of the tables are `upsert`s, as those of `commitDomain` and `commitUrl`
are. -/
theorem statement_eq_upsert (name : TableName) {k : Table} (hk : k = region ∨ k = domain ∨ k = url)
    (s : Text) (r : Rst) :
    k.statement name s r = upsert k.size name (k.column.drop 1) s (k.counters r) := by
  have hcolumns : k.columns.flatMap (fun c => ',' :: c.1)
      = (k.counters r).flatMap fun c => ',' :: c.1 := by
    rw [counters, List.flatMap_map]
  obtain ⟨column, hcolumn⟩ : ∃ column, k.column = ',' :: column := by
    rcases hk with rfl | rfl | rfl <;> exact ⟨_, rfl⟩
  have hresult : k ≠ result := by rcases hk with rfl | rfl | rfl <;> decide
  have hhour : k ≠ hour := by rcases hk with rfl | rfl | rfl <;> decide
  have hopen : " (corp_id,task_id,template_id,".toList
      = " (corp_id,task_id,template_id".toList ++ [','] := rfl
  unfold statement statementHead statementTail upsert
  rw [hcolumns, if_neg hresult, if_neg hresult, if_neg hhour, if_neg hresult, hcolumn, hopen,
    List.drop_one, List.tail_cons]
  -- The texts stay closed.
  generalize " (corp_id,task_id,template_id".toList = a
  generalize "insert into ".toList = b
  generalize ")  values (".toList = c
  generalize ")  ON DUPLICATE KEY UPDATE  ".toList = d
  simp only [List.append_assoc, List.append_nil, List.nil_append, List.cons_append]

theorem statement_eq (name : TableName) (k : Table) (t : TaskNo) (v : Text) (r : Rst) :
    k.statement name (t.text ++ k.keyTail v) r
      = (render quoted (k.pieces name t v r)).take k.size := by
  rw [statement]
  refine congrArg (List.take k.size) ?_
  cases k <;> simp [pieces, render, Piece.text, keyTail]

theorem quote_not_mem_statementHead (name : TableName) (k : Table) :
    quote ∉ statementHead name k := by
  have hname := name.simple.1
  have hcolumns : quote ∉ k.column ∧ quote ∉ k.columns.flatMap (fun c => ',' :: c.1) := by
    cases k <;> decide +kernel
  have hfixed : quote ∉ "insert into ".toList ∧ quote ∉ " (corp_id,task_id,template_id".toList ∧
      quote ∉ ",begin_send_time,end_send_time".toList ∧ quote ∉ ")  values (".toList := by
    decide +kernel
  obtain ⟨hinsert, hids, htimes, hvalues⟩ := hfixed
  have htimes' : quote ∉ (if k = result then ",begin_send_time,end_send_time".toList else []) := by
    split
    · exact htimes
    · exact List.not_mem_nil
  exact List.not_mem_append (List.not_mem_append (List.not_mem_append (List.not_mem_append
    (List.not_mem_append (List.not_mem_append hinsert hname) hids) hcolumns.1) hcolumns.2) htimes')
    hvalues

theorem quote_not_mem_statementTail (k : Table) (r : Rst) : quote ∉ k.statementTail r := by
  have hcomma : quote ≠ ',' := by decide
  have hnames : ∀ c ∈ k.counters r, quote ∉ c.1 := by
    have hcolumns : ∀ c ∈ k.columns, quote ∉ c.1 := by
      cases k <;> decide +kernel
    intro c hc
    obtain ⟨c', hc', rfl⟩ := List.mem_map.mp hc
    exact hcolumns c' hc'
  have hvalues : quote ∉ (k.counters r).flatMap fun c => ',' :: showInt c.2 := by
    intro h
    obtain ⟨c, -, h⟩ := List.mem_flatMap.mp h
    exact (List.mem_cons.mp h).elim hcomma (quote_not_mem_showInt c.2)
  have hupdates : quote ∉ [','].intercalate ((k.counters r).map fun c =>
      c.1 ++ " = ".toList ++ c.1 ++ " + ".toList ++ showInt c.2) := by
    refine not_mem_intercalate hcomma fun s hs => ?_
    obtain ⟨c, hc, rfl⟩ := List.mem_map.mp hs
    exact List.not_mem_append (List.not_mem_append (List.not_mem_append (List.not_mem_append
      (hnames c hc) (by decide)) (hnames c hc)) (by decide)) (quote_not_mem_showInt c.2)
  have hfixed : ∀ b : Bool, quote ∉ (if b then ",now(),NULL".toList else []) ∧
      quote ∉ (if b then ") ON DUPLICATE KEY UPDATE  ".toList
        else ")  ON DUPLICATE KEY UPDATE  ".toList) ∧
      quote ∉ (if b then
        ",begin_send_time = begin_send_time,end_send_time = end_send_time".toList else []) := by
    decide +kernel
  have hresult := hfixed (decide (k = result))
  have hhour := hfixed (decide (k = hour))
  simp only [decide_eq_true_eq] at hresult hhour
  exact List.not_mem_append (List.not_mem_append (List.not_mem_append (List.not_mem_append hvalues
    hresult.1) hhour.2.1) hupdates) hresult.2.2

/-- A statement is made of plain text and the domain or url between quotes. -/
theorem spaced_pieces (name : TableName) {k : Table} {t : TaskNo} {v : Text} {r : Rst}
    (hv : k = .region ∨ k = .hour → quote ∉ v) : Spaced (k.pieces name t v r) := by
  have hcomma : quote ≠ ',' := by decide
  have htext : quote ∉ t.text := by
    simp [TaskNo.text, quote_not_mem_showInt, hcomma]
  have hhead := List.not_mem_append (quote_not_mem_statementHead name k) htext
  have htail := quote_not_mem_statementTail k r
  have hnext : (render quoted [Piece.lit (k.statementTail r)]).head? ≠ some quote := by
    rw [render, List.flatMap_cons, List.flatMap_nil, List.append_nil, Piece.text]
    exact head_ne_of_not_mem htail
  cases k with
  | result => exact ⟨hhead, htail, trivial⟩
  | region => exact ⟨hhead, by simp [hcomma, hv (.inl rfl)], htail, trivial⟩
  | hour => exact ⟨hhead, by simp [hcomma, hv (.inr rfl)], htail, trivial⟩
  | domain | url => exact ⟨hhead, by simp [hcomma], hnext, htail, trivial⟩

/-- A statement whose text is plain and fits is read back. -/
theorem lex_statement (name : TableName) {k : Table} {t : TaskNo} {v : Text} {r : Rst}
    (hv : k = .region ∨ k = .hour → quote ∉ v) (hplain : k = .domain ∨ k = .url → plain v = true)
    (hfits : (render quoted (k.pieces name t v r)).length ≤ k.size) :
    lex none (k.statement name (t.text ++ k.keyTail v) r)
      = some ((k.pieces name t v r).flatMap meant) := by
  rw [statement_eq, lex_take_iff (spaced_pieces name hv)]
  refine ⟨hfits, fun w hw => ?_⟩
  cases k with
  | result | region | hour => simp [pieces] at hw
  | domain =>
    have hw' : w = v := by simpa [pieces] using hw
    exact hw' ▸ hplain (.inl rfl)
  | url =>
    have hw' : w = v := by simpa [pieces] using hw
    exact hw' ▸ hplain (.inr rfl)

end Table

/-! ### What an event adds -/

/-- An event adds nothing to a table it does not update. -/
theorem UrlNode.amount_of_not_mem {un : UrlNode} {fresh : Bool} {k : Table}
    (h : k ∉ un.tables fresh) : un.amount fresh k = 0 := by
  funext c
  unfold tables at h
  split_ifs at h with hun hfresh h5 h2 h1
  · obtain htag | htag : un.tag = 3 ∨ un.tag = 4 := by simpa [unsubscribes] using hun
    all_goals cases k <;> cases c <;> simp [amount, Table.moves, rst, htag] at h ⊢
  · obtain htag | htag : un.tag = 3 ∨ un.tag = 4 := by simpa [unsubscribes] using hun
    all_goals cases k <;> cases c <;> simp [amount, Table.moves, rst, htag, hfresh] at h ⊢
  · have htag : un.tag = 5 := beq_iff_eq.mp h5
    cases k <;> cases c <;> simp [amount, Table.moves, rst, htag] at h ⊢
  · have htag : un.tag = 2 := beq_iff_eq.mp h2
    cases k <;> cases c <;> simp [amount, Table.moves, rst, htag] at h ⊢
  · cases k <;> simp at h
  · cases k <;> cases c <;> simp [amount, Table.moves, rst, hun, h5, h2, h1] at h ⊢

theorem UrlNode.amount_eq (un : UrlNode) (fresh : Bool) {k : Table} {c : Counter}
    (hk : k.moves c = true) : un.amount fresh k c = un.rst fresh c := if_pos hk

theorem UrlNode.nodup_tables (un : UrlNode) (fresh : Bool) : (un.tables fresh).Nodup := by
  unfold tables
  split_ifs <;> decide

theorem UrlNode.amount_range (un : UrlNode) (fresh : Bool) (k : Table) (c : Counter) :
    0 ≤ un.amount fresh k c ∧ un.amount fresh k c ≤ 1 := by
  rw [amount]
  split
  · exact un.rst_range fresh c
  · decide

theorem length_key {k : Table} {t : TaskNo} {v : Text} (h : v.length ≤ 255) :
    (k.key t v).length ≤ 1022 := by
  have h₁ := length_showInt t.fits.1
  have h₂ := length_showInt t.fits.2.1
  have h₃ := length_showInt t.fits.2.2
  have htail : (k.keyTail v).length ≤ v.length + 3 := by
    cases k <;> simp [Table.keyTail, quoted]
  simp only [Table.key, TaskNo.text, List.length_append, List.length_cons]
  omega

/-- The value of an event is short, and a number where the key has one. -/
theorem UrlNode.keyValue_spec {cfg : StatConfig} {un : UrlNode} {k : Table} {v : Text}
    (h : un.keyValue cfg k = some v) : v.length ≤ 255 ∧ (k = .region ∨ k = .hour → quote ∉ v) := by
  cases k with
  | result =>
    obtain rfl := Option.some.inj h
    exact ⟨Nat.zero_le _, by simp⟩
  | region =>
    obtain rfl := Option.some.inj h
    have hlength := length_showInt (isInt_int32 (cfg.getRegionId un.area))
    exact ⟨by omega, fun _ => quote_not_mem_showInt _⟩
  | domain =>
    rw [keyValue, domain_eq] at h
    obtain ⟨domain, hscan, rfl⟩ := Option.map_eq_some_iff.mp h
    have hlength := length_scanDomain hscan
    rw [length_tolower]
    exact ⟨by omega, by simp⟩
  | url =>
    obtain rfl := Option.some.inj h
    rw [length_tolower]
    exact ⟨un.urlFits, by simp⟩
  | hour =>
    obtain rfl := Option.some.inj h
    have hlength := length_showInt (isInt_int32 un.hour)
    exact ⟨by omega, fun _ => quote_not_mem_showInt _⟩

/-- A record as the updates leave them. -/
def Sound (e : Text × Rst) : Prop :=
  ∃ (k : Table) (t : TaskNo) (v : Text), e.1 = k.key t v ∧ (k = .region ∨ k = .hour → quote ∉ v) ∧
    ∀ c, 0 ≤ e.2 c ∧ (k.moves c = false → e.2 c = 0)

namespace StatStore
variable {cfg : StatConfig} {s : StatStore} {un : UrlNode} {fresh : Bool}

/-- A counter of a table can take one more. -/
def Room (s : StatStore) (t : TaskNo) (k : Table) : Prop :=
  ∀ e ∈ s.bdbCache, k.ofTask t e.1 = true → ∀ c, e.2 c + 1 < 2 ^ 31

section
variable {k : Table} {v : Text} (hsound : ∀ e ∈ s.bdbCache, Sound e) (hroom : s.Room un.task k)
  (hv : un.keyValue cfg k = some v)
include hsound hroom hv

/-- Nothing overflows when the amount is added. -/
theorem addRst_amount (fresh : Bool) : ∀ e ∈ s.bdbCache, e.1 = (k.key un.task v).take 1022 →
    addRst e.2 (un.amount fresh k) = e.2 + un.amount fresh k := by
  intro e he hkey
  rw [List.take_of_length_le (length_key (un.keyValue_spec hv).1)] at hkey
  obtain ⟨k', t, v', -, -, hr⟩ := hsound e he
  have hof : k.ofTask un.task e.1 = true := hkey ▸ Table.ofTask_key.mpr ⟨rfl, rfl⟩
  funext c
  have h₁ := un.amount_range fresh k c
  have h₂ := (hr c).1
  have h₃ := hroom e he hof c
  exact int32_of_range (by omega) (by omega)

theorem value_updateCache (k' : Table) (t : TaskNo) : (s.updateCache un fresh k v).value k' t
    = s.value k' t + if k = k' ∧ un.task = t then un.amount fresh k else 0 := by
  rw [value, value, updateCache, total_addAt (addRst_amount hsound hroom hv fresh), add_right_comm,
    List.take_of_length_le (length_key (un.keyValue_spec hv).1)]
  simp only [Table.ofTask_key]

theorem sound_updateCache : ∀ e ∈ (s.updateCache un fresh k v).bdbCache, Sound e := by
  obtain ⟨hlength, hquote⟩ := un.keyValue_spec hv
  have hkey : (k.key un.task v).take 1022 = k.key un.task v :=
    List.take_of_length_le (length_key hlength)
  have hamount : ∀ c, 0 ≤ un.amount fresh k c ∧ (k.moves c = false → un.amount fresh k c = 0) :=
    fun c => ⟨(un.amount_range fresh k c).1, fun hc => by rw [UrlNode.amount, hc]; rfl⟩
  refine forall_addAt ⟨k, un.task, v, hkey, hquote, hamount⟩ hsound fun e he hek => ?_
  obtain ⟨k', t', v', hk', hquote', hr⟩ := hsound e he
  obtain rfl : k' = k := Table.digit_inj (List.cons.inj (hk'.symm.trans (hek.trans hkey))).1
  refine ⟨k', t', v', hek.symm.trans hk', hquote', fun c => ?_⟩
  rw [addRst_amount hsound hroom hv fresh e he hek]
  refine ⟨Int.add_nonneg (hr c).1 (hamount c).1, fun hc => ?_⟩
  have hsum : e.2 c + un.amount fresh k' c = 0 := by
    rw [(hr c).2 hc, (hamount c).2 hc, Int.add_zero]
  exact hsum

omit hsound hroom in
theorem room_updateCache {k' : Table} (hne : k ≠ k') (h : s.Room un.task k') :
    (s.updateCache un fresh k v).Room un.task k' := by
  have hkey : (k.key un.task v).take 1022 = k.key un.task v :=
    List.take_of_length_le (length_key (un.keyValue_spec hv).1)
  have hother : ¬ k'.ofTask un.task ((k.key un.task v).take 1022) = true := by
    rw [hkey, Table.ofTask_key]
    exact fun h => hne h.1
  exact forall_addAt (fun hof => absurd hof hother) h fun e _ _ hof => absurd hof hother

end

/-- What `updateTables` does. -/
structure Updated (s s' : StatStore) (un : UrlNode) (fresh : Bool) (ks : List Table) : Prop where
  sound : ∀ e ∈ s'.bdbCache, Sound e
  value : ∀ k t, s'.value k t = s.value k t + if k ∈ ks ∧ un.task = t then un.amount fresh k else 0
  history : s'.bdbHaviorHistory = s.bdbHaviorHistory
  counted : s'.counted = s.counted

theorem updated_of_updateTables {s' : StatStore} : ∀ {ks : List Table} {s : StatStore}, ks.Nodup →
    (∀ e ∈ s.bdbCache, Sound e) → (∀ k ∈ ks, s.Room un.task k) →
      s.updateTables cfg un fresh ks = some s' → Updated s s' un fresh ks
  | [], s, _, hsound, _, h => by
      obtain rfl := Option.some.inj h
      exact ⟨hsound, fun k t => by simp, rfl, rfl⟩
  | k :: ks, s, hnodup, hsound, hroom, h => by
      obtain ⟨hk, hks⟩ := List.nodup_cons.mp hnodup
      obtain ⟨hroomk, hroomks⟩ := List.forall_mem_cons.mp hroom
      obtain ⟨s₁, hs₁, h⟩ := Option.bind_eq_some_iff.mp h
      obtain ⟨v, hv, rfl⟩ := Option.map_eq_some_iff.mp hs₁
      have ih := updated_of_updateTables hks (sound_updateCache hsound hroomk hv)
        (fun k' hk' => room_updateCache hv (fun h => hk (h ▸ hk')) (hroomks k' hk')) h
      refine ⟨ih.sound, fun k' t => ?_, ih.history, ih.counted⟩
      rw [ih.value, value_updateCache hsound hroomk hv, add_assoc]
      congr 1
      by_cases hkk : k = k'
      · subst hkk
        simp [hk]
      · simp [hkk, Ne.symm hkk]

/-- Every text fits. -/
theorem isSome_updateTables : ∀ {ks : List Table} {s : StatStore},
    (∀ k ∈ ks, (un.keyValue cfg k).isSome = true) →
      (s.updateTables cfg un fresh ks).isSome = true
  | [], _, _ => rfl
  | k :: ks, s, h => by
      obtain ⟨hk, hks⟩ := List.forall_mem_cons.mp h
      obtain ⟨v, hv⟩ := Option.isSome_iff_exists.mp hk
      have hcons : s.updateTables cfg un fresh (k :: ks)
          = (s.updateCache un fresh k v).updateTables cfg un fresh ks := by
        rw [updateTables, List.foldlM_cons, hv]
        rfl
      rw [hcons]
      exact isSome_updateTables hks

/-! ### A flush -/

/-- A record with nothing to commit has no amount. -/
theorem zero_of_not_positive {k : Table} {r : Rst} (h : k.positive r = false)
    (hr : ∀ c, 0 ≤ r c ∧ (k.moves c = false → r c = 0)) : r = 0 := by
  simp only [Table.positive, List.any_eq_false, decide_eq_true_eq, Int.not_lt] at h
  funext c
  cases hc : k.moves c with
  | false => exact (hr c).2 hc
  | true =>
    have hcolumn : ∃ x ∈ k.columns, x.2 = some c := by
      cases k <;> cases c <;> first | decide +kernel | exact absurd hc (by decide)
    obtain ⟨x, hx, hxc⟩ := hcolumn
    have hle := h _ (List.mem_map_of_mem hx)
    rw [hxc, Option.elim_some] at hle
    exact Int.le_antisymm hle (hr c).1

/-- A statement shows all of a record. -/
theorem shown_eq {k : Table} {r : Rst} (hr : ∀ c, 0 ≤ r c ∧ (k.moves c = false → r c = 0)) :
    k.shown r = r := by
  funext c
  rw [Table.shown]
  split
  next => rfl
  next hc =>
    have hmoves : k.moves c = false := by
      cases k <;> cases c <;> first | rfl | exact absurd (by decide +kernel) hc
    exact ((hr c).2 hmoves).symm

theorem add_same (T : Tables) (k : Table) (row : TaskNo × Text) (r : Rst) :
    T.add k row r k = addAt (· + ·) row r (T k) := Function.update_self ..

theorem add_other (T : Tables) {k k' : Table} (h : k' ≠ k) (row : TaskNo × Text) (r : Rst) :
    T.add k row r k' = T k' := Function.update_of_ne h ..

/-- A record goes to a row of its task. -/
theorem total_submit {exec : Text → Tables → Tables} {e : Text × Rst} (he : Sound e)
    (hc : ∀ k t v, e.1 = Table.key k t v → k.positive e.2 = true → Submits cfg exec k t v e.2)
    (T : Tables) (k : Table) (t : TaskNo) :
    total (·.1 == t) (submit cfg exec T e k)
      = total (·.1 == t) (T k) + if k.ofTask t e.1 then e.2 else 0 := by
  obtain ⟨k', t', v, hkey, hv, hr⟩ := he
  have hof : k.ofTask t e.1 = true ↔ k' = k ∧ t' = t := by
    rw [hkey, Table.ofTask_key]
  simp only [hof]
  rw [submit, hkey, Table.key]
  dsimp only
  rw [Table.ofDigit_digit]
  dsimp only
  cases hpositive : k'.positive e.2 with
  | false =>
    rw [if_neg Bool.false_ne_true, zero_of_not_positive hpositive hr, ite_self, add_zero]
  | true =>
    obtain ⟨hplain, hfits, hexec⟩ := hc k' t' v hkey hpositive
    obtain ⟨w, hw⟩ := hexec _ (Table.lex_statement _ hv hplain hfits) T
    rw [if_pos rfl, hw, shown_eq hr]
    by_cases hk : k' = k
    · subst hk
      rw [add_same, total_addAt fun _ _ _ => rfl]
      simp
    · rw [add_other _ (Ne.symm hk), if_neg fun h => hk h.1, add_zero]

theorem total_flush {exec : Text → Tables → Tables} {k : Table} {t : TaskNo} :
    ∀ {l : List (Text × Rst)}, (∀ e ∈ l, Sound e) → (∀ e ∈ l, ∀ k t v, e.1 = Table.key k t v →
      k.positive e.2 = true → Submits cfg exec k t v e.2) → ∀ T : Tables,
    total (·.1 == t) (l.foldl (submit cfg exec) T k)
      = total (·.1 == t) (T k) + total (k.ofTask t) l
  | [], _, _, T => by rw [List.foldl_nil, total_nil, add_zero]
  | e :: l, hsound, hc, T => by
      obtain ⟨he, hl⟩ := List.forall_mem_cons.mp hsound
      obtain ⟨hce, hcl⟩ := List.forall_mem_cons.mp hc
      rw [List.foldl_cons, total_flush hl hcl, total_submit he hce, total_cons, add_assoc]

/-- A flush moves what stands in the cache to the tables. -/
theorem value_flush {exec : Text → Tables → Tables} (hsound : ∀ e ∈ s.bdbCache, Sound e)
    (hc : s.Careful cfg (.flush exec)) (k : Table) (t : TaskNo) :
    (s.flush cfg exec).value k t = s.value k t := by
  rw [value, value, flush, total_nil, zero_add, add_comm]
  exact total_flush hsound (fun e he k t v hkey => hc k t v e.2 (hkey ▸ he)) s.tables

/-! ### The law -/

/-- The counter of the users of a tag. -/
def userCounter (tag : Nat) : Counter := if tag = 2 then .read_user_count else .click_user_count

/-- What holds after careful steps. -/
structure Law (s : StatStore) : Prop where
  sound : ∀ e ∈ s.bdbCache, Sound e
  sums : ∀ k t c, k.moves c = true → s.value k t c = s.value .result t c
  history : ∀ x, x ∈ s.bdbHaviorHistory ↔ ∃ un ∈ s.counted, un.shows = true ∧ un.haviorKey = x
  users : ∀ t tag, tag = 1 ∨ tag = 2 →
    s.value .result t (userCounter tag) = (s.boxes t tag).dedup.length

theorem Law.init : Law init where
  sound e he := by cases he
  sums _ _ _ _ := rfl
  history x := by simp [StatStore.init]
  users _ _ _ := rfl

theorem Law.agree (h : Law s) : s.Agree where
  region t c := h.sums .region t c rfl
  domain t c := h.sums .domain t c rfl
  hour t c hc := h.sums .hour t c (by rcases hc with rfl | rfl <;> rfl)
  url t := h.sums .url t .click_count rfl
  readers t := h.users t 2 (.inr rfl)
  clickers t := h.users t 1 (.inl rfl)

theorem Law.flush {exec : Text → Tables → Tables} (h : Law s) (hc : s.Careful cfg (.flush exec)) :
    Law (s.flush cfg exec) where
  sound e he := by cases he
  sums k t c hk := by
    rw [value_flush h.sound hc, value_flush h.sound hc]
    exact h.sums k t c hk
  history := h.history
  users t tag htag := by
    rw [value_flush h.sound hc]
    exact h.users t tag htag

/-- One more text counts when it is new. -/
theorem length_dedup_append (l : List Text) (x : Text) :
    (l ++ [x]).dedup.length = l.dedup.length + if x ∈ l then 0 else 1 := by
  have hperm : (l ++ [x]).Perm (x :: l) := List.perm_append_singleton x l
  rw [hperm.dedup.length_eq]
  split
  next h => rw [List.dedup_cons_of_mem h, Nat.add_zero]
  next h => rw [List.dedup_cons_of_notMem h, List.length_cons]

/-- A mailbox is new in the history when no counted event of the task had it. -/
theorem Law.fresh_iff (h : Law s) {listed : Bool} (hun : un.shows = true) :
    s.fresh un listed = true ↔ tolower un.mail ∉ s.boxes un.task un.tag := by
  have hquit : ¬ un.unsubscribes = true := by
    rw [UrlNode.shows] at hun
    rw [UrlNode.unsubscribes]
    intro h
    simp only [Bool.or_eq_true, beq_iff_eq] at h hun
    omega
  rw [StatStore.fresh, if_neg hquit, hun, Bool.true_and, Bool.not_eq_true', List.contains_eq_mem,
    decide_eq_false_iff_not, h.history, boxes]
  refine not_congr ⟨?_, fun hmem => ?_⟩
  · rintro ⟨un', hmem, hshows, hkey⟩
    obtain ⟨htask, htag, hmail⟩ := (UrlNode.haviorKey_inj hshows hun).mp hkey
    refine List.mem_map.mpr ⟨un', List.mem_filter.mpr ⟨hmem, ?_⟩, hmail⟩
    rw [htask, htag, beq_self_eq_true, beq_self_eq_true, Bool.and_self]
  · obtain ⟨un', hmem, hmail⟩ := List.mem_map.mp hmem
    obtain ⟨hmem, hcond⟩ := List.mem_filter.mp hmem
    rw [Bool.and_eq_true, beq_iff_eq, beq_iff_eq] at hcond
    have hshows : un'.shows = true := by
      rw [UrlNode.shows, hcond.2]
      exact hun
    exact ⟨un', hmem, hshows, (UrlNode.haviorKey_inj hshows hun).mpr ⟨hcond.1, hcond.2, hmail⟩⟩

theorem rst_userCounter {tag : Nat} (htag : tag = 1 ∨ tag = 2) :
    un.rst fresh (userCounter tag) = if un.tag = tag ∧ fresh = true then 1 else 0 := by
  rcases htag with rfl | rfl <;> simp [userCounter, UrlNode.rst]

/-- What an event leaves, beside the records. -/
theorem mem_noteHavior {x : Text} : x ∈ (s.noteHavior un).bdbHaviorHistory ↔
    x ∈ s.bdbHaviorHistory ∨ un.shows = true ∧ un.haviorKey = x := by
  rw [noteHavior]
  split
  next h =>
    rw [Bool.and_eq_true] at h
    rw [List.mem_cons, or_comm]
    simp only [h.1, true_and, eq_comm]
  next h =>
    refine ⟨.inl, fun hx => hx.elim id ?_⟩
    rintro ⟨hshows, rfl⟩
    rw [hshows, Bool.true_and, Bool.not_eq_true', Bool.not_eq_false, List.contains_iff_mem] at h
    exact h

theorem noted_bdbCache (s : StatStore) (un : UrlNode) : (s.noted un).bdbCache = s.bdbCache := by
  unfold noted noteHavior
  split <;> rfl

theorem noted_tables (s : StatStore) (un : UrlNode) : (s.noted un).tables = s.tables := by
  unfold noted noteHavior
  split <;> rfl

theorem boxes_noted (t : TaskNo) (tag : Nat) : (s.noted un).boxes t tag = s.boxes t tag
    ++ if un.task = t ∧ un.tag = tag then [tolower un.mail] else [] := by
  rw [boxes, boxes, noted, List.filter_append, List.map_append]
  congr 1
  by_cases hcond : un.task = t ∧ un.tag = tag
  · rw [if_pos hcond, List.filter_cons_of_pos (by simpa using hcond)]
    rfl
  · rw [if_neg hcond, List.filter_cons_of_neg (by simpa using hcond)]
    rfl

/-- The records of a counted event are updated. -/
theorem Law.counted {listed : Bool} {s' : StatStore} (h : Law s)
    (hu : Updated (s.noted un) s' un (s.fresh un listed) (un.tables (s.fresh un listed))) :
    Law s' := by
  have hvalue : ∀ k t, s'.value k t
      = s.value k t + if un.task = t then un.amount (s.fresh un listed) k else 0 := by
    intro k t
    have hnoted : (s.noted un).value k t = s.value k t := by
      rw [value, value, noted_bdbCache, noted_tables]
    rw [hu.value, hnoted]
    congr 1
    by_cases hk : k ∈ un.tables (s.fresh un listed)
    · simp [hk]
    · simp [hk, UrlNode.amount_of_not_mem hk]
  constructor
  case sound => exact hu.sound
  case sums =>
    intro k t c hk
    have hamount : un.amount (s.fresh un listed) k c = un.amount (s.fresh un listed) .result c := by
      rw [un.amount_eq _ hk, un.amount_eq _ rfl]
    rw [hvalue, hvalue, Pi.add_apply, Pi.add_apply, h.sums k t c hk]
    congr 1
    split
    · exact hamount
    · rfl
  case history =>
    intro x
    rw [hu.history, hu.counted]
    simp only [noted, mem_noteHavior, h.history, List.mem_append, List.mem_singleton, or_and_right,
      exists_or, exists_eq_left]
  case users =>
    intro t tag htag
    have hboxes : s'.boxes t tag = (s.noted un).boxes t tag := by
      rw [boxes, boxes, hu.counted]
    rw [hvalue, Pi.add_apply, h.users t tag htag, hboxes, boxes_noted]
    by_cases hcond : un.task = t ∧ un.tag = tag
    · obtain ⟨rfl, rfl⟩ := hcond
      have hshows : un.shows = true := by
        rw [UrlNode.shows, Bool.or_eq_true, beq_iff_eq, beq_iff_eq]
        exact htag
      have hfresh : s.fresh un listed = true ↔ tolower un.mail ∉ s.boxes un.task un.tag :=
        h.fresh_iff hshows
      rw [if_pos rfl, if_pos ⟨rfl, rfl⟩, length_dedup_append, un.amount_eq _ rfl,
        rst_userCounter htag]
      by_cases hmem : tolower un.mail ∈ s.boxes un.task un.tag
      · rw [if_pos hmem, if_neg fun hc => hfresh.mp hc.2 hmem]
        rfl
      · rw [if_neg hmem, if_pos ⟨rfl, hfresh.mpr hmem⟩]
        rfl
    · have hnone : (if un.task = t then un.amount (s.fresh un listed) .result else 0)
          (userCounter tag) = 0 := by
        split
        next ht =>
          rw [un.amount_eq _ rfl, rst_userCounter htag]
          exact if_neg fun hc => hcond ⟨ht, hc.1⟩
        next => rfl
      rw [hnone, if_neg hcond, List.append_nil, Int.add_zero]

theorem Law.update {known listed : Bool} {havior : TableName} {updatetime : Int} {s' : StatStore}
    (h : Law s) (hc : s.Careful cfg (.update un known listed havior updatetime))
    (hs : s.dbUpdateUrl cfg un known listed havior updatetime = some s') : Law s' := by
  rw [dbUpdateUrl] at hs
  split at hs
  next =>
    obtain rfl := Option.some.inj hs
    exact h
  next hcounts =>
    split at hs
    next => cases hs
    next =>
      rw [Bool.not_eq_true', Bool.not_eq_false] at hcounts
      obtain ⟨-, -, hroom⟩ := hc hcounts
      refine h.counted (updated_of_updateTables (un.nodup_tables _) ?_ ?_ hs)
      · rw [noted_bdbCache]
        exact h.sound
      · intro k _
        rw [Room, noted_bdbCache]
        exact fun e he hof c => hroom e he k hof c

theorem Law.step {a : StatAct} {s' : StatStore} (h : Law s) (hc : s.Careful cfg a)
    (hs : s.step cfg a = some s') : Law s' := by
  cases a with
  | update un known listed havior updatetime => exact h.update hc hs
  | flush exec =>
    obtain rfl := Option.some.inj hs
    exact h.flush hc

/-! ### Texts that fit -/

/-- A careful step is possible. -/
theorem isSome_step {a : StatAct} (hc : s.Careful cfg a) : (s.step cfg a).isSome = true := by
  cases a with
  | flush exec => rfl
  | update un known listed havior updatetime =>
    rw [step, dbUpdateUrl]
    split
    next => rfl
    next hcounts =>
      rw [Bool.not_eq_true', Bool.not_eq_false] at hcounts
      obtain ⟨hdomain, hline, -⟩ := hc hcounts
      have hnone : ¬ (un.shows && (haviorLine havior un updatetime).isNone) = true := by
        rw [Bool.and_eq_true]
        rintro ⟨hshows, hnone⟩
        obtain ⟨hbox, hurl⟩ := hline hshows
        rw [← Option.not_isSome, isSome_haviorLine havior updatetime hbox hurl] at hnone
        cases hnone
      rw [if_neg hnone]
      refine isSome_updateTables fun k hk => ?_
      cases k with
      | domain => exact isSome_domain (hdomain hk)
      | result | region | url | hour => rfl

end StatStore

/-- After careful steps the breakdowns agree, and the next careful step is possible. -/
theorem agree_run {cfg : StatConfig} {as : List StatAct} {s : StatStore}
    (h : Run (Guarded (StatStore.Careful cfg) fun s a s' => s.step cfg a = some s') .init as s) :
    s.Agree ∧ ∀ a, s.Careful cfg a → (s.step cfg a).isSome = true := by
  have hlaw : s.Law := by
    refine h.invariant (fun s a s' hlaw hstep => ?_) .init
    exact hlaw.step hstep.1 hstep.2
  exact ⟨hlaw.agree, fun a hc => StatStore.isSome_step hc⟩

/-- A mail of the task `1,2,3` was opened. -/
def opened : UrlNode where
  tag := 2
  mail := "A@b.c".toList
  url := []
  area := []
  template_id := 3
  corp_id := 1
  task_id := 2
  hour := 9
  osid := 0
  browserid := 0
  slangid := 0
  mailFits := by decide
  urlFits := url_fits
  idsFit := ids_fit

def sampleConfig : StatConfig where
  map_region := []
  map_bigcity := []
  g_tablename
    | .result => ⟨"tb_result".toList, by decide⟩
    | .region => ⟨"tb_result_by_region".toList, by decide⟩
    | .domain => ⟨"tb_result_by_domain".toList, by decide⟩
    | .url => ⟨"tb_result_by_url".toList, by decide⟩
    | .hour => ⟨"tb_result_by_hour".toList, by decide⟩

/-- The values of `opened` in the keys. -/
def openedValue : Table → Text
  | .result | .url => []
  | .region => "999".toList
  | .domain => "b.c".toList
  | .hour => "9".toList

/-- The statement for a record of `opened`. -/
def openedTokens (k : Table) : List Token :=
  (k.pieces (sampleConfig.g_tablename k) opened.task (openedValue k)
    (opened.amount true k)).flatMap meant

/-- What MySQL does with these statements. -/
def sampleExec (s : Text) (T : Tables) : Tables :=
  match [Table.result, .region, .domain, .hour].find? fun k =>
    lex none s == some (openedTokens k) with
  | some k => T.add k (opened.task, openedValue k) (k.shown (opened.amount true k))
  | none => T

theorem executes_sampleExec {k : Table} (hk : k ≠ .url) : StatStore.Executes sampleConfig sampleExec
    k opened.task (openedValue k) (opened.amount true k) := by
  intro s hs T
  have hother : ∀ k' : Table, k' ≠ k → ¬ openedTokens k = openedTokens k' := by
    cases k <;> intro k' hk' <;> cases k' <;>
      first | exact absurd rfl hk' | exact absurd rfl hk | decide +kernel
  have hp : ∀ k', (lex none s == some (openedTokens k')) = true ↔ k' = k := by
    intro k'
    have hlex : lex none s = some (openedTokens k) := hs
    rw [hlex, beq_iff_eq, Option.some.injEq]
    exact ⟨fun h => by_contra fun hne => hother k' hne h, fun h => h ▸ rfl⟩
  refine ⟨openedValue k, ?_⟩
  rw [sampleExec]
  split
  next k' hfind =>
    have hk' := List.find?_some (p := fun k => lex none s == some (openedTokens k)) hfind
    rw [(hp k').mp hk']
  next hfind =>
    have hmem : k ∈ [Table.result, .region, .domain, .hour] := by
      cases k <;> first | exact absurd rfl hk | decide
    exact absurd ((hp k).mpr rfl) (List.find?_eq_none.mp hfind k hmem)

/-- The cache behind the event. -/
def openedStore : StatStore :=
  ((((StatStore.init.noted opened).updateCache opened true .region
  (openedValue .region)).updateCache
    opened true .domain (openedValue .domain)).updateCache opened true .hour
    (openedValue .hour)).updateCache opened true .result (openedValue .result)

theorem bdbCache_openedStore : openedStore.bdbCache
    = [Table.region, .domain, .hour, .result].map fun k =>
        (k.key opened.task (openedValue k), opened.amount true k) := by
  rfl

theorem step_opened (havior : TableName) :
    StatStore.init.step sampleConfig (.update opened true false havior 0) = some openedStore := by
  have hline : (haviorLine havior opened 0).isSome = true :=
    isSome_haviorLine havior 0 (by decide) (by decide)
  have hwritten : ¬ (opened.shows && (haviorLine havior opened 0).isNone) = true := by
    rw [← Option.not_isSome, hline, Bool.not_true, Bool.and_false]
    exact Bool.false_ne_true
  rw [StatStore.step, StatStore.dbUpdateUrl, if_neg (by decide), if_neg hwritten]
  rfl

/-- The records of the event are submitted as they are meant. -/
theorem submits_openedStore {k : Table} {t : TaskNo} {v : Text} {r : Rst}
    (h : (k.key t v, r) ∈ openedStore.bdbCache) :
    StatStore.Submits sampleConfig sampleExec k t v r := by
  rw [bdbCache_openedStore] at h
  obtain ⟨k', hk', heq⟩ := List.mem_map.mp h
  obtain ⟨hkey, rfl⟩ := Prod.mk.inj heq
  obtain ⟨rfl, rfl, htail⟩ := Table.key_inj hkey
  have hurl : k' ≠ .url := by
    rintro rfl
    exact absurd hk' (by decide)
  have hmeant : StatStore.Submits sampleConfig sampleExec k' opened.task (openedValue k')
      (opened.amount true k') := by
    refine ⟨?_, ?_, executes_sampleExec hurl⟩
    · cases k' <;> decide
    · cases k' <;> decide +kernel
  cases k' with
  | result => exact ⟨by simp, hmeant.2.1, fun s hs T => hmeant.2.2 s hs T⟩
  | region | hour => exact (List.cons.inj htail).2 ▸ hmeant
  | domain =>
    have hv : openedValue .domain = v :=
      List.append_cancel_right (List.cons.inj (List.cons.inj htail).2).2
    exact hv ▸ hmeant
  | url => exact absurd rfl hurl

/-- The event is counted in the cache and then in the tables. -/
theorem agree_run_opened : ∃ s : StatStore,
    s.value .hour opened.task .read_count = 1 ∧ s.bdbCache = [] ∧ s.Agree := by
  have hcareful : StatStore.init.Careful sampleConfig
      (.update opened true false ⟨[], by decide⟩ 0) := by
    refine fun _ => ⟨fun _ _ => by decide, fun _ => by decide, ?_⟩
    exact fun e he => absurd he List.not_mem_nil
  have hflush : openedStore.Careful sampleConfig (.flush sampleExec) :=
    fun k t v r h _ => submits_openedStore h
  have hrun : Run (Guarded (StatStore.Careful sampleConfig)
      fun s a s' => s.step sampleConfig a = some s') .init
      [.update opened true false ⟨[], by decide⟩ 0, .flush sampleExec]
      (openedStore.flush sampleConfig sampleExec) :=
    .more ⟨hcareful, step_opened _⟩ (.one ⟨hflush, rfl⟩)
  have hsound := (StatStore.Law.init.step hcareful (step_opened _)).sound
  have hvalue : openedStore.value .hour opened.task .read_count = 1 := by
    decide +kernel
  exact ⟨_, (congrFun (StatStore.value_flush hsound hflush .hour opened.task) _).trans hvalue, rfl,
    (agree_run hrun).1⟩

/-- A local part of 64 bytes. -/
def longLocalPart : UrlNode where
  tag := 5
  mail := List.replicate 64 'a' ++ "@b.c".toList
  url := []
  area := []
  template_id := 3
  corp_id := 1
  task_id := 2
  hour := 9
  osid := 0
  browserid := 0
  slangid := 0
  mailFits := by decide
  urlFits := url_fits
  idsFit := ids_fit

/-- `Domain_Update` writes behind `tmp`. -/
theorem long_local_part : ¬ ∀ (cfg : StatConfig) (as : List StatAct),
    (∀ exec, .flush exec ∈ as → ∀ k t v r, StatStore.Executes cfg exec k t v r) →
      ∃ s, as.foldlM (StatStore.step cfg) .init = some s ∧ s.Agree := by
  intro h
  obtain ⟨s, hs, -⟩ := h sampleConfig [.update longLocalPart true false ⟨[], by decide⟩ 0]
    (fun exec hmem => by simp at hmem)
  have hnone : (StatStore.init.step sampleConfig
      (.update longLocalPart true false ⟨[], by decide⟩ 0)).isNone = true := by
    decide +kernel
  rw [List.foldlM_cons, Option.isNone_iff_eq_none.mp hnone] at hs
  cases hs

end Edm.Cachedb
