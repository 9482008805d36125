import Edm.Support.Run
import Edm.Support.Shared
import Edm.Support.Mailbox
import Edm.Support.Decimal
import Edm.Support.Split

/-!
# DeliverHelp — Report

The reports of a delivery (command 2001).  A worker thread of `deliver_help` counts a report in
the record of its day (`insert_detail_records`), asks `deliver_quantity` for the windows of its
domains, and counts it in each of them (`add_deliver_quantity`).  A counter is read from its
Berkeley database, counted up and put back; each `get` and each `put` is atomic, and the threads
take their steps in any order.

Nothing holds a record between the `get` and the `put`: of two threads that have both read a
record, the one that puts last undoes the report of the other (`report_lost`).  `reported_run` says
that no report is lost when no thread reads a record that another is still to put back.
-/

namespace Edm.DeliverHelp
open Support

/-! ### What is reported -/

/-- The loop of `check_inet_addr` over its four bytes `buf`; `beyond` stands behind them. -/
def checkInetLoop (beyond : Text) : Text → Nat → Nat → Text → Bool
  | [], i, dot, buf => dot == 3 && decide (1 ≤ i) && decide (atoi (buf ++ beyond) ≤ 255)
  | c :: cp, i, dot, buf =>
      if c.isDigit then
        decide (i ≤ 3) && checkInetLoop beyond cp (i + 1) dot (buf.set i c)
      else if c == '.' then
        decide (dot < 3) && decide (1 ≤ i) && decide (atoi (buf ++ beyond) ≤ 255) &&
          checkInetLoop beyond cp 0 (dot + 1) ((buf.set 1 nul).set 2 nul)
      else false

/-- `check_inet_addr` finds no error. -/
def checkInetAddr (beyond cp : Text) : Bool :=
  checkInetLoop beyond cp 0 0 [nul, nul, nul, nul]

theorem mem_inet {beyond : Text} : ∀ {cp : Text} {i dot : Nat} {buf : Text},
    checkInetLoop beyond cp i dot buf = true → ∀ c ∈ cp, c.isDigit = true ∨ c = '.'
  | [], _, _, _, _, _, hc => absurd hc List.not_mem_nil
  | d :: cp, i, dot, buf, h, c, hc => by
      rw [checkInetLoop] at h
      split at h
      next hd =>
        rcases List.mem_cons.mp hc with rfl | hc
        · exact .inl hd
        · exact mem_inet ((Bool.and_eq_true _ _).mp h).2 c hc
      next =>
        split at h
        next hd =>
          rcases List.mem_cons.mp hc with rfl | hc
          · exact .inr (beq_iff_eq.mp hd)
          · exact mem_inet ((Bool.and_eq_true _ _).mp h).2 c hc
        next => cases h

/-- `check_mailbox_syntax` of a user in the domain finds no error. -/
def checkDomain (domain : Text) : Bool := checkMailbox ("user@".toList ++ domain)

/-- Whose deliveries a record counts. -/
structure Place where
  ip : Text
  from_ : Text
  rcpt : Text
  ip_ok : ∀ c ∈ ip, c.isDigit = true ∨ c = '.'
  from_ok : checkDomain from_ = true
  rcpt_ok : checkDomain rcpt = true
  deriving DecidableEq

/-- The statuses `"s"` and `"f"`. -/
inductive Status where
  | s
  | f
  deriving DecidableEq

/-- A report that passes the checks of `try2forget_2001`. -/
structure Report extends Place where
  status : Status
  deriving DecidableEq

/-- The checks of `try2forget_2001`; `none` is `HTTP_400`. -/
def try2forget_2001 (beyond ip from_ rcpt status : Text) : Option Report :=
  if hip : checkInetAddr beyond ip = true then
    if hfrom : checkDomain from_ = true then
      if hrcpt : checkDomain rcpt = true then
        if status = ['s'] then some ⟨⟨ip, from_, rcpt, mem_inet hip, hfrom, hrcpt⟩, .s⟩
        else if status = ['f'] then some ⟨⟨ip, from_, rcpt, mem_inet hip, hfrom, hrcpt⟩, .f⟩
        else none
      else none
    else none
  else none

/-- A day of `localtime_r`. -/
structure Day where
  year : Nat
  month : Nat
  day : Nat
  month_lt : month < 100
  day_lt : day < 100
  deriving DecidableEq

/-- `"%04d%02d%02d"`. -/
def Day.date (d : Day) : Text := padded 4 d.year ++ (padded 2 d.month ++ padded 2 d.day)

/-- The key of the record of a day. -/
def Place.detailKey (p : Place) (d : Day) : Text :=
  "T1|".toList ++ (p.ip ++ '|' :: (p.from_ ++ '|' :: (p.rcpt ++ '|' :: d.date)))

theorem Day.date_inj {d d' : Day} (h : d.date = d'.date) : d = d' := by
  have htwo :
      ∀ {n : Nat}, n < 100 → (padded 2 n).length = 2 := fun hn => padded_length (by decide) hn
  obtain ⟨hyear, hrest⟩ := List.append_inj' h (by
    rw [List.length_append, List.length_append, htwo d.month_lt, htwo d.day_lt, htwo d'.month_lt,
      htwo d'.day_lt])
  obtain ⟨hmonth, hday⟩ := List.append_inj hrest ((htwo d.month_lt).trans (htwo d'.month_lt).symm)
  cases d
  cases d'
  exact Day.mk.injEq .. ▸ ⟨padded_inj hyear, padded_inj hmonth, padded_inj hday⟩

theorem bar_not_mem_domain {domain : Text} (h : checkDomain domain = true) : '|' ∉ domain := by
  intro hmem
  rcases mem_mailbox h (List.mem_append_right _ hmem) with hc | hc <;> exact absurd hc (by decide)

theorem Place.bar_not_mem_ip (p : Place) : '|' ∉ p.ip := by
  intro hmem
  rcases p.ip_ok _ hmem with hc | hc <;> exact absurd hc (by decide)

/-- What stands before the first bar, and what behind it. -/
theorem append_bar_inj {a b a' b' : Text} (ha : '|' ∉ a) (ha' : '|' ∉ a')
    (h : a ++ '|' :: b = a' ++ '|' :: b') : a = a' ∧ b = b' := by
  have hcut := congrArg (cut '|') h
  rw [cut_append ha, cut_append ha'] at hcut
  exact Prod.mk.inj hcut

theorem Place.detailKey_inj {p p' : Place} {d d' : Day} (h : p.detailKey d = p'.detailKey d') :
    p = p' ∧ d = d' := by
  obtain ⟨hip, h₁⟩ := append_bar_inj p.bar_not_mem_ip p'.bar_not_mem_ip (List.append_cancel_left h)
  obtain ⟨hfrom, h₂⟩ := append_bar_inj (bar_not_mem_domain p.from_ok)
      (bar_not_mem_domain p'.from_ok) h₁
  obtain ⟨hrcpt, hdate⟩ := append_bar_inj (bar_not_mem_domain p.rcpt_ok)
      (bar_not_mem_domain p'.rcpt_ok) h₂
  refine ⟨?_, Day.date_inj hdate⟩
  cases p
  cases p'
  exact Place.mk.injEq .. ▸ ⟨hip, hfrom, hrcpt⟩

/-- The key of a window. -/
def quantityKey (from_ rcpt seconds : Text) : Text :=
  "T2|".toList ++ (from_ ++ '|' :: (rcpt ++ '|' :: seconds))

/-! ### The records -/

/-- `unsigned int data[2]`. -/
structure Counts where
  s : Nat
  f : Nat

/-- `data[status=="s" ? 0:1]++`. -/
def Counts.count (data : Counts) : Status → Counts
  | .s => { data with s := (data.s + 1) % 2 ^ 32 }
  | .f => { data with f := (data.f + 1) % 2 ^ 32 }

/-- `bdb_quantity_t`. -/
structure Quantity where
  chkpoint : Int
  numbers : Nat

/-- What `add_deliver_quantity` puts back, and whether a window begins; it asks for the time where
there is no record, for the age of the window, and where the window is over. -/
def Quantity.count (q : Option Quantity) (seconds : Text) (now₁ now₂ now₃ : Int) :
    Quantity × Bool :=
  let data := q.getD ⟨now₁, 0⟩
  if atoi seconds < now₂ - data.chkpoint then (⟨now₃, 1⟩, true)
  else (⟨data.chkpoint, (data.numbers + 1) % 2 ^ 32⟩, q.isNone)

theorem Quantity.count_cases (q : Option Quantity) (seconds : Text) (now₁ now₂ now₃ : Int) :
    ((count q seconds now₁ now₂ now₃).2 = true ∧ (count q seconds now₁ now₂ now₃).1.numbers = 1) ∨
    ((count q seconds now₁ now₂ now₃).2 = false ∧ ∃ data, q = some data ∧
      (count q seconds now₁ now₂ now₃).1 = ⟨data.chkpoint, (data.numbers + 1) % 2 ^ 32⟩) := by
  rw [count]
  split
  next => exact .inl ⟨rfl, rfl⟩
  next =>
    cases q with
    | none => exact .inl ⟨rfl, rfl⟩
    | some data => exact .inr ⟨rfl, data, rfl, rfl⟩

/-- A report is counted in a window; `start` is its beginning if it begins with this report. -/
structure Mark where
  key : Text
  start : Option Int

/-- The last window of a key: when it began, and how many reports are counted in it. -/
def window (key : Text) : List Mark → Option (Int × Nat)
  | [] => none
  | m :: marks =>
      if m.key = key then
        match m.start with
        | some start => some (start, 1)
        | none => (window key marks).map fun w => (w.1, w.2 + 1)
      else window key marks

/-! ### The worker threads -/

/-- A row of `deliver_quantity`: `rcpt_domain` as `tolower` leaves it, and `seconds`. -/
structure Row where
  db_rcpt : Text
  db_seconds : Text

def Report.rowKey (r : Report) (row : Row) : Text := quantityKey r.from_ row.db_rcpt row.db_seconds

/-- Where a thread is. -/
inductive Phase where
  | idle
  /-- It gets the record of the day. -/
  | detail (r : Report)
  | detailRead (r : Report) (day : Day)
  /-- It asks for the rows. -/
  | query (r : Report)
  /-- It gets the record of the first row. -/
  | quantity (r : Report) (rows : List Row)
  | quantityRead (r : Report) (row : Row) (rows : List Row)

/-- The record of a day that is to be put back. -/
def Phase.detailWait : Phase → Option Text
  | .detailRead r day => some (r.detailKey day)
  | _ => none

/-- The record of a window that is to be put back. -/
def Phase.quantityWait : Phase → Option Text
  | .quantityRead r row _ => some (r.rowKey row)
  | _ => none

/-- The report that is not yet in the record of its day. -/
def Phase.owed : Phase → List Report
  | .detail r | .detailRead r _ => [r]
  | _ => []

/-- The databases and the threads.  `taken`, `reported` and `marks` only remember: which reports
were taken, which were counted in the record of which day, and which in which window. -/
structure Helper (T : Type*) where
  bdb_report : Shared T Text Counts
  bdb_status : Shared T Text Quantity
  threads : T → Phase
  taken : List Report
  reported : List (Report × Day)
  marks : List Mark

/-- What a thread does. -/
inductive Act where
  /-- It takes a request. -/
  | request (beyond ip from_ rcpt status : Text)
  | getDetail (day : Day)
  | putDetail
  /-- It learns the rows, one for each `seconds`, and none when the query fails. -/
  | query (rows : List Row)
  | getQuantity
  | putQuantity (now₁ now₂ now₃ : Int)

namespace Helper
variable {T : Type*} [DecidableEq T] (s : Helper T)

def init : Helper T := ⟨.empty, .empty, fun _ => .idle, [], [], []⟩

/-- A thread goes on. -/
def goto (t : T) (p : Phase) : Helper T := { s with threads := Function.update s.threads t p }

/-- A report is put into the record of its day. -/
def putDetail (t : T) (r : Report) (day : Day) : Helper T :=
  { s with
    bdb_report := s.bdb_report.write t fun data => (data.getD ⟨0, 0⟩).count r.status
    reported := (r, day) :: s.reported }

/-- A report is put into the window of a row. -/
def putQuantity (t : T) (r : Report) (row : Row) (now₁ now₂ now₃ : Int) : Helper T :=
  match s.bdb_status.pending t with
  | none => s
  | some (_, data) =>
      let counted := Quantity.count data row.db_seconds now₁ now₂ now₃
      { s with
        bdb_status := s.bdb_status.write t fun _ => counted.1
        marks := ⟨r.rowKey row, if counted.2 then some counted.1.chkpoint else none⟩ :: s.marks }

def step (a : T × Act) : Option (Helper T) :=
  match a.2, s.threads a.1 with
  | .request beyond ip from_ rcpt status, .idle =>
      match try2forget_2001 beyond ip from_ rcpt status with
      | none => some s
      | some r => some ({ s with taken := r :: s.taken }.goto a.1 (.detail r))
  | .getDetail day, .detail r =>
      some ({ s with bdb_report := s.bdb_report.read a.1 (r.detailKey day) }.goto a.1
        (.detailRead r day))
  | .putDetail, .detailRead r day => some ((s.putDetail a.1 r day).goto a.1 (.query r))
  | .query rows, .query r =>
      if (rows.map Row.db_seconds).Nodup then some (s.goto a.1 (.quantity r rows)) else none
  | .getQuantity, .quantity _ [] => some (s.goto a.1 .idle)
  | .getQuantity, .quantity r (row :: rows) =>
      some ({ s with bdb_status := s.bdb_status.read a.1 (r.rowKey row) }.goto a.1
        (.quantityRead r row rows))
  | .putQuantity now₁ now₂ now₃, .quantityRead r row rows =>
      some ((s.putQuantity a.1 r row now₁ now₂ now₃).goto a.1 (.quantity r rows))
  | _, _ => none

/-- The steps of the threads. -/
def Steps (s : Helper T) (a : T × Act) (s' : Helper T) : Prop := s.step a = some s'

end Helper

/-! ### What is kept -/

/-- A report is of this place and day. -/
def isOf (p : Place) (day : Day) (e : Report × Day) : Bool := e.1.toPlace = p && e.2 = day

/-- How often `reported` says so of the records. -/
def countsOf (P : Report × Day → Bool) (reported : List (Report × Day)) : Counts :=
  ⟨reported.countP fun e => P e && e.1.status = .s, reported.countP fun e => P e && e.1.status = .f⟩

/-- The counter of a status. -/
def Counts.of (data : Counts) : Status → Nat
  | .s => data.s
  | .f => data.f

namespace Helper
variable {T : Type*} (s : Helper T)

/-- The record that a thread reads is not on its way back, and the counter that it puts back is
not at its end. -/
def alone [Fintype T] (a : T × Act) : Bool :=
  match a.2, s.threads a.1 with
  | .getDetail day, .detail r => s.bdb_report.free (r.detailKey day)
  | .putDetail, .detailRead r day =>
      decide (((s.bdb_report.store (r.detailKey day)).getD ⟨0, 0⟩).of r.status + 1 < 2 ^ 32)
  | .getQuantity, .quantity r (row :: _) => s.bdb_status.free (r.rowKey row)
  | .putQuantity .., .quantityRead r row _ =>
      (s.bdb_status.store (r.rowKey row)).all fun data => data.numbers + 1 < 2 ^ 32
  | _, _ => true

/-- No report is lost. -/
structure Kept : Prop where
  /-- When no thread has one under way, all that were taken are counted. -/
  all : (∀ t, s.threads t = .idle) → s.taken.Perm (s.reported.map Prod.fst)
  detail : ∀ (p : Place) (day : Day),
    (s.bdb_report.store (p.detailKey day)).getD ⟨0, 0⟩ = countsOf (isOf p day) s.reported
  quantity : ∀ key : Text,
    s.bdb_status.store key = (window key s.marks).map fun w => ⟨w.1, w.2⟩

end Helper

/-! ### What every step keeps -/

section Law
variable {T : Type*}

/-- The records of the days. -/
structure DetailLaw (bdb : Shared T Text Counts) (threads : T → Phase)
    (reported : List (Report × Day)) :
    Prop where
  serves : bdb.Serves fun t => (threads t).detailWait
  counts : ∀ key, (bdb.store key).getD ⟨0, 0⟩ = countsOf (fun e => e.1.detailKey e.2 = key) reported

/-- The records of the windows. -/
structure QuantityLaw (bdb : Shared T Text Quantity) (threads : T → Phase) (marks : List Mark) :
    Prop where
  serves : bdb.Serves fun t => (threads t).quantityWait
  windows : ∀ key, bdb.store key = (window key marks).map fun w => ⟨w.1, w.2⟩

/-- What every step keeps. -/
structure Helper.Law [Fintype T] (s : Helper T) : Prop where
  all : ∀ r, s.taken.count r = (s.reported.map Prod.fst).count r + ∑ t, (s.threads t).owed.count r
  detail : DetailLaw s.bdb_report s.threads s.reported
  quantity : QuantityLaw s.bdb_status s.threads s.marks

variable [DecidableEq T] {threads : T → Phase} {t : T} {p : Phase}

/-- What a thread waits to put back, when one of them goes on. -/
theorem waits_update (f : Phase → Option Text) :
    (fun u => f (Function.update threads t p u))
      = Function.update (fun u => f (threads u)) t (f p) :=
  Function.comp_update f threads t p

/-- A thread that reads nothing goes on. -/
theorem DetailLaw.move {bdb : Shared T Text Counts} {reported : List (Report × Day)}
    (h : DetailLaw bdb threads reported) (hp : p.detailWait = none) :
    DetailLaw bdb (Function.update threads t p) reported where
  serves := by
    rw [waits_update, hp]
    exact h.serves.rest t
  counts := h.counts

theorem QuantityLaw.move {bdb : Shared T Text Quantity} {marks : List Mark}
    (h : QuantityLaw bdb threads marks) (hp : p.quantityWait = none) :
    QuantityLaw bdb (Function.update threads t p) marks where
  serves := by
    rw [waits_update, hp]
    exact h.serves.rest t
  windows := h.windows

/-! #### The records of the days -/

/-- One more. -/
def Counts.more (data : Counts) : Status → Counts
  | .s => { data with s := data.s + 1 }
  | .f => { data with f := data.f + 1 }

theorem countsOf_cons (P : Report × Day → Bool) (e : Report × Day)
    (reported : List (Report × Day)) :
    countsOf P (e :: reported) =
      if P e then (countsOf P reported).more e.1.status else countsOf P reported := by
  obtain ⟨⟨place, status⟩, day⟩ := e
  cases hP : P (⟨place, status⟩, day) with
  | false => simp [countsOf, hP]
  | true => cases status <;> simp [countsOf, Counts.more, hP]

/-- A counter that is not at its end. -/
theorem Counts.count_of_room {data : Counts} : ∀ {status : Status}, data.of status + 1 < 2 ^ 32 →
    data.count status = data.more status
  | .s, h => congrArg (Counts.mk · data.f) (Nat.mod_eq_of_lt h)
  | .f, h => congrArg (Counts.mk data.s) (Nat.mod_eq_of_lt h)

theorem DetailLaw.read {bdb : Shared T Text Counts} {reported : List (Report × Day)}
    (h : DetailLaw bdb threads reported) {key : Text} (hp : p.detailWait = some key)
    (hfree : ∀ u v, bdb.pending u ≠ some (key, v)) :
    DetailLaw (bdb.read t key) (Function.update threads t p) reported where
  serves := by
    rw [waits_update, hp]
    exact h.serves.read hfree
  counts := h.counts

theorem DetailLaw.write {bdb : Shared T Text Counts} {reported : List (Report × Day)}
    (h : DetailLaw bdb threads reported) {r : Report} {day : Day}
    (ht : threads t = .detailRead r day) (hp : p.detailWait = none)
    (hroom : ((bdb.store (r.detailKey day)).getD ⟨0, 0⟩).of r.status + 1 < 2 ^ 32) :
    DetailLaw (bdb.write t fun data => (data.getD ⟨0, 0⟩).count r.status)
      (Function.update threads t p) ((r, day) :: reported) := by
  have hwait : (threads t).detailWait = some (r.detailKey day) := by rw [ht]; rfl
  obtain ⟨hserves, hstore⟩ := h.serves.write (t := t) hwait fun data =>
      (data.getD ⟨0, 0⟩).count r.status
  refine ⟨?_, fun key => ?_⟩
  · rw [waits_update, hp]
    exact hserves
  · rw [hstore, countsOf_cons]
    by_cases hkey : r.detailKey day = key
    · subst hkey
      rw [Function.update_self, Option.getD_some, Counts.count_of_room hroom, h.counts,
        decide_eq_true rfl]
      rfl
    · rw [Function.update_of_ne (Ne.symm hkey), h.counts, decide_eq_false hkey]
      rfl

/-! #### The records of the windows -/

theorem QuantityLaw.read {bdb : Shared T Text Quantity} {marks : List Mark}
    (h : QuantityLaw bdb threads marks) {key : Text} (hp : p.quantityWait = some key)
    (hfree : ∀ u v, bdb.pending u ≠ some (key, v)) :
    QuantityLaw (bdb.read t key) (Function.update threads t p) marks where
  serves := by
    rw [waits_update, hp]
    exact h.serves.read hfree
  windows := h.windows

theorem QuantityLaw.write {bdb : Shared T Text Quantity} {marks : List Mark}
    (h : QuantityLaw bdb threads marks) {r : Report} {row : Row} {rows : List Row}
    (ht : threads t = .quantityRead r row rows) (hp : p.quantityWait = none) {m : Mark}
    {data : Quantity}
    (hm : m.key = r.rowKey row)
    (hdata : some data = (window m.key (m :: marks)).map fun w => ⟨w.1, w.2⟩) :
    QuantityLaw (bdb.write t fun _ => data) (Function.update threads t p) (m :: marks) := by
  have hwait : (threads t).quantityWait = some (r.rowKey row) := by rw [ht]; rfl
  obtain ⟨hserves, hstore⟩ := h.serves.write (t := t) hwait fun _ => data
  refine ⟨?_, fun key => ?_⟩
  · rw [waits_update, hp]
    exact hserves
  · rw [hstore]
    by_cases hkey : key = r.rowKey row
    · rw [hkey, Function.update_self, ← hm]
      exact hdata
    · rw [Function.update_of_ne hkey, h.windows, window, if_neg fun hm' => hkey (hm'.symm.trans hm)]

/-- A report that is counted begins a window, or is one more in the last one. -/
theorem window_counted {key : Text} {marks : List Mark} {q : Option Quantity} (seconds : Text)
    (now₁ now₂ now₃ : Int) (hq : q = (window key marks).map fun w => ⟨w.1, w.2⟩)
    (hroom : q.all (fun data => data.numbers + 1 < 2 ^ 32) = true) :
    let counted := Quantity.count q seconds now₁ now₂ now₃
    some counted.1
      = (window key (⟨key, if counted.2 then some counted.1.chkpoint else none⟩ :: marks)).map
      fun w => ⟨w.1, w.2⟩ := by
  intro counted
  rw [window, if_pos rfl]
  rcases Quantity.count_cases q seconds now₁ now₂
    now₃ with ⟨hbegins, hone⟩ | ⟨hgoes, data, rfl, hmore⟩
  · rw [if_pos hbegins]
    exact congrArg (fun n => some (Quantity.mk counted.1.chkpoint n)) hone
  · rw [Option.all_some, decide_eq_true_iff] at hroom
    obtain ⟨w, hw, hdata⟩ := Option.map_eq_some_iff.mp hq.symm
    rw [if_neg (Bool.eq_false_iff.mp hgoes), hw, hmore, ← hdata]
    rw [← hdata] at hroom
    exact congrArg (fun n => some (Quantity.mk w.1 n)) (Nat.mod_eq_of_lt hroom)

end Law

namespace Helper
variable {T : Type*} [DecidableEq T] [Fintype T] {s s' : Helper T}

omit [DecidableEq T] in
theorem Law.init : (init : Helper T).Law where
  all _ := by simp [Helper.init, Phase.owed]
  detail := ⟨⟨.empty, fun _ _ h => by cases h⟩, fun _ => rfl⟩
  quantity := ⟨⟨.empty, fun _ _ h => by cases h⟩, fun _ => rfl⟩

omit [Fintype T] in
@[simp] theorem goto_taken (t : T) (p : Phase) : (s.goto t p).taken = s.taken := rfl

omit [Fintype T] in
@[simp] theorem goto_reported (t : T) (p : Phase) : (s.goto t p).reported = s.reported := rfl

/-- A thread goes on; what it owes has been moved. -/
theorem owed_update {t : T} {p : Phase} {r : Report} {n m : Nat}
    (h : n = m + ∑ u, (s.threads u).owed.count r) {n' m' : Nat}
    (hn : n' + m + (s.threads t).owed.count r = n + m' + p.owed.count r) :
    n' = m' + ∑ u, (Function.update s.threads t p u).owed.count r := by
  have := sum_update (fun q : Phase => q.owed.count r) s.threads t p
  omega

/-- A thread goes on, and nothing is read or counted. -/
theorem Law.goto (h : s.Law) {t : T} {p : Phase} (howed : p.owed = (s.threads t).owed)
    (hdetail : p.detailWait = none) (hquantity : p.quantityWait = none) : (s.goto t p).Law where
  all r := owed_update (h.all r) (by rw [howed]; rfl)
  detail := h.detail.move hdetail
  quantity := h.quantity.move hquantity

/-- A report is taken. -/
theorem Law.request (h : s.Law) {t : T} {r : Report} (ht : s.threads t = .idle) :
    ({ s with taken := r :: s.taken }.goto t (.detail r)).Law where
  all r' := by
    refine owed_update (h.all r') ?_
    simp only [ht, goto_taken, goto_reported, Phase.owed, List.count_nil, List.count_cons]
    omega
  detail := h.detail.move rfl
  quantity := h.quantity.move rfl

theorem Law.getDetail (h : s.Law) {t : T} {r : Report} {day : Day} (ht : s.threads t = .detail r)
    (hfree : s.bdb_report.free (r.detailKey day) = true) :
    ({ s with bdb_report := s.bdb_report.read t (r.detailKey day) }.goto t
    (.detailRead r day)).Law where
  all r' := owed_update (h.all r') (by rw [ht]; rfl)
  detail := h.detail.read rfl (s.bdb_report.free_iff.mp hfree)
  quantity := h.quantity.move rfl

theorem Law.putDetail (h : s.Law) {t : T} {r : Report} {day : Day}
    (ht : s.threads t = .detailRead r day)
    (hroom : ((s.bdb_report.store (r.detailKey day)).getD ⟨0, 0⟩).of r.status + 1 < 2 ^ 32) :
    ((s.putDetail t r day).goto t (.query r)).Law where
  all r' := by
    refine owed_update (h.all r') ?_
    simp only [ht, goto_taken, goto_reported, Helper.putDetail, Phase.owed, List.map_cons,
      List.count_nil, List.count_cons]
    omega
  detail := h.detail.write ht rfl hroom
  quantity := h.quantity.move rfl

theorem Law.getQuantity (h : s.Law) {t : T} {r : Report} {row : Row} {rows : List Row}
    (ht : s.threads t = .quantity r (row :: rows))
    (hfree : s.bdb_status.free (r.rowKey row) = true) :
    ({ s with bdb_status := s.bdb_status.read t (r.rowKey row) }.goto t
    (.quantityRead r row rows)).Law where
  all r' := owed_update (h.all r') (by rw [ht]; rfl)
  detail := h.detail.move rfl
  quantity := h.quantity.read rfl (s.bdb_status.free_iff.mp hfree)

theorem Law.putQuantity (h : s.Law) {t : T} {r : Report} {row : Row} {rows : List Row}
    {now₁ now₂ now₃ : Int} (ht : s.threads t = .quantityRead r row rows)
    (hroom : (s.bdb_status.store (r.rowKey row)).all
    (fun data => data.numbers + 1 < 2 ^ 32) = true) :
    ((s.putQuantity t r row now₁ now₂ now₃).goto t (.quantity r rows)).Law := by
  have hwait : (s.threads t).quantityWait = some (r.rowKey row) := by rw [ht]; rfl
  obtain ⟨q, hq⟩ := h.quantity.serves.pending t _ hwait
  have hstore : s.bdb_status.store (r.rowKey row) = q := h.quantity.serves.fresh.read t _ q hq
  rw [hstore] at hroom
  have hcounted := window_counted row.db_seconds now₁ now₂ now₃
    (hstore.symm.trans (h.quantity.windows _)) hroom
  rw [Helper.putQuantity, hq]
  exact {
    all := fun r' => owed_update (h.all r') (by rw [ht]; rfl)
    detail := h.detail.move rfl
    quantity := h.quantity.write ht rfl rfl hcounted }

theorem Law.step (h : s.Law) {a : T × Act} (ha : s.alone a = true)
    (hs : s.step a = some s') : s'.Law := by
  rw [Helper.step] at hs
  rw [alone] at ha
  split at hs
  next beyond ip from_ rcpt status hact ht =>
    split at hs
    next =>
      obtain rfl := Option.some.inj hs
      exact h
    next r _ =>
      obtain rfl := Option.some.inj hs
      exact h.request ht
  next day r hact ht =>
    rw [hact, ht] at ha
    obtain rfl := Option.some.inj hs
    exact h.getDetail ht ha
  next r day hact ht =>
    rw [hact, ht] at ha
    obtain rfl := Option.some.inj hs
    exact h.putDetail ht (of_decide_eq_true ha)
  next rows r hact ht =>
    split at hs
    next =>
      obtain rfl := Option.some.inj hs
      exact h.goto (by rw [ht]; rfl) rfl rfl
    next => cases hs
  next r hact ht =>
    obtain rfl := Option.some.inj hs
    exact h.goto (by rw [ht]; rfl) rfl rfl
  next r row rows hact ht =>
    rw [hact, ht] at ha
    obtain rfl := Option.some.inj hs
    exact h.getQuantity ht ha
  next now₁ now₂ now₃ r row rows hact ht =>
    rw [hact, ht] at ha
    obtain rfl := Option.some.inj hs
    exact h.putQuantity ht ha
  next => cases hs

theorem Law.run (h : s.Law) {as : List (T × Act)}
    (hrun : Run (Guarded (fun s a => s.alone a = true) Steps) s as s') : s'.Law :=
  hrun.invariant (fun _ _ _ h hs => h.step hs.1 hs.2) h

omit [DecidableEq T] in
theorem Law.kept (h : s.Law) : s.Kept where
  all hidle := by
    refine List.perm_iff_count.mpr fun r => ?_
    rw [h.all r, Finset.sum_eq_zero fun t _ => by rw [hidle t]; rfl, Nat.add_zero]
  detail p day := by
    rw [h.detail.counts]
    refine congrArg (countsOf · s.reported) (funext fun e => Bool.eq_iff_iff.mpr ?_)
    rw [decide_eq_true_iff, isOf, Bool.and_eq_true, decide_eq_true_iff, decide_eq_true_iff]
    refine ⟨Place.detailKey_inj, ?_⟩
    rintro ⟨hp, hday⟩
    rw [hp, hday]
  quantity := h.quantity.windows

/-- No report is lost where no thread reads a record that another is to put back. -/
theorem reported_run {as : List (T × Act)} {s : Helper T}
    (hrun : Run (Guarded (fun s a => s.alone a = true) Steps) Helper.init as s) : s.Kept :=
  (Law.init.run hrun).kept

end Helper

/-! ### Two threads -/

/-- A report of a delivery that succeeded. -/
def requestOk : Act :=
  .request [] "10.0.0.1".toList "a.cn".toList "qq.com".toList ['s']

def october : Day := ⟨2013, 10, 7, by decide, by decide⟩

/-- One thread behind the other, each in one window. -/
def inTurn : List (Bool × Act) :=
  let one (t : Bool) (now : Int) : List (Bool × Act) :=
    [(t, requestOk), (t, .getDetail october), (t, .putDetail),
      (t, .query [⟨"qq.com".toList, "60".toList⟩]), (t, .getQuantity),
      (t, .putQuantity now now now),
      (t, .getQuantity)]
  one false 100 ++ one true 130

theorem reported_run_inTurn :
    ∃ s : Helper Bool, s.reported.length = 2 ∧ s.marks.length = 2 ∧ s.Kept := by
  have hrun : ((inTurn.foldlM (fun (s : Helper Bool) a => if s.alone a then s.step a else none)
      Helper.init).any fun s => s.reported.length == 2 && s.marks.length == 2) = true := by
    decide +kernel
  obtain ⟨s, hs, hend⟩ := (Option.any_eq_true _ _).mp hrun
  obtain ⟨hreported, hmarks⟩ := (Bool.and_eq_true _ _).mp hend
  exact ⟨s, beq_iff_eq.mp hreported, beq_iff_eq.mp hmarks,
    Helper.reported_run (Run.of_checked (fun _ _ h => h) hs)⟩

/-- Both threads read the record of the day before either puts it back. -/
def bothRead : List (Bool × Act) :=
  [(false, requestOk), (true, requestOk), (false, .getDetail october), (true, .getDetail october),
    (false, .putDetail), (true, .putDetail), (false, .query []), (true, .query []),
    (false, .getQuantity), (true, .getQuantity)]

/-- Two reports, and the record counts one. -/
theorem report_lost :
    ¬ ∀ (T : Type) [DecidableEq T] [Fintype T] (as : List (T × Act)) (s : Helper T),
    Run Helper.Steps Helper.init as s → s.Kept := by
  intro h
  have hrun : ((bothRead.foldlM (fun (s : Helper Bool) a => s.step a) Helper.init).any fun s =>
      s.reported.any fun e => decide (((s.bdb_report.store (e.1.detailKey october)).getD ⟨0, 0⟩).s ≠
        (countsOf (isOf e.1.toPlace october) s.reported).s)) = true := by decide +kernel
  obtain ⟨s, hs, hend⟩ := (Option.any_eq_true _ _).mp hrun
  obtain ⟨e, -, hne⟩ := List.any_eq_true.mp hend
  have hkept := (h Bool _ s (Run.of_foldlM hs)).detail e.1.toPlace october
  exact of_decide_eq_true hne (congrArg Counts.s hkept)

end Edm.DeliverHelp
