import Edm.Cachedb.ParseTask
import Edm.Maillist.Triger
import Mathlib.Algebra.BigOperators.Group.List.Basic

/-!
# Maillist — TaskReport

The three reports of the list daemon to the statistics: the tasks of the queue (`Thread_Report9`),
the counters of the trigger mails (`Thread_ReportTriger`), and the domains of every task
(`Thread_Report8`).  Each is built in a block of 10240 bytes; the first two get a larger one where
they need it.  Where a report is written beyond its block, it is `none`.
-/

namespace Edm.Maillist
open Support Cachedb
open Deliver (toUnsigned toUnsigned_int32)

/-! ### The tasks -/

/-- A task with the names of its domains, which are cut off at 29 bytes when they are read. -/
structure ReportTask extends TaskQueue where
  sDomain : Fin pAlias.nDomainNum → Text
  idFits : sID.length = 12
  domainsFit : ∀ i, (sDomain i).length ≤ 29 ∧ nul ∉ sDomain i

namespace ReportTask
variable (t : ReportTask)

/-- A water task, whose first number is zero, is not reported. -/
def water : Bool := t.sID.take 4 == be32 0

/-- A counter, summed up over the lists of the task. -/
def sum (n : MailList → Int) : Int :=
  ((List.finRange (t.pAlias.nDomainNum + 1)).map fun i => n (t.pMailList i)).sum

/-- The counters of a task, as `Thread_Report9` writes them. -/
def counters : List Int :=
  [t.sum (·.nSum), t.sum (·.nSuccess), t.sum (·.nSend), t.sum (·.nFail), t.sum (·.nDelay),
    t.sum (·.nNotFound), t.sum (·.nFailNotFound), t.sum (·.nFailDns), t.sum (·.nFailSpam)]

/-- The last byte of a task. -/
def flag : Char := if t.tFinishTime = 0 then Char.ofNat 1 else nul

/-- The 49 bytes of a task. -/
def record (counters : List Int) : Text := t.sID ++ (pack counters ++ [t.flag])

end ReportTask

/-- The first 18 bytes of a message with command 9. -/
def head9 (nLeng nNum : Nat) : Text :=
  be32 (nLeng - 4) ++ (be32 9 ++ (List.replicate 8 nul ++ be16 nNum))

/-- The loop of `Thread_Report9`: what it writes behind offset `nOffset`, with `nNum`.  It counts
only below `nLeng`. -/
def report9Loop (nLeng : Nat) : Nat → List ReportTask → Text × Nat
  | _, [] => ([], 0)
  | nOffset, t :: pTask =>
      if t.water then report9Loop nLeng nOffset pTask
      else
        let rest := report9Loop nLeng (nOffset + 49) pTask
        (t.record (if nOffset < nLeng then t.counters else List.replicate 9 0) ++
          rest.1, rest.2 + 1)

/-- `Thread_Report9`; `heap` is what the block holds before. -/
def report9 (heap : Nat → Char) (queue : List ReportTask) : Option Text :=
  let nLeng := queue.length * 49 + 18
  let nSize := if 10240 < nLeng then nLeng + 40 else 10240
  let out := report9Loop nLeng 18 queue
  let nOffset := 18 + out.1.length
  if nSize < nOffset then none
  else some ((head9 nLeng out.2 ++ (out.1 ++
    (List.range (nLeng - nOffset)).map fun i => heap (nOffset + i))).take nLeng)

/-! ### The trigger mails -/

/-- A record of `dbNumber`. -/
structure TrigerNumber (pAlias : DomainAlias) where
  key : Text
  counts : Fin (pAlias.nDomainNum + 1) → Counts
  keyFits : key.length = 12

namespace TrigerNumber
variable {pAlias : DomainAlias} (r : TrigerNumber pAlias)

/-- A counter, summed up over the domains. -/
def sum (n : Counts → Int) : Int :=
  ((List.finRange (pAlias.nDomainNum + 1)).map fun i => n (r.counts i)).sum

/-- The counters of a record, as `Thread_ReportTriger` writes them. -/
def counters : List Int :=
  [r.sum (·.sent), r.sum (·.success), r.sum (·.sent), r.sum (·.delay), r.sum (·.fail), 0, 0, 0, 0]

/-- The record is that of the day `nDay`. -/
def today (nDay : Nat) : Bool := nDay == secondNumber r.key % 100

/-- The 49 bytes of a record; the third number is always 1. -/
def record (nDay : Nat) : Text :=
  r.key.take 8 ++ (be32 1 ++ (pack r.counters ++ [if r.today nDay then Char.ofNat 1 else nul]))

end TrigerNumber

/-- The loop of `Thread_ReportTriger`: what it writes behind offset `nOffset` of a block of
`nSize` bytes. -/
def trigerLoop {pAlias : DomainAlias} (nDay : Nat) :
    Nat → Nat → List (TrigerNumber pAlias) → Option Text
  | _, _, [] => some []
  | nSize, nOffset, r :: dbc =>
      let nSize := if nSize < nOffset + 49 then nSize + 400 else nSize
      if nSize < nOffset + 49 then none
      else (trigerLoop nDay nSize (nOffset + 49) dbc).map (r.record nDay ++ ·)

/-- `Thread_ReportTriger`, for the records in the order of the cursor. -/
def reportTriger {pAlias : DomainAlias} (nDay : Nat) (dbc : List (TrigerNumber pAlias)) :
    Option Text :=
  (trigerLoop nDay 10240 18 dbc).map fun out => head9 (18 + out.length) dbc.length ++ out

/-! ### The domains -/

namespace ReportTask
variable (t : ReportTask)

/-- The name of a domain in the report. -/
def domainName (k : Fin (t.pAlias.nDomainNum + 1)) : Text :=
  if h : k.val < t.pAlias.nDomainNum then t.sDomain ⟨k, h⟩ else "other".toList

/-- The counters of a domain, as `Thread_Report8` writes them. -/
def domainCounters (k : Fin (t.pAlias.nDomainNum + 1)) : List Int :=
  let p := t.pMailList k
  [p.nSum, p.nSend, p.nSuccess, p.nDelay, p.nFail, p.nNotFound, p.nFailNotFound, p.nFailDns,
    p.nFailSpam]

/-- The bytes of a domain. -/
def domainRecord (k : Fin (t.pAlias.nDomainNum + 1)) : Text :=
  pack (t.domainCounters k) ++ (t.domainName k ++ [nul])

end ReportTask

/-- The message of `Thread_Report8` for a task.  Its block stays at 10240 bytes, since the answers
of `cachedb` are shorter. -/
def report8 (t : ReportTask) : Option Text :=
  let domains := (List.finRange (t.pAlias.nDomainNum + 1)).flatMap t.domainRecord
  let nLeng := 24 + domains.length
  if 10240 < nLeng then none
  else some (be32 (nLeng - 4) ++ (be32 8 ++ (be32 (t.pAlias.nDomainNum + 1) ++ (t.sID ++ domains))))

/-! ### What the reports mean -/

/-- A task is to be recorded with its counters. -/
def ReportTask.meant (t : ReportTask) : TinfoNode where
  send_flag := if t.tFinishTime = 0 then 1 else 0
  suc_send := toUnsigned (t.sum (·.nSuccess))
  total := toUnsigned (t.sum (·.nSum))
  send := toUnsigned (t.sum (·.nSend))
  template_id := word t.sID 8
  corp_id := word t.sID 0
  task_id := word t.sID 4
  hard_bounce_count := toUnsigned (t.sum (·.nFail))
  soft_bounce_count := toUnsigned (t.sum (·.nDelay))
  none_exist_count := toUnsigned (t.sum (·.nNotFound))
  none_exist_count1 := toUnsigned (t.sum (·.nFailNotFound))
  dns_fail_count := toUnsigned (t.sum (·.nFailDns))
  spam_garbage_count := toUnsigned (t.sum (·.nFailSpam))

/-- So is a record of the trigger mails, under the third number 1. -/
def TrigerNumber.meant {pAlias : DomainAlias} (nDay : Nat) (r : TrigerNumber pAlias) :
    TinfoNode where
  send_flag := if r.today nDay then 1 else 0
  suc_send := toUnsigned (r.sum (·.success))
  total := toUnsigned (r.sum (·.sent))
  send := toUnsigned (r.sum (·.sent))
  template_id := 1
  corp_id := word r.key 0
  task_id := word r.key 4
  hard_bounce_count := toUnsigned (r.sum (·.fail))
  soft_bounce_count := toUnsigned (r.sum (·.delay))
  none_exist_count := 0
  none_exist_count1 := 0
  dns_fail_count := 0
  spam_garbage_count := 0

/-- So is a domain of a task. -/
def ReportTask.meantDomain (t : ReportTask) (k : Fin (t.pAlias.nDomainNum + 1)) : TdomainNode where
  suc_send := toUnsigned (t.pMailList k).nSuccess
  total := toUnsigned (t.pMailList k).nSum
  send := toUnsigned (t.pMailList k).nSend
  template_id := word t.sID 8
  corp_id := word t.sID 0
  task_id := word t.sID 4
  hard_bounce_count := toUnsigned (t.pMailList k).nFail
  soft_bounce_count := toUnsigned (t.pMailList k).nDelay
  none_exist_count := toUnsigned (t.pMailList k).nNotFound
  none_exist_count1 := toUnsigned (t.pMailList k).nFailNotFound
  dns_fail_count := toUnsigned (t.pMailList k).nFailDns
  spam_garbage_count := toUnsigned (t.pMailList k).nFailSpam
  domain := t.domainName k

/-- A message is built, and `ParseMessage` makes of it what is meant. -/
def Reads (msg : Option Text) (pushed : Pushed) : Prop :=
  ∃ s, msg = some s ∧ parseMessage (s.drop 4) = some pushed

/-- The three reports mean what was counted. -/
structure Meant {pAlias : DomainAlias} (heap : Nat → Char) (nDay : Nat) (queue : List ReportTask)
    (dbc : List (TrigerNumber pAlias)) : Prop where
  tasks : Reads (report9 heap queue) ⟨(queue.filter fun t => !t.water).map (·.meant), []⟩
  triger : Reads (reportTriger nDay dbc) ⟨dbc.map (·.meant nDay), []⟩
  domains : ∀ t ∈ queue, t.water = false → Reads (report8 t)
    ⟨[], ((List.finRange (t.pAlias.nDomainNum + 1)).map t.meantDomain).filter (·.total != 0)⟩

/-! ### Command 9 -/

theorem parseMessage_head9 (nLeng nNum : Nat) (rest : Text) :
    parseMessage ((head9 nLeng nNum ++ rest).drop 4)
      = (readItems (readTask 9) (nNum % 65536) rest).map fun r => ⟨r.1, []⟩ := by
  have hdrop : (head9 nLeng nNum ++ rest).drop 4
      = be32 9 ++ (List.replicate 8 nul ++ (be16 nNum ++ rest)) := rfl
  have hcmd : word ((head9 nLeng nNum ++ rest).drop 4) 0 = 9 := by
    rw [hdrop, word, List.drop_zero, ofBe32_append]
    decide
  have hnum : ofBe16 (((head9 nLeng nNum ++ rest).drop 4).drop 12) = nNum % 65536 :=
    ofBe16_append nNum rest
  have hrest : ((head9 nLeng nNum ++ rest).drop 4).drop 14 = rest := rfl
  have hlong : 14 ≤ ((head9 nLeng nNum ++ rest).drop 4).length := by
    rw [hdrop]
    simp only [List.length_append, length_be32, List.length_replicate, length_be16]
    omega
  unfold parseMessage
  simp only [hcmd, hnum, hrest]
  rw [if_neg (by omega), if_pos (by decide), if_neg (by omega)]

theorem ReportTask.readTask_record (t : ReportTask) (rest : Text) :
    readTask 9 (t.record t.counters ++ rest) = some (t.meant, rest) := by
  have hread := readTask_pack t.idFits t.flag rest (t.sum (·.nSum)) (t.sum (·.nSuccess))
    (t.sum (·.nSend)) (t.sum (·.nFail)) (t.sum (·.nDelay)) (t.sum (·.nNotFound))
    (t.sum (·.nFailNotFound)) (t.sum (·.nFailDns)) (t.sum (·.nFailSpam))
  have hflag : t.flag.toNat = if t.tFinishTime = 0 then 1 else 0 := by
    unfold ReportTask.flag
    split <;> rfl
  rw [hflag] at hread
  exact hread

theorem ReportTask.length_record (t : ReportTask) {counters : List Int} (h : counters.length = 9) :
    (t.record counters).length = 49 := by
  simp only [record, List.length_append, length_pack, t.idFits, h, List.length_singleton]

/-- `nOffset` stays below `nLeng` before every task: each is counted. -/
theorem report9Loop_eq {nLeng : Nat} : ∀ {queue : List ReportTask} {nOffset : Nat},
    nOffset + queue.length * 49 ≤ nLeng → report9Loop nLeng nOffset queue
      = ((queue.filter fun t => !t.water).flatMap fun t => t.record t.counters,
        (queue.filter fun t => !t.water).length)
  | [], _, _ => rfl
  | t :: queue, nOffset, h => by
      rw [List.length_cons] at h
      cases hw : t.water with
      | true =>
        rw [report9Loop, if_pos hw, report9Loop_eq (by omega),
          List.filter_cons_of_neg (by simp [hw])]
      | false =>
        rw [report9Loop, if_neg (by simp [hw]), report9Loop_eq (by omega), if_pos (by omega),
          List.filter_cons_of_pos (by simp [hw]), List.flatMap_cons, List.length_cons]

theorem length_records (queue : List ReportTask) :
    (queue.flatMap fun t => t.record t.counters).length = queue.length * 49 := by
  induction queue with
  | nil => rfl
  | cons t queue ih =>
      rw [List.flatMap_cons, List.length_append, ih, t.length_record rfl, List.length_cons]
      omega

/-- `Thread_Report9` reports every task that is no water task. -/
theorem reads_report9 (heap : Nat → Char) {queue : List ReportTask} (h : queue.length < 65536) :
    Reads (report9 heap queue) ⟨(queue.filter fun t => !t.water).map (·.meant), []⟩ := by
  have hle : (queue.filter fun t => !t.water).length ≤ queue.length := List.length_filter_le _ _
  have hlength := length_records (queue.filter fun t => !t.water)
  have hroom : 18 + queue.length * 49 ≤ queue.length * 49 + 18 := by omega
  have hloop := report9Loop_eq hroom
  have hfits : ¬ (if 10240 < queue.length * 49 + 18 then queue.length * 49 + 18 + 40 else 10240)
      < 18 + ((queue.filter fun t => !t.water).flatMap fun t => t.record t.counters).length := by
    split <;> omega
  unfold report9
  simp only [hloop]
  rw [if_neg hfits]
  refine ⟨_, rfl, ?_⟩
  rw [List.take_of_length_le, parseMessage_head9, Nat.mod_eq_of_lt (by omega),
    readItems_flatMap fun t _ rest => t.readTask_record rest]
  · rfl
  · simp only [List.length_append, List.length_map, List.length_range, head9, length_be32,
      List.length_replicate, length_be16]
    omega

namespace TrigerNumber
variable {pAlias : DomainAlias}

/-- What `ParseMessage` makes of a record: the delays are read as hard bounces and the failures as
soft ones. -/
def read (nDay : Nat) (r : TrigerNumber pAlias) : TinfoNode :=
  { r.meant nDay with
    hard_bounce_count := toUnsigned (r.sum (·.delay))
    soft_bounce_count := toUnsigned (r.sum (·.fail)) }

theorem read_eq_meant_iff (nDay : Nat) (r : TrigerNumber pAlias) : r.read nDay = r.meant nDay ↔
    toUnsigned (r.sum (·.delay)) = toUnsigned (r.sum (·.fail)) := by
  constructor
  · exact congrArg TinfoNode.hard_bounce_count
  · intro h
    simp only [read, meant, h]

theorem readTask_record (nDay : Nat) (r : TrigerNumber pAlias) (rest : Text) :
    readTask 9 (r.record nDay ++ rest) = some (r.read nDay, rest) := by
  have hid : (r.key.take 8 ++ be32 1).length = 12 := by
    rw [List.length_append, List.length_take, r.keyFits]
    rfl
  have hread := readTask_pack hid (if r.today nDay then Char.ofNat 1 else nul) rest (r.sum (·.sent))
    (r.sum (·.success)) (r.sum (·.sent)) (r.sum (·.delay)) (r.sum (·.fail)) 0 0 0 0
  have hkey : ∀ i ≤ 4, word (r.key.take 8 ++ be32 1) i = word r.key i := by
    intro i hi
    have htail : 4 ≤ ((r.key.take 8).drop i).length := by
      rw [List.length_drop, List.length_take, r.keyFits]
      omega
    have hwhole : r.key.drop i = (r.key.take 8).drop i ++ r.key.drop 8 := by
      conv_lhs => rw [← List.take_append_drop 8 r.key]
      rw [List.drop_append_of_le_length]
      rw [List.length_take, r.keyFits]
      omega
    rw [word, word, hwhole, ofBe32_append_left htail, List.drop_append_of_le_length,
      ofBe32_append_left htail]
    rw [List.length_take, r.keyFits]
    omega
  have hlast : word (r.key.take 8 ++ be32 1) 8 = 1 := by
    rw [word, List.drop_left' (by rw [List.length_take, r.keyFits]; rfl)]
    decide
  have hflag : (if r.today nDay then Char.ofNat 1 else nul).toNat
      = if r.today nDay then 1 else 0 := by
    split <;> rfl
  have hzero : toUnsigned 0 = 0 := rfl
  rw [hkey 0 (by omega), hkey 4 (by omega), hlast, hflag, hzero] at hread
  have hrecord : r.record nDay ++ rest = r.key.take 8 ++ be32 1 ++ (pack r.counters
      ++ [if r.today nDay then Char.ofNat 1 else nul]) ++ rest := by
    simp only [record, List.append_assoc]
  rw [hrecord]
  refine hread.trans ?_
  simp only [read, meant]

/-- The block grows before it is full. -/
theorem trigerLoop_eq (nDay : Nat) : ∀ {dbc : List (TrigerNumber pAlias)} {nSize nOffset : Nat},
    nOffset ≤ nSize → trigerLoop nDay nSize nOffset dbc = some (dbc.flatMap (·.record nDay))
  | [], _, _, _ => rfl
  | r :: dbc, nSize, nOffset, h => by
      rw [trigerLoop]
      have hfits : nOffset + 49 ≤ if nSize < nOffset + 49 then nSize + 400 else nSize := by
        split <;> omega
      rw [if_neg (Nat.not_lt.mpr hfits), trigerLoop_eq nDay hfits]
      rfl

/-- The trigger mails are reported as meant when few are counted, and as many delayed as failed. -/
theorem reads_reportTriger_iff (nDay : Nat) (dbc : List (TrigerNumber pAlias)) :
    Reads (reportTriger nDay dbc) ⟨dbc.map (·.meant nDay), []⟩ ↔
      dbc.length < 65536 ∧
        ∀ r ∈ dbc, toUnsigned (r.sum (·.delay)) = toUnsigned (r.sum (·.fail)) := by
  have hmsg : reportTriger nDay dbc = some (head9 (18 + (dbc.flatMap (·.record nDay)).length)
      dbc.length ++ dbc.flatMap (·.record nDay)) := by
    rw [reportTriger, trigerLoop_eq nDay (by omega), Option.map_some]
  have hall : readItems (readTask 9) dbc.length (dbc.flatMap (·.record nDay))
      = some (dbc.map (·.read nDay), []) := by
    rw [← List.append_nil (dbc.flatMap _)]
    exact readItems_flatMap fun r _ rest => r.readTask_record nDay rest
  rw [Reads, hmsg]
  constructor
  · rintro ⟨s, hs, hparse⟩
    obtain rfl := Option.some.inj hs
    rw [parseMessage_head9] at hparse
    obtain ⟨out, hout, hpushed⟩ := Option.map_eq_some_iff.mp hparse
    have hlist : out.1 = dbc.map (·.meant nDay) := congrArg Pushed.list_task hpushed
    have hfew : dbc.length < 65536 := by
      have hlength := length_readItems hout
      rw [hlist, List.length_map] at hlength
      exact hlength ▸ Nat.mod_lt _ (by omega)
    rw [Nat.mod_eq_of_lt hfew, hall] at hout
    obtain rfl := Option.some.inj hout
    exact ⟨hfew, fun r hr => (r.read_eq_meant_iff nDay).mp (List.map_inj_left.mp hlist r hr)⟩
  · rintro ⟨hfew, hequal⟩
    have hlist : dbc.map (·.read nDay) = dbc.map (·.meant nDay) :=
      List.map_congr_left fun r hr => (r.read_eq_meant_iff nDay).mpr (hequal r hr)
    refine ⟨_, rfl, ?_⟩
    rw [parseMessage_head9, Nat.mod_eq_of_lt hfew, hall, hlist]
    rfl

end TrigerNumber

/-! ### Command 8 -/

namespace ReportTask
variable (t : ReportTask)

/-- The bytes of the report on a task. -/
def reportBytes : Nat :=
  24 + ((List.finRange (t.pAlias.nDomainNum + 1)).map fun k => 37 + (t.domainName k).length).sum

theorem domainName_fits (k : Fin (t.pAlias.nDomainNum + 1)) :
    nul ∉ t.domainName k ∧ (t.domainName k).length ≤ 63 := by
  unfold domainName
  split
  next h =>
    obtain ⟨hle, hnul⟩ := t.domainsFit ⟨k, h⟩
    exact ⟨hnul, by omega⟩
  next => decide

theorem readDomain_record {req : Text} {k : Fin (t.pAlias.nDomainNum + 1)}
    (hid : ∀ i ≤ 8, word req (8 + i) = word t.sID i) (rest : Text) :
    readDomain 8 req (t.domainRecord k ++ rest) = some (t.meantDomain k, rest) := by
  obtain ⟨hnul, hfits⟩ := t.domainName_fits k
  have hread := readDomain_pack hnul hfits req rest (t.pMailList k).nSum (t.pMailList k).nSend
    (t.pMailList k).nSuccess (t.pMailList k).nDelay (t.pMailList k).nFail (t.pMailList k).nNotFound
    (t.pMailList k).nFailNotFound (t.pMailList k).nFailDns (t.pMailList k).nFailSpam
  rw [hid 0 (by omega), hid 4 (by omega), hid 8 (by omega)] at hread
  exact hread

theorem length_domains : 24 + ((List.finRange (t.pAlias.nDomainNum + 1)).flatMap
    t.domainRecord).length = t.reportBytes := by
  rw [reportBytes, List.length_flatMap]
  congr 2
  refine List.map_congr_left fun k _ => ?_
  simp only [domainRecord, List.length_append, length_pack, domainCounters, List.length_cons,
    List.length_nil]
  omega

theorem domainNum_le : t.pAlias.nDomainNum + 1 ≤ t.reportBytes := by
  have hsum := List.length_le_sum_of_one_le
    ((List.finRange (t.pAlias.nDomainNum + 1)).map fun k => 37 + (t.domainName k).length) ?_
  · rw [List.length_map, List.length_finRange] at hsum
    rw [reportBytes]
    omega
  · intro n hn
    obtain ⟨k, -, rfl⟩ := List.mem_map.mp hn
    omega

theorem parseMessage_head8 (hfew : t.pAlias.nDomainNum + 1 < 2 ^ 32) :
    parseMessage (be32 8 ++ (be32 (t.pAlias.nDomainNum + 1) ++ (t.sID
        ++ (List.finRange (t.pAlias.nDomainNum + 1)).flatMap t.domainRecord)))
      = some ⟨[], ((List.finRange (t.pAlias.nDomainNum + 1)).map t.meantDomain).filter
          (·.total != 0)⟩ := by
  generalize hdomains : (List.finRange (t.pAlias.nDomainNum + 1)).flatMap t.domainRecord = domains
  generalize hreq : be32 8 ++ (be32 (t.pAlias.nDomainNum + 1) ++ (t.sID ++ domains)) = req
  have hcmd : word req 0 = 8 := by
    rw [← hreq, word, List.drop_zero, ofBe32_append]
    decide
  have hbehind : req.drop 4 = be32 (t.pAlias.nDomainNum + 1) ++ (t.sID ++ domains) := by
    rw [← hreq, List.drop_left' (length_be32 _)]
  have hnum : word req 4 = t.pAlias.nDomainNum + 1 := by
    rw [word, hbehind, ofBe32_append, toUnsigned_int32, toUnsigned]
    omega
  have htask : req.drop 8 = t.sID ++ domains := by
    rw [← List.drop_drop (i := 4) (j := 4), hbehind, List.drop_left' (length_be32 _)]
  have hid : ∀ i ≤ 8, word req (8 + i) = word t.sID i := by
    intro i hi
    rw [← word_id t.idFits hi domains, word, word, ← List.drop_drop, htask]
  have hrest : req.drop 20 = domains := by
    rw [← List.drop_drop (i := 12) (j := 8), htask, List.drop_left' t.idFits]
  have hlong : 20 ≤ req.length := by
    rw [← hreq]
    simp only [List.length_append, length_be32, t.idFits]
    omega
  have hread := readItems_flatMap (t := []) (l := List.finRange (t.pAlias.nDomainNum + 1))
    fun k _ rest => t.readDomain_record (k := k) hid rest
  rw [List.length_finRange, List.append_nil, hdomains] at hread
  unfold parseMessage
  simp only [hcmd, hnum, hrest]
  rw [if_neg (by omega), if_neg (by decide), if_pos (by decide), if_neg (by omega), hread]
  rfl

/-- A task is reported by domains when the report fits the block. -/
theorem reads_report8_iff : Reads (report8 t)
    ⟨[], ((List.finRange (t.pAlias.nDomainNum + 1)).map t.meantDomain).filter (·.total != 0)⟩ ↔
      t.reportBytes ≤ 10240 := by
  have hlength := t.length_domains
  unfold report8
  simp only [hlength]
  split
  next hlong =>
    refine iff_of_false ?_ (by omega)
    rintro ⟨s, hs, -⟩
    cases hs
  next hfits =>
    refine iff_of_true ⟨_, rfl, ?_⟩ (by omega)
    rw [List.drop_left' (length_be32 _)]
    exact t.parseMessage_head8 (by have := t.domainNum_le; omega)

end ReportTask

/-! ### The reports -/

/-- The statistics are told what was counted exactly when the report on every task fits its block,
and of the trigger mails fewer than 65536 numbers are counted, each with as many delays as
failures. -/
theorem meant_iff {pAlias : DomainAlias} (heap : Nat → Char) (nDay : Nat) (queue : List ReportTask)
    (dbc : List (TrigerNumber pAlias)) (h : queue.length < 65536) :
    Meant heap nDay queue dbc ↔
      (∀ t ∈ queue, t.water = false → t.reportBytes ≤ 10240) ∧ dbc.length < 65536 ∧
        ∀ r ∈ dbc, toUnsigned (r.sum (·.delay)) = toUnsigned (r.sum (·.fail)) := by
  constructor
  · intro hm
    exact ⟨fun t ht hw => t.reads_report8_iff.mp (hm.domains t ht hw),
      (TrigerNumber.reads_reportTriger_iff nDay dbc).mp hm.triger⟩
  · rintro ⟨hfits, htriger⟩
    exact ⟨reads_report9 heap h, (TrigerNumber.reads_reportTriger_iff nDay dbc).mpr htriger,
      fun t ht hw => t.reads_report8_iff.mpr (hfits t ht hw)⟩

/-- A task of one domain, whose second list is empty. -/
def sampleReport : ReportTask :=
  { sID := postKey (1, 2, 3)
    pAlias := sampleAlias
    pMailList := fun _ => MailList.empty []
    tFinishTime := 0
    tPauseTime := 0
    sDomain := fun _ => "b.c".toList
    idFits := rfl
    domainsFit := fun _ => by decide }

/-- The trigger mails of one number: one is sent and is `success`, `delay` or `fail`. -/
def sampleNumber (success delay fail : Int) : TrigerNumber sampleAlias where
  key := numberKey sampleID
  counts := fun i => if i = 0 then ⟨success, delay, fail, 1⟩ else .zero
  keyFits := rfl

theorem meant_sample : Meant (fun _ => nul) 1 [sampleReport] [sampleNumber 1 0 0] :=
  (meant_iff _ 1 [sampleReport] [sampleNumber 1 0 0] (by decide)).mpr (by decide)

/-- A trigger mail that is late is told as one that failed. -/
theorem delay_read_as_fail : ¬ ∀ (pAlias : DomainAlias) (heap : Nat → Char) (nDay : Nat)
    (queue : List ReportTask) (dbc : List (TrigerNumber pAlias)),
    queue.length < 65536 → Meant heap nDay queue dbc := by
  intro h
  have htriger := (h sampleAlias (fun _ => nul) 1 [] [sampleNumber 0 1 0] (by decide)).triger
  exact absurd ((TrigerNumber.reads_reportTriger_iff 1 _).mp htriger).2 (by decide)

end Edm.Maillist
