import Edm.Maillist.TaskFile
import Edm.Support.Run

/-!
# Maillist — Statistics

`ChangeMailboxStatWithLevel`: a delivery report changes the status of an entry and the counters
of its list.

The counters should say how many entries have which status (`MailList.Statistics`).  A loaded
list has this property, and a report keeps it unless the entry it finds is already a success
(`statistics_setStat_iff`): a second success takes one more off `nCount`, and any other status
leaves `nSuccess` and `nCount` as if the entry still were a success.  So the counters are right
along a history of reports if and only if no report finds a success (`statistics_history_iff`).
-/

namespace Edm.Maillist
open Support

/-! ### The counters -/

/-- The chain of `if`s that takes the old status of an entry out of the counters. -/
def MailList.uncount (p : MailList) : Option MailStat → MailList
  | some .fail => { p with nFail := p.nFail - 1 }
  | some .delay => { p with nDelay := p.nDelay - 1 }
  | some .notFound => { p with nFail := p.nFail - 1, nFailNotFound := p.nFailNotFound - 1 }
  | some .dns => { p with nDelay := p.nDelay - 1, nFailDns := p.nFailDns - 1 }
  | some .spam => { p with nFail := p.nFail - 1, nFailSpam := p.nFailSpam - 1 }
  | some .success => p
  | none => p

/-- The counters after `nStat` is reported for an entry whose status was `old`.  Only the branch
of a success has a case for an old success. -/
def MailList.recount (p : MailList) (nStat : MailStat) (old : Option MailStat) : MailList :=
  match nStat with
  | .success =>
      let q := { p with nCount := p.nCount - 1, nSuccess := p.nSuccess + 1 }
      match old with
      | some .success => { q with nSuccess := q.nSuccess - 1 }
      | old => q.uncount old
  | .fail => { p with nFail := p.nFail + 1 }.uncount old
  | .delay => { p with nDelay := p.nDelay + 1 }.uncount old
  | .dns => { p with nDelay := p.nDelay + 1, nFailDns := p.nFailDns + 1 }.uncount old
  | .notFound => { p with nFail := p.nFail + 1, nFailNotFound := p.nFailNotFound + 1 }.uncount old
  | .spam => { p with nFail := p.nFail + 1, nFailSpam := p.nFailSpam + 1 }.uncount old

/-- Entry `nM` gets the status `nStat`. -/
def MailList.setStat (p : MailList) (nStat : MailStat) (nM : Nat) : MailList :=
  { p.recount nStat (p.sOffsetList.getD nM default).stat with
    sOffsetList := p.sOffsetList.modify nM fun e => { e with stat := some nStat } }

/-! ### The call -/

/-- The arguments of a call; `stack` is what the buffer for the mailbox held before. -/
structure Report where
  sID : Text
  sMailbox : Text
  nStat : MailStat
  stack : Text

/-- The list and the entry of a mailbox. -/
def TaskQueue.findEntry (t : TaskQueue) (c : Report) :
    Option (Fin (t.pAlias.nDomainNum + 1) × Nat) :=
  if (cstr c.sMailbox).contains '@' then
    let nWhich := t.pAlias.which (cut '@' (cstr c.sMailbox)).2
    ((t.pMailList nWhich).findBox c.stack c.sMailbox).map fun nM => (nWhich, nM)
  else none

/-- A task after a report that names it. -/
def TaskQueue.changeStat (t : TaskQueue) (c : Report) : Int × TaskQueue :=
  match t.findEntry c with
  | none => (-1, t)
  | some (nWhich, nM) =>
      (0, { t with
        pMailList := Function.update t.pMailList nWhich
          ((t.pMailList nWhich).setStat c.nStat nM) })

/-- `memcmp(pTaskUsed->sID, sID, 12) == 0`. -/
def TaskQueue.named (t : TaskQueue) (sID : Text) : Bool := t.sID.take 12 == sID.take 12

/-- `ChangeMailboxStatWithLevel` on the queue of tasks. -/
def changeMailboxStatWithLevel (c : Report) : List TaskQueue → Int × List TaskQueue
  | [] => (-1, [])
  | t :: ts =>
      if t.named c.sID then ((t.changeStat c).1, (t.changeStat c).2 :: ts)
      else ((changeMailboxStatWithLevel c ts).1, t :: (changeMailboxStatWithLevel c ts).2)

/-! ### What the counters should say -/

/-- Whether the status is one of `s`. -/
def ofStat (s : List MailStat) (x : Option MailStat) : Bool := x.any s.contains

/-- The number of entries whose status is one of `s`. -/
def MailList.number (p : MailList) (s : List MailStat) : Int :=
  p.sOffsetList.countP fun e => ofStat s e.stat

/-- The counters of a list count its entries. -/
structure MailList.Statistics (p : MailList) : Prop where
  nSuccess : p.nSuccess = p.number [.success]
  nFail : p.nFail = p.nNotFound + p.number [.fail, .notFound, .spam]
  nDelay : p.nDelay = p.number [.delay, .dns]
  nFailNotFound : p.nFailNotFound = p.number [.notFound]
  nFailDns : p.nFailDns = p.number [.dns]
  nFailSpam : p.nFailSpam = p.number [.spam]
  nCount : p.nCount = p.nSum - p.nSuccess
  finished : p.nCount = 0 → ∀ e ∈ p.sOffsetList, e.stat = some .success

/-- A list has one entry for every line but those of rejected mailboxes. -/
structure MailList.Sized (p : MailList) : Prop where
  nSum : p.nSum = p.sOffsetList.length + p.nNotFound
  nNotFound : 0 ≤ p.nNotFound

/-- When the counters are right, `nCount` is zero only if every entry is a success. -/
theorem MailList.Sized.finished {p : MailList} (hs : p.Sized)
    (hS : p.nSuccess = p.number [.success]) (hC : p.nCount = p.nSum - p.nSuccess)
    (h : p.nCount = 0) : ∀ e ∈ p.sOffsetList, e.stat = some .success := by
  have hle : p.sOffsetList.countP (fun e => ofStat [.success] e.stat) ≤ p.sOffsetList.length :=
    List.countP_le_length
  have heq : p.sOffsetList.countP (fun e => ofStat [.success] e.stat) = p.sOffsetList.length := by
    have h₁ := hs.nSum
    have h₂ := hs.nNotFound
    rw [MailList.number] at hS
    omega
  intro e he
  have := List.countP_eq_length.mp heq e he
  simpa [ofStat, Option.any_eq_true] using this

/-! ### One report -/

/-- `1` if the status is one of `s`. -/
def weight (s : List MailStat) (x : Option MailStat) : Int := if ofStat s x then 1 else 0

/-- The new status is counted, and the old one no longer. -/
theorem MailList.number_setStat (p : MailList) (nStat : MailStat) {nM : Nat} {e : Entry}
    (he : p.sOffsetList[nM]? = some e) (s : List MailStat) :
    (p.setStat nStat nM).number s = p.number s - weight s e.stat + weight s (some nStat) := by
  obtain ⟨hlt, rfl⟩ := List.getElem?_eq_some_iff.mp he
  have hset : p.sOffsetList.modify nM (fun e => { e with stat := some nStat })
      = p.sOffsetList.set nM { p.sOffsetList[nM] with stat := some nStat } := by
    rw [List.modify_eq_set_getElem?, he]
    rfl
  have hpos : ofStat s p.sOffsetList[nM].stat →
      0 < p.sOffsetList.countP (fun e => ofStat s e.stat) := fun h =>
    List.countP_pos_iff.mpr ⟨_, List.getElem_mem hlt, h⟩
  simp only [number, setStat, weight, hset, List.countP_set hlt]
  by_cases h₁ : ofStat s p.sOffsetList[nM].stat
  · have h₀ := hpos h₁
    split_ifs <;> omega
  · split_ifs <;> omega

/-- How the counters move when the old status is not a success. -/
structure Recounted (nStat : MailStat) (old : Option MailStat) (p q : MailList) : Prop where
  nSuccess : q.nSuccess = p.nSuccess + weight [.success] (some nStat)
  nCount : q.nCount = p.nCount - weight [.success] (some nStat)
  nFail : q.nFail = p.nFail - weight [.fail, .notFound, .spam] old
    + weight [.fail, .notFound, .spam] (some nStat)
  nDelay : q.nDelay = p.nDelay - weight [.delay, .dns] old + weight [.delay, .dns] (some nStat)
  nFailNotFound : q.nFailNotFound = p.nFailNotFound - weight [.notFound] old
    + weight [.notFound] (some nStat)
  nFailDns : q.nFailDns = p.nFailDns - weight [.dns] old + weight [.dns] (some nStat)
  nFailSpam : q.nFailSpam = p.nFailSpam - weight [.spam] old + weight [.spam] (some nStat)

theorem MailList.recounted (p : MailList) (nStat : MailStat) {old : Option MailStat}
    (h : old ≠ some .success) : Recounted nStat old p (p.recount nStat old) := by
  constructor <;> cases nStat <;> rcases old with - | (- | - | - | - | - | -) <;>
    first
    | exact absurd rfl h
    | simp [recount, uncount, weight, ofStat]

/-- A report that finds a success: the success is not taken out of the counters again. -/
theorem MailList.recount_success (p : MailList) (nStat : MailStat) :
    (p.recount nStat (some .success)).nSuccess = p.nSuccess ∧
      (p.recount nStat (some .success)).nCount = p.nCount - weight [.success] (some nStat) := by
  cases nStat <;> simp [recount, uncount, weight, ofStat]

theorem MailList.nSum_recount (p : MailList) (nStat : MailStat) (old : Option MailStat) :
    (p.recount nStat old).nSum = p.nSum ∧ (p.recount nStat old).nNotFound = p.nNotFound := by
  cases nStat <;> rcases old with - | (- | - | - | - | - | -) <;> exact ⟨rfl, rfl⟩

theorem MailList.nSum_setStat (p : MailList) (nStat : MailStat) (nM : Nat) :
    (p.setStat nStat nM).nSum = p.nSum := (p.nSum_recount _ _).1

theorem MailList.nNotFound_setStat (p : MailList) (nStat : MailStat) (nM : Nat) :
    (p.setStat nStat nM).nNotFound = p.nNotFound := (p.nSum_recount _ _).2

theorem MailList.length_setStat (p : MailList) (nStat : MailStat) (nM : Nat) :
    (p.setStat nStat nM).sOffsetList.length = p.sOffsetList.length :=
  List.length_modify _ _ _

theorem MailList.Sized.setStat {p : MailList} (h : p.Sized) (nStat : MailStat) (nM : Nat) :
    (p.setStat nStat nM).Sized := by
  refine ⟨?_, ?_⟩
  · rw [p.nSum_setStat, p.length_setStat, p.nNotFound_setStat, h.nSum]
  · rw [p.nNotFound_setStat]
    exact h.nNotFound

theorem MailList.recounted_setStat (p : MailList) (nStat : MailStat) {nM : Nat} {e : Entry}
    (he : p.sOffsetList[nM]? = some e) (h : e.stat ≠ some .success) :
    Recounted nStat e.stat p (p.setStat nStat nM) := by
  have hst : (p.sOffsetList.getD nM default).stat = e.stat := by
    rw [List.getD_eq_getElem?_getD, he, Option.getD_some]
  obtain ⟨h₁, h₂, h₃, h₄, h₅, h₆, h₇⟩ := p.recounted nStat (hst ▸ h)
  rw [← hst]
  exact ⟨h₁, h₂, h₃, h₄, h₅, h₆, h₇⟩

/-- Where the counters are right, they are right after a report if and only if it does not find a
success. -/
theorem MailList.statistics_setStat_iff {p : MailList} (h : p.Statistics) (hs : p.Sized)
    (nStat : MailStat) {nM : Nat} {e : Entry} (he : p.sOffsetList[nM]? = some e) :
    (p.setStat nStat nM).Statistics ↔ e.stat ≠ some .success := by
  have hnum := p.number_setStat nStat he
  constructor
  · intro h' hsucc
    have hst : (p.sOffsetList.getD nM default).stat = some .success := by
      rw [List.getD_eq_getElem?_getD, he, Option.getD_some, hsucc]
    -- The number of successes falls by one unless a success is reported, `nCount` if one is.
    have hS : (p.setStat nStat nM).nSuccess = p.nSuccess := by
      rw [MailList.setStat, hst]
      exact (p.recount_success nStat).1
    have hC : (p.setStat nStat nM).nCount = p.nCount - weight [.success] (some nStat) := by
      rw [MailList.setStat, hst]
      exact (p.recount_success nStat).2
    have hw : weight [.success] e.stat = 1 := by rw [hsucc]; rfl
    have h₁ := h'.nSuccess
    have h₂ := h'.nCount
    rw [hS, hnum, hw, h.nSuccess] at h₁
    rw [hS, hC, p.nSum_setStat, h.nCount] at h₂
    omega
  · intro hne
    have hw : weight [.success] e.stat = 0 := by
      rcases hx : e.stat with - | (- | - | - | - | - | -)
      all_goals first | rfl | exact absurd hx hne
    have hr := p.recounted_setStat nStat he hne
    have hS : (p.setStat nStat nM).nSuccess = (p.setStat nStat nM).number [.success] := by
      rw [hr.nSuccess, hnum, hw, h.nSuccess]
      omega
    have hC : (p.setStat nStat nM).nCount
        = (p.setStat nStat nM).nSum - (p.setStat nStat nM).nSuccess := by
      rw [hr.nCount, hr.nSuccess, p.nSum_setStat, h.nCount]
      omega
    refine ⟨hS, ?_, ?_, ?_, ?_, ?_, hC, (hs.setStat nStat nM).finished hS hC⟩
    · rw [hr.nFail, hnum, p.nNotFound_setStat, h.nFail]
      omega
    · rw [hr.nDelay, hnum, h.nDelay]
    · rw [hr.nFailNotFound, hnum, h.nFailNotFound]
    · rw [hr.nFailDns, hnum, h.nFailDns]
    · rw [hr.nFailSpam, hnum, h.nFailSpam]

/-! ### The queue -/

/-- The status of the entry a report finds. -/
def TaskQueue.found (t : TaskQueue) (c : Report) : Option (Option MailStat) :=
  (t.findEntry c).map fun x => ((t.pMailList x.1).sOffsetList.getD x.2 default).stat

/-- A report finds a success: the entry it changes already has that status. -/
def findsSuccess (c : Report) : List TaskQueue → Bool
  | [] => false
  | t :: ts => if t.named c.sID then t.found c == some (some .success) else findsSuccess c ts

/-- The counters of all lists of all tasks are right. -/
def QueueStatistics (queue : List TaskQueue) : Prop :=
  ∀ t ∈ queue, ∀ i, (t.pMailList i).Statistics

def QueueSized (queue : List TaskQueue) : Prop := ∀ t ∈ queue, ∀ i, (t.pMailList i).Sized

theorem TaskQueue.findEntry_lt {t : TaskQueue} {c : Report}
    {nWhich : Fin (t.pAlias.nDomainNum + 1)} {nM : Nat} (h : t.findEntry c = some (nWhich, nM)) :
    nM < (t.pMailList nWhich).sOffsetList.length := by
  simp only [findEntry] at h
  split at h
  · obtain ⟨nM', h, hx⟩ := Option.map_eq_some_iff.mp h
    cases hx
    exact MailList.findBox_lt h
  · exact nomatch h

theorem TaskQueue.sized_changeStat {t : TaskQueue} (hs : ∀ i, (t.pMailList i).Sized) (c : Report) :
    ∀ i, ((t.changeStat c).2.pMailList i).Sized := by
  rw [changeStat]
  split
  · exact hs
  · exact forall_update hs ((hs _).setStat _ _)

theorem TaskQueue.statistics_changeStat_iff {t : TaskQueue}
    (h : ∀ i, (t.pMailList i).Statistics) (hs : ∀ i, (t.pMailList i).Sized) (c : Report) :
    (∀ i, ((t.changeStat c).2.pMailList i).Statistics) ↔ t.found c ≠ some (some .success) := by
  rw [changeStat, found]
  cases hf : t.findEntry c with
  | none => exact iff_of_true h (nomatch ·)
  | some x =>
      obtain ⟨nWhich, nM⟩ := x
      obtain ⟨e, he⟩ : ∃ e, (t.pMailList nWhich).sOffsetList[nM]? = some e :=
        ⟨_, List.getElem?_eq_getElem (findEntry_lt hf)⟩
      have hD : (t.pMailList nWhich).sOffsetList.getD nM default = e := by
        rw [List.getD_eq_getElem?_getD, he, Option.getD_some]
      have hiff := MailList.statistics_setStat_iff (h nWhich) (hs nWhich) c.nStat he
      rw [Option.map_some, hD, Ne, Option.some.injEq, ← Ne, ← hiff]
      refine ⟨fun h' => ?_, fun h' => forall_update h h'⟩
      have h' : ∀ i, (Function.update t.pMailList nWhich
          ((t.pMailList nWhich).setStat c.nStat nM) i).Statistics := h'
      simpa only [Function.update_self] using h' nWhich

theorem queueSized_change {queue : List TaskQueue} (hs : QueueSized queue) (c : Report) :
    QueueSized (changeMailboxStatWithLevel c queue).2 := by
  induction queue with
  | nil => exact hs
  | cons t ts ih =>
      obtain ⟨ht, hts⟩ := List.forall_mem_cons.mp hs
      rw [changeMailboxStatWithLevel]
      split
      · exact List.forall_mem_cons.mpr ⟨t.sized_changeStat ht c, hts⟩
      · exact List.forall_mem_cons.mpr ⟨ht, ih hts⟩

/-- One report keeps the counters right if and only if it does not find a success. -/
theorem queueStatistics_change_iff {queue : List TaskQueue} (h : QueueStatistics queue)
    (hs : QueueSized queue) (c : Report) :
    QueueStatistics (changeMailboxStatWithLevel c queue).2 ↔ findsSuccess c queue = false := by
  induction queue with
  | nil => exact iff_of_true h rfl
  | cons t ts ih =>
      obtain ⟨ht, hts⟩ := List.forall_mem_cons.mp h
      obtain ⟨hst, hsts⟩ := List.forall_mem_cons.mp hs
      rw [changeMailboxStatWithLevel, findsSuccess]
      split
      · rw [QueueStatistics, List.forall_mem_cons, t.statistics_changeStat_iff ht hst,
          beq_eq_false_iff_ne]
        exact and_iff_left hts
      · rw [QueueStatistics, List.forall_mem_cons, ← QueueStatistics, ih hts hsts]
        exact and_iff_right ht

/-! ### Loaded tasks -/

/-- A list no report has reached yet. -/
structure MailList.Fresh (p : MailList) : Prop where
  stat : ∀ e ∈ p.sOffsetList, e.stat = none
  sized : p.Sized
  nCount : p.nCount = p.nSum
  nSuccess : p.nSuccess = 0
  nDelay : p.nDelay = 0
  nFailNotFound : p.nFailNotFound = 0
  nFailDns : p.nFailDns = 0
  nFailSpam : p.nFailSpam = 0

theorem MailList.fresh_empty (heap : Text) : (MailList.empty heap).Fresh :=
  { stat := fun _ he => nomatch he
    sized := ⟨rfl, Int.le_refl _⟩
    nCount := rfl
    nSuccess := rfl
    nDelay := rfl
    nFailNotFound := rfl
    nFailDns := rfl
    nFailSpam := rfl }

theorem MailList.fresh_kept : KeptByLines MailList.Fresh where
  addRecord p names level body h := by
    refine ⟨fun e he => ?_, ⟨?_, h.sized.nNotFound⟩, ?_, h.nSuccess, h.nDelay, h.nFailNotFound,
      h.nFailDns, h.nFailSpam⟩
    · rcases MailList.mem_keepOrderFast2.mp he with he | rfl
      · exact h.stat e he
      · rfl
    · have := h.sized.nSum
      simp only [addRecord, length_keepOrderFast2, Int.natCast_add, Int.natCast_one]
      omega
    · simp only [addRecord, h.nCount]
  reject p h := by
    refine ⟨h.stat, ⟨?_, ?_⟩, ?_, h.nSuccess, h.nDelay, h.nFailNotFound, h.nFailDns, h.nFailSpam⟩
    · have := h.sized.nSum
      simp only [reject]
      omega
    · have := h.sized.nNotFound
      simp only [reject]
      omega
    · simp only [reject, h.nCount]

theorem MailList.Fresh.number {p : MailList} (h : p.Fresh) (s : List MailStat) :
    p.number s = 0 := by
  rw [MailList.number, List.countP_eq_zero.mpr]
  · rfl
  · intro e he
    rw [h.stat e he]
    exact Bool.false_ne_true

theorem TaskQueue.IsLoaded.list {t : TaskQueue} (h : t.IsLoaded)
    (i : Fin (t.pAlias.nDomainNum + 1)) :
    (t.pMailList i).Statistics ∧ (t.pMailList i).Sized := by
  obtain ⟨_, _, _, _, _, _, h⟩ := h
  obtain ⟨p, hp, hr⟩ :=
    readTaskFileWithLevel_boxes MailList.fresh_kept.boxes (fun _ => MailList.fresh_empty) h i
  have hnum := hp.number
  have hsz : ({ p with nFail := p.nNotFound } : MailList).Sized :=
      ⟨hp.sized.nSum, hp.sized.nNotFound⟩
  have hS : ({ p with nFail := p.nNotFound } : MailList).nSuccess
      = ({ p with nFail := p.nNotFound } : MailList).number [.success] :=
    hp.nSuccess.trans (hnum _).symm
  have hC : ({ p with nFail := p.nNotFound } : MailList).nCount
      = ({ p with nFail := p.nNotFound } : MailList).nSum
        - ({ p with nFail := p.nNotFound } : MailList).nSuccess := by
    simp only [hp.nCount, hp.nSuccess, Int.sub_zero]
  have hr : t.pMailList i = { p with nFail := p.nNotFound } := hr
  rw [hr]
  refine ⟨⟨hS, ?_, ?_, ?_, ?_, ?_, hC, hsz.finished hS hC⟩, hsz⟩
  · exact (Int.add_zero _).symm.trans (congrArg (p.nNotFound + ·) (hnum _).symm)
  · exact hp.nDelay.trans (hnum _).symm
  · exact hp.nFailNotFound.trans (hnum _).symm
  · exact hp.nFailDns.trans (hnum _).symm
  · exact hp.nFailSpam.trans (hnum _).symm

/-! ### Histories -/

/-- From any queue of loaded tasks and along any history of reports: the counters are right at the
start, and they are right after every report if and only if no report finds a success. -/
theorem statistics_history_iff {queue : List TaskQueue} (hq : ∀ t ∈ queue, t.IsLoaded)
    (reports : List Report) :
    QueueStatistics queue ∧
      ((∀ v ∈ visits (fun q c => (changeMailboxStatWithLevel c q).2) queue reports,
          QueueStatistics (changeMailboxStatWithLevel v.2 v.1).2) ↔
        ∀ v ∈ visits (fun q c => (changeMailboxStatWithLevel c q).2) queue reports,
          findsSuccess v.2 v.1 = false) := by
  have h₀ : QueueStatistics queue ∧ QueueSized queue :=
    ⟨fun t ht i => ((hq t ht).list i).1, fun t ht i => ((hq t ht).list i).2⟩
  refine ⟨h₀.1, forall_visits_iff_of_invariant (I := fun q => QueueStatistics q ∧ QueueSized q)
    (fun q c h => queueStatistics_change_iff h.1 h.2 c) (fun q c h hc => ?_) h₀⟩
  exact ⟨(queueStatistics_change_iff h.1 h.2 c).mpr hc, queueSized_change h.2 c⟩

theorem statistics_history_iff_sample :
    QueueStatistics [sampleTask] ∧
      ((∀ v ∈ visits (fun q c => (changeMailboxStatWithLevel c q).2) [sampleTask]
            [⟨idBytes (1, 2, 3), "a1234@b.c".toList, .delay, []⟩],
          QueueStatistics (changeMailboxStatWithLevel v.2 v.1).2) ↔
        ∀ v ∈ visits (fun q c => (changeMailboxStatWithLevel c q).2) [sampleTask]
            [⟨idBytes (1, 2, 3), "a1234@b.c".toList, .delay, []⟩],
          findsSuccess v.2 v.1 = false) :=
  statistics_history_iff (List.forall_mem_singleton.mpr isLoaded_sampleTask) _

/-- The engine reports a success, and then a failure, of the one subscriber: the list still counts
a success that no entry has. -/
theorem failure_after_success_miscounts : sampleTask.IsLoaded ∧
    ¬ QueueStatistics ([⟨idBytes (1, 2, 3), "a1234@b.c".toList, .success, []⟩,
        ⟨idBytes (1, 2, 3), "a1234@b.c".toList, .fail, []⟩].foldl
      (fun q c => (changeMailboxStatWithLevel c q).2) [sampleTask]) := by
  refine ⟨isLoaded_sampleTask, fun h => ?_⟩
  have hall : ∀ q : List TaskQueue, QueueStatistics q →
      q.all (fun t => (List.finRange (t.pAlias.nDomainNum + 1)).all fun i =>
        (t.pMailList i).nSuccess == (t.pMailList i).number [.success]) = true := by
    intro q hq
    simp only [List.all_eq_true, beq_iff_eq]
    exact fun t ht i _ => (hq t ht i).nSuccess
  exact absurd (hall _ h) (by decide +kernel)

end Edm.Maillist
