import Edm.Maillist.Statistics

/-!
# Maillist — Rounds

`AnswerMailboxRequestWithLevel`: a delivery engine asks for mailboxes, with items
`domain=…&cnt=…`, and the daemon answers from one task.  The entries of a list are handed out in
rounds: from `nNowPos` on, passing over the successes, until the end of the list, which ends the
round and starts a pause of `nRoundPeriod` seconds.

The model adds a log to each answer: the entries the scan passes, each with its status, and the
ends of rounds.  `MailList.RoundLaw` says what a log should look like.

The pause has a hole.  Its start is kept in `nTime`, an `int` in which `0` means that there is no
pause: when the clock reads a multiple of `2^32` at the end of a round, the next round starts at
once (`no_pause_at_zero`).  In every run in which no request comes at such a second the law holds
(`rounds_law`).
-/

namespace Edm.Maillist
open Support

/-! ### One item of a request -/

/-- The fields of `CONFIGURE` the requests read. -/
structure Configure where
  nRoundNum : Int
  nRoundPeriod : Int
  yxlevel : Int

/-- What the scan of a list does: it passes entry `nPos`, whose status is `stat`, or it ends the
round; `t` is the time of the request. -/
inductive Event where
  | pass (nRound : Int) (nPos : Nat) (stat : Option MailStat) (t : Int)
  | ended (nRound : Int) (t : Int)
  deriving DecidableEq

/-- The entries passed from position `nPos` on, and the first that is not a success. -/
def scan (nRound t : Int) : Nat → List Entry → List Event × Option (Nat × Entry)
  | _, [] => ([], none)
  | nPos, e :: es =>
      if e.stat = some .success then
        (.pass nRound nPos e.stat t :: (scan nRound t (nPos + 1) es).1,
          (scan nRound t (nPos + 1) es).2)
      else ([.pass nRound nPos e.stat t], some (nPos, e))

/-- The bytes of an entry in a response: the length, the task, and the record without its level
byte. -/
def MailList.response (p : MailList) (sID : Text) (e : Entry) : Text :=
  be32 (ofLe32 (p.at e.nPos) + 12) ++ sID.take 12
    ++ (p.at (e.nPos + 5)).take (ofLe32 (p.at e.nPos)).toNat

/-- Why a list hands out nothing: nothing is left, all rounds are over, or it pauses. -/
def MailList.closed (p : MailList) (conf : Configure) (tTime : Int) : Prop :=
  p.nCount = 0 ∨ conf.nRoundNum ≤ p.nRound ∨
    p.nTime ≠ 0 ∧ int32 (tTime - p.nTime) < conf.nRoundPeriod

instance (p : MailList) (conf : Configure) (tTime : Int) : Decidable (p.closed conf tTime) :=
  inferInstanceAs (Decidable (_ ∨ _ ∨ _))

/-- `nSend` counts the entries of the first round no report has settled. -/
def MailList.sent (p : MailList) (e : Entry) : Int :=
  if p.nRound = 0 ∧ e.stat ≠ some .success ∧ e.stat ≠ some .delay ∧ e.stat ≠ some .fail then
    p.nSend + 1
  else p.nSend

/-- A list after an item, the bytes the item adds to the response, how many entries these are, and
the log. -/
structure Answer where
  list : MailList
  sResult : Text
  nRet : Nat
  log : List Event

/-- The loop of an item that still wants `k` entries, at time `t`. -/
def MailList.answer (conf : Configure) (sID : Text) (t : Int) : Nat → MailList → Answer
  | 0, p => ⟨p, [], 0, []⟩
  | k + 1, p =>
      if p.closed conf (int32 t) then ⟨p, [], 0, []⟩
      else
        match scan p.nRound t p.nNowPos (p.sOffsetList.drop p.nNowPos) with
        | (log, none) =>
            ⟨{ p with nNowPos := 0, nRound := p.nRound + 1, nTime := int32 t }, [], 0,
              log ++ [.ended p.nRound t]⟩
        | (log, some (nPos, e)) =>
            let r := answer conf sID t k
              { p with nTime := 0, nSend := p.sent e, nNowPos := nPos + 1 }
            ⟨r.list, p.response sID e ++ r.sResult, r.nRet + 1, log ++ r.log⟩

/-! ### The items of a request -/

/-- A string `…domain=…&cnt=…` of a request: the domain and the count. -/
def parseItem (sTmp : Text) : Option (Text × Int) :=
  (strstr "domain=".toList sTmp).bind fun s =>
    if (s.drop 7).contains '&' then
      let sTmpE := (s.drop 7).dropWhile (· != '&')
      if strncmpEq sTmpE "&cnt=".toList then
        (scanInt (sTmpE.drop 5)).map fun n => ((cut '&' (s.drop 7)).1, n.1)
      else none
    else none

/-- The items of the memory at `sRequest`, at most `n`.  An empty string ends the request. -/
def requestItems : Nat → Nat → Text → List (Text × Int)
  | 0, _, _ => []
  | fuel + 1, n, sTmp =>
      if n = 0 ∨ (cstr sTmp).isEmpty then []
      else
        match parseItem (cstr sTmp) with
        | none => requestItems fuel n (sTmp.drop ((cstr sTmp).length + 1))
        | some item => item :: requestItems fuel (n - 1) (sTmp.drop ((cstr sTmp).length + 1))

/-! ### The task of a request -/

/-- The three numbers of a task. -/
def taskNumbers (sID : Text) : Int × Int × Int :=
  (ofBe32 sID, ofBe32 (sID.drop 4), ofBe32 (sID.drop 8))

/-- `yx_test`: the counter of a preferred task goes up to the level and back to zero.  The result
is its new value, or `-1`. -/
def yxTest (n : Int × Int × Int) (level : Int) :
    List ((Int × Int × Int) × Int) → Int × List ((Int × Int × Int) × Int)
  | [] => (-1, [])
  | p :: ps =>
      if p.1 = n then
        let reseverd := if p.2 < level then p.2 + 1 else 0
        (reseverd, (p.1, reseverd) :: ps)
      else ((yxTest n level ps).1, p :: (yxTest n level ps).2)

/-- `DABUDAI`: the queue of tasks, and the list of preferred ones. -/
structure Dabudai where
  pBegin : List TaskQueue
  nTaskNum : Int
  nTaskOffset : Int
  yxHead : List ((Int × Int × Int) × Int)

/-- A task that is neither finished nor paused. -/
def TaskQueue.active (t : TaskQueue) : Bool := t.tFinishTime == 0 && t.tPauseTime == 0

/-- `yx_test` of task `k` of the queue; `-1` when there is none. -/
def Dabudai.yx (d : Dabudai) (conf : Configure) (k : Nat) : Int × Dabudai :=
  match d.pBegin[k]? with
  | none => (-1, d)
  | some t =>
      let r := yxTest (taskNumbers t.sID) conf.yxlevel d.yxHead
      (r.1, { d with yxHead := r.2 })

/-- `*nTaskOffset = (*nTaskOffset + 1) % nTaskNum`, when the task is not a preferred one. -/
def Dabudai.advance (d : Dabudai) (ret : Int) : Dabudai :=
  if ret < 1 then { d with nTaskOffset := (d.nTaskOffset + 1).tmod d.nTaskNum } else d

/-- An offset beyond the last task goes back to the first. -/
def Dabudai.wrapOffset (d : Dabudai) : Dabudai :=
  if d.nTaskNum ≤ d.nTaskOffset then { d with nTaskOffset := 0 } else d

/-- The place in the queue the offset names. -/
def Dabudai.firstTask (d : Dabudai) : Nat :=
  if d.nTaskOffset.toNat < d.pBegin.length then d.nTaskOffset.toNat else 0

/-- The offset for the next request, after task `k`. -/
def Dabudai.moveOffset (d : Dabudai) (conf : Configure) (k : Nat) : Dabudai :=
  if d.nTaskNum ≠ 0 then (d.yx conf k).2.advance (d.yx conf k).1
  else { (d.yx conf k).2 with nTaskOffset := 0 }

/-- A task that is finished or paused gives its turn to the next one. -/
def Dabudai.skipInactive (d : Dabudai) (conf : Configure) (k : Nat) : Nat × Dabudai :=
  match d.pBegin[k]? with
  | none => (k, d)
  | some t =>
      if d.nTaskNum ≠ 0 ∧ !t.active then
        let k := if k + 1 < d.pBegin.length then k + 1 else 0
        (k, (d.yx conf k).2.advance (d.yx conf k).1)
      else (k, d)

/-- The place in the queue of the task that answers the next request. -/
def Dabudai.chooseTask (d : Dabudai) (conf : Configure) : Nat × Dabudai :=
  let d := d.wrapOffset
  (d.moveOffset conf d.firstTask).skipInactive conf d.firstTask

/-! ### A request -/

/-- What one item handed out: of which task and which of its lists, the count it asked for, the
bytes of the response, and the log. -/
structure Handed where
  task : Nat
  nWhich : Nat
  nNum : Int
  sResult : Text
  nRet : Nat
  log : List Event
  deriving DecidableEq

/-- The items of a request, in turn, at one task. -/
def TaskQueue.answerItems (conf : Configure) (t : Int) (k : Nat) :
    TaskQueue → List (Text × Int) → TaskQueue × List Handed
  | q, [] => (q, [])
  | q, (domain, nNum) :: items =>
      let nWhich := q.pAlias.which domain
      let r := (q.pMailList nWhich).answer conf q.sID t nNum.toNat
      let rest := answerItems conf t k
        { q with pMailList := Function.update q.pMailList nWhich r.list } items
      (rest.1, ⟨k, nWhich, nNum, r.sResult, r.nRet, r.log⟩ :: rest.2)

/-- `AnswerMailboxRequestWithLevel` at time `t`: the daemon, and what each item handed out. -/
def answerMailboxRequestWithLevel (conf : Configure) (t : Int) (nRequestNum : Int)
    (sRequest : Text) (d : Dabudai) : Dabudai × List Handed :=
  let (k, d) := d.chooseTask conf
  match d.pBegin[k]? with
  | none => (d, [])
  | some q =>
      if q.active then
        let r := q.answerItems conf t k
          (requestItems (sRequest.length + 1) nRequestNum.toNat sRequest)
        ({ d with pBegin := d.pBegin.set k r.1 }, r.2)
      else (d, [])

/-! ### The law of the rounds -/

/-- The position an event passes in a round. -/
def Event.passedIn (nRound : Int) : Event → Option Nat
  | .pass r nPos _ _ => if r = nRound then some nPos else none
  | .ended _ _ => none

/-- The position of the entry an event writes: one that is not a success when it is passed. -/
def Event.written : Event → Option Nat
  | .pass _ nPos stat _ => if stat = some .success then none else some nPos
  | .ended _ _ => none

/-- The positions passed in a round. -/
def passes (nRound : Int) (log : List Event) : List Nat := log.filterMap (Event.passedIn nRound)

/-- The positions of the entries written to responses in a round. -/
def writes (nRound : Int) (log : List Event) : List Nat :=
  log.filterMap fun e => (e.passedIn nRound).bind fun _ => e.written

/-- The log of a list of `n` entries.  In no round is an entry written twice.  When a round ends
every entry has been passed once in it, and so written if it was not a success then, and none is
passed in it later.  Nothing is handed out after the last round, nor within `nRoundPeriod` seconds
of the end of the round before. -/
structure RoundLaw (conf : Configure) (n : Nat) (log : List Event) : Prop where
  once : ∀ nRound, (writes nRound log).Nodup
  complete : ∀ before after nRound t, log = before ++ .ended nRound t :: after →
    passes nRound before = List.range n ∧ passes nRound after = []
  bounded : ∀ nRound nPos stat t, .pass nRound nPos stat t ∈ log → nRound < conf.nRoundNum
  pause : ∀ nRound t nPos stat t', .ended nRound t ∈ log → .pass (nRound + 1) nPos stat t' ∈ log →
    conf.nRoundPeriod ≤ t' - t

@[simp] theorem passes_append (r : Int) (l l' : List Event) :
    passes r (l ++ l') = passes r l ++ passes r l' := List.filterMap_append

@[simp] theorem passes_ended (r r' t : Int) : passes r [.ended r' t] = [] := rfl

theorem passes_cons_pass (r r' t : Int) (nPos : Nat) (stat : Option MailStat) (l : List Event) :
    passes r (.pass r' nPos stat t :: l) = if r' = r then nPos :: passes r l else passes r l := by
  rw [passes, List.filterMap_cons, Event.passedIn]
  split_ifs <;> rfl

theorem writes_cons_pass (r r' t : Int) (nPos : Nat) (stat : Option MailStat) (l : List Event) :
    writes r (.pass r' nPos stat t :: l)
      = if r' = r ∧ stat ≠ some .success then nPos :: writes r l else writes r l := by
  rw [writes, List.filterMap_cons, Event.passedIn, Event.written]
  by_cases hr : r' = r <;> by_cases hs : stat = some .success <;> simp [hr, hs, writes]

theorem writes_sublist (r : Int) (log : List Event) : (writes r log).Sublist (passes r log) := by
  induction log with
  | nil => exact List.Sublist.slnil
  | cons e log ih =>
      cases e with
      | ended _ _ => exact ih
      | pass r' nPos stat t =>
          rw [writes_cons_pass, passes_cons_pass]
          by_cases hr : r' = r
          · by_cases hs : stat = some .success
            · simpa [hr, hs] using ih.cons nPos
            · simpa [hr, hs] using ih
          · simpa [hr] using ih

/-! ### The scan -/

/-- The scan passes positions in order, in the round it is in, and stops at an entry that is not
a success. -/
theorem scan_spec (r t : Int) : ∀ (nPos : Nat) (es : List Entry),
    (∀ e ∈ (scan r t nPos es).1, ∃ m stat, e = .pass r m stat t) ∧
      match (scan r t nPos es).2 with
      | none => passes r (scan r t nPos es).1 = List.range' nPos es.length ∧
          (scan r t nPos es).1.filterMap Event.written = []
      | some (m, e) => ∃ j, m = nPos + j ∧ es[j]? = some e ∧
          passes r (scan r t nPos es).1 = List.range' nPos (j + 1) ∧
          (scan r t nPos es).1.filterMap Event.written = [m]
  | nPos, [] => by
      rw [scan]
      exact ⟨fun _ h => (nomatch h), rfl, rfl⟩
  | nPos, e :: es => by
      rw [scan]
      split
      next hs =>
        obtain ⟨hp, hres⟩ := scan_spec r t (nPos + 1) es
        refine ⟨List.forall_mem_cons.mpr ⟨⟨nPos, e.stat, rfl⟩, hp⟩, ?_⟩
        have hw : (Event.pass r nPos e.stat t :: (scan r t (nPos + 1) es).1).filterMap
            Event.written = (scan r t (nPos + 1) es).1.filterMap Event.written := by
          rw [List.filterMap_cons, Event.written, if_pos hs]
        rw [passes_cons_pass, if_pos rfl, hw]
        cases hsc : (scan r t (nPos + 1) es).2 with
        | none =>
            rw [hsc] at hres
            obtain ⟨h₁, h₂⟩ := hres
            exact ⟨by rw [h₁, List.length_cons, List.range'_succ], h₂⟩
        | some x =>
            rw [hsc] at hres
            obtain ⟨j, hm, hj, h₁, h₂⟩ := hres
            exact ⟨j + 1, by omega, hj, by rw [h₁, ← List.range'_succ], h₂⟩
      next hs =>
        refine ⟨fun e' he' => ⟨nPos, e.stat, List.mem_singleton.mp he'⟩, 0, rfl, rfl, ?_, ?_⟩
        · rw [passes_cons_pass, if_pos rfl]
          rfl
        · rw [List.filterMap_cons, Event.written, if_neg hs]
          rfl

/-! ### A list and its log -/

/-- What a list and its log have to do with each other, up to the time `now`. -/
structure MailList.Traced (conf : Configure) (now : Int) (p : MailList) (log : List Event) :
    Prop where
  nonneg : 0 ≤ p.nRound
  nowPos : p.nNowPos ≤ p.sOffsetList.length
  past : ∀ r, 0 ≤ r → r < p.nRound → passes r log = List.range p.sOffsetList.length
  present : passes p.nRound log = List.range p.nNowPos
  future : ∀ r, r < 0 ∨ p.nRound < r → passes r log = []
  complete : ∀ before after r t, log = before ++ .ended r t :: after →
    passes r before = List.range p.sOffsetList.length ∧ passes r after = []
  ended_lt : ∀ r t, .ended r t ∈ log → r < p.nRound ∧ t ≤ now
  bounded : ∀ r nPos stat t, .pass r nPos stat t ∈ log → r < conf.nRoundNum
  pause : ∀ r t nPos stat t', .ended r t ∈ log → .pass (r + 1) nPos stat t' ∈ log →
    conf.nRoundPeriod ≤ t' - t
  timer : ∀ t, .ended (p.nRound - 1) t ∈ log →
    conf.nRoundPeriod ≤ now - t ∨ p.nTime = int32 t ∧ int32 t ≠ 0

theorem MailList.Traced.law {conf : Configure} {now : Int} {p : MailList} {log : List Event}
    (h : p.Traced conf now log) : RoundLaw conf p.sOffsetList.length log where
  once r := by
    refine (writes_sublist r log).nodup ?_
    rcases Int.lt_trichotomy r p.nRound with hr | rfl | hr
    · rcases Int.lt_or_le r 0 with hr₀ | hr₀
      · rw [h.future r (Or.inl hr₀)]
        exact List.nodup_nil
      · rw [h.past r hr₀ hr]
        exact List.nodup_range
    · rw [h.present]
      exact List.nodup_range
    · rw [h.future r (Or.inr hr)]
      exact List.nodup_nil
  complete := h.complete
  bounded := h.bounded
  pause := h.pause

theorem MailList.Traced.later {conf : Configure} {now now' : Int} {p : MailList}
    {log : List Event} (h : p.Traced conf now log) (hle : now ≤ now') :
    p.Traced conf now' log :=
  { h with
    ended_lt := fun r t ht => ⟨(h.ended_lt r t ht).1, Int.le_trans (h.ended_lt r t ht).2 hle⟩
    timer := fun t ht => (h.timer t ht).imp_left fun h => by omega }

/-- Only the length of the list, the round, the position and the timer matter. -/
theorem MailList.Traced.congr {conf : Configure} {now : Int} {p q : MailList}
    {log : List Event} (h : p.Traced conf now log)
    (hl : q.sOffsetList.length = p.sOffsetList.length) (hr : q.nRound = p.nRound)
    (hp : q.nNowPos = p.nNowPos) (ht : q.nTime = p.nTime) : q.Traced conf now log := by
  obtain ⟨h₀, h₁, h₂, h₃, h₄, h₅, h₆, h₇, h₈, h₉⟩ := h
  rw [← hl] at h₁ h₂ h₅
  rw [← hr] at h₀ h₂ h₃ h₄ h₆ h₉
  rw [← hp] at h₁ h₃
  rw [← ht] at h₉
  exact ⟨h₀, h₁, h₂, h₃, h₄, h₅, h₆, h₇, h₈, h₉⟩

theorem passes_other {r r' t : Int} {log : List Event}
    (h : ∀ e ∈ log, ∃ m stat, e = .pass r m stat t) (hr : r' ≠ r) : passes r' log = [] := by
  refine List.filterMap_eq_nil_iff.mpr fun e he => ?_
  obtain ⟨m, stat, rfl⟩ := h e he
  exact if_neg (Ne.symm hr)

/-- An end of a round in a log that goes on with passes is in its first part. -/
theorem ended_split {r t r' t' : Int} {log log' before after : List Event}
    (hlog : ∀ e ∈ log', ∃ m stat, e = .pass r m stat t)
    (h : log ++ log' = before ++ .ended r' t' :: after) :
    ∃ after', log = before ++ .ended r' t' :: after' ∧ after = after' ++ log' := by
  have hno : .ended r' t' ∉ log' := fun hm => by
    obtain ⟨_, _, h⟩ := hlog _ hm
    exact nomatch h
  rcases List.append_eq_append_iff.mp h with ⟨a, -, hb⟩ | ⟨c, ha, hb⟩
  · exact absurd (hb ▸ List.mem_append_right a List.mem_cons_self) hno
  · cases c with
    | nil =>
        have hb : .ended r' t' :: after = log' := hb
        exact absurd (hb ▸ List.mem_cons_self) hno
    | cons e c =>
        obtain ⟨rfl, rfl⟩ := List.cons.inj hb
        exact ⟨c, ha, rfl⟩

/-- The scan of an open list, up to where it stops: it is in time, and its passes extend those of
the round. -/
theorem MailList.Traced.scanned {conf : Configure} {t : Int} {p : MailList} {log log' : List Event}
    (h : p.Traced conf t log) (ho : ¬ p.closed conf (int32 t))
    (hlog : ∀ e ∈ log', ∃ m stat, e = .pass p.nRound m stat t) {k : Nat}
    (hk : p.nNowPos + k ≤ p.sOffsetList.length)
    (hpass : passes p.nRound log' = List.range' p.nNowPos k) :
    ({ p with nTime := 0, nNowPos := p.nNowPos + k } : MailList).Traced conf t (log ++ log') := by
  obtain ⟨-, hround, hpause⟩ := by simpa only [MailList.closed, not_or] using ho
  have hno : ∀ r s, .ended r s ∉ log' := fun r s hm => by
    obtain ⟨_, _, h⟩ := hlog _ hm
    exact nomatch h
  have hended : ∀ r s, .ended r s ∈ log ++ log' → .ended r s ∈ log := fun r s hm =>
    (List.mem_append.mp hm).resolve_right (hno r s)
  -- The pause of the last round is over: either it was before, or the timer says so.
  have htime : ∀ s, .ended (p.nRound - 1) s ∈ log → conf.nRoundPeriod ≤ t - s := by
    intro s hs
    rcases h.timer s hs with hs' | ⟨hs₁, hs₂⟩
    · exact hs'
    · have hle := (h.ended_lt _ _ hs).2
      have h₁ : conf.nRoundPeriod ≤ int32 (int32 t - p.nTime) := by
        by_contra hlt
        exact hpause ⟨hs₁ ▸ hs₂, by omega⟩
      rw [hs₁, int32_sub] at h₁
      have h₂ := int32_le (z := t - s) (by omega)
      omega
  refine ⟨h.nonneg, hk, fun r h₀ hr => ?_, ?_, fun r hr => ?_, fun before after r s hs =>
    ?_, fun r s hs => ?_,
    fun r m stat s hs => ?_, fun r s m stat s' hs hs' => ?_, fun s hs => Or.inl (htime s ?_)⟩
  · rw [passes_append, h.past r h₀ hr, passes_other hlog (Int.ne_of_lt hr), List.append_nil]
  · have := List.range'_append_1 (s := 0) (m := p.nNowPos) (n := k)
    rw [Nat.zero_add] at this
    rw [passes_append, hpass, h.present, List.range_eq_range', List.range_eq_range', this]
  · have hne : r ≠ p.nRound := by
      have := h.nonneg
      rintro rfl
      exact hr.elim (Int.not_lt.mpr this) (Int.lt_irrefl _)
    rw [passes_append, h.future r hr, passes_other hlog hne, List.append_nil]
  · obtain ⟨after', hl, rfl⟩ := ended_split hlog hs
    obtain ⟨h₁, h₂⟩ := h.complete _ _ _ _ hl
    have hr := (h.ended_lt r s (hl ▸ List.mem_append_right _ List.mem_cons_self)).1
    exact ⟨h₁, by rw [passes_append, h₂, passes_other hlog (Int.ne_of_lt hr), List.append_nil]⟩
  · exact h.ended_lt r s (hended r s hs)
  · rcases List.mem_append.mp hs with hs | hs
    · exact h.bounded r m stat s hs
    · obtain ⟨_, _, heq⟩ := hlog _ hs
      cases heq
      omega
  · rcases List.mem_append.mp hs' with hs' | hs'
    · exact h.pause r s m stat s' (hended r s hs) hs'
    · obtain ⟨_, _, heq⟩ := hlog _ hs'
      obtain ⟨hr, -, -, rfl⟩ := Event.pass.inj heq
      obtain rfl : r = p.nRound - 1 := by omega
      exact htime s (hended _ s hs)
  · exact hended _ s hs

/-- A list whose scan has reached its end starts the pause. -/
theorem MailList.Traced.ended {conf : Configure} {t : Int} {p : MailList} {log : List Event}
    (h : p.Traced conf t log) (hend : p.nNowPos = p.sOffsetList.length)
    (hz : 0 < conf.nRoundPeriod → int32 t ≠ 0) :
    ({ p with nNowPos := 0, nRound := p.nRound + 1, nTime := int32 t } : MailList).Traced conf t
      (log ++ [.ended p.nRound t]) := by
  refine ⟨Int.le_add_one h.nonneg, Nat.zero_le _, fun r h₀ hr => ?_, ?_, fun r hr =>
    ?_, fun before after r s hs => ?_,
    fun r s hs => ?_, fun r m stat s hs => ?_, fun r s m stat s' hs hs' => ?_, fun s hs => ?_⟩
  · rw [passes_append, passes_ended, List.append_nil]
    rcases Int.lt_or_eq_of_le (Int.le_of_lt_add_one hr) with hr | rfl
    · exact h.past r h₀ hr
    · rw [h.present, hend]
  · rw [passes_append, passes_ended, List.append_nil]
    exact h.future _ (Or.inr (Int.lt_succ _))
  · rw [passes_append, passes_ended, List.append_nil]
    exact h.future r (hr.imp_right (Int.lt_trans (Int.lt_succ _)))
  · rcases List.append_eq_append_iff.mp hs with ⟨a, ha, hb⟩ | ⟨c, ha, hb⟩
    · cases a with
      | nil =>
          obtain ⟨heq, rfl⟩ := List.cons.inj hb
          cases heq
          rw [ha, List.append_nil, h.present, hend]
          exact ⟨rfl, rfl⟩
      | cons _ a => exact absurd (List.cons.inj hb).2 (by simp)
    · cases c with
      | nil =>
          obtain ⟨heq, rfl⟩ := List.cons.inj hb
          cases heq
          rw [← List.append_nil before, ← ha, h.present, hend]
          exact ⟨rfl, rfl⟩
      | cons e c =>
          obtain ⟨rfl, hafter⟩ := List.cons.inj hb
          obtain ⟨h₁, h₂⟩ := h.complete _ _ _ _ ha
          have hafter : after = c ++ [.ended p.nRound t] := hafter
          exact ⟨h₁, by rw [hafter, passes_append, h₂]; rfl⟩
  · rcases List.mem_append.mp hs with hs | hs
    · obtain ⟨h₁, h₂⟩ := h.ended_lt r s hs
      exact ⟨Int.lt_trans h₁ (Int.lt_succ _), h₂⟩
    · cases List.mem_singleton.mp hs
      exact ⟨Int.lt_succ _, Int.le_refl _⟩
  · rcases List.mem_append.mp hs with hs | hs
    · exact h.bounded r m stat s hs
    · exact nomatch List.mem_singleton.mp hs
  · rcases List.mem_append.mp hs' with hs' | hs'
    · rcases List.mem_append.mp hs with hs | hs
      · exact h.pause r s m stat s' hs hs'
      · cases List.mem_singleton.mp hs
        -- No entry of the next round has been passed yet.
        have hnil := h.future (p.nRound + 1) (Or.inr (Int.lt_succ _))
        have := List.filterMap_eq_nil_iff.mp hnil _ hs'
        exact absurd this (by simp [Event.passedIn])
    · exact nomatch List.mem_singleton.mp hs'
  · rcases List.mem_append.mp hs with hs | hs
    · have := (h.ended_lt _ _ hs).1
      exact absurd this (by simp)
    · obtain ⟨-, rfl⟩ := Event.ended.inj (List.mem_singleton.mp hs)
      by_cases hp : 0 < conf.nRoundPeriod
      · exact Or.inr ⟨rfl, hz hp⟩
      · exact Or.inl (by omega)

/-! ### One item -/

/-- The bytes of entry `nPos`. -/
def MailList.responseAt (p : MailList) (sID : Text) (nPos : Nat) : Text :=
  p.response sID (p.sOffsetList.getD nPos default)

/-- What an item adds to a response: the records of the entries the log writes, at most as many as
the item asks for. -/
structure Answers (k : Nat) (record : Nat → Text) (sResult : Text) (nRet : Nat)
    (log : List Event) : Prop where
  bytes : sResult = ((log.filterMap Event.written).map record).flatten
  count : nRet = (log.filterMap Event.written).length
  le : nRet ≤ k

/-- One more entry is written. -/
theorem Answers.cons {k nRet m : Nat} (record : Nat → Text) {sResult : Text}
    {log log' : List Event} (h : log'.filterMap Event.written = [m])
    (ha : Answers k record sResult nRet log) :
    Answers (k + 1) record (record m ++ sResult) (nRet + 1) (log' ++ log) where
  bytes := by
    rw [List.filterMap_append, h, List.map_append, List.flatten_append, ← ha.bytes,
      List.map_singleton, List.flatten_singleton]
  count := by
    rw [List.filterMap_append, h, List.length_append, ← ha.count, List.length_singleton,
      Nat.add_comm]
  le := Nat.succ_le_succ ha.le

theorem MailList.answer_sOffsetList (conf : Configure) (sID : Text) (t : Int) :
    ∀ (k : Nat) (p : MailList), (p.answer conf sID t k).list.sOffsetList = p.sOffsetList ∧
      (p.answer conf sID t k).list.sMailboxList = p.sMailboxList ∧
      (p.answer conf sID t k).list.sHeap = p.sHeap
  | 0, _ => ⟨rfl, rfl, rfl⟩
  | k + 1, p => by
      rw [answer]
      split
      · exact ⟨rfl, rfl, rfl⟩
      · split
        · exact ⟨rfl, rfl, rfl⟩
        · exact answer_sOffsetList conf sID t k _

/-- An item at time `t` keeps the law of the list, and its answer is what its log says. -/
theorem MailList.Traced.answer {conf : Configure} {t : Int} (sID : Text)
    (hz : 0 < conf.nRoundPeriod → int32 t ≠ 0) : ∀ (k : Nat) {p : MailList} {log : List Event},
    p.Traced conf t log →
      (p.answer conf sID t k).list.Traced conf t (log ++ (p.answer conf sID t k).log) ∧
      Answers k (p.responseAt sID) (p.answer conf sID t k).sResult (p.answer conf sID t k).nRet
        (p.answer conf sID t k).log
  | 0, p, log, h => by
      rw [MailList.answer, List.append_nil]
      exact ⟨h, rfl, rfl, Nat.le_refl 0⟩
  | k + 1, p, log, h => by
      rw [MailList.answer]
      split
      next =>
        rw [List.append_nil]
        exact ⟨h, rfl, rfl, Nat.zero_le _⟩
      next ho =>
        obtain ⟨hp, hres⟩ := scan_spec p.nRound t p.nNowPos (p.sOffsetList.drop p.nNowPos)
        split
        next log' hs =>
          rw [hs] at hp hres
          obtain ⟨h₁, h₂⟩ := hres
          rw [List.length_drop] at h₁
          have hle := h.nowPos
          have hend := (h.scanned ho hp (by omega) h₁).ended
            (by simp only [Nat.add_sub_of_le hle]) hz
          rw [List.append_assoc] at hend
          have hw : (log' ++ [Event.ended p.nRound t]).filterMap Event.written = [] := by
            rw [List.filterMap_append, show log'.filterMap Event.written = [] from h₂]
            rfl
          exact ⟨hend, by rw [hw]; rfl, by rw [hw]; rfl, Nat.zero_le _⟩
        next log' nPos e hs =>
          rw [hs] at hp hres
          obtain ⟨j, rfl, hj, h₁, h₂⟩ := hres
          have hlt := (List.getElem?_eq_some_iff.mp hj).1
          rw [List.length_drop] at hlt
          rw [List.getElem?_drop] at hj
          have hsc := (h.scanned ho hp (k := j + 1) (by omega) h₁).congr
            (q := { p with nTime := 0, nSend := p.sent e, nNowPos := p.nNowPos + j + 1 })
            rfl rfl rfl rfl
          obtain ⟨ht, ha⟩ := Traced.answer sID hz k hsc
          have hrec : p.responseAt sID (p.nNowPos + j) = p.response sID e := by
            rw [MailList.responseAt, List.getD_eq_getElem?_getD, hj, Option.getD_some]
          have ha := Answers.cons (p.responseAt sID) h₂ ha
          rw [hrec] at ha
          exact ⟨by rwa [List.append_assoc] at ht, ha⟩

/-! ### The daemon -/

/-- The daemon, and what its items have handed out so far. -/
structure Daemon where
  dabudai : Dabudai
  handed : List Handed

/-- What reaches the daemon: a request, at time `t`, or a report. -/
inductive Call where
  | request (t nRequestNum : Int) (sRequest : Text)
  | report (c : Report)

/-- The time of a request. -/
def Call.time : Call → Option Int
  | .request t _ _ => some t
  | .report _ => none

def Daemon.step (conf : Configure) (s : Daemon) : Call → Daemon
  | .request t nRequestNum sRequest =>
      let r := answerMailboxRequestWithLevel conf t nRequestNum sRequest s.dabudai
      ⟨r.1, s.handed ++ r.2⟩
  | .report c =>
      ⟨{ s.dabudai with pBegin := (changeMailboxStatWithLevel c s.dabudai.pBegin).2 }, s.handed⟩

/-- The log of list `i` of task `k`. -/
def logOf (k i : Nat) (handed : List Handed) : List Event :=
  (handed.filter fun h => h.task == k && h.nWhich == i).flatMap Handed.log

/-- What the items handed out of list `i` of task `k` is what their logs say. -/
def HandedLaw (k i : Nat) (record : Nat → Text) (handed : List Handed) : Prop :=
  ∀ h ∈ handed, h.task = k → h.nWhich = i →
    Answers h.nNum.toNat record h.sResult h.nRet h.log

/-- The law of list `i` of task `k` of the queue, whose state is `p`. -/
structure ListLaw (conf : Configure) (now : Int) (sID : Text) (k i : Nat) (handed : List Handed)
    (p : MailList) : Prop where
  traced : p.Traced conf now (logOf k i handed)
  handed : HandedLaw k i (p.responseAt sID) handed

/-- The law of all lists of task `k`, whose state is `q`. -/
def TaskLaw (conf : Configure) (now : Int) (k : Nat) (handed : List Handed) (q : TaskQueue) :
    Prop :=
  ∀ i, ListLaw conf now q.sID k (i : Fin (q.pAlias.nDomainNum + 1)) handed (q.pMailList i)

theorem logOf_append (k i : Nat) (l l' : List Handed) :
    logOf k i (l ++ l') = logOf k i l ++ logOf k i l' := by
  rw [logOf, List.filter_append, List.flatMap_append, logOf, logOf]

theorem logOf_singleton_self (h : Handed) : logOf h.task h.nWhich [h] = h.log := by
  simp [logOf]

theorem logOf_singleton_ne {k i : Nat} {h : Handed} (hne : ¬(h.task = k ∧ h.nWhich = i)) :
    logOf k i [h] = [] := by
  have hf : [h].filter (fun h => h.task == k && h.nWhich == i) = [] :=
    List.filter_cons_of_neg (by simpa using hne)
  rw [logOf, hf, List.flatMap_nil]

/-- A list the item does not reach. -/
theorem ListLaw.other {conf : Configure} {now : Int} {sID : Text} {k i : Nat} {hs : List Handed}
    {p : MailList} (hp : ListLaw conf now sID k i hs p) {h : Handed}
    (hne : ¬(h.task = k ∧ h.nWhich = i)) : ListLaw conf now sID k i (hs ++ [h]) p where
  traced := by
    rw [logOf_append, logOf_singleton_ne hne, List.append_nil]
    exact hp.traced
  handed h' hm hk hi := by
    rcases List.mem_append.mp hm with hm | hm
    · exact hp.handed h' hm hk hi
    · obtain rfl := List.mem_singleton.mp hm
      exact absurd ⟨hk, hi⟩ hne

/-- Which records a list holds does not change. -/
theorem MailList.responseAt_congr {p q : MailList} (h₁ : q.sMailboxList = p.sMailboxList)
    (h₂ : q.sHeap = p.sHeap)
    (h₃ : ∀ nPos, (q.sOffsetList.getD nPos default).nPos = (p.sOffsetList.getD nPos default).nPos)
    (sID : Text) : q.responseAt sID = p.responseAt sID := by
  funext nPos
  simp only [responseAt, response, MailList.at, h₁, h₂, h₃]

/-- The list an item reaches. -/
theorem ListLaw.answer {conf : Configure} {t : Int} {q : TaskQueue} {k : Nat} {hs : List Handed}
    (hz : 0 < conf.nRoundPeriod → int32 t ≠ 0) {i : Nat} {p : MailList}
    (hp : ListLaw conf t q.sID k i hs p) (nNum : Int) :
    ListLaw conf t q.sID k i
      (hs ++ [⟨k, i, nNum, (p.answer conf q.sID t nNum.toNat).sResult,
        (p.answer conf q.sID t nNum.toNat).nRet, (p.answer conf q.sID t nNum.toNat).log⟩])
      (p.answer conf q.sID t nNum.toNat).list := by
  obtain ⟨h₁, h₂⟩ := hp.traced.answer q.sID hz nNum.toNat
  obtain ⟨hs₁, hs₂, hs₃⟩ := p.answer_sOffsetList conf q.sID t nNum.toNat
  have hrec := MailList.responseAt_congr hs₂ hs₃ (fun nPos => by rw [hs₁]) q.sID
  constructor
  · rw [logOf_append]
    have := logOf_singleton_self ⟨k, i, nNum, (p.answer conf q.sID t nNum.toNat).sResult,
      (p.answer conf q.sID t nNum.toNat).nRet, (p.answer conf q.sID t nNum.toNat).log⟩
    rwa [this]
  · rw [hrec]
    intro h' hm hk hi
    rcases List.mem_append.mp hm with hm | hm
    · exact hp.handed h' hm hk hi
    · obtain rfl := List.mem_singleton.mp hm
      exact h₂

/-- The items of a request at task `k` keep the law of its lists, and do not touch those of other
tasks. -/
theorem TaskLaw.answerItems {conf : Configure} {t : Int} {k : Nat}
    (hz : 0 < conf.nRoundPeriod → int32 t ≠ 0) : ∀ (items : List (Text × Int)) {q : TaskQueue}
    {hs : List Handed}, TaskLaw conf t k hs q →
      TaskLaw conf t k (hs ++ (q.answerItems conf t k items).2) (q.answerItems conf t k items).1
  | [], q, hs, h => by
      rw [TaskQueue.answerItems, List.append_nil]
      exact h
  | (domain, nNum) :: items, q, hs, h => by
      rw [TaskQueue.answerItems]
      dsimp only
      rw [List.append_cons]
      refine TaskLaw.answerItems hz items
        ((Function.forall_update_iff q.pMailList fun j p => ListLaw conf t q.sID k j _ p).mpr
          ⟨(h (q.pAlias.which domain)).answer hz nNum, fun j hj => (h j).other ?_⟩)
      rintro ⟨-, hij⟩
      exact hj (Fin.ext hij.symm)

/-- A task the items do not reach. -/
theorem TaskLaw.other {conf : Configure} {t : Int} {k k' : Nat} {hs hs' : List Handed}
    {q : TaskQueue} (h : TaskLaw conf t k hs q) (hne : k' ≠ k) (hk : ∀ x ∈ hs', x.task = k') :
    TaskLaw conf t k (hs ++ hs') q := by
  induction hs' generalizing hs with
  | nil =>
      rw [List.append_nil]
      exact h
  | cons x hs' ih =>
      obtain ⟨hx, hxs⟩ := List.forall_mem_cons.mp hk
      rw [List.append_cons]
      exact ih (fun j => (h j).other fun hc => hne (hx.symm.trans hc.1)) hxs

theorem answerItems_task (conf : Configure) (t : Int) (k : Nat) : ∀ (items : List (Text × Int))
    (q : TaskQueue), ∀ x ∈ (q.answerItems conf t k items).2, x.task = k
  | [], _, _, h => nomatch h
  | (_, _) :: items, q, x, h => by
      rw [TaskQueue.answerItems] at h
      rcases List.mem_cons.mp h with rfl | h
      · rfl
      · exact answerItems_task conf t k items _ x h

/-! ### Requests -/

theorem pBegin_yx (d : Dabudai) (conf : Configure) (k : Nat) :
    (d.yx conf k).2.pBegin = d.pBegin := by
  rw [Dabudai.yx]
  split <;> rfl

theorem pBegin_advance (d : Dabudai) (ret : Int) : (d.advance ret).pBegin = d.pBegin := by
  rw [Dabudai.advance]
  split <;> rfl

theorem pBegin_wrapOffset (d : Dabudai) : d.wrapOffset.pBegin = d.pBegin := by
  rw [Dabudai.wrapOffset]
  split <;> rfl

theorem pBegin_moveOffset (d : Dabudai) (conf : Configure) (k : Nat) :
    (d.moveOffset conf k).pBegin = d.pBegin := by
  rw [Dabudai.moveOffset]
  split
  · rw [pBegin_advance, pBegin_yx]
  · exact pBegin_yx d conf k

theorem pBegin_skipInactive (d : Dabudai) (conf : Configure) (k : Nat) :
    (d.skipInactive conf k).2.pBegin = d.pBegin := by
  rw [Dabudai.skipInactive]
  split
  · rfl
  · split
    · exact (pBegin_advance _ _).trans (pBegin_yx d conf _)
    · rfl

/-- The choice of a task leaves the queue alone. -/
theorem pBegin_chooseTask (d : Dabudai) (conf : Configure) :
    (d.chooseTask conf).2.pBegin = d.pBegin := by
  simp only [Dabudai.chooseTask, pBegin_skipInactive, pBegin_moveOffset, pBegin_wrapOffset]

/-- The law of every list of every task of the daemon. -/
def DaemonLaw (conf : Configure) (now : Int) (s : Daemon) : Prop :=
  ∀ k q, s.dabudai.pBegin[k]? = some q → TaskLaw conf now k s.handed q

theorem DaemonLaw.later {conf : Configure} {now now' : Int} {s : Daemon}
    (h : DaemonLaw conf now s) (hle : now ≤ now') : DaemonLaw conf now' s :=
  fun k q hq i => ⟨(h k q hq i).traced.later hle, (h k q hq i).handed⟩

theorem DaemonLaw.request {conf : Configure} {t : Int} {s : Daemon} (h : DaemonLaw conf t s)
    (hz : 0 < conf.nRoundPeriod → int32 t ≠ 0) (nRequestNum : Int) (sRequest : Text) :
    DaemonLaw conf t (s.step conf (.request t nRequestNum sRequest)) := by
  have hp := pBegin_chooseTask s.dabudai conf
  intro k q hq
  simp only [Daemon.step, answerMailboxRequestWithLevel] at hq ⊢
  generalize s.dabudai.chooseTask conf = x at hp hq ⊢
  obtain ⟨k', d⟩ := x
  have hd : ∀ k q, d.pBegin[k]? = some q → TaskLaw conf t k s.handed q := fun k q hq =>
    h k q (by rw [← hp]; exact hq)
  dsimp only at hq ⊢
  split at hq
  next hnone =>
    dsimp only
    rw [List.append_nil]
    exact hd k q hq
  next q' hq' =>
    split at hq
    next hact =>
      rw [if_pos hact]
      by_cases hk : k' = k
      · subst hk
        rw [List.getElem?_set_self (List.getElem?_eq_some_iff.mp hq').1] at hq
        cases hq
        exact (hd k' q' hq').answerItems hz _
      · rw [List.getElem?_set_ne hk] at hq
        exact (hd k q hq).other hk (answerItems_task conf t k' _ q')
    next hact =>
      rw [if_neg hact, List.append_nil]
      exact hd k q hq

/-! ### Reports -/

/-- What a report leaves alone of the list it changes. -/
theorem MailList.recount_round (p : MailList) (nStat : MailStat) (old : Option MailStat) :
    (p.recount nStat old).nRound = p.nRound ∧ (p.recount nStat old).nNowPos = p.nNowPos ∧
      (p.recount nStat old).nTime = p.nTime ∧
      (p.recount nStat old).sMailboxList = p.sMailboxList ∧
      (p.recount nStat old).sHeap = p.sHeap := by
  cases nStat <;> rcases old with - | (- | - | - | - | - | -) <;> exact ⟨rfl, rfl, rfl, rfl, rfl⟩

theorem MailList.offset_setStat (p : MailList) (nStat : MailStat) (nM nPos : Nat) :
    ((p.setStat nStat nM).sOffsetList.getD nPos default).nPos
      = (p.sOffsetList.getD nPos default).nPos := by
  simp only [setStat, List.getD_eq_getElem?_getD, List.getElem?_modify]
  cases p.sOffsetList[nPos]? with
  | none => rfl
  | some e => by_cases hn : nM = nPos <;> simp [hn]

theorem ListLaw.setStat {conf : Configure} {t : Int} {sID : Text} {k i : Nat} {hs : List Handed}
    {p : MailList} (h : ListLaw conf t sID k i hs p) (nStat : MailStat) (nM : Nat) :
    ListLaw conf t sID k i hs (p.setStat nStat nM) := by
  obtain ⟨hr, hn, ht, hm, hh⟩ := p.recount_round nStat (p.sOffsetList.getD nM default).stat
  refine ⟨h.traced.congr (p.length_setStat nStat nM) hr hn ht, ?_⟩
  rw [MailList.responseAt_congr (p := p) (q := p.setStat nStat nM) hm hh
    (p.offset_setStat nStat nM)]
  exact h.handed

theorem TaskLaw.changeStat {conf : Configure} {t : Int} {k : Nat} {hs : List Handed}
    {q : TaskQueue} (h : TaskLaw conf t k hs q) (c : Report) :
    TaskLaw conf t k hs (q.changeStat c).2 := by
  rw [TaskQueue.changeStat]
  split
  · exact h
  · exact forall_update h ((h _).setStat _ _)

/-- A report changes at most one task of the queue. -/
theorem change_getElem? {c : Report} : ∀ {queue : List TaskQueue} {k : Nat} {q' : TaskQueue},
    (changeMailboxStatWithLevel c queue).2[k]? = some q' →
      ∃ q, queue[k]? = some q ∧ (q' = q ∨ q' = (q.changeStat c).2)
  | [], _, _, h => nomatch h
  | q :: queue, k, q', h => by
      rw [changeMailboxStatWithLevel] at h
      split at h
      · cases k with
        | zero =>
            cases h
            exact ⟨q, rfl, Or.inr rfl⟩
        | succ k => exact ⟨q', h, Or.inl rfl⟩
      · cases k with
        | zero =>
            cases h
            exact ⟨q, rfl, Or.inl rfl⟩
        | succ k =>
            have ih := @change_getElem? c queue k q'
            exact ih h

theorem DaemonLaw.report {conf : Configure} {t : Int} {s : Daemon} (h : DaemonLaw conf t s)
    (c : Report) : DaemonLaw conf t (s.step conf (.report c)) := by
  intro k q' hq'
  obtain ⟨q, hq, rfl | rfl⟩ := change_getElem? hq'
  · exact h k _ hq
  · exact (h k q hq).changeStat c

/-! ### Runs -/

/-- A list no request has reached yet. -/
theorem MailList.Traced.start (conf : Configure) (now : Int) {p : MailList} (h₁ : p.nRound = 0)
    (h₂ : p.nNowPos = 0) : p.Traced conf now [] where
  nonneg := Int.le_of_eq h₁.symm
  nowPos := h₂ ▸ Nat.zero_le _
  past r h₀ hr := absurd (h₁ ▸ hr) (Int.not_lt.mpr h₀)
  present := by rw [h₂]; rfl
  future _ _ := rfl
  complete _ _ _ _ h := absurd h (by simp)
  ended_lt _ _ h := nomatch h
  bounded _ _ _ _ h := nomatch h
  pause _ _ _ _ _ h _ := nomatch h
  timer _ h := nomatch h

theorem MailList.atStart_kept : KeptByLines fun p => p.nRound = 0 ∧ p.nNowPos = 0 where
  addRecord _ _ _ _ h := h
  reject _ h := h

theorem DaemonLaw.start (conf : Configure) (now : Int) {d : Dabudai}
    (hd : ∀ q ∈ d.pBegin, q.IsLoaded) : DaemonLaw conf now ⟨d, []⟩ := by
  intro k q hq i
  obtain ⟨_, _, _, _, _, _, hload⟩ := hd q (List.mem_of_getElem? hq)
  obtain ⟨p, ⟨h₁, h₂⟩, hp⟩ :=
    readTaskFileWithLevel_boxes MailList.atStart_kept.boxes (fun _ _ => ⟨rfl, rfl⟩) hload i
  have hp : q.pMailList i = { p with nFail := p.nNotFound } := hp
  refine ⟨MailList.Traced.start conf now ?_ ?_, fun _ h => nomatch h⟩
  · rw [hp]; exact h₁
  · rw [hp]; exact h₂

theorem DaemonLaw.run {conf : Configure} : ∀ (calls : List Call) {now : Int} {s : Daemon},
    DaemonLaw conf now s → (∀ t ∈ calls.filterMap Call.time, now ≤ t) →
    (calls.filterMap Call.time).Pairwise (· ≤ ·) →
    (∀ t ∈ calls.filterMap Call.time, 0 < conf.nRoundPeriod → int32 t ≠ 0) →
    ∃ now', DaemonLaw conf now' (calls.foldl (Daemon.step conf) s)
  | [], now, _, h, _, _, _ => ⟨now, h⟩
  | .report c :: calls, _, _, h, hle, hs, hz => run calls (h.report c) hle hs hz
  | .request t nRequestNum sRequest :: calls, _, _, h, hle, hs, hz => by
      have htimes : (Call.request t nRequestNum sRequest :: calls).filterMap Call.time
          = t :: calls.filterMap Call.time := rfl
      rw [htimes] at hle hs hz
      obtain ⟨hle₀, -⟩ := List.forall_mem_cons.mp hle
      obtain ⟨hst, hs⟩ := List.pairwise_cons.mp hs
      obtain ⟨hz₀, hz⟩ := List.forall_mem_cons.mp hz
      exact run calls ((h.later hle₀).request hz₀ nRequestNum sRequest) hst hs hz

/-- In every run of the daemon, from any queue of loaded tasks, with requests at times that do not
decrease and at none of which the clock, as an `int`, shows zero (unless there is no pause): every
list keeps the law of the rounds, and every item gets the entries its log writes, at most as many
as it asks for. -/
theorem rounds_law (conf : Configure) {d : Dabudai} (hd : ∀ q ∈ d.pBegin, q.IsLoaded)
    (calls : List Call) (hsorted : (calls.filterMap Call.time).Pairwise (· ≤ ·))
    (hz : ∀ t ∈ calls.filterMap Call.time, 0 < conf.nRoundPeriod → int32 t ≠ 0) :
    ∀ k q, (calls.foldl (Daemon.step conf) ⟨d, []⟩).dabudai.pBegin[k]? = some q →
      ∀ i : Fin (q.pAlias.nDomainNum + 1),
        RoundLaw conf (q.pMailList i).sOffsetList.length
            (logOf k i (calls.foldl (Daemon.step conf) ⟨d, []⟩).handed) ∧
          HandedLaw k i ((q.pMailList i).responseAt q.sID)
            (calls.foldl (Daemon.step conf) ⟨d, []⟩).handed := by
  obtain ⟨now, hnow⟩ : ∃ now, ∀ t ∈ calls.filterMap Call.time, now ≤ t := by
    cases htimes : calls.filterMap Call.time with
    | nil => exact ⟨0, fun _ h => nomatch h⟩
    | cons t ts =>
        rw [htimes] at hsorted
        exact ⟨t, List.forall_mem_cons.mpr ⟨Int.le_refl t, (List.pairwise_cons.mp hsorted).1⟩⟩
  obtain ⟨now', h⟩ := DaemonLaw.run calls (DaemonLaw.start conf now hd) hnow hsorted hz
  intro k q hq i
  exact ⟨(h k q hq i).traced.law, (h k q hq i).handed⟩

/-- Two rounds, a minute apart. -/
def sampleConf : Configure := ⟨2, 60, 0⟩

def sampleDabudai : Dabudai := ⟨[sampleTask], 1, 0, []⟩

/-- A request for two mailboxes. -/
def sampleRequest (t : Int) : Call := .request t 1 "domain=b.c&cnt=2".toList

def sampleDaemon : Daemon :=
  [sampleRequest 100, sampleRequest 101].foldl (Daemon.step sampleConf) ⟨sampleDabudai, []⟩

theorem rounds_law_sample : ∃ q, sampleDaemon.dabudai.pBegin[0]? = some q ∧
    RoundLaw sampleConf (q.pMailList 0).sOffsetList.length
        (logOf 0 (0 : Fin (q.pAlias.nDomainNum + 1)) sampleDaemon.handed) ∧
      HandedLaw 0 (0 : Fin (q.pAlias.nDomainNum + 1)) ((q.pMailList 0).responseAt q.sID)
        sampleDaemon.handed := by
  have hsome : sampleDaemon.dabudai.pBegin[0]?.isSome = true := by decide +kernel
  obtain ⟨q, hq⟩ := Option.isSome_iff_exists.mp hsome
  refine ⟨q, hq, rounds_law sampleConf (List.forall_mem_singleton.mpr isLoaded_sampleTask)
    [sampleRequest 100, sampleRequest 101] (by decide) (by decide) 0 q hq 0⟩

/-- A round that ends at second `2^32` is followed by no pause: the subscriber gets the mail of the
next round one second later. -/
theorem no_pause_at_zero : sampleTask.IsLoaded ∧ (2 ^ 32 : Int) ≤ 2 ^ 32 + 1 ∧
    ¬ RoundLaw sampleConf 1 (logOf 0 0 ([sampleRequest (2 ^ 32),
      sampleRequest (2 ^ 32 + 1)].foldl (Daemon.step sampleConf) ⟨sampleDabudai, []⟩).handed) := by
  refine ⟨isLoaded_sampleTask, by decide, fun h => ?_⟩
  have hlog : logOf 0 0 ([sampleRequest (2 ^ 32),
      sampleRequest (2 ^ 32 + 1)].foldl (Daemon.step sampleConf) ⟨sampleDabudai, []⟩).handed
      = [.pass 0 0 none (2 ^ 32), .ended 0 (2 ^ 32), .pass 1 0 none (2 ^ 32 + 1),
        .ended 1 (2 ^ 32 + 1)] := by
    decide +kernel
  rw [hlog] at h
  have hp := h.pause 0 (2 ^ 32) 0 none (2 ^ 32 + 1) (by simp) (by simp)
  exact absurd hp (by decide)

end Edm.Maillist
