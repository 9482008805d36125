import Edm.Deliver.Node
import Edm.Support.Decimal
import Edm.Support.Run
import Edm.Support.Split
import Mathlib.Data.List.Flatten
import Mathlib.Data.List.Nodup
import Mathlib.Data.List.Perm.Subperm
import Mathlib.Algebra.GroupWithZero.Nat

/-!
# Deliver — StopNotice

The stop notices of the list daemon.  A task that is stopped goes into a table (`g_stop_tasks`), and
the next session of any delivery engine takes it from there (`make_stop_delivery_notify`) and sends
it.  `RequestMail::ParseRsp` reads the notice.

An entry that was taken once is not taken again, so one engine gets it, whatever the others do.
`reached_run` says when every engine gets it: when there is one, in effect, and the table and the
notice have room.  The table has room for 999 stops in five minutes: the entry behind the last one
counted is written, but never read.
-/

namespace Edm.Deliver
open Support

/-! ### The notice -/

/-- The number of a stopped task. -/
structure StopId where
  time : Int
  mId : Int
  pId : Int
  fit : IsInt time ∧ IsInt mId ∧ IsInt pId

/-- `"%d.%d.%d"`. -/
def StopId.text (n : StopId) : Text :=
  showInt n.time ++ '.' :: (showInt n.mId ++ '.' :: showInt n.pId)

def StopId.taskId (n : StopId) : TaskId :=
  ⟨toUnsigned n.time, toUnsigned n.mId, toUnsigned n.pId⟩

/-- What `make_stop_delivery_notify` writes. -/
def notifyMsg (sids : List Text) : Text := be32 sids.length ++ sids.flatMap (· ++ [nul])

/-- The message with the notice, behind its length. -/
def noticeBody (sids : List Text) : Text :=
  be32 4 ++ be32 (notifyMsg sids).length ++ notifyMsg sids

/-- A task number of the notice; `none` when a dot is missing. -/
def readStop (taskitem : Text) : Option TaskId :=
  let rest := (cut '.' taskitem).2
  if '.' ∈ taskitem ∧ '.' ∈ rest then
    some ⟨toUnsigned (atoi (cut '.' taskitem).1), toUnsigned (atoi (cut '.' rest).1),
      toUnsigned (atoi (cut '.' rest).2)⟩
  else none

/-- `while (task_num-- > 0)`. -/
def readStops : Nat → Text → Option (List TaskId)
  | 0, _ => some []
  | n + 1, notify_msg =>
      (readStop (cstr notify_msg)).bind fun t =>
        (readStops n (notify_msg.drop ((cstr notify_msg).length + 1))).map (t :: ·)

/-- `ParseRsp` at a message of code 4; `none` at another message. -/
def parseNotice (rsp_msg : Text) : Option (List TaskId) :=
  if ofBe32 rsp_msg = 4 then
    if 4 < toUnsigned (ofBe32 (rsp_msg.drop 4)) then
      readStops (ofBe32 (rsp_msg.drop 8)).toNat (rsp_msg.drop 12)
    else some []
  else none

theorem StopId.not_mem_text {c : Char} (hd : c.isDigit = false) (hm : c ≠ '-') (hp : c ≠ '.')
    (n : StopId) : c ∉ n.text := by
  have hint := not_mem_showInt hd hm
  simp [text, hint, hp]

theorem readStop_text (n : StopId) : readStop n.text = some n.taskId := by
  have hdot : ∀ z, '.' ∉ showInt z := not_mem_showInt (by decide) (by decide)
  have hfirst : cut '.' n.text = (showInt n.time, showInt n.mId ++ '.' :: showInt n.pId) :=
    cut_append (hdot _) _
  have hsecond : cut '.' (showInt n.mId ++ '.' :: showInt n.pId) = (showInt n.mId, showInt n.pId) :=
    cut_append (hdot _) _
  have hmem : '.' ∈ n.text ∧ '.' ∈ showInt n.mId ++ '.' :: showInt n.pId := by
    rw [StopId.text]
    simp
  obtain ⟨h₁, h₂, h₃⟩ := n.fit
  simp only [readStop, hfirst, hsecond, if_pos hmem, atoi_showInt h₁, atoi_showInt h₂,
    atoi_showInt h₃]
  rfl

theorem readStops_text : ∀ (ids : List StopId),
    readStops ids.length ((ids.map StopId.text).flatMap (· ++ [nul])) = some (ids.map StopId.taskId)
  | [] => rfl
  | n :: ids => by
      have hnul : nul ∉ n.text := n.not_mem_text (by decide) (by decide) (by decide)
      have hcstr : cstr (((n :: ids).map StopId.text).flatMap (· ++ [nul])) = n.text := by
        rw [List.map_cons, List.flatMap_cons, List.append_assoc]
        exact cstr_append hnul _
      have hdrop : (((n :: ids).map StopId.text).flatMap (· ++ [nul])).drop (n.text.length + 1)
          = (ids.map StopId.text).flatMap (· ++ [nul]) := by
        have hlen : n.text.length + 1 = (n.text ++ [nul]).length := by simp
        rw [List.map_cons, List.flatMap_cons, hlen, List.drop_left]
      rw [List.length_cons, readStops, hcstr, readStop_text, Option.bind_some, hdrop,
        readStops_text ids]
      rfl

theorem length_notifyMsg (sids : List Text) :
    (notifyMsg sids).length = 4 + (sids.map fun t => t.length + 1).sum := by
  rw [notifyMsg, List.length_append, length_be32, List.length_flatMap]
  simp only [List.length_append, List.length_singleton]

theorem length_le_sum (sids : List Text) : sids.length ≤ (sids.map fun t => t.length + 1).sum := by
  induction sids with
  | nil => exact Nat.le_refl 0
  | cons t sids ih =>
      rw [List.length_cons, List.map_cons, List.sum_cons]
      omega

/-- The engine reads the task numbers that the daemon has written. -/
theorem parseNotice_body {ids : List StopId}
    (h : (notifyMsg (ids.map StopId.text)).length ≤ 3988) :
    parseNotice (noticeBody (ids.map StopId.text)) = some (ids.map StopId.taskId) := by
  have hlen : ids.length ≤ (notifyMsg (ids.map StopId.text)).length := by
    have := length_le_sum (ids.map StopId.text)
    rw [List.length_map] at this
    rw [length_notifyMsg]
    omega
  have hcode : ofBe32 (noticeBody (ids.map StopId.text)) = 4 := by
    rw [noticeBody, List.append_assoc, ofBe32_append]
    rfl
  have hsize : ofBe32 ((noticeBody (ids.map StopId.text)).drop 4)
      = (notifyMsg (ids.map StopId.text)).length := by
    rw [noticeBody, List.append_assoc]
    exact (ofBe32_append _ _).trans (int32_of_range (by omega) (by omega))
  have hnumber : ofBe32 ((noticeBody (ids.map StopId.text)).drop 8) = ids.length := by
    have hdrop : (noticeBody (ids.map StopId.text)).drop 8 = notifyMsg (ids.map StopId.text) := rfl
    rw [hdrop, notifyMsg, ofBe32_append, List.length_map]
    exact int32_of_range (by omega) (by omega)
  have hids : (noticeBody (ids.map StopId.text)).drop 12
      = (ids.map StopId.text).flatMap (· ++ [nul]) := rfl
  have hunsigned : toUnsigned (notifyMsg (ids.map StopId.text)).length
      = (notifyMsg (ids.map StopId.text)).length := by
    rw [toUnsigned]
    omega
  rw [parseNotice, if_pos hcode, hsize, hnumber, hids, hunsigned, Int.toNat_natCast,
    readStops_text]
  split
  next => rfl
  next hfour =>
    rw [length_notifyMsg] at hfour
    cases ids with
    | nil => rfl
    | cons n ids =>
        simp only [List.map_cons, List.sum_cons] at hfour
        omega

/-! ### The table -/

/-- An entry of `g_stop_tasks`.  The last two fields only remember: the stop it was written for, and
the connection whose session has taken it. -/
structure Slot where
  stop_time : Int
  sid : Text
  state : Int
  stop : Nat
  takenBy : Option Nat

/-- A stop that was answered `200 stop task`. -/
structure Stop where
  id : StopId
  time : Int

/-- A session of a delivery engine, and how many stops had been answered when it started. -/
structure Session where
  conn : Nat
  time : Int
  answered : Nat

/-- A notice that was sent, and the stops it was made for. -/
structure Notice where
  conn : Nat
  stops : List Nat
  body : Text

/-- `g_stop_tasks` and `g_stoptask_size`.  A stop is answered before it is written, so some may be
`waiting`.  The other fields only remember. -/
structure StopTable where
  now : Int
  size : Nat
  slots : Nat → Slot
  waiting : List Nat
  answered : List Stop
  written : List (Nat × Int)
  sessions : List Session
  notices : List Notice

/-- The entry is to be sent. -/
def Slot.pending (now : Int) (t : Slot) : Bool := t.state == 9 && decide (now - 300 < t.stop_time)

/-- The loop of `make_stop_delivery_notify` over the last `n` entries: those it takes, when `used`
bytes of the notice are. -/
def notifyLoop (now : Int) (slots : Nat → Slot) : Nat → Nat → Nat → List Nat
  | 0, _, _ => []
  | n + 1, nindex, used =>
      if (slots nindex).pending now then
        if 3988 ≤ used + (slots nindex).sid.length then []
        else nindex :: notifyLoop now slots n (nindex + 1) (used + (slots nindex).sid.length + 1)
      else notifyLoop now slots n (nindex + 1) used

namespace StopTable
variable (s : StopTable)

/-- The entry that is overwritten when no other is over: the first of the oldest. -/
def oldest : Nat :=
  (List.range 1000).foldl (fun noldest nindex =>
    if noldest ≠ nindex ∧ (s.slots nindex).stop_time < (s.slots noldest).stop_time then nindex
    else noldest) 0

/-- The entry for the next stop. -/
def findSlot : Nat :=
  if s.size < 999 then s.size
  else ((List.range 1000).find? fun i => decide (300 < s.now - (s.slots i).stop_time)).getD s.oldest

/-- A stop is written into the table. -/
def write (k : Nat) (a : Stop) : StopTable :=
  { s with
    size := if s.size < 999 then s.size + 1 else s.size
    slots := Function.update s.slots s.findSlot ⟨s.now, a.id.text, 9, k, none⟩
    waiting := s.waiting.erase k
    written := s.written ++ [(k, s.now)] }

/-- The entries that a session takes. -/
def taken : List Nat := notifyLoop s.now s.slots s.size 0 4

/-- The notice for them. -/
def notice (conn : Nat) : Notice where
  conn := conn
  stops := s.taken.map fun i => (s.slots i).stop
  body := noticeBody (s.taken.map fun i => (s.slots i).sid)

/-- A session starts; `sent` says whether its notice can be sent. -/
def startSession (conn : Nat) (sent : Bool) : StopTable :=
  { s with
    slots := fun i =>
      if i ∈ s.taken then { s.slots i with state := -1, takenBy := some conn } else s.slots i
    sessions := s.sessions ++ [⟨conn, s.now, s.answered.length⟩]
    notices := s.notices ++ if sent && !s.taken.isEmpty then [s.notice conn] else [] }

inductive Act where
  | tick (seconds : Nat)
  /-- A stop is answered. -/
  | answer (id : StopId)
  /-- A stop that was answered is written into the table. -/
  | write (k : Nat)
  | session (conn : Nat) (sent : Bool)

def step : Act → Option StopTable
  | .tick seconds => some { s with now := s.now + seconds }
  | .answer id =>
      some { s with
        answered := s.answered ++ [⟨id, s.now⟩]
        waiting := s.waiting ++ [s.answered.length] }
  | .write k => if k ∈ s.waiting then (s.answered[k]?).map (s.write k) else none
  | .session conn sent => some (s.startSession conn sent)

/-- The daemon starts. -/
def init (now : Int) : StopTable where
  now := now
  size := 0
  slots _ := ⟨0, [], 0, 0, none⟩
  waiting := []
  answered := []
  written := []
  sessions := []
  notices := []

/-- The stops answered so far reach every delivery engine. -/
structure Reached : Prop where
  /-- A session within five minutes of the stop finds it in a notice of its connection. -/
  noticed : ∀ e ∈ s.sessions, ∀ k < e.answered, ∀ a, s.answered[k]? = some a →
    e.time ≤ a.time + 300 → ∃ n ∈ s.notices, n.conn = e.conn ∧ k ∈ n.stops
  once : ∀ conn k, ((s.notices.filter fun n => n.conn == conn).flatMap (·.stops)).count k ≤ 1
  /-- What the engine reads is what was stopped. -/
  decoded : ∀ n ∈ s.notices, ∃ stops : List Stop, n.stops.map (s.answered[·]?) = stops.map some ∧
    parseNotice n.body = some (stops.map (·.id.taskId))

/-- At most `MAX_STOPTASK_NUM` stops fall into any five minutes. -/
def Moderate : Prop :=
  ∀ t : Int, (s.answered.filter fun a => decide (t ≤ a.time ∧ a.time ≤ t + 300)).length ≤ 1000

/-- When the session of a connection gets all the notices it should. -/
structure SessionCareful (conn : Nat) (sent : Bool) : Prop where
  /-- No stop of the last five minutes has been answered and not been written. -/
  settled : ∀ k ∈ s.waiting, ∀ a, s.answered[k]? = some a → a.time + 300 < s.now
  /-- No stop of the last five minutes was taken by another connection. -/
  sole : ∀ i < s.size, ∀ a, s.answered[(s.slots i).stop]? = some a → s.now ≤ a.time + 300 →
    ∀ conn', (s.slots i).takenBy = some conn' → conn' = conn
  /-- No entry is to be sent this very second for the last time. -/
  edge : ∀ i < s.size, (s.slots i).state = 9 → s.now ≠ (s.slots i).stop_time + 300
  /-- The notice has room for all. -/
  fits : 4 + (((List.range' 0 s.size).filter fun i => (s.slots i).pending s.now).map
    fun i => (s.slots i).sid.length + 1).sum ≤ 3988
  sent : s.taken ≠ [] → sent = true

/-- A step by which no notice is lost: a stop is written with fewer than 999 others of the last five
minutes, and a session is careful. -/
def Careful : Act → Prop
  | .tick _ | .answer _ => True
  | .write _ => (s.written.filter fun e => decide (s.now - e.2 ≤ 300)).length < 999
  | .session conn sent => s.SessionCareful conn sent

/-! ### What a session takes -/

section
variable {now : Int} {slots : Nat → Slot}

theorem mem_notifyLoop {i : Nat} : ∀ {n nindex used : Nat},
    i ∈ notifyLoop now slots n nindex used →
      nindex ≤ i ∧ i < nindex + n ∧ (slots i).pending now = true
  | 0, _, _, h => by cases h
  | n + 1, nindex, used, h => by
      rw [notifyLoop] at h
      split at h
      next hp =>
        split at h
        · cases h
        · rcases List.mem_cons.mp h with rfl | h
          · exact ⟨Nat.le_refl i, by omega, hp⟩
          · obtain ⟨h₁, h₂, h₃⟩ := mem_notifyLoop h
            exact ⟨by omega, by omega, h₃⟩
      next =>
        obtain ⟨h₁, h₂, h₃⟩ := mem_notifyLoop h
        exact ⟨by omega, by omega, h₃⟩

theorem nodup_notifyLoop : ∀ (n nindex used : Nat), (notifyLoop now slots n nindex used).Nodup
  | 0, _, _ => List.nodup_nil
  | n + 1, nindex, used => by
      rw [notifyLoop]
      split
      · split
        · exact List.nodup_nil
        · refine List.nodup_cons.mpr ⟨fun h => ?_, nodup_notifyLoop n _ _⟩
          have := (mem_notifyLoop h).1
          omega
      · exact nodup_notifyLoop n _ _

/-- What is taken fits. -/
theorem sum_notifyLoop : ∀ {n nindex used : Nat}, used ≤ 3988 →
    used + ((notifyLoop now slots n nindex used).map fun i => (slots i).sid.length + 1).sum ≤ 3988
  | 0, _, _, h => by simpa [notifyLoop] using h
  | n + 1, nindex, used, h => by
      rw [notifyLoop]
      split
      · split
        · simpa using h
        · next hroom =>
          have hnext : used + (slots nindex).sid.length + 1 ≤ 3988 := by omega
          have ih := @sum_notifyLoop n (nindex + 1) _ hnext
          rw [List.map_cons, List.sum_cons]
          omega
      · exact sum_notifyLoop h

/-- All that is to be sent is taken, when it fits. -/
theorem mem_notifyLoop_of_fits {i : Nat} : ∀ {n nindex used : Nat},
    used + (((List.range' nindex n).filter fun i => (slots i).pending now).map
      fun i => (slots i).sid.length + 1).sum ≤ 3988 →
    nindex ≤ i → i < nindex + n → (slots i).pending now = true →
    i ∈ notifyLoop now slots n nindex used
  | 0, _, _, _, h₁, h₂, _ => by omega
  | n + 1, nindex, used, hfits, h₁, h₂, hp => by
      rw [List.range'_succ, List.filter_cons] at hfits
      rw [notifyLoop]
      rcases Nat.eq_or_lt_of_le h₁ with rfl | hlt
      · rw [if_pos hp, List.map_cons, List.sum_cons] at hfits
        rw [if_pos hp, if_neg (by omega)]
        exact List.mem_cons_self
      · split
        next hnow =>
          rw [if_pos hnow, List.map_cons, List.sum_cons] at hfits
          rw [if_neg (by omega)]
          exact List.mem_cons_of_mem _ (mem_notifyLoop_of_fits (by omega) hlt (by omega) hp)
        next hnow =>
          rw [if_neg hnow] at hfits
          exact mem_notifyLoop_of_fits hfits hlt (by omega) hp

end

/-! ### The law -/

variable {s}

/-- What holds after careful steps. -/
structure Law (s : StopTable) : Prop where
  size : s.size ≤ 999
  /-- A stop waits, or is written. -/
  split : ∀ k a, s.answered[k]? = some a → k ∈ s.waiting ∨ ∃ t, (k, t) ∈ s.written ∧ a.time ≤ t
  once : (s.waiting ++ s.written.map Prod.fst).Nodup
  known : ∀ k ∈ s.waiting ++ s.written.map Prod.fst, k < s.answered.length
  past : (∀ a ∈ s.answered, a.time ≤ s.now) ∧ ∀ e ∈ s.written, e.2 ≤ s.now
  slot : ∀ i < s.size, ((s.slots i).stop, (s.slots i).stop_time) ∈ s.written ∧
    ∃ a, s.answered[(s.slots i).stop]? = some a ∧ (s.slots i).sid = a.id.text
  inj : ∀ i < s.size, ∀ j < s.size, (s.slots i).stop = (s.slots j).stop → i = j
  /-- A stop of the last five minutes is still there. -/
  kept : ∀ k t, (k, t) ∈ s.written → s.now - t ≤ 300 →
    ∃ i < s.size, (s.slots i).stop = k ∧ (s.slots i).stop_time = t
  /-- It is to be sent, or was sent. -/
  state : ∀ i < s.size, ((s.slots i).state = 9 ∧ ∀ n ∈ s.notices, (s.slots i).stop ∉ n.stops) ∨
    ((s.slots i).state = -1 ∧ ∃ conn, (s.slots i).takenBy = some conn ∧
      ∃ n ∈ s.notices, n.conn = conn ∧ (s.slots i).stop ∈ n.stops)
  sent : ∀ n ∈ s.notices, ∀ k ∈ n.stops, k ∈ s.written.map Prod.fst
  nodup : (s.notices.flatMap (·.stops)).Nodup
  noticed : ∀ e ∈ s.sessions, ∀ k < e.answered, ∀ a, s.answered[k]? = some a →
    e.time ≤ a.time + 300 → ∃ n ∈ s.notices, n.conn = e.conn ∧ k ∈ n.stops
  asked : ∀ e ∈ s.sessions, e.answered ≤ s.answered.length
  decoded : ∀ n ∈ s.notices, ∃ stops : List Stop, n.stops.map (s.answered[·]?) = stops.map some ∧
    parseNotice n.body = some (stops.map (·.id.taskId))

theorem Law.reached (h : s.Law) : s.Reached where
  noticed := h.noticed
  once _ k := List.nodup_iff_count_le_one.mp
    (h.nodup.sublist (List.filter_sublist.flatMap Notice.stops)) k
  decoded := h.decoded

theorem law_init (now : Int) : (init now).Law where
  size := Nat.zero_le _
  split := by simp [init]
  once := List.nodup_nil
  known := by simp [init]
  past := by simp [init]
  slot := by simp [init]
  inj := by simp [init]
  kept := by simp [init]
  state := by simp [init]
  sent := by simp [init]
  nodup := List.nodup_nil
  noticed := by simp [init]
  asked := by simp [init]
  decoded := by simp [init]

theorem Law.tick (h : s.Law) (seconds : Nat) : Law { s with now := s.now + seconds } where
  size := h.size
  split := h.split
  once := h.once
  known := h.known
  past := by
    have hlater : s.now ≤ s.now + seconds := Int.le_add_of_nonneg_right (Int.natCast_nonneg _)
    exact ⟨fun a ha => Int.le_trans (h.past.1 a ha) hlater,
      fun e he => Int.le_trans (h.past.2 e he) hlater⟩
  slot := h.slot
  inj := h.inj
  kept k t hk ht := h.kept k t hk (by simp only at ht; omega)
  state := h.state
  sent := h.sent
  nodup := h.nodup
  noticed := h.noticed
  asked := h.asked
  decoded := h.decoded

theorem getElem?_append_some {answered : List Stop} {k : Nat} {a : Stop} (b : Stop)
    (h : answered[k]? = some a) : (answered ++ [b])[k]? = some a := by
  obtain ⟨hk, -⟩ := List.getElem?_eq_some_iff.mp h
  rw [List.getElem?_append_left hk, h]

/-- A stop is answered. -/
theorem Law.answer (h : s.Law) (id : StopId) : Law { s with
    answered := s.answered ++ [⟨id, s.now⟩], waiting := s.waiting ++ [s.answered.length] } where
  size := h.size
  split k a ha := by
    by_cases hk : k < s.answered.length
    · rw [List.getElem?_append_left hk] at ha
      exact (h.split k a ha).imp (List.mem_append_left _) fun hw => hw
    · obtain ⟨hlen, -⟩ := List.getElem?_eq_some_iff.mp ha
      rw [List.length_append, List.length_singleton] at hlen
      have hk' : k = s.answered.length := by omega
      exact .inl (List.mem_append_right _ (List.mem_singleton.mpr hk'))
  once := by
    have hnew : s.answered.length ∉ s.waiting ++ s.written.map Prod.fst := fun hm =>
      Nat.lt_irrefl _ (h.known _ hm)
    have hperm : (s.answered.length :: (s.waiting ++ s.written.map Prod.fst)).Perm
        (s.waiting ++ [s.answered.length] ++ s.written.map Prod.fst) := by
      rw [List.append_assoc]
      exact List.perm_middle.symm
    exact hperm.nodup_iff.mp (List.nodup_cons.mpr ⟨hnew, h.once⟩)
  known k hk := by
    rw [List.length_append, List.length_singleton]
    simp only [List.mem_append, List.mem_singleton] at hk
    rcases hk with (hk | rfl) | hk
    · exact Nat.lt_succ_of_lt (h.known k (List.mem_append_left _ hk))
    · exact Nat.lt_succ_self _
    · exact Nat.lt_succ_of_lt (h.known k (List.mem_append_right _ hk))
  past := by
    refine ⟨fun a ha => ?_, h.past.2⟩
    rcases List.mem_append.mp ha with ha | ha
    · exact h.past.1 a ha
    · rw [List.mem_singleton.mp ha]
  slot i hi := by
    obtain ⟨hwritten, a, ha, hsid⟩ := h.slot i hi
    exact ⟨hwritten, a, getElem?_append_some _ ha, hsid⟩
  inj := h.inj
  kept := h.kept
  state := h.state
  sent := h.sent
  nodup := h.nodup
  noticed e he k hk a ha := by
    have hlen := h.asked e he
    rw [List.getElem?_append_left (by omega)] at ha
    exact h.noticed e he k hk a ha
  asked e he := by
    rw [List.length_append, List.length_singleton]
    exact Nat.le_succ_of_le (h.asked e he)
  decoded n hn := by
    obtain ⟨stops, hstops, hparse⟩ := h.decoded n hn
    refine ⟨stops, ?_, hparse⟩
    rw [← hstops]
    refine List.map_congr_left fun k hk => ?_
    have hlen := h.known k (List.mem_append_right _ (h.sent n hn k hk))
    exact List.getElem?_append_left hlen

/-- With fewer than 999 stops in the last five minutes, the entry found is counted, and what it held
is over. -/
theorem Law.findSlot (h : s.Law)
    (hroom : (s.written.filter fun e => decide (s.now - e.2 ≤ 300)).length < 999) :
    s.findSlot < (if s.size < 999 then s.size + 1 else s.size) ∧
      (s.findSlot < s.size → 300 < s.now - (s.slots s.findSlot).stop_time) := by
  rw [StopTable.findSlot]
  split
  next => exact ⟨Nat.lt_succ_self _, fun hlt => absurd hlt (Nat.lt_irrefl _)⟩
  next hfull =>
    have hsize : s.size = 999 := by
      have := h.size
      omega
    -- The entries below 999 are of as many stops, so one of them is over.
    have hfree : ∃ i < 999, 300 < s.now - (s.slots i).stop_time := by
      by_contra hall
      simp only [not_exists, not_and, not_lt] at hall
      have hnodup : ((List.range 999).map
          fun i => ((s.slots i).stop, (s.slots i).stop_time)).Nodup := by
        refine List.Nodup.map_on (fun i hi j hj he => ?_) List.nodup_range
        exact h.inj i (hsize ▸ List.mem_range.mp hi) j (hsize ▸ List.mem_range.mp hj)
          (Prod.mk.inj he).1
      have hsub : (List.range 999).map (fun i => ((s.slots i).stop, (s.slots i).stop_time))
          ⊆ s.written.filter fun e => decide (s.now - e.2 ≤ 300) := by
        intro e he
        obtain ⟨i, hi, rfl⟩ := List.mem_map.mp he
        have hlt := List.mem_range.mp hi
        exact List.mem_filter.mpr ⟨(h.slot i (hsize ▸ hlt)).1, decide_eq_true (hall i hlt)⟩
      have hlen := (hnodup.subperm hsub).length_le
      rw [List.length_map, List.length_range] at hlen
      omega
    obtain ⟨j, hj, hover⟩ := hfree
    cases hfind : (List.range 1000).find? fun i => decide (300 < s.now - (s.slots i).stop_time) with
    | none =>
        have := List.find?_eq_none.mp hfind j (List.mem_range.mpr (by omega))
        exact absurd (decide_eq_true hover) this
    | some i =>
        obtain ⟨hi, -, hfirst⟩ := List.find?_range_eq_some.mp hfind
        have hij : i ≤ j := by
          by_contra hlt
          have := hfirst j (by omega)
          rw [decide_eq_true hover] at this
          cases this
        rw [Option.getD_some]
        exact ⟨by omega, fun _ => of_decide_eq_true hi⟩

/-- A stop is written. -/
theorem Law.write (h : s.Law) {k : Nat} {a : Stop} (hk : k ∈ s.waiting)
    (ha : s.answered[k]? = some a)
    (hroom : (s.written.filter fun e => decide (s.now - e.2 ≤ 300)).length < 999) :
    (s.write k a).Law := by
  obtain ⟨hfind, hover⟩ := h.findSlot hroom
  have hnew : k ∉ s.written.map Prod.fst := fun hw =>
    (List.nodup_append.mp h.once).2.2 k hk k hw rfl
  have hold : ∀ i < (s.write k a).size, i ≠ s.findSlot → i < s.size := by
    intro i hi hne
    simp only [StopTable.write] at hi
    rw [StopTable.findSlot] at hne
    split at hi
    next hlt =>
      rw [if_pos hlt] at hne
      omega
    next => exact hi
  have hother : ∀ i, i ≠ s.findSlot → (s.write k a).slots i = s.slots i := fun i hne =>
    Function.update_of_ne hne _ _
  have hself : (s.write k a).slots s.findSlot = ⟨s.now, a.id.text, 9, k, none⟩ :=
    Function.update_self _ _ _
  have hmem : ∀ e, e ∈ (s.write k a).written ↔ e ∈ s.written ∨ e = (k, s.now) := fun e => by
    rw [StopTable.write, List.mem_append, List.mem_singleton]
  have hfst : (s.write k a).written.map Prod.fst = s.written.map Prod.fst ++ [k] := by
    rw [StopTable.write, List.map_append]
    rfl
  constructor
  case size =>
    have := h.size
    simp only [StopTable.write]
    split <;> omega
  case split =>
    intro k' a' ha'
    rcases h.split k' a' ha' with hw | ⟨t, ht, hle⟩
    · by_cases hkk : k' = k
      · subst hkk
        exact .inr ⟨s.now, (hmem _).mpr (.inr rfl), h.past.1 a' (List.mem_of_getElem? ha')⟩
      · exact .inl ((List.mem_erase_of_ne hkk).mpr hw)
    · exact .inr ⟨t, (hmem _).mpr (.inl ht), hle⟩
  case once =>
    have hperm : (s.waiting ++ s.written.map Prod.fst).Perm
        (s.waiting.erase k ++ (s.written.map Prod.fst ++ [k])) := by
      refine ((List.perm_cons_erase hk).append_right _).trans ?_
      rw [List.cons_append, ← List.append_assoc]
      exact (List.perm_append_singleton k _).symm
    rw [hfst]
    exact hperm.nodup_iff.mp h.once
  case known =>
    intro k' hk'
    rw [hfst] at hk'
    simp only [List.mem_append, List.mem_singleton] at hk'
    rcases hk' with hk' | hk' | rfl
    · exact h.known k' (List.mem_append_left _ (List.mem_of_mem_erase hk'))
    · exact h.known k' (List.mem_append_right _ hk')
    · exact h.known k' (List.mem_append_left _ hk)
  case past =>
    refine ⟨h.past.1, fun e he => ?_⟩
    rcases (hmem e).mp he with he | rfl
    · exact h.past.2 e he
    · exact Int.le_refl _
  case slot =>
    intro i hi
    by_cases hne : i = s.findSlot
    · subst hne
      rw [hself]
      exact ⟨(hmem _).mpr (.inr rfl), a, ha, rfl⟩
    · rw [hother i hne]
      obtain ⟨hw, ha'⟩ := h.slot i (hold i hi hne)
      exact ⟨(hmem _).mpr (.inl hw), ha'⟩
  case inj =>
    have hfresh : ∀ i < (s.write k a).size, i ≠ s.findSlot → (s.slots i).stop ≠ k := by
      rintro i hi hne rfl
      exact hnew (List.mem_map_of_mem (h.slot i (hold i hi hne)).1)
    intro i hi j hj he
    by_cases hi' : i = s.findSlot
    · by_cases hj' : j = s.findSlot
      · rw [hi', hj']
      · rw [hi', hself, hother j hj'] at he
        exact absurd he.symm (hfresh j hj hj')
    · by_cases hj' : j = s.findSlot
      · rw [hj', hself, hother i hi'] at he
        exact absurd he (hfresh i hi hi')
      · rw [hother i hi', hother j hj'] at he
        exact h.inj i (hold i hi hi') j (hold j hj hj') he
  case kept =>
    intro k' t hw ht
    rcases (hmem _).mp hw with hw | he
    · obtain ⟨i, hi, hstop, htime⟩ := h.kept k' t hw ht
      have hne : i ≠ s.findSlot := by
        rintro rfl
        have := hover hi
        rw [htime] at this
        have ht' : s.now - t ≤ 300 := ht
        omega
      refine ⟨i, ?_, ?_, ?_⟩
      · simp only [StopTable.write]
        split <;> omega
      · rw [hother i hne, hstop]
      · rw [hother i hne, htime]
    · obtain ⟨rfl, rfl⟩ := Prod.mk.inj he
      exact ⟨s.findSlot, hfind, by rw [hself], by rw [hself]⟩
  case state =>
    intro i hi
    by_cases hne : i = s.findSlot
    · subst hne
      rw [hself]
      exact .inl ⟨rfl, fun n hn hk' => hnew (h.sent n hn k hk')⟩
    · rw [hother i hne]
      exact h.state i (hold i hi hne)
  case sent =>
    intro n hn k' hk'
    rw [hfst]
    exact List.mem_append_left _ (h.sent n hn k' hk')
  case nodup => exact h.nodup
  case noticed => exact h.noticed
  case asked => exact h.asked
  case decoded => exact h.decoded

theorem mem_taken {i : Nat} (h : i ∈ s.taken) :
    i < s.size ∧ (s.slots i).state = 9 ∧ s.now - 300 < (s.slots i).stop_time := by
  obtain ⟨-, hi, hp⟩ := mem_notifyLoop h
  rw [Slot.pending, Bool.and_eq_true, beq_iff_eq, decide_eq_true_eq] at hp
  exact ⟨by omega, hp⟩

/-- The stops of the entries that are taken. -/
theorem Law.stops_of_taken (h : s.Law) : ∃ stops : List Stop,
    (s.taken.map fun i => (s.slots i).stop).map (s.answered[·]?) = stops.map some ∧
      (s.taken.map fun i => (s.slots i).sid) = (stops.map (·.id)).map StopId.text := by
  have hall : ∀ i ∈ s.taken, i < s.size := fun i hi => (mem_taken hi).1
  generalize s.taken = l at hall ⊢
  induction l with
  | nil => exact ⟨[], rfl, rfl⟩
  | cons i l ih =>
      obtain ⟨hi, hl⟩ := List.forall_mem_cons.mp hall
      obtain ⟨stops, h₁, h₂⟩ := ih hl
      obtain ⟨-, a, ha, hsid⟩ := h.slot i hi
      refine ⟨a :: stops, ?_, ?_⟩
      · rw [List.map_cons, List.map_cons, ha, h₁, List.map_cons]
      · rw [List.map_cons, hsid, h₂, List.map_cons, List.map_cons]

/-- A careful session. -/
theorem Law.session (h : s.Law) {conn : Nat} {sent : Bool} (hc : s.SessionCareful conn sent) :
    (s.startSession conn sent).Law := by
  have hstop : ∀ i, ((s.startSession conn sent).slots i).stop = (s.slots i).stop ∧
      ((s.startSession conn sent).slots i).stop_time = (s.slots i).stop_time ∧
      ((s.startSession conn sent).slots i).sid = (s.slots i).sid := by
    intro i
    simp only [startSession]
    split
    · exact ⟨rfl, rfl, rfl⟩
    · exact ⟨rfl, rfl, rfl⟩
  have hold : ∀ n ∈ s.notices, n ∈ (s.startSession conn sent).notices := fun n hn =>
    List.mem_append_left _ hn
  have hnew : ∀ i ∈ s.taken, ∃ n ∈ (s.startSession conn sent).notices,
      n.conn = conn ∧ (s.slots i).stop ∈ n.stops := by
    intro i hi
    have hne : s.taken.isEmpty = false := List.isEmpty_eq_false_iff.mpr (List.ne_nil_of_mem hi)
    have hsent := hc.sent (List.ne_nil_of_mem hi)
    refine ⟨s.notice conn, List.mem_append_right _ ?_, rfl, List.mem_map_of_mem hi⟩
    rw [hsent, hne]
    exact List.mem_singleton_self _
  have hcases : ∀ n ∈ (s.startSession conn sent).notices, n ∈ s.notices ∨ n = s.notice conn := by
    intro n hn
    rcases List.mem_append.mp hn with hn | hn
    · exact .inl hn
    · split at hn
      · exact .inr (List.mem_singleton.mp hn)
      · cases hn
  -- What is taken was not sent before.
  have hunsent : ∀ i ∈ s.taken, ∀ n ∈ s.notices, (s.slots i).stop ∉ n.stops := by
    intro i hi
    obtain ⟨hlt, hstate, -⟩ := mem_taken hi
    rcases h.state i hlt with ⟨-, hn⟩ | ⟨hs, -⟩
    · exact hn
    · rw [hstate] at hs
      cases hs
  constructor
  case size => exact h.size
  case split => exact h.split
  case once => exact h.once
  case known => exact h.known
  case past => exact h.past
  case slot =>
    intro i hi
    obtain ⟨h₁, h₂, h₃⟩ := hstop i
    rw [h₁, h₂, h₃]
    exact h.slot i hi
  case inj =>
    intro i hi j hj he
    rw [(hstop i).1, (hstop j).1] at he
    exact h.inj i hi j hj he
  case kept =>
    intro k t hk ht
    obtain ⟨i, hi, h₁, h₂⟩ := h.kept k t hk ht
    exact ⟨i, hi, (hstop i).1.trans h₁, (hstop i).2.1.trans h₂⟩
  case state =>
    intro i hi
    rw [(hstop i).1]
    by_cases hmem : i ∈ s.taken
    · have hslot : (s.startSession conn sent).slots i
          = { s.slots i with state := -1, takenBy := some conn } := if_pos hmem
      rw [hslot]
      exact .inr ⟨rfl, conn, rfl, hnew i hmem⟩
    · have hslot : (s.startSession conn sent).slots i = s.slots i := if_neg hmem
      rw [hslot]
      rcases h.state i hi with ⟨hs, hn⟩ | ⟨hs, conn', hby, n, hn, hh⟩
      · refine .inl ⟨hs, fun n hmem' hk => ?_⟩
        rcases hcases n hmem' with hmem' | rfl
        · exact hn n hmem' hk
        · obtain ⟨j, hj, he⟩ := List.mem_map.mp hk
          obtain rfl := h.inj j (mem_taken hj).1 i hi he
          exact hmem hj
      · exact .inr ⟨hs, conn', hby, n, hold n hn, hh⟩
  case sent =>
    intro n hn k hk
    rcases hcases n hn with hn | rfl
    · exact h.sent n hn k hk
    · obtain ⟨i, hi, rfl⟩ := List.mem_map.mp hk
      exact List.mem_map_of_mem (h.slot i (mem_taken hi).1).1
  case nodup =>
    have hmap : (s.taken.map fun i => (s.slots i).stop).Nodup :=
      List.Nodup.map_on (fun i hi j hj he => h.inj i (mem_taken hi).1 j (mem_taken hj).1 he)
        (nodup_notifyLoop _ _ _)
    rw [startSession, List.flatMap_append]
    refine List.nodup_append.mpr ⟨h.nodup, ?_, ?_⟩
    · split
      · rw [List.flatMap_cons, List.flatMap_nil, List.append_nil]
        exact hmap
      · exact List.nodup_nil
    · rintro k hk k' hk' rfl
      split at hk'
      · simp only [List.flatMap_cons, List.flatMap_nil, List.append_nil] at hk'
        obtain ⟨i, hi, rfl⟩ := List.mem_map.mp hk'
        obtain ⟨n, hn, hkn⟩ := List.mem_flatMap.mp hk
        exact hunsent i hi n hn hkn
      · cases hk'
  case noticed =>
    intro e he k hk a ha hle
    rcases List.mem_append.mp he with he | he
    · obtain ⟨n, hn, hh⟩ := h.noticed e he k hk a ha hle
      exact ⟨n, hold n hn, hh⟩
    · obtain rfl := List.mem_singleton.mp he
      have hnow : s.now ≤ a.time + 300 := hle
      rcases h.split k a ha with hw | ⟨t, ht, hat⟩
      · have := hc.settled k hw a ha
        omega
      · obtain ⟨i, hi, rfl, rfl⟩ := h.kept k t ht (by omega)
        rcases h.state i hi with ⟨hs, -⟩ | ⟨-, conn', hby, n, hn, hconn, hkn⟩
        · have hedge := hc.edge i hi hs
          have hp : (s.slots i).pending s.now = true := by
            rw [Slot.pending, hs, Bool.and_eq_true]
            exact ⟨rfl, decide_eq_true (by omega)⟩
          exact hnew i (mem_notifyLoop_of_fits hc.fits (Nat.zero_le i) (by omega) hp)
        · have hsole := hc.sole i hi a ha hnow conn' hby
          exact ⟨n, hold n hn, hconn.trans hsole, hkn⟩
  case asked =>
    intro e he
    rcases List.mem_append.mp he with he | he
    · exact h.asked e he
    · rw [List.mem_singleton.mp he]
      exact Nat.le_refl _
  case decoded =>
    intro n hn
    rcases hcases n hn with hn | rfl
    · exact h.decoded n hn
    · obtain ⟨stops, h₁, h₂⟩ := h.stops_of_taken
      refine ⟨stops, h₁, ?_⟩
      have hsum : 4 + ((s.taken.map fun i => (s.slots i).sid).map fun t => t.length + 1).sum
          ≤ 3988 := by
        rw [List.map_map]
        exact sum_notifyLoop (by omega)
      rw [← length_notifyMsg, h₂] at hsum
      rw [notice, h₂, parseNotice_body hsum, List.map_map]
      rfl

theorem Law.step {s' : StopTable} {a : Act} (h : s.Law) (hc : s.Careful a)
    (hs : s.step a = some s') : s'.Law := by
  cases a with
  | tick seconds =>
      obtain rfl := Option.some.inj hs
      exact h.tick seconds
  | answer id =>
      obtain rfl := Option.some.inj hs
      exact h.answer id
  | write k =>
      rw [StopTable.step] at hs
      split at hs
      next hk =>
        obtain ⟨a, ha, rfl⟩ := Option.map_eq_some_iff.mp hs
        exact h.write hk ha hc
      next => cases hs
  | session conn sent =>
      obtain rfl := Option.some.inj hs
      exact h.session hc

/-- In a run of careful steps every stop reaches every delivery engine. -/
theorem reached_run {now : Int} {acts : List Act} {s : StopTable}
    (h : Run (Guarded Careful fun s a s' => s.step a = some s') (init now) acts s) : s.Reached :=
  (h.invariant (fun _ _ _ hl hs => hl.step hs.1 hs.2) (law_init now)).reached

/-! ### Two engines -/

def sampleStop : StopId := ⟨1, 2, 3, by decide⟩

/-- The stop of a task is answered and written. -/
def stopOne : List Act := [.answer sampleStop, .write 0]

def stopped : StopTable :=
  { (init 1000).write 0 ⟨sampleStop, 1000⟩ with answered := [⟨sampleStop, 1000⟩], waiting := [] }

/-- The only engine is told. -/
theorem reached_run_alone : ∃ s : StopTable, s.notices.length = 1 ∧ s.Reached := by
  have hpending : ∀ i < stopped.size, i = 0 := fun i hi => Nat.lt_one_iff.mp hi
  have hcareful : stopped.SessionCareful 7 true := by
    refine ⟨fun k hk => ?_, fun i hi a _ _ conn hconn => ?_, fun i hi _ => ?_, ?_, fun _ => rfl⟩
    · cases hk
    · rw [hpending i hi] at hconn
      cases hconn
    · rw [hpending i hi]
      decide
    · decide +kernel
  have hlen : (stopped.startSession 7 true).notices.length = 1 := by decide +kernel
  have hwrite : Careful { init 1000 with
      answered := [⟨sampleStop, 1000⟩], waiting := [0] } (.write 0) := by
    simp [Careful, init]
  have hrun : Run (Guarded Careful fun s a s' => s.step a = some s') (init 1000)
      (stopOne ++ [.session 7 true]) (stopped.startSession 7 true) :=
    .more ⟨trivial, rfl⟩ (.more ⟨hwrite, rfl⟩ (.more ⟨hcareful, rfl⟩ (.refl _)))
  exact ⟨_, hlen, reached_run hrun⟩

/-- Of two engines the first takes the notice. -/
theorem second_engine_not_told : ¬ ∀ (now : Int) (acts : List Act) (s : StopTable),
    Run (fun s a s' => s.step a = some s') (init now) acts s → s.Moderate → s.Reached := by
  intro h
  have hfirst : ((stopped.startSession 7 true).startSession 8 true).notices.all (·.conn == 7)
      = true := by decide +kernel
  have hrun : Run (fun s a s' => s.step a = some s') (init 1000)
      (stopOne ++ [.session 7 true, .session 8 true])
      ((stopped.startSession 7 true).startSession 8 true) :=
    .more rfl (.more rfl (.more rfl (.more rfl (.refl _))))
  have hreached := h _ _ _ hrun fun t => (List.length_filter_le _ _).trans (by decide)
  obtain ⟨n, hn, hconn, -⟩ := hreached.noticed ⟨8, 1000, 1⟩
    (List.mem_append_right _ (List.mem_singleton_self _)) 0 Nat.one_pos _ rfl (by decide)
  have := List.all_eq_true.mp hfirst n hn
  rw [hconn] at this
  cases this

end StopTable

end Edm.Deliver
