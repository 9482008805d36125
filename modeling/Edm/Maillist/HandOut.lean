import Edm.Maillist.PostPackage
import Edm.Support.Attempts
import Edm.Support.Pack
import Edm.Support.Run

/-!
# Maillist — HandOut

Command 1: a delivery engine asks for mails.  Behind the mails of the tasks the answer has the
trigger mails that are due, in the order of the cursor, up to `nTrigerDeliverNum` of them.  One
that is handed out becomes due again after `nTrigerRetryPeriod`, and a failure brings that forward;
after `nTrigerRetryTime` of them it is deleted when it is due once more.

The block of the answer grows by 2048 bytes when less than 1024 are left, whatever the length of
the record that is put there.  `limits_iff`: the limits are kept, the count is right and nothing is
written behind the block in every request of a run exactly when each record has room there.
-/

namespace Edm.Maillist.HandOut
open Support Attempts.Event

/-! ### The answer -/

/-- The settings; `ReadConf` takes no others. -/
structure HandConf extends TrigerConf where
  nTrigerDeliverNum : Int
  deliver_range : 0 < nTrigerDeliverNum ∧ nTrigerDeliverNum < 60000
  period_range : 0 < nTrigerRetryPeriod ∧ nTrigerRetryPeriod < 6000

/-- What a post puts behind the mailbox of a record, with the length in an `int`. -/
structure Posted where
  strings : Text
  modula : Text
  short : strings.length < 2 ^ 31

/-- The record, with ten bytes of state. -/
def Posted.data (p : Posted) : Text := List.replicate 10 nul ++ recordTail p.strings p.modula

/-- A mail of a task, with the number of the task. -/
structure TaskMail where
  sID : Text
  strings : Text
  length_id : sID.length = 12

/-- `sResult` behind its first 17 bytes, the size of its block, and `k`. -/
structure Answer where
  nResultSize : Nat
  sResult : Text
  k : Nat

/-- A mail in an answer. -/
def wire (sID strings : Text) : Text := be32 (strings.length + 12) ++ (sID ++ strings)

namespace Answer

def nResultLeng (a : Answer) : Nat := 17 + a.sResult.length

/-- The block of an answer without mails. -/
def empty : Answer := ⟨10240, [], 0⟩

/-- `while (*nResultLeng + nLeng + 50 > *nResultSize) *nResultSize += 1024`. -/
def grown (need nResultSize : Nat) : Nat :=
  if need ≤ nResultSize then nResultSize else grown need (nResultSize + 1024)
termination_by need - nResultSize

/-- A mail of a task is put into the answer; `none` when the size is more than an `int` holds. -/
def putTask (a : Answer) (m : TaskMail) : Option Answer :=
  let nResultSize := grown (a.nResultLeng + m.strings.length + 50) a.nResultSize
  if 2 ^ 31 ≤ nResultSize then none
  else some ⟨nResultSize, a.sResult ++ wire m.sID m.strings, a.k + 1⟩

/-- A trigger mail is put into the answer; `none` also when it is written behind the block. -/
def putTriger (a : Answer) (key : Text) (p : Posted) : Option Answer :=
  if 2 ^ 31 ≤ answerSize a.nResultSize a.nResultLeng then none
  else (handOut a.nResultSize a.nResultLeng key p.data).map fun record =>
    ⟨answerSize a.nResultSize a.nResultLeng, a.sResult ++ record, a.k + 1⟩

/-- What is sent. -/
def message (a : Answer) : Text :=
  be32 (a.nResultLeng - 4 : Nat) ++ be32 1 ++ be32 1 ++ [nul] ++ be32 a.k ++ a.sResult

end Answer

/-! ### The databases along a run -/

/-- The databases, what is behind the state of each record, and what happened. -/
structure Desk (pAlias : DomainAlias) where
  store : TrigerStore pAlias
  posted : Text → Posted
  log : List (Attempts.Event Text)

/-- An act on the trigger mails. -/
inductive Act where
  | post (nID : Int × Int × Int) (tTime : Int) (sMail : Text) (p : Posted)
  /-- Command 1: the keys in the order of the cursor, and the mails of the tasks. -/
  | request (tNow : Int) (cursor : { keys : List Text // keys.Nodup }) (tasks : List TaskMail)
  | report (r : Deliver.Record) (cStat : Option MailStat)

variable {pAlias : DomainAlias}

/-- `*t <= tNow && *s < nTrigerRetryTime`. -/
def due (conf : HandConf) (tNow : Int) (s : TrigerStore pAlias) (key : Text) : Bool :=
  (s.dbList key).any fun m => m.time ≤ tNow && m.sent < conf.nTrigerRetryTime

/-- The loop over the trigger mails: the databases behind it, and the mails handed out. -/
def handLoop (conf : HandConf) (tNow : Int) :
    List Text → Int → TrigerStore pAlias → TrigerStore pAlias × List Text
  | [], _, s => (s, [])
  | key :: keys, i, s =>
      let s' := s.hand conf.toTrigerConf tNow key
      if due conf tNow s key then
        if conf.nTrigerDeliverNum ≤ i + 1 then (s', [key])
        else ((handLoop conf tNow keys (i + 1) s').1, key :: (handLoop conf tNow keys (i + 1) s').2)
      else if conf.nTrigerDeliverNum ≤ i then (s', [])
      else handLoop conf tNow keys i s'

namespace Desk
variable (conf : HandConf) (s : Desk pAlias)

/-- The trigger mails of a request. -/
def handed (tNow : Int) (keys : List Text) : List Text := (handLoop conf tNow keys 0 s.store).2

/-- The answer to a request. -/
def answer (tNow : Int) (keys : List Text) (tasks : List TaskMail) : Option Answer :=
  (tasks.foldlM Answer.putTask .empty).bind fun a =>
    (s.handed conf tNow keys).foldlM (fun a key => a.putTriger key (s.posted key)) a

/-- A key that is taken keeps its record. -/
def post (nID : Int × Int × Int) (tTime : Int) (sMail : Text) (p : Posted) : Desk pAlias :=
  if nID.1 = 0 ∨ (s.store.dbList (postKey nID)).isSome then
    { s with store := s.store.post nID tTime sMail }
  else ⟨s.store.post nID tTime sMail, Function.update s.posted (postKey nID) p,
    entered (postKey nID) :: s.log⟩

def request (tNow : Int) (keys : List Text) : Desk pAlias :=
  ⟨(handLoop conf tNow keys 0 s.store).1, s.posted,
    (s.handed conf tNow keys).reverse.map (tried · tNow) ++ s.log⟩

def report (r : Deliver.Record) (cStat : Option MailStat) : Desk pAlias :=
  ⟨s.store.report conf.toTrigerConf r cStat, s.posted,
    if secondNumber r.id < 1000000000 ∨ reportStat r = .success then s.log
    else failed r.id :: s.log⟩

def step : Act → Desk pAlias
  | .post nID tTime sMail p => s.post nID tTime sMail p
  | .request tNow cursor _ => s.request conf tNow cursor.1
  | .report r cStat => s.report conf r cStat

end Desk

/-- Nothing has been submitted. -/
def start : Desk pAlias := ⟨.empty, fun _ => ⟨[], [], Nat.two_pow_pos 31⟩, []⟩

/-! ### What it is for -/

/-- A mail is read off a message. -/
def takeMail (s : Text) : Option (Text × Text) :=
  let n := (ofBe32 s).toNat
  if s.length < 4 + n then none else some ((s.drop 4).take n, s.drop (4 + n))

/-- The count of a message is the number of mails in it. -/
def Counted (msg : Text) : Prop :=
  ∃ mails, readItems takeMail (ofBe32 (msg.drop 13)).toNat (msg.drop 17) = some (mails, [])

/-- The limits of the hand-out: how often since a mail was entered, and how soon again. -/
structure Limits (conf : HandConf) (log : List (Attempts.Event Text)) : Prop where
  often : ∀ key a b, log = a ++ b → entered key ∉ a →
    (a.countP (isTry key) : Int) ≤ conf.nTrigerRetryTime
  apart : ∀ key t t' a b c, log = c ++ tried key t' :: (a ++ tried key t :: b) →
    entered key ∉ a → failed key ∉ a → t + conf.nTrigerRetryPeriod ≤ t'

/-- A request is answered inside the block, with the count right and the mails limited; what
happened keeps the limits. -/
def Right (conf : HandConf) (s : Desk pAlias) (act : Act) : Prop :=
  Limits conf (s.step conf act).log ∧
    match act with
    | .request tNow cursor tasks =>
        ((s.handed conf tNow cursor.1).length : Int) ≤ conf.nTrigerDeliverNum ∧
          ∃ a, s.answer conf tNow cursor.1 tasks = some a ∧ Counted a.message
    | _ => True

/-! ### When there is room -/

/-- The size of the block and the length of the answer with a mail of a task. -/
def taskSize (b : Nat × Nat) (m : TaskMail) : Nat × Nat :=
  (Answer.grown (b.2 + m.strings.length + 50) b.1, b.2 + 16 + m.strings.length)

/-- Records of these lengths have room in the block, each when it is put there. -/
def Room : Nat → Nat → List Nat → Prop
  | _, _, [] => True
  | nResultSize, nResultLeng, n :: ns =>
      let nResultSize' := answerSize nResultSize nResultLeng
      nResultSize' < 2 ^ 31 ∧ nResultLeng + 16 + n ≤ nResultSize' ∧
        Room nResultSize' (nResultLeng + 16 + n) ns

/-- The trigger mails that are due, as far as they are taken. -/
def Desk.dueMails (conf : HandConf) (s : Desk pAlias) (tNow : Int) (keys : List Text) :
    List Text :=
  (keys.filter (due conf tNow s.store)).take conf.nTrigerDeliverNum.toNat

/-- The answer to a request has room for the mails of the tasks and for the trigger mails. -/
def Fits (conf : HandConf) (s : Desk pAlias) : Act → Prop
  | .request tNow cursor tasks =>
      let b := tasks.foldl taskSize (10240, 17)
      b.1 < 2 ^ 31 ∧
        Room b.1 b.2 ((s.dueMails conf tNow cursor.1).map fun key => (s.posted key).strings.length)
  | _ => True

/-! ### The block -/

section Block
variable {a a' : Answer}

theorem wire_length {sID : Text} (hid : sID.length = 12) (strings : Text) :
    (wire sID strings).length = 16 + strings.length := by
  simp [wire, hid]
  omega

theorem le_grown (need nResultSize : Nat) :
    nResultSize ≤ Answer.grown need nResultSize ∧ need ≤ Answer.grown need nResultSize := by
  induction nResultSize using Answer.grown.induct need with
  | case1 nResultSize h => simp [Answer.grown, h]
  | case2 nResultSize h ih =>
      rw [Answer.grown, if_neg h]
      omega

/-- What an answer is like: it fits its block, and its mails are counted. -/
structure Sound (a : Answer) : Prop where
  fits : a.nResultLeng ≤ a.nResultSize
  small : a.nResultSize < 2 ^ 31
  mails : ∃ mails : List (Text × Text), (∀ m ∈ mails, m.1.length = 12) ∧
    a.sResult = mails.flatMap (fun m => wire m.1 m.2) ∧ a.k = mails.length

/-- One mail more. -/
theorem Sound.snoc (h : Sound a) {sID : Text} (hid : sID.length = 12) {strings : Text}
    {nResultSize : Nat} (hfits : a.nResultLeng + 16 + strings.length ≤ nResultSize)
    (hsmall : nResultSize < 2 ^ 31) :
    Sound ⟨nResultSize, a.sResult ++ wire sID strings, a.k + 1⟩ := by
  obtain ⟨mails, hids, hbytes, hcount⟩ := h.mails
  refine ⟨?_, hsmall, mails ++ [(sID, strings)], ?_, ?_, ?_⟩
  · simp only [Answer.nResultLeng, List.length_append, wire_length hid] at hfits ⊢
    omega
  · simpa [or_imp, forall_and, hid] using fun a b hm => hids (a, b) hm
  · simp [hbytes]
  · simp [hcount]

theorem Sound.empty : Sound .empty :=
  ⟨by decide, by decide, [], by simp [Answer.empty]⟩

theorem Sound.putTask (h : Sound a) {m : TaskMail} (hput : a.putTask m = some a') :
    Sound a' ∧ (a'.nResultSize, a'.nResultLeng) = taskSize (a.nResultSize, a.nResultLeng) m := by
  obtain ⟨_, hneed⟩ := le_grown (a.nResultLeng + m.strings.length + 50) a.nResultSize
  simp only [Answer.putTask] at hput
  split at hput
  · exact nomatch hput
  next hsmall =>
    obtain rfl := Option.some.inj hput
    refine ⟨h.snoc m.length_id (by omega) (by omega), ?_⟩
    simp [taskSize, Answer.nResultLeng, wire_length m.length_id]
    omega

theorem putTriger_eq_some_iff {key : Text} {p : Posted} : a.putTriger key p = some a' ↔
    answerSize a.nResultSize a.nResultLeng < 2 ^ 31 ∧
      a.nResultLeng + 16 + p.strings.length ≤ answerSize a.nResultSize a.nResultLeng ∧
      a' = ⟨answerSize a.nResultSize a.nResultLeng, a.sResult ++ wire key p.strings, a.k + 1⟩ := by
  have hhand : ∀ record, handOut a.nResultSize a.nResultLeng key
      (List.replicate 10 nul ++ recordTail p.strings p.modula) = some record ↔
        a.nResultLeng + 16 + p.strings.length ≤ answerSize a.nResultSize a.nResultLeng ∧
          record = be32 (p.strings.length + 12) ++ (key ++ p.strings) :=
    fun _ => handOut_eq_some_iff List.length_replicate p.short
  rw [Answer.putTriger]
  split
  next hlarge => exact iff_of_false (by simp) fun h => Nat.not_le_of_lt h.1 hlarge
  next hsmall =>
    simp only [Option.map_eq_some_iff, Posted.data, hhand]
    constructor
    · rintro ⟨record, ⟨hfits, rfl⟩, rfl⟩
      exact ⟨Nat.not_le.mp hsmall, hfits, rfl⟩
    · rintro ⟨-, hfits, rfl⟩
      exact ⟨_, ⟨hfits, rfl⟩, rfl⟩

theorem Sound.putTasks {tasks : List TaskMail} : ∀ {a : Answer}, Sound a →
    tasks.foldlM Answer.putTask a = some a' →
      Sound a' ∧ (a'.nResultSize, a'.nResultLeng)
        = tasks.foldl taskSize (a.nResultSize, a.nResultLeng) := by
  induction tasks with
  | nil =>
      intro a h hput
      obtain rfl := Option.some.inj hput
      exact ⟨h, rfl⟩
  | cons m tasks ih =>
      intro a h hput
      rw [List.foldlM_cons, Option.bind_eq_bind, Option.bind_eq_some_iff] at hput
      obtain ⟨b, hb, hput⟩ := hput
      obtain ⟨hsound, hsizes⟩ := h.putTask hb
      rw [List.foldl_cons, ← hsizes]
      exact ih hsound hput

theorem le_foldl_taskSize {tasks : List TaskMail} : ∀ b : Nat × Nat,
    b.1 ≤ (tasks.foldl taskSize b).1 := by
  induction tasks with
  | nil => intro b; simp
  | cons m tasks ih =>
      intro b
      exact Nat.le_trans (le_grown _ _).1 (ih (taskSize b m))

theorem exists_putTasks {tasks : List TaskMail} : ∀ {a : Answer}, Sound a →
    (tasks.foldl taskSize (a.nResultSize, a.nResultLeng)).1 < 2 ^ 31 →
      ∃ a', tasks.foldlM Answer.putTask a = some a' := by
  induction tasks with
  | nil => exact fun _ _ => ⟨_, rfl⟩
  | cons m tasks ih =>
      intro a h hsize
      rw [List.foldl_cons] at hsize
      have hsmall : Answer.grown (a.nResultLeng + m.strings.length + 50) a.nResultSize < 2 ^ 31 :=
        Nat.lt_of_le_of_lt
          (le_foldl_taskSize (taskSize (a.nResultSize, a.nResultLeng) m)) hsize
      obtain ⟨b, hb⟩ : ∃ b, a.putTask m = some b :=
        ⟨_, by simp only [Answer.putTask]; exact if_neg (Nat.not_le.mpr hsmall)⟩
      obtain ⟨hsound, hsizes⟩ := h.putTask hb
      rw [← hsizes] at hsize
      obtain ⟨a', ha'⟩ := ih hsound hsize
      exact ⟨a', by rw [List.foldlM_cons, Option.bind_eq_bind, hb, Option.bind_some, ha']⟩

theorem Sound.of_putTrigers {posted : Text → Posted} {keys : List Text} : ∀ {a : Answer}, Sound a →
    (∀ key ∈ keys, key.length = 12) →
      keys.foldlM (fun a key => a.putTriger key (posted key)) a = some a' → Sound a' := by
  induction keys with
  | nil =>
      intro a h _ hput
      obtain rfl := Option.some.inj hput
      exact h
  | cons key keys ih =>
      intro a h hids hput
      obtain ⟨hid, hids⟩ := List.forall_mem_cons.mp hids
      rw [List.foldlM_cons, Option.bind_eq_bind, Option.bind_eq_some_iff] at hput
      obtain ⟨b, hb, hput⟩ := hput
      obtain ⟨hsmall, hfits, rfl⟩ := putTriger_eq_some_iff.mp hb
      exact ih (h.snoc hid hfits hsmall) hids hput

/-- Trigger mails are put into the answer exactly when there is room for each. -/
theorem Sound.putTrigers {posted : Text → Posted} {keys : List Text} : ∀ {a : Answer}, Sound a →
    (∀ key ∈ keys, key.length = 12) →
      ((∃ a', keys.foldlM (fun a key => a.putTriger key (posted key)) a = some a' ∧ Sound a') ↔
        Room a.nResultSize a.nResultLeng (keys.map fun key => (posted key).strings.length)) := by
  induction keys with
  | nil => exact fun h _ => iff_of_true ⟨_, rfl, h⟩ trivial
  | cons key keys ih =>
      intro a h hids
      obtain ⟨hid, hids⟩ := List.forall_mem_cons.mp hids
      simp only [List.foldlM_cons, Option.bind_eq_bind, Option.bind_eq_some_iff,
        putTriger_eq_some_iff, List.map_cons, Room]
      have hleng : ∀ size, Answer.nResultLeng
          ⟨size, a.sResult ++ wire key (posted key).strings, a.k + 1⟩
            = a.nResultLeng + 16 + (posted key).strings.length := by
        intro size
        simp [Answer.nResultLeng, wire_length hid]
        omega
      constructor
      · rintro ⟨a', ⟨b, ⟨hsmall, hfits, rfl⟩, hput⟩, ha'⟩
        have hroom := (ih (h.snoc hid hfits hsmall) hids).mp ⟨a', hput, ha'⟩
        rw [hleng] at hroom
        exact ⟨hsmall, hfits, hroom⟩
      · rintro ⟨hsmall, hfits, hroom⟩
        rw [← hleng (answerSize a.nResultSize a.nResultLeng)] at hroom
        obtain ⟨a', hput, ha'⟩ := (ih (h.snoc hid hfits hsmall) hids).mpr hroom
        exact ⟨a', ⟨_, ⟨hsmall, hfits, rfl⟩, hput⟩, ha'⟩

/-! ### The count -/

theorem takeMail_wire {sID strings : Text} (hid : sID.length = 12)
    (hshort : strings.length + 12 < 2 ^ 31) (rest : Text) :
    takeMail (wire sID strings ++ rest) = some (sID ++ strings, rest) := by
  have hlen : (ofBe32 (wire sID strings ++ rest)).toNat = strings.length + 12 := by
    rw [wire, List.append_assoc, ofBe32_append, int32_of_range (by omega) (by omega)]
    omega
  have hdrop : (wire sID strings ++ rest).drop 4 = (sID ++ strings) ++ rest := by
    rw [wire, List.append_assoc, List.drop_left' (length_be32 _)]
  have hmail : (sID ++ strings).length = strings.length + 12 := by
    rw [List.length_append, hid, Nat.add_comm]
  simp only [takeMail]
  rw [hlen, if_neg, ← List.drop_drop, hdrop, ← hmail, List.take_left, List.drop_left]
  rw [List.length_append, wire_length hid]
  omega

theorem sixteen_mul_length_le : ∀ {mails : List (Text × Text)}, (∀ m ∈ mails, m.1.length = 12) →
    16 * mails.length ≤ (mails.flatMap fun m => wire m.1 m.2).length
  | [], _ => Nat.le_refl _
  | m :: mails, h => by
      obtain ⟨hm, h⟩ := List.forall_mem_cons.mp h
      have ih := sixteen_mul_length_le h
      rw [List.flatMap_cons, List.length_append, wire_length hm, List.length_cons]
      omega

theorem length_le_of_mem {mails : List (Text × Text)} {m : Text × Text} (hm : m ∈ mails)
    (hid : m.1.length = 12) :
    16 + m.2.length ≤ (mails.flatMap fun m => wire m.1 m.2).length := by
  obtain ⟨l, r, rfl⟩ := List.append_of_mem hm
  rw [List.flatMap_append, List.flatMap_cons, List.length_append, List.length_append,
    wire_length hid]
  omega

theorem Sound.counted (h : Sound a) : Counted a.message := by
  obtain ⟨mails, hids, hbytes, hcount⟩ := h.mails
  have hfits := h.fits
  have hsmall := h.small
  rw [Answer.nResultLeng] at hfits
  have hmany := sixteen_mul_length_le hids
  rw [← hbytes] at hmany
  have hk : ofBe32 (a.message.drop 13) = a.k := by
    have hdrop : a.message.drop 13 = be32 a.k ++ a.sResult := by
      simp [Answer.message, be32]
    rw [hdrop, ofBe32_append]
    exact int32_of_range (by omega) (by omega)
  have hbody : a.message.drop 17 = mails.flatMap (fun m => wire m.1 m.2) ++ [] := by
    simp [Answer.message, be32, hbytes]
  refine ⟨mails.map fun m => m.1 ++ m.2, ?_⟩
  rw [hk, hbody, Int.toNat_natCast, hcount]
  refine readItems_flatMap fun m hm rest => takeMail_wire (hids m hm) ?_ rest
  have hle := length_le_of_mem hm (hids m hm)
  rw [← hbytes] at hle
  omega

end Block

/-! ### One trigger mail -/

section
variable {conf : HandConf} {tNow : Int} {s : TrigerStore pAlias} {key : Text}
  {log : List (Attempts.Event Text)}

/-- What the cursor does to a record. -/
theorem hand_cases (conf : HandConf) (tNow : Int) (s : TrigerStore pAlias) (key : Text) :
    (due conf tNow s key = true ∧ ∃ m, s.dbList key = some m ∧
      m.sent < conf.nTrigerRetryTime ∧ m.time ≤ tNow ∧
      (s.hand conf.toTrigerConf tNow key).dbList = Function.update s.dbList key (some { m with
        sent := Int.bmod (m.sent + 1) 256
        time := tNow + conf.nTrigerRetryPeriod })) ∨
    (due conf tNow s key = false ∧ ((s.hand conf.toTrigerConf tNow key).dbList = s.dbList ∨
      (s.hand conf.toTrigerConf tNow key).dbList = Function.update s.dbList key none)) := by
  simp only [due, TrigerStore.hand]
  cases hm : s.dbList key with
  | none => exact .inr ⟨rfl, .inl rfl⟩
  | some m =>
      by_cases hdue : m.time ≤ tNow ∧ m.sent < conf.nTrigerRetryTime
      · refine .inl ⟨by simpa using hdue, m, rfl, hdue.2, hdue.1, ?_⟩
        dsimp only
        rw [if_pos hdue]
        split <;> rfl
      · refine .inr ⟨by simpa using hdue, ?_⟩
        dsimp only
        rw [if_neg hdue]
        split
        · exact .inr rfl
        · exact .inl rfl

theorem hand_dbList_of_ne {key' : Text} (hne : key' ≠ key) :
    (s.hand conf.toTrigerConf tNow key).dbList key' = s.dbList key' := by
  obtain ⟨-, m, -, -, -, h⟩ | ⟨-, h | h⟩ := hand_cases conf tNow s key
  all_goals simp [h, hne]

/-- The loop hands out the mails that are due, as far as they are taken. -/
theorem handLoop_snd {keys : List Text} (hkeys : keys.Nodup) : ∀ {i : Int}
    {s : TrigerStore pAlias}, i < conf.nTrigerDeliverNum → (handLoop conf tNow keys i s).2
      = (keys.filter (due conf tNow s)).take (conf.nTrigerDeliverNum - i).toNat := by
  induction keys with
  | nil => simp [handLoop]
  | cons key keys ih =>
      intro i s hi
      obtain ⟨hkey, hkeys⟩ := List.nodup_cons.mp hkeys
      -- the cursor does not come to this key once more
      have hrest : keys.filter (due conf tNow (s.hand conf.toTrigerConf tNow key))
          = keys.filter (due conf tNow s) := by
        refine List.filter_congr fun key' hmem => ?_
        have hne : key' ≠ key := fun h => hkey (h ▸ hmem)
        rw [due, due, hand_dbList_of_ne hne]
      obtain ⟨n, hn⟩ : ∃ n, (conf.nTrigerDeliverNum - i).toNat = n + 1 :=
        ⟨(conf.nTrigerDeliverNum - i).toNat - 1, by omega⟩
      simp only [handLoop]
      by_cases hdue : due conf tNow s key = true
      · rw [if_pos hdue, List.filter_cons_of_pos hdue, hn, List.take_succ_cons]
        split
        next hlast =>
          obtain rfl : n = 0 := by omega
          rfl
        next hmore =>
          have hleft : (conf.nTrigerDeliverNum - (i + 1)).toNat = n := by omega
          rw [ih hkeys (by omega), hrest, hleft]
      · rw [if_neg hdue, List.filter_cons_of_neg hdue, if_neg (by omega), ih hkeys hi, hrest]

/-- What holds of the records and of the log. -/
structure Law (conf : HandConf) (s : TrigerStore pAlias) (log : List (Attempts.Event Text)) :
    Prop where
  kept : ∀ key m, s.dbList key = some m → key.length = 12 ∧
    m.sent = Attempts.tries key log ∧
      ∀ t ∈ Attempts.lastTry key log, t + conf.nTrigerRetryPeriod ≤ m.time
  often : ∀ key, (Attempts.tries key log : Int) ≤ conf.nTrigerRetryTime
  spaced : Attempts.Spaced conf.nTrigerRetryPeriod log

theorem Law.start : Law conf (TrigerStore.empty : TrigerStore pAlias) [] where
  kept key m h := by cases h
  often key := Int.le_of_lt conf.range.1
  spaced := trivial

/-- A record that goes, or one that stays as it is, is nothing to the log. -/
theorem Law.of_dbList {s' : TrigerStore pAlias} (h : Law conf s log)
    (hs : s'.dbList = s.dbList ∨ s'.dbList = Function.update s.dbList key none) :
    Law conf s' log where
  kept key' m hm := by
    rcases hs with hs | hs
    · exact h.kept key' m (by rwa [← hs])
    · rw [hs] at hm
      by_cases hkey : key' = key
      · subst hkey
        simp at hm
      · exact h.kept key' m (by simpa [hkey] using hm)
  often := h.often
  spaced := h.spaced

/-- The cursor comes to a record. -/
theorem Law.hand (h : Law conf s log) : Law conf (s.hand conf.toTrigerConf tNow key)
    (if due conf tNow s key then tried key tNow :: log else log) := by
  obtain ⟨hdue, m, hm, hsent, htime, hs⟩ | ⟨hdue, hs⟩ := hand_cases conf tNow s key
  · rw [if_pos hdue]
    obtain ⟨hid, hcount, hlast⟩ := h.kept key m hm
    have hrange := conf.range
    constructor
    case kept =>
      intro key' m' hm'
      rw [hs] at hm'
      by_cases hkey : key' = key
      · subst hkey
        rw [Function.update_self] at hm'
        obtain rfl := Option.some.inj hm'
        refine ⟨hid, ?_, by simp [Attempts.lastTry]⟩
        -- the counter is one byte, and the limit keeps it below 128
        have hnext : Int.bmod (m.sent + 1) 256 = m.sent + 1 :=
          Int.bmod_eq_of_le (by omega) (by omega)
        dsimp only
        rw [hnext, hcount]
        simp [Attempts.tries]
      · rw [Function.update_of_ne hkey] at hm'
        simpa [Attempts.tries, Attempts.lastTry, Ne.symm hkey] using h.kept key' m' hm'
    case often =>
      intro key'
      by_cases hkey : key = key'
      · subst hkey
        simp only [Attempts.tries, if_true]
        omega
      · simpa [Attempts.tries, hkey] using h.often key'
    case spaced =>
      refine ⟨fun t ht => ?_, h.spaced⟩
      have hlater := hlast t ht
      omega
  · rw [if_neg (by simp [hdue])]
    exact h.of_dbList hs

/-- The cursor comes to all records. -/
theorem Law.handLoop : ∀ {keys : List Text} {i : Int} {s : TrigerStore pAlias}
    {log : List (Attempts.Event Text)}, Law conf s log →
      Law conf (handLoop conf tNow keys i s).1
        ((handLoop conf tNow keys i s).2.reverse.map (tried · tNow) ++ log)
  | [], _, _, _, h => h
  | key :: keys, i, s, log, h => by
      have hone : Law conf (s.hand conf.toTrigerConf tNow key)
          (if due conf tNow s key then tried key tNow :: log else log) := h.hand
      simp only [HandOut.handLoop]
      split_ifs at hone ⊢
      · exact hone
      · simpa using Law.handLoop hone
      · exact hone
      · exact Law.handLoop hone

/-- A record that is entered is new to the log. -/
theorem Law.entered {s' : TrigerStore pAlias} {m : Triger} (h : Law conf s log)
    (hid : key.length = 12) (hnew : m.sent = 0)
    (hs : s'.dbList = Function.update s.dbList key (some m)) :
    Law conf s' (entered key :: log) where
  kept key' m' hm := by
    rw [hs] at hm
    by_cases hkey : key' = key
    · subst hkey
      rw [Function.update_self] at hm
      obtain rfl := Option.some.inj hm
      simp [hid, hnew, Attempts.tries, Attempts.lastTry]
    · rw [Function.update_of_ne hkey] at hm
      simpa [Attempts.tries, Attempts.lastTry, Ne.symm hkey] using h.kept key' m' hm
  often key' := by
    have hrange := conf.range
    by_cases hkey : key = key'
    · simp [Attempts.tries, hkey]
      omega
    · simpa [Attempts.tries, hkey] using h.often key'
  spaced := h.spaced

/-- A failure brings a record forward, and the log forgets when it was handed out. -/
theorem Law.failed {s' : TrigerStore pAlias} (h : Law conf s log)
    (hs : ∀ m, s'.dbList key = some m → ∃ m', s.dbList key = some m' ∧ m.sent = m'.sent)
    (hother : ∀ key', key' ≠ key → s'.dbList key' = s.dbList key') :
    Law conf s' (failed key :: log) where
  kept key' m hm := by
    by_cases hkey : key' = key
    · subst hkey
      obtain ⟨m', hm', hsent⟩ := hs m hm
      obtain ⟨hid, hcount, -⟩ := h.kept key' m' hm'
      exact ⟨hid, hsent.trans hcount, by simp [Attempts.lastTry]⟩
    · rw [hother key' hkey] at hm
      simpa [Attempts.tries, Attempts.lastTry, Ne.symm hkey] using h.kept key' m hm
  often := h.often
  spaced := h.spaced

end

/-! ### All of them -/

section
variable {conf : HandConf} {s : Desk pAlias}

theorem Law.post {nID : Int × Int × Int} {tTime : Int} {sMail : Text} {p : Posted}
    (h : Law conf s.store s.log) :
    Law conf (s.post nID tTime sMail p).store (s.post nID tTime sMail p).log := by
  rw [Desk.post]
  split
  next htaken =>
    dsimp only
    rwa [TrigerStore.post, if_pos htaken]
  next hfree =>
    refine h.entered (m := ⟨0, none, tTime, sMail.take 99⟩) (by simp [postKey]) rfl ?_
    rw [TrigerStore.post, if_neg hfree]

/-- What a report does to the records. -/
theorem report_cases (conf : TrigerConf) (s : TrigerStore pAlias) (r : Deliver.Record)
    (cStat : Option MailStat) :
    ((secondNumber r.id < 1000000000 ∨ reportStat r = .success) ∧
      ((s.report conf r cStat).dbList = s.dbList ∨
        (s.report conf r cStat).dbList = Function.update s.dbList r.id none)) ∨
    (¬ (secondNumber r.id < 1000000000 ∨ reportStat r = .success) ∧
      (∀ m, (s.report conf r cStat).dbList r.id = some m →
        ∃ m', s.dbList r.id = some m' ∧ m.sent = m'.sent) ∧
      ∀ key, key ≠ r.id → (s.report conf r cStat).dbList key = s.dbList key) := by
  rw [TrigerStore.report]
  by_cases htask : secondNumber r.id < 1000000000
  · rw [if_pos htask]
    exact .inl ⟨.inl htask, .inl rfl⟩
  rw [if_neg htask]
  cases hm : s.dbList r.id with
  | none =>
      have hsame : ((s.told r.id (reportStat r)).changeMailboxStatTriger conf r.id (reportStat r)
          cStat).2.dbList = s.dbList := by
        simp [TrigerStore.changeMailboxStatTriger, TrigerStore.told, hm]
      by_cases hsuccess : reportStat r = .success
      · exact .inl ⟨.inr hsuccess, .inl hsame⟩
      · refine .inr ⟨by simp only [htask, hsuccess, or_self, not_false_eq_true], ?_, ?_⟩
        · intro m hm'
          have hnew := (congrFun hsame r.id).symm.trans hm'
          rw [hm] at hnew
          cases hnew
        · exact fun key _ => congrFun hsame key
  | some m =>
      have hchange : ((s.told r.id (reportStat r)).changeMailboxStatTriger conf r.id (reportStat r)
          cStat).2.dbList = Function.update s.dbList r.id (if reportStat r = .success then none else
            some { m with
              stat := some (reportStat r)
              time := m.time - conf.nTrigerRetryPeriod }) := by
        simp [TrigerStore.changeMailboxStatTriger, TrigerStore.told, hm]
      by_cases hsuccess : reportStat r = .success
      · rw [if_pos hsuccess] at hchange
        exact .inl ⟨.inr hsuccess, .inr hchange⟩
      · rw [if_neg hsuccess] at hchange
        refine .inr ⟨by simp only [htask, hsuccess, or_self, not_false_eq_true], ?_, ?_⟩
        · intro m' hm'
          have hnew := (congrFun hchange r.id).symm.trans hm'
          rw [Function.update_self] at hnew
          obtain rfl := Option.some.inj hnew
          exact ⟨m, rfl, rfl⟩
        · exact fun key hkey => (congrFun hchange key).trans (Function.update_of_ne hkey _ _)

theorem Law.report {r : Deliver.Record} {cStat : Option MailStat} (h : Law conf s.store s.log) :
    Law conf (s.report conf r cStat).store (s.report conf r cStat).log := by
  obtain ⟨hkind, hs⟩ | ⟨hkind, hs, hother⟩ := report_cases conf.toTrigerConf s.store r cStat
  · simp only [Desk.report, if_pos hkind]
    exact h.of_dbList hs
  · simp only [Desk.report, if_neg hkind]
    exact h.failed hs hother

theorem Law.step {act : Act} (h : Law conf s.store s.log) :
    Law conf (s.step conf act).store (s.step conf act).log := by
  cases act with
  | post nID tTime sMail p => exact h.post
  | request tNow cursor tasks => exact h.handLoop
  | report r cStat => exact h.report

theorem Law.limits {log : List (Attempts.Event Text)} {s : TrigerStore pAlias}
    (h : Law conf s log) : Limits conf log where
  often key a b hlog hentered := by
    have hle : a.countP _ ≤ Attempts.tries key (a ++ b) := Attempts.countP_le_tries hentered
    have hmost := h.often key
    rw [hlog] at hmost
    omega
  apart key t t' a b c hlog hentered hfailed := by
    have hspaced := h.spaced
    rw [hlog] at hspaced
    exact Attempts.apart_of_spaced (Int.le_of_lt conf.period_range.1) hentered hfailed
      hspaced.of_append

/-- The trigger mails of a request have keys of twelve bytes. -/
theorem Law.length_key (h : Law conf s.store s.log) {tNow : Int} {keys : List Text} :
    ∀ key ∈ s.dueMails conf tNow keys, key.length = 12 := by
  intro key hmem
  obtain ⟨m, hm, -⟩ := (Option.any_eq_true _ _).mp
    (List.mem_filter.mp (List.mem_of_mem_take hmem)).2
  exact (h.kept key m hm).1

theorem handed_eq {tNow : Int} {keys : List Text} (hkeys : keys.Nodup) :
    s.handed conf tNow keys = s.dueMails conf tNow keys := by
  rw [Desk.handed, handLoop_snd hkeys conf.deliver_range.1, Int.sub_zero, Desk.dueMails]

/-- A request is answered inside the block exactly when there is room. -/
theorem Law.answer_iff (h : Law conf s.store s.log) (tNow : Int)
    (cursor : { keys : List Text // keys.Nodup }) (tasks : List TaskMail) :
    (∃ a, s.answer conf tNow cursor.1 tasks = some a ∧ Counted a.message) ↔
      Fits conf s (.request tNow cursor tasks) := by
  rw [Desk.answer, handed_eq cursor.2, Fits]
  constructor
  · rintro ⟨a, hput, -⟩
    obtain ⟨b, hb, hput⟩ := Option.bind_eq_some_iff.mp hput
    obtain ⟨hsound, hsizes⟩ := Sound.empty.putTasks hb
    have hsizes : tasks.foldl taskSize (10240, 17) = (b.nResultSize, b.nResultLeng) := hsizes.symm
    rw [hsizes]
    refine ⟨hsound.small, (hsound.putTrigers h.length_key).mp ⟨a, hput, ?_⟩⟩
    exact hsound.of_putTrigers h.length_key hput
  · rintro ⟨hsize, hroom⟩
    obtain ⟨b, hb⟩ := exists_putTasks Sound.empty hsize
    obtain ⟨hsound, hsizes⟩ := Sound.empty.putTasks hb
    have hsizes : tasks.foldl taskSize (10240, 17) = (b.nResultSize, b.nResultLeng) := hsizes.symm
    rw [hsizes] at hroom
    obtain ⟨a, hput, ha⟩ := (hsound.putTrigers h.length_key).mpr hroom
    exact ⟨a, by rw [hb, Option.bind_some, hput], ha.counted⟩

theorem Law.right_iff_fits {act : Act} (h : Law conf s.store s.log) :
    Right conf s act ↔ Fits conf s act := by
  have hlimits : Limits conf (s.step conf act).log := h.step.limits
  cases act with
  | post | report => exact iff_of_true ⟨hlimits, trivial⟩ trivial
  | request tNow cursor tasks =>
      have hmany : ((s.handed conf tNow cursor.1).length : Int) ≤ conf.nTrigerDeliverNum := by
        have hrange := conf.deliver_range
        have htake := List.length_take_le conf.nTrigerDeliverNum.toNat
          (cursor.1.filter (due conf tNow s.store))
        rw [handed_eq cursor.2, Desk.dueMails]
        omega
      rw [← h.answer_iff]
      exact ⟨fun hright => hright.2.2, fun hanswer => ⟨hlimits, hmany, hanswer⟩⟩

end

/-- In every run the limits are kept, and every answer is right, exactly when each record has room
where it is put. -/
theorem limits_iff (conf : HandConf) (acts : List Act) :
    (∀ p ∈ visits (Desk.step conf) (start : Desk pAlias) acts, Right conf p.1 p.2) ↔
      ∀ p ∈ visits (Desk.step conf) (start : Desk pAlias) acts, Fits conf p.1 p.2 :=
  forall_visits_iff_of_invariant (I := fun s => Law conf s.store s.log)
    (P := Right conf) (Q := Fits conf)
    (fun _ _ h => h.right_iff_fits) (fun _ _ h _ => h.step) .start

def handConf : HandConf where
  toTrigerConf := trigerConf
  nTrigerDeliverNum := 3
  deliver_range := by decide
  period_range := by decide

/-- A mail with 10208 bytes of variables. -/
def bulky : Posted := ⟨List.replicate 10208 'a', [], by rw [List.length_replicate]; decide⟩

/-- The mail with these variables is posted. -/
def desk : Desk sampleAlias := start.post (1, 0, 5) 0 "a@b.c".toList bulky

theorem desk_bulky : desk.posted sampleID = bulky := by
  have hpost : desk.posted = Function.update start.posted sampleID bulky := rfl
  rw [hpost, Function.update_self]

/-- It has no room in an answer. -/
theorem bulky_overflows : ¬ ∀ p ∈ visits (Desk.step handConf) (start : Desk sampleAlias)
    [.post (1, 0, 5) 0 "a@b.c".toList bulky, .request 0 ⟨[sampleID], by simp⟩ []],
      Right handConf p.1 p.2 := by
  intro h
  have hlaw : Law handConf desk.store desk.log := Law.post .start
  obtain ⟨-, -, hanswer⟩ := h (desk, .request 0 ⟨[sampleID], by simp⟩ [])
    (.tail _ (.head _))
  obtain ⟨-, hroom⟩ := (hlaw.answer_iff 0 ⟨[sampleID], by simp⟩ []).mp hanswer
  have hdue : desk.dueMails handConf 0 [sampleID] = [sampleID] := by decide +kernel
  rw [hdue, List.map_singleton, desk_bulky, bulky, List.length_replicate] at hroom
  exact absurd hroom.2.1 (by decide)

end Edm.Maillist.HandOut
