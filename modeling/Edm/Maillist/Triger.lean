import Edm.Deliver.Report
import Edm.Maillist.Statistics
import Edm.Support.First

/-!
# Maillist — Triger

Trigger mails: single mails that are submitted one by one, outside the tasks.  `dbList` keeps them
until they are a success or have been handed out `nTrigerRetryTime` times; `dbNumber` keeps four
counters for every counter key and domain.

The counters should count mails (`TrigerStore.Tallied`).  But the daemon counts a report also when
`ChangeMailboxStatTriger` did not find its mail; then the old status, `cStat`, has no value.  A
report of a mail that was not handed out is counted as well, and one that names a mailbox of another
domain is counted there.  `tallied_run` says that the counters are right in every run in which no
report is of one of these kinds.
-/

namespace Edm.Maillist
open Support

/-! ### What a report says -/

/-- `sReturn`: the text of a report, up to 199 bytes of its first line. -/
def sReturn (text : Text) : Text :=
  if (text.take 199).contains '\r' then (cut '\r' (text.take 199)).1
  else (cut '\n' (text.take 199)).1

/-- What servers say about a mailbox they do not have. -/
def notFoundTexts : List Text :=
  ["user doesn".toList, "not exist".toList, " unknown".toList, "not found".toList,
    "such user".toList, "nvalid recipient".toList, " Unknown".toList, "unavailable".toList,
    "is disable".toList, "ddress rejected".toList, "such recipient".toList, "no mailbox".toList,
    "ccess denied".toList]

/-- `nStat` of a report that is not a success; `base` is that of its letter. -/
def failedStat (base : MailStat) (sReturn : Text) : MailStat :=
  if !occursIn "Domain not exist".toList sReturn && notFoundTexts.any (occursIn · sReturn) then
    if occursIn ":5".toList sReturn then .notFound else base
  else if occursIn "step 1--".toList sReturn || occursIn "Domain not exist".toList sReturn then .dns
  else if occursIn "Spam".toList sReturn || occursIn "spam".toList sReturn then .spam
  else base

/-- `nStat` of a report. -/
def reportStat (r : Deliver.Record) : MailStat :=
  if r.letter = 's' then .success
  else failedStat (if r.letter = 'd' then .delay else .fail) (sReturn r.text)

/-- The second number of a task or a trigger mail. -/
def secondNumber (sID : Text) : Nat := Deliver.toUnsigned (ofBe32 (sID.drop 4))

/-! ### The databases -/

/-- A record of `dbList`. -/
structure Triger where
  sent : Int
  stat : Option MailStat
  time : Int
  mailbox : Text

/-- The counters `n[0]` to `n[3]` of a domain. -/
structure Counts where
  success : Int
  delay : Int
  fail : Int
  sent : Int
  deriving DecidableEq

/-- The settings of the trigger mails; `ReadConf` takes no other number of tries. -/
structure TrigerConf where
  nTrigerRetryTime : Int
  nTrigerRetryPeriod : Int
  range : 0 < nTrigerRetryTime ∧ nTrigerRetryTime < 60

/-- A mail that was submitted, with what it is later told about. -/
structure Submitted (pAlias : DomainAlias) where
  sID : Text
  nWhich : Fin (pAlias.nDomainNum + 1)
  latest : Option MailStat
  handed : Bool

/-- The two databases.  `mails` only remembers: the mails that were submitted, the last one
first. -/
structure TrigerStore (pAlias : DomainAlias) where
  dbList : Text → Option Triger
  dbNumber : Text → Option (Fin (pAlias.nDomainNum + 1) → Counts)
  mails : List (Submitted pAlias)

inductive TrigerAct where
  /-- A mail with these numbers is posted. -/
  | post (nID : Int × Int × Int) (tTime : Int) (sMail : Text)
  /-- The cursor of a request for mails comes to a record. -/
  | hand (tNow : Int) (sID : Text)
  /-- A record of a report; `cStat` is what the variable holds before. -/
  | report (r : Deliver.Record) (cStat : Option MailStat)

/-- The number of a mail's domain. -/
def DomainAlias.whichMailbox (p : DomainAlias) (s : Text) : Fin (p.nDomainNum + 1) :=
  if s.contains '@' then p.which (cut '@' s).2 else Fin.last p.nDomainNum

/-- The key of the counters of a mail. -/
def numberKey (sID : Text) : Text := sID.take 8 ++ sID.take 4

/-- The key of a mail that is posted. -/
def postKey (nID : Int × Int × Int) : Text :=
  be32 nID.1 ++ be32 (nID.2.1 + 1000000000) ++ be32 nID.2.2

namespace Counts

def zero : Counts := ⟨0, 0, 0, 0⟩

/-- A status is counted. -/
def count (n : Counts) : MailStat → Counts
  | .success => { n with success := int32 (n.success + 1) }
  | .delay | .dns => { n with delay := int32 (n.delay + 1) }
  | .fail | .notFound | .spam => { n with fail := int32 (n.fail + 1) }

/-- The old status is no longer counted. -/
def uncount (n : Counts) : Option MailStat → Counts
  | some .delay | some .dns => if 0 < n.delay then { n with delay := n.delay - 1 } else n
  | some .fail | some .notFound | some .spam =>
      if 0 < n.fail then { n with fail := n.fail - 1 } else n
  | some .success | none => n

def hand (n : Counts) : Counts := { n with sent := int32 (n.sent + 1) }

end Counts

namespace TrigerStore
variable {pAlias : DomainAlias} (conf : TrigerConf) (s : TrigerStore pAlias)

/-- The counters of a key and a domain. -/
def counts (key : Text) (nWhich : Fin (pAlias.nDomainNum + 1)) : Counts :=
  match s.dbNumber key with
  | some n => n nWhich
  | none => .zero

/-- The counters of a domain change by `f` if the key has counters; else they are made from
`new`. -/
def number (key : Text) (nWhich : Fin (pAlias.nDomainNum + 1)) (f : Counts → Counts)
    (new : Counts) : TrigerStore pAlias :=
  { s with dbNumber := Function.update s.dbNumber key (some (match s.dbNumber key with
      | some n => Function.update n nWhich (f (n nWhich))
      | none => Function.update (fun _ => .zero) nWhich new)) }

/-- The branch `D_PostPackage`, when the text has all parts.  The mailbox has 100 bytes. -/
def post (nID : Int × Int × Int) (tTime : Int) (sMail : Text) : TrigerStore pAlias :=
  if nID.1 = 0 ∨ (s.dbList (postKey nID)).isSome then s
  else
    { s with
      dbList := Function.update s.dbList (postKey nID) (some ⟨0, none, tTime, sMail.take 99⟩)
      mails := ⟨postKey nID, pAlias.whichMailbox sMail, none, false⟩ :: s.mails }

/-- A mail is sent to a delivery engine. -/
def send (tNow : Int) (sID : Text) (m : Triger) : TrigerStore pAlias :=
  { s with
    dbList := Function.update s.dbList sID (some { m with
      sent := Int.bmod (m.sent + 1) 256
      time := tNow + conf.nTrigerRetryPeriod })
    mails := modifyFirst (fun a => a.sID == sID) (fun a => { a with handed := true }) s.mails }

/-- The loop of command 1 over the trigger mails, at one of them. -/
def hand (tNow : Int) (sID : Text) : TrigerStore pAlias :=
  match s.dbList sID with
  | none => s
  | some m =>
      if m.time ≤ tNow ∧ m.sent < conf.nTrigerRetryTime then
        if m.sent = 0 then
          (s.send conf tNow sID m).number (numberKey sID) (pAlias.whichMailbox m.mailbox)
            Counts.hand (Counts.hand .zero)
        else s.send conf tNow sID m
      else if m.time ≤ tNow then { s with dbList := Function.update s.dbList sID none }
      else s

/-- `ChangeMailboxStatTriger`: `cStat` behind the call, and the databases. -/
def changeMailboxStatTriger (sID : Text) (nStat : MailStat) (cStat : Option MailStat) :
    Option MailStat × TrigerStore pAlias :=
  match s.dbList sID with
  | none => (cStat, s)
  | some m =>
      (m.stat, { s with dbList := Function.update s.dbList sID (if nStat = .success then none else
        some { m with stat := some nStat, time := m.time - conf.nTrigerRetryPeriod }) })

/-- The newest mail with a number gets a report. -/
def told (sID : Text) (nStat : MailStat) : TrigerStore pAlias :=
  { s with mails :=
      modifyFirst (fun a => a.sID == sID) (fun a => { a with latest := some nStat }) s.mails }

/-- A record of command 3; those of tasks are not for these databases. -/
def report (r : Deliver.Record) (cStat : Option MailStat) : TrigerStore pAlias :=
  if secondNumber r.id < 1000000000 then s.told r.id (reportStat r)
  else
    let change :=
      (s.told r.id (reportStat r)).changeMailboxStatTriger conf r.id (reportStat r) cStat
    change.2.number (numberKey r.id) (pAlias.whichMailbox r.mail)
      (fun n => (n.count (reportStat r)).uncount change.1) (Counts.zero.count (reportStat r))

def step : TrigerAct → TrigerStore pAlias
  | .post nID tTime sMail => s.post nID tTime sMail
  | .hand tNow sID => s.hand conf tNow sID
  | .report r cStat => s.report conf r cStat

/-- Nothing has been submitted, and nothing counted. -/
def empty : TrigerStore pAlias := ⟨fun _ => none, fun _ => none, []⟩

end TrigerStore

/-! ### What the counters should say -/

/-- The mail is counted under the key, in the domain. -/
def Submitted.under {pAlias : DomainAlias} (m : Submitted pAlias) (key : Text)
    (nWhich : Fin (pAlias.nDomainNum + 1)) : Bool :=
  numberKey m.sID == key && m.nWhich == nWhich

namespace TrigerStore
variable {pAlias : DomainAlias} (conf : TrigerConf) (s : TrigerStore pAlias)

/-- The number of mails under a key and in a domain that meet `p`. -/
def mailsWith (key : Text) (nWhich : Fin (pAlias.nDomainNum + 1))
    (p : Submitted pAlias → Bool) : Int :=
  s.mails.countP fun m => m.under key nWhich && p m

/-- The number of mails whose latest status is one of `c`. -/
def mailsAt (key : Text) (nWhich : Fin (pAlias.nDomainNum + 1)) (c : List MailStat) : Int :=
  s.mailsWith key nWhich fun m => ofStat c m.latest

/-- The counters count mails. -/
structure Tallied : Prop where
  success : ∀ key nWhich, (s.counts key nWhich).success = s.mailsAt key nWhich [.success]
  delay : ∀ key nWhich, (s.counts key nWhich).delay = s.mailsAt key nWhich [.delay, .dns]
  fail : ∀ key nWhich, (s.counts key nWhich).fail = s.mailsAt key nWhich [.fail, .notFound, .spam]
  sent : ∀ key nWhich, (s.counts key nWhich).sent = s.mailsWith key nWhich fun m => m.handed
  bounded : ∀ key nWhich, (s.counts key nWhich).success + (s.counts key nWhich).delay
    + (s.counts key nWhich).fail ≤ (s.counts key nWhich).sent

/-- A mail that is posted has its domain in the first 99 bytes of its mailbox; a counter is not at
its end when a mail is handed out; a report is of a mail that is kept and was handed out, and names
a mailbox of its domain. -/
def careful : TrigerAct → Bool
  | .post nID _ sMail => nID.1 == 0 || (s.dbList (postKey nID)).isSome ||
      pAlias.whichMailbox (sMail.take 99) == pAlias.whichMailbox sMail
  | .hand _ sID =>
      match s.dbList sID with
      | none => true
      | some m => m.sent != 0 ||
          decide ((s.counts (numberKey sID) (pAlias.whichMailbox m.mailbox)).sent + 2 < 2 ^ 31)
  | .report r _ =>
      if secondNumber r.id < 1000000000 then s.mails.all fun m => m.sID != r.id
      else
        match s.dbList r.id with
        | none => false
        | some m => m.sent != 0 && pAlias.whichMailbox m.mailbox == pAlias.whichMailbox r.mail

/-! ### The law -/

/-- What holds after careful steps. -/
structure Law (s : TrigerStore pAlias) : Prop where
  stored : ∀ sID m, s.dbList sID = some m → s.mails.find? (fun a => a.sID == sID)
      = some ⟨sID, pAlias.whichMailbox m.mailbox, m.stat, m.sent != 0⟩ ∧
    m.stat ≠ some .success ∧ 0 ≤ m.sent ∧ m.sent < 60
  handed : ∀ m ∈ s.mails, m.latest ≠ none → m.handed = true
  success : ∀ key nWhich, (s.counts key nWhich).success = s.mailsAt key nWhich [.success]
  delay : ∀ key nWhich, (s.counts key nWhich).delay = s.mailsAt key nWhich [.delay, .dns]
  fail : ∀ key nWhich, (s.counts key nWhich).fail = s.mailsAt key nWhich [.fail, .notFound, .spam]
  sent : ∀ key nWhich, (s.counts key nWhich).sent = s.mailsWith key nWhich fun m => m.handed
  room : ∀ key nWhich, (s.counts key nWhich).sent + 1 < 2 ^ 31

variable {conf s}

theorem Law.empty : (empty : TrigerStore pAlias).Law where
  stored sID m h := by cases h
  handed m h := by cases h
  success _ _ := rfl
  delay _ _ := rfl
  fail _ _ := rfl
  sent _ _ := rfl
  room key nWhich := show (0 : Int) + 1 < 2 ^ 31 by decide

theorem ofStat_le_handed {x : Option MailStat} {handed : Bool} (h : x ≠ none → handed = true) :
    (if ofStat [.success] x then 1 else 0) + (if ofStat [.delay, .dns] x then 1 else 0)
      + (if ofStat [.fail, .notFound, .spam] x then 1 else 0) ≤ if handed then 1 else 0 := by
  rcases x with - | (- | - | - | - | - | -)
  · exact Nat.zero_le _
  all_goals
    rw [h (by simp)]
    decide

/-- A mail has one latest status, and was handed out if it has any. -/
theorem countP_le_handed {p : Submitted pAlias → Bool} : ∀ {mails : List (Submitted pAlias)},
    (∀ m ∈ mails, m.latest ≠ none → m.handed = true) →
      mails.countP (fun m => p m && ofStat [.success] m.latest)
        + mails.countP (fun m => p m && ofStat [.delay, .dns] m.latest)
        + mails.countP (fun m => p m && ofStat [.fail, .notFound, .spam] m.latest)
          ≤ mails.countP fun m => p m && m.handed
  | [], _ => Nat.le_refl _
  | m :: mails, h => by
      obtain ⟨hm, hrest⟩ := List.forall_mem_cons.mp h
      have ih := countP_le_handed (p := p) hrest
      simp only [List.countP_cons]
      cases p m with
      | false =>
        simp only [Bool.false_and, Bool.false_eq_true, if_false, Nat.add_zero]
        exact ih
      | true =>
        have hone := ofStat_le_handed hm
        simp only [Bool.true_and]
        omega

theorem Law.tallied (h : s.Law) : s.Tallied where
  success := h.success
  delay := h.delay
  fail := h.fail
  sent := h.sent
  bounded key nWhich := by
    rw [h.success, h.delay, h.fail, h.sent, mailsAt, mailsAt, mailsAt, mailsWith, mailsWith,
      mailsWith, mailsWith]
    exact_mod_cast countP_le_handed h.handed

/-! ### Counters -/

theorem counts_number_of_ne {key key' : Text} {nWhich nWhich' : Fin (pAlias.nDomainNum + 1)}
    {f : Counts → Counts} {new : Counts} (h : ¬(key' = key ∧ nWhich' = nWhich)) :
    (s.number key nWhich f new).counts key' nWhich' = s.counts key' nWhich' := by
  by_cases hkey : key' = key
  · subst hkey
    have hw : nWhich' ≠ nWhich := fun hw => h ⟨rfl, hw⟩
    simp only [counts, number, Function.update_self]
    cases s.dbNumber key' with
    | none => exact Function.update_of_ne hw _ _
    | some n => exact Function.update_of_ne hw _ _
  · simp only [counts, number, Function.update_of_ne hkey]

/-- The new counters are as if the old ones had been there. -/
theorem counts_number {key : Text} {nWhich : Fin (pAlias.nDomainNum + 1)} {f : Counts → Counts}
    {new : Counts} (h : s.counts key nWhich = .zero → f .zero = new) :
    (s.number key nWhich f new).counts key nWhich = f (s.counts key nWhich) := by
  simp only [counts, number, Function.update_self] at h ⊢
  cases hn : s.dbNumber key with
  | none =>
    rw [hn] at h
    exact (Function.update_self _ _ _).trans (h rfl).symm
  | some n => exact Function.update_self _ _ _

/-- How the counters of a domain move with a report of a mail that is not a success. -/
structure Moved (nStat : MailStat) (old : Option MailStat) (n n' : Counts) : Prop where
  success : n'.success = n.success - weight [.success] old + weight [.success] (some nStat)
  delay : n'.delay = n.delay - weight [.delay, .dns] old + weight [.delay, .dns] (some nStat)
  fail : n'.fail
    = n.fail - weight [.fail, .notFound, .spam] old + weight [.fail, .notFound, .spam] (some nStat)
  sent : n'.sent = n.sent

theorem weight_nonneg (c : List MailStat) (x : Option MailStat) : 0 ≤ weight c x := by
  rw [weight]
  split <;> decide

theorem weight_success_eq_zero {x : Option MailStat} (h : x ≠ some .success) :
    weight [.success] x = 0 := by
  rcases x with - | (- | - | - | - | - | -)
  all_goals first | rfl | exact absurd rfl h

/-- A status is counted once. -/
theorem count_moved {n : Counts} {nStat : MailStat} (hs : 0 ≤ n.success)
    (hs' : n.success + 1 < 2 ^ 31) (hd : 0 ≤ n.delay) (hd' : n.delay + 1 < 2 ^ 31)
    (hf : 0 ≤ n.fail) (hf' : n.fail + 1 < 2 ^ 31) : Moved nStat none n (n.count nStat) := by
  have hs₁ : int32 (n.success + 1) = n.success + 1 := int32_of_range (by omega) hs'
  have hd₁ : int32 (n.delay + 1) = n.delay + 1 := int32_of_range (by omega) hd'
  have hf₁ : int32 (n.fail + 1) = n.fail + 1 := int32_of_range (by omega) hf'
  cases nStat <;> constructor <;> simp [Counts.count, weight, ofStat, hs₁, hd₁, hf₁]

/-- The old status is taken out once. -/
theorem uncount_moved {n : Counts} {old : Option MailStat} (hne : old ≠ some .success)
    (hd : weight [.delay, .dns] old ≤ n.delay)
    (hf : weight [.fail, .notFound, .spam] old ≤ n.fail) :
    (n.uncount old).success = n.success ∧
      (n.uncount old).delay = n.delay - weight [.delay, .dns] old ∧
        (n.uncount old).fail = n.fail - weight [.fail, .notFound, .spam] old ∧
          (n.uncount old).sent = n.sent := by
  rcases old with - | (- | - | - | - | - | -)
  case none => exact ⟨rfl, (Int.sub_zero _).symm, (Int.sub_zero _).symm, rfl⟩
  case some.success => exact absurd rfl hne
  case some.delay | some.dns =>
    have hpos : 0 < n.delay := hd
    rw [Counts.uncount, if_pos hpos]
    exact ⟨rfl, rfl, (Int.sub_zero _).symm, rfl⟩
  case some.fail | some.notFound | some.spam =>
    have hpos : 0 < n.fail := hf
    rw [Counts.uncount, if_pos hpos]
    exact ⟨rfl, (Int.sub_zero _).symm, rfl, rfl⟩

theorem moved_count {n : Counts} {nStat : MailStat} {old : Option MailStat}
    (hs : 0 ≤ n.success ∧ n.success + 1 < 2 ^ 31) (hd : 0 ≤ n.delay ∧ n.delay + 1 < 2 ^ 31)
    (hf : 0 ≤ n.fail ∧ n.fail + 1 < 2 ^ 31) (hne : old ≠ some .success)
    (hdold : weight [.delay, .dns] old ≤ n.delay)
    (hfold : weight [.fail, .notFound, .spam] old ≤ n.fail) :
    Moved nStat old n ((n.count nStat).uncount old) := by
  have hnew : Moved nStat none n (n.count nStat) := count_moved hs.1 hs.2 hd.1 hd.2 hf.1 hf.2
  have hd₀ := weight_nonneg [.delay, .dns] (some nStat)
  have hf₀ := weight_nonneg [.fail, .notFound, .spam] (some nStat)
  have hnone : ∀ c, weight c none = 0 := fun _ => rfl
  have hdn := hnew.delay
  have hfn := hnew.fail
  rw [hnone] at hdn hfn
  obtain ⟨h₁, h₂, h₃, h₄⟩ := uncount_moved hne (n := n.count nStat) (by omega) (by omega)
  refine ⟨?_, ?_, ?_, h₄.trans hnew.sent⟩
  · rw [h₁, hnew.success, hnone, weight_success_eq_zero hne]
  · omega
  · omega

/-! ### The mails -/

/-- A count moves with the newest mail of a number. -/
theorem mailsWith_modify {u : TrigerStore pAlias} {sID : Text} {a : Submitted pAlias}
    {f : Submitted pAlias → Submitted pAlias}
    (hs : u.mails = modifyFirst (fun a => a.sID == sID) f s.mails)
    (ha : s.mails.find? (fun a => a.sID == sID) = some a)
    (hf : (f a).sID = a.sID ∧ (f a).nWhich = a.nWhich) (key : Text)
    (nWhich : Fin (pAlias.nDomainNum + 1)) (p : Submitted pAlias → Bool) :
    u.mailsWith key nWhich p = s.mailsWith key nWhich p
      - (if a.under key nWhich && p a then 1 else 0)
      + (if a.under key nWhich && p (f a) then 1 else 0) := by
  have hcount : u.mails.countP (fun m => m.under key nWhich && p m)
      + (if a.under key nWhich && p a then 1 else 0)
        = s.mails.countP (fun m => m.under key nWhich && p m)
          + if (f a).under key nWhich && p (f a) then 1 else 0 := by
    rw [hs]
    exact countP_modifyFirst ha
  have hunder : (f a).under key nWhich = a.under key nWhich := by
    rw [Submitted.under, Submitted.under, hf.1, hf.2]
  rw [hunder] at hcount
  simp only [mailsWith]
  split_ifs at hcount ⊢ <;> omega

/-- The newest mail of another number stays. -/
theorem find?_modify_of_ne {sID sID' : Text} {f : Submitted pAlias → Submitted pAlias}
    (hne : sID' ≠ sID) (hf : ∀ a, (f a).sID = a.sID) :
    (modifyFirst (fun a => a.sID == sID) f s.mails).find? (fun a => a.sID == sID')
      = s.mails.find? fun a => a.sID == sID' := by
  refine find?_modifyFirst_of_ne (fun a ha => ?_) s.mails
  have ha' : a.sID = sID := beq_iff_eq.mp ha
  have hother : (a.sID == sID') = false := by
    rw [ha']
    exact beq_eq_false_iff_ne.mpr hne.symm
  exact ⟨hother, by rwa [hf a]⟩

theorem mailsWith_cons {s' : TrigerStore pAlias} {a : Submitted pAlias}
    {p : Submitted pAlias → Bool} (hs : s'.mails = a :: s.mails) (hp : p a = false) (key : Text)
    (nWhich : Fin (pAlias.nDomainNum + 1)) :
    s'.mailsWith key nWhich p = s.mailsWith key nWhich p := by
  simp only [mailsWith, hs]
  rw [List.countP_cons_of_neg (by simp [hp])]

/-- The counters of a mail's domain are not zero when the mail was handed out. -/
theorem Law.sent_pos {a : Submitted pAlias} (h : s.Law) (ha : a ∈ s.mails)
    (hhanded : a.handed = true) : 0 < (s.counts (numberKey a.sID) a.nWhich).sent := by
  rw [h.sent, mailsWith]
  have hpos : 0 < s.mails.countP
      fun m => m.under (numberKey a.sID) a.nWhich && m.handed :=
    List.countP_pos_iff.mpr ⟨a, ha, by simp [Submitted.under, hhanded]⟩
  exact_mod_cast hpos

/-- A counter of statuses is between zero and the number of mails handed out. -/
theorem Law.at_range (h : s.Law) (key : Text) (nWhich : Fin (pAlias.nDomainNum + 1)) :
    (0 ≤ (s.counts key nWhich).success ∧ (s.counts key nWhich).success + 1 < 2 ^ 31) ∧
      (0 ≤ (s.counts key nWhich).delay ∧ (s.counts key nWhich).delay + 1 < 2 ^ 31) ∧
        (0 ≤ (s.counts key nWhich).fail ∧ (s.counts key nWhich).fail + 1 < 2 ^ 31) := by
  have hbound := h.tallied.bounded key nWhich
  have hroom := h.room key nWhich
  have hs : 0 ≤ (s.counts key nWhich).success := by
    rw [h.success]
    exact Int.natCast_nonneg _
  have hd : 0 ≤ (s.counts key nWhich).delay := by
    rw [h.delay]
    exact Int.natCast_nonneg _
  have hf : 0 ≤ (s.counts key nWhich).fail := by
    rw [h.fail]
    exact Int.natCast_nonneg _
  omega

/-- The mails at a status include the newest of a number. -/
theorem weight_le_mailsAt {a : Submitted pAlias} (ha : a ∈ s.mails) (c : List MailStat) :
    weight c a.latest ≤ s.mailsAt (numberKey a.sID) a.nWhich c := by
  rw [weight, mailsAt, mailsWith]
  split
  next hc =>
    have hpos : 0 < s.mails.countP
        fun m => m.under (numberKey a.sID) a.nWhich && ofStat c m.latest :=
      List.countP_pos_iff.mpr ⟨a, ha, by simp [Submitted.under, hc]⟩
    exact_mod_cast hpos
  next => exact Int.natCast_nonneg _

/-! ### The steps -/

theorem Law.post {nID : Int × Int × Int} {tTime : Int} {sMail : Text} (h : s.Law)
    (hc : s.careful (.post nID tTime sMail) = true) : (s.post nID tTime sMail).Law := by
  unfold TrigerStore.post
  split
  · exact h
  · rename_i hnew
    obtain ⟨hn, hfree⟩ := not_or.mp hnew
    have hdomain : pAlias.whichMailbox (sMail.take 99) = pAlias.whichMailbox sMail := by
      simpa [careful, hn, hfree] using hc
    constructor
    case stored =>
      intro sID m hm
      dsimp only at hm ⊢
      by_cases hsID : sID = postKey nID
      · subst hsID
        rw [Function.update_self] at hm
        cases hm
        refine ⟨?_, by simp, by simp, by simp⟩
        rw [List.find?_cons_of_pos (by simp), hdomain]
        rfl
      · rw [Function.update_of_ne hsID] at hm
        obtain ⟨hfind, hrest⟩ := h.stored sID m hm
        refine ⟨?_, hrest⟩
        rw [List.find?_cons_of_neg (by simpa using Ne.symm hsID), hfind]
    case handed =>
      intro m hm hlatest
      rcases List.mem_cons.mp hm with rfl | hm
      · exact absurd rfl hlatest
      · exact h.handed m hm hlatest
    case success => exact fun key w => (h.success key w).trans (mailsWith_cons rfl rfl key w).symm
    case delay => exact fun key w => (h.delay key w).trans (mailsWith_cons rfl rfl key w).symm
    case fail => exact fun key w => (h.fail key w).trans (mailsWith_cons rfl rfl key w).symm
    case sent => exact fun key w => (h.sent key w).trans (mailsWith_cons rfl rfl key w).symm
    case room => exact h.room

theorem Law.send_latest {sID : Text} (h : s.Law) :
    ∀ a ∈ modifyFirst (fun a => a.sID == sID) (fun a => { a with handed := true }) s.mails,
      a.latest ≠ none → a.handed = true := by
  intro a ha hlatest
  rcases mem_modifyFirst ha with ha | ⟨b, hb, rfl⟩
  · exact h.handed a ha hlatest
  · rfl

/-- The first time a mail is sent its domain gets one more. -/
theorem Law.first_counts {tNow : Int} {sID : Text} {m : Triger} (h : s.Law) (hfirst : m.sent = 0)
    (hroom : (s.counts (numberKey sID) (pAlias.whichMailbox m.mailbox)).sent + 2 < 2 ^ 31)
    (key : Text) (nWhich : Fin (pAlias.nDomainNum + 1)) :
    ∃ n, ((s.send conf tNow sID m).number (numberKey sID) (pAlias.whichMailbox m.mailbox)
        Counts.hand (Counts.hand .zero)).counts key nWhich = n ∧
      n.success = (s.counts key nWhich).success ∧ n.delay = (s.counts key nWhich).delay ∧
        n.fail = (s.counts key nWhich).fail ∧ n.sent + 1 < 2 ^ 31 ∧
          n.sent = (s.counts key nWhich).sent + if key = numberKey sID ∧
            nWhich = pAlias.whichMailbox m.mailbox ∧ m.sent = 0 then 1 else 0 := by
  refine ⟨_, rfl, ?_⟩
  by_cases hat : key = numberKey sID ∧ nWhich = pAlias.whichMailbox m.mailbox
  · obtain ⟨rfl, rfl⟩ := hat
    have hself : ((s.send conf tNow sID m).number (numberKey sID)
        (pAlias.whichMailbox m.mailbox) Counts.hand (Counts.hand .zero)).counts (numberKey sID)
          (pAlias.whichMailbox m.mailbox)
        = (s.counts (numberKey sID) (pAlias.whichMailbox m.mailbox)).hand :=
      counts_number fun _ => rfl
    have hpos : 0 ≤ (s.counts (numberKey sID) (pAlias.whichMailbox m.mailbox)).sent := by
      rw [h.sent]
      exact Int.natCast_nonneg _
    have hsent : int32 ((s.counts (numberKey sID) (pAlias.whichMailbox m.mailbox)).sent + 1)
        = (s.counts (numberKey sID) (pAlias.whichMailbox m.mailbox)).sent + 1 :=
      int32_of_range (by omega) (by omega)
    rw [hself, if_pos ⟨rfl, rfl, hfirst⟩, Counts.hand, hsent]
    exact ⟨rfl, rfl, rfl, by dsimp only; omega, rfl⟩
  · rw [counts_number_of_ne hat, if_neg fun hc => hat ⟨hc.1, hc.2.1⟩, Int.add_zero]
    exact ⟨rfl, rfl, rfl, h.room key nWhich, rfl⟩

section
variable {tNow : Int} {sID : Text} {m : Triger} (h : s.Law) (hm : s.dbList sID = some m)
include h hm

theorem Law.send_mailsAt {s' : TrigerStore pAlias}
    (hs : s'.mails
      = modifyFirst (fun a => a.sID == sID) (fun a => { a with handed := true }) s.mails)
    (key : Text)
    (nWhich : Fin (pAlias.nDomainNum + 1)) (c : List MailStat) :
    s'.mailsAt key nWhich c = s.mailsAt key nWhich c := by
  rw [mailsAt, mailsWith_modify hs (h.stored sID m hm).1 ⟨rfl, rfl⟩, mailsAt]
  exact Int.sub_add_cancel _ _

theorem Law.send_handed {s' : TrigerStore pAlias}
    (hs : s'.mails
      = modifyFirst (fun a => a.sID == sID) (fun a => { a with handed := true }) s.mails)
    (key : Text)
    (nWhich : Fin (pAlias.nDomainNum + 1)) :
    s'.mailsWith key nWhich (fun a => a.handed) = s.mailsWith key nWhich (fun a => a.handed)
      + if key = numberKey sID ∧ nWhich = pAlias.whichMailbox m.mailbox ∧ m.sent = 0 then 1
        else 0 := by
  rw [mailsWith_modify hs (h.stored sID m hm).1 ⟨rfl, rfl⟩]
  by_cases hkey : key = numberKey sID
  · by_cases hw : nWhich = pAlias.whichMailbox m.mailbox
    · by_cases hsent : m.sent = 0
      · simp [Submitted.under, hkey, hw, hsent]
      · simp [Submitted.under, hkey, hw, hsent]
    · simp [Submitted.under, hw, Ne.symm hw]
  · simp [Submitted.under, hkey, Ne.symm hkey]

theorem Law.send_stored (hlt : m.sent < conf.nTrigerRetryTime) {sID' : Text} {m' : Triger}
    (hm' : (s.send conf tNow sID m).dbList sID' = some m') :
    (s.send conf tNow sID m).mails.find? (fun a => a.sID == sID')
        = some ⟨sID', pAlias.whichMailbox m'.mailbox, m'.stat, m'.sent != 0⟩ ∧
      m'.stat ≠ some .success ∧ 0 ≤ m'.sent ∧ m'.sent < 60 := by
  obtain ⟨hfind, hstat, hsent, -⟩ := h.stored sID m hm
  have hrange := conf.range
  dsimp only [send] at hm' ⊢
  by_cases hsID : sID' = sID
  · subst hsID
    rw [Function.update_self] at hm'
    cases hm'
    have hnext : Int.bmod (m.sent + 1) 256 = m.sent + 1 :=
      Int.bmod_eq_of_le (by omega) (by omega)
    refine ⟨?_, hstat, ?_, ?_⟩
    · rw [find?_modifyFirst (by simp) hfind, hnext]
      have hne : (m.sent + 1 != 0) = true := bne_iff_ne.mpr (by omega)
      rw [hne]
    · rw [hnext]
      dsimp only
      omega
    · rw [hnext]
      dsimp only
      omega
  · rw [Function.update_of_ne hsID] at hm'
    obtain ⟨hfind', hrest⟩ := h.stored sID' m' hm'
    refine ⟨(find?_modify_of_ne hsID ?_).trans hfind', hrest⟩
    exact fun _ => rfl

/-- The first time a mail is sent. -/
theorem Law.first (hlt : m.sent < conf.nTrigerRetryTime) (hfirst : m.sent = 0)
    (hroom : (s.counts (numberKey sID) (pAlias.whichMailbox m.mailbox)).sent + 2 < 2 ^ 31) :
    ((s.send conf tNow sID m).number (numberKey sID) (pAlias.whichMailbox m.mailbox)
      Counts.hand (Counts.hand .zero)).Law := by
  have hcounts := @first_counts pAlias conf s tNow sID m h hfirst hroom
  have hmails : ((s.send conf tNow sID m).number (numberKey sID) (pAlias.whichMailbox m.mailbox)
      Counts.hand (Counts.hand .zero)).mails
        = modifyFirst (fun a => a.sID == sID) (fun a => { a with handed := true }) s.mails := rfl
  constructor
  case stored => exact fun _ _ hm' => h.send_stored hm hlt hm'
  case handed => exact h.send_latest
  case success =>
    intro key nWhich
    obtain ⟨n, hn, hs, -⟩ := hcounts key nWhich
    rw [hn, hs, h.success]
    exact (h.send_mailsAt hm hmails key nWhich _).symm
  case delay =>
    intro key nWhich
    obtain ⟨n, hn, -, hd, -⟩ := hcounts key nWhich
    rw [hn, hd, h.delay]
    exact (h.send_mailsAt hm hmails key nWhich _).symm
  case fail =>
    intro key nWhich
    obtain ⟨n, hn, -, -, hf, -⟩ := hcounts key nWhich
    rw [hn, hf, h.fail]
    exact (h.send_mailsAt hm hmails key nWhich _).symm
  case sent =>
    intro key nWhich
    obtain ⟨n, hn, -, -, -, -, he⟩ := hcounts key nWhich
    rw [hn, he, h.sent]
    exact (h.send_handed hm hmails key nWhich).symm
  case room =>
    intro key nWhich
    obtain ⟨n, hn, -, -, -, hr, -⟩ := hcounts key nWhich
    rw [hn]
    exact hr

/-- Sent again, a mail is not counted again. -/
theorem Law.again (hlt : m.sent < conf.nTrigerRetryTime) (hagain : m.sent ≠ 0) :
    (s.send conf tNow sID m).Law := by
  have hmails : (s.send conf tNow sID m).mails
      = modifyFirst (fun a => a.sID == sID) (fun a => { a with handed := true }) s.mails := rfl
  constructor
  case stored => exact fun _ _ hm' => h.send_stored hm hlt hm'
  case handed => exact h.send_latest
  case success =>
    intro key nWhich
    exact (h.success key nWhich).trans (h.send_mailsAt hm hmails key nWhich _).symm
  case delay =>
    intro key nWhich
    exact (h.delay key nWhich).trans (h.send_mailsAt hm hmails key nWhich _).symm
  case fail =>
    intro key nWhich
    exact (h.fail key nWhich).trans (h.send_mailsAt hm hmails key nWhich _).symm
  case sent =>
    intro key nWhich
    rw [h.send_handed hm hmails, if_neg fun hc => hagain hc.2.2, Int.add_zero]
    exact h.sent key nWhich
  case room => exact h.room

end

/-- A record that goes takes nothing from the counters. -/
theorem Law.erase (sID : Text) (h : s.Law) :
    Law { s with dbList := Function.update s.dbList sID none } where
  stored sID' m hm := by
    dsimp only at hm
    by_cases hsID : sID' = sID
    · subst hsID
      rw [Function.update_self] at hm
      cases hm
    · rw [Function.update_of_ne hsID] at hm
      exact h.stored sID' m hm
  handed := h.handed
  success := h.success
  delay := h.delay
  fail := h.fail
  sent := h.sent
  room := h.room

theorem Law.hand {tNow : Int} {sID : Text} (h : s.Law)
    (hc : s.careful (.hand tNow sID) = true) : (s.hand conf tNow sID).Law := by
  unfold TrigerStore.hand
  cases hm : s.dbList sID with
  | none => exact h
  | some m =>
    dsimp only
    split_ifs with hdue hfirst hover
    · have hroom : (s.counts (numberKey sID) (pAlias.whichMailbox m.mailbox)).sent + 2
          < 2 ^ 31 := by
        simpa only [careful, hm, hfirst, bne_self_eq_false, Bool.false_or, decide_eq_true_eq]
          using hc
      exact h.first hm hdue.2 hfirst hroom
    · exact h.again hm hdue.2 hfirst
    · exact h.erase sID
    · exact h

section
variable {r : Deliver.Record} {cStat : Option MailStat} {m : Triger} (h : s.Law)
  (hm : s.dbList r.id = some m)
include h hm

/-- The mail leaves its old status for the new one. -/
theorem Law.told_mailsAt (nStat : MailStat) (key : Text) (nWhich : Fin (pAlias.nDomainNum + 1))
    (c : List MailStat) :
    (s.told r.id nStat).mailsAt key nWhich c = s.mailsAt key nWhich c
      + if key = numberKey r.id ∧ nWhich = pAlias.whichMailbox m.mailbox then
          weight c (some nStat) - weight c m.stat
        else 0 := by
  have hmodify := mailsWith_modify (u := s.told r.id nStat) rfl (h.stored r.id m hm).1
    ⟨rfl, rfl⟩ key nWhich fun a => ofStat c a.latest
  rw [mailsAt, hmodify, mailsAt]
  by_cases hkey : key = numberKey r.id
  · by_cases hw : nWhich = pAlias.whichMailbox m.mailbox
    · simp only [Submitted.under, hkey, hw, BEq.rfl, Bool.true_and, and_self, if_true, weight]
      omega
    · simp [Submitted.under, hw, Ne.symm hw]
  · simp [Submitted.under, hkey, Ne.symm hkey]

theorem Law.told_handed (nStat : MailStat) (key : Text) (nWhich : Fin (pAlias.nDomainNum + 1)) :
    (s.told r.id nStat).mailsWith key nWhich (fun a => a.handed)
      = s.mailsWith key nWhich fun a => a.handed := by
  have hmodify := mailsWith_modify (u := s.told r.id nStat) rfl (h.stored r.id m hm).1
    ⟨rfl, rfl⟩ key nWhich fun a => a.handed
  rw [hmodify]
  exact Int.sub_add_cancel _ _

/-- What is in `dbList` behind a report is still the newest mail of its number. -/
theorem Law.report_listed (nStat : MailStat) (time : Int) {sID : Text} {m' : Triger}
    (hm' : Function.update s.dbList r.id (if nStat = .success then none else
      some { m with stat := some nStat, time := time }) sID = some m') :
    (s.told r.id nStat).mails.find? (fun a => a.sID == sID)
        = some ⟨sID, pAlias.whichMailbox m'.mailbox, m'.stat, m'.sent != 0⟩ ∧
      m'.stat ≠ some .success ∧ 0 ≤ m'.sent ∧ m'.sent < 60 := by
  obtain ⟨hfind, -, hrest⟩ := h.stored r.id m hm
  by_cases hsID : sID = r.id
  · subst hsID
    rw [Function.update_self, Option.ite_none_left_eq_some] at hm'
    obtain ⟨hne, hm'⟩ := hm'
    cases hm'
    refine ⟨find?_modifyFirst (by simp) hfind, by simpa using hne, hrest⟩
  · rw [Function.update_of_ne hsID] at hm'
    obtain ⟨hfind', hrest'⟩ := h.stored sID m' hm'
    refine ⟨(find?_modify_of_ne hsID ?_).trans hfind', hrest'⟩
    exact fun _ => rfl

variable (hsent : m.sent ≠ 0)
include hsent

/-- The counters of the mail's domain move as the mail does. -/
theorem Law.report_counts (nStat : MailStat) {u : TrigerStore pAlias}
    (hu : u.dbNumber = s.dbNumber) (key : Text) (nWhich : Fin (pAlias.nDomainNum + 1)) :
    ∃ n, (u.number (numberKey r.id) (pAlias.whichMailbox m.mailbox)
        (fun n => (n.count nStat).uncount m.stat) (Counts.zero.count nStat)).counts key nWhich = n ∧
      n.sent = (s.counts key nWhich).sent ∧
        if key = numberKey r.id ∧ nWhich = pAlias.whichMailbox m.mailbox then
          Moved nStat m.stat (s.counts key nWhich) n
        else n = s.counts key nWhich := by
  refine ⟨_, rfl, ?_⟩
  have hold : ∀ key nWhich, u.counts key nWhich = s.counts key nWhich := by
    intro key nWhich
    rw [counts, counts, hu]
  by_cases hat : key = numberKey r.id ∧ nWhich = pAlias.whichMailbox m.mailbox
  · obtain ⟨rfl, rfl⟩ := hat
    obtain ⟨hfind, hstat, -⟩ := h.stored r.id m hm
    have hmem := List.mem_of_find?_eq_some hfind
    have hpos := h.sent_pos hmem (bne_iff_ne.mpr hsent)
    obtain ⟨hs, hd, hf⟩ := h.at_range (numberKey r.id) (pAlias.whichMailbox m.mailbox)
    have hmoved : Moved nStat m.stat (s.counts (numberKey r.id) (pAlias.whichMailbox m.mailbox))
        (((s.counts (numberKey r.id) (pAlias.whichMailbox m.mailbox)).count nStat).uncount
          m.stat) := by
      refine moved_count hs hd hf hstat ?_ ?_
      · rw [h.delay]
        exact weight_le_mailsAt hmem _
      · rw [h.fail]
        exact weight_le_mailsAt hmem _
    rw [counts_number, hold, if_pos ⟨rfl, rfl⟩]
    · exact ⟨hmoved.sent, hmoved⟩
    · intro hzero
      rw [hold] at hzero
      rw [hzero] at hpos
      exact absurd hpos (by decide)
  · rw [counts_number_of_ne hat, hold, if_neg hat]
    exact ⟨rfl, rfl⟩

/-- A report of a mail that is kept and was handed out. -/
theorem Law.report_stored (hw : pAlias.whichMailbox m.mailbox = pAlias.whichMailbox r.mail)
    (hnumber : ¬ secondNumber r.id < 1000000000) : (s.report conf r cStat).Law := by
  have htold : (s.told r.id (reportStat r)).dbList r.id = some m := hm
  rw [TrigerStore.report, if_neg hnumber, changeMailboxStatTriger, htold, ← hw]
  have hcounts := fun key nWhich => h.report_counts hm hsent (reportStat r)
    (u := { s.told r.id (reportStat r) with
      dbList := Function.update (s.told r.id (reportStat r)).dbList r.id
        (if reportStat r = .success then none else
          some { m with
            stat := some (reportStat r)
            time := m.time - conf.nTrigerRetryPeriod }) }) rfl key nWhich
  have hat := h.told_mailsAt hm (reportStat r)
  constructor
  case stored => exact fun _ _ hm' => h.report_listed hm (reportStat r) _ hm'
  case handed =>
    intro a ha hlatest
    rcases mem_modifyFirst ha with ha | ⟨b, hb, rfl⟩
    · exact h.handed a ha hlatest
    · rw [(h.stored r.id m hm).1] at hb
      obtain rfl := Option.some.inj hb
      exact bne_iff_ne.mpr hsent
  case success =>
    intro key nWhich
    obtain ⟨n, hn, -, hmoved⟩ := hcounts key nWhich
    refine (congrArg Counts.success hn).trans (Eq.trans ?_ (hat key nWhich [.success]).symm)
    split_ifs at hmoved ⊢
    · rw [hmoved.success, h.success]
      omega
    · rw [hmoved, h.success, Int.add_zero]
  case delay =>
    intro key nWhich
    obtain ⟨n, hn, -, hmoved⟩ := hcounts key nWhich
    refine (congrArg Counts.delay hn).trans (Eq.trans ?_ (hat key nWhich [.delay, .dns]).symm)
    split_ifs at hmoved ⊢
    · rw [hmoved.delay, h.delay]
      omega
    · rw [hmoved, h.delay, Int.add_zero]
  case fail =>
    intro key nWhich
    obtain ⟨n, hn, -, hmoved⟩ := hcounts key nWhich
    refine (congrArg Counts.fail hn).trans
      (Eq.trans ?_ (hat key nWhich [.fail, .notFound, .spam]).symm)
    split_ifs at hmoved ⊢
    · rw [hmoved.fail, h.fail]
      omega
    · rw [hmoved, h.fail, Int.add_zero]
  case sent =>
    intro key nWhich
    obtain ⟨n, hn, hs, -⟩ := hcounts key nWhich
    exact (congrArg Counts.sent hn).trans
      (hs.trans ((h.sent key nWhich).trans (h.told_handed hm (reportStat r) key nWhich).symm))
  case room =>
    intro key nWhich
    obtain ⟨n, hn, hs, -⟩ := hcounts key nWhich
    have hroom := h.room key nWhich
    rw [← hs, ← hn] at hroom
    exact hroom

end

/-- A report under a number no mail was submitted under. -/
theorem Law.told_none {sID : Text} {nStat : MailStat} (h : s.Law)
    (hnone : ∀ m ∈ s.mails, m.sID ≠ sID) : (s.told sID nStat).Law := by
  have hsame : s.told sID nStat = s := by
    rw [told, modifyFirst_eq_self fun a ha => by simpa using hnone a ha]
  rwa [hsame]

theorem Law.report {r : Deliver.Record} {cStat : Option MailStat} (h : s.Law)
    (hc : s.careful (.report r cStat) = true) : (s.report conf r cStat).Law := by
  by_cases hnumber : secondNumber r.id < 1000000000
  · rw [careful, if_pos hnumber, List.all_eq_true] at hc
    rw [TrigerStore.report, if_pos hnumber]
    exact h.told_none fun m hm => bne_iff_ne.mp (hc m hm)
  · rw [careful, if_neg hnumber] at hc
    cases hm : s.dbList r.id with
    | none =>
      rw [hm] at hc
      cases hc
    | some m =>
      rw [hm] at hc
      simp only [Bool.and_eq_true, bne_iff_ne, beq_iff_eq] at hc
      exact h.report_stored hm hc.1 hc.2 hnumber

theorem Law.step {a : TrigerAct} (h : s.Law) (hc : s.careful a = true) : (s.step conf a).Law := by
  cases a with
  | post nID tTime sMail => exact h.post hc
  | hand tNow sID => exact h.hand hc
  | report r cStat => exact h.report hc

end TrigerStore

section
variable {pAlias : DomainAlias}

/-- The counters count mails in every run of careful steps. -/
theorem tallied_run {conf : TrigerConf} {as : List TrigerAct} {s : TrigerStore pAlias}
    (h : Run (Guarded (fun s a => s.careful a = true) fun s a s' => s' = s.step conf a)
      TrigerStore.empty as s) : s.Tallied := by
  have hlaw : s.Law := by
    refine h.invariant (fun s a s' hlaw hstep => ?_) .empty
    obtain ⟨hc, rfl⟩ := hstep
    exact hlaw.step hc
  exact hlaw.tallied

end

def trigerConf : TrigerConf := ⟨2, 600, by decide⟩

/-- The number of the mail `1.0.5`. -/
def sampleID : Text := postKey (1, 0, 5)

/-- A mail is posted and handed out; it is late, and then arrives. -/
def trigerActs : List TrigerAct :=
  [.post (1, 0, 5) 0 "a@b.c".toList, .hand 0 sampleID,
    .report ⟨sampleID, 'd', "a@b.c".toList, "try again".toList⟩ none,
    .report ⟨sampleID, 's', "a@b.c".toList, []⟩ none]

theorem tallied_run_arrived : ∃ s : TrigerStore sampleAlias,
    s.counts (numberKey sampleID) 0 = ⟨1, 0, 0, 1⟩ ∧ s.Tallied := by
  have hrun : ((trigerActs.foldlM (fun (s : TrigerStore sampleAlias) a =>
      if s.careful a then some (s.step trigerConf a) else none) .empty).any
        fun s => s.counts (numberKey sampleID) 0 == ⟨1, 0, 0, 1⟩) = true := by decide +kernel
  obtain ⟨s, hs, hend⟩ := (Option.any_eq_true _ _).mp hrun
  have hsteps : Run (Guarded (fun s a => s.careful a = true) fun s a s' => s' = s.step trigerConf a)
      .empty trigerActs s :=
    (Run.of_checked (fun _ _ h => h) hs).mono fun _ _ _ h => ⟨h.1, (Option.some.inj h.2).symm⟩
  exact ⟨s, beq_iff_eq.mp hend, tallied_run hsteps⟩

/-- A report of a mail that was never submitted is counted as a success. -/
theorem unknown_counted : ¬ ∀ (conf : TrigerConf) (as : List TrigerAct)
    (s : TrigerStore sampleAlias),
    Run (fun s a s' => s' = s.step conf a) TrigerStore.empty as s → s.Tallied := by
  intro h
  have hone := (h trigerConf [.report ⟨sampleID, 's', "a@b.c".toList, []⟩ none] _
    (.one rfl)).bounded (numberKey sampleID) 0
  exact absurd hone (by decide +kernel)

end Edm.Maillist
