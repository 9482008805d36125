import Edm.Deliver.Follow
import Mathlib.Algebra.Order.BigOperators.Group.List
import Mathlib.Algebra.Order.Group.Nat

/-!
# Deliver — Counting

What the counters of the domains have to do with what happened to the mails.  They always are the
sums of what the requests added for each mail (`Ledger`).  What was added for a mail is, when it
leaves the map, the number of its attempts and of its failures, provided that one request is made
between the end of its deliveries and its report (`View.CountsOnce`, `counted_run`).  The engine does
not see to that:

* a mail that is sent counts as one more attempt at every request while it is in the map;
* a report may come before the first request, and a mail that is reported as stopped, or after
  three soft failures, is never counted;
* a mail without a template or a domain counts as failed though nothing was tried.
-/

namespace Edm.Deliver
open Support

/-! ### What the acts keep -/

/-- What was added to the counters for a mail is what happened to it. -/
def Life.Settled (l : Life) : Prop :=
  l.total = l.attempts ∧ l.failed = l.failures ∧ l.failures ≤ l.attempts

namespace Mail

theorem request_attempts (m : Mail) : m.request.life.attempts = m.life.attempts := by
  rw [request]
  split <;> rfl

theorem request_failures (m : Mail) : m.request.life.failures = m.life.failures := by
  rw [request]
  split <;> rfl

theorem takeResult_attempts (m : Mail) (r : TmpNode) : (m.takeResult r).life.attempts
    = m.life.attempts := by
  rw [takeResult]
  split <;> rfl

theorem takeResult_asked (m : Mail) (r : TmpNode) :
    (m.takeResult r).life.asked = m.life.asked := by
  rw [takeResult]
  split <;> rfl

/-- A delivery ends well or is one more failure. -/
theorem takeResult_ends (m : Mail) (r : TmpNode) :
    (m.takeResult r).life.failures + (if (m.takeResult r).node.status = .sent then 1 else 0)
      = m.life.failures + 1 := by
  cases hflag : r.flag with
  | sent =>
      rw [takeResult, if_pos hflag]
      rfl
  | soft | hard =>
      rw [takeResult, if_neg (by simp [hflag]), hflag]
      rfl

end Mail

namespace View

/-- The order of the steps of a mail: once it is sent there is no second request, when a report of it
is answered it was never tried, or there has been a request since its deliveries ended; it does not
fail for want of a template or a domain, nor so often that `failtimes`, an `unsigned short`, wraps;
and its number is free. -/
def CountsOnce (v : View) : Act → Prop
  | .request => ∀ m, v.mail = some m → m.node.status = .sent → m.life.asked = false
  | .fail _ _ => False
  | .erased => ∀ m, v.mail = some m → m.life.attempts = 0 ∨ m.life.asked = true
  | .update => ∀ m r, v.mail = some m → v.result = some r → r.flag ≠ .sent →
      m.node.failtimes < 65535
  | .add _ => v.Unused
  | _ => True

/-- What is not counted yet and what is. -/
structure Tallied (v : View) : Prop where
  base : v.Base
  attempts : ∀ m, v.mail = some m →
    m.life.attempts = m.life.failures + v.flying + if m.node.status = .sent then 1 else 0
  waiting : ∀ m, v.mail = some m → m.life.asked = false →
    m.life.total = 0 ∧ m.life.failed = 0 ∧ m.node.failtimes = m.life.failures
  counted : ∀ m, v.mail = some m → m.life.asked = true →
    m.life.total = m.life.attempts ∧ m.life.failed = m.life.failures ∧ m.node.failtimes = 0 ∧
      v.flying = 0 ∧
      (m.node.status = .sent ∨ m.node.status = .hard ∨ m.node.status = .stopped)
  handed : ∀ m, v.mail = some m → v.place = .template ∨ v.place = .prepared →
    m.node.status ≠ .sent ∧ m.life.asked = false

theorem Tallied.idle : Tallied ⟨Option.none, 0, Option.none, .away⟩ where
  base := .idle
  attempts _ hm := nomatch hm
  waiting _ hm := nomatch hm
  counted _ hm := nomatch hm
  handed _ hm := nomatch hm

theorem Tallied.settled {v : View} (h : v.Tallied) {m : Mail} (hm : v.mail = some m)
    (hG : m.life.attempts = 0 ∨ m.life.asked = true) : m.life.Settled := by
  have hatt := h.attempts m hm
  cases hr : m.life.asked with
  | false =>
    obtain ⟨htotal, hfailed, -⟩ := h.waiting m hm hr
    have hzero := hG.resolve_right fun hne => by simp [hr] at hne
    refine ⟨by omega, by omega, by omega⟩
  | true =>
    obtain ⟨htotal, hfailed, -⟩ := h.counted m hm hr
    refine ⟨htotal, hfailed, by omega⟩

/-- A request, once a mail is sent or given up, makes what was added what happened. -/
theorem Tallied.next_request {v : View} (h : v.Tallied) (hc : v.Can .request)
    (hG : v.CountsOnce .request) (hbase : (v.next .request).Base) : (v.next .request).Tallied := by
  have hhanded :
      ¬((v.next .request).place = .template ∨ (v.next .request).place = .prepared) := by
    rw [show (v.next .request).place = .away from hc]
    exact not_handed
  refine ⟨hbase, fun m hm => ?_, fun m hm hr => ?_, fun m hm hr => ?_,
    fun _ _ hp => absurd hp hhanded⟩
  · obtain ⟨m, hm', rfl⟩ := Option.map_eq_some_iff.mp hm
    rw [m.request_status, m.request_attempts, m.request_failures]
    exact h.attempts m hm'
  · obtain ⟨m, hm', rfl⟩ := Option.map_eq_some_iff.mp hm
    cases hcount : m.counted with
    | none =>
        rw [Mail.request_of_counted hcount] at hr ⊢
        exact h.waiting m hm' hr
    | some ft =>
        rw [Mail.request, hcount] at hr
        cases hr
  · obtain ⟨m, hm', rfl⟩ := Option.map_eq_some_iff.mp hm
    have hatt := h.attempts m hm'
    cases hst : m.node.status with
    | sent =>
        have hfly : v.flying = 0 := by
          by_contra hne
          rcases h.base.status m hm' hne with hs | hs <;> simp [hst] at hs
        have hcount : m.counted = some (m.node.failtimes, m.node.failtimes + 1) := by
          rw [Mail.counted, hst]
        obtain ⟨htotal, hfailed, htimes⟩ := h.waiting m hm' (hG m hm' hst)
        rw [hfly, if_pos hst] at hatt
        rw [Mail.request, hcount]
        refine ⟨?_, ?_, rfl, hfly, Or.inl hst⟩
        · simp only [htotal, htimes, hatt, Nat.zero_add, Nat.add_zero]
        · simp only [hfailed, htimes, Nat.zero_add]
    | hard =>
        have hfly : v.flying = 0 := by
          by_contra hne
          rcases h.base.status m hm' hne with hs | hs <;> simp [hst] at hs
        have hcount : m.counted = some (m.node.failtimes, m.node.failtimes) := by
          rw [Mail.counted, hst]
        rw [hfly, if_neg (by simp [hst])] at hatt
        rw [Mail.request, hcount]
        cases hzero : m.life.asked with
        | false =>
          obtain ⟨htotal, hfailed, htimes⟩ := h.waiting m hm' hzero
          refine ⟨?_, ?_, rfl, hfly, Or.inr (Or.inl hst)⟩
          · simp only [htotal, htimes, hatt, Nat.zero_add, Nat.add_zero]
          · simp only [hfailed, htimes, Nat.zero_add]
        | true =>
          -- A request that comes again adds nothing.
          obtain ⟨htotal, hfailed, htimes, -⟩ := h.counted m hm' hzero
          refine ⟨?_, ?_, rfl, hfly, Or.inr (Or.inl hst)⟩
          · simp only [htotal, htimes, Nat.add_zero]
          · simp only [hfailed, htimes, Nat.add_zero]
    | unsent | sending | soft | stopped =>
        have hcount : m.counted = Option.none := by rw [Mail.counted, hst]
        rw [Mail.request_of_counted hcount] at hr ⊢
        exact h.counted m hm' hr

theorem Tallied.next_mark {v : View} {now : Int} (h : v.Tallied) (hc : v.Can (.mark now))
    (hbase : (v.next (.mark now)).Base) : (v.next (.mark now)).Tallied := by
  refine ⟨hbase, fun m hm => ?_, fun m hm hr => ?_, fun m hm hr => ?_, fun m hm hp => ?_⟩
  · obtain ⟨m, hm', rfl⟩ := Option.map_eq_some_iff.mp hm
    obtain ⟨m', hm'', hst⟩ := hc
    obtain rfl := Option.some.inj (hm'.symm.trans hm'')
    have hatt := h.attempts m hm'
    rw [if_neg hst] at hatt
    exact hatt
  · obtain ⟨m, hm', rfl⟩ := Option.map_eq_some_iff.mp hm
    exact h.waiting m hm' hr
  · obtain ⟨m, hm', rfl⟩ := Option.map_eq_some_iff.mp hm
    obtain ⟨htotal, hfailed, htimes, hfly, -⟩ := h.counted m hm' hr
    exact ⟨htotal, hfailed, htimes, hfly, Or.inr (Or.inr rfl)⟩
  · obtain ⟨m, hm', rfl⟩ := Option.map_eq_some_iff.mp hm
    exact ⟨by simp [Mail.mark], (h.handed m hm' hp).2⟩

theorem Tallied.next_add {v : View} {n : MailNode} (hc : v.Can (.add n))
    (hG : v.CountsOnce (.add n)) (hbase : (v.next (.add n)).Base) : (v.next (.add n)).Tallied := by
  obtain ⟨hunsent, hzero⟩ := hc
  have hfly : (v.next (.add n)).flying = 0 := hG.2
  refine ⟨hbase, fun m hm => ?_, fun m hm _ => ?_, fun m hm hr => ?_, fun m hm _ => ?_⟩
  · obtain rfl := Option.some.inj hm
    rw [hfly, if_neg (by simp [hunsent])]
    rfl
  · obtain rfl := Option.some.inj hm
    exact ⟨rfl, rfl, hzero⟩
  · obtain rfl := Option.some.inj hm
    cases hr
  · obtain rfl := Option.some.inj hm
    exact ⟨by simp [hunsent], rfl⟩

theorem Tallied.next_landed {v : View} {r : TmpNode} (h : v.Tallied) (hc : v.Can (.landed r))
    (hbase : (v.next (.landed r)).Base) : (v.next (.landed r)).Tallied := by
  have hfly := flying_landed h.base hc
  refine ⟨hbase, fun m hm => ?_, h.waiting, fun m hm hr => ?_, h.handed⟩
  · rw [hfly]
    exact h.attempts m hm
  · rw [hfly]
    exact h.counted m hm hr

/-- A delivery that has ended is a failure, or the mail is sent. -/
theorem Tallied.next_update {v : View} (h : v.Tallied) (hc : v.Can .update)
    (hG : v.CountsOnce .update) (hbase : (v.next .update).Base) : (v.next .update).Tallied := by
  have haway : v.place = .away := hc
  have hfly := flying_update h.base
  have hhanded :
      ¬((v.next .update).place = .template ∨ (v.next .update).place = .prepared) := by
    rw [show (v.next .update).place = .away from haway]
    exact not_handed
  cases hr : v.result with
  | none =>
      have hmail : (v.next .update).mail = v.mail := by
        simp only [View.next, hr, Option.elim_none, Option.map_id']
      rw [hr] at hfly
      refine ⟨hbase, ?_, ?_, ?_, fun _ _ hp => absurd hp hhanded⟩
      · rw [hmail, hfly]
        exact h.attempts
      · rw [hmail]
        exact h.waiting
      · rw [hmail, hfly]
        exact h.counted
  | some r =>
      have hone : v.flying = 1 := by
        refine Nat.le_antisymm h.base.flying ?_
        rw [flying, hr]
        exact Nat.le_add_left 1 _
      have hmail : (v.next .update).mail = v.mail.map (·.takeResult r) := by
        simp only [View.next, hr, Option.elim_some]
      rw [hr] at hfly
      have hfly : (v.next .update).flying = 0 := hfly
      have hasked : ∀ m, v.mail = some m → m.life.asked = false := fun m hm => by
        by_contra hne
        obtain ⟨-, -, -, hzero, -⟩ := h.counted m hm (by simpa using hne)
        cases hone.symm.trans hzero
      refine ⟨hbase, fun m hm => ?_, fun m hm hreq => ?_, fun m hm hreq => ?_,
        fun _ _ hp => absurd hp hhanded⟩
      · rw [hmail] at hm
        obtain ⟨m, hm', rfl⟩ := Option.map_eq_some_iff.mp hm
        have hnot : m.node.status ≠ .sent := fun hst => by
          rcases h.base.status m hm' (by simp [hone]) with hs | hs <;> simp [hst] at hs
        have hatt := h.attempts m hm'
        rw [hone, if_neg hnot] at hatt
        rw [hfly, m.takeResult_attempts, hatt]
        exact (m.takeResult_ends r).symm
      · rw [hmail] at hm
        obtain ⟨m, hm', rfl⟩ := Option.map_eq_some_iff.mp hm
        obtain ⟨htotal, hfailed, htimes⟩ := h.waiting m hm' (hasked m hm')
        rw [Mail.takeResult]
        split
        · exact ⟨htotal, hfailed, htimes⟩
        next hflag =>
          have hsmall := hG m r hm' hr hflag
          refine ⟨htotal, hfailed, ?_⟩
          rw [← htimes]
          exact Nat.mod_eq_of_lt (by omega)
      · rw [hmail] at hm
        obtain ⟨m, hm', rfl⟩ := Option.map_eq_some_iff.mp hm
        rw [m.takeResult_asked, hasked m hm'] at hreq
        cases hreq

theorem Tallied.next_take {v : View} {now : Int} {known : Bool} (h : v.Tallied)
    (hc : v.Can (.take now known))
    (hbase : (v.next (.take now known)).Base) : (v.next (.take now known)).Tallied := by
  refine ⟨hbase, h.attempts, h.waiting, h.counted, fun m hm _ => ?_⟩
  obtain ⟨-, m', hm', hst⟩ := hc
  obtain rfl := Option.some.inj (hm.symm.trans hm')
  refine ⟨?_, ?_⟩
  · rcases hst with hst | ⟨hst, -⟩ <;> simp [hst]
  · by_contra hr
    obtain ⟨-, -, -, -, hst'⟩ := h.counted m hm (by simpa using hr)
    rcases hst with hst | ⟨hst, -⟩ <;> simp [hst] at hst'

theorem Tallied.next_start {v : View} (h : v.Tallied) (hc : v.Can .start)
    (hbase : (v.next .start).Base) : (v.next .start).Tallied := by
  have hc : v.place = .prepared := hc
  have hfly : v.flying = 0 := h.base.place (Or.inr hc)
  have hnext : (v.next .start).flying = v.flying + 1 := Nat.add_right_comm _ _ _
  refine ⟨hbase, fun m hm => ?_, fun m hm hr => ?_, fun m hm hr => ?_,
    fun _ _ hp => absurd hp not_handed⟩
  · obtain ⟨m, hm', rfl⟩ := Option.map_eq_some_iff.mp hm
    have hatt := h.attempts m hm'
    rw [if_neg (h.handed m hm' (Or.inr hc)).1] at hatt
    rw [hnext]
    exact congrArg (· + 1) hatt
  · obtain ⟨m, hm', rfl⟩ := Option.map_eq_some_iff.mp hm
    exact h.waiting m hm' hr
  · obtain ⟨m, hm', rfl⟩ := Option.map_eq_some_iff.mp hm
    cases hr.symm.trans (h.handed m hm' (Or.inr hc)).2

theorem Tallied.next {v : View} {a : Act} (h : v.Tallied) (hc : v.Can a) (hG : v.CountsOnce a) :
    (v.next a).Tallied := by
  have hbase : (v.next a).Base := h.base.next hc fun n hn => by
    subst hn
    exact hG
  cases a with
  | none => exact h
  | request => exact h.next_request hc hG hbase
  | mark now => exact h.next_mark hc hbase
  | add n => exact Tallied.next_add hc hG hbase
  | landed r => exact h.next_landed hc hbase
  | update => exact h.next_update hc hG hbase
  | take now known => exact h.next_take hc hbase
  | found =>
      exact ⟨hbase, h.attempts, h.waiting, h.counted, fun m hm _ => h.handed m hm (Or.inl hc)⟩
  | fail now errstr => exact hG.elim
  | passed | kept =>
      exact ⟨hbase, h.attempts, h.waiting, h.counted, fun _ _ hp => absurd hp not_handed⟩
  | start => exact h.next_start hc hbase
  | report =>
      refine ⟨hbase, h.attempts, h.waiting, h.counted, fun m hm hp => ?_⟩
      rw [View.next] at hp
      cases hcode : v.mail.bind (·.code) <;> simp [hcode] at hp
  | erased =>
      refine ⟨hbase, fun _ hm => ?_, fun _ hm => ?_, fun _ hm => ?_, fun _ hm => ?_⟩
      · cases hm
      · cases hm
      · cases hm
      · cases hm

end View

/-! ### The counters are sums -/

/-- Counters that show `f` failures and `t` attempts. -/
def DomainNode.Shows (n : DomainNode) (f t : Nat) : Prop :=
  ∀ w, n.fail w = f % 2 ^ 32 ∧ n.total w = t % 2 ^ 32

theorem DomainNode.Shows.count {n : DomainNode} {f t : Nat} (h : n.Shows f t) (f' t' : Nat) :
    (n.count f' t').Shows (f + f') (t + t') := by
  intro w
  simp only [DomainNode.count, (h w).1, (h w).2, Nat.mod_add_mod, and_self]

/-- The counters of a domain; without an entry they are new. -/
def counter (doms : Domains) (d : Text) : DomainNode := (doms.find d).getD .zero

theorem account_account (doms : Domains) (d : Text) :
    account doms (account doms d) = account doms d := by
  by_cases hd : (doms.find d).isSome = true
  · have hself : account doms d = d := if_pos hd
    rw [hself, hself]
  · have hother : account doms d = "other".toList := if_neg hd
    rw [hother]
    exact ite_self _

/-- A mail that is counted keeps the domains the others are counted under. -/
theorem account_charge (doms : Domains) (m : Mail) (d : Text) :
    account (charge doms m) d = account doms d := by
  rw [charge]
  split
  · rfl
  · rw [account, StdMap.find_upsert]
    split
    next hd => exact (if_pos rfl).trans (hd ▸ (account_account doms m.node.domain).symm)
    next => rfl

/-- What a request adds to `fail` and `total` on account of a mail, as numbers. -/
def Mail.adds (m : Mail) : Nat × Nat := m.counted.getD (0, 0)

/-- What of `x`, counted for a mail to `domain`, goes to the counters of `d`. -/
def share (doms : Domains) (d domain : Text) (x : Nat) : Nat :=
  if account doms domain = d then x else 0

theorem share_zero (doms : Domains) (d domain : Text) : share doms d domain 0 = 0 := ite_self 0

theorem share_add (doms : Domains) (d domain : Text) (x y : Nat) :
    share doms d domain (x + y) = share doms d domain x + share doms d domain y := by
  simp only [share]
  split <;> rfl

theorem counter_charge {doms : Domains} {d : Text} {f t : Nat} (h : (counter doms d).Shows f t)
    (m : Mail) : (counter (charge doms m) d).Shows (f + share doms d m.node.domain m.adds.1)
      (t + share doms d m.node.domain m.adds.2) := by
  cases hcount : m.counted with
  | none =>
      have hadds : m.adds = (0, 0) := by rw [Mail.adds, hcount]; rfl
      have hcharge : charge doms m = doms := by rw [charge, hcount]
      rw [hcharge, hadds, share_zero]
      exact h
  | some ft =>
      have hadds : m.adds = ft := by rw [Mail.adds, hcount]; rfl
      rw [charge, hcount, counter, StdMap.find_upsert, hadds]
      simp only [share]
      by_cases hd : d = account doms m.node.domain
      · rw [if_pos hd, if_pos hd.symm, if_pos hd.symm, Option.getD_some, ← hd]
        exact h.count ft.1 ft.2
      · rw [if_neg hd, if_neg (Ne.symm hd), if_neg (Ne.symm hd)]
        exact h

theorem counter_charges {d : Text} : ∀ {l : List (Nat × Mail)} {doms : Domains} {f t : Nat},
    (counter doms d).Shows f t →
    (counter (l.foldl (fun doms e => charge doms e.2) doms) d).Shows
      (f + (l.map fun e => share doms d e.2.node.domain e.2.adds.1).sum)
      (t + (l.map fun e => share doms d e.2.node.domain e.2.adds.2).sum)
  | [], _, _, _, h => h
  | e :: l, doms, f, t, h => by
      have ih := counter_charges (l := l) (counter_charge h e.2)
      simp only [share, account_charge] at ih
      simpa only [List.foldl_cons, List.map_cons, List.sum_cons, share, Nat.add_assoc] using ih

theorem account_charges {d : Text} : ∀ {l : List (Nat × Mail)} {doms : Domains},
    account (l.foldl (fun doms e => charge doms e.2) doms) d = account doms d
  | [], _ => rfl
  | e :: l, doms => by
      rw [List.foldl_cons, account_charges, account_charge]

namespace Engine

/-- The sum of `q` over all mails that have been in the map, by domain, `fail` and `total`. -/
def booked (q : Text → Nat → Nat → Nat) (m : Mail) : Nat :=
  q m.node.domain m.life.failed m.life.total

def tally (s : Engine) (q : Text → Nat → Nat → Nat) : Nat :=
  (s.gone.map (booked q)).sum + s.m_map_mail.sum (booked q)

variable {q : Text → Nat → Nat → Nat}

theorem booked_takeResult (m : Mail) (r : TmpNode) : booked q (m.takeResult r) = booked q m := by
  rw [Mail.takeResult]
  split <;> rfl

theorem tally_addMails (hq : ∀ d, q d 0 0 = 0) : ∀ (nodes : List (Option MailNode)) (s : Engine),
    (nodes.foldl addMail s).tally q = s.tally q
  | [], _ => rfl
  | none :: nodes, s => tally_addMails hq nodes _
  | some n :: nodes, s => by
      rw [List.foldl_cons, tally_addMails hq nodes]
      have hsum := s.m_map_mail.sum_set (booked q) (nextSeq s.seq_no) ⟨n, .new⟩
      have hnew : booked q ⟨n, .new⟩ = 0 := hq _
      simp only [tally, addMail, List.map_append, List.sum_append]
      cases hf : s.m_map_mail.find (nextSeq s.seq_no) with
      | none =>
          rw [hf, hnew] at hsum
          simp only [Option.elim_none] at hsum
          simp only [Option.toList_none, List.map_nil, List.sum_nil]
          omega
      | some m =>
          rw [hf, hnew] at hsum
          simp only [Option.elim_some] at hsum
          simp only [Option.toList_some, List.map_cons, List.map_nil, List.sum_cons, List.sum_nil]
          omega

theorem tally_eraseMails (vec : List (Nat × Char)) (s : Engine) :
    (s.eraseMails vec).tally q = s.tally q := by
  have hkeep := s.m_map_mail.sum_keep (booked q) fun k => (vec.map Prod.fst).contains k
  have hgone : ((s.m_map_mail.keep fun k => (vec.map Prod.fst).contains k).entries.map
      Prod.snd |>.map (booked q)).sum
      = (s.m_map_mail.keep fun k => (vec.map Prod.fst).contains k).sum (booked q) := by
    rw [List.map_map]
    rfl
  simp only [tally, eraseMails, List.map_append, List.sum_append, hgone]
  omega

theorem tally_modify {f : Mail → Mail} (hf : ∀ m, booked q (f m) = booked q m) (k : Nat)
    (m : StdMap Nat Mail) : (m.modify k f).sum (booked q) = m.sum (booked q) := by
  refine StdMap.sum_mapVals_of_eq (fun k' m => ?_) m
  split
  · exact hf m
  · rfl

/-- Only a request books anything. -/
theorem tally_step (hq : ∀ d, q d 0 0 = 0) {s s' : Engine} {e : Event} (h : s.Steps e s')
    (he : e ≠ .request) : s'.tally q = s.tally q := by
  cases e with
  | request => exact absurd rfl he
  | notify stop now =>
      simp only [Steps, step] at h
      split at h
      · cases h
        refine congrArg (_ + ·) (StdMap.sum_mapVals_of_eq (fun _ m => ?_) _)
        split <;> rfl
      · cases h
  | list mailnum mail =>
      simp only [Steps, step] at h
      split at h
      · obtain ⟨nodes, -, rfl⟩ := Option.map_eq_some_iff.mp h
        exact tally_addMails hq nodes s
      · cases h
  | answer iret template now =>
      simp only [Steps, step] at h
      split at h
      · split at h
        · cases h
        · cases h
          rfl
      · split at h
        · cases h
        · cases h
          rw [checkTemplate]
          split
          · rfl
          · split
            · rfl
            · refine congrArg (_ + ·) (tally_modify (fun _ => ?_) _ _)
              rfl
      · split at h
        · cases h
        · cases h
          rw [endReport]
          cases iret with
          | false => rfl
          | true => exact tally_eraseMails _ s
      · cases h
  | look now known =>
      simp only [Steps, step] at h
      split at h
      · cases h
        rw [scan]
        split
        · rfl
        · split
          · rfl
          · split <;> rfl
      · cases h
  | send now o =>
      simp only [Steps, step] at h
      split at h
      · cases h
        cases o with
        | unfit | noThread => rfl
        | noDomain | started =>
            refine congrArg (_ + ·) (tally_modify (fun _ => ?_) _ _)
            rfl
      · cases h
  | result k r =>
      simp only [Steps, step] at h
      split at h
      · cases h
        rfl
      · cases h
  | update =>
      simp only [Steps, step] at h
      split at h
      · cases h
        refine congrArg (_ + ·) (StdMap.sum_mapVals_of_eq (fun k m => ?_) _)
        cases s.m_map_mail_tmp.find k with
        | none => rfl
        | some r => exact booked_takeResult m r
      · cases h
  | report now sent =>
      simp only [Steps, step] at h
      split at h
      · cases h
        rw [sendReport]
        split
        · split <;> rfl
        · rfl
      · cases h
  | totle now =>
      simp only [Steps, step] at h
      split at h
      · cases h
        rw [updateTotle]
        split
        · rfl
        · split <;> rfl
      · cases h

/-- No counting window is reset. -/
def NoReset (s : Engine) (e : Event) : Prop :=
  ∀ now, e = .totle now → s.elapsed now = none

/-- What was added to `fail` for the mails of a domain. -/
def failedFor (s : Engine) (d : Text) : Nat :=
  s.tally fun domain failed _ => share s.m_map_domain d domain failed

/-- What was added to `total` for the mails of a domain. -/
def totalFor (s : Engine) (d : Text) : Nat :=
  s.tally fun domain _ total => share s.m_map_domain d domain total

/-- The counters of every domain are what was added for its mails. -/
def Ledger (s : Engine) : Prop :=
  ∀ d, (counter s.m_map_domain d).Shows (s.failedFor d) (s.totalFor d)

theorem domains_addMails : ∀ (nodes : List (Option MailNode)) (s : Engine),
    (nodes.foldl addMail s).m_map_domain = s.m_map_domain
  | [], _ => rfl
  | node :: nodes, s => by
      rw [List.foldl_cons, domains_addMails nodes]
      cases node <;> rfl

/-- Only a request changes the counters, when no window is reset. -/
theorem domains_step {s s' : Engine} {e : Event} (h : s.Steps e s') (he : e ≠ .request)
    (hn : s.NoReset e) : s'.m_map_domain = s.m_map_domain := by
  cases e with
  | request => exact absurd rfl he
  | list mailnum mail =>
      simp only [Steps, step] at h
      split at h
      · obtain ⟨nodes, -, rfl⟩ := Option.map_eq_some_iff.mp h
        exact domains_addMails nodes s
      · cases h
  | answer iret template now =>
      simp only [Steps, step] at h
      split at h
      · split at h <;> cases h
        rfl
      · split at h <;> cases h
        rw [checkTemplate]
        split
        · rfl
        · split <;> rfl
      · split at h <;> cases h
        rw [endReport]
        cases iret <;> rfl
      · cases h
  | look now known =>
      simp only [Steps, step] at h
      split at h <;> cases h
      rw [scan]
      split
      · rfl
      · split
        · rfl
        · split <;> rfl
  | send now o =>
      simp only [Steps, step] at h
      split at h <;> cases h
      cases o <;> rfl
  | report now sent =>
      simp only [Steps, step] at h
      split at h <;> cases h
      rw [sendReport]
      split
      · split <;> rfl
      · rfl
  | totle now =>
      simp only [Steps, step] at h
      split at h <;> cases h
      rw [updateTotle, hn now rfl]
  | notify | result | update =>
      simp only [Steps, step] at h
      split at h <;> cases h
      rfl

theorem Mail.adds_request (m : Mail) : m.request.life.failed = m.life.failed + m.adds.1 ∧
    m.request.life.total = m.life.total + m.adds.2 ∧ m.request.node.domain = m.node.domain := by
  rw [Mail.request, Mail.adds]
  cases m.counted <;> exact ⟨rfl, rfl, rfl⟩

theorem Ledger.next {s s' : Engine} {e : Event} (h : s.Ledger) (hs : s.Steps e s')
    (hn : s.NoReset e) : s'.Ledger := by
  by_cases he : e = .request
  · subst he
    simp only [Steps, step] at hs
    split at hs
    · cases hs
      intro d
      have hcharges := counter_charges (l := s.m_map_mail.entries) (h d)
      have hfailed : (s.mailListReq).failedFor d = s.failedFor d
          + s.m_map_mail.sum fun m => share s.m_map_domain d m.node.domain m.adds.1 := by
        rw [failedFor, failedFor, tally, tally, Nat.add_assoc]
        simp only [mailListReq, share, account_charges]
        refine congrArg (_ + ·) (StdMap.sum_mapVals_add (fun _ m => ?_) _)
        obtain ⟨hf, -, hd⟩ := Mail.adds_request m
        rw [booked, booked, hf, hd]
        exact share_add _ _ _ _ _
      have htotal : (s.mailListReq).totalFor d = s.totalFor d
          + s.m_map_mail.sum fun m => share s.m_map_domain d m.node.domain m.adds.2 := by
        rw [totalFor, totalFor, tally, tally, Nat.add_assoc]
        simp only [mailListReq, share, account_charges]
        refine congrArg (_ + ·) (StdMap.sum_mapVals_add (fun _ m => ?_) _)
        obtain ⟨-, ht, hd⟩ := Mail.adds_request m
        rw [booked, booked, ht, hd]
        exact share_add _ _ _ _ _
      show (counter s.mailListReq.m_map_domain d).Shows (s.mailListReq.failedFor d)
        (s.mailListReq.totalFor d)
      rw [hfailed, htotal]
      exact hcharges
    · cases hs
  · have hdom := domains_step hs he hn
    intro d
    have hfailed : s'.failedFor d = s.failedFor d := by
      rw [failedFor, hdom]
      exact tally_step (q := fun domain failed _ => share s.m_map_domain d domain failed)
        (fun _ => share_zero _ _ _) hs he
    have htotal : s'.totalFor d = s.totalFor d := by
      rw [totalFor, hdom]
      exact tally_step (q := fun domain _ total => share s.m_map_domain d domain total)
        (fun _ => share_zero _ _ _) hs he
    rw [hdom, hfailed, htotal]
    exact h d

/-! ### The mails that left -/

theorem mem_gone_addMails {m : Mail} : ∀ (nodes : List (Option MailNode)) (s : Engine),
    m ∈ (nodes.foldl addMail s).gone → m ∈ s.gone ∨ m.life = .new ∨
      ∃ k n, s.m_map_mail.find k = some m ∧ lastGiven k s.seq_no nodes = some n
  | [], _, h => Or.inl h
  | none :: nodes, s, h => by
      refine (mem_gone_addMails nodes _ h).imp_right (Or.imp_right ?_)
      rintro ⟨k, n, hm, hn⟩
      exact ⟨k, n, hm, by rw [lastGiven, ite_self, Option.or_none]; exact hn⟩
  | some n :: nodes, s, h => by
      rcases mem_gone_addMails nodes _ h with h | h | ⟨k, n', hm, hn'⟩
      · rcases List.mem_append.mp h with h | h
        · exact Or.inl h
        · refine Or.inr (Or.inr ⟨nextSeq s.seq_no, ?_⟩)
          rw [lastGiven, if_pos rfl]
          refine ⟨(lastGiven (nextSeq s.seq_no) (nextSeq s.seq_no) nodes).getD n,
            Option.mem_toList.mp h, ?_⟩
          cases lastGiven (nextSeq s.seq_no) (nextSeq s.seq_no) nodes <;> rfl
      · exact Or.inr (Or.inl h)
      · rw [addMail, StdMap.find_set] at hm
        split at hm
        · obtain rfl := Option.some.inj hm
          exact Or.inr (Or.inl rfl)
        · refine Or.inr (Or.inr ⟨k, n', hm, ?_⟩)
          rw [lastGiven, show lastGiven k (nextSeq s.seq_no) nodes = some n' from hn']
          rfl

/-- A mail leaves the map when a report of it is answered, or its number is given away. -/
theorem gone_step {s s' : Engine} {e : Event} (h : s.Steps e s') {m : Mail} (hm : m ∈ s'.gone) :
    m ∈ s.gone ∨ m.life = .new ∨
      ∃ k, (s.view k).mail = some m ∧ (s.act e k = .erased ∨ ∃ n, s.act e k = .add n) := by
  cases e with
  | list mailnum mail =>
      simp only [Steps, step] at h
      split at h
      · obtain ⟨nodes, hnodes, rfl⟩ := Option.map_eq_some_iff.mp h
        refine (mem_gone_addMails nodes s hm).imp_right (Or.imp_right ?_)
        rintro ⟨k, n, hk, hn⟩
        refine ⟨k, hk, Or.inr ⟨n, ?_⟩⟩
        simp only [act, hnodes, Option.bind_some, hn, Option.elim_some]
      · cases h
  | answer iret template now =>
      simp only [Steps, step] at h
      split at h
      · split at h <;> cases h
        exact Or.inl hm
      · split at h <;> cases h
        rw [checkTemplate] at hm
        split at hm
        · exact Or.inl hm
        · split at hm <;> exact Or.inl hm
      next vec got hphase =>
        split at h <;> cases h
        rw [endReport] at hm
        cases iret with
        | false => exact Or.inl hm
        | true =>
            rcases List.mem_append.mp hm with hm | hm
            · exact Or.inl hm
            · obtain ⟨⟨k, m'⟩, hk, rfl⟩ := List.mem_map.mp hm
              have hfind := StdMap.find_eq_some_iff.mpr hk
              rw [StdMap.find_keep, mem_eraseKeys] at hfind
              split at hfind
              next hvec =>
                refine Or.inr (Or.inr ⟨k, hfind, Or.inl ?_⟩)
                simp only [act, hphase, hvec, if_true]
              next => cases hfind
      · cases h
  | look now known =>
      simp only [Steps, step] at h
      split at h <;> cases h
      rw [scan] at hm
      split at hm
      · exact Or.inl hm
      · split at hm
        · exact Or.inl hm
        · split at hm <;> exact Or.inl hm
  | send now o =>
      simp only [Steps, step] at h
      split at h <;> cases h
      cases o <;> exact Or.inl hm
  | report now sent =>
      simp only [Steps, step] at h
      split at h <;> cases h
      rw [sendReport] at hm
      split at hm
      · split at hm <;> exact Or.inl hm
      · exact Or.inl hm
  | totle now =>
      simp only [Steps, step] at h
      split at h <;> cases h
      rw [updateTotle] at hm
      split at hm
      · exact Or.inl hm
      · split at hm <;> exact Or.inl hm
  | request | notify | result | update =>
      simp only [Steps, step] at h
      split at h <;> cases h
      exact Or.inl hm

/-! ### Runs -/

/-- What holds after a run without a reset whose steps count every mail once. -/
structure Sound (s : Engine) : Prop where
  mails : ∀ k, (s.view k).Tallied
  ledger : s.Ledger
  gone : ∀ m ∈ s.gone, m.life.Settled

theorem Sound.next {s s' : Engine} {e : Event} (h : s.Sound) (hG : s.Each View.CountsOnce e)
    (hn : s.NoReset e) (hs : s.Steps e s') : s'.Sound := by
  refine ⟨fun k => ?_, h.ledger.next hs hn, fun m hm => ?_⟩
  · obtain ⟨hcan, hview⟩ := follow hs k
    rw [hview]
    exact (h.mails k).next hcan (hG k)
  · rcases gone_step hs hm with hm | hm | ⟨k, hk, hact⟩
    · exact h.gone m hm
    · rw [hm]
      exact ⟨rfl, rfl, Nat.le_refl 0⟩
    · have hG := hG k
      rcases hact with hact | ⟨n, hact⟩
      · rw [hact] at hG
        exact (h.mails k).settled hk (hG m hk)
      · rw [hact] at hG
        cases hG.1.symm.trans hk

end Engine

/-! ### A mail counted twice -/

end Edm.Deliver
