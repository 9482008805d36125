import Edm.Deliver.Engine
import Edm.Support.Run

/-!
# Deliver — Follow

The life of one sequence number.  A `View` is what concerns it in a state of the engine: its mail,
its threads, its waiting result, and where the loop stands with it.  Whatever the engine does, it
does one `Act` to each number (`Engine.act`), and the view goes on by that act alone
(`Engine.follow`).  What the acts keep of a view therefore holds of every number in every run
(`Engine.views_run`); the conditions of such a run are conditions on views and acts
(`Engine.Each`).

As long as no number is given to a mail while it is in use (`View.Unused`), a number is under way
with at most one thread (`View.Base`).
-/

namespace Edm.Deliver
open Support

/-! ### Views and acts -/

/-- Where the loop stands with a mail. -/
inductive Place where
  | away | template | prepared
  | reported (c : Char)
  deriving DecidableEq

@[ext]
structure View where
  mail : Option Mail
  running : Nat
  result : Option TmpNode
  place : Place

/-- What a step of the engine is to one number. -/
inductive Act where
  | none | request
  | mark (now : Int)
  | add (n : MailNode)
  | landed (r : TmpNode)
  | update
  | take (now : Int) (known : Bool)
  | found
  | fail (now : Int) (errstr : Text)
  | passed | start | report | erased | kept

namespace View

/-- An act changes the view. -/
def next (v : View) : Act → View
  | .none => v
  | .request => { v with mail := v.mail.map (·.request) }
  | .mark now => { v with mail := v.mail.map (·.mark now) }
  | .add n => { v with mail := some ⟨n, .new⟩ }
  | .landed r => { v with running := v.running - 1, result := some r }
  | .update =>
      { v with
        mail := v.mail.map fun m => v.result.elim m fun r => m.takeResult r
        result := Option.none }
  | .take _ known => { v with place := if known then .prepared else .template }
  | .found => { v with place := .prepared }
  | .fail now errstr => { v with mail := v.mail.map (·.fail now errstr), place := .away }
  | .passed | .kept => { v with place := .away }
  | .start => { v with mail := v.mail.map (·.start), running := v.running + 1, place := .away }
  | .report => { v with place := (v.mail.bind (·.code)).elim .away .reported }
  | .erased => { v with mail := Option.none, place := .away }

/-- When an act may happen. -/
def Can (v : View) : Act → Prop
  | .none => True
  | .request | .update | .report => v.place = .away
  | .mark _ => ∃ m, v.mail = some m ∧ m.node.status ≠ .sent
  | .add n => n.status = .unsent ∧ n.failtimes = 0
  | .landed _ => 0 < v.running
  | .take now _ => v.place = .away ∧ ∃ m, v.mail = some m ∧
      (m.node.status = .unsent ∨ m.node.status = .soft ∧ 120 ≤ now - m.node.stime)
  | .found => v.place = .template
  | .fail _ _ => v.place = .template ∨ v.place = .prepared
  | .passed | .start => v.place = .prepared
  | .erased | .kept => ∃ c, v.place = .reported c

end View

theorem Mail.request_status (m : Mail) : m.request.node.status = m.node.status := by
  rw [Mail.request]
  split <;> rfl

theorem Mail.request_of_counted {m : Mail} (h : m.counted = none) : m.request = m := by
  rw [request, h]

/-! ### One thread for one number -/

namespace View

/-- How many deliveries are under way, from the start of the thread to `UpdateList`. -/
def flying (v : View) : Nat := v.running + if v.result.isSome then 1 else 0

/-- Nothing of another mail is left under the number. -/
def Unused (v : View) : Prop := v.mail = Option.none ∧ v.flying = 0

/-- One delivery at most is under way, and not of a mail that waits for one. -/
structure Base (v : View) : Prop where
  flying : v.flying ≤ 1
  status : ∀ m, v.mail = some m → v.flying ≠ 0 → m.node.status = .sending ∨ m.node.status = .stopped
  place : v.place = .template ∨ v.place = .prepared → v.flying = 0

theorem Base.idle : Base ⟨Option.none, 0, Option.none, .away⟩ where
  flying := Nat.zero_le 1
  status _ hm := nomatch hm
  place _ := rfl

theorem flying_landed {v : View} {r : TmpNode} (h : v.Base) (hc : v.Can (.landed r)) :
    (v.next (.landed r)).flying = v.flying := by
  have hc : 0 < v.running := hc
  have hfly := h.flying
  cases hr : v.result with
  | none =>
      simp only [flying, View.next, hr, Option.isSome_some, Option.isSome_none, if_true]
      exact Nat.sub_add_cancel hc
  | some r' =>
      simp only [flying, hr, Option.isSome_some, if_true] at hfly
      exact absurd hc (by omega)

theorem flying_update {v : View} (h : v.Base) :
    (v.next .update).flying = if v.result.isSome then 0 else v.flying := by
  have hfly := h.flying
  cases hr : v.result with
  | none => simp [flying, View.next, hr]
  | some r =>
      simp only [flying, hr, Option.isSome_some, if_true] at hfly
      rw [Option.isSome_some, if_pos rfl]
      exact Nat.le_zero.mp (Nat.le_of_succ_le_succ hfly)

theorem not_handed : ¬(Place.away = .template ∨ Place.away = .prepared) := by simp

/-- A mail the scan takes is not under way. -/
theorem Base.flying_of_take {v : View} {now : Int} {known : Bool} (h : v.Base)
    (hc : v.Can (.take now known)) : v.flying = 0 := by
  obtain ⟨-, m, hm, hst⟩ := hc
  by_contra hne
  rcases h.status m hm hne with hs | hs <;> simp [hs] at hst

theorem Base.next {v : View} {a : Act} (h : v.Base) (hc : v.Can a)
    (hG : ∀ n, a = .add n → v.Unused) : (v.next a).Base := by
  cases a with
  | none => exact h
  | request =>
      refine ⟨h.flying, fun m hm hne => ?_, h.place⟩
      obtain ⟨m, hm', rfl⟩ := Option.map_eq_some_iff.mp hm
      rw [Mail.request_status]
      exact h.status m hm' hne
  | mark now =>
      refine ⟨h.flying, fun m hm _ => ?_, h.place⟩
      obtain ⟨m, -, rfl⟩ := Option.map_eq_some_iff.mp hm
      exact Or.inr rfl
  | add n => exact ⟨h.flying, fun m _ hne => absurd (hG n rfl).2 hne, h.place⟩
  | landed r =>
      have hfly := flying_landed h hc
      exact ⟨hfly ▸ h.flying, fun m hm hne => h.status m hm (hfly ▸ hne),
        fun hp => hfly.trans (h.place hp)⟩
  | update =>
      have hfly := flying_update h
      cases hr : v.result with
      | none =>
          rw [hr, Option.isSome_none, if_neg Bool.false_ne_true] at hfly
          refine ⟨hfly ▸ h.flying, fun m hm hne => ?_, fun hp => hfly.trans (h.place hp)⟩
          obtain ⟨m, hm', rfl⟩ := Option.map_eq_some_iff.mp hm
          rw [hr]
          exact h.status m hm' (hfly ▸ hne)
      | some r =>
          rw [hr, Option.isSome_some, if_pos rfl] at hfly
          exact ⟨hfly ▸ Nat.zero_le 1, fun m _ hne => absurd hfly hne, fun _ => hfly⟩
  | take now known => exact ⟨h.flying, h.status, fun _ => h.flying_of_take hc⟩
  | found => exact ⟨h.flying, h.status, fun _ => h.place (Or.inl hc)⟩
  | fail now errstr =>
      exact ⟨h.flying, fun m _ hne => absurd (h.place hc) hne, fun _ => h.place hc⟩
  | passed | kept => exact ⟨h.flying, h.status, fun hp => absurd hp not_handed⟩
  | start =>
      have hfly : v.flying = 0 := h.place (Or.inr hc)
      have hnext : (v.next .start).flying = 1 :=
        (Nat.add_right_comm _ _ _).trans (congrArg (· + 1) hfly)
      refine ⟨hnext.le, fun m hm _ => ?_, fun hp => absurd hp not_handed⟩
      obtain ⟨m, -, rfl⟩ := Option.map_eq_some_iff.mp hm
      exact Or.inl rfl
  | report =>
      refine ⟨h.flying, h.status, fun hp => ?_⟩
      cases hcode : v.mail.bind (·.code) <;> simp [View.next, hcode] at hp
  | erased =>
      refine ⟨h.flying, fun _ hm => ?_, fun hp => absurd hp not_handed⟩
      exact nomatch hm

end View

/-- Where a phase stands with the number `k`. -/
def Phase.place (k : Nat) : Phase → Place
  | .template it _ _ => if it = k then .template else .away
  | .prepared it => if it = k then .prepared else .away
  | .answer vec _ => (vec.lookup k).elim .away .reported
  | _ => .away

theorem place_eq_prepared_iff {p : Phase} {k : Nat} : p.place k = .prepared ↔ p = .prepared k := by
  cases p with
  | prepared it => simp [Phase.place]
  | template it i got => by_cases h : it = k <;> simp [Phase.place, h]
  | answer vec got => cases h : vec.lookup k <;> simp [Phase.place, h]
  | _ => simp [Phase.place]

/-- The mail of a list that has the number `k` at last. -/
def lastGiven (k : Nat) : Nat → List (Option MailNode) → Option MailNode
  | _, [] => none
  | seq_no, n :: ns =>
      (lastGiven k (nextSeq seq_no) ns).or (if nextSeq seq_no = k then n else none)

namespace Engine

def view (s : Engine) (k : Nat) : View where
  mail := s.m_map_mail.find k
  running := s.threads.count k
  result := s.m_map_mail_tmp.find k
  place := s.phase.place k

/-- What a step is to the number `k`. -/
def act (s : Engine) (e : Event) (k : Nat) : Act :=
  match e with
  | .request => .request
  | .notify stop now =>
      if (s.m_map_mail.find k).any (·.isStopped stop) then .mark now else .none
  | .list mailnum mail =>
      ((makeMailList mailnum mail).bind (lastGiven k s.seq_no)).elim .none .add
  | .answer iret template now =>
      match s.phase with
      | .template it i _ =>
          if it = k then
            if iret && template then .found
            else if i < 3 then .none
            else .fail now "499 can't get template".toList
          else .none
      | .answer vec _ => if (vec.lookup k).isSome then (if iret then .erased else .kept) else .none
      | _ => .none
  | .look now known =>
      match s.phase with
      | .scan it =>
          match s.next it with
          | some (k', m) =>
              if k' = k ∧ ¬(m.node.status = .soft ∧ now - m.node.stime < 120) ∧
                  (m.node.status = .unsent ∨ m.node.status = .soft) then .take now known
              else .none
          | _ => .none
      | _ => .none
  | .send now o =>
      if s.phase.place k = .prepared then
        match o with
        | .unfit | .noThread => .passed
        | .noDomain => .fail now "550 Mailbox not found,Domain not exist".toList
        | .started => .start
      else .none
  | .result k' r => if k' = k then .landed r else .none
  | .update => .update
  | .report now sent =>
      if s.m_reportiterval ≤ now - s.m_iterval ∧ sent = true then .report else .none
  | .totle _ => .none

/-! ### One step, for one number -/

theorem makeMail_new {mail : Text} {n : MailNode} (h : makeMail mail = some n) :
    n.status = .unsent ∧ n.failtimes = 0 := by
  rw [makeMail] at h
  split at h
  · exact nomatch h
  · obtain ⟨_, -, rfl⟩ := Option.map_eq_some_iff.mp h
    exact ⟨rfl, rfl⟩

/-- The mails of a list are new. -/
theorem makeMailList_new {mailnum : Nat} {mail : Text} {nodes : List (Option MailNode)}
    (h : makeMailList mailnum mail = some nodes) {n : MailNode} (hn : some n ∈ nodes) :
    n.status = .unsent ∧ n.failtimes = 0 := by
  induction mailnum generalizing mail nodes with
  | zero =>
      cases h
      exact nomatch hn
  | succ mailnum ih =>
      rw [makeMailList] at h
      split at h
      · obtain ⟨nodes', h', rfl⟩ := Option.map_eq_some_iff.mp h
        exact ih h' ((List.mem_cons.mp hn).resolve_left (nomatch ·))
      · obtain ⟨node, hnode, h⟩ := Option.bind_eq_some_iff.mp h
        obtain ⟨nodes', h', rfl⟩ := Option.map_eq_some_iff.mp h
        rcases List.mem_cons.mp hn with hn | hn
        · split at hn
          next => exact nomatch hn
          next => exact makeMail_new (Option.some.inj hn ▸ hnode)
        · exact ih h' hn

theorem mem_of_lastGiven {k : Nat} {n : MailNode} :
    ∀ {nodes : List (Option MailNode)} {seq_no : Nat},
    lastGiven k seq_no nodes = some n → some n ∈ nodes
  | node :: nodes, seq_no, h => by
      rw [lastGiven, Option.or_eq_some_iff] at h
      rcases h with h | ⟨-, h⟩
      · exact List.mem_cons_of_mem _ (mem_of_lastGiven h)
      · split at h
        · exact h ▸ List.mem_cons_self
        · exact nomatch h

theorem find_next {s : Engine} {it k : Nat} {m : Mail} (h : s.next it = some (k, m)) :
    s.m_map_mail.find k = some m :=
  StdMap.find_eq_some_iff.mpr (List.mem_of_find?_eq_some h)

theorem find_addMails (k : Nat) : ∀ (nodes : List (Option MailNode)) (s : Engine),
    (nodes.foldl addMail s).m_map_mail.find k
      = ((lastGiven k s.seq_no nodes).map fun n => ⟨n, .new⟩).or (s.m_map_mail.find k)
  | [], _ => rfl
  | node :: nodes, s => by
      rw [List.foldl_cons, find_addMails k nodes, lastGiven]
      cases node with
      | none =>
          rw [ite_self, Option.or_none]
          rfl
      | some n =>
          simp only [addMail, StdMap.find_set]
          cases lastGiven k (nextSeq s.seq_no) nodes with
          | some _ => rfl
          | none =>
              by_cases hk : nextSeq s.seq_no = k
              · rw [if_pos hk, if_pos hk.symm]
                rfl
              · rw [if_neg hk, if_neg (Ne.symm hk)]
                rfl

theorem addMails_rest : ∀ (nodes : List (Option MailNode)) (s : Engine),
    (nodes.foldl addMail s).threads = s.threads ∧
      (nodes.foldl addMail s).m_map_mail_tmp = s.m_map_mail_tmp
  | [], _ => ⟨rfl, rfl⟩
  | node :: nodes, s => by
      rw [List.foldl_cons]
      have h := addMails_rest nodes (s.addMail node)
      cases node <;> exact h

theorem place_parsed (k : Nat) (p : Phase) : p.parsed.place k = p.place k := by
  cases p <;> rfl

theorem mem_eraseKeys (vec : List (Nat × Char)) (k : Nat) :
    (vec.map Prod.fst).contains k = (vec.lookup k).isSome := by
  induction vec with
  | nil => rfl
  | cons e vec ih =>
      obtain ⟨k', c⟩ := e
      rw [List.map_cons, List.contains_cons, ih, List.lookup_cons]
      by_cases hk : k = k'
      · rw [beq_iff_eq.mpr hk]
        rfl
      · rw [beq_eq_false_iff_ne.mpr hk]
        rfl

theorem lookup_codes {k : Nat} : ∀ {l : List (Nat × Mail)}, l.Pairwise (fun a b => a.1 < b.1) →
    (l.filterMap fun e => e.2.code.map (e.1, ·)).lookup k = (StdMap.lookup k l).bind (·.code)
  | [], _ => rfl
  | (k', m) :: l, hs => by
      obtain ⟨hlt, hs⟩ := List.pairwise_cons.mp hs
      have ih := lookup_codes (k := k) hs
      rw [List.filterMap_cons, StdMap.lookup]
      by_cases hk : k = k'
      · subst hk
        have hnone : StdMap.lookup k l = none := by
          cases hl : StdMap.lookup k l with
          | none => rfl
          | some _ => exact absurd (hlt _ (StdMap.mem_of_lookup hl)) (Nat.lt_irrefl k)
        rw [hnone] at ih
        rw [if_pos rfl, Option.bind_some]
        cases hc : m.code with
        | none => exact ih
        | some c => simp
      · rw [if_neg hk, ← ih]
        cases hc : m.code with
        | none => rfl
        | some c => simp [List.lookup_cons, beq_eq_false_iff_ne.mpr hk]

/-- The letter a number is reported with is that of its mail. -/
theorem lookup_reported (s : Engine) (k : Nat) :
    s.reported.lookup k = (s.m_map_mail.find k).bind (·.code) := lookup_codes s.m_map_mail.sorted

/-- A step of the engine does its act to the number `k`, and the act may happen there. -/
def Follows (s : Engine) (e : Event) (s' : Engine) (k : Nat) : Prop :=
  (s.view k).Can (s.act e k) ∧ s'.view k = (s.view k).next (s.act e k)

section
variable (s : Engine) (k : Nat)

theorem handleNotifyMsg_follows (stop : List TaskId) (now : Int) :
    Follows s (.notify stop now) (s.handleNotifyMsg stop now) k := by
  unfold Follows
  simp only [act]
  cases hm : s.m_map_mail.find k with
  | none =>
      refine ⟨trivial, View.ext ?_ rfl rfl rfl⟩
      simp only [view, handleNotifyMsg, StdMap.find_mapVals, hm]
      rfl
  | some m =>
      rw [Option.any_some]
      split
      next hstop =>
        rw [Mail.isStopped, Bool.and_eq_true, bne_iff_ne] at hstop
        refine ⟨⟨m, hm, hstop.2⟩, View.ext ?_ rfl rfl rfl⟩
        simp only [view, handleNotifyMsg, StdMap.find_mapVals, hm, View.next, Option.map_some,
          Mail.isStopped, Bool.and_eq_true, bne_iff_ne, hstop, ne_eq, not_false_eq_true,
          and_self, if_true]
      next hstop =>
        refine ⟨trivial, View.ext ?_ rfl rfl rfl⟩
        simp only [view, handleNotifyMsg, StdMap.find_mapVals, hm, View.next, Option.map_some,
          hstop]
        rfl

theorem addMails_follows {mailnum : Nat} {mail : Text} {nodes : List (Option MailNode)}
    (hnodes : makeMailList mailnum mail = some nodes) :
    Follows s (.list mailnum mail) { nodes.foldl addMail s with phase := s.phase.parsed } k := by
  unfold Follows
  obtain ⟨hthreads, htmp⟩ := addMails_rest nodes s
  have hfind := find_addMails k nodes s
  simp only [act, hnodes, Option.bind_some]
  cases hg : lastGiven k s.seq_no nodes with
  | none =>
      rw [hg] at hfind
      refine ⟨trivial, View.ext hfind ?_ ?_ (place_parsed k s.phase)⟩
      · simp only [view, hthreads]
        rfl
      · simp only [view, htmp]
        rfl
  | some n =>
      rw [hg] at hfind
      refine ⟨makeMailList_new hnodes (mem_of_lastGiven hg),
        View.ext hfind ?_ ?_ (place_parsed k s.phase)⟩
      · simp only [view, hthreads]
        rfl
      · simp only [view, htmp]
        rfl

variable {s}

theorem checkTemplate_follows {it i : Nat} {got : Bool} (hp : s.phase = .template it i got)
    (iret template : Bool) (now : Int) :
    Follows s (.answer iret template now) (s.checkTemplate it i (iret && template) now) k := by
  unfold Follows
  simp only [act, hp, checkTemplate]
  by_cases hk : it = k
  · have hplace : s.phase.place k = .template := by rw [hp, Phase.place, if_pos hk]
    rw [if_pos hk]
    split
    · refine ⟨hplace, View.ext rfl rfl rfl ?_⟩
      simp only [view, Phase.place, hk, if_true, View.next]
    · split
      · refine ⟨trivial, View.ext rfl rfl rfl ?_⟩
        simp only [view, Phase.place, hk, if_true, View.next, hp]
      · refine ⟨Or.inl hplace, View.ext ?_ rfl rfl rfl⟩
        simp only [view, StdMap.find_modify, hk, if_true, View.next]
  · rw [if_neg hk]
    refine ⟨trivial, ?_⟩
    have hplace : s.phase.place k = .away := by rw [hp, Phase.place, if_neg hk]
    split
    · exact View.ext rfl rfl rfl ((if_neg hk).trans hplace.symm)
    · split
      · exact View.ext rfl rfl rfl ((if_neg hk).trans hplace.symm)
      · refine View.ext ?_ rfl rfl hplace.symm
        simp only [view, StdMap.find_modify, Ne.symm hk, if_false, View.next]

theorem endReport_follows {vec : List (Nat × Char)} {got : Bool} (hp : s.phase = .answer vec got)
    (iret template : Bool) (now : Int) :
    Follows s (.answer iret template now) (s.endReport vec iret now) k := by
  unfold Follows
  simp only [act, hp, endReport]
  cases hl : vec.lookup k with
  | none =>
      have hplace : s.phase.place k = .away := by rw [hp, Phase.place, hl]; rfl
      refine ⟨trivial, ?_⟩
      cases iret with
      | false => exact View.ext rfl rfl rfl hplace.symm
      | true =>
          refine View.ext ?_ rfl rfl hplace.symm
          simp only [view, eraseMails, if_true, StdMap.find_keep, mem_eraseKeys, hl]
          rfl
  | some c =>
      have hplace : s.phase.place k = .reported c := by rw [hp, Phase.place, hl]; rfl
      cases iret with
      | false => exact ⟨⟨c, hplace⟩, View.ext rfl rfl rfl rfl⟩
      | true =>
          refine ⟨⟨c, hplace⟩, View.ext ?_ rfl rfl rfl⟩
          simp only [view, eraseMails, if_true, StdMap.find_keep, mem_eraseKeys, hl]
          rfl

theorem scan_follows {it : Nat} (hp : s.phase = .scan it) (now : Int) (known : Bool) :
    Follows s (.look now known) (s.scan it now known) k := by
  unfold Follows
  have haway : s.phase.place k = .away := by rw [hp]; rfl
  simp only [act, hp, scan]
  cases hn : s.next it with
  | none => exact ⟨trivial, View.ext rfl rfl rfl haway.symm⟩
  | some e =>
      obtain ⟨k', m⟩ := e
      dsimp only
      by_cases hrec : m.node.status = .soft ∧ now - m.node.stime < 120
      · rw [if_pos hrec, if_neg fun h => h.2.1 hrec]
        exact ⟨trivial, View.ext rfl rfl rfl haway.symm⟩
      · rw [if_neg hrec]
        by_cases hst : m.node.status = .unsent ∨ m.node.status = .soft
        · rw [if_pos hst]
          by_cases hk : k' = k
          · subst hk
            rw [if_pos ⟨rfl, hrec, hst⟩]
            refine ⟨⟨haway, m, find_next hn, hst.imp_right fun h => ⟨h, ?_⟩⟩,
              View.ext rfl rfl rfl ?_⟩
            · exact Int.not_lt.mp fun hlt => hrec ⟨h, hlt⟩
            · cases known <;> exact if_pos rfl
          · rw [if_neg fun h => hk h.1]
            refine ⟨trivial, View.ext rfl rfl rfl ?_⟩
            refine Eq.trans ?_ haway.symm
            cases known <;> exact if_neg hk
        · rw [if_neg hst, if_neg fun h => hst h.2.2]
          exact ⟨trivial, View.ext rfl rfl rfl haway.symm⟩

theorem send_follows {k' : Nat} (hp : s.phase = .prepared k') (now : Int) (o : Sending) :
    Follows s (.send now o) (s.send k' now o) k := by
  unfold Follows
  by_cases hk : k' = k
  · subst hk
    have hplace : s.phase.place k' = .prepared := by rw [hp]; exact if_pos rfl
    simp only [act, hplace, if_true]
    cases o with
    | unfit => exact ⟨hplace, View.ext rfl rfl rfl rfl⟩
    | noThread => exact ⟨hplace, View.ext rfl rfl rfl rfl⟩
    | noDomain =>
        refine ⟨Or.inr hplace, View.ext ?_ rfl rfl rfl⟩
        simp only [view, send, StdMap.find_modify, if_true, View.next]
    | started =>
        refine ⟨hplace, View.ext ?_ ?_ rfl rfl⟩
        · simp only [view, send, StdMap.find_modify, if_true, View.next]
        · exact List.count_cons_self
  · have hplace : s.phase.place k = .away := by rw [hp]; exact if_neg hk
    simp only [act, hplace, reduceCtorEq, if_false]
    refine ⟨trivial, ?_⟩
    cases o with
    | unfit => exact View.ext rfl rfl rfl hplace.symm
    | noThread => exact View.ext rfl rfl rfl hplace.symm
    | noDomain =>
        refine View.ext ?_ rfl rfl hplace.symm
        simp only [view, send, StdMap.find_modify, Ne.symm hk, if_false, View.next]
    | started =>
        refine View.ext ?_ ?_ rfl hplace.symm
        · simp only [view, send, StdMap.find_modify, Ne.symm hk, if_false, View.next]
        · exact List.count_cons_of_ne hk

theorem sendReport_follows (hp : s.phase = .report) (now : Int) (sent : Bool) :
    Follows s (.report now sent) (s.sendReport now sent) k := by
  unfold Follows
  have haway : s.phase.place k = .away := by rw [hp]; rfl
  simp only [act, sendReport]
  by_cases hdue : s.m_reportiterval ≤ now - s.m_iterval
  · cases sent with
    | false =>
        rw [if_neg fun h => Bool.false_ne_true h.2]
        refine ⟨trivial, ?_⟩
        split <;> exact View.ext rfl rfl rfl haway.symm
    | true =>
        rw [if_pos ⟨hdue, rfl⟩]
        refine ⟨haway, ?_⟩
        by_cases hne : s.m_map_mail.entries = []
        · rw [if_neg fun h => h.2 hne]
          have hnone : s.m_map_mail.find k = none := by rw [StdMap.find, hne]; rfl
          refine View.ext rfl rfl rfl ?_
          simp only [View.next, view, hnone]
          rfl
        · rw [if_pos ⟨hdue, hne⟩]
          refine View.ext rfl rfl rfl ?_
          simp only [View.next, view, if_true, Phase.place, lookup_reported]
  · rw [if_neg fun h => hdue h.1, if_neg fun h => hdue h.1]
    exact ⟨trivial, View.ext rfl rfl rfl haway.symm⟩

theorem updateTotle_follows (hp : s.phase = .totle) (now : Int) :
    Follows s (.totle now) { s.updateTotle now with phase := .request } k := by
  unfold Follows
  have haway : s.phase.place k = .away := by rw [hp]; rfl
  refine ⟨trivial, ?_⟩
  simp only [updateTotle, act, View.next]
  split
  · exact View.ext rfl rfl rfl haway.symm
  · split
    · exact View.ext rfl rfl rfl haway.symm
    · exact View.ext rfl rfl rfl haway.symm

end

/-- Whatever a step does, it does one act to each number, and the act may happen there. -/
theorem follow {s s' : Engine} {e : Event} (h : s.Steps e s') (k : Nat) :
    (s.view k).Can (s.act e k) ∧ s'.view k = (s.view k).next (s.act e k) := by
  cases e with
  | request =>
      simp only [Steps, step] at h
      split at h
      next hp =>
        cases h
        have haway : s.phase.place k = .away := by rw [hp]; rfl
        refine ⟨haway, View.ext (StdMap.find_mapVals _ _ k) rfl rfl haway.symm⟩
      next => exact nomatch h
  | notify stop now =>
      simp only [Steps, step] at h
      split at h
      · cases h
        exact handleNotifyMsg_follows s k stop now
      · exact nomatch h
  | list mailnum mail =>
      simp only [Steps, step] at h
      split at h
      · obtain ⟨nodes, hnodes, rfl⟩ := Option.map_eq_some_iff.mp h
        exact addMails_follows s k hnodes
      · exact nomatch h
  | answer iret template now =>
      simp only [Steps, step] at h
      split at h
      next got hp =>
        split at h
        · exact nomatch h
        · cases h
          simp only [act, hp]
          refine ⟨trivial, View.ext rfl rfl rfl ?_⟩
          simp only [view, View.next, hp]
          split <;> rfl
      next it i got hp =>
        split at h
        · exact nomatch h
        · cases h
          exact checkTemplate_follows k hp iret template now
      next vec got hp =>
        split at h
        · exact nomatch h
        · cases h
          exact endReport_follows k hp iret template now
      next => exact nomatch h
  | look now known =>
      simp only [Steps, step] at h
      split at h
      next it hp =>
        cases h
        exact scan_follows k hp now known
      next => exact nomatch h
  | send now o =>
      simp only [Steps, step] at h
      split at h
      next k' hp =>
        cases h
        exact send_follows k hp now o
      next => exact nomatch h
  | result k' r =>
      simp only [Steps, step] at h
      split at h
      next hmem =>
        cases h
        simp only [act]
        by_cases hk : k' = k
        · subst hk
          rw [if_pos rfl]
          refine ⟨List.count_pos_iff.mpr hmem, View.ext rfl ?_ ?_ rfl⟩
          · exact List.count_erase_self
          · simp only [view, StdMap.find_set, if_true, View.next]
        · rw [if_neg hk]
          refine ⟨trivial, View.ext rfl ?_ ?_ rfl⟩
          · exact List.count_erase_of_ne (Ne.symm hk)
          · simp only [view, StdMap.find_set, Ne.symm hk, if_false, View.next]
      next => exact nomatch h
  | update =>
      simp only [Steps, step] at h
      split at h
      next hp =>
        cases h
        have haway : s.phase.place k = .away := by rw [hp]; rfl
        refine ⟨haway, View.ext ?_ rfl rfl haway.symm⟩
        exact StdMap.find_mapVals _ _ k
      next => exact nomatch h
  | report now sent =>
      simp only [Steps, step] at h
      split at h
      next hp =>
        cases h
        exact sendReport_follows k hp now sent
      next => exact nomatch h
  | totle now =>
      simp only [Steps, step] at h
      split at h
      next hp =>
        cases h
        exact updateTotle_follows k hp now
      next => exact nomatch h

/-! ### Where an act comes from -/

/-- The event, and the place of the engine, that an act to `k` comes from. -/
def Origin (s : Engine) (e : Event) (k : Nat) : Act → Prop
  | .none => True
  | .request => e = .request
  | .mark now => ∃ stop, e = .notify stop now
  | .add n => ∃ mailnum mail, e = .list mailnum mail ∧
      (makeMailList mailnum mail).bind (lastGiven k s.seq_no) = some n
  | .landed r => e = .result k r
  | .update => e = .update
  | .take now known => e = .look now known
  | .found => ∃ now i got, e = .answer true true now ∧ s.phase = .template k i got
  | .fail _ _ => (∃ iret template now i got, e = .answer iret template now ∧
      s.phase = .template k i got) ∨ ∃ now, e = .send now .noDomain ∧ s.phase = .prepared k
  | .passed => ∃ now o, e = .send now o ∧ s.phase = .prepared k
  | .start => ∃ now, e = .send now .started ∧ s.phase = .prepared k
  | .report => ∃ now, e = .report now true ∧ s.m_reportiterval ≤ now - s.m_iterval
  | .erased => ∃ vec got template now, e = .answer true template now ∧ s.phase = .answer vec got ∧
      (vec.lookup k).isSome = true
  | .kept => ∃ template now, e = .answer false template now

theorem act_origin (s : Engine) (e : Event) (k : Nat) : s.Origin e k (s.act e k) := by
  cases e with
  | request | update => rfl
  | totle => trivial
  | notify stop now =>
      simp only [act]
      split
      · exact ⟨stop, rfl⟩
      · trivial
  | list mailnum mail =>
      simp only [act]
      cases hl : (makeMailList mailnum mail).bind (lastGiven k s.seq_no) with
      | none => trivial
      | some n => exact ⟨mailnum, mail, rfl, hl⟩
  | answer iret template now =>
      simp only [act]
      split
      next it i got hphase =>
        split
        next hk =>
          subst hk
          split
          next hfound =>
            obtain ⟨rfl, rfl⟩ := Bool.and_eq_true_iff.mp hfound
            exact ⟨now, i, got, rfl, hphase⟩
          next =>
            split
            · trivial
            · exact Or.inl ⟨iret, template, now, i, got, rfl, hphase⟩
        next => trivial
      next vec got hphase =>
        split
        next hl =>
          cases iret with
          | false => exact ⟨template, now, rfl⟩
          | true => exact ⟨vec, got, template, now, rfl, hphase, hl⟩
        next => trivial
      · trivial
  | look now known =>
      simp only [act]
      split
      · split
        · split
          · rfl
          · trivial
        · trivial
      · trivial
  | send now o =>
      simp only [act]
      split
      next hplace =>
        have hphase := place_eq_prepared_iff.mp hplace
        cases o with
        | unfit | noThread => exact ⟨now, _, rfl, hphase⟩
        | noDomain => exact Or.inr ⟨now, rfl, hphase⟩
        | started => exact ⟨now, rfl, hphase⟩
      next => trivial
  | result k' r =>
      simp only [act]
      split
      next hk => rw [Origin, hk]
      next => trivial
  | report now sent =>
      simp only [act]
      split
      next h => exact ⟨now, by rw [h.2], h.1⟩
      next => trivial

/-! ### Runs, for one number -/

/-- A condition on a step that is one on each number. -/
def Each (G : View → Act → Prop) (s : Engine) (e : Event) : Prop :=
  ∀ k, G (s.view k) (s.act e k)

theorem view_init (doms : Domains) (m_reportiterval now : Int) (k : Nat) :
    (init doms m_reportiterval now).view k = ⟨none, 0, none, .away⟩ := rfl

/-- What the acts keep of a view holds of every number after every run. -/
theorem views_run {G : View → Act → Prop} {I : View → Prop}
    (hI : ∀ v a, I v → v.Can a → G v a → I (v.next a)) {s s' : Engine} {es : List Event}
    (h : Run (Guarded (Each G) Steps) s es s') (h₀ : ∀ k, I (s.view k)) : ∀ k, I (s'.view k) := by
  refine h.invariant (I := fun s => ∀ k, I (s.view k)) (fun s e s' hs he k => ?_) h₀
  obtain ⟨hcan, hview⟩ := follow he.2 k
  rw [hview]
  exact hI _ _ (hs k) hcan (he.1 k)

end Engine

end Edm.Deliver
