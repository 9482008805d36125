import Edm.Deliver.Follow

/-!
# Deliver — SeqNo

The numbers of the mails.  `MakeMailList` counts the records it comes by, those of length zero and
of invalid tasks too; the count goes around after 10000001 of them, and it is the key of the
record in `m_map_mail`, whether that is in use or not.

A `Watch` is the engine with what has happened to the records: which were received for the map,
under which number each was received, which were in a report, and which came under a number in
use.

`never_displaced`: as long as no record comes a multiple of 10000001 records after one that is
still in the map, no record is displaced, and every record stays in the map until a report with it
has been sent.
-/

namespace Edm.Deliver.SeqNo
open Support

/-- How many numbers there are. -/
def cycle : Nat := 10000001

/-- `n'` is the record of `n`; what a delivery writes into it may differ. -/
def SameRecord (n n' : MailNode) : Prop :=
  n.mail = n'.mail ∧ n.domain = n'.domain ∧ n.taskId = n'.taskId ∧ n.mapVariable = n'.mapVariable

theorem SameRecord.refl (n : MailNode) : SameRecord n n := ⟨rfl, rfl, rfl, rfl⟩

theorem SameRecord.trans {n n' n'' : MailNode} (h : SameRecord n n') (h' : SameRecord n' n'') :
    SameRecord n n'' :=
  ⟨h.1.trans h'.1, h.2.1.trans h'.2.1, h.2.2.1.trans h'.2.2.1, h.2.2.2.trans h'.2.2.2⟩

/-- What is in a report that waits for its answer. -/
def waiting : Phase → List (Nat × Char)
  | .answer vec _ => vec
  | _ => []

/-- The engine and its records; a record is named by how many had been received with it. -/
structure Watch where
  engine : Engine
  count : Nat
  /-- The record that was added last under a number. -/
  birth : Nat → Nat
  received : List (Nat × MailNode)
  /-- The records in the reports that were sent. -/
  contained : List Nat
  /-- The records that came under a number in use. -/
  displacing : List Nat

def Watch.init (doms : Domains) (m_reportiterval now : Int) : Watch :=
  ⟨.init doms m_reportiterval now, 0, fun _ => 0, [], [], []⟩

namespace Watch

/-- One record of a list. -/
def receive (w : Watch) : Option MailNode → Watch
  | none => { w with engine := w.engine.addMail none, count := w.count + 1 }
  | some n =>
      { w with
        engine := w.engine.addMail (some n)
        count := w.count + 1
        birth := Function.update w.birth (nextSeq w.engine.seq_no) (w.count + 1)
        received := w.received ++ [(w.count + 1, n)]
        displacing := w.displacing ++
          if (w.engine.m_map_mail.find (nextSeq w.engine.seq_no)).isSome then [w.count + 1]
          else [] }

/-- A step of the engine, watched. -/
def step (w : Watch) (e : Event) : Option Watch :=
  (w.engine.step e).map fun s' =>
    match e with
    | .list mailnum mail =>
        { ((makeMailList mailnum mail).getD []).foldl receive w with engine := s' }
    | .report _ _ =>
        { w with
          engine := s'
          contained := w.contained ++ (waiting s'.phase).map fun r => w.birth r.1 }
    | _ => { w with engine := s' }

def Steps (w : Watch) (e : Event) (w' : Watch) : Prop := w.step e = some w'

/-- The next record is not a multiple of 10000001 records behind one of the map. -/
def Apart (w : Watch) : Prop :=
  ∀ r ∈ w.engine.m_map_mail.entries, ¬ cycle ∣ w.count + 1 - w.birth r.1

instance (w : Watch) : Decidable w.Apart := inferInstanceAs (Decidable (∀ r ∈ _, _))

/-- `Apart`, at every record of a list that is added. -/
def AllApart (w : Watch) : List (Option MailNode) → Prop
  | [] => True
  | node :: nodes => (node.isSome = true → w.Apart) ∧ AllApart (w.receive node) nodes

/-- No list has a record a multiple of 10000001 records behind one of the map. -/
def Unlapped (w : Watch) : Event → Prop
  | .list mailnum mail => w.AllApart ((makeMailList mailnum mail).getD [])
  | _ => True

/-- No record came under a number in use, and every record is in the map that no report has
contained. -/
structure Kept (w : Watch) : Prop where
  unused : w.displacing = []
  stays : ∀ {j n}, (j, n) ∈ w.received → j ∉ w.contained →
    ∃ k m, w.engine.m_map_mail.find k = some m ∧ w.birth k = j ∧ SameRecord n m.node

/-! ### The numbers -/

variable {w w' : Watch}

theorem nextSeq_mod (n : Nat) : nextSeq (n % cycle) = (n + 1) % cycle := by
  rw [nextSeq, cycle]
  split <;> omega

/-- The counts agree, every number in use was given to its mail, what a report contains is in the
map and known to be contained, and what no report has contained is in the map. -/
structure Law (w : Watch) : Prop where
  seq : w.engine.seq_no = w.count % cycle
  unused : w.displacing = []
  born : ∀ {k m}, w.engine.m_map_mail.find k = some m →
    1 ≤ w.birth k ∧ w.birth k ≤ w.count ∧ w.birth k % cycle = k
  reported : ∀ {k c}, w.engine.phase.place k = .reported c →
    (∃ m, w.engine.m_map_mail.find k = some m) ∧ w.birth k ∈ w.contained
  stays : ∀ {j n}, (j, n) ∈ w.received → j ∉ w.contained →
    ∃ k m, w.engine.m_map_mail.find k = some m ∧ w.birth k = j ∧ SameRecord n m.node

namespace Law

theorem init (doms : Domains) (m_reportiterval now : Int) :
    (Watch.init doms m_reportiterval now).Law where
  seq := rfl
  unused := rfl
  born h := absurd h.symm (Option.some_ne_none _)
  reported h := by cases h
  stays h := absurd h List.not_mem_nil

/-- The number of the next record is free. -/
theorem find_next (h : w.Law) (hapart : w.Apart) :
    w.engine.m_map_mail.find (nextSeq w.engine.seq_no) = none := by
  rw [h.seq, nextSeq_mod]
  cases hfind : w.engine.m_map_mail.find ((w.count + 1) % cycle) with
  | none => rfl
  | some m =>
    obtain ⟨-, -, hmod⟩ := h.born hfind
    refine absurd ?_ (hapart _ (StdMap.find_eq_some_iff.mp hfind))
    exact Nat.dvd_of_mod_eq_zero (Nat.sub_mod_eq_zero_of_mod_eq hmod.symm)

theorem receive_none (h : w.Law) : (w.receive none).Law where
  seq := (congrArg nextSeq h.seq).trans (nextSeq_mod _)
  unused := h.unused
  born hm := (h.born hm).imp_right (And.imp_left Nat.le_succ_of_le)
  reported hp := h.reported hp
  stays hj hc := h.stays hj hc

/-- A record comes under a number that is free: the others keep theirs. -/
theorem receive_some (h : w.Law) (hapart : w.Apart) (n : MailNode) : (w.receive (some n)).Law := by
  have hfree := h.find_next hapart
  have hnext : nextSeq w.engine.seq_no = (w.count + 1) % cycle := by rw [h.seq, nextSeq_mod]
  have hne : ∀ {k m}, w.engine.m_map_mail.find k = some m → k ≠ nextSeq w.engine.seq_no := by
    rintro k m hm rfl
    exact Option.some_ne_none m (hm.symm.trans hfree)
  have hfind : ∀ k, (w.engine.addMail (some n)).m_map_mail.find k
      = if k = nextSeq w.engine.seq_no then some ⟨n, .new⟩ else w.engine.m_map_mail.find k :=
    fun k => StdMap.find_set ..
  refine ⟨hnext, ?_, fun {k m} hm => ?_, fun {k c} hp => ?_, fun {j n'} hj hc => ?_⟩
  · simp [receive, h.unused, hfree]
  · simp only [receive] at hm ⊢
    rw [hfind] at hm
    by_cases hk : k = nextSeq w.engine.seq_no
    · rw [hk, Function.update_self]
      exact ⟨Nat.le_add_left 1 _, Nat.le_refl _, hnext.symm⟩
    · rw [if_neg hk] at hm
      rw [Function.update_of_ne hk]
      exact (h.born hm).imp_right (And.imp_left Nat.le_succ_of_le)
  · obtain ⟨⟨m, hm⟩, hc⟩ := h.reported hp
    have hk := hne hm
    simp only [receive]
    rw [hfind, if_neg hk, Function.update_of_ne hk]
    exact ⟨⟨m, hm⟩, hc⟩
  · simp only [receive, List.mem_append, List.mem_singleton, Prod.mk.injEq] at hj hc ⊢
    rcases hj with hj | ⟨rfl, rfl⟩
    · obtain ⟨k, m, hm, hb, hsame⟩ := h.stays hj hc
      refine ⟨k, m, ?_, ?_, hsame⟩
      · rw [hfind, if_neg (hne hm), hm]
      · rw [Function.update_of_ne (hne hm), hb]
    · refine ⟨nextSeq w.engine.seq_no, ⟨n', .new⟩, ?_, Function.update_self .., .refl n'⟩
      rw [hfind, if_pos rfl]

theorem receives {nodes : List (Option MailNode)} (h : w.Law) (hapart : w.AllApart nodes) :
    (nodes.foldl receive w).Law := by
  induction nodes generalizing w with
  | nil => exact h
  | cons node nodes ih =>
    refine ih ?_ hapart.2
    cases node with
    | none => exact h.receive_none
    | some n => exact h.receive_some (hapart.1 rfl) n

end Law

theorem receive_engine (w : Watch) (node : Option MailNode) :
    (w.receive node).engine = w.engine.addMail node := by
  cases node <;> rfl

theorem receives_engine (nodes : List (Option MailNode)) (w : Watch) :
    (nodes.foldl receive w).engine = nodes.foldl Engine.addMail w.engine := by
  induction nodes generalizing w with
  | nil => rfl
  | cons node nodes ih => rw [List.foldl_cons, ih, receive_engine, List.foldl_cons]

theorem addMails_phase (nodes : List (Option MailNode)) (s : Engine) :
    (nodes.foldl Engine.addMail s).phase = s.phase := by
  induction nodes generalizing s with
  | nil => rfl
  | cons node nodes ih =>
    rw [List.foldl_cons, ih]
    cases node <;> rfl

end Watch

/-! ### The other steps -/

/-- An act keeps the record of a mail, unless the mail comes or goes. -/
theorem next_mail {v : View} {a : Act} (hadd : ∀ n, a ≠ .add n) (herased : a ≠ .erased) {m : Mail}
    (hm : v.mail = some m) : ∃ m', (v.next a).mail = some m' ∧ SameRecord m.node m'.node := by
  cases a with
  | none | landed | take | found | passed | report | kept => exact ⟨m, hm, .refl _⟩
  | request =>
    refine ⟨m.request, congrArg (Option.map _) hm, ?_⟩
    rw [Mail.request]
    split <;> exact .refl _
  | mark now => exact ⟨m.mark now, congrArg (Option.map _) hm, .refl _⟩
  | add n => exact absurd rfl (hadd n)
  | update =>
    refine ⟨v.result.elim m fun r => m.takeResult r, congrArg (Option.map _) hm, ?_⟩
    cases v.result with
    | none => exact .refl _
    | some r =>
      rw [Option.elim_some, Mail.takeResult]
      split <;> exact .refl _
  | fail now errstr => exact ⟨m.fail now errstr, congrArg (Option.map _) hm, .refl _⟩
  | start => exact ⟨m.start, congrArg (Option.map _) hm, .refl _⟩
  | erased => exact absurd rfl herased

/-- Only what a list adds is new. -/
theorem mail_of_next {v : View} {a : Act} (hadd : ∀ n, a ≠ .add n) {m' : Mail}
    (hm : (v.next a).mail = some m') : ∃ m, v.mail = some m := by
  cases a with
  | none | landed | take | found | passed | report | kept => exact ⟨m', hm⟩
  | request | mark | update | fail | start =>
    obtain ⟨m, hm, -⟩ := Option.map_eq_some_iff.mp hm
    exact ⟨m, hm⟩
  | add n => exact absurd rfl (hadd n)
  | erased => exact absurd hm.symm (Option.some_ne_none m')

/-- A mail waits in a report because the report has just been put together, or because it has
waited. -/
theorem reported_of_next {v : View} {a : Act} {c : Char} (h : (v.next a).place = .reported c) :
    (a = .report ∧ ∃ m, v.mail = some m) ∨ (a ≠ .erased ∧ v.place = .reported c) := by
  cases a with
  | none | request | mark | add | landed | update => exact Or.inr ⟨by simp, h⟩
  | take now known => cases known <;> cases h
  | found | fail | passed | start | erased | kept => cases h
  | report =>
    refine Or.inl ⟨rfl, ?_⟩
    cases hm : v.mail with
    | none =>
      simp only [View.next, hm] at h
      cases h
    | some m => exact ⟨m, rfl⟩

/-- Only lists take numbers. -/
theorem seq_no_of_step {s s' : Engine} {e : Event} (h : s.step e = some s')
    (hlist : ∀ mailnum mail, e ≠ .list mailnum mail) : s'.seq_no = s.seq_no := by
  cases e with
  | list mailnum mail => exact absurd rfl (hlist mailnum mail)
  | request | notify | result | update =>
    simp only [Engine.step] at h
    split at h
    · obtain rfl := Option.some.inj h
      rfl
    · cases h
  | answer iret template now =>
    simp only [Engine.step] at h
    split at h
    · split at h
      · cases h
      · obtain rfl := Option.some.inj h
        rfl
    · split at h
      · cases h
      · obtain rfl := Option.some.inj h
        rw [Engine.checkTemplate]
        split
        · rfl
        · split <;> rfl
    · split at h
      · cases h
      · obtain rfl := Option.some.inj h
        cases iret <;> rfl
    · cases h
  | look now known =>
    simp only [Engine.step] at h
    split at h
    · obtain rfl := Option.some.inj h
      rw [Engine.scan]
      split
      · rfl
      · split
        · rfl
        · split <;> rfl
    · cases h
  | send now o =>
    simp only [Engine.step] at h
    split at h
    · obtain rfl := Option.some.inj h
      cases o <;> rfl
    · cases h
  | report now sent =>
    simp only [Engine.step] at h
    split at h
    · obtain rfl := Option.some.inj h
      rw [Engine.sendReport]
      split
      · split <;> rfl
      · rfl
    · cases h
  | totle now =>
    simp only [Engine.step] at h
    split at h
    · obtain rfl := Option.some.inj h
      rw [Engine.updateTotle]
      split
      · rfl
      · split <;> rfl
    · cases h

/-- Where a number is reported, its letter is in the report. -/
theorem mem_waiting_of_place {p : Phase} {k : Nat} {c : Char} (h : p.place k = .reported c) :
    (k, c) ∈ waiting p := by
  cases p with
  | answer vec got =>
    simp only [Phase.place] at h
    cases hl : vec.lookup k with
    | none =>
      rw [hl] at h
      cases h
    | some c' =>
      rw [hl] at h
      cases h
      obtain ⟨l₁, l₂, rfl, -⟩ := List.lookup_eq_some_iff.mp hl
      exact List.mem_append_right l₁ List.mem_cons_self
  | template it i got =>
    simp only [Phase.place] at h
    split at h <;> cases h
  | prepared it =>
    simp only [Phase.place] at h
    split at h <;> cases h
  | _ => cases h

namespace Watch
variable {w w' : Watch}

/-- A step that is no list keeps what is in the map, but for what a report has contained. -/
theorem Law.other (h : w.Law) {e : Event} {s' : Engine} (hs : w.engine.step e = some s')
    (hlist : ∀ mailnum mail, e ≠ .list mailnum mail) {contained : List Nat}
    (hsub : ∀ j ∈ w.contained, j ∈ contained)
    (hreport : ∀ now sent, e = .report now sent → ∀ r ∈ waiting s'.phase, w.birth r.1 ∈ contained) :
    ({ w with engine := s', contained := contained } : Watch).Law := by
  have hview : ∀ k, (w.engine.view k).Can (w.engine.act e k) ∧
      s'.view k = (w.engine.view k).next (w.engine.act e k) := Engine.follow hs
  have hadd : ∀ k n, w.engine.act e k ≠ .add n := fun k n hact => by
    have horigin := w.engine.act_origin e k
    rw [hact] at horigin
    obtain ⟨mailnum, mail, he, -⟩ := horigin
    exact hlist mailnum mail he
  refine ⟨(seq_no_of_step hs hlist).trans h.seq, h.unused, fun {k m} hm => ?_, fun {k c} hp => ?_,
    fun {j n} hj hc => ?_⟩
  · have hm' : (s'.view k).mail = some m := hm
    rw [(hview k).2] at hm'
    obtain ⟨m₀, hm₀⟩ := mail_of_next (hadd k) hm'
    exact h.born hm₀
  · have hp' : (s'.view k).place = .reported c := hp
    rw [(hview k).2] at hp'
    rcases reported_of_next hp' with ⟨hact, m, hm⟩ | ⟨herased, hplace⟩
    · -- The report has just been put together.
      have horigin := w.engine.act_origin e k
      rw [hact] at horigin
      obtain ⟨now, he, -⟩ := horigin
      obtain ⟨m', hm', -⟩ := next_mail (hadd k) (by simp [hact]) hm
      rw [← (hview k).2] at hm'
      exact ⟨⟨m', hm'⟩, hreport now true he _ (mem_waiting_of_place hp)⟩
    · obtain ⟨⟨m, hm⟩, hc⟩ := h.reported hplace
      obtain ⟨m', hm', -⟩ := next_mail (hadd k) herased (v := w.engine.view k) hm
      rw [← (hview k).2] at hm'
      exact ⟨⟨m', hm'⟩, hsub _ hc⟩
  · have hc' : j ∉ w.contained := fun hmem => hc (hsub j hmem)
    obtain ⟨k, m, hm, hb, hsame⟩ := h.stays hj hc'
    have herased : w.engine.act e k ≠ .erased := fun hact => by
      have hcan := (hview k).1
      rw [hact] at hcan
      obtain ⟨c, hplace⟩ := hcan
      exact hc' (hb ▸ (h.reported hplace).2)
    obtain ⟨m', hm', hsame'⟩ := next_mail (hadd k) herased (v := w.engine.view k) hm
    rw [← (hview k).2] at hm'
    exact ⟨k, m', hm', hb, hsame.trans hsame'⟩

theorem Law.step (h : w.Law) {e : Event} (hG : w.Unlapped e) (hs : w.Steps e w') : w'.Law := by
  obtain ⟨s', hs', rfl⟩ := Option.map_eq_some_iff.mp hs
  cases e with
  | list mailnum mail =>
    simp only [Engine.step] at hs'
    split at hs'
    next =>
      obtain ⟨nodes, hnodes, rfl⟩ := Option.map_eq_some_iff.mp hs'
      have hlaw := h.receives hG
      have hengine := receives_engine nodes w
      simp only [hnodes, Option.getD_some] at hlaw ⊢
      refine ⟨hengine ▸ hlaw.seq, hlaw.unused, fun hm => hlaw.born (hengine ▸ hm),
        fun {k c} hp => ?_,
        fun hj hc => hengine ▸ hlaw.stays hj hc⟩
      have hphase : (nodes.foldl receive w).engine.phase.place k = .reported c := by
        rw [hengine, addMails_phase, ← Engine.place_parsed]
        exact hp
      exact hengine ▸ hlaw.reported hphase
    next => cases hs'
  | report now sent =>
    refine h.other hs' (by simp) (fun j hj => List.mem_append_left _ hj) fun _ _ _ r hr => ?_
    exact List.mem_append_right _ (List.mem_map_of_mem hr)
  | request | notify | answer | look | send | result | update | totle =>
    exact h.other hs' (by simp) (fun _ hj => hj) (by simp)

end Watch

/-- In every run in which no record comes a multiple of 10000001 records after one that is still
in the map, no record displaces another, and every record stays until a report with it has been
sent. -/
theorem never_displaced {doms : Domains} {m_reportiterval now : Int} {es : List Event} {w : Watch}
    (h : Run (Guarded Watch.Unlapped Watch.Steps) (.init doms m_reportiterval now) es w) :
    w.Kept := by
  have hlaw := h.invariant (fun _ _ _ hw hs => hw.step hs.1 hs.2)
      (Watch.Law.init doms m_reportiterval now)
  exact ⟨hlaw.unused, hlaw.stays⟩

/-! ### A record that comes around -/

instance decidable_allApart :
    ∀ (w : Watch) (nodes : List (Option MailNode)), Decidable (w.AllApart nodes)
  | _, [] => isTrue trivial
  | w, node :: nodes =>
      haveI := decidable_allApart (w.receive node) nodes
      inferInstanceAs (Decidable ((node.isSome = true → w.Apart) ∧ _))

instance (w : Watch) : ∀ e, Decidable (w.Unlapped e)
  | .list mailnum mail => decidable_allApart w ((makeMailList mailnum mail).getD [])
  | .request | .notify .. | .answer .. | .look .. | .send .. | .result .. | .update | .report ..
  | .totle .. => isTrue trivial

/-- Two mails, of which the first is sent, reported and erased. -/
def sampleEvents : List Event :=
  [.request, .list 1 oneMail, .answer true false 0, .look 0 true, .send 0 .started, .look 0 true,
    .result 1 ⟨.sent, 0, []⟩, .update, .report 60 true, .list 1 oneMail, .answer true false 60]

theorem never_displaced_sample : ∃ w,
    Run (Guarded Watch.Unlapped Watch.Steps) (.init .empty 0 0) sampleEvents w ∧ w.Kept := by
  have hrun : (sampleEvents.foldlM
      (fun (w : Watch) e => if decide (w.Unlapped e) then w.step e else none)
      (Watch.init .empty 0 0)).isSome = true := by decide +kernel
  obtain ⟨w, hw⟩ := Option.isSome_iff_exists.mp hrun
  have hguarded : Run (Guarded Watch.Unlapped Watch.Steps) (.init .empty 0 0) sampleEvents w :=
    Run.of_checked (fun _ _ => of_decide_eq_true) hw
  exact ⟨w, hguarded, never_displaced hguarded⟩

/-- The length of a record, zero; the reader does not go on behind it. -/
def noLength : Text := List.replicate 4 nul

theorem makeMailList_noLength (n : Nat) :
    makeMailList n noLength = some (List.replicate n none) := by
  induction n with
  | zero => rfl
  | succ n ih =>
    have hzero : ofBe32 noLength = 0 := by decide
    rw [makeMailList, if_pos hzero, ih]
    rfl

theorem receives_replicate (n : Nat) {w : Watch} (h : w.engine.seq_no = w.count % cycle) :
    (List.replicate n none).foldl Watch.receive w = { w with
      engine := { w.engine with seq_no := (w.count + n) % cycle }, count := w.count + n } := by
  induction n generalizing w with
  | zero => rw [Nat.add_zero, ← h]; rfl
  | succ n ih =>
    have hnext : (w.receive none).engine.seq_no = (w.receive none).count % cycle :=
      (congrArg nextSeq h).trans (Watch.nextSeq_mod _)
    rw [List.replicate_succ, List.foldl_cons, ih hnext]
    simp only [Watch.receive, Engine.addMail, Nat.add_assoc, Nat.add_comm n 1]

theorem step_list {w : Watch} {mailnum : Nat} {mail : Text} {nodes : List (Option MailNode)}
    (hparse : w.engine.phase.parsing = true) (hnodes : makeMailList mailnum mail = some nodes) :
    w.step (.list mailnum mail) = some { nodes.foldl Watch.receive w with
      engine := { (nodes.foldl Watch.receive w).engine with phase := w.engine.phase.parsed } } := by
  rw [Watch.step, Engine.step, if_pos hparse, hnodes, Option.map_some, Option.map_some]
  simp only [hnodes, Option.getD_some, Watch.receives_engine]

/-- A template that is not found the first time. -/
theorem step_answer {w : Watch} {k : Nat} (hphase : w.engine.phase = .template k 0 true) :
    w.step (.answer true false 0)
      = some { w with engine := { w.engine with phase := .template k 1 false } } := by
  simp [Watch.step, Engine.step, hphase, Engine.checkTemplate]

/-- A mail waits for its template while ten million records of length zero come; the one after
them has its number. -/
def displacingEvents : List Event :=
  [.request, .list 1 oneMail, .answer true false 0, .look 0 false] ++
    [.list 10000000 noLength, .answer true false 0, .list 1 oneMail]

/-- `n` records that are not added have come. -/
def Watch.after (w : Watch) (n : Nat) (phase : Phase) : Watch :=
  { w with
    engine := { w.engine with seq_no := (w.count + n) % cycle, phase := phase }
    count := w.count + n }

/-- The first record has number 1, and waits for its template. -/
def Waiting (w : Watch) : Bool :=
  w.count == 1 && w.engine.seq_no == 1 && (w.engine.m_map_mail.find 1).isSome &&
    match w.engine.phase with
    | .template 1 0 false => true
    | _ => false

theorem waiting_phase {w : Watch} (h : Waiting w = true) :
    w.engine.phase = .template 1 0 false := by
  rw [Waiting, Bool.and_eq_true] at h
  have hphase := h.2
  split at hphase
  next hp => exact hp
  next => exact absurd hphase Bool.false_ne_true

theorem makeMailList_oneMail : ∃ node, makeMailList 1 oneMail = some [some node] := by
  have h : ((makeMailList 1 oneMail).bind fun nodes => nodes.head?.bind id).isSome = true ∧
      (makeMailList 1 oneMail).map List.length = some 1 := by decide +kernel
  obtain ⟨hhead, hlength⟩ := h
  obtain ⟨nodes, hnodes, hone⟩ := Option.map_eq_some_iff.mp hlength
  obtain ⟨node, rfl⟩ := List.length_eq_one_iff.mp hone
  rw [hnodes, Option.bind_some, List.head?_cons, Option.bind_some, id_eq] at hhead
  obtain ⟨n, rfl⟩ := Option.isSome_iff_exists.mp hhead
  exact ⟨n, hnodes⟩

/-- The record after `n` others comes under the number of the first. -/
theorem displaced_of_waiting {w : Watch} {n : Nat} (h : Waiting w = true)
    (hn : (1 + n + 1) % cycle = 1) :
    ∃ w', Run Watch.Steps w [.list n noLength, .answer true false 0, .list 1 oneMail] w' ∧
      w'.displacing ≠ [] := by
  have hphase := waiting_phase h
  simp only [Waiting, Bool.and_eq_true, beq_iff_eq] at h
  obtain ⟨⟨⟨hcount, hseq⟩, hfind⟩, -⟩ := h
  have hmod : w.engine.seq_no = w.count % cycle := by rw [hseq, hcount]; rfl
  obtain ⟨node, hnode⟩ := makeMailList_oneMail
  have hlist : w.step (.list n noLength) = some (w.after n (.template 1 0 true)) := by
    rw [step_list (by rw [hphase]; rfl) (makeMailList_noLength n),
      receives_replicate n hmod, hphase]
    rfl
  have hanswer : (w.after n (.template 1 0 true)).step (.answer true false 0)
      = some (w.after n (.template 1 1 false)) := step_answer rfl
  have hnumber : nextSeq ((w.count + n) % cycle) = 1 := by rw [Watch.nextSeq_mod, hcount, hn]
  obtain ⟨w', hlast, hdisplacing⟩ :
      ∃ w', (w.after n (.template 1 1 false)).step (.list 1 oneMail) = some w' ∧
      w'.displacing ≠ [] := by
    refine ⟨_, step_list rfl hnode, ?_⟩
    simp [Watch.receive, Watch.after, hnumber, hfind]
  exact ⟨w', .more hlist (.more hanswer (.one hlast)), hdisplacing⟩

theorem displaced : ∃ w, Run Watch.Steps (.init .empty 0 0) displacingEvents w ∧ ¬ w.Kept := by
  have hfirst :
      ([Event.request, .list 1 oneMail, .answer true false 0, .look 0 false].foldlM Watch.step
      (Watch.init .empty 0 0)).any Waiting = true := by decide +kernel
  cases hw₁ :
    [Event.request, .list 1 oneMail, .answer true false 0, .look 0 false].foldlM Watch.step
      (Watch.init .empty 0 0) with
  | none =>
    rw [hw₁] at hfirst
    cases hfirst
  | some w₁ =>
    rw [hw₁, Option.any_some] at hfirst
    obtain ⟨w, hw, hdisplacing⟩ := displaced_of_waiting (n := 10000000) hfirst rfl
    exact ⟨w, (Run.of_foldlM hw₁).trans hw, fun h => hdisplacing h.unused⟩

end Edm.Deliver.SeqNo
