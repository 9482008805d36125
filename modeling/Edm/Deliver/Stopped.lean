import Edm.Deliver.Follow

/-!
# Deliver — Stopped

A stopped task stays stopped: no thread is started for a mail that a notice has marked, and the
mail leaves the map only by a report with `x` or `s` (`StaysStopped`).  The mark is the status of
the mail, and the engine writes over it in three ways:

* `UpdateList` stores what a delivery came to that was under way when the notice came;
* a notice read while `CheckTemplate` waits for a template is not looked at when the mail goes on;
* a notice read while a report waits for its answer is too late for the letter in the report.

The sequence number of a marked mail may also go to another mail.  `Heeds` leaves these out, and
nothing else goes wrong (`stopped_run`).
-/

namespace Edm.Deliver
open Support

/-! ### What the acts keep -/

namespace View

/-- An act does not lose the mark of a mail. -/
def Heeds (v : View) : Act → Prop
  | .mark _ => v.place = .away ∨ v.place = .reported 'x' ∨ v.place = .reported 's'
  | .update => ∀ m r, v.mail = some m → m.life.marked = true → v.result = some r → r.flag = .sent
  | .add _ => ∀ m, v.mail = some m → m.life.marked = false
  | _ => True

/-- A marked mail is not handed on. -/
structure Marked (v : View) : Prop where
  status : ∀ m, v.mail = some m → m.life.marked = true →
    m.node.status = .stopped ∨ m.node.status = .sent
  place : ∀ m, v.mail = some m → m.life.marked = true →
    v.place = .away ∨ v.place = .reported 'x' ∨ v.place = .reported 's'

end View

theorem View.Marked.idle : View.Marked ⟨none, 0, none, .away⟩ :=
  { status := fun _ hm => nomatch hm
    place := fun _ hm => nomatch hm }

theorem Mail.request_marked (m : Mail) : m.request.life.marked = m.life.marked := by
  rw [Mail.request]
  split <;> rfl

theorem Mail.takeResult_marked (m : Mail) (r : TmpNode) :
    (m.takeResult r).life.marked = m.life.marked := by
  rw [Mail.takeResult]
  split <;> rfl

namespace View

theorem Marked.next {v : View} {a : Act} (h : v.Marked) (hc : v.Can a) (hG : v.Heeds a) :
    (v.next a).Marked := by
  cases a with
  | none | landed => exact ⟨h.status, h.place⟩
  | request =>
      refine ⟨fun m hm hmark => ?_, fun m hm hmark => ?_⟩
      · obtain ⟨m, hm', rfl⟩ := Option.map_eq_some_iff.mp hm
        rw [Mail.request_status]
        exact h.status m hm' (m.request_marked ▸ hmark)
      · exact Or.inl hc
  | mark now =>
      refine ⟨fun m hm _ => ?_, fun m hm _ => ?_⟩
      · obtain ⟨m, -, rfl⟩ := Option.map_eq_some_iff.mp hm
        exact Or.inl rfl
      · exact hG
  | add n =>
      refine ⟨fun m hm hmark => ?_, fun m hm hmark => ?_⟩ <;>
        (obtain rfl := Option.some.inj hm; cases hmark)
  | update =>
      refine ⟨fun m hm hmark => ?_, fun m hm hmark => ?_⟩
      · obtain ⟨m, hm', rfl⟩ := Option.map_eq_some_iff.mp hm
        cases hr : v.result with
        | none =>
            rw [hr] at hmark
            exact h.status m hm' hmark
        | some r =>
            rw [hr] at hmark
            have hmark' : m.life.marked = true := (m.takeResult_marked r).symm.trans hmark
            rw [Option.elim_some, Mail.takeResult, if_pos (hG m r hm' hmark' hr)]
            exact Or.inr rfl
      · exact Or.inl hc
  | take now known =>
      obtain ⟨-, m, hm, hst⟩ := hc
      have hnot : m.life.marked ≠ true := fun hmark => by
        rcases h.status m hm hmark with hs | hs <;> rw [hs] at hst <;> simp at hst
      refine ⟨h.status, fun m' hm' hmark => ?_⟩
      obtain rfl := Option.some.inj (hm.symm.trans hm')
      exact absurd hmark hnot
  | found =>
      have hc : v.place = .template := hc
      refine ⟨h.status, fun m hm hmark => ?_⟩
      rcases h.place m hm hmark with hp | hp | hp <;> rw [hc] at hp <;> cases hp
  | fail now errstr =>
      have hc : v.place = .template ∨ v.place = .prepared := hc
      refine ⟨fun m hm hmark => ?_, fun _ _ _ => Or.inl rfl⟩
      obtain ⟨m, hm', rfl⟩ := Option.map_eq_some_iff.mp hm
      rcases h.place m hm' hmark with hp | hp | hp <;> simp [hp] at hc
  | passed | kept => exact ⟨h.status, fun _ _ _ => Or.inl rfl⟩
  | start =>
      have hc : v.place = .prepared := hc
      refine ⟨fun m hm hmark => ?_, fun _ _ _ => Or.inl rfl⟩
      obtain ⟨m, hm', rfl⟩ := Option.map_eq_some_iff.mp hm
      rcases h.place m hm' hmark with hp | hp | hp <;> rw [hc] at hp <;> cases hp
  | report =>
      refine ⟨h.status, fun m hm hmark => ?_⟩
      have hm : v.mail = some m := hm
      rw [View.next, hm, Option.bind_some, Mail.code]
      rcases h.status m hm hmark with hs | hs
      · rw [hs]
        exact Or.inr (Or.inl rfl)
      · rw [hs]
        exact Or.inr (Or.inr rfl)
  | erased =>
      refine ⟨fun _ hm => ?_, fun _ hm => ?_⟩
      · cases hm
      · cases hm

/-- A marked mail stays in the map but for a report. -/
theorem Marked.stays {v : View} {a : Act} (h : v.Marked) (hc : v.Can a) (hG : v.Heeds a)
    {m : Mail} (hm : v.mail = some m) (hmark : m.life.marked = true) :
    (∃ m', (v.next a).mail = some m' ∧ m'.life.marked = true) ∨
      a = .erased ∧ (v.place = .reported 'x' ∨ v.place = .reported 's') := by
  cases a with
  | none | landed | take | found | passed | kept | report => exact Or.inl ⟨m, hm, hmark⟩
  | request =>
      exact Or.inl ⟨m.request, congrArg (Option.map _) hm, m.request_marked.trans hmark⟩
  | mark now => exact Or.inl ⟨m.mark now, congrArg (Option.map _) hm, rfl⟩
  | fail now errstr => exact Or.inl ⟨m.fail now errstr, congrArg (Option.map _) hm, hmark⟩
  | start => exact Or.inl ⟨m.start, congrArg (Option.map _) hm, hmark⟩
  | add n =>
      rw [hG m hm] at hmark
      cases hmark
  | update =>
      refine Or.inl ⟨_, congrArg (Option.map _) hm, ?_⟩
      cases v.result with
      | none => exact hmark
      | some r => exact (m.takeResult_marked r).trans hmark
  | erased =>
      obtain ⟨c, hc⟩ := hc
      refine Or.inr ⟨rfl, (h.place m hm hmark).resolve_left ?_⟩
      rw [hc]
      exact fun h => nomatch h

end View

/-! ### Runs -/

namespace Engine

/-- A step starts no thread for a marked mail, and takes a marked mail out of the map only by the
answer to a report that holds it with `x` or `s`. -/
def StaysStopped (s : Engine) (e : Event) (s' : Engine) : Prop :=
  ∀ k m, s.m_map_mail.find k = some m → m.life.marked = true →
    (∀ now, e = .send now .started → s.phase ≠ .prepared k) ∧
      ((∃ m', s'.m_map_mail.find k = some m' ∧ m'.life.marked = true) ∨
        ∃ vec got template now, s.phase = .answer vec got ∧ e = .answer true template now ∧
          (vec.lookup k = some 'x' ∨ vec.lookup k = some 's'))

/-- In a run whose steps do not lose a mark, every step leaves the marked mails stopped. -/
theorem stopped_run {doms : Domains} {m_reportiterval start : Int} {es : List Event}
    {s s' : Engine} {e : Event}
    (h : Run (Guarded (Each View.Heeds) Steps) (init doms m_reportiterval start) es s)
    (he : Guarded (Each View.Heeds) Steps s e s') : s.StaysStopped e s' := by
  intro k m hm hmark
  have hinv : (s.view k).Marked := by
    refine views_run (fun v a hv hc hG => hv.next hc hG) h (fun k => ?_) k
    rw [view_init]
    exact .idle
  obtain ⟨hcan, hview⟩ := follow he.2 k
  refine ⟨?_, ?_⟩
  · rintro now rfl hphase
    have hprep : (s.view k).place = .prepared := place_eq_prepared_iff.mpr hphase
    have hplace := hinv.place m hm hmark
    rw [hprep] at hplace
    simp at hplace
  · rcases hinv.stays hcan (he.1 k) hm hmark with hstay | ⟨hact, hplace⟩
    · rw [← hview] at hstay
      exact Or.inl hstay
    · have horigin := act_origin s e k
      rw [hact] at horigin
      obtain ⟨vec, got, template, now, he, hphase, -⟩ := horigin
      have hvec : (s.view k).place = (vec.lookup k).elim .away .reported := by
        rw [view, hphase, Phase.place]
      refine Or.inr ⟨vec, got, template, now, hphase, he, ?_⟩
      rw [hvec] at hplace
      cases hl : vec.lookup k with
      | none => simp [hl] at hplace
      | some c => simpa [hl] using hplace

end Engine

/-! ### A result after the notice -/

/-- A check that no step loses a mark. -/
def Engine.heeding (s : Engine) : Event → Bool
  | .notify _ _ => match s.phase with | .response _ => true | _ => false
  | .list _ _ => s.m_map_mail.entries.isEmpty
  | .update => s.m_map_mail_tmp.entries.isEmpty
  | _ => true

theorem Engine.each_of_heeding (s : Engine) (e : Event) (h : s.heeding e = true) :
    s.Each View.Heeds e := by
  intro k
  have horigin := s.act_origin e k
  cases ha : s.act e k <;> rw [ha] at horigin <;> try trivial
  case mark now =>
    obtain ⟨stop, rfl⟩ := horigin
    rw [heeding] at h
    split at h
    next hphase => exact Or.inl (by rw [view, hphase]; rfl)
    next => cases h
  case add n =>
    obtain ⟨mailnum, mail, rfl, -⟩ := horigin
    intro m hm
    have hm : s.m_map_mail.find k = some m := hm
    rw [StdMap.find, List.isEmpty_iff.mp h] at hm
    cases hm
  case update =>
    obtain rfl := horigin
    intro m r _ _ hr
    have hr : s.m_map_mail_tmp.find k = some r := hr
    rw [StdMap.find, List.isEmpty_iff.mp h] at hr
    cases hr

/-- A mail is read, waits for a thread, and is marked. -/
def noticeAtRest : List Event :=
  [.request, .list 1 oneMail, .answer true false 0, .look 0 true, .send 0 .noThread, .update,
    .report 0 true, .totle 0, .request, .notify [⟨0, 0, 0⟩] 0]

theorem stopped_run_marked : ∃ s s' : Engine,
    Run Engine.Steps (.init .empty 1000 0) noticeAtRest s ∧
      (s.m_map_mail.find 1).any (·.life.marked) = true ∧
      s.Steps (.answer false false 0) s' ∧ s.StaysStopped (.answer false false 0) s' := by
  have hrun : (noticeAtRest.foldlM (fun (s : Engine) e => if s.heeding e then s.step e else none)
      (Engine.init .empty 1000 0)).any (fun s => (s.m_map_mail.find 1).any (·.life.marked)
        && (s.step (.answer false false 0)).isSome) = true := by
    decide +kernel
  obtain ⟨s, hs, hend⟩ := (Option.any_eq_true _ _).mp hrun
  rw [Bool.and_eq_true] at hend
  obtain ⟨s', hs'⟩ := Option.isSome_iff_exists.mp hend.2
  have h := Run.of_checked Engine.each_of_heeding hs
  exact ⟨s, s', h.toRun, hend.1, hs',
    Engine.stopped_run h ⟨s.each_of_heeding (.answer false false 0) rfl, hs'⟩⟩

/-- The result of a delivery that was under way when the notice came takes the mark away: the mail
is started again two minutes later. -/
def lateResult : List Event :=
  [.request, .list 1 oneMail, .answer true false 0, .look 0 true, .send 0 .started, .look 0 true,
    .update, .report 0 true, .totle 0, .request, .notify [⟨0, 0, 0⟩] 0, .answer false false 0,
    .result 1 ⟨.soft, 0, []⟩, .look 0 true, .look 0 true, .update, .report 0 true,
      .totle 0, .request,
    .answer false false 0, .look 120 true]

theorem stopped_mail_started : ¬ ∀ (doms : Domains) (m_reportiterval start : Int) (es : List Event)
    (s s' : Engine) (e : Event), Run Engine.Steps (.init doms m_reportiterval start) es s →
      s.Steps e s' → s.StaysStopped e s' := by
  intro h
  have hrun : (lateResult.foldlM Engine.step (.init .empty 1000 0)).any (fun s =>
      (s.m_map_mail.find 1).any (·.life.marked) && decide (s.phase.place 1 = .prepared)) =
      true := by
    decide +kernel
  obtain ⟨s, hs, hend⟩ := (Option.any_eq_true _ _).mp hrun
  rw [Bool.and_eq_true, decide_eq_true_eq] at hend
  obtain ⟨m, hm, hmark⟩ := (Option.any_eq_true _ _).mp hend.1
  have hphase : s.phase = .prepared 1 := place_eq_prepared_iff.mp hend.2
  have hstep : s.Steps (.send 120 .started) (s.send 1 120 .started) := by
    rw [Engine.Steps, Engine.step, hphase]
  exact (h _ _ _ _ _ _ _ (.of_foldlM hs) hstep 1 m hm hmark).1 120 rfl hphase

end Edm.Deliver
