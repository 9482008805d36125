import Edm.Deliver.Follow

/-!
# Deliver — Retry

A mail is tried again until its third soft failure, and then it is reported (`RetryLaw`).
`ScanList` looks at the status and the time of the last failure, not at their number: a mail that
has failed three times is started again if two minutes pass before a report is due.  `SendReport`
asks for three failures exactly, so from the fourth on the mail is not reported any more.

The law holds in every run in which the scan never runs two minutes after a mail's third soft
failure, as when a report comes in between, and no number goes to a second mail while the first one
is in use (`Timely`, `retries_run`).
-/

namespace Edm.Deliver
open Support

namespace Mail

theorem flag_of_takeResult_soft {m : Mail} {r : TmpNode}
    (h : (m.takeResult r).node.status = .soft) : r.flag = .soft := by
  rw [takeResult] at h
  split at h
  · cases h
  · cases hflag : r.flag with
    | soft => rfl
    | sent | hard => rw [hflag] at h; cases h

theorem takeResult_ne_unsent (m : Mail) (r : TmpNode) :
    (m.takeResult r).node.status ≠ .unsent := by
  rw [takeResult]
  split
  · exact fun h => nomatch h
  · cases r.flag <;> exact fun h => nomatch h

end Mail

namespace View

/-- A mail is taken less than two minutes after its third soft failure, which no scan does, and no
number is taken from a mail. -/
def Spares (v : View) : Act → Prop
  | .take now _ => ∀ m, v.mail = some m → m.node.status = .soft → m.node.failtimes = 3 →
      now - m.node.stime < 120
  | .add _ => v.Unused
  | _ => True

/-- A mail may fail once more: it has not been tried yet, it is about to be, or its delivery is
under way. -/
def Open (v : View) (m : Mail) : Prop :=
  m.node.status = .unsent ∨ v.flying ≠ 0 ∨ v.place = .template ∨ v.place = .prepared

/-- The failures of a mail are all soft until it is given up. -/
structure Retried (v : View) : Prop where
  base : v.Base
  soft : ∀ m, v.mail = some m → m.node.status = .soft →
    m.node.failtimes = m.life.softs ∧ m.life.softs ≤ 3
  again : ∀ m, v.mail = some m → v.Open m → m.node.failtimes = m.life.softs ∧ m.life.softs < 3

theorem Retried.idle : Retried ⟨Option.none, 0, Option.none, .away⟩ where
  base := .idle
  soft _ hm := nomatch hm
  again _ hm := nomatch hm

theorem Open.of_away {v v' : View} {m : Mail} (h : v'.Open m) (hfly : v'.flying = v.flying)
    (hp : ¬(v'.place = .template ∨ v'.place = .prepared)) : v.Open m := by
  rcases h with h | h | h
  · exact Or.inl h
  · exact Or.inr (Or.inl (hfly ▸ h))
  · exact absurd h hp

theorem Retried.next {v : View} {a : Act} (h : v.Retried) (hc : v.Can a) (hG : v.Spares a) :
    (v.next a).Retried := by
  have hbase : (v.next a).Base := h.base.next hc fun n hn => by
    subst hn
    exact hG
  cases a with
  | none => exact h
  | request =>
      refine ⟨hbase, fun m hm hsoft => ?_, fun m hm hopen => ?_⟩
      · obtain ⟨m, hm', rfl⟩ := Option.map_eq_some_iff.mp hm
        rw [Mail.request_status] at hsoft
        rw [Mail.request_of_counted (by rw [Mail.counted, hsoft])]
        exact h.soft m hm' hsoft
      · obtain ⟨m, hm', rfl⟩ := Option.map_eq_some_iff.mp hm
        have haway : v.place = .away := hc
        have hcounted : m.counted = Option.none := by
          rw [Open, Mail.request_status] at hopen
          rw [Mail.counted]
          rcases hopen with hst | hfly | hp
          · rw [hst]
          · rcases h.base.status m hm' hfly with hst | hst <;> rw [hst]
          · exact absurd (haway ▸ hp) not_handed
        rw [Mail.request_of_counted hcounted] at hopen ⊢
        exact h.again m hm' hopen
  | mark now =>
      refine ⟨hbase, fun m hm hsoft => ?_, fun m hm hopen => ?_⟩
      · obtain ⟨m, -, rfl⟩ := Option.map_eq_some_iff.mp hm
        cases hsoft
      · obtain ⟨m, hm', rfl⟩ := Option.map_eq_some_iff.mp hm
        exact h.again m hm' (Or.inr (hopen.resolve_left (nomatch ·)))
  | add n =>
      obtain ⟨hunsent, hzero⟩ := hc
      refine ⟨hbase, fun m hm hsoft => ?_, fun m hm _ => ?_⟩
      · obtain rfl := Option.some.inj hm
        cases hunsent.symm.trans hsoft
      · obtain rfl := Option.some.inj hm
        exact ⟨hzero, Nat.succ_pos 2⟩
  | landed r =>
      refine ⟨hbase, h.soft, fun m hm hopen => h.again m hm ?_⟩
      rw [Open, flying_landed h.base hc] at hopen
      exact hopen
  | update =>
      have haway : ¬(v.place = .template ∨ v.place = .prepared) := by
        rw [show v.place = .away from hc]
        exact not_handed
      have hfly := flying_update h.base
      cases hr : v.result with
      | none =>
          rw [hr] at hfly
          refine ⟨hbase, fun m hm hsoft => ?_, fun m hm hopen => ?_⟩
          · obtain ⟨m, hm', rfl⟩ := Option.map_eq_some_iff.mp hm
            rw [hr] at hsoft ⊢
            exact h.soft m hm' hsoft
          · obtain ⟨m, hm', rfl⟩ := Option.map_eq_some_iff.mp hm
            rw [hr] at hopen ⊢
            exact h.again m hm' (hopen.of_away hfly haway)
      | some r =>
          have hflying : v.flying ≠ 0 := by
            rw [flying, hr]
            exact Nat.succ_ne_zero _
          rw [hr] at hfly
          refine ⟨hbase, fun m hm hsoft => ?_, fun m hm hopen => ?_⟩
          · obtain ⟨m, hm', rfl⟩ := Option.map_eq_some_iff.mp hm
            rw [hr, Option.elim_some] at hsoft ⊢
            obtain ⟨heq, hlt⟩ := h.again m hm' (Or.inr (Or.inl hflying))
            have hflag := Mail.flag_of_takeResult_soft hsoft
            rw [Mail.takeResult, if_neg (by simp [hflag]), if_pos hflag]
            refine ⟨?_, hlt⟩
            show (m.node.failtimes + 1) % 2 ^ 16 = m.life.softs + 1
            omega
          · obtain ⟨m, hm', rfl⟩ := Option.map_eq_some_iff.mp hm
            rw [hr, Option.elim_some] at hopen
            rcases hopen with hst | hne | hp
            · exact absurd hst (m.takeResult_ne_unsent r)
            · exact absurd hfly hne
            · exact absurd hp haway
  | take now known =>
      refine ⟨hbase, h.soft, fun m hm _ => ?_⟩
      obtain ⟨-, m', hm', hst⟩ := hc
      obtain rfl := Option.some.inj (hm.symm.trans hm')
      rcases hst with hst | ⟨hst, hwait⟩
      · exact h.again m hm (Or.inl hst)
      · obtain ⟨heq, hle⟩ := h.soft m hm hst
        have hne : m.node.failtimes ≠ 3 := fun hfail =>
          Int.not_lt.mpr hwait (hG m hm hst hfail)
        exact ⟨heq, Nat.lt_of_le_of_ne hle (heq ▸ hne)⟩
  | found =>
      exact ⟨hbase, h.soft, fun m hm _ => h.again m hm (Or.inr (Or.inr (Or.inl hc)))⟩
  | fail now errstr =>
      refine ⟨hbase, fun m hm hsoft => ?_, fun m hm hopen => ?_⟩
      · obtain ⟨m, -, rfl⟩ := Option.map_eq_some_iff.mp hm
        cases hsoft
      · obtain ⟨m, -, rfl⟩ := Option.map_eq_some_iff.mp hm
        rcases hopen with hst | hne | hp
        · cases hst
        · exact absurd (h.base.place hc) hne
        · exact absurd hp not_handed
  | passed | kept =>
      exact ⟨hbase, h.soft, fun m hm hopen => h.again m hm (hopen.of_away rfl not_handed)⟩
  | start =>
      refine ⟨hbase, fun m hm hsoft => ?_, fun m hm _ => ?_⟩
      · obtain ⟨m, -, rfl⟩ := Option.map_eq_some_iff.mp hm
        cases hsoft
      · obtain ⟨m, hm', rfl⟩ := Option.map_eq_some_iff.mp hm
        exact h.again m hm' (Or.inr (Or.inr (Or.inr hc)))
  | report =>
      refine ⟨hbase, h.soft, fun m hm hopen => h.again m hm (hopen.of_away rfl ?_)⟩
      rw [View.next]
      cases v.mail.bind (·.code) <;> simp
  | erased =>
      refine ⟨hbase, fun _ hm => ?_, fun _ hm => ?_⟩
      · cases hm
      · cases hm

/-- The next report holds the mail: it has three soft failures, and may have been marked since. -/
def Due (v : View) : Prop :=
  v.place = .away ∧ v.flying = 0 ∧ ∃ m, v.mail = some m ∧
    (m.node.status = .soft ∧ m.node.failtimes = 3 ∨ m.node.status = .stopped)

theorem Retried.due {v : View} (h : v.Retried) {m : Mail} (hm : v.mail = some m)
    (hsoft : m.node.status = .soft) (hfail : m.node.failtimes = 3) (hplace : v.place = .away) :
    v.Due := by
  refine ⟨hplace, ?_, m, hm, Or.inl ⟨hsoft, hfail⟩⟩
  by_contra hne
  rcases h.base.status m hm hne with hst | hst <;> simp [hsoft] at hst

/-- A mail that is due stays so until a report is built. -/
theorem Due.next {v : View} {a : Act} (h : v.Due) (hc : v.Can a) (hG : v.Spares a)
    (ha : a ≠ .report) : (v.next a).Due := by
  obtain ⟨hplace, hfly, m, hm, hst⟩ := h
  have hresult : v.result = Option.none := by
    cases hr : v.result with
    | none => rfl
    | some r =>
        rw [flying, hr] at hfly
        cases hfly
  cases a with
  | none => exact ⟨hplace, hfly, m, hm, hst⟩
  | request =>
      refine ⟨hplace, hfly, m, ?_, hst⟩
      have hcounted : m.counted = Option.none := by
        rw [Mail.counted]
        rcases hst with ⟨hst, -⟩ | hst <;> rw [hst]
      simp only [View.next, hm, Option.map_some, Mail.request_of_counted hcounted]
  | mark now => exact ⟨hplace, hfly, m.mark now, congrArg (Option.map _) hm, Or.inr rfl⟩
  | add n => cases hm.symm.trans hG.1
  | landed r =>
      have hc : 0 < v.running := hc
      rw [flying] at hfly
      exact absurd hc (by omega)
  | update =>
      refine ⟨hplace, ?_, m, ?_, hst⟩
      · rw [flying, hresult] at hfly
        exact hfly
      · simp only [View.next, hm, hresult, Option.map_some, Option.elim_none]
  | take now known =>
      obtain ⟨-, m', hm', hst'⟩ := hc
      obtain rfl := Option.some.inj (hm.symm.trans hm')
      rcases hst with ⟨hsoft, hfail⟩ | hst
      · have hlt := hG m hm hsoft hfail
        rcases hst' with hst' | ⟨-, hwait⟩
        · cases hsoft.symm.trans hst'
        · exact absurd hlt (Int.not_lt.mpr hwait)
      · rw [hst] at hst'
        simp at hst'
  | found => cases hplace.symm.trans hc
  | fail now errstr =>
      rcases hc with hc | hc
      · cases hplace.symm.trans hc
      · cases hplace.symm.trans hc
  | passed | start => cases hplace.symm.trans hc
  | kept | erased =>
      obtain ⟨c, hc⟩ := hc
      cases hplace.symm.trans hc
  | report => exact absurd rfl ha

theorem Due.code {v : View} (h : v.Due) : (v.mail.bind (·.code)).isSome = true := by
  obtain ⟨-, -, m, hm, ⟨hst, hfail⟩ | hst⟩ := h
  · rw [hm, Option.bind_some, Mail.code, hst]
    simp [hfail]
  · rw [hm, Option.bind_some, Mail.code, hst]
    rfl

end View

/-! ### Runs -/

namespace Engine

end Engine

/-! ### A report that comes too late -/

/-- A check that a step is timely. -/
def Engine.timely (s : Engine) : Event → Bool
  | .list _ _ => s.m_map_mail.entries.isEmpty && s.m_map_mail_tmp.entries.isEmpty &&
      s.threads.isEmpty
  | .look now _ => s.m_map_mail.entries.all fun e =>
      e.2.node.status != .soft || e.2.node.failtimes != 3 || decide (now - e.2.node.stime < 120)
  | _ => true

end Edm.Deliver
