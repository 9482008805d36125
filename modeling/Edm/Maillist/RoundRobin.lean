import Edm.Maillist.Rounds
import Edm.Support.Cycle

/-!
# Maillist — RoundRobin

Which task answers a request.

`AnswerMailboxRequestWithLevel` takes the task `nTaskOffset` names, or the next one when that task
is finished or paused, and moves the offset on by one for each of the two it tests whose
`yx_test` is below 1.  A preferred task keeps its turn until its counter, which goes up to the
level `L` and back to zero, comes to zero.  So the offset passes a task only in a call that
selects the task, unless it is finished or paused, and it stays nowhere longer than `L + 1` calls:
the daemon is a `Cyclic` machine of `n` places and credit `L` (`cyclic_chooseTask`).

So `n * (L + 1)` calls from an offset of at least 0 select every task that is neither finished nor
paused (`activeTasks_selected`).  A negative offset, which the daemon never has, selects the first
task until it has come up to zero (`negative_offset_misses`).
-/

namespace Edm.Maillist
open Support

/-! ### Calls -/

/-- The time of a request, its number of items, and the request. -/
abbrev Request := Int × Int × Text

/-- The daemon after a request. -/
def Dabudai.serve (conf : Configure) (d : Dabudai) (r : Request) : Dabudai :=
  (answerMailboxRequestWithLevel conf r.1 r.2.1 r.2.2 d).1

/-- The place in the queue of the task a request selects. -/
def Dabudai.selects (conf : Configure) (d : Dabudai) (_ : Request) : Nat := (d.chooseTask conf).1

/-- The tasks selected by consecutive requests. -/
def selectedTasks (conf : Configure) (d : Dabudai) (rs : List Request) : List Nat :=
  served (Dabudai.serve conf) (Dabudai.selects conf) d rs

/-! ### `yx_test` -/

/-- The counter of a preferred task after a test. -/
def nextCount (level c : Int) : Int := if c < level then c + 1 else 0

/-- `yx_find`: the counter of a task, if it is a preferred one. -/
def yxFind (n : Int × Int × Int) : List ((Int × Int × Int) × Int) → Option Int
  | [] => none
  | p :: ps => if p.1 = n then some p.2 else yxFind n ps

theorem yxTest_none {n : Int × Int × Int} {level : Int} :
    ∀ {ps : List ((Int × Int × Int) × Int)}, yxFind n ps = none → yxTest n level ps = (-1, ps)
  | [], _ => rfl
  | p :: ps, h => by
      rw [yxFind] at h
      split at h
      · exact absurd h (Option.some_ne_none _)
      · rename_i hp
        rw [yxTest, if_neg hp, yxTest_none h]

theorem yxTest_some {n : Int × Int × Int} (level : Int) {c : Int} :
    ∀ {ps : List ((Int × Int × Int) × Int)}, yxFind n ps = some c →
      (yxTest n level ps).1 = nextCount level c ∧
        yxFind n (yxTest n level ps).2 = some (nextCount level c)
  | p :: ps, h => by
      rw [yxFind] at h
      split at h
      · rename_i hp
        cases h
        rw [yxTest, if_pos hp]
        exact ⟨rfl, by rw [yxFind, if_pos hp]; rfl⟩
      · rename_i hp
        obtain ⟨h₁, h₂⟩ := yxTest_some level h
        rw [yxTest, if_neg hp]
        exact ⟨h₁, by rw [yxFind, if_neg hp, h₂]⟩

theorem yxTest_other {n k : Int × Int × Int} (hk : k ≠ n) {level : Int} :
    ∀ {ps : List ((Int × Int × Int) × Int)}, yxFind k (yxTest n level ps).2 = yxFind k ps
  | [] => rfl
  | p :: ps => by
      rw [yxTest]
      split
      · rename_i hp
        have hpk : ¬ p.1 = k := fun h => hk (h.symm.trans hp)
        rw [yxFind, if_neg hpk, yxFind, if_neg hpk]
      · rw [yxFind, yxFind, yxTest_other hk]

/-- The counters lie between 0 and the level. -/
def Counted (level : Int) (ps : List ((Int × Int × Int) × Int)) : Prop :=
  ∀ p ∈ ps, 0 ≤ p.2 ∧ p.2 ≤ level

theorem Counted.yxTest {n : Int × Int × Int} {level : Int} :
    ∀ {ps : List ((Int × Int × Int) × Int)}, Counted level ps → 0 ≤ level →
      Counted level (yxTest n level ps).2
  | [], h, _ => h
  | p :: ps, h, hl => by
      have hp := h p List.mem_cons_self
      have hps : Counted level ps := fun q hq => h q (List.mem_cons_of_mem _ hq)
      rw [Maillist.yxTest]
      split
      · intro q hq
        rcases List.mem_cons.mp hq with rfl | hq
        · dsimp only
          split <;> omega
        · exact hps q hq
      · intro q hq
        rcases List.mem_cons.mp hq with rfl | hq
        · exact hp
        · exact Counted.yxTest hps hl q hq

theorem Counted.find {level c : Int} {n : Int × Int × Int} :
    ∀ {ps : List ((Int × Int × Int) × Int)}, Counted level ps → yxFind n ps = some c →
      0 ≤ c ∧ c ≤ level
  | p :: ps, hc, h => by
      rw [yxFind] at h
      split at h
      · cases h
        exact hc p List.mem_cons_self
      · exact Counted.find (fun q hq => hc q (List.mem_cons_of_mem _ hq)) h

/-! ### The offset -/

/-- What the choice of a task reads of the queue: the numbers of each task, and whether it is
neither finished nor paused. -/
def TaskQueue.outline (t : TaskQueue) : (Int × Int × Int) × Bool := (taskNumbers t.sID, t.active)

/-- The counter of the task at a place, if it is a preferred one. -/
def Dabudai.counter (d : Dabudai) (k : Nat) : Option Int :=
  (d.pBegin[k]?).bind fun t => yxFind (taskNumbers t.sID) d.yxHead

/-- The daemon has `n` tasks, its offset names place `q`, and its counters are in range. -/
structure Dabudai.At (d : Dabudai) (level : Int) (n q : Nat) : Prop where
  tasks : d.pBegin.length = n
  number : d.nTaskNum = n
  offset : d.nTaskOffset = q
  lt : q < n
  counted : Counted level d.yxHead

section
variable {conf : Configure} {d : Dabudai} {n q : Nat}

/-- A test below 1 is the only one that does not raise the counter of its task, and it lowers no
counter otherwise. -/
theorem Dabudai.At.yx (h : d.At conf.yxlevel n q) (hl : 0 ≤ conf.yxlevel) (k : Nat) :
    (d.yx conf k).2.At conf.yxlevel n q ∧
      (1 ≤ (d.yx conf k).1 →
      (∃ c, d.counter k = some c ∧ (d.yx conf k).2.counter k = some (c + 1)) ∧
        ∀ j c, d.counter j = some c → ∃ c', (d.yx conf k).2.counter j = some c' ∧ c ≤ c') := by
  rw [Dabudai.yx]
  cases ht : d.pBegin[k]? with
  | none =>
      refine ⟨h, fun hret => ?_⟩
      have hret : (1 : Int) ≤ -1 := hret
      omega
  | some t =>
      refine ⟨⟨h.tasks, h.number, h.offset, h.lt, h.counted.yxTest hl⟩, fun hret => ?_⟩
      dsimp only at hret
      cases hc : yxFind (taskNumbers t.sID) d.yxHead with
      | none =>
          rw [yxTest_none hc] at hret
          have hret : (1 : Int) ≤ -1 := hret
          omega
      | some c =>
          obtain ⟨h₁, h₂⟩ := yxTest_some conf.yxlevel hc
          have hnext : nextCount conf.yxlevel c = c + 1 := by
            rw [h₁] at hret
            rw [nextCount] at hret ⊢
            split at hret
            · rename_i hlt
              rw [if_pos hlt]
            · omega
          rw [hnext] at h₂
          refine ⟨⟨c, by rw [counter, ht]; exact hc, by rw [counter]; simp only [ht]; exact h₂⟩, ?_⟩
          intro j c' hj
          cases hu : d.pBegin[j]? with
          | none =>
              rw [counter, hu] at hj
              exact absurd hj.symm (Option.some_ne_none _)
          | some u =>
              have hj : yxFind (taskNumbers u.sID) d.yxHead = some c' := by
                rw [counter, hu] at hj
                exact hj
              have hgoal :
                  ({ d with yxHead := (yxTest (taskNumbers t.sID) conf.yxlevel d.yxHead).2 } :
                  Dabudai).counter j
                    = yxFind (taskNumbers u.sID)
                      (yxTest (taskNumbers t.sID) conf.yxlevel d.yxHead).2 := by
                rw [counter]
                simp only [hu]
                rfl
              rw [hgoal]
              by_cases hsame : taskNumbers u.sID = taskNumbers t.sID
              · rw [hsame] at hj ⊢
                have : c' = c := Option.some.inj (hj.symm.trans hc)
                exact ⟨c + 1, h₂, by omega⟩
              · exact ⟨c', by rw [yxTest_other hsame, hj], Int.le_refl c'⟩

/-- The offset goes on by one place when the test is below 1. -/
theorem Dabudai.At.advance (h : d.At conf.yxlevel n q) (ret : Int) :
    (d.advance ret).At conf.yxlevel n (if ret < 1 then (q + 1) % n else q) ∧
      ∀ k, (d.advance ret).counter k = d.counter k := by
  rw [Dabudai.advance]
  split
  · refine ⟨⟨h.tasks, h.number, ?_, Nat.mod_lt _ (Nat.lt_of_le_of_lt (Nat.zero_le q) h.lt),
      h.counted⟩, fun _ => rfl⟩
    have : (d.nTaskOffset + 1).tmod d.nTaskNum = ((q + 1 : Nat) : Int).tmod (n : Int) := by
      rw [h.offset, h.number]
      rfl
    dsimp only
    rw [this, ← Int.ofNat_tmod]
  · exact ⟨h, fun _ => rfl⟩

/-- The credit a daemon has used at its place: what its counter has come up to. -/
def Dabudai.used (conf : Configure) (d : Dabudai) : Nat :=
  ((d.counter d.wrapOffset.nTaskOffset.toNat).getD conf.yxlevel).toNat

/-- The place a daemon is at. -/
def Dabudai.place (d : Dabudai) : Nat := d.wrapOffset.nTaskOffset.toNat

theorem Dabudai.At.place_eq (h : d.At conf.yxlevel n q) : d.place = q ∧ d.wrapOffset = d := by
  have hw : d.wrapOffset = d := by
    have := h.lt
    rw [Dabudai.wrapOffset, if_neg]
    rw [h.number, h.offset]
    omega
  exact ⟨by rw [Dabudai.place, hw, h.offset, Int.toNat_natCast], hw⟩

theorem Dabudai.At.used_le (h : d.At conf.yxlevel n q) :
    d.used conf ≤ conf.yxlevel.toNat := by
  rw [Dabudai.used]
  cases hc : d.counter d.wrapOffset.nTaskOffset.toNat with
  | none => exact Nat.le_refl _
  | some c =>
      obtain ⟨t, -, ht⟩ := Option.bind_eq_some_iff.mp hc
      have := (h.counted.find ht).2
      rw [Option.getD_some]
      omega

/-- **One choice.**  The offset goes on by some places; of those it leaves, the ones whose task is
neither finished nor paused are the place of the selected task; and if it stays, the counter of
its task has gone up. -/
theorem Dabudai.At.chooseTask (h : d.At conf.yxlevel n q) (hl : 0 ≤ conf.yxlevel) :
    ∃ k, (d.chooseTask conf).2.At conf.yxlevel n ((q + k) % n) ∧
      (∀ j < k, (∃ t, d.pBegin[(q + j) % n]? = some t ∧ t.active = true) →
        (d.chooseTask conf).1 = (q + j) % n) ∧
      (k = 0 → ∃ c c', d.counter q = some c ∧
      (d.chooseTask conf).2.counter q = some c' ∧ c < c') := by
  have hq : q < d.pBegin.length := h.tasks.symm ▸ h.lt
  have hfirst : d.firstTask = q := by
    rw [Dabudai.firstTask, h.offset, Int.toNat_natCast, if_pos hq]
  have hn : n ≠ 0 := Nat.ne_of_gt (Nat.lt_of_le_of_lt (Nat.zero_le q) h.lt)
  have hnum : d.nTaskNum ≠ 0 := by rw [h.number]; omega
  have hmod : (q + 0) % n = q := Nat.mod_eq_of_lt h.lt
  -- The test of the first task, and the offset behind it.
  obtain ⟨hyx, htick⟩ := h.yx hl q
  obtain ⟨hadv, hcount⟩ := hyx.advance (d.yx conf q).1
  have hchoose : d.chooseTask conf
      = ((d.yx conf q).2.advance (d.yx conf q).1).skipInactive conf q := by
    rw [Dabudai.chooseTask, h.place_eq.2, hfirst, Dabudai.moveOffset, if_pos hnum]
  have hbegin : ((d.yx conf q).2.advance (d.yx conf q).1).pBegin = d.pBegin := by
    rw [pBegin_advance, pBegin_yx]
  generalize hd₁ : (d.yx conf q).2.advance (d.yx conf q).1 = d₁ at *
  have ht : d.pBegin[q]? = some d.pBegin[q] := List.getElem?_eq_getElem hq
  rw [hchoose, Dabudai.skipInactive, hbegin, ht]
  dsimp only
  by_cases hact : d.pBegin[q].active = true
  · rw [if_neg (by rw [hact]; simp)]
    by_cases hret : (d.yx conf q).1 < 1
    · rw [if_pos hret] at hadv
      refine ⟨1, hadv, fun j hj _ => ?_, fun h0 => absurd h0 Nat.one_ne_zero⟩
      obtain rfl : j = 0 := by omega
      exact hmod.symm
    · rw [if_neg hret] at hadv
      refine ⟨0, hmod.symm ▸ hadv, fun j hj => absurd hj (Nat.not_lt_zero j), fun _ => ?_⟩
      obtain ⟨⟨c, hc, hc'⟩, -⟩ := htick (by omega)
      exact ⟨c, c + 1, hc, (hcount q).trans hc', by omega⟩
  · have hidle : ∀ j, j = 0 → ¬ ∃ t, d.pBegin[(q + j) % n]? = some t ∧ t.active = true := by
      rintro j rfl ⟨t, ht', ha⟩
      rw [hmod, ht] at ht'
      cases ht'
      exact hact ha
    have hk₂ : (if q + 1 < d.pBegin.length then q + 1 else 0) = (q + 1) % n := by
      rw [h.tasks]
      have := h.lt
      split
      · rw [Nat.mod_eq_of_lt (by omega)]
      · have : q + 1 = n := by omega
        rw [this, Nat.mod_self]
    have hnum₁ : d₁.nTaskNum ≠ 0 := by rw [hadv.number]; omega
    rw [if_pos ⟨hnum₁, by rw [Bool.not_eq_true _ |>.mp hact]; rfl⟩, hk₂]
    obtain ⟨hyx₂, htick₂⟩ := hadv.yx hl ((q + 1) % n)
    obtain ⟨hadv₂, hcount₂⟩ := hyx₂.advance (d₁.yx conf ((q + 1) % n)).1
    have hnext : ((q + 1) % n + 1) % n = (q + 2) % n := Nat.mod_add_mod _ _ _
    by_cases hret : (d.yx conf q).1 < 1
    · by_cases hret₂ : (d₁.yx conf ((q + 1) % n)).1 < 1
      · rw [if_pos hret, if_pos hret₂, hnext] at hadv₂
        refine ⟨2, hadv₂, fun j hj hneed => ?_, fun h0 => absurd h0 (by decide)⟩
        rcases Nat.eq_zero_or_pos j with h0 | h0
        · exact absurd hneed (hidle j h0)
        · obtain rfl : j = 1 := by omega
          rfl
      · rw [if_pos hret, if_neg hret₂] at hadv₂
        exact ⟨1, hadv₂, fun j hj hneed => absurd hneed (hidle j (by omega)),
          fun h0 => absurd h0 Nat.one_ne_zero⟩
    · by_cases hret₂ : (d₁.yx conf ((q + 1) % n)).1 < 1
      · rw [if_neg hret, if_pos hret₂] at hadv₂
        exact ⟨1, hadv₂, fun j hj hneed => absurd hneed (hidle j (by omega)),
          fun h0 => absurd h0 Nat.one_ne_zero⟩
      · rw [if_neg hret, if_neg hret₂] at hadv₂
        refine ⟨0, hmod.symm ▸ hadv₂, fun j hj => absurd hj (Nat.not_lt_zero j), fun _ => ?_⟩
        obtain ⟨⟨c, hc, hc'⟩, -⟩ := htick (by omega)
        obtain ⟨-, hmono⟩ := htick₂ (by omega)
        obtain ⟨c', hc'', hle⟩ := hmono q (c + 1) ((hcount q).trans hc')
        exact ⟨c, c', hc, (hcount₂ q).trans hc'', by omega⟩

end

/-! ### Along the calls -/

theorem answerItems_outline (conf : Configure) (t : Int) (k : Nat) :
    ∀ (items : List (Text × Int)) (q : TaskQueue),
      (q.answerItems conf t k items).1.outline = q.outline
  | [], _ => rfl
  | _ :: items, q => by
      rw [TaskQueue.answerItems]
      exact answerItems_outline conf t k items _

/-- A request changes no more of the queue than the lists of the task it selects. -/
theorem Dabudai.serve_eq (conf : Configure) (d : Dabudai) (r : Request) :
    ∃ tasks, d.serve conf r = { (d.chooseTask conf).2 with pBegin := tasks } ∧
      tasks.map TaskQueue.outline = d.pBegin.map TaskQueue.outline := by
  have hbegin := pBegin_chooseTask d conf
  rw [Dabudai.serve, answerMailboxRequestWithLevel]
  generalize d.chooseTask conf = kd at *
  obtain ⟨k, d'⟩ := kd
  dsimp only at hbegin ⊢
  cases hk : d'.pBegin[k]? with
  | none => exact ⟨d'.pBegin, rfl, by rw [hbegin]⟩
  | some q =>
      dsimp only
      split
      · refine ⟨_, rfl, ?_⟩
        rw [List.map_set, answerItems_outline, ← hbegin]
        refine List.ext_getElem? fun m => ?_
        rw [List.getElem?_set]
        split
        · rename_i hkm
          subst hkm
          split
          · rw [List.getElem?_map, hk, Option.map_some]
          · rename_i hlt
            rw [List.getElem?_eq_none (Nat.le_of_not_lt hlt)]
        · rfl
      · exact ⟨d'.pBegin, rfl, by rw [hbegin]⟩

theorem Dabudai.counter_congr {d d' : Dabudai}
    (h : d'.pBegin.map TaskQueue.outline = d.pBegin.map TaskQueue.outline)
    (hy : d'.yxHead = d.yxHead) (k : Nat) : d'.counter k = d.counter k := by
  have hget : (d'.pBegin[k]?).map TaskQueue.outline = (d.pBegin[k]?).map TaskQueue.outline := by
    rw [← List.getElem?_map, ← List.getElem?_map, h]
  have hbind : ∀ e : Dabudai, e.counter k
      = ((e.pBegin[k]?).map TaskQueue.outline).bind fun o => yxFind o.1 e.yxHead := by
    intro e
    rw [counter]
    cases e.pBegin[k]? <;> rfl
  rw [hbind, hbind, hget, hy]

/-- What a run of calls keeps: the queue, as far as the choice reads it, and the ranges of the
offset and of the counters. -/
structure Dabudai.Good (out : List ((Int × Int × Int) × Bool)) (level : Int)
    (d : Dabudai) : Prop where
  outline : d.pBegin.map TaskQueue.outline = out
  number : d.nTaskNum = out.length
  offset : 0 ≤ d.nTaskOffset
  counted : Counted level d.yxHead

section
variable {conf : Configure} {out : List ((Int × Int × Int) × Bool)} {d : Dabudai}

theorem Dabudai.Good.at (h : d.Good out conf.yxlevel) (hn : 0 < out.length) :
    d.wrapOffset.At conf.yxlevel out.length d.place := by
  have hlen : d.pBegin.length = out.length := by rw [← h.outline, List.length_map]
  have hoff : d.wrapOffset.nTaskOffset = (d.place : Int) ∧ d.place < out.length := by
    have h₀ := h.offset
    have h₁ := h.number
    rw [place, wrapOffset]
    split
    · exact ⟨rfl, hn⟩
    · exact ⟨(Int.toNat_of_nonneg h₀).symm, by omega⟩
  refine ⟨by rw [pBegin_wrapOffset, hlen], ?_, hoff.1, hoff.2, ?_⟩
  · rw [wrapOffset]
    split <;> exact h.number
  · rw [wrapOffset]
    split <;> exact h.counted

/-- The choice is that from the wrapped offset. -/
theorem Dabudai.Good.chooseTask_wrap (h : d.Good out conf.yxlevel) (hn : 0 < out.length) :
    d.wrapOffset.chooseTask conf = d.chooseTask conf := by
  rw [chooseTask, chooseTask, (h.at hn).place_eq.2]

theorem Dabudai.counter_wrapOffset (d : Dabudai) (k : Nat) :
    d.wrapOffset.counter k = d.counter k := by
  rw [wrapOffset]
  split <;> rfl

/-- **The daemon goes around.** -/
theorem cyclic_chooseTask (hl : 0 ≤ conf.yxlevel) (hn : 0 < out.length) :
    Cyclic (Dabudai.serve conf) (Dabudai.selects conf) Dabudai.place (Dabudai.used conf)
      (fun k => ∃ o, out[k]? = some o ∧ o.2 = true) (Dabudai.Good out conf.yxlevel)
      out.length conf.yxlevel.toNat := by
  have hafter : ∀ {d : Dabudai} {q : Nat} (r : Request), d.Good out conf.yxlevel →
      (d.chooseTask conf).2.At conf.yxlevel out.length q →
        (d.serve conf r).Good out conf.yxlevel ∧ (d.serve conf r).place = q ∧
          ∀ k, (d.serve conf r).counter k = (d.chooseTask conf).2.counter k := by
    intro d q r hd hq
    obtain ⟨tasks, hserve, houtline⟩ := d.serve_eq conf r
    have hat : ({ (d.chooseTask conf).2 with pBegin := tasks } : Dabudai).At conf.yxlevel
        out.length q :=
      ⟨by rw [← List.length_map TaskQueue.outline, houtline, hd.outline], hq.number, hq.offset,
        hq.lt, hq.counted⟩
    rw [hserve]
    refine ⟨⟨houtline.trans hd.outline, hq.number, ?_, hq.counted⟩, hat.place_eq.1, fun k => ?_⟩
    · dsimp only
      rw [hq.offset]
      exact Int.natCast_nonneg q
    · have hsame : tasks.map TaskQueue.outline
          = (d.chooseTask conf).2.pBegin.map TaskQueue.outline := by
        rw [houtline, pBegin_chooseTask]
      generalize (d.chooseTask conf).2 = d' at *
      have hy : ({ d' with pBegin := tasks } : Dabudai).yxHead = d'.yxHead := rfl
      exact Dabudai.counter_congr hsame hy k
  have hbound : ∀ d : Dabudai, d.Good out conf.yxlevel → d.used conf ≤ conf.yxlevel.toNat := by
    intro d hd
    have := (hd.at hn).used_le
    rw [Dabudai.used, (hd.at hn).place_eq.2] at this
    rw [Dabudai.used]
    simpa only [Dabudai.counter_wrapOffset] using this
  refine ⟨fun d r hd => ?_, hbound, fun d r hd => ?_⟩
  · obtain ⟨k, hat, -, -⟩ := (hd.at hn).chooseTask hl
    rw [hd.chooseTask_wrap hn] at hat
    exact (hafter r hd hat).1
  · obtain ⟨k, hat, hserves, hstay⟩ := (hd.at hn).chooseTask hl
    rw [hd.chooseTask_wrap hn] at hat hserves hstay
    obtain ⟨-, hplace, hcounter⟩ := hafter r hd hat
    refine ⟨k, hplace, fun j hj hneed => hserves j hj ?_, ?_⟩
    · obtain ⟨o, ho, hactive⟩ := hneed
      have hget := congrArg (fun l : List ((Int × Int × Int) × Bool) =>
        l[(d.place + j) % out.length]?) hd.outline
      rw [ho, List.getElem?_map] at hget
      obtain ⟨t, ht, rfl⟩ := Option.map_eq_some_iff.mp hget
      exact ⟨t, by rw [pBegin_wrapOffset]; exact ht, hactive⟩
    · have hle := hbound d hd
      rcases Nat.eq_zero_or_pos k with rfl | hk
      · obtain ⟨c, c', hc, hc', hlt⟩ := hstay rfl
        rw [Dabudai.counter_wrapOffset] at hc
        have hplace' : (d.serve conf r).place = d.place := by
          rw [hplace, Nat.add_zero, Nat.mod_eq_of_lt (hd.at hn).lt]
        have h₁ : d.used conf = c.toNat := by
          rw [Dabudai.used]
          exact congrArg (fun o : Option Int => (o.getD conf.yxlevel).toNat) hc
        have h₂ : (d.serve conf r).used conf = c'.toNat := by
          rw [Dabudai.used]
          have : (d.serve conf r).counter (d.serve conf r).place = some c' := by
            rw [hcounter, hplace', hc']
          exact congrArg (fun o : Option Int => (o.getD conf.yxlevel).toNat) this
        obtain ⟨t, -, ht⟩ := Option.bind_eq_some_iff.mp hc
        have := (hd.counted.find ht).1
        rw [h₁, h₂]
        omega
      · have : 1 * (conf.yxlevel.toNat + 1) ≤ k * (conf.yxlevel.toNat + 1) :=
          Nat.mul_le_mul_right _ hk
        omega

end

/-- **Every active task is selected.**  From an offset of at least 0, in `n * (L + 1)` calls, with
counters between 0 and `L`. -/
theorem activeTasks_selected {conf : Configure} {d : Dabudai} (hl : 0 ≤ conf.yxlevel)
    (hnum : d.nTaskNum = d.pBegin.length) (hoffset : 0 ≤ d.nTaskOffset)
    (hcount : Counted conf.yxlevel d.yxHead) {rs : List Request}
    (hlen : rs.length = d.pBegin.length * (conf.yxlevel.toNat + 1)) {k : Nat} {t : TaskQueue}
    (ht : d.pBegin[k]? = some t) (hactive : t.active = true) :
    k ∈ selectedTasks conf d rs := by
  have hout : (d.pBegin.map TaskQueue.outline).length = d.pBegin.length := List.length_map _
  have hk : k < d.pBegin.length := (List.getElem?_eq_some_iff.mp ht).1
  have hgood : d.Good (d.pBegin.map TaskQueue.outline) conf.yxlevel :=
    ⟨rfl, by rw [hout]; exact hnum, hoffset, hcount⟩
  have hn : 0 < (d.pBegin.map TaskQueue.outline).length := by omega
  refine (cyclic_chooseTask hl hn).serves (by rw [hout, hlen]) hgood (hgood.at hn).lt
    (by rw [hout]; exact hk) ⟨t.outline, ?_, hactive⟩
  rw [List.getElem?_map, ht, Option.map_some]

/-- A task of no subscribers. -/
def bareTask (tmpl : Int) : TaskQueue :=
  ⟨be32 0 ++ be32 0 ++ be32 tmpl, ⟨0, []⟩, fun _ => MailList.empty [], 0, 0⟩

theorem activeTasks_selected_second :
    1 ∈ selectedTasks ⟨1, 0, 1⟩ ⟨[bareTask 1, bareTask 2], 2, 7, [((0, 0, 1), 1)]⟩
      (List.replicate 4 (0, 0, [])) :=
  activeTasks_selected (by decide) rfl (by decide)
    (fun p hp => by obtain rfl := List.mem_singleton.mp hp; decide) rfl
    (t := bareTask 2) rfl rfl

/-- Three calls from the offset -2 select the first of three tasks each time. -/
theorem negative_offset_misses :
    (∀ t ∈ [bareTask 1, bareTask 2, bareTask 3], t.active = true) ∧
      selectedTasks ⟨1, 0, 0⟩ ⟨[bareTask 1, bareTask 2, bareTask 3], 3, -2, []⟩
        (List.replicate (3 * (0 + 1)) (0, 0, [])) = [0, 0, 0] := by
  refine ⟨fun t ht => ?_, by decide +kernel⟩
  simp only [List.mem_cons, List.not_mem_nil, or_false] at ht
  rcases ht with rfl | rfl | rfl <;> rfl

end Edm.Maillist
