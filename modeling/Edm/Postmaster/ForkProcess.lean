import Edm.Postmaster.Wheel
import Edm.Support.Run

/-!
# Postmaster — ForkProcess

`fork_process`: one process of `edmsmtp` and its timing wheel.  It waits for events, handles them
one by one (a context is put back into the wheel, or freed), and then, when the time of a
partition is over, frees what is still in it.

What sockets answer, when connections arrive and what the clock shows is all open (`Possible`); a
step is `none` when the process crashes.
-/

namespace Edm.Postmaster
open Support

/-- The options `dw_get_options` accepts. -/
structure Options where
  socktimeout : Int
  checkperiod : Int
  fits : socktimeout < 2 ^ 31
  accepted : ¬ (socktimeout < 1 ∨ checkperiod < 1 ∨ checkperiod > socktimeout)

/-- How often the loop that makes the partitions runs: its bound is an `int`. -/
def Options.partitions (o : Options) : Nat :=
  (wrapInt (Int.tdiv o.socktimeout o.checkperiod + 1)).toNat

def epollSize : Nat := 256

/-- The loop waits, or it handles events (`none`: the acceptor is ready), or it has ended. -/
inductive LoopStage where
  | waiting
  | events (evs : List (Option Ptr))
  | ended
  deriving DecidableEq

structure Process where
  wheel : Wheel
  timeout : Int
  tvstart : Int
  stage : LoopStage

/-- How `epoll_wait` ends. -/
inductive Wait where
  | ready (evs : List (Option Ptr))
  | idle
  | interrupted
  | error

/-- What a process does next.  `retval` is what the input or the output of a context gives, or
-999 for an event that is neither; `accept none`: nobody is waiting to be accepted; `check now
later` reads the clock twice; `terminate`: a signal was received. -/
inductive Move where
  | wait (r : Wait)
  | event (retval : Int)
  | accept (r : Option Allocated)
  | check (now later : Int)
  | terminate

namespace Process

/-- The state in front of the loop. -/
def start (o : Options) (now : Int) : Process where
  wheel :=
    { contexts := .empty
      nodeTwid := fun _ => 0
      prevPtr := fun _ => none
      nextPtr := fun _ => none
      count := o.partitions
      twps := fun _ => ⟨0, none, none⟩
      twid := 0
      useCount := 0 }
  timeout := o.checkperiod
  tvstart := now
  stage := .waiting

/-- What the environment can do.  `epoll_wait` reports a descriptor once, and none that was
closed. -/
def Possible (c : Process) : Move → Prop
  | .wait (.ready evs) =>
      c.stage = .waiting ∧ evs.Nodup ∧ evs.length ≤ epollSize ∧ ∀ e ∈ evs, ∀ p ∈ e, c.wheel.Live p
  | .wait _ | .terminate => c.stage = .waiting
  | .event retval =>
      (∃ p evs, c.stage = .events (some p :: evs)) ∧ (retval = 0 ∨ retval = -1 ∨ retval = -999)
  | .accept r => (∃ evs, c.stage = .events (none :: evs)) ∧ ∀ a ∈ r, c.wheel.Fresh a
  | .check _ _ => c.stage = .events []

instance (s : LoopStage) : Decidable (∃ p evs, s = .events (some p :: evs)) :=
  match s with
  | .events (some p :: evs) => isTrue ⟨p, evs, rfl⟩
  | .events (none :: _) | .events [] | .waiting | .ended => isFalse (by rintro ⟨_, _, ⟨⟩⟩)

instance (s : LoopStage) : Decidable (∃ evs, s = .events (none :: evs)) :=
  match s with
  | .events (none :: evs) => isTrue ⟨evs, rfl⟩
  | .events (some _ :: _) | .events [] | .waiting | .ended => isFalse (by rintro ⟨_, ⟨⟩⟩)

instance (c : Process) (m : Move) : Decidable (c.Possible m) :=
  match m with
  | .wait (.ready _) => inferInstanceAs (Decidable (_ ∧ _ ∧ _ ∧ ∀ e ∈ _, ∀ p ∈ e, c.wheel.Live p))
  | .wait .idle | .wait .interrupted | .wait .error | .terminate =>
      inferInstanceAs (Decidable (_ = _))
  | .event _ => inferInstanceAs (Decidable (_ ∧ (_ ∨ _ ∨ _)))
  | .accept r => inferInstanceAs (Decidable (_ ∧ ∀ a ∈ r, _))
  | .check _ _ => inferInstanceAs (Decidable (_ = _))

/-- One step of the loop of `fork_process`. -/
def step (o : Options) (c : Process) : Move → Option Process
  | .terminate | .wait .error => some { c with stage := .ended }
  | .wait .interrupted => some { c with timeout := o.checkperiod, stage := .events [] }
  | .wait .idle =>
      some { c with
        timeout := if c.wheel.useCount < 1 ∧ c.timeout < 3600 * 12 then c.timeout * 2 else c.timeout
        tvstart := 0
        stage := .events [] }
  | .wait (.ready evs) => some { c with timeout := o.checkperiod, stage := .events evs }
  | .event retval =>
      match c.stage with
      | .events (some p :: evs) => do
          let wheel ←
            if retval = 0 then c.wheel.twRset p
            else if retval = -1 then c.wheel.cleanEdmsmtpContext p
            else some c.wheel
          some { c with wheel := wheel, stage := .events evs }
      | _ => none
  | .accept r =>
      match c.stage, r with
      | .events (_ :: evs), none => some { c with stage := .events evs }
      | .events _, some a => do
          let wheel ← c.wheel.createEdmsmtpContext a
          some { c with wheel := wheel }
      | _, _ => none
  | .check now later =>
      if now - c.tvstart > o.checkperiod then do
        let wheel ← c.wheel.twClear (c.wheel.getTwpsPtr c.wheel.twid)
        let twid ← wheel.twpsNextId
        some { c with wheel := { wheel with twid := twid }, tvstart := later, stage := .waiting }
      else some { c with stage := .waiting }

/-! ### What holds in every state -/

variable {o : Options} {c c' : Process} {lists : Nat → List Ptr}

/-- The wheel is sound, and what is still to be handled belongs to contexts that are there. -/
structure Sound (o : Options) (c : Process) (lists : Nat → List Ptr) : Prop where
  wheel : c.wheel.Sound lists
  count : c.wheel.count = o.partitions
  ready : ∀ {evs}, c.stage = .events evs → evs.Nodup ∧ ∀ p, some p ∈ evs → c.wheel.Live p

theorem partitions_lt (o : Options) : o.partitions < 2 ^ 31 := by
  have h := Int.bmod_lt (x := Int.tdiv o.socktimeout o.checkperiod + 1) (m := 2 ^ 32) (by decide)
  rw [Options.partitions, wrapInt]
  omega

theorem sound_start (o : Options) (now : Int) : (start o now).Sound o fun _ => [] where
  wheel :=
    { dlist := fun _ => .nil
      size := fun _ => rfl
      placed := fun _ h => absurd h List.not_mem_nil
      all := fun h => absurd h Bool.false_ne_true
      useCount := (Finset.sum_const_zero).symm
      exact := .empty
      small := partitions_lt o
      turn := ⟨0, rfl, id⟩ }
  count := rfl
  ready h := nomatch h

/-- Events are handled in a state where the wheel is sound. -/
theorem Sound.stage {evs : List (Option Ptr)} (h : c.Sound o lists) {timeout tvstart : Int}
    (hevs : evs.Nodup ∧ ∀ p, some p ∈ evs → c.wheel.Live p) :
    Sound o ⟨c.wheel, timeout, tvstart, .events evs⟩ lists :=
  ⟨h.wheel, h.count, fun he => by
    obtain rfl := LoopStage.events.inj he
    exact hevs⟩

/-- The clock is read: when the time of the partition is over, it is cleared. -/
theorem Sound.check (h : c.Sound o lists) (now later : Int) (hpos : 0 < o.partitions) {t : Nat}
    (ht : c.wheel.twid = t) (hover : now - c.tvstart > o.checkperiod) :
    ∃ c', c.step o (.check now later) = some c' ∧ c'.Sound o (Function.update lists t []) ∧
      c'.stage = .waiting ∧ c'.wheel.twid = ((t + 1) % o.partitions : Nat) ∧
      c'.wheel.contexts.made = c.wheel.contexts.made := by
  obtain ⟨u, hu, hlt⟩ := h.wheel.turn
  obtain rfl : u = t := Int.ofNat.inj (hu.symm.trans ht)
  have hcount := h.count
  have hu' : u < c.wheel.count := hlt (hcount ▸ hpos)
  obtain ⟨w, hclear, hsound, hframe⟩ := h.wheel.twClear hu'
  have hnext := Wheel.twpsNextId_spec hsound.small (hframe.count.symm ▸ hcount ▸ hpos)
    (hframe.twid.trans ht) (hframe.count.symm ▸ hu')
  simp only [step, if_pos hover, ht, Wheel.getTwpsPtr_eq hu', hclear, hnext, Option.bind_eq_bind,
    Option.bind_some]
  refine ⟨_, rfl, ⟨⟨⟨hsound.dlist, hsound.size, hsound.placed⟩, hsound.all, hsound.useCount,
    hsound.exact, hsound.small, ⟨_, rfl, fun hpos => Nat.mod_lt _ hpos⟩⟩, hframe.count.trans hcount,
    fun he => nomatch he⟩, rfl, ?_, hframe.made⟩
  dsimp only
  rw [hframe.count, hcount]

/-- An event is handled: the context is put back, or freed, or left where it is. -/
theorem Sound.event (h : c.Sound o lists) {p : Ptr} {evs : List (Option Ptr)}
    (hstage : c.stage = .events (some p :: evs)) (retval : Int) :
    ∃ c' lists', c.step o (.event retval) = some c' ∧ c'.Sound o lists' := by
  obtain ⟨hnodup, hready⟩ := h.ready hstage
  obtain ⟨hnew, hevs⟩ := List.nodup_cons.mp hnodup
  have hp : c.wheel.Live p := hready p List.mem_cons_self
  have hrest : ∀ q, some q ∈ evs → c.wheel.Live q ∧ q ≠ p := fun q hq =>
    ⟨hready q (List.mem_cons_of_mem _ hq), fun hqp => hnew (hqp ▸ hq)⟩
  obtain ⟨i, hi, hpi⟩ := h.wheel.all hp
  simp only [Process.step, hstage]
  split
  next =>
    obtain ⟨w, lists', hrset, hsound, hframe, hcontexts⟩ :=
      h.wheel.twRset (Nat.zero_lt_of_lt hi) hp
    rw [hrset]
    refine ⟨_, lists', rfl, hsound, hframe.count.trans h.count, fun he => ?_⟩
    obtain rfl := LoopStage.events.inj he
    exact ⟨hevs, fun q hq => by rw [Wheel.Live, hcontexts]; exact (hrest q hq).1⟩
  next =>
    split
    next =>
      obtain ⟨a, b, hx⟩ := List.append_of_mem hpi
      obtain ⟨w, hclean, hsound, hframe, hlive⟩ := h.wheel.clean hi hx
      rw [hclean]
      refine ⟨_, _, rfl, hsound, hframe.count.trans h.count, fun he => ?_⟩
      obtain rfl := LoopStage.events.inj he
      exact ⟨hevs, fun q hq => (hlive q).mpr (hrest q hq)⟩
    next => exact ⟨_, lists, rfl, h.stage ⟨hevs, fun q hq => (hrest q hq).1⟩⟩

/-- A connection is accepted: its context is created, if there is memory for it. -/
theorem Sound.accept (h : c.Sound o lists) {evs : List (Option Ptr)}
    (hstage : c.stage = .events (none :: evs)) {r : Option Allocated}
    (hfresh : ∀ a ∈ r, c.wheel.Fresh a) :
    (∃ c' lists', c.step o (.accept r) = some c' ∧ c'.Sound o lists') ∨
      o.partitions = 0 ∧ c.step o (.accept r) = none := by
  have hready := h.ready hstage
  simp only [Process.step, hstage]
  cases r with
  | none =>
    refine .inl ⟨_, lists, rfl, h.stage ?_⟩
    exact ⟨(List.nodup_cons.mp hready.1).2, fun q hq => hready.2 q (List.mem_cons_of_mem _ hq)⟩
  | some a =>
    dsimp only
    by_cases hpos : ∀ p prev next, a = .context p prev next → 0 < c.wheel.count
    · obtain ⟨w, lists', hcreate, hsound, hcount, hlive⟩ := h.wheel.create (hfresh a rfl) hpos
      rw [hcreate]
      refine .inl ⟨_, lists', rfl, hsound, hcount.trans h.count, fun he => ?_⟩
      obtain rfl := LoopStage.events.inj he
      exact ⟨hready.1, fun q hq => hlive q (hready.2 q hq)⟩
    · push Not at hpos
      obtain ⟨p, prev, next, rfl, hcount⟩ := hpos
      have hzero : c.wheel.count = 0 := Nat.le_zero.mp hcount
      refine .inr ⟨h.count.symm.trans hzero, ?_⟩
      have hprev : (c.wheel.allocate p prev next).twpsPrevId = none := if_pos hzero
      simp only [Wheel.createEdmsmtpContext, Wheel.twRset, hprev, Option.bind_eq_bind,
        Option.bind_none]

/-- Without partitions there is none to clear. -/
theorem check_of_zero (h : c.wheel.count = 0) {now later : Int}
    (hover : now - c.tvstart > o.checkperiod) : c.step o (.check now later) = none := by
  have hptr : c.wheel.getTwpsPtr c.wheel.twid = none :=
    if_neg fun hlt => Nat.not_lt_zero _ (h ▸ hlt.2)
  have hnext : c.wheel.twpsNextId = none := if_pos h
  simp only [step, if_pos hover, hptr, Wheel.twClear, hnext, Option.bind_eq_bind, Option.bind_some,
    Option.bind_none]

/-- A step goes through, unless there are no partitions at all. -/
theorem Sound.step (h : c.Sound o lists) {m : Move} (hm : c.Possible m) :
    (∃ c' lists', c.step o m = some c' ∧ c'.Sound o lists') ∨
      o.partitions = 0 ∧ c.step o m = none := by
  have hstays : ∀ {timeout tvstart : Int} {s : LoopStage}, (∀ evs, s ≠ .events evs) →
      Sound o ⟨c.wheel, timeout, tvstart, s⟩ lists :=
    fun hs => ⟨h.wheel, h.count, fun he => absurd he (hs _)⟩
  cases m with
  | terminate => exact .inl ⟨_, lists, rfl, hstays (by rintro _ ⟨⟩)⟩
  | wait r =>
    cases r with
    | error => exact .inl ⟨_, lists, rfl, hstays (by rintro _ ⟨⟩)⟩
    | idle | interrupted =>
      exact .inl ⟨_, lists, rfl, h.stage ⟨List.nodup_nil, fun _ hp => absurd hp List.not_mem_nil⟩⟩
    | ready evs =>
      exact .inl ⟨_, lists, rfl, h.stage ⟨hm.2.1, fun p hp => hm.2.2.2 (some p) hp p rfl⟩⟩
  | event retval =>
    obtain ⟨⟨p, evs, hstage⟩, -⟩ := hm
    exact .inl (h.event hstage retval)
  | accept r =>
    obtain ⟨⟨evs, hstage⟩, hfresh⟩ := hm
    exact h.accept hstage hfresh
  | check now later =>
    by_cases hover : now - c.tvstart > o.checkperiod
    · rcases Nat.eq_zero_or_pos o.partitions with hzero | hpos
      · exact .inr ⟨hzero, check_of_zero (h.count.trans hzero) hover⟩
      · obtain ⟨t, ht, -⟩ := h.wheel.turn
        obtain ⟨c', hstep, hsound, -⟩ := h.check now later hpos ht hover
        exact .inl ⟨c', _, hstep, hsound⟩
    · refine .inl ⟨_, lists, by rw [Process.step, if_neg hover], ?_⟩
      exact hstays (by rintro _ ⟨⟩)

/-! ### A turn of the wheel -/

/-- A step that is possible. -/
abbrev Steps (o : Options) : Process → Move → Process → Prop :=
  Guarded Possible fun c m c' => c.step o m = some c'

/-- A round in which nothing happens. -/
def round (now : Int) : List Move := [.wait .idle, .check now now]

/-- A round in which nothing happens clears one partition. -/
theorem Sound.round (h : c.Sound o lists) (hstage : c.stage = .waiting) {now : Int}
    (hpos : 0 < o.partitions) {t : Nat} (ht : c.wheel.twid = t) (hnow : o.checkperiod < now) :
    ∃ c', Run (Process.Steps o) c (Process.round now) c' ∧
      c'.Sound o (Function.update lists t []) ∧ c'.stage = .waiting ∧
      c'.wheel.twid = ((t + 1) % o.partitions : Nat) ∧
      c'.wheel.contexts.made = c.wheel.contexts.made := by
  have hidle : Sound o ⟨c.wheel, if c.wheel.useCount < 1 ∧ c.timeout < 3600 * 12 then c.timeout * 2
      else c.timeout, 0, .events []⟩ lists :=
    h.stage ⟨List.nodup_nil, fun _ hp => absurd hp List.not_mem_nil⟩
  obtain ⟨c', hstep, hc'⟩ :=
    hidle.check now now hpos ht (by rw [sub_zero]; exact hnow)
  exact ⟨c', .more ⟨hstage, rfl⟩ (.one ⟨rfl, hstep⟩), hc'⟩

/-- Rounds in which nothing happens clear the partitions in turn. -/
theorem Sound.rounds (nows : List Int) (h : c.Sound o lists) (hstage : c.stage = .waiting)
    (hpos : 0 < o.partitions) {t : Nat} (ht : c.wheel.twid = t)
    (hnows : ∀ now ∈ nows, o.checkperiod < now) :
    ∃ c' lists', Run (Process.Steps o) c (nows.flatMap Process.round) c' ∧ c'.Sound o lists' ∧
      c'.wheel.contexts.made = c.wheel.contexts.made ∧
      (∀ i, lists i = [] → lists' i = []) ∧
      ∀ j < nows.length, lists' ((t + j) % o.partitions) = [] := by
  induction nows generalizing c lists t with
  | nil =>
    exact ⟨c, lists, .refl c, h, rfl, fun _ => id, fun j hj => absurd hj (Nat.not_lt_zero _)⟩
  | cons now nows ih =>
    obtain ⟨c₁, hround, hsound, hwaits, htwid, hmade⟩ :=
      h.round hstage hpos ht (hnows now List.mem_cons_self)
    obtain ⟨c', lists', hrest, hsound', hmade', hkept, hcleared⟩ :=
      ih hsound hwaits htwid fun now hnow => hnows now (List.mem_cons_of_mem _ hnow)
    refine ⟨c', lists', hround.trans hrest, hsound', hmade'.trans hmade, fun i hi => hkept i ?_,
      fun j hj => ?_⟩
    · rw [Function.update_apply, hi, ite_self]
    · cases j with
      | zero =>
        obtain ⟨u, hu, hlt⟩ := h.wheel.turn
        obtain rfl : u = t := Int.ofNat.inj (hu.symm.trans ht)
        rw [Nat.add_zero, Nat.mod_eq_of_lt (h.count ▸ hlt (h.count ▸ hpos))]
        exact hkept u (Function.update_self ..)
      | succ j =>
        have hj' := hcleared j (Nat.lt_of_succ_lt_succ hj)
        rw [Nat.mod_add_mod, Nat.add_assoc, Nat.add_comm 1] at hj'
        exact hj'

/-- After a whole turn every context has been freed. -/
theorem Sound.turn (nows : List Int) (h : c.Sound o lists) (hstage : c.stage = .waiting)
    (hpos : 0 < o.partitions) (hlength : nows.length = o.partitions)
    (hnows : ∀ now ∈ nows, o.checkperiod < now) :
    ∃ c', Run (Process.Steps o) c (nows.flatMap Process.round) c' ∧
      c'.wheel.contexts.made = c.wheel.contexts.made ∧
      ∀ m < c.wheel.contexts.made, c'.wheel.contexts.freed.count m = 1 := by
  obtain ⟨t, ht, hlt⟩ := h.wheel.turn
  obtain ⟨c', lists', hrun, hsound, hmade, -, hcleared⟩ := h.rounds nows hstage hpos ht hnows
  refine ⟨c', hrun, hmade, fun m hm => ?_⟩
  rcases hsound.wheel.exact.count (hmade ▸ hm) with ⟨hone, -⟩ | ⟨-, p, hp⟩
  · exact hone
  · obtain ⟨i, hi, hpi⟩ := hsound.wheel.all (p := p) (by rw [Wheel.Live, hp]; rfl)
    rw [hsound.count] at hi
    have ht' : t < o.partitions := h.count ▸ hlt (h.count ▸ hpos)
    have hempty := hcleared ((i + o.partitions - t) % o.partitions)
      (by rw [hlength]; exact Nat.mod_lt _ hpos)
    rw [Nat.add_mod_mod, show t + (i + o.partitions - t) = i + o.partitions by omega,
      Nat.add_mod_right, Nat.mod_eq_of_lt hi] at hempty
    rw [hempty] at hpi
    exact absurd hpi List.not_mem_nil

/-- The bound of the loop that makes the partitions fits an `int`, but for the longest timeout and
the shortest period. -/
theorem partitions_pos (o : Options) (h : ¬ (o.socktimeout = 2 ^ 31 - 1 ∧ o.checkperiod = 1)) :
    0 < o.partitions := by
  have hacc := o.accepted
  have hfits := o.fits
  have hs : 0 ≤ o.socktimeout := by omega
  have hquot : 0 ≤ Int.tdiv o.socktimeout o.checkperiod ∧
      Int.tdiv o.socktimeout o.checkperiod + 1 < 2 ^ 31 := by
    rw [Int.tdiv_eq_ediv_of_nonneg hs]
    refine ⟨Int.ediv_nonneg hs (by omega), ?_⟩
    rcases Int.lt_or_eq_of_le (show 1 ≤ o.checkperiod by omega) with hc | hc
    · have := Int.ediv_lt_self_of_pos_of_ne_one (x := o.socktimeout) (y := o.checkperiod)
        (by omega) (by omega)
      omega
    · rw [← hc, Int.ediv_one]
      omega
  obtain ⟨n, hn⟩ := Int.eq_ofNat_of_zero_le
      (show 0 ≤ Int.tdiv o.socktimeout o.checkperiod + 1 by omega)
  rw [hn] at hquot
  rw [Options.partitions, hn, Wheel.wrapInt_eq (by omega)]
  omega

end Process

/-- What is promised of the wheel: every partition is a list, linked both ways, of contexts, as
many as its size says; every context is in the partition it names, and in no other; all of them
are counted. -/
def Wheel.Orderly (w : Wheel) : Prop :=
  ∃ lists : Nat → List Ptr,
    (∀ i < w.count, Dlist w.prevPtr w.nextPtr (w.twps i).head (w.twps i).tail (lists i) ∧
      (w.twps i).size = (lists i).length ∧ ∀ p ∈ lists i, w.Live p) ∧
    (∀ p, w.Live p → (∃ i < w.count, w.nodeTwid p = i) ∧
      ∀ i < w.count, p ∈ lists i ↔ w.nodeTwid p = i) ∧
    w.useCount = ∑ i ∈ Finset.range w.count, (lists i).length

theorem Wheel.Sound.orderly {w : Wheel} {lists : Nat → List Ptr} (h : w.Sound lists)
    : w.Orderly := by
  refine ⟨lists, fun i hi =>
    ⟨h.dlist hi, h.size hi, fun p hp => (h.placed hi hp).1⟩, fun p hp => ?_,
    h.useCount⟩
  obtain ⟨i, hi, hpi⟩ := h.all hp
  have htwid := (h.placed hi hpi).2
  refine ⟨⟨i, hi, htwid⟩, fun j hj => ⟨fun hpj => (h.placed hj hpj).2, fun hj => ?_⟩⟩
  obtain rfl : i = j := Int.ofNat.inj (htwid.symm.trans hj)
  exact hpi

namespace Process
variable {o : Options} {c : Process}

/-- In every state the wheel is in order, and every context is in memory or was freed exactly
once.  No step crashes, and a turn of the wheel in which nothing happens frees all contexts: only
where the number of partitions does not fit an `int` there is no wheel, and no context either. -/
theorem wheel_run {now : Int} {ms : List Move} (h : Run (Steps o) (start o now) ms c) :
    c.wheel.Orderly ∧
      (∀ m < c.wheel.contexts.made,
        c.wheel.contexts.freed.count m = 1 ∧ (∀ p, c.wheel.contexts.live p ≠ some m) ∨
          c.wheel.contexts.freed.count m = 0 ∧ ∃ p, c.wheel.contexts.live p = some m) ∧
      (¬ (o.socktimeout = 2 ^ 31 - 1 ∧ o.checkperiod = 1) →
        (∀ m, c.Possible m → ∃ c', c.step o m = some c') ∧
          (c.stage = .waiting → ∀ nows : List Int, nows.length = o.partitions →
            (∀ now ∈ nows, o.checkperiod < now) →
              ∃ c', Run (Steps o) c (nows.flatMap round) c' ∧
                c'.wheel.contexts.made = c.wheel.contexts.made ∧
                ∀ m < c.wheel.contexts.made, c'.wheel.contexts.freed.count m = 1)) := by
  obtain ⟨lists, hsound⟩ : ∃ lists, c.Sound o lists :=
    h.invariant (I := fun c => ∃ lists, c.Sound o lists) (fun c m c' ⟨lists, hc⟩ hstep => by
      rcases hc.step hstep.1 with ⟨c'', lists', heq, hc'⟩ | ⟨-, hnone⟩
      · obtain rfl := Option.some.inj (heq.symm.trans hstep.2)
        exact ⟨lists', hc'⟩
      · exact absurd (hnone.symm.trans hstep.2) (Option.some_ne_none _).symm) ⟨_, sound_start o now⟩
  refine ⟨hsound.wheel.orderly, fun m hm => hsound.wheel.exact.count hm, fun hbound => ?_⟩
  have hpos := partitions_pos o hbound
  refine ⟨fun m hm => ?_, fun hstage nows hlength hnows =>
    hsound.turn nows hstage hpos hlength hnows⟩
  rcases hsound.step hm with ⟨c', -, hstep, -⟩ | ⟨hzero, -⟩
  · exact ⟨c', hstep⟩
  · exact absurd hzero hpos.ne'

/-- A timeout of two seconds, looked at every second. -/
def twoSeconds : Options := ⟨2, 1, by decide, by decide⟩

/-- Two connections: one is lost, the other goes on. -/
def twoContexts : List Move :=
  [.wait (.ready [none]), .accept (some (.context 0 none none)),
    .accept (some (.context 1 (some 0) none)), .accept none, .check 1 1,
    .wait (.ready [some 1, some 0]), .event (-1), .event 0, .check 1 1]

theorem wheel_run_twoContexts : ∃ c : Process,
    (c.wheel.useCount = 1 ∧ c.wheel.contexts.freed = [1]) ∧ c.wheel.Orderly := by
  have hrun : ((twoContexts.foldlM
      (fun c m => if decide (c.Possible m) then c.step twoSeconds m else none)
      (start twoSeconds 0)).any fun c =>
        decide (c.wheel.useCount = 1 ∧ c.wheel.contexts.freed = [1])) = true := by
    decide +kernel
  obtain ⟨c, hc, hend⟩ := (Option.any_eq_true _ _).mp hrun
  exact ⟨c, of_decide_eq_true hend,
    (wheel_run (Run.of_checked (fun _ _ h => of_decide_eq_true h) hc)).1⟩

end Process

end Edm.Postmaster
