import Edm.Postmaster.ForkProcess
import Mathlib.Algebra.Order.BigOperators.Group.Finset
import Mathlib.Data.Rat.Floor
import Mathlib.Tactic.Linarith

/-!
# Postmaster — IdleTimeout

How long a connection may be silent before the wheel closes it.  A process is run with the real
time: `epoll_wait` returns 0 only after its timeout, and `time(0)` is the time in whole seconds.
A new socket can be written to, so `epoll_wait` does not time out before its first event is
handled (`Watched`).

A partition is cleared a period after the one before it, or later; the first, however, may be
cleared as soon as a connection is put into the wheel.  So a connection is safe for `socktimeout`
seconds when a whole number of periods makes up the timeout, and it is put into the partition that
is cleared last.  `twps_prev_id` means that one, but takes the remainder of an unsigned number:
from partition 0 it goes back to the last one only if their number is a power of two
(`patient_iff`).
-/

namespace Edm.Postmaster
open Support

/-! ### A process in time -/

/-- A process, the time in seconds, and when each context was accepted or last active. -/
structure Timed where
  process : Process
  now : ℚ
  active : Ptr → ℚ

namespace Timed

def start (o : Options) (now : ℚ) : Timed := ⟨.start o ⌊now⌋, now, fun _ => now⟩

/-- What the time allows. -/
def InTime (c : Timed) (t : ℚ) : Move → Prop
  | .wait .idle => c.now + c.process.timeout ≤ t
  | .check now later => ⌊c.now⌋ ≤ now ∧ now ≤ later ∧ later = ⌊t⌋
  | _ => True

instance (c : Timed) (t : ℚ) (m : Move) : Decidable (c.InTime t m) :=
  match m with
  | .wait .idle => inferInstanceAs (Decidable (_ ≤ _))
  | .check _ _ => inferInstanceAs (Decidable (_ ∧ _ ∧ _))
  | .wait (.ready _) | .wait .interrupted | .wait .error | .event _ | .accept _ | .terminate =>
      isTrue trivial

/-- What can happen, at a time. -/
def Possible (c : Timed) (a : Move × ℚ) : Prop :=
  c.process.Possible a.1 ∧ c.now ≤ a.2 ∧ c.InTime a.2 a.1

instance (c : Timed) (a : Move × ℚ) : Decidable (c.Possible a) :=
  inferInstanceAs (Decidable (_ ∧ _ ∧ _))

/-- The context that is accepted, or has an event that is handled with result 0. -/
def touched (c : Timed) : Move → Option Ptr
  | .event retval =>
      match c.process.stage with
      | .events (some p :: _) => if retval = 0 then some p else none
      | _ => none
  | .accept (some (.context p _ _)) => some p
  | _ => none

def activeAfter (c : Timed) (a : Move × ℚ) : Ptr → ℚ :=
  match c.touched a.1 with
  | none => c.active
  | some p => Function.update c.active p a.2

/-- `timeout*1000`, the milliseconds that `epoll_wait` gets, fit an `int`; otherwise nothing is
defined. -/
def Waits (c : Timed) : Move → Prop
  | .wait _ => c.process.timeout * 1000 < 2 ^ 31
  | _ => True

instance (c : Timed) (m : Move) : Decidable (c.Waits m) :=
  match m with
  | .wait _ => inferInstanceAs (Decidable (_ < _))
  | .event _ | .accept _ | .check _ _ | .terminate => isTrue trivial

/-- One step of the loop, at a time. -/
def step (o : Options) (c : Timed) (a : Move × ℚ) : Option Timed :=
  if c.Waits a.1 then (c.process.step o a.1).map fun process => ⟨process, a.2, c.activeAfter a⟩
  else none

/-- A step that is possible. -/
abbrev Steps (o : Options) : Timed → Move × ℚ → Timed → Prop :=
  Guarded Possible fun c a c' => c.step o a = some c'

end Timed

/-! ### New sockets -/

/-- A process in time, and the contexts whose sockets `epoll_wait` has to report: `EPOLLOUT` is
set for a socket that is accepted, and nothing was sent on it. -/
structure Watched where
  timed : Timed
  pending : List Ptr

namespace Watched

def start (o : Options) (now : ℚ) : Watched := ⟨.start o now, []⟩

/-- `epoll_wait` does not time out while a socket that is open has to be reported. -/
def Quiet (c : Watched) : Move → Prop
  | .wait .idle => ∀ p ∈ c.pending, ¬ c.timed.process.wheel.Live p
  | _ => True

instance (c : Watched) (m : Move) : Decidable (c.Quiet m) :=
  match m with
  | .wait .idle => inferInstanceAs (Decidable (∀ p ∈ _, _))
  | .wait (.ready _) | .wait .interrupted | .wait .error | .event _ | .accept _ | .check _ _
  | .terminate => isTrue trivial

/-- What can happen, at a time.  With a socket that is accepted goes whether `epoll_ctl` succeeds:
`epoll_accept` does not look at its result. -/
def Possible (c : Watched) (a : (Move × ℚ) × Bool) : Prop := c.timed.Possible a.1 ∧ c.Quiet a.1.1

instance (c : Watched) (a : (Move × ℚ) × Bool) : Decidable (c.Possible a) :=
  inferInstanceAs (Decidable (_ ∧ _))

/-- An accepted socket has to be reported until its event is handled. -/
def pendingAfter (c : Watched) (m : Move) (registered : Bool) : List Ptr :=
  match m, c.timed.process.stage with
  | .accept (some (.context p _ _)), _ => if registered then p :: c.pending else c.pending
  | .event _, .events (some p :: _) => c.pending.filter (· ≠ p)
  | _, _ => c.pending

/-- One step of the loop. -/
def step (o : Options) (c : Watched) (a : (Move × ℚ) × Bool) : Option Watched :=
  (c.timed.step o a.1).map fun timed => ⟨timed, c.pendingAfter a.1.1 a.2⟩

/-- A step that is possible. -/
abbrev Steps (o : Options) : Watched → (Move × ℚ) × Bool → Watched → Prop :=
  Guarded Possible fun c a c' => c.step o a = some c'

theorem step_eq_some_iff {o : Options} {c c' : Watched} {a : (Move × ℚ) × Bool} :
    c.step o a = some c' ↔
      c.timed.step o a.1 = some c'.timed ∧ c'.pending = c.pendingAfter a.1.1 a.2 := by
  rw [step, Option.map_eq_some_iff]
  constructor
  · rintro ⟨timed, hstep, rfl⟩
    exact ⟨hstep, rfl⟩
  · rintro ⟨hstep, hpending⟩
    exact ⟨_, hstep, hpending ▸ rfl⟩

end Watched

/-- What is promised: in every run every step is defined, and the wheel closes no connection that
was active less than `socktimeout` seconds before. -/
def Options.Patient (o : Options) : Prop :=
  ∀ (now : ℚ) (as : List ((Move × ℚ) × Bool)) (c : Watched),
    Run (Watched.Steps o) (.start o now) as c →
      (∀ a, c.Possible a → c.step o a ≠ none) ∧
        ∀ (now later : Int) (t : ℚ) (registered : Bool) (c' : Watched),
          Watched.Steps o c ((.check now later, t), registered) c' →
            ∀ p, c.timed.process.wheel.Live p → ¬ c'.timed.process.wheel.Live p →
              c.timed.active p + o.socktimeout ≤ t

/-! ### Where a context is put -/

namespace Wheel
variable {w w' : Wheel} {p : Ptr}

/-- An operation on the context at `p` leaves the other contexts where they are. -/
structure Keeps (w w' : Wheel) (p : Ptr) : Prop where
  count : w'.count = w.count
  twid : w'.twid = w.twid
  live : ∀ q ≠ p, (w'.Live q ↔ w.Live q)
  placed : ∀ q ≠ p, w'.nodeTwid q = w.nodeTwid q

theorem Relinked.refl (w : Wheel) : w.Relinked w := ⟨_, _, _, rfl⟩

theorem twRemove_relinked {i : Option Nat} (h : w.twRemove p i = some w') : w.Relinked w' := by
  cases i with
  | none => exact Option.some.inj h ▸ .refl w
  | some i =>
      rw [twRemove] at h
      split at h
      next => exact Option.some.inj h ▸ .refl w
      next =>
        obtain ⟨⟨prevPtr, nextPtr, twp⟩, -, heq⟩ := Option.bind_eq_some_iff.mp h
        exact ⟨_, _, _, (Option.some.inj heq).symm⟩

theorem twInsert_relinked {i : Option Nat} (h : w.twInsert p i = some w') : w.Relinked w' := by
  cases i with
  | none => exact Option.some.inj h ▸ .refl w
  | some i =>
      simp only [twInsert] at h
      split at h
      next => exact ⟨_, _, _, (Option.some.inj h).symm⟩
      next =>
        split at h
        next => exact Option.some.inj h ▸ .refl w
        next =>
          obtain ⟨tail, -, heq⟩ := Option.bind_eq_some_iff.mp h
          exact ⟨_, _, _, (Option.some.inj heq).symm⟩

theorem deref_eq_some {q : Ptr} (h : w.deref (some p) = some q) : q = p ∧ w.Live p := by
  rw [deref, Option.filter_some] at h
  split at h
  next hlive => exact ⟨(Option.some.inj h).symm, of_decide_eq_true hlive⟩
  next => cases h

/-- The context is put behind the hand. -/
theorem twRset_keeps (h : w.twRset p = some w') :
    w.Keeps w' p ∧ w'.contexts = w.contexts ∧ w.twpsPrevId = some (w'.nodeTwid p) := by
  obtain ⟨k, hk, hnode⟩ := Option.bind_eq_some_iff.mp h
  obtain ⟨q, hq, hmove⟩ := Option.bind_eq_some_iff.mp hnode
  obtain ⟨rfl, -⟩ := deref_eq_some hq
  have henter : ∀ {w₁ : Wheel}, w.Relinked w₁ →
      ({ w₁ with nodeTwid := Function.update w₁.nodeTwid q k } : Wheel).twInsert q
        (w₁.getTwpsPtr k) = some w' →
      w.Keeps w' q ∧ w'.contexts = w.contexts ∧ w.twpsPrevId = some (w'.nodeTwid q) := by
    rintro w₁ ⟨prevPtr, nextPtr, twps, rfl⟩ hinsert
    obtain ⟨prevPtr', nextPtr', twps', rfl⟩ := twInsert_relinked hinsert
    have hself : Function.update w.nodeTwid q k q = k := Function.update_self ..
    exact ⟨⟨rfl, rfl, fun _ _ => .rfl, fun r hr => Function.update_of_ne hr _ _⟩, rfl,
      hk.trans (congrArg some hself.symm)⟩
  split at hmove
  next hsame =>
    obtain rfl := Option.some.inj hmove
    exact ⟨⟨rfl, rfl, fun _ _ => .rfl, fun _ _ => rfl⟩, rfl, hsame ▸ hk⟩
  next =>
    dsimp only at hmove
    split at hmove
    next =>
      obtain ⟨w₁, hremove, hinsert⟩ := Option.bind_eq_some_iff.mp hmove
      exact henter (twRemove_relinked hremove) hinsert
    next => exact henter (.refl w) hmove

/-- A context that is freed is gone. -/
theorem clean_keeps (h : w.cleanEdmsmtpContext p = some w') : w.Keeps w' p ∧ ¬ w'.Live p := by
  obtain ⟨q, hq, hfreed⟩ := Option.bind_eq_some_iff.mp h
  obtain ⟨rfl, -⟩ := deref_eq_some hq
  obtain ⟨w₁, hremove, hcontexts⟩ := Option.bind_eq_some_iff.mp hfreed
  obtain ⟨prevPtr, nextPtr, twps, rfl⟩ := twRemove_relinked hremove
  obtain ⟨contexts, hfree, hw'⟩ := Option.bind_eq_some_iff.mp hcontexts
  obtain rfl := Option.some.inj hw'
  obtain ⟨m, -, rfl⟩ := Option.map_eq_some_iff.mp hfree
  refine ⟨⟨rfl, rfl, fun r hr => ?_, fun _ _ => rfl⟩, ?_⟩
  · simp only [Live, Function.update_of_ne hr]
  · simp only [Live, Function.update_self]
    exact Bool.false_ne_true

/-- A context that is created is put behind the hand, too. -/
theorem create_keeps {prev next : Option Ptr}
    (h : w.createEdmsmtpContext (.context p prev next) = some w') :
    w.Keeps w' p ∧ w'.Live p ∧ w.twpsPrevId = some (w'.nodeTwid p) := by
  obtain ⟨w₁, hrset, h⟩ := Option.bind_eq_some_iff.mp h
  obtain rfl := Option.some.inj h
  obtain ⟨hkeeps, hcontexts, hprev⟩ := twRset_keeps hrset
  refine ⟨⟨hkeeps.count, hkeeps.twid, fun q hq => ?_, fun q hq => ?_⟩, ?_, hprev⟩
  · exact (hkeeps.live q hq).trans (live_allocate_of_ne hq _ _)
  · exact (hkeeps.placed q hq).trans (Function.update_of_ne hq _ _)
  · rw [Live, hcontexts]
    exact live_allocate prev next

/-- Where there is no memory for its buffer, no context is left. -/
theorem create_noBuffer_keeps (h : w.createEdmsmtpContext (.noBuffer p) = some w') :
    w.Keeps w' p ∧ ¬ w'.Live p := by
  obtain ⟨contexts, hfree, h⟩ := Option.bind_eq_some_iff.mp h
  obtain rfl := Option.some.inj h
  obtain ⟨m, -, rfl⟩ := Option.map_eq_some_iff.mp hfree
  refine ⟨⟨rfl, rfl, fun r hr => ?_, fun _ _ => rfl⟩, ?_⟩
  · simp only [Live, Function.update_of_ne hr, Ledger.make_live_of_ne _ hr]
  · simp only [Live, Function.update_self]
    exact Bool.false_ne_true

end Wheel

/-! ### The hand of the wheel -/

/-- How many partitions are cleared before partition `i`, when the hand is at partition `k`. -/
def turns (count k i : Nat) : Nat := if k ≤ i then i - k else i + count - k

theorem turns_next {count k i : Nat} (hk : k < count) (hi : i < count) (hne : i ≠ k) :
    turns count ((k + 1) % count) i + 1 = turns count k i := by
  have hnext : (k + 1) % count = if k + 1 = count then 0 else k + 1 := by
    split
    next h => rw [h, Nat.mod_self]
    next h => exact Nat.mod_eq_of_lt (by omega)
  rw [hnext, turns, turns]
  split_ifs <;> omega

/-- `twps_prev_id` of partition `k`. -/
def behind (count k : Nat) : Nat := toSize ((k : Int) - 1) % count

theorem behind_zero (count : Nat) : behind count 0 = (2 ^ 64 - 1) % count := rfl

theorem behind_of_pos {count k : Nat} (hpos : 0 < k) (hk : k < count) (hcount : count < 2 ^ 31) :
    behind count k = k - 1 := by
  have hsize : toSize ((k : Int) - 1) = k - 1 := by
    rw [toSize, Int.emod_eq_of_lt (by omega) (by omega)]
    omega
  rw [behind, hsize, Nat.mod_eq_of_lt (by omega)]

theorem sub_one_mod_iff {n m : Nat} (hn : 0 < n) (hm : 0 < m) : (n - 1) % m = m - 1 ↔ m ∣ n := by
  constructor
  · intro h
    have hdiv := Nat.div_add_mod (n - 1) m
    refine ⟨(n - 1) / m + 1, ?_⟩
    rw [Nat.mul_add, Nat.mul_one]
    omega
  · rintro ⟨k, rfl⟩
    obtain ⟨k, rfl⟩ := Nat.exists_eq_add_one.mpr (Nat.pos_of_mul_pos_left hn)
    rw [Nat.mul_add, Nat.mul_one, Nat.add_sub_assoc hm, Nat.mul_add_mod,
      Nat.mod_eq_of_lt (by omega)]

/-- From partition 0 the last one is found when their number is a power of two. -/
theorem turns_behind {count k : Nat} (hk : k < count) (hcount : count < 2 ^ 31)
    (hdvd : count ∣ 2 ^ 64) : turns count k (behind count k) = count - 1 := by
  rcases Nat.eq_zero_or_pos k with rfl | hpos
  · rw [behind_zero, (sub_one_mod_iff (by decide) hk).mpr hdvd, turns, if_pos (Nat.zero_le _)]
    rfl
  · rw [behind_of_pos hpos hk hcount, turns, if_neg (by omega)]
    omega

/-- The options for which the wheel keeps its promise: a whole number of periods makes up the
timeout, the number of partitions is a power of two, and the numbers fit an `int`. -/
structure Options.Fits (o : Options) : Prop where
  dvd : o.checkperiod ∣ o.socktimeout
  power : o.socktimeout / o.checkperiod + 1 ∣ 2 ^ 64
  count : o.socktimeout / o.checkperiod + 1 < 2 ^ 31
  milliseconds : o.checkperiod * 1000 < 2 ^ 31

theorem Options.checkperiod_pos (o : Options) : 0 < o.checkperiod := by
  have := o.accepted
  omega

theorem Options.partitions_eq {o : Options} (h : o.socktimeout / o.checkperiod + 1 < 2 ^ 31) :
    (o.partitions : Int) = o.socktimeout / o.checkperiod + 1 := by
  have hacc := o.accepted
  have hquot : 0 ≤ o.socktimeout / o.checkperiod := Int.ediv_nonneg (by omega) (by omega)
  obtain ⟨n, hn⟩ := Int.eq_ofNat_of_zero_le (show 0 ≤ o.socktimeout / o.checkperiod + 1 by omega)
  rw [partitions, Int.tdiv_eq_ediv_of_nonneg (by omega), hn, Wheel.wrapInt_eq (by omega)]
  rfl

theorem Options.Fits.partitions {o : Options} (h : o.Fits) :
    0 < o.partitions ∧ o.partitions ∣ 2 ^ 64 ∧
      ((o.partitions - 1 : Nat) : Int) * o.checkperiod = o.socktimeout := by
  have hacc := o.accepted
  have hquot : 0 ≤ o.socktimeout / o.checkperiod := Int.ediv_nonneg (by omega) (by omega)
  have heq := o.partitions_eq h.count
  have hpos : 0 < o.partitions := by omega
  refine ⟨hpos, ?_, ?_⟩
  · have hpower := h.power
    rw [← heq] at hpower
    exact_mod_cast hpower
  · rw [Nat.cast_sub hpos, heq, Nat.cast_one, Int.add_sub_cancel, Int.ediv_mul_cancel h.dvd]

/-! ### What every step keeps -/

namespace Timed
variable {o : Options} {c c' : Timed} {lists : Nat → List Ptr} {k : Nat} {due : ℚ}

/-- A step of the process at a time. -/
theorem steps_of {m : Move} {t : ℚ} {c' : Process} (hm : c.process.Possible m) (hnow : c.now ≤ t)
    (htime : c.InTime t m) (hwaits : c.Waits m) (hstep : c.process.step o m = some c') :
    Steps o c (m, t) ⟨c', t, c.activeAfter (m, t)⟩ := by
  have hdefined : c.step o (m, t) = some ⟨c', t, c.activeAfter (m, t)⟩ := by
    rw [Timed.step, if_pos hwaits, hstep, Option.map_some]
  exact ⟨⟨hm, hnow, htime⟩, hdefined⟩

/-- The hand is at `k`, and the next partition is cleared at `due`, or later.  A context that is
cleared after `n` others has `n` periods more. -/
structure Law (o : Options) (c : Timed) (lists : Nat → List Ptr) (k : Nat) (due : ℚ) :
    Prop where
  sound : c.process.Sound o lists
  hand : c.process.wheel.twid = k
  timeout : o.checkperiod ≤ c.process.timeout
  short : c.process.timeout = o.checkperiod ∨ c.process.timeout < 2 * (3600 * 12)
  soon : due ≤ c.now ∨ due < c.process.tvstart + o.checkperiod + 1
  later : due ≤ c.now + o.checkperiod
  rest : ∀ p, c.process.wheel.Live p → ∀ i : Nat, c.process.wheel.nodeTwid p = i →
    c.active p + o.socktimeout ≤ max due c.now + turns o.partitions k i * o.checkperiod

theorem Law.hand_lt (h : Law o c lists k due) (hpos : 0 < o.partitions) : k < o.partitions := by
  obtain ⟨t, ht, hlt⟩ := h.sound.wheel.turn
  have hcount := h.sound.count
  obtain rfl : t = k := Int.ofNat.inj (ht.symm.trans h.hand)
  rw [← hcount]
  exact hlt (hcount ▸ hpos)

theorem law_start (o : Options) (now : ℚ) : Law o (start o now) (fun _ => []) 0 now where
  sound := Process.sound_start o _
  hand := rfl
  timeout := Int.le_refl _
  short := .inl rfl
  soon := .inl (le_refl now)
  later := by
    have hpos : (0 : ℚ) < o.checkperiod := Int.cast_pos.mpr o.checkperiod_pos
    exact le_add_of_nonneg_right hpos.le
  rest p hp := absurd hp Bool.false_ne_true

/-- A step that leaves the wheel alone. -/
theorem Law.stay (h : Law o c lists k due) {t : ℚ} (hnow : c.now ≤ t) {timeout tvstart : Int}
    {stage : LoopStage} {lists' : Nat → List Ptr}
    (hsound : Process.Sound o ⟨c.process.wheel, timeout, tvstart, stage⟩ lists')
    (htimeout : o.checkperiod ≤ timeout)
    (hshort : timeout = o.checkperiod ∨ timeout < 2 * (3600 * 12))
    (hdue : due ≤ t ∨ due < tvstart + o.checkperiod + 1) :
    Law o ⟨⟨c.process.wheel, timeout, tvstart, stage⟩, t, c.active⟩ lists' k due where
  sound := hsound
  hand := h.hand
  timeout := htimeout
  short := hshort
  soon := hdue
  later := h.later.trans (add_le_add_left hnow _)
  rest p hp i hi :=
    (h.rest p hp i hi).trans (add_le_add_left (max_le_max_left due hnow) _)

/-- A step that puts the context at `p` behind the hand, or frees it. -/
theorem Law.put (h : Law o c lists k due) (ho : o.Fits) {t : ℚ} (hnow : c.now ≤ t) {w : Wheel}
    {p : Ptr} (hkeeps : c.process.wheel.Keeps w p) {lists' : Nat → List Ptr}
    {stage : LoopStage} {active : Ptr → ℚ}
    (hsound : Process.Sound o ⟨w, c.process.timeout, c.process.tvstart, stage⟩ lists')
    (hp : w.Live p → c.process.wheel.twpsPrevId = some (w.nodeTwid p) ∧ active p = t)
    (hothers : ∀ q ≠ p, active q = c.active q) :
    Law o ⟨⟨w, c.process.timeout, c.process.tvstart, stage⟩, t, active⟩ lists' k due where
  sound := hsound
  hand := hkeeps.twid.trans h.hand
  timeout := h.timeout
  short := h.short
  soon := h.soon.imp_left fun hdue => hdue.trans hnow
  later := h.later.trans (add_le_add_left hnow _)
  rest q hq i hi := by
    dsimp only at hq hi ⊢
    by_cases hqp : q = p
    · subst hqp
      -- It was active now, and all other partitions are cleared before its own.
      obtain ⟨hpos, hdvd, hperiods⟩ := ho.partitions
      obtain ⟨hprev, hactive⟩ := hp hq
      have hk := h.hand_lt hpos
      have hsmall := Process.partitions_lt o
      have hcount := h.sound.count
      rw [Wheel.twpsPrevId_eq (hcount ▸ hsmall) (hcount ▸ hpos), h.hand, hcount, hi] at hprev
      have hbehind : i = behind o.partitions k := Int.ofNat.inj (Option.some.inj hprev).symm
      rw [hactive, hbehind, turns_behind hk hsmall hdvd]
      have hcast : ((o.partitions - 1 : Nat) : ℚ) * o.checkperiod = o.socktimeout := by
        exact_mod_cast hperiods
      rw [hcast]
      exact add_le_add_left (le_max_right _ _) _
    · rw [hothers q hqp]
      rw [hkeeps.placed q hqp] at hi
      exact (h.rest q ((hkeeps.live q hqp).mp hq) i hi).trans
        (add_le_add_left (max_le_max_left due hnow) _)

theorem step_check {c c' : Process} {now later : Int} (hover : now - c.tvstart > o.checkperiod)
    (hstep : c.step o (.check now later) = some c') :
    c'.tvstart = later ∧ c'.timeout = c.timeout := by
  rw [Process.step, if_pos hover] at hstep
  obtain ⟨w, -, hstep⟩ := Option.bind_eq_some_iff.mp hstep
  obtain ⟨twid, -, hstep⟩ := Option.bind_eq_some_iff.mp hstep
  obtain rfl := Option.some.inj hstep
  exact ⟨rfl, rfl⟩

/-- Partition `k` is cleared, and nothing else is. -/
theorem cleared {c c' : Process} (h : c.Sound o lists)
    (h' : c'.Sound o (Function.update lists k [])) (p : Ptr) :
    (c'.wheel.Live p → ∃ i < o.partitions, i ≠ k ∧ c'.wheel.nodeTwid p = i ∧
        c.wheel.Live p ∧ c.wheel.nodeTwid p = i) ∧
      (c.wheel.Live p → ¬ c'.wheel.Live p → c.wheel.nodeTwid p = k) := by
  have hcount := h.count
  have hcount' := h'.count
  constructor
  · intro hp
    obtain ⟨i, hi, hpi⟩ := h'.wheel.all hp
    have hik : i ≠ k := by
      rintro rfl
      rw [Function.update_self] at hpi
      exact absurd hpi List.not_mem_nil
    have hplaced := h'.wheel.placed hi hpi
    rw [Function.update_of_ne hik] at hpi
    obtain ⟨hlive, htwid⟩ := h.wheel.placed (hcount.trans hcount'.symm ▸ hi) hpi
    exact ⟨i, hcount' ▸ hi, hik, hplaced.2, hlive, htwid⟩
  · intro hp hgone
    obtain ⟨i, hi, hpi⟩ := h.wheel.all hp
    by_cases hik : i = k
    · rw [← hik]
      exact (h.wheel.placed hi hpi).2
    · rw [← Function.update_of_ne hik [] lists] at hpi
      exact absurd (h'.wheel.placed (hcount'.trans hcount.symm ▸ hi) hpi).1 hgone

/-- The clock is read, and a partition whose time is over is cleared. -/
theorem Law.check (h : Law o c lists k due) (hpos : 0 < o.partitions) {now later : Int} {t : ℚ}
    (hnow : c.now ≤ t) (htime : c.InTime t (.check now later)) :
    ∃ c' lists' k' due', c.process.step o (.check now later) = some c' ∧
      Law o ⟨c', t, c.active⟩ lists' k' due' ∧
        ∀ p, c.process.wheel.Live p → ¬ c'.wheel.Live p → c.active p + o.socktimeout ≤ t := by
  obtain ⟨-, hlater, hfloor⟩ := htime
  have hread : (later : ℚ) ≤ t := hfloor ▸ Int.floor_le t
  by_cases hover : now - c.process.tvstart > o.checkperiod
  · obtain ⟨c', hstep, hsound, -, htwid, -⟩ := h.sound.check now later hpos h.hand hover
    obtain ⟨htvstart, htimeout⟩ := step_check hover hstep
    -- The period since the last partition was cleared is over.
    have hdue : due ≤ t := by
      rcases h.soon with hdue | hdue
      · exact hdue.trans hnow
      · have hperiod : ((c.process.tvstart + o.checkperiod + 1 : Int) : ℚ) ≤ later :=
          Int.cast_le.mpr (by omega)
        push_cast at hperiod
        linarith
    have hmax : max due c.now ≤ t := max_le hdue hnow
    refine ⟨c', _, (k + 1) % o.partitions, t + o.checkperiod, hstep, ⟨hsound, htwid, ?_, ?_, ?_,
      le_refl _, fun p hp i hi => ?_⟩, fun p hp hgone => ?_⟩
    · rw [htimeout]
      exact h.timeout
    · rw [htimeout]
      exact h.short
    · refine .inr ?_
      have hfrac := Int.lt_floor_add_one t
      rw [htvstart, hfloor]
      linarith
    · obtain ⟨j, hj, hjk, htwid', hlive, hold⟩ := (cleared h.sound hsound p).1 hp
      obtain rfl : j = i := Int.ofNat.inj (htwid'.symm.trans hi)
      have hrest := h.rest p hlive j hold
      have hturns : (turns o.partitions k j : ℚ)
          = turns o.partitions ((k + 1) % o.partitions) j + 1 := by
        exact_mod_cast (turns_next (h.hand_lt hpos) hj hjk).symm
      rw [hturns, add_mul, one_mul] at hrest
      have hle := le_max_left (t + o.checkperiod : ℚ) t
      dsimp only
      linarith
    · have hrest := h.rest p hp k ((cleared h.sound hsound p).2 hp hgone)
      rw [turns, if_pos (Nat.le_refl k), Nat.sub_self, Nat.cast_zero, zero_mul, add_zero] at hrest
      exact hrest.trans hmax
  · refine ⟨{ c.process with stage := .waiting }, lists, k, due,
      by rw [Process.step, if_neg hover], ?_, fun p hp hgone => absurd hp hgone⟩
    exact h.stay hnow ⟨h.sound.wheel, h.sound.count, fun he => by cases he⟩ h.timeout h.short
      (h.soon.imp_left fun hdue => hdue.trans hnow)

/-- An event is handled. -/
theorem Law.event (h : Law o c lists k due) (ho : o.Fits) {p : Ptr} {evs : List (Option Ptr)}
    (hstage : c.process.stage = .events (some p :: evs)) (retval : Int) {t : ℚ}
    (hnow : c.now ≤ t) :
    ∃ c' lists', c.process.step o (.event retval) = some c' ∧
      Law o ⟨c', t, c.activeAfter (.event retval, t)⟩ lists' k due := by
  obtain ⟨c', lists', hstep, hsound⟩ := h.sound.event hstage retval
  refine ⟨c', lists', hstep, ?_⟩
  have htouched : c.touched (.event retval) = if retval = 0 then some p else none := by
    rw [touched, hstage]
  rw [activeAfter, htouched]
  simp only [Process.step, hstage] at hstep
  split at hstep
  next hzero =>
    obtain ⟨w, hw, heq⟩ := Option.bind_eq_some_iff.mp hstep
    obtain rfl := Option.some.inj heq
    obtain ⟨hkeeps, -, hprev⟩ := Wheel.twRset_keeps hw
    rw [if_pos hzero]
    exact h.put ho hnow hkeeps hsound (fun _ => ⟨hprev, Function.update_self ..⟩)
      fun q hq => Function.update_of_ne hq _ _
  next hzero =>
    rw [if_neg hzero]
    split at hstep
    next =>
      obtain ⟨w, hw, heq⟩ := Option.bind_eq_some_iff.mp hstep
      obtain rfl := Option.some.inj heq
      obtain ⟨hkeeps, hgone⟩ := Wheel.clean_keeps hw
      exact h.put ho hnow hkeeps hsound (fun hp => absurd hp hgone) fun _ _ => rfl
    next =>
      obtain rfl := Option.some.inj hstep
      exact h.stay hnow hsound h.timeout h.short (h.soon.imp_left fun hdue => hdue.trans hnow)

/-- A connection is accepted, or there is none. -/
theorem Law.accept (h : Law o c lists k due) (ho : o.Fits) {evs : List (Option Ptr)}
    (hstage : c.process.stage = .events (none :: evs)) {r : Option Allocated}
    (hfresh : ∀ a ∈ r, c.process.wheel.Fresh a) {t : ℚ} (hnow : c.now ≤ t) :
    ∃ c' lists', c.process.step o (.accept r) = some c' ∧
      Law o ⟨c', t, c.activeAfter (.accept r, t)⟩ lists' k due := by
  have hsoon := h.soon.imp_left fun hdue => hdue.trans hnow
  obtain ⟨c', lists', hstep, hsound⟩ :=
    (h.sound.accept hstage hfresh).resolve_right fun hzero => ho.partitions.1.ne' hzero.1
  refine ⟨c', lists', hstep, ?_⟩
  simp only [Process.step, hstage] at hstep
  cases r with
  | none =>
      obtain rfl := Option.some.inj hstep
      exact h.stay hnow hsound h.timeout h.short hsoon
  | some a =>
      obtain ⟨w, hw, heq⟩ := Option.bind_eq_some_iff.mp hstep
      obtain rfl := Option.some.inj heq
      cases a with
      | noContext =>
          obtain rfl := Option.some.inj hw
          exact h.stay hnow hsound h.timeout h.short hsoon
      | noBuffer p =>
          obtain ⟨hkeeps, hgone⟩ := Wheel.create_noBuffer_keeps hw
          exact h.put ho hnow hkeeps hsound (fun hp => absurd hp hgone) fun _ _ => rfl
      | context p prev next =>
          obtain ⟨hkeeps, -, hprev⟩ := Wheel.create_keeps hw
          exact h.put ho hnow hkeeps hsound (fun _ => ⟨hprev, Function.update_self ..⟩)
            fun q hq => Function.update_of_ne hq _ _

/-- A step is defined, and closes no connection before its time. -/
theorem Law.step (h : Law o c lists k due) (ho : o.Fits) {a : Move × ℚ} (ha : c.Possible a) :
    ∃ c' lists' k' due', c.step o a = some c' ∧ Law o c' lists' k' due' ∧
      ((∃ now later, a.1 = .check now later) → ∀ p, c.process.wheel.Live p →
        ¬ c'.process.wheel.Live p → c.active p + o.socktimeout ≤ a.2) := by
  obtain ⟨m, t⟩ := a
  obtain ⟨hm, hnow, htime⟩ := ha
  dsimp only at hm hnow htime
  have hsoon := h.soon.imp_left fun hdue => hdue.trans hnow
  have hmilli := ho.milliseconds
  have hperiod := o.checkperiod_pos
  have hwaits : c.Waits m := by
    cases m <;> try trivial
    rcases h.short with hshort | hshort
    · rwa [Waits, hshort]
    · rw [Waits]
      omega
  have hdefined : ∀ {c'}, c.process.step o m = some c' →
      c.step o (m, t) = some ⟨c', t, c.activeAfter (m, t)⟩ :=
    fun hstep => (steps_of hm hnow htime hwaits hstep).2
  -- All but a look at the clock close no connection.
  have hother : ∀ {c' lists'}, c.process.step o m = some c' →
      Law o ⟨c', t, c.activeAfter (m, t)⟩ lists' k due → (∀ now later, m ≠ .check now later) →
      ∃ c' lists' k' due', c.step o (m, t) = some c' ∧ Law o c' lists' k' due' ∧
        ((∃ now later, m = .check now later) → ∀ p, c.process.wheel.Live p →
          ¬ c'.process.wheel.Live p → c.active p + o.socktimeout ≤ t) :=
    fun hstep hlaw hne => ⟨_, _, _, _, hdefined hstep, hlaw,
      fun ⟨now, later, heq⟩ => absurd heq (hne now later)⟩
  have hstays : ∀ {timeout tvstart : Int} {s : LoopStage}, (∀ evs, s ≠ .events evs) →
      Process.Sound o ⟨c.process.wheel, timeout, tvstart, s⟩ lists :=
    fun hs => ⟨h.sound.wheel, h.sound.count, fun he => absurd he (hs _)⟩
  cases m with
  | terminate =>
      exact hother rfl (h.stay hnow (hstays (by rintro _ ⟨⟩)) h.timeout h.short hsoon)
        (by rintro _ _ ⟨⟩)
  | wait r =>
      cases r with
      | error =>
          exact hother rfl (h.stay hnow (hstays (by rintro _ ⟨⟩)) h.timeout h.short hsoon)
            (by rintro _ _ ⟨⟩)
      | interrupted =>
          exact hother rfl (h.stay hnow (h.sound.stage ⟨List.nodup_nil, fun _ hp =>
            absurd hp List.not_mem_nil⟩) (Int.le_refl _) (.inl rfl) hsoon) (by rintro _ _ ⟨⟩)
      | ready evs =>
          exact hother rfl (h.stay hnow (h.sound.stage ⟨hm.2.1, fun p hp =>
            hm.2.2.2 (some p) hp p rfl⟩) (Int.le_refl _) (.inl rfl) hsoon) (by rintro _ _ ⟨⟩)
      | idle =>
          -- It has waited for a period.
          have hdue : due ≤ t := by
            have hcast : (o.checkperiod : ℚ) ≤ c.process.timeout := Int.cast_le.mpr h.timeout
            have hlater := h.later
            rw [InTime] at htime
            linarith
          have htimeout := h.timeout
          have hshort := h.short
          refine hother rfl (h.stay hnow (h.sound.stage ⟨List.nodup_nil, fun _ hp =>
            absurd hp List.not_mem_nil⟩) ?_ ?_ (.inl hdue)) (by rintro _ _ ⟨⟩) <;> split <;> omega
  | event retval =>
      obtain ⟨⟨p, evs, hstage⟩, -⟩ := hm
      obtain ⟨c', lists', hstep, hlaw⟩ := h.event ho hstage retval hnow
      exact hother hstep hlaw (by rintro _ _ ⟨⟩)
  | accept r =>
      obtain ⟨⟨evs, hstage⟩, hfresh⟩ := hm
      obtain ⟨c', lists', hstep, hlaw⟩ := h.accept ho hstage hfresh hnow
      exact hother hstep hlaw (by rintro _ _ ⟨⟩)
  | check now later =>
      obtain ⟨c', lists', k', due', hstep, hlaw, hlate⟩ :=
        h.check ho.partitions.1 hnow htime
      exact ⟨_, lists', k', due', hdefined hstep, hlaw, fun _ => hlate⟩

end Timed

/-- The wheel keeps its promise for options that fit. -/
theorem Options.Fits.patient {o : Options} (ho : o.Fits) : o.Patient := by
  intro now as c hrun
  obtain ⟨lists, k, due, hlaw⟩ : ∃ lists k due, Timed.Law o c.timed lists k due :=
    hrun.invariant (I := fun c => ∃ lists k due, Timed.Law o c.timed lists k due)
      (fun c a c' ⟨lists, k, due, hlaw⟩ hstep => by
        obtain ⟨c'', lists', k', due', heq, hlaw', -⟩ := hlaw.step ho hstep.1.1
        have heq' := (Watched.step_eq_some_iff.mp hstep.2).1
        obtain rfl := Option.some.inj (heq.symm.trans heq')
        exact ⟨lists', k', due', hlaw'⟩) ⟨_, _, _, Timed.law_start o now⟩
  refine ⟨fun a ha => ?_, fun now later t registered c' hstep p hp hgone => ?_⟩
  · obtain ⟨c', -, -, -, heq, -⟩ := hlaw.step ho ha.1
    rw [Watched.step, heq]
    exact Option.some_ne_none _
  · obtain ⟨c'', -, -, -, heq, -, hlate⟩ := hlaw.step ho hstep.1.1
    have heq' := (Watched.step_eq_some_iff.mp hstep.2).1
    obtain rfl := Option.some.inj (heq.symm.trans heq')
    exact hlate ⟨now, later, rfl⟩ p hp hgone

/-! ### A connection that is closed too early -/

theorem Wheel.Sound.useCount_pos {w : Wheel} {lists : Nat → List Ptr} (h : w.Sound lists) {p : Ptr}
    (hp : w.Live p) : 0 < w.useCount := by
  obtain ⟨i, hi, hpi⟩ := h.all hp
  have hle : (lists i).length ≤ Wheel.total w.count lists :=
    Finset.single_le_sum (f := fun j => (lists j).length) (fun _ _ => Nat.zero_le _)
      (Finset.mem_range.mpr hi)
  have hpos := List.length_pos_of_mem hpi
  rw [h.useCount]
  omega

namespace Timed
variable {o : Options}

/-- A step, where it is no time-out of a socket that has to be reported. -/
theorem Steps.watched {c c' : Timed} {pending : List Ptr} {a : Move × ℚ} (h : Steps o c a c')
    (hquiet : Watched.Quiet ⟨c, pending⟩ a.1) :
    Watched.Steps o ⟨c, pending⟩ (a, true) ⟨c', Watched.pendingAfter ⟨c, pending⟩ a.1 true⟩ :=
  ⟨⟨h.1, hquiet⟩, Watched.step_eq_some_iff.mpr ⟨h.2, rfl⟩⟩

/-- A look at the clock at a whole second. -/
theorem steps_check {c : Timed} {c' : Process} {x : Int} (hstage : c.process.stage = .events [])
    (hnow : c.now = x) (hstep : c.process.step o (.check x x) = some c') :
    Steps o c (.check x x, (x : ℚ)) ⟨c', x, c.active⟩ := by
  refine steps_of hstage hnow.le ⟨?_, le_refl _, (Int.floor_intCast x).symm⟩ trivial hstep
  rw [hnow, Int.floor_intCast]

/-- With `d` partitions in front of its own, a connection that stays silent is closed `d` periods
later. -/
theorem closed_after (ho : o.Patient) (hmilli : o.checkperiod * 1000 < 2 ^ 31) {start : ℚ} {p : Ptr}
    (d : Nat) : ∀ {as : List ((Move × ℚ) × Bool)} {c : Timed} {lists : Nat → List Ptr} {k : Nat}
      {x : Int}, Run (Watched.Steps o) (.start o start) as ⟨c, []⟩ → c.process.Sound o lists →
      c.process.stage = .events [] → c.process.timeout = o.checkperiod →
      c.process.tvstart + o.checkperiod < x → 0 < x → c.now = x →
      c.process.wheel.twid = k → k + d < o.partitions →
      c.process.wheel.Live p → c.process.wheel.nodeTwid p = ((k + d : Nat) : Int) →
      c.active p + o.socktimeout ≤ x + d * o.checkperiod := by
  induction d with
  | zero =>
      intro as c lists k x hrun hsound hstage htimeout hover hx hnow hk hd hp htwid
      obtain ⟨c', hstep, hsound', -⟩ := hsound.check x x (by omega) hk (by omega)
      have hgone : ¬ c'.wheel.Live p := by
        intro hp'
        obtain ⟨i, -, hik, -, -, hi⟩ := (cleared hsound hsound' p).1 hp'
        exact hik (Int.ofNat.inj (hi.symm.trans htwid))
      rw [Nat.cast_zero, zero_mul, add_zero]
      have hcheck := (steps_check hstage hnow hstep).watched
        (show Watched.Quiet ⟨c, []⟩ (.check x x) from trivial)
      exact (ho start as _ hrun).2 x x x true _ hcheck p hp hgone
  | succ d ih =>
      intro as c lists k x hrun hsound hstage htimeout hover hx hnow hk hd hp htwid
      have hperiod := o.checkperiod_pos
      obtain ⟨c', hstep, hsound', hwaiting, hk', -⟩ :=
        hsound.check x x (by omega) hk (by omega)
      obtain ⟨-, htimeout'⟩ := step_check (by omega) hstep
      rw [htimeout] at htimeout'
      have hp' : c'.wheel.Live p := by
        by_contra hgone
        have heq := (cleared hsound hsound' p).2 hp hgone
        rw [htwid] at heq
        omega
      obtain ⟨i, -, -, htwid', -, hi⟩ := (cleared hsound hsound' p).1 hp'
      rw [← hi, htwid] at htwid'
      have huse := hsound'.wheel.useCount_pos hp'
      -- It waits for a period, and nothing happens.
      let waited : Process := ⟨c'.wheel, o.checkperiod, 0, .events []⟩
      have hidle : c'.step o (.wait .idle) = some waited := by
        rw [Process.step, htimeout', if_neg fun h => by omega]
      have hwaits : Steps o ⟨c', x, c.active⟩ (.wait .idle, ((x + o.checkperiod : Int) : ℚ))
          ⟨waited, (x + o.checkperiod : Int), c.active⟩ := by
        have htime : (x : ℚ) + c'.timeout ≤ (x + o.checkperiod : Int) := by
          rw [htimeout', Int.cast_add]
        refine steps_of hwaiting (Int.cast_le.mpr (by omega)) htime ?_ hidle
        rw [Waits, htimeout']
        exact hmilli
      have hlast := ih (hrun.trans (.more ((steps_check hstage hnow hstep).watched trivial)
          (.one (hwaits.watched fun _ hq => absurd hq List.not_mem_nil))))
        (hsound'.stage ⟨List.nodup_nil, fun _ hq => absurd hq List.not_mem_nil⟩) rfl rfl
        (by dsimp only [waited]; omega) (by omega) rfl
        (hk'.trans (congrArg Nat.cast (Nat.mod_eq_of_lt (by omega)))) (by omega) hp'
        (htwid'.trans (congrArg Nat.cast (Nat.add_right_comm k d 1)))
      push_cast at hlast ⊢
      linarith

/-- `epoll_wait` is called with what overflows an `int`. -/
theorem milliseconds_of_patient (ho : o.Patient) : o.checkperiod * 1000 < 2 ^ 31 := by
  by_contra hlarge
  refine (ho 0 [] _ (.refl _)).1 ((.wait .interrupted, 0), true)
    ⟨⟨rfl, le_refl _, trivial⟩, trivial⟩ ?_
  rw [Watched.step, Timed.step, if_neg]
  · rfl
  · exact hlarge

/-- Without partitions, the first look at the clock divides by zero. -/
theorem partitions_of_patient (ho : o.Patient) : 0 < o.partitions := by
  rcases Nat.eq_zero_or_pos o.partitions with hzero | hpos
  · have hmilli := milliseconds_of_patient ho
    have hperiod := o.checkperiod_pos
    let waited : Timed := ⟨⟨(Process.start o 0).wheel, o.checkperiod, 0, .events []⟩, 0, fun _ => 0⟩
    have hwaited : Steps o (.start o 0) (.wait .interrupted, 0) waited :=
      steps_of rfl (le_refl _) trivial hmilli rfl
    have hcheck : waited.Possible
        (.check (o.checkperiod + 1) (o.checkperiod + 1), (o.checkperiod + 1 : Int)) := by
      refine ⟨rfl, ?_, ?_, le_refl _, (Int.floor_intCast _).symm⟩
      · exact Int.cast_nonneg (by omega)
      · exact Int.floor_zero.trans_le (by omega)
    refine absurd ?_ ((ho 0 _ _ (.one (hwaited.watched trivial))).1 (_, true) ⟨hcheck, trivial⟩)
    have hover : o.checkperiod + 1 - waited.process.tvstart > o.checkperiod := by
      dsimp only [waited]
      omega
    have hnone : waited.process.step o (.check (o.checkperiod + 1) (o.checkperiod + 1)) = none :=
      Process.check_of_zero hzero hover
    rw [Watched.step, Timed.step, if_pos (show waited.Waits (.check _ _) from trivial), hnone]
    rfl
  · exact hpos

/-- A connection is accepted, and greeted after more than a period: the hand still is at
partition 0, and nothing has to be reported. -/
theorem run_first (hmilli : o.checkperiod * 1000 < 2 ^ 31) (hpos : 0 < o.partitions) :
    ∃ (as : List ((Move × ℚ) × Bool)) (w : Wheel) (lists : Nat → List Ptr) (active : Ptr → ℚ),
      Run (Watched.Steps o) (.start o 0) as
        ⟨⟨⟨w, o.checkperiod, 0, .events []⟩, (o.checkperiod + 1 : Int),
          Function.update active 0 ((o.checkperiod + 1 : Int) : ℚ)⟩, []⟩ ∧
      w.Sound lists ∧ w.count = o.partitions ∧ w.twid = 0 ∧ w.Live 0 ∧
        w.nodeTwid 0 = (((2 ^ 64 - 1) % o.partitions : Nat) : Int) := by
  have hperiod := o.checkperiod_pos
  have hstart := Process.sound_start o 0
  obtain ⟨w, lists, hcreate, hsound, hcount, -⟩ := hstart.wheel.create
    (r := .context 0 none none) Bool.false_ne_true fun _ _ _ _ => hpos
  obtain ⟨hkeeps, hlive, -⟩ := Wheel.create_keeps hcreate
  -- Its greeting is sent, and it is put behind the hand again.
  obtain ⟨w', lists', hrset, hsound', hframe, hcontexts⟩ :=
    hsound.twRset (hcount.symm ▸ hpos) hlive
  obtain ⟨-, -, hprev⟩ := Wheel.twRset_keeps hrset
  have hturn : w.twid = 0 := hkeeps.twid
  rw [Wheel.twpsPrevId_eq hsound.small (hcount.symm ▸ hpos), hturn, hcount] at hprev
  let P := o.checkperiod
  let w₀ := (Process.start o 0).wheel
  let accepted := Function.update (fun _ => (0 : ℚ)) 0 (P : ℚ)
  have h₁ : Steps o (.start o 0) (.wait (.ready [none]), (P : ℚ))
      ⟨⟨w₀, P, 0, .events [none]⟩, P, fun _ => 0⟩ :=
    steps_of ⟨rfl, by decide, by decide, by simp⟩ (Int.cast_nonneg hperiod.le) trivial hmilli rfl
  have h₂ : Steps o ⟨⟨w₀, P, 0, .events [none]⟩, P, fun _ => 0⟩
      (.accept (some (.context 0 none none)), (P : ℚ))
        ⟨⟨w, P, 0, .events [none]⟩, P, accepted⟩ := by
    refine steps_of ⟨⟨[], rfl⟩, ?_⟩ (le_refl _) trivial trivial ?_
    · rintro a ⟨⟩
      exact Bool.false_ne_true
    · simp only [Process.step, w₀, hcreate]
      rfl
  have h₃ : Steps o ⟨⟨w, P, 0, .events [none]⟩, P, accepted⟩ (.accept none, (P : ℚ))
      ⟨⟨w, P, 0, .events []⟩, P, accepted⟩ :=
    steps_of ⟨⟨[], rfl⟩, by simp⟩ (le_refl _) trivial trivial rfl
  have h₄ : Steps o ⟨⟨w, P, 0, .events []⟩, P, accepted⟩ (.check P P, (P : ℚ))
      ⟨⟨w, P, 0, .waiting⟩, P, accepted⟩ := by
    refine steps_check rfl rfl ?_
    rw [Process.step, if_neg]
    dsimp only
    omega
  have h₅ : Steps o ⟨⟨w, P, 0, .waiting⟩, P, accepted⟩
      (.wait (.ready [some 0]), ((P + 1 : Int) : ℚ))
        ⟨⟨w, P, 0, .events [some 0]⟩, (P + 1 : Int), accepted⟩ :=
    steps_of ⟨rfl, by decide, by decide, by simpa using hlive⟩ (Int.cast_le.mpr (by omega)) trivial
      hmilli rfl
  have h₆ : Steps o ⟨⟨w, P, 0, .events [some 0]⟩, (P + 1 : Int), accepted⟩
      (.event 0, ((P + 1 : Int) : ℚ))
        ⟨⟨w', P, 0, .events []⟩, (P + 1 : Int),
          Function.update accepted 0 ((P + 1 : Int) : ℚ)⟩ := by
    refine steps_of ⟨⟨0, [], rfl⟩, .inl rfl⟩ (le_refl _) trivial trivial ?_
    simp only [Process.step, hrset]
    rfl
  refine ⟨_, w', lists', accepted, .more (h₁.watched trivial) (.more (h₂.watched trivial)
    (.more (h₃.watched trivial) (.more (h₄.watched trivial) (.more (h₅.watched trivial)
      (.one (h₆.watched trivial)))))), hsound', hframe.count.trans hcount,
    hframe.twid.trans hturn, ?_, (Option.some.inj hprev).symm⟩
  rw [Wheel.Live, hcontexts]
  exact hlive

/-- It may be closed when the partitions up to its own are cleared. -/
theorem first_of_patient (ho : o.Patient) :
    o.socktimeout ≤ (((2 ^ 64 - 1) % o.partitions : Nat) : Int) * o.checkperiod := by
  have hmilli := milliseconds_of_patient ho
  have hpos := partitions_of_patient ho
  have hperiod := o.checkperiod_pos
  obtain ⟨as, w, lists, active, hrun, hsound, hcount, hhand, hlive, htwid⟩ := run_first hmilli hpos
  have hsound' : Process.Sound o ⟨w, o.checkperiod, 0, .events []⟩ lists :=
    ⟨hsound, hcount, fun he => by
      obtain rfl := LoopStage.events.inj he
      exact ⟨List.nodup_nil, fun _ hq => absurd hq List.not_mem_nil⟩⟩
  have hclosed := closed_after ho hmilli ((2 ^ 64 - 1) % o.partitions) hrun hsound' rfl rfl
    (by dsimp only; omega) (by omega) rfl (k := 0) hhand
    (by rw [Nat.zero_add]; exact Nat.mod_lt _ hpos) hlive (by rw [Nat.zero_add]; exact htwid)
  dsimp only at hclosed
  rw [Function.update_self] at hclosed
  have hle : (o.socktimeout : ℚ) ≤
      (((((2 ^ 64 - 1) % o.partitions : Nat) : Int) * o.checkperiod : Int) : ℚ) := by
    rw [Int.cast_mul, Int.cast_natCast]
    linarith
  exact Int.cast_le.mp hle

end Timed

/-- The number of partitions does not fit an `int` only for the longest timeout and the shortest
period, and then there are none. -/
theorem Options.count_lt {o : Options} (h : 0 < o.partitions) :
    o.socktimeout / o.checkperiod + 1 < 2 ^ 31 := by
  have hacc := o.accepted
  have hfits := o.fits
  have hle : o.socktimeout / o.checkperiod ≤ o.socktimeout := Int.ediv_le_self _ (by omega)
  rcases lt_or_ge (o.socktimeout / o.checkperiod + 1) (2 ^ 31) with hlt | hge
  · exact hlt
  · have heq : Int.tdiv o.socktimeout o.checkperiod + 1 = 2 ^ 31 := by
      rw [Int.tdiv_eq_ediv_of_nonneg (by omega)]
      omega
    have hzero : o.partitions = 0 := by
      rw [partitions, heq]
      decide
    omega

/-- The wheel closes no connection too early exactly for the options that fit. -/
theorem patient_iff (o : Options) : o.Patient ↔ o.Fits := by
  refine ⟨fun ho => ?_, fun ho => ho.patient⟩
  have hpos := Timed.partitions_of_patient ho
  have hcount := Options.count_lt hpos
  have hperiod := o.checkperiod_pos
  have heq := o.partitions_eq hcount
  have hfirst := Timed.first_of_patient ho
  -- All partitions but one lie in front of that of the first connection.
  have hbehind : (2 ^ 64 - 1) % o.partitions ≤ o.partitions - 1 :=
    Nat.le_sub_one_of_lt (Nat.mod_lt _ hpos)
  have hquot : ((o.partitions - 1 : Nat) : Int) = o.socktimeout / o.checkperiod := by omega
  have hall : (((2 ^ 64 - 1) % o.partitions : Nat) : Int) * o.checkperiod
      ≤ ((o.partitions - 1 : Nat) : Int) * o.checkperiod :=
    Int.mul_le_mul_of_nonneg_right (Int.ofNat_le.mpr hbehind) hperiod.le
  have hdiv : o.socktimeout / o.checkperiod * o.checkperiod ≤ o.socktimeout :=
    Int.ediv_mul_le _ hperiod.ne'
  rw [hquot] at hall
  have hwhole : o.socktimeout / o.checkperiod * o.checkperiod = o.socktimeout := by omega
  have hlast : (2 ^ 64 - 1) % o.partitions = o.partitions - 1 := by
    refine Int.ofNat.inj (Int.eq_of_mul_eq_mul_right hperiod.ne' ?_)
    change (((2 ^ 64 - 1) % o.partitions : Nat) : Int) * o.checkperiod
      = ((o.partitions - 1 : Nat) : Int) * o.checkperiod
    rw [hquot]
    omega
  have hpower : o.partitions ∣ 2 ^ 64 := (sub_one_mod_iff (by decide) hpos).mp hlast
  refine ⟨⟨o.socktimeout / o.checkperiod, by rw [Int.mul_comm]; exact hwhole.symm⟩, ?_, hcount,
    Timed.milliseconds_of_patient ho⟩
  rw [← heq]
  exact_mod_cast hpower

/-- The default options. -/
def defaults : Options := ⟨60, 5, by decide, by decide⟩

/-- A connection is accepted after five seconds, and greeted at once. -/
def acceptedAtFive : List (Move × ℚ) :=
  [(.wait (.ready [none]), 5), (.accept (some (.context 0 none none)), 5), (.accept none, 5),
    (.check 5 5, 5), (.wait (.ready [some 0]), 5), (.event 0, 5), (.check 5 5, 5),
    (.wait .idle, 10), (.check 10 10, 10), (.wait .idle, 15), (.check 15 15, 15), (.wait .idle, 20)]

/-- It is closed fifteen seconds later. -/
theorem closed_too_early : ¬ ∀ o : Options, o.Patient := by
  intro h
  have hrun : (((acceptedAtFive.map fun a => (a, true)).foldlM
      (fun (c : Watched) a => if decide (c.Possible a) then c.step defaults a else none)
      (.start defaults 0)).any fun c => decide (c.Possible ((.check 20 20, 20), true)) &&
        (c.step defaults ((.check 20 20, 20), true)).any fun c' => decide
          (c.timed.process.wheel.Live 0 ∧ ¬ c'.timed.process.wheel.Live 0 ∧
            c.timed.active 0 = 5)) = true := by
    decide +kernel
  obtain ⟨c, hc, hend⟩ := (Option.any_eq_true _ _).mp hrun
  obtain ⟨hpossible, hclosed⟩ := (Bool.and_eq_true _ _).mp hend
  obtain ⟨c', hstep, hclosed⟩ := (Option.any_eq_true _ _).mp hclosed
  obtain ⟨hlive, hgone, hactive⟩ := of_decide_eq_true hclosed
  have hearly := (h defaults 0 _ c
    (Run.of_checked (fun _ _ h => of_decide_eq_true h) hc)).2 20 20 20 true c'
      ⟨of_decide_eq_true hpossible, hstep⟩ 0 hlive hgone
  rw [hactive] at hearly
  exact absurd hearly (by decide +kernel)

end Edm.Postmaster
