import Edm.Support.Run
import Edm.Support.Shared
import Mathlib.Algebra.Order.BigOperators.Group.Finset

/-!
# Support — Monitor

Threads that share data under one mutex, with condition variables.  A *section* is what a thread
does from taking the mutex to letting go of it: it changes the shared data, tells those that wait,
and ends with the thread leaving or beginning to wait.  Sections exclude each other, so each is one
step.  A signal wakes at least one thread that sleeps for the condition, a broadcast all of them, and
a thread may wake by itself.

* `step_relies`: what the calls under way rely on, the steps keep.
* `Attended`: when a section that adds to the supply tells somebody, nobody sleeps for what is there
  unless as many have been told as there is.
-/

namespace Support

variable {T S Call W C : Type*}

/-- Whom a section tells. -/
inductive Tells (C : Type*) where
  | nobody
  | one (c : C)
  | all (c : C)

/-- What a section makes of the shared data, whom it tells, and with what the thread begins to
wait, if it does not leave. -/
structure Section (S W C : Type*) where
  shared : S
  tells : Tells C
  waits : Option W

/-- Whether a thread makes a call, the section the call begins with, the one behind a wait, the
condition it waits for, and whether it waits for some time only. -/
structure Monitor (T S Call W C : Type*) where
  may : T → Call → S → Bool
  enter : T → Call → S → Section S W C
  resume : T → W → Bool → S → Section S W C
  cond : W → C
  timed : W → Bool

/-- Where a thread is. -/
inductive Seat (W : Type*) where
  | out
  | asleep (w : W)
  | awake (w : W) (timedOut : Bool)

/-- The shared data and the threads. -/
structure Hall (T S W : Type*) where
  shared : S
  threads : T → Seat W

/-- What a thread does; `ws` are those its section wakes. -/
inductive Turn (T Call : Type*) where
  | call (c : Call) (ws : List T)
  | resume (ws : List T)
  /-- It wakes by itself, or at the end of its time. -/
  | wakes (timedOut : Bool)

namespace Seat

/-- Where a section leaves its thread. -/
def behind : Option W → Seat W
  | none => out
  | some w => asleep w

def wake : Seat W → Seat W
  | asleep w => awake w false
  | p => p

/-- The call under way. -/
def under : Seat W → Option W
  | out => none
  | asleep w | awake w _ => some w

@[simp] theorem under_wake (p : Seat W) : p.wake.under = p.under := by
  cases p <;> rfl

@[simp] theorem under_behind (w : Option W) : (behind w).under = w := by
  cases w <;> rfl

end Seat

namespace Monitor
variable (m : Monitor T S Call W C)

section
variable [DecidableEq C]

/-- The thread sleeps for `c`. -/
def sleeps (c : C) : Seat W → Bool
  | .asleep w => decide (m.cond w = c)
  | _ => false

/-- The thread has been told of `c`. -/
def told (c : C) : Seat W → Nat
  | .awake w false => if m.cond w = c then 1 else 0
  | _ => 0

variable {m}

theorem told_le_wake (c : C) (p : Seat W) : m.told c p ≤ m.told c p.wake := by
  cases p <;> simp [Seat.wake, told]

@[simp] theorem told_behind (c : C) (w : Option W) : m.told c (.behind w) = 0 := by
  cases w <;> rfl

@[simp] theorem sleeps_wake (c : C) (p : Seat W) : m.sleeps c p.wake = false := by
  cases p <;> rfl

theorem told_of_sleeps {c : C} {p : Seat W} (hp : m.sleeps c p = true) :
    m.told c p = 0 ∧ m.told c p.wake = 1 := by
  cases p with
  | out | awake => cases hp
  | asleep w => exact ⟨rfl, if_pos (of_decide_eq_true hp)⟩

variable (m) [Fintype T] [DecidableEq T] (h : Hall T S W)

/-- The threads of `ws` are those `tells` may wake. -/
def mayWake : Tells C → List T → Prop
  | .nobody, ws => ws = []
  | .one c, ws => (∀ t ∈ ws, m.sleeps c (h.threads t) = true) ∧
      (ws = [] → ∀ t, m.sleeps c (h.threads t) = false)
  | .all c, ws => ∀ t, t ∈ ws ↔ m.sleeps c (h.threads t) = true

instance (tells : Tells C) (ws : List T) : Decidable (m.mayWake h tells ws) := by
  cases tells <;> unfold mayWake <;> infer_instance

/-- `t` goes through a section. -/
def take (t : T) (sec : Section S W C) (ws : List T) : Option (Hall T S W) :=
  if m.mayWake h sec.tells ws then
    some { shared := sec.shared
           threads := Function.update
             (fun u => if u ∈ ws then (h.threads u).wake else h.threads u) t (.behind sec.waits) }
  else none

def step (a : T × Turn T Call) : Option (Hall T S W) :=
  match a.2, h.threads a.1 with
  | .call c ws, .out =>
      if m.may a.1 c h.shared then m.take h a.1 (m.enter a.1 c h.shared) ws else none
  | .resume ws, .awake w timedOut => m.take h a.1 (m.resume a.1 w timedOut h.shared) ws
  | .wakes timedOut, .asleep w =>
      if timedOut = true → m.timed w = true then
        some { h with threads := Function.update h.threads a.1 (.awake w timedOut) }
      else none
  | _, _ => none

/-- A step of any thread. -/
abbrev Steps (h : Hall T S W) (a : T × Turn T Call) (h' : Hall T S W) : Prop :=
  m.step h a = some h'

end

/-! ### What a step is -/

section
variable {m} [DecidableEq C] [Fintype T] [DecidableEq T] {h h' : Hall T S W} {t : T}

/-- The threads other than `t` stay where they are, or those of `ws` are woken. -/
structure Taken (h h' : Hall T S W) (t : T) (sec : Section S W C) (ws : List T) : Prop where
  shared : h'.shared = sec.shared
  self : h'.threads t = .behind sec.waits
  others : ∀ u, u ≠ t → h'.threads u = if u ∈ ws then (h.threads u).wake else h.threads u

theorem taken {sec : Section S W C} {ws : List T} (hs : m.take h t sec ws = some h') :
    m.mayWake h sec.tells ws ∧ Taken h h' t sec ws := by
  unfold take at hs
  split at hs
  next hws =>
      obtain rfl := Option.some.inj hs
      refine ⟨hws, rfl, ?_, fun u hu => ?_⟩
      · dsimp only
        rw [Function.update_self]
      · dsimp only
        rw [Function.update_of_ne hu]
  next => cases hs

/-- A step is a section at the beginning of a call, or one behind a wait, or a thread wakes. -/
theorem step_cases {a : T × Turn T Call} (hs : m.step h a = some h') :
    (∃ c ws, a.2 = .call c ws ∧ h.threads a.1 = .out ∧ m.may a.1 c h.shared = true ∧
      m.take h a.1 (m.enter a.1 c h.shared) ws = some h') ∨
    (∃ ws w timedOut, a.2 = .resume ws ∧ h.threads a.1 = .awake w timedOut ∧
      m.take h a.1 (m.resume a.1 w timedOut h.shared) ws = some h') ∨
    (∃ w timedOut, a.2 = .wakes timedOut ∧ h.threads a.1 = .asleep w ∧
      (timedOut = true → m.timed w = true) ∧
      h' = { h with threads := Function.update h.threads a.1 (.awake w timedOut) }) := by
  unfold step at hs
  split at hs
  next c ws hturn hseat =>
      split at hs
      next hmay => exact .inl ⟨c, ws, hturn, hseat, hmay, hs⟩
      next => cases hs
  next ws w timedOut hturn hseat => exact .inr (.inl ⟨ws, w, timedOut, hturn, hseat, hs⟩)
  next timedOut w hturn hseat =>
      split at hs
      next htimed => exact .inr (.inr ⟨w, timedOut, hturn, hseat, htimed, (Option.some.inj hs).symm⟩)
      next => cases hs
  next => cases hs

/-- What the calls under way rely on, the steps keep: a section keeps it for the other threads, and
has it for its own when it waits. -/
theorem step_relies {J : T → W → S → Prop} {a : T × Turn T Call}
    (hothers : ∀ u w, u ≠ a.1 → J u w h.shared → J u w h'.shared)
    (henter : ∀ c w, m.may a.1 c h.shared = true → (m.enter a.1 c h.shared).waits = some w →
      J a.1 w (m.enter a.1 c h.shared).shared)
    (hresume : ∀ w timedOut w', J a.1 w h.shared →
      (m.resume a.1 w timedOut h.shared).waits = some w' →
        J a.1 w' (m.resume a.1 w timedOut h.shared).shared)
    (hJ : ∀ u w, (h.threads u).under = some w → J u w h.shared) (hs : m.step h a = some h') (u : T)
    (w : W) (hu : (h'.threads u).under = some w) : J u w h'.shared := by
  have hframe : ∀ {sec : Section S W C} {ws : List T}, Taken h h' a.1 sec ws → u ≠ a.1 →
      J u w h'.shared := by
    intro sec ws hs hne
    refine hothers u w hne (hJ u w ?_)
    rw [hs.others u hne] at hu
    split at hu
    · rwa [Seat.under_wake] at hu
    · exact hu
  by_cases hua : u = a.1
  · subst hua
    rcases step_cases hs with ⟨c, ws, -, -, hmay, hs⟩ | ⟨ws, w₀, timedOut, -, hseat, hs⟩ |
      ⟨w₀, timedOut, -, hseat, -, rfl⟩
    · have htaken := (taken hs).2
      rw [htaken.self, Seat.under_behind] at hu
      rw [htaken.shared]
      exact henter c w hmay hu
    · have htaken := (taken hs).2
      rw [htaken.self, Seat.under_behind] at hu
      rw [htaken.shared]
      exact hresume w₀ timedOut w (hJ _ w₀ (by rw [hseat]; rfl)) hu
    · dsimp only at hu ⊢
      rw [Function.update_self] at hu
      exact hJ _ w (by rw [hseat]; exact hu)
  · rcases step_cases hs with ⟨c, ws, -, -, -, hs⟩ | ⟨ws, w₀, timedOut, -, -, hs⟩ |
      ⟨w₀, timedOut, -, hseat, -, rfl⟩
    · exact hframe (taken hs).2 hua
    · exact hframe (taken hs).2 hua
    · dsimp only at hu ⊢
      rw [Function.update_of_ne hua] at hu
      exact hJ u w hu

/-! ### Nobody sleeps for what is there -/

/-- How many of those that wait for `c` have been told. -/
def calls (m : Monitor T S Call W C) (c : C) (h : Hall T S W) : Nat :=
  ∑ t, m.told c (h.threads t)

/-- While a thread sleeps for `c`, as many have been told as there is supply. -/
def Attended (m : Monitor T S Call W C) (c : C) (supply : S → Nat) (h : Hall T S W) : Prop :=
  ∀ t, m.sleeps c (h.threads t) = true → supply h.shared ≤ calls m c h

/-- What a section adds to those told of `c`. -/
def gives (c : C) : Tells C → Nat
  | .one c' => if c' = c then 1 else 0
  | _ => 0

/-- A section of a thread, `paid` being 1 when it has been told of `c`, leaves nobody asleep, or
nothing, or adds to the supply no more than it tells. -/
def Fair (c : C) (supply : S → Nat) (s : S) (paid : Nat) (sec : Section S W C) : Prop :=
  sec.tells = .all c ∨ supply sec.shared = 0 ∨
    supply sec.shared + paid ≤ supply s + gives c sec.tells

omit [Fintype T] in
/-- Who sleeps behind a section has slept before it, if it is not the thread of the section. -/
theorem sleeps_taken {c : C} {sec : Section S W C} {ws : List T} (hs : Taken h h' t sec ws) {u : T}
    (hu : u ≠ t) (hc : m.sleeps c (h'.threads u) = true) :
    u ∉ ws ∧ m.sleeps c (h.threads u) = true := by
  rw [hs.others u hu] at hc
  split at hc
  next => simp at hc
  next hws => exact ⟨hws, hc⟩

/-- A section takes its own thread from those told of `c`, and adds those it tells. -/
theorem calls_taken {c : C} {sec : Section S W C} {ws : List T} (hs : Taken h h' t sec ws)
    (hws : m.mayWake h sec.tells ws) (ht : m.sleeps c (h.threads t) = false) {u : T}
    (hu : m.sleeps c (h.threads u) = true) :
    calls m c h + gives c sec.tells ≤ calls m c h' + m.told c (h.threads t) := by
  have hle : ∀ v ∈ Finset.univ.erase t, m.told c (h.threads v) ≤ m.told c (h'.threads v) := by
    intro v hv
    rw [hs.others v (Finset.ne_of_mem_erase hv)]
    split
    · exact told_le_wake c _
    · exact Nat.le_refl _
  have hrest : ∑ v ∈ Finset.univ.erase t, m.told c (h.threads v) + gives c sec.tells
      ≤ ∑ v ∈ Finset.univ.erase t, m.told c (h'.threads v) := by
    by_cases hone : sec.tells = .one c
    · -- Somebody sleeps, so somebody is woken.
      rw [hone] at hws ⊢
      obtain ⟨v, hv⟩ : ∃ v, v ∈ ws := by
        refine List.exists_mem_of_ne_nil _ fun hnil => ?_
        rw [hws.2 hnil u] at hu
        cases hu
      have hsleeps := hws.1 v hv
      have hvt : v ≠ t := by
        rintro rfl
        rw [ht] at hsleeps
        cases hsleeps
      have hlt := Finset.sum_lt_sum hle ⟨v, Finset.mem_erase.mpr ⟨hvt, Finset.mem_univ v⟩, by
        rw [hs.others v hvt, if_pos hv, (told_of_sleeps hsleeps).1, (told_of_sleeps hsleeps).2]
        exact Nat.one_pos⟩
      rw [gives, if_pos rfl]
      exact hlt
    · have hgives : gives c sec.tells = 0 := by
        cases htells : sec.tells with
        | nobody | all => rfl
        | one c' => exact if_neg fun hc => hone (by rw [htells, hc])
      rw [hgives]
      exact Finset.sum_le_sum hle
  have hself : m.told c (h'.threads t) = 0 := by rw [hs.self, told_behind]
  unfold calls
  rw [← Finset.add_sum_erase _ _ (Finset.mem_univ t),
    ← Finset.add_sum_erase _ (fun v => m.told c (h'.threads v)) (Finset.mem_univ t), hself]
  omega

/-- Nobody sleeps for what is there behind a fair section. -/
theorem Attended.take {c : C} {supply : S → Nat} (hc : Attended m c supply h)
    {sec : Section S W C} {ws : List T} (ht : m.sleeps c (h.threads t) = false)
    (hfair : ∀ u, m.sleeps c (h.threads u) = true →
      Fair c supply h.shared (m.told c (h.threads t)) sec)
    (hself : ∀ w, sec.waits = some w → m.cond w = c → supply sec.shared = 0)
    (hs : m.take h t sec ws = some h') : Attended m c supply h' := by
  obtain ⟨hws, hs⟩ := taken hs
  intro u hu
  rw [hs.shared]
  by_cases hut : u = t
  · subst hut
    rw [hs.self] at hu
    cases hwaits : sec.waits with
    | none =>
        rw [hwaits] at hu
        cases hu
    | some w =>
        rw [hwaits] at hu
        rw [hself w hwaits (of_decide_eq_true hu)]
        exact Nat.zero_le _
  · obtain ⟨hnot, hu⟩ := sleeps_taken hs hut hu
    rcases hfair u hu with hall | hzero | hle
    · rw [hall] at hws
      exact absurd ((hws u).mpr hu) hnot
    · rw [hzero]
      exact Nat.zero_le _
    · have hcalls := calls_taken hs hws ht hu
      have hbefore := hc u hu
      omega

/-- A thread that wakes by itself takes nothing from those told. -/
theorem Attended.wakes {c : C} {supply : S → Nat} (hc : Attended m c supply h) {w : W}
    (ht : h.threads t = .asleep w) (timedOut : Bool) :
    Attended m c supply
      { h with threads := Function.update h.threads t (.awake w timedOut) } := by
  have hcalls := sum_update (m.told c) h.threads t (.awake w timedOut)
  have hself : m.told c (h.threads t) = 0 := by rw [ht]; rfl
  intro u hu
  by_cases hut : u = t
  · subst hut
    simp [sleeps] at hu
  · dsimp only at hu
    rw [Function.update_of_ne hut] at hu
    have hbefore := hc u hu
    unfold calls at hbefore ⊢
    dsimp only at hcalls ⊢
    omega

end

end Monitor

end Support
