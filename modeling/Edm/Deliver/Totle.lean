import Edm.Deliver.Engine

/-!
# Deliver — Totle

`UpdateTotle` as it is written: one iterator runs through the loops of all windows, and the start of
a window is set inside its loop.

* `updateWindows_eq`: only the first window whose time is over is reset.
* `Engine.updateTotle_find`, `Engine.updateTotle_iter`: this is the step of the engine.
* `apart_iff`: the windows are reset apart from each other if and only if at most one is over,
  there is a domain, and the day has no total to reset.
-/

namespace Edm.Deliver
open Support

/-- What `UpdateTotle` works on.  `m_iter` holds the starts of the windows, and `m_itertemplate` is
`m_iter` of the source, the time at which the templates were dropped. -/
structure Totals (τ : Type*) where
  m_map_domain : Domains
  m_iter : Window → Int
  m_map_template : StdMap Text τ
  m_itertemplate : Int
  m_tempiterval : Int

/-- What `time(NULL)` gives in a call: at the test of a window, at the `i`-th turn of its loop, and
at the templates. -/
structure Clock where
  test : Window → Int
  turn : Window → Nat → Int
  testTemplate : Int
  setTemplate : Int
  test_le : ∀ w i, test w ≤ turn w i

/-- A call in which no second passes. -/
def Clock.const (now : Int) : Clock := ⟨fun _ => now, fun _ _ => now, now, now, fun _ _ => le_rfl⟩

variable {τ : Type*}

namespace Totals

/-- The time of a window is over. -/
def elapsed (clock : Clock) (t : Totals τ) (w : Window) : Bool :=
  decide (w.period < clock.test w - t.m_iter w)

/-- The loop of a window; `it` are the domains from the iterator to the end. -/
def resetLoop (clock : Clock) (w : Window) : List Text → Nat → Totals τ → Totals τ
  | [], _, t => t
  | d :: it, i, t =>
      resetLoop clock w it (i + 1)
        { t with
          m_map_domain := t.m_map_domain.modify d (·.reset w)
          m_iter := Function.update t.m_iter w (clock.turn w i) }

/-- One window, with the iterator as the windows before it have left it. -/
def updateWindow (clock : Clock) (s : List Text × Totals τ) (w : Window) : List Text × Totals τ :=
  if s.2.elapsed clock w then ([], resetLoop clock w s.1 0 s.2) else s

/-- The windows in their order. -/
def updateWindows (clock : Clock) (t : Totals τ) : Totals τ :=
  ([Window.minute, .quarter, .hour, .day].foldl (updateWindow clock)
    (t.m_map_domain.entries.map Prod.fst, t)).2

def updateTemplates (clock : Clock) (t : Totals τ) : Totals τ :=
  if t.m_tempiterval < clock.testTemplate - t.m_itertemplate then
    { t with m_map_template := .empty, m_itertemplate := clock.setTemplate }
  else t

/-- `DeliverEngineApp::UpdateTotle`. -/
def updateTotle (clock : Clock) (t : Totals τ) : Totals τ :=
  updateTemplates clock (updateWindows clock t)

/-! ### The loop of a window -/

section Loop

variable (clock : Clock) (w : Window)

theorem reset_reset (n : DomainNode) : (n.reset w).reset w = n.reset w := by
  cases w <;> simp [DomainNode.reset]

theorem find_resetLoop (d : Text) (it : List Text) (i : Nat) (t : Totals τ) :
    (resetLoop clock w it i t).m_map_domain.find d
      = (t.m_map_domain.find d).map fun n => if d ∈ it then n.reset w else n := by
  induction it generalizing i t with
  | nil => simp [resetLoop]
  | cons d₁ it ih =>
      rw [resetLoop, ih, StdMap.find_modify]
      by_cases hd : d = d₁
      · subst hd
        cases t.m_map_domain.find d with
        | none => simp
        | some n => by_cases hmem : d ∈ it <;> simp [hmem, reset_reset]
      · simp [hd]

theorem iter_resetLoop_of_ne {w₁ : Window} (hw : w₁ ≠ w) (it : List Text) (i : Nat)
    (t : Totals τ) : (resetLoop clock w it i t).m_iter w₁ = t.m_iter w₁ := by
  induction it generalizing i t with
  | nil => rfl
  | cons d it ih => rw [resetLoop, ih]; exact Function.update_of_ne hw _ _

/-- The start of the window is set with the last domain. -/
theorem iter_resetLoop (d : Text) (it : List Text) (i : Nat) (t : Totals τ) :
    (resetLoop clock w (d :: it) i t).m_iter w = clock.turn w (i + it.length) := by
  induction it generalizing d i t with
  | nil => simp [resetLoop]
  | cons d₁ it ih =>
      rw [resetLoop, ih, List.length_cons]
      congr 1
      omega

end Loop

/-! ### The windows -/

/-- No window is reset when the iterator is at the end. -/
theorem foldl_updateWindow_nil (clock : Clock) (t : Totals τ) (ws : List Window) :
    ws.foldl (updateWindow clock) ([], t) = ([], t) := by
  induction ws with
  | nil => rfl
  | cons w ws ih =>
      have hw : updateWindow clock ([], t) w = ([], t) := by
        rw [updateWindow]
        split <;> rfl
      rw [List.foldl_cons, hw, ih]

theorem foldl_updateWindow (clock : Clock) (it : List Text) (t : Totals τ) (ws : List Window) :
    (ws.foldl (updateWindow clock) (it, t)).2
      = (ws.find? (t.elapsed clock)).elim t fun w => resetLoop clock w it 0 t := by
  induction ws with
  | nil => rfl
  | cons w ws ih =>
      rw [List.foldl_cons, updateWindow, List.find?_cons]
      cases hw : t.elapsed clock w with
      | true => rw [if_pos rfl, foldl_updateWindow_nil]; rfl
      | false => rw [if_neg Bool.false_ne_true]; exact ih

/-- The first window whose time is over. -/
def first (clock : Clock) (t : Totals τ) : Option Window :=
  [Window.minute, .quarter, .hour, .day].find? (t.elapsed clock)

/-- Only the first window whose time is over is reset. -/
theorem updateWindows_eq (clock : Clock) (t : Totals τ) :
    updateWindows clock t = (t.first clock).elim t fun w =>
      resetLoop clock w (t.m_map_domain.entries.map Prod.fst) 0 t :=
  foldl_updateWindow clock _ t _

theorem first_eq_none {clock : Clock} {t : Totals τ} (h : t.first clock = none) (w : Window) :
    t.elapsed clock w = false := by
  have hall := List.find?_eq_none.mp h
  cases w <;> exact Bool.eq_false_iff.mpr (hall _ (by simp))

theorem elapsed_first {clock : Clock} {t : Totals τ} {w : Window} (h : t.first clock = some w) :
    t.elapsed clock w = true := List.find?_some h

theorem exists_first {clock : Clock} {t : Totals τ} {w : Window} (h : t.elapsed clock w = true) :
    ∃ w₁, t.first clock = some w₁ := by
  cases hfirst : t.first clock with
  | none => exact absurd h (by simp [first_eq_none hfirst w])
  | some w₁ => exact ⟨w₁, rfl⟩

@[simp] theorem updateTemplates_domain (clock : Clock) (t : Totals τ) :
    (updateTemplates clock t).m_map_domain = t.m_map_domain := by
  rw [updateTemplates]
  split <;> rfl

@[simp] theorem updateTemplates_iter (clock : Clock) (t : Totals τ) :
    (updateTemplates clock t).m_iter = t.m_iter := by
  rw [updateTemplates]
  split <;> rfl

section First

variable {clock : Clock} {t : Totals τ} {w : Window} (hfirst : t.first clock = some w)

include hfirst

/-- Each domain of the map is reset in the first window. -/
theorem find_updateTotle (d : Text) : (updateTotle clock t).m_map_domain.find d
    = (t.m_map_domain.find d).map (·.reset w) := by
  rw [updateTotle, updateTemplates_domain, updateWindows_eq, hfirst, Option.elim_some,
    find_resetLoop]
  cases hfind : t.m_map_domain.find d with
  | none => rfl
  | some n =>
      have hmem : d ∈ t.m_map_domain.entries.map Prod.fst :=
        List.mem_map.mpr ⟨_, StdMap.find_eq_some_iff.mp hfind, rfl⟩
      simp [hmem]

/-- No other window starts anew. -/
theorem iter_updateTotle_of_ne {w₁ : Window} (hw : w₁ ≠ w) :
    (updateTotle clock t).m_iter w₁ = t.m_iter w₁ := by
  rw [updateTotle, updateTemplates_iter, updateWindows_eq, hfirst]
  exact iter_resetLoop_of_ne clock w hw _ _ t

/-- Without a domain the first window does not start anew either. -/
theorem iter_updateTotle_of_nil (hnil : t.m_map_domain.entries = []) :
    (updateTotle clock t).m_iter = t.m_iter := by
  rw [updateTotle, updateTemplates_iter, updateWindows_eq, hfirst, hnil]
  rfl

theorem iter_updateTotle (hne : t.m_map_domain.entries ≠ []) :
    ∃ i, (updateTotle clock t).m_iter w = clock.turn w i := by
  obtain ⟨e, l, hl⟩ := List.exists_cons_of_ne_nil hne
  rw [updateTotle, updateTemplates_iter, updateWindows_eq, hfirst, hl]
  exact ⟨_, iter_resetLoop clock w e.1 _ 0 t⟩

end First

theorem updateTotle_of_none {clock : Clock} {t : Totals τ} (h : t.first clock = none) :
    updateTotle clock t = updateTemplates clock t := by
  rw [updateTotle, updateWindows_eq, h]
  rfl

end Totals

/-! ### The step of the engine -/

namespace Engine

variable (s : Engine) (now : Int) {t : Totals τ} (hdomain : t.m_map_domain = s.m_map_domain)
  (hiter : t.m_iter = s.m_iter)

include hdomain hiter

omit hdomain in
theorem first_eq_elapsed : t.first (.const now) = s.elapsed now := by
  rw [Totals.first, elapsed]
  congr 1
  funext w
  rw [Totals.elapsed, hiter]
  rfl

/-- `UpdateTotle` of the engine resets the same domains. -/
theorem updateTotle_find (d : Text) : (s.updateTotle now).m_map_domain.find d
    = (t.updateTotle (.const now)).m_map_domain.find d := by
  rw [updateTotle, ← first_eq_elapsed s now hiter]
  cases hfirst : t.first (.const now) with
  | none => simp [Totals.updateTotle_of_none hfirst, hdomain]
  | some w =>
      rw [Totals.find_updateTotle hfirst, hdomain]
      dsimp only
      split
      next hnil =>
        have hnone : s.m_map_domain.find d = none := by rw [StdMap.find, hnil]; rfl
        rw [hnone]
        rfl
      next => exact StdMap.find_mapVals _ _ d

theorem updateTotle_iter :
    (s.updateTotle now).m_iter = (t.updateTotle (.const now)).m_iter := by
  rw [updateTotle, ← first_eq_elapsed s now hiter]
  cases hfirst : t.first (.const now) with
  | none => simp [Totals.updateTotle_of_none hfirst, hiter]
  | some w =>
      dsimp only
      split
      next hnil => rw [Totals.iter_updateTotle_of_nil hfirst (hdomain ▸ hnil), hiter]
      next hne =>
        funext w₁
        by_cases hw : w₁ = w
        · subst hw
          obtain ⟨i, hi⟩ := Totals.iter_updateTotle hfirst (hdomain ▸ hne)
          rw [hi]
          exact Function.update_self _ _ _
        · rw [Totals.iter_updateTotle_of_ne hfirst hw, hiter]
          exact Function.update_of_ne hw _ _

end Engine

/-! ### Windows apart from each other -/

/-- A time that the clock shows in a window. -/
def Clock.Shows (clock : Clock) (w : Window) (time : Int) : Prop :=
  time = clock.test w ∨ ∃ i, time = clock.turn w i

namespace Totals

/-- Each window is reset if and only if its own time is over. -/
def Apart (clock : Clock) (t t₁ : Totals τ) : Prop :=
  ∀ w, (t.elapsed clock w = true →
      (∀ d n, t₁.m_map_domain.find d = some n → n.fail w = 0 ∧ n.total w = 0) ∧
        clock.Shows w (t₁.m_iter w)) ∧
    (t.elapsed clock w = false → ∀ d,
      (t₁.m_map_domain.find d).map (fun n => (n.fail w, n.total w))
        = (t.m_map_domain.find d).map fun n => (n.fail w, n.total w))

/-- One window is over, and its loop resets all there is. -/
structure Single (clock : Clock) (t : Totals τ) (w : Window) : Prop where
  elapsed : t.elapsed clock w = true
  only : ∀ w₁, t.elapsed clock w₁ = true → w₁ = w
  domain : t.m_map_domain.entries ≠ []
  day : w = .day → ∀ d n, t.m_map_domain.find d = some n → n.total .day = 0

theorem not_shows_of_elapsed {clock : Clock} {t : Totals τ} {w : Window}
    (h : t.elapsed clock w = true) : ¬ clock.Shows w (t.m_iter w) := by
  have hlt : w.period < clock.test w - t.m_iter w := of_decide_eq_true h
  have hpos : 0 < w.period := by cases w <;> decide
  rintro (htest | ⟨i, hturn⟩)
  · omega
  · have := clock.test_le w i
    omega

/-- The first window is the only one, its loop has a domain, and the day no total. -/
theorem Apart.single {clock : Clock} {t : Totals τ} {w : Window}
    (h : Apart clock t (updateTotle clock t)) (hfirst : t.first clock = some w) :
    Single clock t w where
  elapsed := elapsed_first hfirst
  only := by
    intro w₁ hw₁
    by_contra hne
    have hshows := ((h w₁).1 hw₁).2
    rw [iter_updateTotle_of_ne hfirst hne] at hshows
    exact not_shows_of_elapsed hw₁ hshows
  domain := by
    intro hnil
    have hw := elapsed_first hfirst
    have hshows := ((h w).1 hw).2
    rw [iter_updateTotle_of_nil hfirst hnil] at hshows
    exact not_shows_of_elapsed hw hshows
  day := by
    rintro rfl d n hn
    have hfind := find_updateTotle hfirst d
    rw [hn] at hfind
    exact (((h .day).1 (elapsed_first hfirst)).1 d _ hfind).2

theorem Single.apart {clock : Clock} {t : Totals τ} {w : Window} (h : Single clock t w) :
    Apart clock t (updateTotle clock t) := by
  obtain ⟨w₁, hfirst⟩ := exists_first h.elapsed
  obtain rfl := h.only w₁ (elapsed_first hfirst)
  intro w
  constructor
  · intro hw
    obtain rfl := h.only w hw
    refine ⟨?_, .inr (iter_updateTotle hfirst h.domain)⟩
    intro d n hn
    rw [find_updateTotle hfirst] at hn
    obtain ⟨n₀, hn₀, rfl⟩ := Option.map_eq_some_iff.mp hn
    refine ⟨by simp [DomainNode.reset], ?_⟩
    by_cases hday : w = .day
    · subst hday
      exact h.day rfl d n₀ hn₀
    · simp [DomainNode.reset, hday]
  · intro hw d
    have hne : w ≠ w₁ := by
      rintro rfl
      exact absurd h.elapsed (by simp [hw])
    rw [find_updateTotle hfirst, Option.map_map]
    refine congrArg (Option.map · _) (funext fun n => Prod.ext ?_ ?_)
    · exact Function.update_of_ne hne 0 n.fail
    · by_cases hday : w₁ = .day <;> simp [DomainNode.reset, hne, hday]

/-- The windows are reset apart from each other where no window is over, or a single one that its
loop resets. -/
theorem apart_iff (clock : Clock) (t : Totals τ) :
    Apart clock t (updateTotle clock t) ↔
      (∀ w, t.elapsed clock w = false) ∨ ∃ w, Single clock t w := by
  constructor
  · intro h
    cases hfirst : t.first clock with
    | none => exact .inl (first_eq_none hfirst)
    | some w => exact .inr ⟨w, h.single hfirst⟩
  · rintro (hnone | ⟨w, hw⟩)
    · have hfirst : t.first clock = none := List.find?_eq_none.mpr fun w _ => by simp [hnone w]
      rw [updateTotle_of_none hfirst]
      exact fun w => ⟨fun hw => absurd hw (by simp [hnone w]), fun _ d => by simp⟩
    · exact hw.apart

/-- A domain with one failure of three in each window, and a clock that starts at 0. -/
def oneDomain : Totals Unit where
  m_map_domain := StdMap.empty.set "a.cn".toList ⟨fun _ => 1, fun _ => 3⟩
  m_iter := fun _ => 0
  m_map_template := .empty
  m_itertemplate := 0
  m_tempiterval := 3600

/-- After a quarter of an hour the minute is reset, and the quarter is not. -/
theorem not_apart_quarter : ¬ ∀ (clock : Clock) (t : Totals Unit),
    Apart clock t (updateTotle clock t) := by
  intro h
  have hshows := ((h (.const 1000) oneDomain .quarter).1 (by decide)).2
  have hiter : (updateTotle (.const 1000) oneDomain).m_iter .quarter = 0 := by decide +kernel
  rw [hiter] at hshows
  rcases hshows with hnow | ⟨i, hnow⟩ <;> cases hnow

end Totals

end Edm.Deliver
