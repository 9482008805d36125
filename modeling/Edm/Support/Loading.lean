import Edm.Support.OrderedMap

/-!
# Support — Loading

Readers that say why they read nothing: a reader runs short, or fails in another way.

* `loadMany` reads items one behind the other, and `loadMap` the entries of a map, each into what
  the map has for its key.  When a value is read first and put into place then, so is the map
  (`loadMap_eq`).
* `Extends`: what a reader finds in a text it finds as well when more text stands behind it, unless
  it runs short there.
-/

namespace Support

variable {σ ε α β κ V R : Type}

/-- `n` items, one behind the other. -/
def loadMany (item : List σ → Except ε (α × List σ)) : Nat → List σ → Except ε (List α × List σ)
  | 0, s => .ok ([], s)
  | n + 1, s => do
      let a ← item s
      let l ← loadMany item n a.2
      return (a.1 :: l.1, l.2)

/-- `n` entries, each read into what the map has for its key, `fresh` if it has nothing. -/
def loadMap (lt : κ → κ → Bool) (key : List σ → Except ε (κ × List σ))
    (value : V → List σ → Except ε (V × List σ)) (fresh : V) :
    Nat → List (κ × V) → List σ → Except ε (List (κ × V) × List σ)
  | 0, m, s => .ok (m, s)
  | n + 1, m, s => do
      let k ← key s
      let v ← value ((lookupBy lt k.1 m).getD fresh) k.2
      loadMap lt key value fresh n (assignBy lt k.1 v.1 m) v.2

/-- One reader behind the other. -/
def loadPair (key : List σ → Except ε (κ × List σ)) (item : List σ → Except ε (R × List σ))
    (s : List σ) : Except ε ((κ × R) × List σ) := do
  let k ← key s
  let r ← item k.2
  return ((k.1, r.1), r.2)

/-- What is read is used. -/
def mapLoad (f : α → β) (x : Except ε (α × List σ)) : Except ε (β × List σ) :=
  x.map fun a => (f a.1, a.2)

/-- A map is filled with the entries that are read. -/
theorem loadMap_eq (lt : κ → κ → Bool) (key : List σ → Except ε (κ × List σ))
    {item : List σ → Except ε (R × List σ)} {upd : V → R → V}
    {value : V → List σ → Except ε (V × List σ)} (h : ∀ v s, value v s = mapLoad (upd v) (item s))
    (fresh : V) (n : Nat) (m : List (κ × V)) (s : List σ) :
    loadMap lt key value fresh n m s =
      mapLoad (mergeBy lt upd fresh m) (loadMany (loadPair key item) n s) := by
  induction n generalizing m s with
  | zero => rfl
  | succ n ih =>
      rw [loadMap, loadMany, loadPair]
      cases hkey : key s with
      | error e => rfl
      | ok k =>
          have hvalue := h ((lookupBy lt k.1 m).getD fresh) k.2
          cases hitem : item k.2 with
          | error e =>
              rw [hitem] at hvalue
              simp only [bind, Except.bind, hvalue, hitem]
              rfl
          | ok r =>
              rw [hitem] at hvalue
              simp only [bind, Except.bind, hvalue, hitem, mapLoad, Except.map, pure,
                Except.pure] at ih ⊢
              rw [ih]
              cases loadMany (loadPair key item) n r.2 <;> rfl

/-! ### More text -/

/-- In each text of up to `n` letters the first reader finds what the second finds with `u` behind
it, and leaves no more letters than it takes; but the first may run `short`. -/
def Extends (short : ε) (n : Nat) (u : List σ) (read read₁ : List σ → Except ε (α × List σ)) :
    Prop :=
  ∀ s, s.length ≤ n →
    (∀ a, read s = .ok a → read₁ (s ++ u) = .ok (a.1, a.2 ++ u) ∧ a.2.length ≤ s.length) ∧
      ∀ e, read s = .error e → e ≠ short → read₁ (s ++ u) = .error e

section Extends

variable {short : ε} {n : Nat} {u : List σ} {read read₁ : List σ → Except ε (α × List σ)}

theorem Extends.pure (short : ε) (n : Nat) (u : List σ) (a : α) :
    Extends short n u (fun s => .ok (a, s)) fun s => .ok (a, s) := by
  intro s _
  refine ⟨fun b hb => ?_, nofun⟩
  obtain rfl := Except.ok.inj hb
  exact ⟨rfl, le_rfl⟩

theorem Extends.fail (short : ε) (n : Nat) (u : List σ) (e : ε) :
    Extends short n u (fun _ => (.error e : Except ε (α × List σ))) fun _ => .error e :=
  fun _ _ => ⟨nofun, fun _ he _ => he⟩

theorem Extends.bind (h : Extends short n u read read₁)
    {next next₁ : α → List σ → Except ε (β × List σ)}
    (hnext : ∀ a, Extends short n u (next a) (next₁ a)) :
    Extends short n u (fun s => read s >>= fun a => next a.1 a.2)
      fun s => read₁ s >>= fun a => next₁ a.1 a.2 := by
  intro s hs
  obtain ⟨hok, herror⟩ := h s hs
  dsimp only
  cases hread : read s with
  | error e =>
      refine ⟨nofun, fun e' he' hne => ?_⟩
      obtain rfl := Except.error.inj he'
      rw [herror e hread hne]
      rfl
  | ok a =>
      obtain ⟨hread₁, hlen⟩ := hok a hread
      obtain ⟨hok', herror'⟩ := hnext a.1 a.2 (hlen.trans hs)
      rw [hread₁]
      exact ⟨fun b hb => ⟨(hok' b hb).1, (hok' b hb).2.trans hlen⟩, herror'⟩

theorem Extends.map (h : Extends short n u read read₁) (f : α → β) :
    Extends short n u (fun s => mapLoad f (read s)) fun s => mapLoad f (read₁ s) := by
  have hmap : ∀ r : List σ → Except ε (α × List σ),
      (fun s => mapLoad f (r s)) = fun s => r s >>= fun a => .ok (f a.1, a.2) := by
    intro r
    funext s
    cases r s <;> rfl
  rw [hmap, hmap]
  exact h.bind fun a => .pure short n u (f a)

theorem Extends.many (h : Extends short n u read read₁) :
    ∀ k, Extends short n u (loadMany read k) (loadMany read₁ k)
  | 0 => .pure short n u []
  | k + 1 => h.bind fun a => ((h.many k).bind fun l => .pure short n u (a :: l))

theorem Extends.pair {key key₁ : List σ → Except ε (κ × List σ)}
    (hkey : Extends short n u key key₁) (h : Extends short n u read read₁) :
    Extends short n u (loadPair key read) (loadPair key₁ read₁) :=
  hkey.bind fun k => h.bind fun r => .pure short n u (k, r)

end Extends

end Support
