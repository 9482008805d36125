import Edm.Support.Rewrite

/-!
# Support — Between

The parts of a text between an opening and the nearest closing marker, from left to right.

* `between` are these parts, and `mapBetween` replaces each of them, with its markers, by `f` of it.
* `Rescans` replaces as well, but it goes on inside the text it has put in, as far behind the
  marker as the part was long.
* `rescans_iff`: the two agree where `enc` does what `f` does on each part, and nowhere else.  It
  is enough that what is put in has no first character of a marker, and that it is not shorter than
  the part unless it is wrong.
-/

namespace Support

section Between

variable {α : Type*} [DecidableEq α] {o c : List α}

/-- What stands before the first marked part, the part, and what stands behind it. -/
def nextMarked (o c s : List α) : Option (List α × List α × List α) :=
  (breakAt o s).bind fun q => (breakAt c q.2).map fun q' => (q.1, q')

theorem eq_of_nextMarked {s p x r : List α} (h : nextMarked o c s = some (p, x, r)) :
    s = p ++ (o ++ (x ++ (c ++ r))) := by
  obtain ⟨⟨p', r'⟩, ho, h⟩ := Option.bind_eq_some_iff.mp h
  obtain ⟨⟨x', r''⟩, hc, h⟩ := Option.map_eq_some_iff.mp h
  cases h
  dsimp only at hc ⊢
  rw [eq_of_breakAt ho, eq_of_breakAt hc]

theorem length_lt_of_nextMarked (ho : o ≠ []) {s p x r : List α}
    (h : nextMarked o c s = some (p, x, r)) : r.length < s.length := by
  have hpos := List.length_pos_iff.mpr ho
  rw [eq_of_nextMarked h]
  simp only [List.length_append]
  omega

/-- The marked parts. -/
def between (ho : o ≠ []) (c s : List α) : List (List α) :=
  match h : nextMarked o c s with
  | none => []
  | some (_, x, r) =>
      have := length_lt_of_nextMarked ho h
      x :: between ho c r
termination_by s.length

/-- The text with `f x` for each marked part `x`. -/
def mapBetween (ho : o ≠ []) (c : List α) (f : List α → List α) (s : List α) : List α :=
  match h : nextMarked o c s with
  | none => s
  | some (p, x, r) =>
      have := length_lt_of_nextMarked ho h
      p ++ (f x ++ mapBetween ho c f r)
termination_by s.length

variable {ho : o ≠ []} {f : List α → List α} {s p x r : List α}

theorem between_none (h : nextMarked o c s = none) : between ho c s = [] := by
  rw [between]
  split
  next => rfl
  next h' => rw [h] at h'; cases h'

theorem between_some (h : nextMarked o c s = some (p, x, r)) :
    between ho c s = x :: between ho c r := by
  rw [between]
  split
  next h' => rw [h] at h'; cases h'
  next h' => rw [h] at h'; cases h'; rfl

theorem mapBetween_none (h : nextMarked o c s = none) : mapBetween ho c f s = s := by
  rw [mapBetween]
  split
  next => rfl
  next h' => rw [h] at h'; cases h'

theorem mapBetween_some (h : nextMarked o c s = some (p, x, r)) :
    mapBetween ho c f s = p ++ (f x ++ mapBetween ho c f r) := by
  rw [mapBetween]
  split
  next h' => rw [h] at h'; cases h'
  next h' => rw [h] at h'; cases h'; rfl

/-- Along the marked parts. -/
@[elab_as_elim]
theorem marked_induction (ho : o ≠ []) (c : List α) {motive : List α → Prop}
    (last : ∀ s, nextMarked o c s = none → motive s)
    (next : ∀ s p x r, nextMarked o c s = some (p, x, r) → motive r → motive s) :
    ∀ s, motive s := by
  intro s
  induction hn : s.length using Nat.strongRecOn generalizing s with
  | ind n ih =>
      cases h : nextMarked o c s with
      | none => exact last s h
      | some q =>
          obtain ⟨p, x, r⟩ := q
          have hlt := length_lt_of_nextMarked ho h
          exact next s p x r h (ih r.length (hn ▸ hlt) r rfl)

/-- What stands in the text, or in what `f` makes. -/
theorem mem_mapBetween {a : α} {s : List α} (h : a ∈ mapBetween ho c f s) :
    a ∈ s ∨ ∃ x, a ∈ f x := by
  induction s using marked_induction ho c with
  | last s hs =>
      rw [mapBetween_none hs] at h
      exact .inl h
  | next s p x r hs ih =>
      rw [mapBetween_some hs, List.mem_append, List.mem_append] at h
      rw [eq_of_nextMarked hs]
      obtain h | h | h := h
      · exact .inl (List.mem_append_left _ h)
      · exact .inr ⟨x, h⟩
      · refine (ih h).imp_left fun hr => ?_
        simp [hr]

theorem mem_of_mem_between {a : α} {s x : List α} (hx : x ∈ between ho c s) (ha : a ∈ x) :
    a ∈ s := by
  induction s using marked_induction ho c with
  | last s hs =>
      rw [between_none hs] at hx
      exact absurd hx List.not_mem_nil
  | next s p y r hs ih =>
      rw [between_some hs] at hx
      rw [eq_of_nextMarked hs]
      simp only [List.mem_append]
      rcases List.mem_cons.mp hx with rfl | hx
      · exact Or.inr (Or.inr (Or.inl ha))
      · exact Or.inr (Or.inr (Or.inr (Or.inr (ih hx))))

theorem mapBetween_congr {g : List α → List α} {s : List α} (h : ∀ x ∈ between ho c s, f x = g x) :
    mapBetween ho c f s = mapBetween ho c g s := by
  induction s using marked_induction ho c with
  | last s hs => rw [mapBetween_none hs, mapBetween_none hs]
  | next s p x r hs ih =>
      rw [between_some hs] at h
      obtain ⟨hx, hr⟩ := List.forall_mem_cons.mp h
      rw [mapBetween_some hs, mapBetween_some hs, hx, ih hr]

theorem breakAt_append_self (ho : o ≠ []) (s : List α) : breakAt o (o ++ s) = some ([], s) := by
  obtain ⟨a, t, rfl⟩ := List.exists_cons_of_ne_nil ho
  rw [List.cons_append, breakAt, if_pos ⟨s, List.cons_append⟩, ← List.cons_append, List.drop_left]

/-! ### A text without the first character of the marker -/

section Clear

variable {a : α} {t u : List α}

theorem breakAt_clear (hu : a ∉ u) (s : List α) :
    breakAt (a :: t) (u ++ s) = (breakAt (a :: t) s).map fun q => (u ++ q.1, q.2) := by
  induction u with
  | nil => simp
  | cons b u ih =>
      obtain ⟨hb, hu⟩ := not_or.mp (mt List.mem_cons.mpr hu)
      have hnot : ¬ a :: t <+: b :: (u ++ s) := fun h => hb (List.cons_prefix_cons.mp h).1
      rw [List.cons_append, breakAt, if_neg hnot, ih hu, Option.map_map]
      rfl

theorem nextMarked_clear (hu : a ∉ u) (s : List α) :
    nextMarked (a :: t) c (u ++ s)
      = (nextMarked (a :: t) c s).map fun q => (u ++ q.1, q.2) := by
  rw [nextMarked, nextMarked, breakAt_clear hu]
  cases breakAt (a :: t) s with
  | none => rfl
  | some q => simp [Option.map_map, Function.comp_def]

/-- A marked part at the front. -/
theorem nextMarked_front (ho : o ≠ []) (hx : a ∉ x) (r : List α) :
    nextMarked o (a :: t) (o ++ (x ++ (a :: t ++ r))) = some ([], x, r) := by
  rw [nextMarked, breakAt_append_self ho, Option.bind_some, breakAt_clear hx,
    breakAt_append_self (List.cons_ne_nil a t), Option.map_some, Option.map_some, List.append_nil]

theorem between_clear (ho : a :: t ≠ []) (hu : a ∉ u) (s : List α) :
    between ho c (u ++ s) = between ho c s := by
  have hnext := nextMarked_clear (t := t) (c := c) hu s
  cases h : nextMarked (a :: t) c s with
  | none =>
      rw [h] at hnext
      rw [between_none h, between_none hnext]
  | some q =>
      obtain ⟨p, x, r⟩ := q
      rw [h] at hnext
      rw [between_some h, between_some hnext]

theorem mapBetween_clear (ho : a :: t ≠ []) (hu : a ∉ u) (s : List α) :
    mapBetween ho c f (u ++ s) = u ++ mapBetween ho c f s := by
  have hnext := nextMarked_clear (t := t) (c := c) hu s
  cases h : nextMarked (a :: t) c s with
  | none =>
      rw [h] at hnext
      rw [mapBetween_none h, mapBetween_none hnext]
  | some q =>
      obtain ⟨p, x, r⟩ := q
      rw [h] at hnext
      rw [mapBetween_some h, mapBetween_some hnext, List.append_assoc]

end Clear

/-! ### A scan that goes on in its own text -/

/-- `enc x` takes the place of a marked part `x`; what is scanned next starts `x.length` behind the
place of the marker. -/
inductive Rescans (o c : List α) (enc : List α → Option (List α)) : List α → List α → Prop
  | stop {s : List α} (h : nextMarked o c s = none) : Rescans o c enc s s
  | next {s p x r y out : List α} (h : nextMarked o c s = some (p, x, r)) (he : enc x = some y)
      (hrest : Rescans o c enc ((y ++ r).drop x.length) out) :
      Rescans o c enc s (p ++ ((y ++ r).take x.length ++ out))

theorem rescans_none_iff {enc : List α → Option (List α)} {out : List α}
    (h : nextMarked o c s = none) : Rescans o c enc s out ↔ out = s := by
  constructor
  · intro hscan
    cases hscan with
    | stop _ => rfl
    | next h' _ _ =>
        rw [h] at h'
        cases h'
  · rintro rfl
    exact .stop h

theorem rescans_some_iff {enc : List α → Option (List α)} {out : List α}
    (h : nextMarked o c s = some (p, x, r)) : Rescans o c enc s out ↔
      ∃ y, enc x = some y ∧ ∃ out', Rescans o c enc ((y ++ r).drop x.length) out' ∧
        out = p ++ ((y ++ r).take x.length ++ out') := by
  constructor
  · intro hscan
    cases hscan with
    | stop h' =>
        rw [h] at h'
        cases h'
    | next h' he hrest =>
        rw [h] at h'
        cases h'
        exact ⟨_, he, _, hrest, rfl⟩
  · rintro ⟨y, he, out', hrest, rfl⟩
    exact .next h he hrest

omit [DecidableEq α] in
/-- Two ways to cut a text: the shorter front is a front of the longer one. -/
theorem exists_of_append_eq {z v w b : List α} (h : z ++ v = w ++ b) (hle : z.length ≤ w.length) :
    ∃ w', w = z ++ w' ∧ v = w' ++ b := by
  have hz : z <+: w ++ b := h ▸ List.prefix_append z v
  obtain ⟨w', rfl⟩ := List.prefix_of_prefix_length_le hz (List.prefix_append w b) hle
  rw [List.append_assoc] at h
  exact ⟨w', rfl, List.append_cancel_left h⟩

section Agree

variable {a : α} {t : List α} {enc : List α → Option (List α)} {out w u : List α}

theorem Rescans.clear (hu : a ∉ u) (h : Rescans (a :: t) c enc s out) :
    Rescans (a :: t) c enc (u ++ s) (u ++ out) := by
  have hnext := nextMarked_clear (t := t) (c := c) hu s
  cases h with
  | stop h =>
      rw [h] at hnext
      exact .stop hnext
  | next h he hrest =>
      rw [h] at hnext
      rw [← List.append_assoc]
      exact .next hnext he hrest

/-- What comes out behind `w` instead, if there is no marker in `w`. -/
theorem exists_clear_shift {z v b : List α} (hw : a ∉ w) (h : z ++ v = w ++ (z ++ b)) :
    ∃ w', w'.length = w.length ∧ a ∉ w' ∧ v = w' ++ b := by
  rw [← List.append_assoc] at h
  have hle : z.length ≤ (w ++ z).length := by
    rw [List.length_append]
    omega
  obtain ⟨w', hcut, hv⟩ := exists_of_append_eq h hle
  refine ⟨w', ?_, ?_, hv⟩
  · have hlen := congrArg List.length hcut
    rw [List.length_append, List.length_append] at hlen
    omega
  · have hcount := congrArg (List.count a) hcut
    rw [List.count_append, List.count_append, List.count_eq_zero.mpr hw] at hcount
    exact List.count_eq_zero.mp (by omega)

variable (ho : a :: t ≠ []) (hf : ∀ x, a ∉ f x) (hlong : ∀ x, x.length ≤ (f x).length)

include hf hlong

/-- Where `enc` is right, so is the scan. -/
theorem rescans_mapBetween (s : List α) (h : ∀ x ∈ between ho c s, enc x = some (f x)) :
    Rescans (a :: t) c enc s (mapBetween ho c f s) := by
  induction s using marked_induction ho c with
  | last s hs =>
      rw [mapBetween_none hs]
      exact .stop hs
  | next s p x r hs ih =>
      rw [between_some hs] at h
      obtain ⟨hx, hr⟩ := List.forall_mem_cons.mp h
      have hdrop : a ∉ (f x).drop x.length := fun hm => hf x ((List.drop_sublist _ _).subset hm)
      have hrest := (ih hr).clear hdrop
      rw [← List.drop_append_of_le_length (hlong x)] at hrest
      have hscan := Rescans.next hs hx hrest
      rw [List.take_append_of_le_length (hlong x), ← List.append_assoc (List.take _ _),
        List.take_append_drop] at hscan
      rw [mapBetween_some hs]
      exact hscan

/-- The scan is right only where `enc` is, by induction on the scan: `w` is what a wrong part has
left too much in front. -/
theorem eq_of_rescans (hwrong : ∀ x y, enc x = some y →
      y = f x ∨ y.length < x.length ∧ x.length < (f x).length)
    (h : Rescans (a :: t) c enc s out) (hw : a ∉ w) (heq : out = w ++ mapBetween ho c f s) :
    w = [] ∧ ∀ x ∈ between ho c s, enc x = some (f x) := by
  induction h generalizing w with
  | stop h =>
      rw [mapBetween_none h] at heq
      refine ⟨List.self_eq_append_left.mp heq, ?_⟩
      rw [between_none h]
      exact fun x hx => absurd hx List.not_mem_nil
  | @next s p x r y out h he hrest ih =>
      rw [mapBetween_some h] at heq
      rcases hwrong x y he with rfl | ⟨hshort, hlt⟩
      · have hdrop : a ∉ (f x).drop x.length := fun hm => hf x ((List.drop_sublist _ _).subset hm)
        rw [List.take_append_of_le_length (hlong x)] at heq
        rw [List.drop_append_of_le_length (hlong x)] at ih
        have hcut : (p ++ (f x).take x.length) ++ out = w ++ ((p ++ (f x).take x.length) ++
            mapBetween ho c f ((f x).drop x.length ++ r)) := by
          rw [mapBetween_clear ho hdrop, List.append_assoc, heq, List.append_assoc,
            ← List.append_assoc (List.take _ _), List.take_append_drop]
        obtain ⟨w', hlen, hw', hout⟩ := exists_clear_shift hw hcut
        obtain ⟨rfl, hall⟩ := ih hw' hout
        rw [between_clear ho hdrop] at hall
        rw [between_some h]
        exact ⟨List.length_eq_zero_iff.mp hlen.symm, List.forall_mem_cons.mpr ⟨he, hall⟩⟩
      · -- the text that was put in is too short; what is passed over behind it has no marker
        exfalso
        have hle := Nat.le_of_lt hshort
        have htake : (y ++ r).take x.length = y ++ r.take (x.length - y.length) := by
          rw [List.take_append, List.take_of_length_le hle]
        have hdrop : (y ++ r).drop x.length = r.drop (x.length - y.length) := by
          rw [List.drop_append, List.drop_eq_nil_of_le hle, List.nil_append]
        rw [htake] at heq
        rw [hdrop] at ih
        have hcut : p ++ ((y ++ r.take (x.length - y.length)) ++ out)
            = w ++ (p ++ (f x ++ mapBetween ho c f r)) := heq
        obtain ⟨w₂, -, hw₂, hout⟩ := exists_clear_shift hw hcut
        rw [← List.append_assoc w₂] at hout
        have hpassed : (y ++ r.take (x.length - y.length)).length ≤ x.length := by
          rw [List.length_append, List.length_take]
          omega
        have hle₂ : (y ++ r.take (x.length - y.length)).length ≤ (w₂ ++ f x).length := by
          refine hpassed.trans ?_
          rw [List.length_append]
          omega
        obtain ⟨w₃, hsplit, hout⟩ := exists_of_append_eq hout hle₂
        have hclear : a ∉ w₂ ++ f x := by simp [hw₂, hf x]
        rw [hsplit] at hclear
        obtain ⟨hfront, hw₃⟩ := not_or.mp (mt List.mem_append.mpr hclear)
        have hu : a ∉ r.take (x.length - y.length) :=
          fun hm => hfront (List.mem_append_right _ hm)
        have hmap := mapBetween_clear (f := f) (c := c) ho hu (r.drop (x.length - y.length))
        rw [List.take_append_drop] at hmap
        rw [hmap, ← List.append_assoc] at hout
        obtain ⟨hnil, -⟩ := ih (by simp [hw₃, hu]) hout
        have hlen := congrArg List.length hsplit
        rw [(List.append_eq_nil_iff.mp hnil).1, List.append_nil] at hlen
        rw [← hlen, List.length_append] at hpassed
        omega

/-- The scan puts `f x` for each marked part, and ends, if and only if `enc` does. -/
theorem rescans_iff (hwrong : ∀ x y, enc x = some y →
      y = f x ∨ y.length < x.length ∧ x.length < (f x).length) (s : List α) :
    Rescans (a :: t) c enc s (mapBetween ho c f s) ↔ ∀ x ∈ between ho c s, enc x = some (f x) :=
  ⟨fun h => (eq_of_rescans ho hf hlong hwrong h List.not_mem_nil rfl).2,
    rescans_mapBetween ho hf hlong s⟩

end Agree

end Between

end Support
