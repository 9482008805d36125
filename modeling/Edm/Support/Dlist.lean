import Mathlib.Data.List.Induction
import Mathlib.Data.List.Nodup
import Mathlib.Tactic.Common

/-!
# Support — Dlist

Doubly linked lists in memory.  `prev` and `next` are what is stored in the nodes; `Dlist` says
that a list of nodes is linked both ways, from its head to its tail: what a node knows is its
place.

A list is changed at its end (`Dlist.concat`) and at any node (`Dlist.unlink`): it is enough that
the neighbours are told.  What is stored elsewhere does not matter (`Dlist.congr`).

`Visits` is what a walk meets that follows one kind of link until it ends: of a linked list its
nodes, from either end (`Dlist.visits_next`, `Dlist.visits_prev`).
-/

namespace Support

variable {A : Type*}

/-- Only the last entry is last. -/
theorem eq_nil_of_getLast? {a b : List A} {x : A} (h : (a ++ x :: b).Nodup)
    (hlast : (a ++ x :: b).getLast? = some x) : b = [] := by
  rcases List.eq_nil_or_concat b with rfl | ⟨b, y, rfl⟩
  · rfl
  · rw [List.concat_eq_append, ← List.cons_append, ← List.append_assoc,
      List.getLast?_concat] at hlast
    obtain rfl := Option.some.inj hlast
    rw [List.concat_eq_append, List.nodup_append] at h
    exact absurd (List.mem_append_right b List.mem_cons_self) (List.nodup_cons.mp h.2.1).1

/-- Only the first entry is first. -/
theorem eq_nil_of_head? {a b : List A} {x : A} (h : (a ++ x :: b).Nodup)
    (hfirst : (a ++ x :: b).head? = some x) : a = [] := by
  cases a with
  | nil => rfl
  | cons y a =>
    obtain rfl := Option.some.inj hfirst
    rw [List.cons_append, List.nodup_cons] at h
    exact absurd (List.mem_append_right a List.mem_cons_self) h.1

/-- The nodes of `xs` are linked both ways. -/
structure Dlist (prev next : A → Option A) (head tail : Option A) (xs : List A) : Prop where
  head : head = xs.head?
  tail : tail = xs.getLast?
  nodup : xs.Nodup
  place : ∀ {a x b}, xs = a ++ x :: b → prev x = a.getLast? ∧ next x = b.head?

namespace Dlist
variable {prev next prev' next' : A → Option A} {head tail head' tail' : Option A}
  {xs : List A}

theorem nil : Dlist prev next none none [] where
  head := rfl
  tail := rfl
  nodup := List.nodup_nil
  place h := absurd h.symm (List.append_ne_nil_of_right_ne_nil _ (List.cons_ne_nil _ _))

theorem congr (h : Dlist prev next head tail xs)
    (hsame : ∀ x ∈ xs, prev' x = prev x ∧ next' x = next x) : Dlist prev' next' head tail xs where
  head := h.head
  tail := h.tail
  nodup := h.nodup
  place {a x b} hx := by
    have hmem : x ∈ xs := hx ▸ List.mem_append_right _ List.mem_cons_self
    rw [(hsame x hmem).1, (hsame x hmem).2]
    exact h.place hx

/-- A node that is last has no next node. -/
theorem eq_nil_of_last (h : Dlist prev next head tail xs) {a b : List A} {x : A}
    (hx : xs = a ++ x :: b) (hlast : tail = some x) : b = [] := by
  subst hx
  exact eq_nil_of_getLast? h.nodup (h.tail.symm.trans hlast)

/-- A node that is first has no node before it. -/
theorem eq_nil_of_first (h : Dlist prev next head tail xs) {a b : List A} {x : A}
    (hx : xs = a ++ x :: b) (hfirst : head = some x) : a = [] := by
  subst hx
  exact eq_nil_of_head? h.nodup (h.head.symm.trans hfirst)

variable [DecidableEq A]

/-- A node is put behind the last one. -/
theorem concat (h : Dlist prev next head tail xs) {x : A} (hx : x ∉ xs)
    (hhead : head' = head.or (some x)) (htail : tail' = some x)
    (hnew : prev' x = tail ∧ next' x = none)
    (hold : ∀ y ∈ xs, prev' y = prev y ∧ next' y = if tail = some y then some x else next y) :
    Dlist prev' next' head' tail' (xs ++ [x]) where
  head := by
    rw [hhead, h.head, List.head?_append]
    rfl
  tail := by rw [htail, List.getLast?_concat]
  nodup := by
    rw [List.nodup_append]
    refine ⟨h.nodup, List.nodup_singleton x, fun y hy z hz hyz => hx ?_⟩
    rw [← List.mem_singleton.mp hz, ← hyz]
    exact hy
  place {a y b} hy := by
    rcases List.eq_nil_or_concat b with rfl | ⟨b, z, rfl⟩
    · obtain ⟨rfl, hyx⟩ := List.append_inj' hy rfl
      obtain rfl := (List.cons.inj hyx).1
      rw [hnew.1, hnew.2, h.tail]
      exact ⟨rfl, rfl⟩
    · rw [List.concat_eq_append, ← List.cons_append, ← List.append_assoc] at hy
      obtain ⟨hxs, hzx⟩ := List.append_inj' hy rfl
      obtain rfl := (List.cons.inj hzx).1
      have hmem : y ∈ xs := hxs ▸ List.mem_append_right _ List.mem_cons_self
      obtain ⟨hp, hn⟩ := h.place hxs
      rw [(hold y hmem).1, (hold y hmem).2, hp, List.concat_eq_append]
      refine ⟨rfl, ?_⟩
      cases b with
      | nil =>
        rw [if_pos]
        · rfl
        · rw [h.tail, hxs, List.getLast?_concat]
      | cons c b =>
        rw [if_neg, hn]
        · rfl
        · exact fun hlast => List.cons_ne_nil c b (h.eq_nil_of_last hxs hlast)

/-- A node is taken out. -/
theorem unlink {p q : List A} {x : A} (h : Dlist prev next head tail (p ++ x :: q))
    (hhead : head' = (p ++ q).head?) (htail : tail' = (p ++ q).getLast?)
    (hold : ∀ y ∈ p ++ q, prev' y = (if q.head? = some y then p.getLast? else prev y) ∧
      next' y = if p.getLast? = some y then q.head? else next y) :
    Dlist prev' next' head' tail' (p ++ q) where
  head := hhead
  tail := htail
  nodup := h.nodup.sublist (List.Sublist.append (List.Sublist.refl p) (List.sublist_cons_self x q))
  place {a y b} hy := by
    have hnodup : (p ++ q).Nodup :=
      h.nodup.sublist (List.Sublist.append (List.Sublist.refl p) (List.sublist_cons_self x q))
    have hmem : y ∈ p ++ q := hy ▸ List.mem_append_right _ List.mem_cons_self
    rw [(hold y hmem).1, (hold y hmem).2]
    have hbehind : ∀ a', a = p ++ a' → q = a' ++ y :: b →
        (if q.head? = some y then p.getLast? else prev y) = a.getLast? ∧
          (if p.getLast? = some y then q.head? else next y) = b.head? := by
      intro a' ha hq
      obtain ⟨hp, hn⟩ := h.place (a := p ++ x :: a') (x := y) (b := b)
        (by rw [hq, List.append_assoc, List.cons_append])
      have hyp : y ∉ p := by
        rw [hq] at hnodup
        exact fun hyp => (List.nodup_append.mp hnodup).2.2 y hyp y
          (List.mem_append_right _ List.mem_cons_self) rfl
      rw [if_neg fun hlast => hyp (List.mem_of_getLast? hlast), hn]
      refine ⟨?_, rfl⟩
      cases a' with
      | nil => rw [if_pos (by rw [hq]; rfl), ha, List.append_nil]
      | cons c a' =>
        rw [if_neg, hp, ha, List.getLast?_append, List.getLast?_append]
        · rfl
        · intro hfirst
          subst hq
          exact List.cons_ne_nil c a'
            (eq_nil_of_head? (List.nodup_append.mp hnodup).2.1 hfirst)
    rcases List.append_eq_append_iff.mp hy with ⟨a', ha, hq⟩ | ⟨c, hp, hc⟩
    · exact hbehind a' ha hq
    · cases c with
      | nil => exact hbehind [] (by rw [hp, List.append_nil, List.append_nil]) hc.symm
      | cons z c =>
        obtain ⟨rfl, rfl⟩ := List.cons.inj hc
        obtain ⟨hpy, hny⟩ := h.place (a := a) (x := y) (b := c ++ x :: q)
          (by rw [hp, List.append_assoc, List.cons_append])
        have hyq : y ∉ q := by
          rw [hp] at hnodup
          exact fun hyq => (List.nodup_append.mp hnodup).2.2 y
            (List.mem_append_right _ List.mem_cons_self) y hyq rfl
        rw [if_neg fun hfirst => hyq (List.mem_of_head? hfirst), hpy]
        refine ⟨rfl, ?_⟩
        cases c with
        | nil =>
          rw [if_pos]
          · rfl
          · rw [hp, List.getLast?_concat]
        | cons w c =>
          rw [if_neg, hny]
          · rfl
          · intro hlast
            subst hp
            exact List.cons_ne_nil w c
              (eq_nil_of_getLast? (List.nodup_append.mp hnodup).1 hlast)

omit [DecidableEq A]

/-- The first node has none before it. -/
theorem prev_head (h : Dlist prev next head tail xs) {x : A} (hx : head = some x) :
    prev x = none := by
  cases xs with
  | nil => exact absurd (h.head.symm.trans hx) (Option.some_ne_none x).symm
  | cons y ys =>
    obtain rfl : y = x := Option.some.inj (h.head.symm.trans hx)
    exact (h.place (a := []) rfl).1

/-- The last node has none behind it. -/
theorem next_tail (h : Dlist prev next head tail xs) {x : A} (hx : tail = some x) :
    next x = none := by
  rcases List.eq_nil_or_concat xs with rfl | ⟨ys, y, rfl⟩
  · exact absurd (h.tail.symm.trans hx) (Option.some_ne_none x).symm
  · rw [List.concat_eq_append] at h
    obtain rfl : y = x := by
      simpa using h.tail.symm.trans hx
    exact (h.place (b := []) rfl).2

end Dlist

/-- A walk from `head` along `link` meets the nodes `xs` and ends; `link` is `none` where no node
is. -/
inductive Visits (link : A → Option (Option A)) : Option A → List A → Prop where
  | nil : Visits link none []
  | cons {x : A} {y : Option A} {xs : List A} (h : link x = some y) (t : Visits link y xs) :
      Visits link (some x) (x :: xs)

namespace Dlist
variable {prev next : A → Option A} {head tail : Option A} {xs : List A}
  {link : A → Option (Option A)}

theorem visits_next (h : Dlist prev next head tail xs) (hlink : ∀ x ∈ xs, link x = some (next x)) :
    Visits link head xs := by
  -- The walk has met `a` and is about to meet `b`.
  have hwalk : ∀ a b, xs = a ++ b → Visits link b.head? b := by
    intro a b
    induction b generalizing a with
    | nil => exact fun _ => .nil
    | cons x b ih =>
      intro hx
      have hmem : x ∈ xs := hx ▸ List.mem_append_right a List.mem_cons_self
      refine .cons (hlink x hmem) ?_
      rw [(h.place hx).2]
      exact ih (a ++ [x]) (by simp [hx])
  rw [h.head]
  exact hwalk [] xs rfl

theorem visits_prev (h : Dlist prev next head tail xs) (hlink : ∀ x ∈ xs, link x = some (prev x)) :
    Visits link tail xs.reverse := by
  -- The walk has met `b`, from its end, and is about to meet `a`.
  have hwalk : ∀ a b, xs = a ++ b → Visits link a.getLast? a.reverse := by
    intro a
    induction a using List.reverseRecOn with
    | nil => exact fun _ _ => .nil
    | append_singleton a x ih =>
      intro b hx
      have hx' : xs = a ++ x :: b := by simp [hx]
      have hmem : x ∈ xs := hx' ▸ List.mem_append_right a List.mem_cons_self
      rw [List.getLast?_concat, List.reverse_append, List.reverse_singleton, List.singleton_append]
      refine .cons (hlink x hmem) ?_
      rw [(h.place hx').1]
      exact ih (x :: b) hx'
  rw [h.tail]
  exact hwalk xs [] (by simp)

end Dlist

end Support
