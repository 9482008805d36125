import Mathlib.Data.List.Basic
import Mathlib.Data.List.Induction
import Mathlib.Tactic.Common

/-!
# Support — First

`modifyFirst q f l` changes the first element of `l` that meets `q`: the one that `l.find? q` finds.
A count moves with that element (`countP_modifyFirst`).

`firsts key l` keeps, of the elements with one key, the first (`firsts_concat`).
-/

namespace Support

variable {α : Type*} {p q q' : α → Bool} {f : α → α}

/-- The first element that meets `q` becomes its image under `f`. -/
def modifyFirst (q : α → Bool) (f : α → α) : List α → List α
  | [] => []
  | a :: l => if q a then f a :: l else a :: modifyFirst q f l

theorem modifyFirst_eq_self : ∀ {l : List α}, (∀ a ∈ l, ¬ q a = true) → modifyFirst q f l = l
  | [], _ => rfl
  | b :: l, h => by
      obtain ⟨hb, hl⟩ := List.forall_mem_cons.mp h
      rw [modifyFirst, if_neg hb, modifyFirst_eq_self hl]

theorem countP_modifyFirst {a : α} : ∀ {l : List α}, l.find? q = some a →
    (modifyFirst q f l).countP p + (if p a then 1 else 0)
      = l.countP p + if p (f a) then 1 else 0
  | b :: l, h => by
      by_cases hb : q b = true
      · rw [List.find?_cons_of_pos hb] at h
        obtain rfl := Option.some.inj h
        rw [modifyFirst, if_pos hb, List.countP_cons, List.countP_cons]
        omega
      · rw [List.find?_cons_of_neg hb] at h
        have ih : (modifyFirst q f l).countP p + (if p a then 1 else 0)
            = l.countP p + if p (f a) then 1 else 0 := countP_modifyFirst h
        rw [modifyFirst, if_neg hb, List.countP_cons, List.countP_cons]
        omega

theorem find?_modifyFirst {a : α} (hf : q (f a) = true) : ∀ {l : List α}, l.find? q = some a →
    (modifyFirst q f l).find? q = some (f a)
  | b :: l, h => by
      by_cases hb : q b = true
      · rw [List.find?_cons_of_pos hb] at h
        obtain rfl := Option.some.inj h
        rw [modifyFirst, if_pos hb, List.find?_cons_of_pos hf]
      · rw [List.find?_cons_of_neg hb] at h
        rw [modifyFirst, if_neg hb, List.find?_cons_of_neg hb, find?_modifyFirst hf h]

/-- An element of another kind is found as before. -/
theorem find?_modifyFirst_of_ne (hq : ∀ a, q a = true → q' a = false ∧ q' (f a) = false) :
    ∀ l : List α, (modifyFirst q f l).find? q' = l.find? q'
  | [] => rfl
  | b :: l => by
      by_cases hb : q b = true
      · obtain ⟨h₁, h₂⟩ := hq b hb
        rw [modifyFirst, if_pos hb, List.find?_cons, h₂, List.find?_cons, h₁]
      · rw [modifyFirst, if_neg hb, List.find?_cons, List.find?_cons,
          find?_modifyFirst_of_ne hq l]

theorem mem_modifyFirst {a : α} : ∀ {l : List α}, a ∈ modifyFirst q f l →
    a ∈ l ∨ ∃ b, l.find? q = some b ∧ a = f b
  | b :: l, h => by
      by_cases hb : q b = true
      · rw [modifyFirst, if_pos hb] at h
        rcases List.mem_cons.mp h with rfl | h
        · exact .inr ⟨b, List.find?_cons_of_pos hb, rfl⟩
        · exact .inl (List.mem_cons_of_mem _ h)
      · rw [modifyFirst, if_neg hb] at h
        rcases List.mem_cons.mp h with rfl | h
        · exact .inl List.mem_cons_self
        · refine (mem_modifyFirst h).imp (List.mem_cons_of_mem _) ?_
          rintro ⟨c, hc, rfl⟩
          exact ⟨c, (List.find?_cons_of_neg hb).trans hc, rfl⟩

/-! ### One element for each key -/

section
variable {κ : Type*} [DecidableEq κ] (key : α → κ)

/-- The first element of each key. -/
def firsts (l : List α) : List α := l.eraseDupsBy fun a b => decide (key a = key b)

theorem eraseDupsBy_loop_concat (r : α → α → Bool) (a : α) : ∀ l bs : List α,
    List.eraseDupsBy.loop r (l ++ [a]) bs
      = if (List.eraseDupsBy.loop r l bs).any (r a) then List.eraseDupsBy.loop r l bs
        else List.eraseDupsBy.loop r l bs ++ [a]
  | [], bs => by
      rw [List.nil_append, List.eraseDupsBy.loop, List.eraseDupsBy.loop, List.any_reverse]
      cases bs.any (r a) <;> simp [List.eraseDupsBy.loop]
  | b :: l, bs => by
      rw [List.cons_append, List.eraseDupsBy.loop, List.eraseDupsBy.loop]
      cases bs.any (r b) with
      | false => exact eraseDupsBy_loop_concat r a l (b :: bs)
      | true => exact eraseDupsBy_loop_concat r a l bs

/-- A further element is kept if its key is new. -/
theorem firsts_concat (l : List α) (a : α) : firsts key (l ++ [a])
    = if key a ∈ (firsts key l).map key then firsts key l else firsts key l ++ [a] := by
  have hany : (firsts key l).any (fun b => decide (key a = key b)) = true ↔
      key a ∈ (firsts key l).map key := by
    simp only [List.any_eq_true, decide_eq_true_eq, List.mem_map, @eq_comm _ (key a)]
  refine (eraseDupsBy_loop_concat _ a l []).trans ?_
  exact if_congr hany rfl rfl

/-- The elements behind a list take none of its own away. -/
theorem firsts_append (l t : List α) : ∃ more, firsts key (l ++ t) = firsts key l ++ more := by
  induction t using List.reverseRecOn with
  | nil => exact ⟨[], by rw [List.append_nil, List.append_nil]⟩
  | append_singleton t a ih =>
      obtain ⟨more, hmore⟩ := ih
      rw [← List.append_assoc, firsts_concat, hmore]
      split
      · exact ⟨more, rfl⟩
      · exact ⟨more ++ [a], by rw [List.append_assoc]⟩

theorem mem_map_firsts {l : List α} {k : κ} : k ∈ (firsts key l).map key ↔ k ∈ l.map key := by
  induction l using List.reverseRecOn with
  | nil => exact Iff.rfl
  | append_singleton l a ih =>
      rw [firsts_concat, List.map_append, List.mem_append, ← ih]
      split
      next h =>
        refine ⟨Or.inl, fun hk => hk.elim id fun ha => ?_⟩
        rw [List.map_singleton, List.mem_singleton] at ha
        exact ha ▸ h
      next => rw [List.map_append, List.mem_append]

end

end Support
