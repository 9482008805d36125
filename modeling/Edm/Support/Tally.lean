import Mathlib.Algebra.BigOperators.Group.List.Basic
import Mathlib.Algebra.GroupWithZero.Nat
import Mathlib.Data.List.Basic

/-!
# Support — Tally

Amounts kept under keys, in a list of entries.  `addAt op k v` adds `v` under the key `k` by `op`,
and `total p` is what stands under the keys that meet `p`.  Adding moves the total by the amount
(`total_addAt`), and so does adding all entries of another list (`total_merge`).
-/

namespace Support

variable {K L V : Type*}

/-- What stands under `k` grows by `v`; where nothing stood, `v` stands. -/
def addAt [DecidableEq K] (op : V → V → V) (k : K) (v : V) : List (K × V) → List (K × V)
  | [] => [(k, v)]
  | e :: l => if e.1 = k then (k, op e.2 v) :: l else e :: addAt op k v l

/-- What stands under the keys that meet `p`. -/
def total [AddCommMonoid V] (p : K → Bool) (l : List (K × V)) : V :=
  (l.map fun e => if p e.1 then e.2 else 0).sum

/-- What `P` says of the entries, `addAt` keeps. -/
theorem forall_addAt [DecidableEq K] {op : V → V → V} {k : K} {v : V} {P : K × V → Prop}
    (hv : P (k, v)) : ∀ {l : List (K × V)}, (∀ e ∈ l, P e) →
      (∀ e ∈ l, e.1 = k → P (k, op e.2 v)) → ∀ e ∈ addAt op k v l, P e
  | [], _, _ => by
      intro e he
      rw [addAt, List.mem_singleton] at he
      rwa [he]
  | a :: l, h, hop => by
      obtain ⟨ha, hl⟩ := List.forall_mem_cons.mp h
      obtain ⟨hak, hlk⟩ := List.forall_mem_cons.mp hop
      rw [addAt]
      split
      next hk => exact List.forall_mem_cons.mpr ⟨hak hk, hl⟩
      next => exact List.forall_mem_cons.mpr ⟨ha, forall_addAt hv hl hlk⟩

section
variable [AddCommMonoid V] {p : K → Bool}

@[simp] theorem total_nil : total p ([] : List (K × V)) = 0 := rfl

theorem total_cons (e : K × V) (l : List (K × V)) :
    total p (e :: l) = (if p e.1 then e.2 else 0) + total p l := by
  rw [total, total, List.map_cons, List.sum_cons]

theorem total_congr {p' : K → Bool} {l : List (K × V)} (h : ∀ e ∈ l, p e.1 = p' e.1) :
    total p l = total p' l := by
  rw [total, total]
  exact congrArg List.sum (List.map_congr_left fun e he => by rw [h e he])

/-- The total moves by the amount, when `op` adds. -/
theorem total_addAt [DecidableEq K] {op : V → V → V} {k : K} {v : V} : ∀ {l : List (K × V)},
    (∀ e ∈ l, e.1 = k → op e.2 v = e.2 + v) →
      total p (addAt op k v l) = total p l + if p k then v else 0
  | [], _ => by rw [addAt, total_cons, total_nil, add_zero, zero_add]
  | a :: l, h => by
      obtain ⟨ha, hl⟩ := List.forall_mem_cons.mp h
      rw [addAt]
      split
      next hk =>
        subst hk
        rw [total_cons, total_cons, ha rfl]
        by_cases hp : p a.1 = true
        · rw [if_pos hp, if_pos hp, if_pos hp, add_right_comm]
        · rw [if_neg hp, if_neg hp, if_neg hp, add_zero]
      next => rw [total_cons, total_cons, total_addAt hl, add_assoc]

/-- All entries of a list are added, under the keys that `g` makes of theirs. -/
theorem total_merge [DecidableEq K] (g : L → K) (l : List (L × V)) (t : List (K × V)) :
    total p (l.foldl (fun t e => addAt (· + ·) (g e.1) e.2 t) t)
      = total p t + total (fun k => p (g k)) l := by
  induction l generalizing t with
  | nil => rw [List.foldl_nil, total_nil, add_zero]
  | cons e l ih =>
      rw [List.foldl_cons, ih, total_addAt fun _ _ _ => rfl, total_cons, add_assoc]

/-- Entries without an amount do not matter. -/
theorem total_filter {r : K × V → Bool} : ∀ {l : List (K × V)},
    (∀ e ∈ l, r e = false → e.2 = 0) → total p (l.filter r) = total p l
  | [], _ => rfl
  | a :: l, h => by
      obtain ⟨ha, hl⟩ := List.forall_mem_cons.mp h
      cases hr : r a with
      | true =>
        rw [List.filter_cons_of_pos hr, total_cons, total_cons, total_filter hl]
      | false =>
        rw [List.filter_cons_of_neg (by simp [hr]), total_cons, ha hr, ite_self, zero_add,
          total_filter hl]

end

end Support
