import Mathlib.Data.List.Basic
import Mathlib.Tactic.Common

/-!
# Support — Memory

`memcpy` and `memmove` within one block, and a table of records of one width in it: records `i`
to the end move up by one, and a new one is written in their place (`memmove_insert`).
-/

namespace Support
variable {α β : Type*}

/-- `memcpy(s + p, t, …)`: the bytes of `t` are written from `p` on. -/
def memcpy (s : List α) (p : Nat) (t : List α) : List α := s.take p ++ (t ++ s.drop (p + t.length))

/-- `memmove(s + dst, s + src, n)`. -/
def memmove (s : List α) (dst src n : Nat) : List α := memcpy s dst ((s.drop src).take n)

/-- As many bytes in the middle are replaced. -/
theorem memcpy_middle {a m t : List α} (h : m.length = t.length) (c : List α) :
    memcpy (a ++ (m ++ c)) a.length t = a ++ (t ++ c) := by
  rw [memcpy, List.take_left, ← h, List.drop_length_add_append, List.drop_left]

/-- Two writes, the second right behind the first. -/
theorem memcpy_memcpy {s t u : List α} {p : Nat} (h : p ≤ s.length) :
    memcpy (memcpy s p t) (p + t.length) u = memcpy s p (t ++ u) := by
  have hlen : (s.take p ++ t).length = p + t.length := by
    rw [List.length_append, List.length_take, Nat.min_eq_left h]
  rw [memcpy, memcpy, memcpy, ← List.append_assoc (s.take p) t, List.take_left' hlen, ← hlen,
    List.drop_length_add_append, List.drop_drop, hlen, List.length_append, List.append_assoc,
    List.append_assoc, Nat.add_assoc]

/-- The block `m` moves up by the width of what stands behind it, and `y` is written in front. -/
theorem memmove_insert {m x y : List α} (a : List α) (h : y.length = x.length) :
    memcpy (memmove (a ++ (m ++ x)) (a.length + x.length) a.length m.length) a.length y
      = a ++ (y ++ m) := by
  have hmove : memmove (a ++ (m ++ x)) (a.length + x.length) a.length m.length
      = a ++ ((m ++ x).take x.length ++ m) := by
    have hend : (a ++ (m ++ x)).length = a.length + x.length + m.length := by
      simp only [List.length_append]
      omega
    rw [memmove, memcpy, List.drop_left, List.take_left, List.take_length_add_append, ← hend,
      List.drop_length, List.append_nil, List.append_assoc]
  have hx : ((m ++ x).take x.length).length = y.length := by
    rw [List.length_take, List.length_append, h]
    omega
  rw [hmove, memcpy_middle hx]

/-! ### Records of one width -/

section
variable {f : β → List α} {w : Nat}

theorem length_flatMap_width (h : ∀ b, (f b).length = w) (l : List β) :
    (l.flatMap f).length = w * l.length := by
  induction l with
  | nil => rfl
  | cons b l ih =>
      rw [List.flatMap_cons, List.length_append, ih, h, List.length_cons, Nat.mul_succ,
        Nat.add_comm]

/-- Record `i` starts at `w * i`. -/
theorem drop_flatMap_width (h : ∀ b, (f b).length = w) {l : List β} {i : Nat} {b : β}
    (hb : l[i]? = some b) : ∃ rest, (l.flatMap f).drop (w * i) = f b ++ rest := by
  obtain ⟨hi, rfl⟩ := List.getElem?_eq_some_iff.mp hb
  have hl : l = l.take i ++ l[i] :: l.drop (i + 1) := by
    rw [← List.drop_eq_getElem_cons hi, List.take_append_drop]
  have hlen : ((l.take i).flatMap f).length = w * i := by
    rw [length_flatMap_width h, List.length_take, Nat.min_eq_left (Nat.le_of_lt hi)]
  refine ⟨(l.drop (i + 1)).flatMap f, ?_⟩
  conv => lhs; rw [hl]
  rw [List.flatMap_append, List.flatMap_cons, List.drop_left' hlen]

end

end Support
