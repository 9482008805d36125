import Mathlib.Data.List.Lex
import Edm.Protocolbuf.Variant
import Edm.Support.OrderedMap

/-!
# Protocolbuf — Keys

The orders of the keys are those of ranks: an `int` is its value, a string the list of its bytes,
and a string whose case does not matter the list of its small letters up to a NUL.  A
`ProtocolVariant` has its maps in these orders (`StoredVariant`).
-/

namespace Edm.Protocolbuf
open Support

def intRank (k : BitVec 32) : Int := k.toInt

def stringRank (s : Bytes) : List Int := s.map fun x => (x.toNat : Int)

/-- A NUL ends the comparison. -/
def nocaseRank : Bytes → List Int
  | [] => []
  | x :: s => tolower x :: if x = 0 then [] else nocaseRank s

theorem intLess_iff (a b : BitVec 32) : intLess a b = true ↔ intRank a < intRank b := by
  rw [intLess, BitVec.slt_iff_toInt_lt, intRank, intRank]

theorem stringLess_iff (a b : Bytes) : stringLess a b = true ↔ stringRank a < stringRank b := by
  induction a generalizing b with
  | nil => cases b <;> simp [stringLess, stringRank]
  | cons x a ih =>
      cases b with
      | nil => simp [stringLess, stringRank]
      | cons y b =>
          rw [stringLess, stringRank, stringRank, List.map_cons, List.map_cons,
            List.cons_lt_cons_iff]
          by_cases hxy : x = y
          · subst hxy
            rw [if_pos rfl, ih]
            simp [stringRank]
          · have hne : (x.toNat : Int) ≠ y.toNat := fun h =>
              hxy (BitVec.eq_of_toNat_eq (Int.ofNat_inj.mp h))
            rw [if_neg hxy, BitVec.ult_iff_lt, BitVec.lt_def, ← Int.ofNat_lt]
            exact ⟨.inl, fun h => h.resolve_right fun h => hne h.1⟩

theorem tolower_eq_zero {x : Byte} (h : tolower x = 0) : x = 0 := by
  rw [tolower] at h
  apply BitVec.eq_of_toInt_eq
  split at h
  next hupper =>
    have hint : x.toInt = x.toNat := by
      rw [BitVec.toInt_eq_toNat_of_lt (by omega)]
    omega
  next => exact h

/-- `strCasecmp` compares the ranks. -/
theorem strCasecmp_spec (a b : Bytes) : (strCasecmp a b < 0 ↔ nocaseRank a < nocaseRank b) ∧
    (strCasecmp a b = 0 ↔ nocaseRank a = nocaseRank b) := by
  induction a generalizing b with
  | nil =>
      cases b with
      | nil => simp [strCasecmp, nocaseRank]
      | cons y b =>
          simp only [strCasecmp, nocaseRank, List.length_cons, List.nil_lt_cons, iff_true,
            reduceCtorEq, iff_false]
          omega
  | cons x a ih =>
      cases b with
      | nil =>
          simp only [strCasecmp, nocaseRank, List.length_cons, List.not_lt_nil, iff_false,
            reduceCtorEq]
          omega
      | cons y b =>
          rw [strCasecmp, nocaseRank, nocaseRank, List.cons_lt_cons_iff, List.cons_eq_cons]
          by_cases hxy : tolower x = tolower y
          · rw [if_pos hxy]
            by_cases hx : x = 0
            · have hy : y = 0 := by
                refine tolower_eq_zero ?_
                rw [← hxy, hx]
                rfl
              simp [hx, hy]
            · have hy : y ≠ 0 := by
                intro hy
                refine hx (tolower_eq_zero ?_)
                rw [hxy, hy]
                rfl
              simp only [if_neg hx, if_neg hy, hxy, lt_irrefl, false_or, true_and]
              exact ih b
          · rw [if_neg hxy]
            simp only [hxy, false_and, or_false, iff_false]
            omega

theorem nocaseLess_iff (a b : Bytes) : nocaseLess a b = true ↔ nocaseRank a < nocaseRank b := by
  rw [nocaseLess, decide_eq_true_eq]
  exact (strCasecmp_spec a b).1

/-! ### Variants as they are stored -/

mutual

/-- The maps have the order of their keys. -/
def Variant.Ordered : Variant → Prop
  | .array l => OrderedArray l
  | .intMap m => Ascending intLess m ∧ OrderedIntMap m
  | .stringMap m => Ascending stringLess m ∧ OrderedStringMap m
  | .nocaseStringMap m => Ascending nocaseLess m ∧ OrderedStringMap m
  | _ => True

def OrderedArray : List Variant → Prop
  | [] => True
  | v :: l => v.Ordered ∧ OrderedArray l

def OrderedIntMap : List (BitVec 32 × Variant) → Prop
  | [] => True
  | (_, v) :: m => v.Ordered ∧ OrderedIntMap m

def OrderedStringMap : List (Bytes × Variant) → Prop
  | [] => True
  | (_, v) :: m => v.Ordered ∧ OrderedStringMap m

end

/-- A `ProtocolVariant`: a `std::map` has its entries in the order of their keys. -/
abbrev StoredVariant := { v : Variant // v.Ordered }

/-- A variable that nothing was assigned to. -/
def StoredVariant.null : StoredVariant := ⟨.null, trivial⟩

end Edm.Protocolbuf
