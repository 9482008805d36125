import Mathlib.Tactic.Common
import Mathlib.Data.List.Infix

/-!
# Support — Codec

Reading back what was written.  A reader takes what it reads from the front of a text and returns
it with the rest; `Reads` says that it gives `a` for the text `s`, whatever stands behind `s`.

* `bytesOf` writes a word with its highest byte first, and `ofBytes` reads it (`reads_word`).
* `readMany` reads items one behind the other, `readMap` the entries of a map into an ordered map,
  for any order (`Reads.readMany_cons`, `Reads.readMap_cons`).
-/

namespace Support

/-! ### Readers -/

section Reader

variable {σ α : Type*}

/-- `read` takes `s` from the front of each text, for an `a`. -/
def Reads (read : List σ → Option (α × List σ)) (s : List σ) (a : α) : Prop :=
  ∀ rest, read (s ++ rest) = some (a, rest)

/-- `n` items, one behind the other. -/
def readMany (item : List σ → Option (α × List σ)) : Nat → List σ → Option (List α × List σ)
  | 0, s => some ([], s)
  | n + 1, s => (item s).bind fun a => (readMany item n a.2).map fun r => (a.1 :: r.1, r.2)

theorem Reads.bind {β : Type*} {read : List σ → Option (α × List σ)} {s t : List σ} {a : α} {b : β}
    (h : Reads read s a) (next : α → List σ → Option (β × List σ)) (hnext : Reads (next a) t b) :
    Reads (fun s => (read s).bind fun a => next a.1 a.2) (s ++ t) b := by
  intro rest
  dsimp only
  rw [List.append_assoc, h, Option.bind_some]
  exact hnext rest

theorem Reads.map {β : Type*} {read : List σ → Option (α × List σ)} {s : List σ} {a : α}
    (f : α → β) (h : Reads read s a) :
    Reads (fun s => (read s).map fun a => (f a.1, a.2)) s (f a) := by
  intro rest
  dsimp only
  rw [h, Option.map_some]

theorem Reads.readMany_cons {item : List σ → Option (α × List σ)} {s t : List σ} {a : α}
    {l : List α} {n : Nat} (h : Reads item s a) (hl : Reads (Support.readMany item n) t l) :
    Reads (Support.readMany item (n + 1)) (s ++ t) (a :: l) := by
  intro rest
  rw [Support.readMany, List.append_assoc, h, Option.bind_some, hl, Option.map_some]

end Reader

/-! ### Ordered maps -/

section Ordered

variable {σ κ V : Type*} (lt : κ → κ → Bool)

/-- What an ordered map has at `k`. -/
def lookupBy (k : κ) : List (κ × V) → Option V
  | [] => none
  | e :: m => if lt e.1 k then lookupBy k m else if lt k e.1 then none else some e.2

/-- An ordered map with `v` at `k`. -/
def assignBy (k : κ) (v : V) : List (κ × V) → List (κ × V)
  | [] => [(k, v)]
  | e :: m =>
      if lt e.1 k then e :: assignBy k v m
      else if lt k e.1 then (k, v) :: e :: m else (e.1, v) :: m

/-- The keys stand in their order. -/
def Ascending (m : List (κ × V)) : Prop := m.Pairwise fun e e₁ => lt e.1 e₁.1 = true

variable {lt}

theorem lookupBy_of_last {k : κ} {m : List (κ × V)} (h : ∀ e ∈ m, lt e.1 k = true) :
    lookupBy lt k m = none := by
  induction m with
  | nil => rfl
  | cons e m ih =>
      obtain ⟨he, hm⟩ := List.forall_mem_cons.mp h
      rw [lookupBy, if_pos he, ih hm]

theorem assignBy_of_last {k : κ} {v : V} {m : List (κ × V)} (h : ∀ e ∈ m, lt e.1 k = true) :
    assignBy lt k v m = m ++ [(k, v)] := by
  induction m with
  | nil => rfl
  | cons e m ih =>
      obtain ⟨he, hm⟩ := List.forall_mem_cons.mp h
      rw [assignBy, if_pos he, ih hm, List.cons_append]

variable (lt) in
/-- `n` entries, each read into what the map has for its key, `fresh` if it has nothing. -/
def readMap (key : List σ → Option (κ × List σ)) (value : V → List σ → Option (V × List σ))
    (fresh : V) : Nat → List (κ × V) → List σ → Option (List (κ × V) × List σ)
  | 0, m, s => some (m, s)
  | n + 1, m, s =>
      (key s).bind fun k => (value ((lookupBy lt k.1 m).getD fresh) k.2).bind fun v =>
        readMap key value fresh n (assignBy lt k.1 v.1 m) v.2

/-- An entry behind those that the map has. -/
theorem Reads.readMap_cons {key : List σ → Option (κ × List σ)}
    {value : V → List σ → Option (V × List σ)} {fresh : V} {s t u : List σ} {e : κ × V}
    {m l : List (κ × V)} {n : Nat} (hlast : ∀ e₁ ∈ m, lt e₁.1 e.1 = true) (hkey : Reads key s e.1)
    (hvalue : Reads (value fresh) t e.2)
    (hl : Reads (Support.readMap lt key value fresh n (m ++ [e])) u l) :
    Reads (Support.readMap lt key value fresh (n + 1) m) (s ++ (t ++ u)) l := by
  intro rest
  rw [Support.readMap, List.append_assoc, hkey, Option.bind_some, lookupBy_of_last hlast,
    Option.getD_none, List.append_assoc, hvalue, Option.bind_some, assignBy_of_last hlast]
  exact hl rest

end Ordered

/-! ### Words -/

abbrev Byte := BitVec 8

/-- The lowest `k` bytes of a word, the highest of them first. -/
def bytesOf {w : Nat} (v : BitVec w) : Nat → List Byte
  | 0 => []
  | k + 1 => (v >>> (8 * k)).setWidth 8 :: bytesOf v k

/-- `nVal <<= 8; nVal |= b`, for each byte. -/
def ofBytes {w : Nat} (v : BitVec w) (s : List Byte) : BitVec w :=
  s.foldl (fun v b => v <<< 8 ||| b.setWidth w) v

@[simp] theorem length_bytesOf {w : Nat} (v : BitVec w) (k : Nat) : (bytesOf v k).length = k := by
  induction k with
  | zero => rfl
  | succ k ih => rw [bytesOf, List.length_cons, ih]

theorem ofBytes_bytesOf {w : Nat} (v : BitVec w) (k : Nat) :
    ofBytes (v >>> (8 * k)) (bytesOf v k) = v := by
  induction k with
  | zero => simp [ofBytes, bytesOf]
  | succ k ih =>
      have hbyte : (v >>> (8 * (k + 1))) <<< 8 ||| ((v >>> (8 * k)).setWidth 8).setWidth w
          = v >>> (8 * k) := by
        ext j hj
        simp only [BitVec.getElem_or, BitVec.getElem_shiftLeft, BitVec.getElem_setWidth,
          BitVec.getLsbD_setWidth, BitVec.getElem_ushiftRight, BitVec.getLsbD_ushiftRight]
        by_cases h : j < 8
        · simp [h]
        · have hsum : 8 * (k + 1) + (j - 8) = 8 * k + j := by omega
          simp [h, hsum]
      rw [ofBytes, bytesOf, List.foldl_cons, hbyte]
      exact ih

/-- `smartReadIntImp`: a word of `k` bytes. -/
def readWord (w k : Nat) (s : List Byte) : Option (BitVec w × List Byte) :=
  if s.length < k then none else some (ofBytes 0 (s.take k), s.drop k)

theorem reads_word {w k : Nat} (v : BitVec w) (hk : w ≤ 8 * k) :
    Reads (readWord w k) (bytesOf v k) v := by
  intro rest
  have hzero : v >>> (8 * k) = 0 := BitVec.ushiftRight_eq_zero hk
  have hlen : ¬ (bytesOf v k ++ rest).length < k := by simp
  have htake : (bytesOf v k ++ rest).take k = bytesOf v k := List.take_left' (length_bytesOf v k)
  have hdrop : (bytesOf v k ++ rest).drop k = rest := List.drop_left' (length_bytesOf v k)
  rw [readWord, if_neg hlen, htake, hdrop, ← hzero, ofBytes_bytesOf]

end Support
