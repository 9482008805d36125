import Edm.Maillist.TaskFile
import Edm.Support.Memory
import Edm.Support.Sorted
import Mathlib.Data.List.GetD
import Mathlib.Data.Prod.Lex

/-!
# Maillist — KeepOrder

`KeepOrderFast2` keeps the records of a list in the order of `CompareMailbox`.

`sOffsetList` is a block of records of five bytes, four of a position and one of a status.  The
new record stands behind the others, and the function moves it to its place: as the last or the
first, as the second of three, or by a binary search for two neighbours it lies between.

* `compareMailbox` is the order of a linear rank (`compareMailbox_neg_iff`), which mailboxes with
  the same rank share with their texts.
* On the records, the function of the bytes inserts at the place `keepOrderPlace` names
  (`keepOrderFast2_block`).
* When no old record compares equal, that place lies between the smaller and the larger ones, and
  the function returns 0 (`keepOrderPlace_spec`).
-/

namespace Edm.Maillist
open Support

/-! ### The order of `CompareMailbox` -/

/-- What `CompareMailbox` compares, first things first. -/
def rank (s : Text) : Int ×ₗ Int ×ₗ Int ×ₗ Text :=
  toLex (charAt s 0, toLex (charAt s 2 + charAt s 5, toLex (charAt s 4, cstr s)))

theorem rank_lt_iff (s t : Text) : rank s < rank t ↔
    charAt s 0 < charAt t 0 ∨ charAt s 0 = charAt t 0 ∧
      (charAt s 2 + charAt s 5 < charAt t 2 + charAt t 5 ∨
        charAt s 2 + charAt s 5 = charAt t 2 + charAt t 5 ∧
          (charAt s 4 < charAt t 4 ∨ charAt s 4 = charAt t 4 ∧ cstr s < cstr t)) := by
  simp only [rank, Prod.Lex.toLex_lt_toLex]

theorem compareMailbox_neg_iff (s t : Text) : compareMailbox s t < 0 ↔ rank s < rank t := by
  rw [rank_lt_iff, compareMailbox]
  have h := strcmp_neg_iff s t
  split
  · omega
  · split
    · omega
    · split
      · omega
      · rw [h]
        constructor
        · exact fun h => Or.inr ⟨by omega, Or.inr ⟨by omega, Or.inr ⟨by omega, h⟩⟩⟩
        · rintro (h | ⟨-, h | ⟨-, h | ⟨-, h⟩⟩⟩)
          · omega
          · omega
          · omega
          · exact h

theorem compareMailbox_pos_iff (s t : Text) : 0 < compareMailbox s t ↔ rank t < rank s := by
  rw [rank_lt_iff, compareMailbox]
  have h := strcmp_pos_iff s t
  split
  · omega
  · split
    · omega
    · split
      · omega
      · rw [h]
        constructor
        · exact fun h => Or.inr ⟨by omega, Or.inr ⟨by omega, Or.inr ⟨by omega, h⟩⟩⟩
        · rintro (h | ⟨-, h | ⟨-, h | ⟨-, h⟩⟩⟩)
          · omega
          · omega
          · omega
          · exact h

/-- Mailboxes of one rank are the same C string. -/
theorem cstr_eq_of_rank {s t : Text} (h : rank s = rank t) : cstr s = cstr t :=
  congrArg (fun r => (ofLex (ofLex (ofLex r).2).2).2) h

/-- The rank of a mailbox of five characters or more does not depend on what stands behind it. -/
theorem rank_append {key : Text} (hlen : 5 ≤ key.length) (hn : nul ∉ key) (tail : Text) :
    rank (key ++ nul :: tail) = rank key := by
  have hat : ∀ i ≤ 5, charAt (key ++ nul :: tail) i = charAt key i := by
    intro i hi
    have hget : (key ++ nul :: tail).getD i nul = key.getD i nul := by
      rcases Nat.lt_or_ge i key.length with h | h
      · exact List.getD_append key (nul :: tail) nul i h
      · have hi : i = key.length := by omega
        rw [List.getD_append_right key (nul :: tail) nul i h, List.getD_eq_default key nul h, hi,
          Nat.sub_self, List.getD_cons_zero]
    exact congrArg (fun c : Char => Int.bmod c.toNat 256) hget
  have hcstr : cstr (key ++ nul :: tail) = cstr key := by rw [cstr_append hn, cstr_self hn]
  rw [rank, rank, hat 0 (by omega), hat 2 (by omega), hat 4 (by omega), hat 5 (by omega), hcstr]

/-! ### The bytes of `sOffsetList` -/

/-- A byte of `sOffsetList`: one of the four of a position, or a status. -/
inductive Cell where
  | pos (nPos : Nat) (k : Fin 4)
  | stat (s : Option MailStat)
  deriving DecidableEq

/-- The four bytes of a position. -/
def posCells (nPos : Nat) : List Cell := [.pos nPos 0, .pos nPos 1, .pos nPos 2, .pos nPos 3]

/-- The five bytes of an entry. -/
def Entry.cells (e : Entry) : List Cell := posCells e.nPos ++ [.stat e.stat]

/-- `memcpy(&nPos, sOffset + i, 4)`. -/
def posAt (sOffset : List Cell) (i : Nat) : Nat :=
  match sOffset.drop i with
  | .pos nPos k :: s => if (posCells nPos).isPrefixOf (.pos nPos k :: s) then nPos else 0
  | _ => 0

/-- `memmove`, `memcpy` and `memset`: `nLeng` bytes move up by a record, and the new record is
written where they began. -/
def placeRecord (sOffset : List Cell) (nAt nLeng nPosAdd : Nat) : List Cell :=
  memcpy (memcpy (memmove sOffset (nAt + 5) nAt nLeng) nAt (posCells nPosAdd)) (nAt + 4)
    [.stat none]

/-- The loop of `KeepOrderFast2`; `cmp nPos` compares the record at `nPos` with the new one. -/
def keepOrderWhile (sOffset : List Cell) (nUsed nPosAdd nMax : Nat) (cmp : Nat → Int) :
    Nat → Nat → Nat → Int × List Cell
  | 0, _, _ => (-1, sOffset)
  | fuel + 1, nB, nE =>
      if nB < nE then
        let nM := (nB + nE) / 2
        let nPos1 := posAt sOffset (nM * 5)
        if nMax < nPos1 then (-1, sOffset)
        else if cmp nPos1 < 0 then
          if 0 < cmp (posAt sOffset (nM * 5 + 5)) then
            (0, placeRecord sOffset (nM * 5 + 5) (nUsed - 5 - (nM + 1) * 5) nPosAdd)
          else keepOrderWhile sOffset nUsed nPosAdd nMax cmp fuel (nM + 1) nE
        else if 0 < cmp nPos1 then
          if nMax < posAt sOffset (nM * 5 - 5) then (-1, sOffset)
          else if cmp (posAt sOffset (nM * 5 - 5)) < 0 then
            (0, placeRecord sOffset (nM * 5) (nUsed - 5 - nM * 5) nPosAdd)
          else keepOrderWhile sOffset nUsed nPosAdd nMax cmp fuel nB (nM - 1)
        else (-1, sOffset)
      else (-1, sOffset)

/-- `KeepOrderFast2`: what it returns, and the block.  Each round of the loop shortens the window,
so the number of the old entries is fuel enough. -/
def keepOrderFast2 (sOffset : List Cell) (nUsed : Nat) (sList : Text) (nMax : Nat) :
    Int × List Cell :=
  if nUsed = 5 then (0, sOffset)
  else
    let nPosAdd := posAt sOffset (nUsed - 5)
    let nE := (nUsed - 10) / 5
    let cmp := fun nPos => compareMailbox (sList.drop (nPos + 4)) (sList.drop (nPosAdd + 4))
    let nPos2 := posAt sOffset (nE * 5)
    if nMax < nPos2 then (-1, sOffset)
    else if cmp nPos2 < 0 then (0, sOffset)
    else if 0 < cmp (posAt sOffset (0 * 5)) then
      (0, placeRecord sOffset (0 * 5) ((nE - 0 + 1) * 5) nPosAdd)
    else if 0 + 1 = nE then
      (0, placeRecord sOffset (nE * 5) (nUsed - 5 - nE * 5) nPosAdd)
    else keepOrderWhile sOffset nUsed nPosAdd nMax cmp ((nUsed - 5) / 5) 0 nE

theorem length_cells (e : Entry) : e.cells.length = 5 := rfl

/-- The block of the entries `es`. -/
def block (es : List Entry) : List Cell := es.flatMap Entry.cells

@[simp] theorem length_block (es : List Entry) : (block es).length = 5 * es.length :=
  length_flatMap_width length_cells es

theorem posAt_block {es : List Entry} {i : Nat} (hi : i < es.length) :
    posAt (block es) (i * 5) = (es.getD i default).nPos := by
  rw [Nat.mul_comm]
  obtain ⟨rest, hrest⟩ := drop_flatMap_width length_cells (List.getElem?_eq_getElem hi)
  have hpre : (posCells es[i].nPos).isPrefixOf (es[i].cells ++ rest) = true := by
    rw [List.isPrefixOf_iff_prefix, Entry.cells, List.append_assoc]
    exact List.prefix_append _ _
  have hdrop : (block es).drop (5 * i)
      = .pos es[i].nPos 0 :: ([.pos es[i].nPos 1, .pos es[i].nPos 2, .pos es[i].nPos 3,
        .stat es[i].stat] ++ rest) := hrest
  have hpre' : (posCells es[i].nPos).isPrefixOf (.pos es[i].nPos 0 ::
      ([.pos es[i].nPos 1, .pos es[i].nPos 2, .pos es[i].nPos 3, .stat es[i].stat] ++ rest))
        = true := hpre
  rw [posAt, hdrop]
  dsimp only
  rw [if_pos hpre', List.getD_eq_getElem es default hi]

/-- The new record, last in the block, goes to the place `i`. -/
theorem placeRecord_block {es : List Entry} (e : Entry) {i nLeng : Nat} (hi : i ≤ es.length)
    (hn : nLeng = 5 * (es.length - i)) :
    placeRecord (block (es ++ [e])) (i * 5) nLeng e.nPos
      = block (es.take i ++ ⟨e.nPos, none⟩ :: es.drop i) := by
  rw [Nat.mul_comm]
  have hblock : block (es ++ [e]) = block (es.take i) ++ (block (es.drop i) ++ e.cells) := by
    rw [block, block, block, ← List.append_assoc, ← List.flatMap_append, List.take_append_drop,
      List.flatMap_append, List.flatMap_singleton]
  have htake : (block (es.take i)).length = 5 * i := by
    rw [length_block, List.length_take, Nat.min_eq_left hi]
  have hdrop : (block (es.drop i)).length = nLeng := by
    rw [length_block, List.length_drop, hn]
  have hmove : memmove (block (es ++ [e])) (5 * i + 5) (5 * i) nLeng
      = memmove (block (es.take i) ++ (block (es.drop i) ++ e.cells))
        ((block (es.take i)).length + e.cells.length) (block (es.take i)).length
        (block (es.drop i)).length := by
    rw [hblock, htake, hdrop, length_cells]
  have hlen : 5 * i ≤ (memmove (block (es ++ [e])) (5 * i + 5) (5 * i) nLeng).length := by
    rw [memmove, memcpy, hblock]
    simp only [List.length_append, List.length_take, htake, hdrop, length_cells]
    omega
  have hnew : posCells e.nPos ++ [Cell.stat none] = Entry.cells ⟨e.nPos, none⟩ := rfl
  rw [placeRecord, show 5 * i + 4 = 5 * i + (posCells e.nPos).length from rfl,
    memcpy_memcpy hlen, hnew, hmove, ← htake, memmove_insert _ (by rfl)]
  rw [block, block, block, List.flatMap_append, List.flatMap_cons]

/-! ### On the records -/

/-- Entry `m` starts beyond `nMax`. -/
def far (es : List Entry) (nMax m : Nat) : Bool := nMax < (es.getD m default).nPos

/-- On the bytes of the entries `es` and a new one, the loop does what it does on the records. -/
theorem keepOrderWhile_block (es : List Entry) (e : Entry) (nMax : Nat) (cmp : Nat → Int) :
    ∀ (fuel nB : Nat) {nE : Nat}, nE < es.length →
      keepOrderWhile (block (es ++ [e])) (5 * es.length + 5) e.nPos nMax cmp fuel nB nE
        = match keepOrderLoop (fun m => cmp (es.getD m default).nPos) (far es nMax) fuel nB nE with
          | some i => (0, block (es.take i ++ ⟨e.nPos, none⟩ :: es.drop i))
          | none => (-1, block (es ++ [e])) := by
  intro fuel
  induction fuel with
  | zero => intro nB nE _; rfl
  | succ fuel ih =>
      intro nB nE hE
      have hpos :
          ∀ m < es.length, posAt (block (es ++ [e])) (m * 5) = (es.getD m default).nPos := by
        intro m hm
        rw [posAt_block (by simp only [List.length_append]; omega), List.getD_append _ _ _ _ hm]
      have hplace : ∀ i ≤ es.length,
          placeRecord (block (es ++ [e])) (i * 5) (5 * es.length + 5 - 5 - i * 5) e.nPos
            = block (es.take i ++ ⟨e.nPos, none⟩ :: es.drop i) :=
        fun i hi => placeRecord_block e hi (by omega)
      rw [keepOrderWhile, keepOrderLoop]
      split
      · rename_i hlt
        have hM : (nB + nE) / 2 < es.length := by omega
        have hM1 : (nB + nE) / 2 + 1 < es.length := by omega
        have hup : (nB + nE) / 2 * 5 + 5 = ((nB + nE) / 2 + 1) * 5 := by omega
        have hdown : (nB + nE) / 2 * 5 - 5 = ((nB + nE) / 2 - 1) * 5 := by omega
        simp only [hup, hdown, hpos _ hM, hpos _ hM1, hpos ((nB + nE) / 2 - 1) (by omega), far,
          decide_eq_true_eq]
        split
        · rfl
        · split
          · split
            · rw [hplace _ (Nat.le_of_lt hM1)]
            · exact ih _ hE
          · split
            · split
              · rfl
              · split
                · rw [hplace _ (Nat.le_of_lt hM)]
                · exact ih _ (by omega)
            · rfl
      · rfl

/-- What `KeepOrderFast2` returns, on the records. -/
def keepOrderReturn (cmp : Nat → Int) (far : Nat → Bool) (n : Nat) : Int :=
  if n = 0 then 0
  else if far (n - 1) then -1
  else if cmp (n - 1) < 0 then 0
  else if (keepOrderPlace cmp far n).isSome then 0
  else -1

/-- **The bytes and the records.**  `KeepOrderFast2` puts the new record where `keepOrderPlace`
says, and leaves the others as they were. -/
theorem keepOrderFast2_block (es : List Entry) (nPosAdd : Nat) (sList : Text) (nMax : Nat) :
    let cmp := fun m =>
      compareMailbox (sList.drop ((es.getD m default).nPos + 4)) (sList.drop (nPosAdd + 4))
    let place := (keepOrderPlace cmp (far es nMax) es.length).getD es.length
    keepOrderFast2 (block (es ++ [⟨nPosAdd, none⟩])) (5 * es.length + 5) sList nMax
      = (keepOrderReturn cmp (far es nMax) es.length,
        block (es.take place ++ ⟨nPosAdd, none⟩ :: es.drop place)) := by
  intro cmp place
  rcases Nat.eq_zero_or_pos es.length with h0 | hn
  · obtain rfl := List.length_eq_zero_iff.mp h0
    rfl
  have hstay : block (es ++ [⟨nPosAdd, none⟩])
      = block (es.take es.length ++ ⟨nPosAdd, none⟩ :: es.drop es.length) := by
    rw [List.take_length, List.drop_length]
  have hpos : ∀ m < es.length,
      posAt (block (es ++ [⟨nPosAdd, none⟩])) (m * 5) = (es.getD m default).nPos := by
    intro m hm
    rw [posAt_block (by simp only [List.length_append]; omega), List.getD_append _ _ _ _ hm]
  have hadd : posAt (block (es ++ [⟨nPosAdd, none⟩])) (5 * es.length + 5 - 5) = nPosAdd := by
    have : 5 * es.length + 5 - 5 = es.length * 5 := by omega
    rw [this, posAt_block (by simp), List.getD_append_right _ _ _ _ (Nat.le_refl _), Nat.sub_self]
    rfl
  have hE : (5 * es.length + 5 - 10) / 5 = es.length - 1 := by omega
  have hfuel : (5 * es.length + 5 - 5) / 5 = es.length := by omega
  have hplace : ∀ i nLeng, i ≤ es.length → nLeng = 5 * (es.length - i) →
      placeRecord (block (es ++ [⟨nPosAdd, none⟩])) (i * 5) nLeng nPosAdd
        = block (es.take i ++ ⟨nPosAdd, none⟩ :: es.drop i) :=
    fun i nLeng hi h => placeRecord_block ⟨nPosAdd, none⟩ hi h
  have hend : es.length - 1 < es.length := by omega
  have hloop := keepOrderWhile_block es ⟨nPosAdd, none⟩ nMax
    (fun nPos => compareMailbox (sList.drop (nPos + 4)) (sList.drop (nPosAdd + 4)))
    es.length 0 hend
  have hlast : es.length - 1 < es.length := Nat.sub_lt hn Nat.one_pos
  have hcmp : ∀ m, compareMailbox (sList.drop ((es.getD m default).nPos + 4))
      (sList.drop (nPosAdd + 4)) = cmp m := fun _ => rfl
  have hfar : ∀ m, nMax < (es.getD m default).nPos ↔ far es nMax m = true := fun m => by
    rw [far, decide_eq_true_eq]
  have hn0 : es.length ≠ 0 := Nat.ne_of_gt hn
  have hused : 5 * es.length + 5 ≠ 5 := by omega
  have hplaced : place = (keepOrderPlace cmp (far es nMax) es.length).getD es.length := rfl
  simp only [hcmp] at hloop
  clear_value place cmp
  simp only [keepOrderFast2, keepOrderReturn, hadd, hE, hfuel, hpos _ hlast, hpos 0 hn, hcmp, hfar,
    hused, hn0, ↓reduceIte]
  by_cases h₁ : far es nMax (es.length - 1) = true
  · simp only [keepOrderPlace, hn0, h₁, ↓reduceIte, Option.getD_none] at hplaced ⊢
    rw [hplaced, hstay]
  by_cases h₂ : cmp (es.length - 1) < 0
  · simp only [keepOrderPlace, hn0, h₁, h₂, ↓reduceIte, Bool.false_eq_true, Option.getD_none]
      at hplaced ⊢
    rw [hplaced, hstay]
  by_cases h₃ : 0 < cmp 0
  · simp only [keepOrderPlace, hn0, h₁, h₂, h₃, ↓reduceIte, Bool.false_eq_true, Option.getD_some]
      at hplaced ⊢
    rw [hplaced, hplace 0 _ (Nat.zero_le _) (by omega)]
    rfl
  by_cases h₄ : es.length = 2
  · have hsecond : 0 + 1 = es.length - 1 := by omega
    simp only [keepOrderPlace, hn0, h₁, h₂, h₃, ↓reduceIte, Bool.false_eq_true, if_pos h₄,
      if_pos hsecond, Option.getD_some] at hplaced ⊢
    rw [hplaced, hplace (es.length - 1) _ (Nat.sub_le _ _) (by omega), ← hsecond]
    rfl
  · have hthird : ¬ 0 + 1 = es.length - 1 := by omega
    simp only [keepOrderPlace, hn0, h₁, h₂, h₃, ↓reduceIte, Bool.false_eq_true, if_neg h₄,
      if_neg hthird, hloop] at hplaced ⊢
    cases hl : keepOrderLoop cmp (far es nMax) es.length 0 (es.length - 1) with
    | none =>
        rw [hl] at hplaced
        rw [hplaced, Option.getD_none, ← hstay]
        rfl
    | some i =>
        rw [hl] at hplaced
        rw [hplaced]
        rfl

/-! ### The place of a new record -/

/-- Between a smaller and a larger entry, the loop ends at two neighbours the new record lies
between: each window again starts below it and ends above it. -/
theorem keepOrderLoop_spec {cmp : Nat → Int} {far : Nat → Bool} {n : Nat}
    (hfar : ∀ m < n, far m = false) (hne : ∀ m < n, cmp m ≠ 0) :
    ∀ {fuel nB nE : Nat}, nE - nB ≤ fuel → nB ≤ nE → nE < n → cmp nB < 0 → 0 < cmp nE →
      ∃ i, keepOrderLoop cmp far fuel nB nE = some (i + 1) ∧ i + 1 < n ∧ cmp i < 0 ∧
        0 < cmp (i + 1) := by
  intro fuel
  induction fuel with
  | zero =>
      intro nB nE hf hle _ hB hE
      obtain rfl : nB = nE := by omega
      omega
  | succ fuel ih =>
      intro nB nE hf hle hn hB hE
      have hlt : nB < nE := Nat.lt_of_le_of_ne hle (by rintro rfl; omega)
      have hM : (nB + nE) / 2 < n := by omega
      have h₁ : ¬ far ((nB + nE) / 2) = true := by rw [hfar _ hM]; exact Bool.noConfusion
      have h₂ : ¬ far ((nB + nE) / 2 - 1) = true := by
        rw [hfar _ (by omega)]
        exact Bool.noConfusion
      rw [keepOrderLoop, if_pos hlt, if_neg h₁]
      by_cases hneg : cmp ((nB + nE) / 2) < 0
      · rw [if_pos hneg]
        have hMne : (nB + nE) / 2 ≠ nE := fun h => by rw [h] at hneg; omega
        split
        · rename_i hpos
          exact ⟨_, rfl, by omega, hneg, hpos⟩
        · rename_i hpos
          have := hne ((nB + nE) / 2 + 1) (by omega)
          exact ih (by omega) (by omega) hn (by omega) hE
      · have hpos : 0 < cmp ((nB + nE) / 2) := by
          have := hne _ hM
          omega
        have hMne : (nB + nE) / 2 ≠ nB := fun h => by rw [h] at hneg; omega
        have hM1 : (nB + nE) / 2 - 1 + 1 = (nB + nE) / 2 := by omega
        rw [if_neg hneg, if_pos hpos, if_neg h₂]
        split
        · rename_i hprev
          refine ⟨(nB + nE) / 2 - 1, by rw [hM1], by omega, hprev, ?_⟩
          rw [hM1]
          exact hpos
        · rename_i hprev
          have := hne ((nB + nE) / 2 - 1) (by omega)
          exact ih (by omega) (by omega) (by omega) hB (by omega)

/-- When no old record compares equal, the place lies between the smaller and the larger ones,
and the function returns 0. -/
theorem keepOrderPlace_spec {cmp : Nat → Int} {far : Nat → Bool} {n : Nat}
    (hfar : ∀ m < n, far m = false) (hne : ∀ m < n, cmp m ≠ 0) :
    keepOrderReturn cmp far n = 0 ∧ (keepOrderPlace cmp far n).getD n ≤ n ∧
      ((keepOrderPlace cmp far n).getD n = 0 ∨ cmp ((keepOrderPlace cmp far n).getD n - 1) < 0) ∧
      ((keepOrderPlace cmp far n).getD n = n ∨ 0 < cmp ((keepOrderPlace cmp far n).getD n)) := by
  rcases Nat.eq_zero_or_pos n with rfl | hn
  · exact ⟨rfl, Nat.le_refl _, Or.inl rfl, Or.inl rfl⟩
  have hn0 : n ≠ 0 := Nat.ne_of_gt hn
  have hlast : far (n - 1) = false := hfar _ (by omega)
  by_cases h₂ : cmp (n - 1) < 0
  · simp only [keepOrderReturn, keepOrderPlace, hn0, hlast, h₂, ↓reduceIte, Bool.false_eq_true,
      Option.getD_none]
    exact ⟨trivial, Nat.le_refl _, Or.inr trivial, Or.inl trivial⟩
  have hend : 0 < cmp (n - 1) := by
    have := hne (n - 1) (by omega)
    omega
  by_cases h₃ : 0 < cmp 0
  · simp only [keepOrderReturn, keepOrderPlace, hn0, hlast, h₂, h₃, ↓reduceIte,
      Bool.false_eq_true, Option.getD_some, Option.isSome_some]
    exact ⟨trivial, Nat.zero_le _, Or.inl trivial, Or.inr trivial⟩
  have hstart : cmp 0 < 0 := by
    have := hne 0 hn
    omega
  by_cases h₄ : n = 2
  · subst h₄
    simp only [keepOrderReturn, keepOrderPlace, hn0, hlast, h₂, h₃, ↓reduceIte,
      Bool.false_eq_true, Option.getD_some, Option.isSome_some]
    exact ⟨trivial, by omega, Or.inr hstart, Or.inr hend⟩
  · have hfuel : n - 1 - 0 ≤ n := by omega
    obtain ⟨i, hi, hin, hneg, hpos⟩ :=
      keepOrderLoop_spec hfar hne hfuel (Nat.zero_le _) (by omega) hstart hend
    simp only [keepOrderReturn, keepOrderPlace, hn0, hlast, h₂, h₃, h₄, hi, ↓reduceIte,
      Bool.false_eq_true, Option.getD_some, Option.isSome_some]
    exact ⟨trivial, by omega, Or.inr hneg, Or.inr hpos⟩

end Edm.Maillist
