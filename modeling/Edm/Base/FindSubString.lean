import Edm.Support.CString
import Edm.Support.SkipSearch

/-!
# Base — FindSubString

`FindSubString` (`cpplib/base/string.cpp`), which looks for a key in a text.  One table of skips,
by the byte behind the window, serves the search that tells the cases apart and the one that does
not.

* `skips_indexKey`: the table never jumps over an occurrence, in either search.
* **Both searches end at the first occurrence**, and read nothing behind the terminator
  (`find_first`).
-/

namespace Edm.Base
open Support

/-! ### The code -/

/-- `StringFunc::tolower`, of a byte.  `g_LowcaseCharsetMap` moves the ASCII capitals only; a
negative `char` is left alone. -/
def tolowerByte (ch : UInt8) : UInt8 := if 65 ≤ ch ∧ ch ≤ 90 then ch + 32 else ch

/-- A byte as a `char`. -/
def charOf (ch : UInt8) : Int := ch.toInt8.toInt

/-- The loop of `StringFunc::strCasecmp`, and its result; there is none when it reads outside of a
string. -/
def strCasecmpLoop (l₁ l₂ : Nat) : Nat → List UInt8 → List UInt8 → Option Int
  | 0, _, _ => some (int32 (l₁ - l₂))
  | n + 1, c :: str₁, d :: str₂ =>
      if tolowerByte c = tolowerByte d then
        if c = 0 then some (charOf (tolowerByte c) - charOf (tolowerByte d))
        else strCasecmpLoop l₁ l₂ n str₁ str₂
      else some (charOf (tolowerByte c) - charOf (tolowerByte d))
  | _ + 1, _, _ => none

/-- `StringFunc::strCasecmp`. -/
def strCasecmp (str₁ : List UInt8) (l₁ : Nat) (str₂ : List UInt8) (l₂ : Nat) : Option Int :=
  strCasecmpLoop l₁ l₂ (if l₁ < l₂ then l₁ else l₂) str₁ str₂

/-- `memcmp(p, q, n) == 0`. -/
def memcmpZero (p q : List UInt8) (n : Nat) : Option Bool :=
  if n ≤ p.length ∧ n ≤ q.length then some (p.take n == q.take n) else none

/-- `m_pIndex`: a slot for every byte, and none of them is zero. -/
structure SkipIndex where
  slots : Vector Nat 256
  pos : ∀ (i : Nat) (h : i < 256), 0 < slots[i]

namespace SkipIndex

/-- `m_pIndex[ch]`. -/
def get (index : SkipIndex) (ch : UInt8) : Nat := index.slots.get ⟨ch.toNat, ch.toNat_lt⟩

theorem get_pos (index : SkipIndex) (ch : UInt8) : 0 < index.get ch := index.pos _ ch.toNat_lt

/-- All slots filled with `n + 1`. -/
def fill (n : Nat) : SkipIndex :=
  ⟨Vector.replicate 256 (n + 1), fun i h => by rw [Vector.getElem_replicate]; exact n.succ_pos⟩

/-- `m_pIndex[ch] = n + 1`. -/
def put (index : SkipIndex) (ch : UInt8) (n : Nat) : SkipIndex :=
  ⟨index.slots.set ch.toNat (n + 1) ch.toNat_lt, fun i h => by
    rw [Vector.getElem_set]
    split
    · exact n.succ_pos
    · exact index.pos i h⟩

end SkipIndex

/-- `FindSubString`.  `m_nKeySize` is the length of the key. -/
structure FindSubString where
  pKeyBuffer : List UInt8
  pIndex : Option SkipIndex

/-- The second loop of `compileKeyWord`: `m_nKeySize - i` is the length of what is left of the
key. -/
def indexKey : List UInt8 → SkipIndex → SkipIndex
  | [], index => index
  | ch :: key, index => indexKey key ((index.put ch key.length).put (tolowerByte ch) key.length)

/-- `FindSubString::compileKeyWord`. -/
def compileKeyWord (pKey : List UInt8) : FindSubString :=
  if pKey.length > 0 then ⟨pKey, some (indexKey pKey (.fill pKey.length))⟩ else ⟨[], none⟩

/-- The loop of the searches.  `isKey` is the comparison at an offset, and `fold` what is done to
the byte behind the window. -/
def findLoop (isKey : Nat → Option Bool) (fold : UInt8 → UInt8) (index : SkipIndex)
    (pText : List UInt8) (nTextLen nKeySize i : Nat) : Option (Option Nat) :=
  if i + nKeySize ≤ nTextLen then
    (isKey i).bind fun same =>
      if same then some (some i)
      else (pText[i + nKeySize]?).bind fun ch =>
        findLoop isKey fold index pText nTextLen nKeySize (i + index.get (fold ch))
  else some none
termination_by nTextLen + 1 - i
decreasing_by
  have := index.get_pos (fold ch)
  omega

namespace FindSubString

/-- What the two searches share. -/
def find (fs : FindSubString) (isKey : Nat → Option Bool) (fold : UInt8 → UInt8)
    (pText : List UInt8) (nTextLen : Nat) : Option (Option Nat) :=
  if nTextLen < fs.pKeyBuffer.length then some none
  else if fs.pKeyBuffer.length = 0 then some (some 0)
  else fs.pIndex.bind fun index =>
    findLoop isKey fold index pText nTextLen fs.pKeyBuffer.length 0

/-- `findCaseSensitive`; `npos` is no index. -/
def findCaseSensitive (fs : FindSubString) (pText : List UInt8) (nTextLen : Nat) :
    Option (Option Nat) :=
  fs.find (fun i => memcmpZero (pText.drop i) fs.pKeyBuffer fs.pKeyBuffer.length) id pText nTextLen

/-- `findIgnoreCase`. -/
def findIgnoreCase (fs : FindSubString) (pText : List UInt8) (nTextLen : Nat) :
    Option (Option Nat) :=
  fs.find (fun i => (strCasecmp (pText.drop i) fs.pKeyBuffer.length fs.pKeyBuffer
    fs.pKeyBuffer.length).map (· == 0)) tolowerByte pText nTextLen

end FindSubString

/-! ### The table -/

section Index
variable {n : Nat} {c : UInt8} {key : List UInt8} {index : SkipIndex}

theorem get_fill (n : Nat) (c : UInt8) : (SkipIndex.fill n).get c = n + 1 :=
  Vector.getElem_replicate _

theorem get_put (index : SkipIndex) (ch : UInt8) (n : Nat) (c : UInt8) :
    (index.put ch n).get c = if c = ch then n + 1 else index.get c := by
  by_cases h : c = ch
  · subst h
    rw [if_pos rfl]
    exact Vector.getElem_set_self _
  · rw [if_neg h]
    exact Vector.getElem_set_ne ch.toNat_lt c.toNat_lt fun heq => h (UInt8.toNat_inj.mp heq.symm)

theorem get_put_le (h : index.get c ≤ n) {k : Nat} (hk : k < n) (ch : UInt8) :
    (index.put ch k).get c ≤ n := by
  rw [get_put]
  split
  · exact hk
  · exact h

/-- A slot does not grow over what it was, and over the length of the key. -/
theorem get_indexKey_le (h : index.get c ≤ n) (hn : key.length ≤ n) :
    (indexKey key index).get c ≤ n := by
  induction key generalizing index with
  | nil => exact h
  | cons ch key ih =>
      have hlt : key.length < n := hn
      exact ih (get_put_le (get_put_le h hlt ch) hlt _) (Nat.le_of_succ_le hn)

/-- The slot of a byte of the key, or of the same byte written small, is no more than the distance
from the end. -/
theorem get_indexKey_le_sub {k : Nat} (hk : k < key.length)
    (hc : c = key[k] ∨ c = tolowerByte key[k]) :
    (indexKey key index).get c ≤ key.length - k := by
  induction key generalizing index k with
  | nil => exact absurd hk (Nat.not_lt_zero k)
  | cons ch key ih =>
      cases k with
      | zero =>
          rw [indexKey]
          refine get_indexKey_le ?_ (Nat.le_succ key.length)
          rw [get_put, get_put]
          rcases hc with hc | hc
          · rw [if_pos (show c = ch from hc), ite_self]
            exact Nat.le_refl _
          · rw [if_pos (show c = tolowerByte ch from hc)]
            exact Nat.le_refl _
      | succ k =>
          rw [List.length_cons, Nat.add_sub_add_right]
          exact ih (Nat.lt_of_succ_lt_succ hk) hc

/-- The table never jumps over an occurrence, whether `tolower` is used or not. -/
theorem skips_indexKey {f : UInt8 → UInt8} (hf : ∀ c, f c = c ∨ f c = tolowerByte c) :
    Skips f key (indexKey key (.fill key.length)).get where
  le_succ c := get_indexKey_le (Nat.le_of_eq (get_fill _ c)) (Nat.le_succ _)
  le_sub k h := get_indexKey_le_sub h (hf key[k])

end Index

/-! ### The comparisons -/

section Compare
variable {c d : UInt8} {key text w rest : List UInt8} {f : UInt8 → UInt8} {i : Nat}

theorem charOf_sub_eq_zero_iff : charOf c - charOf d = 0 ↔ c = d := by
  rw [Int.sub_eq_zero, charOf, charOf, Int8.toInt_inj]
  exact ⟨fun h => congrArg Int8.toUInt8 h, fun h => congrArg UInt8.toInt8 h⟩

/-- An occurrence, by the window. -/
theorem occursAt_iff_window (f : UInt8 → UInt8) (key text : List UInt8) (i : Nat) :
    OccursAt f key text i ↔ ((text.drop i).take key.length).map f = key.map f := by
  rw [OccursAt, List.prefix_iff_eq_take, List.length_map, ← List.map_drop, ← List.map_take, eq_comm]

/-- `memcmp` of the window and the key. -/
theorem memcmpZero_eq (hw : w.length = key.length) (rest : List UInt8) :
    memcmpZero (w ++ rest) key key.length = some (w == key) := by
  have hle : key.length ≤ (w ++ rest).length := by
    rw [List.length_append, hw]
    exact Nat.le_add_right _ _
  rw [memcmpZero, if_pos ⟨hle, Nat.le_refl _⟩, ← hw, List.take_left, hw, List.take_length]

/-- `strCasecmp` of the window and the key. -/
theorem strCasecmpLoop_eq (l : Nat) (hw : w.length = key.length) (hnul : 0 ∉ w)
    (rest : List UInt8) : ∃ r, strCasecmpLoop l l key.length (w ++ rest) key = some r
      ∧ (r = 0 ↔ w.map tolowerByte = key.map tolowerByte) := by
  induction key generalizing w with
  | nil =>
      rw [List.length_nil, List.length_eq_zero_iff] at hw
      subst hw
      refine ⟨_, rfl, ?_⟩
      rw [Int.sub_self]
      exact iff_of_true rfl rfl
  | cons d key ih =>
      cases w with
      | nil => cases hw
      | cons c w =>
          rw [List.mem_cons, not_or] at hnul
          rw [List.length_cons, List.cons_append, strCasecmpLoop, List.map_cons, List.map_cons,
            List.cons.injEq]
          by_cases hcd : tolowerByte c = tolowerByte d
          · obtain ⟨r, hr, hiff⟩ := ih (Nat.succ.inj hw) hnul.2
            rw [if_pos hcd, if_neg (Ne.symm hnul.1), and_iff_right hcd]
            exact ⟨r, hr, hiff⟩
          · rw [if_neg hcd]
            refine ⟨_, rfl, ?_⟩
            rw [charOf_sub_eq_zero_iff]
            exact iff_of_false hcd fun h => hcd h.1

end Compare

/-! ### The search -/

section Find
variable {isKey : Nat → Option Bool} {f : UInt8 → UInt8} {index : SkipIndex}
  {key text rest : List UInt8}

/-- The loop finds the first occurrence from an offset on. -/
theorem findLoop_spec (hkey : key ≠ []) (hskips : Skips f key index.get)
    (hisKey : ∀ i, i + key.length ≤ text.length →
      ∃ same, isKey i = some same ∧ (same = true ↔ OccursAt f key text i)) (i : Nat) :
    ∃ r, findLoop isKey f index (text ++ [0]) text.length key.length i = some r
      ∧ FirstFrom (OccursAt f key text) i r := by
  induction hn : text.length + 1 - i using Nat.strong_induction_on generalizing i with
  | h n ih =>
    rw [findLoop]
    by_cases hle : i + key.length ≤ text.length
    · obtain ⟨same, hsame, hiff⟩ := hisKey i hle
      rw [if_pos hle, hsame, Option.bind_some]
      by_cases hocc : OccursAt f key text i
      · rw [if_pos (hiff.mpr hocc)]
        exact ⟨_, rfl, .here hocc⟩
      · rw [if_neg (mt hiff.mp hocc)]
        have hlt : i + key.length < (text ++ [0]).length := by
          rw [List.length_append]
          exact Nat.lt_succ_of_le hle
        rw [List.getElem?_eq_getElem hlt, Option.bind_some]
        have hpos := index.get_pos (f (text ++ [0])[i + key.length])
        obtain ⟨r, hr, hfirst⟩ := ih _ (by omega)
          (i + index.get (f (text ++ [0])[i + key.length])) rfl
        refine ⟨r, hr, hfirst.jump fun j hij hj => ?_⟩
        have hij' : i < j := Nat.lt_of_le_of_ne hij fun heq => hocc (heq ▸ hj)
        have hj' := hj.le hkey
        -- a later occurrence ends in the text, so the byte is not the terminator
        have hget : text[i + key.length]? = some (text ++ [0])[i + key.length] := by
          rw [← List.getElem?_eq_getElem hlt, List.getElem?_append_left (by omega)]
        exact hskips.le hget hij' hj
    · rw [if_neg hle]
      refine ⟨_, rfl, fun j hij hj => hle ?_⟩
      have := hj.le hkey
      omega

/-- What the searches share: the first occurrence. -/
theorem find_spec (hf : ∀ c, f c = c ∨ f c = tolowerByte c)
    (hisKey : key ≠ [] → ∀ i, i + key.length ≤ text.length →
      ∃ same, isKey i = some same ∧ (same = true ↔ OccursAt f key text i)) :
    ∃ r, (compileKeyWord key).find isKey f (text ++ [0]) text.length = some r
      ∧ FirstFrom (OccursAt f key text) 0 r := by
  by_cases hkey : key = []
  · subst hkey
    exact ⟨some 0, rfl, .here (List.nil_prefix)⟩
  · have hpos := List.length_pos_iff.mpr hkey
    rw [compileKeyWord, if_pos hpos, FindSubString.find]
    dsimp only
    by_cases hlt : text.length < key.length
    · rw [if_pos hlt]
      refine ⟨_, rfl, fun j _ hj => ?_⟩
      have := hj.le hkey
      omega
    · rw [if_neg hlt, if_neg (Nat.ne_of_gt hpos), Option.bind_some]
      exact findLoop_spec hkey (skips_indexKey hf) (hisKey hkey) 0

end Find

/-- One key that is compiled serves both searches: each of them ends, reads no byte behind the
terminator, and gives the least offset at which the key stands in the text, if there is one. -/
theorem find_first (key text : List UInt8) (hnul : 0 ∉ text) :
    (∃ r, (compileKeyWord key).findCaseSensitive (text ++ [0]) text.length = some r
      ∧ FirstFrom (OccursAt id key text) 0 r)
    ∧ ∃ r, (compileKeyWord key).findIgnoreCase (text ++ [0]) text.length = some r
      ∧ FirstFrom (OccursAt tolowerByte key text) 0 r := by
  have hwindow : ∀ i, i + key.length ≤ text.length →
      (text ++ [0]).drop i = (text.drop i).take key.length ++ ((text.drop i).drop key.length ++ [0])
      ∧ ((text.drop i).take key.length).length = key.length := fun i hi => by
    rw [List.drop_append_of_le_length (Nat.le_of_add_right_le hi), ← List.append_assoc,
      List.take_append_drop, List.length_take_of_le (by rw [List.length_drop]; omega)]
    exact ⟨rfl, rfl⟩
  refine ⟨find_spec (fun c => .inl rfl) fun hkey i hi => ?_,
    find_spec (fun c => .inr rfl) fun hkey i hi => ?_⟩
  · obtain ⟨hdrop, hlen⟩ := hwindow i hi
    rw [compileKeyWord, if_pos (List.length_pos_iff.mpr hkey), hdrop]
    refine ⟨_, memcmpZero_eq hlen _, ?_⟩
    rw [beq_iff_eq, occursAt_iff_window, List.map_id, List.map_id]
  · obtain ⟨hdrop, hlen⟩ := hwindow i hi
    rw [compileKeyWord, if_pos (List.length_pos_iff.mpr hkey), hdrop]
    obtain ⟨r, hr, hiff⟩ := strCasecmpLoop_eq key.length hlen
      (fun h => hnul (List.mem_of_mem_drop (List.mem_of_mem_take h)))
      ((text.drop i).drop key.length ++ [0])
    dsimp only
    rw [strCasecmp, ite_self, hr]
    refine ⟨_, rfl, ?_⟩
    rw [beq_iff_eq, occursAt_iff_window, hiff]

/-- `aBa` is looked for in `abaaBa`. -/
theorem find_first_mixed :
    (∃ r, (compileKeyWord [97, 66, 97]).findCaseSensitive [97, 98, 97, 97, 66, 97, 0] 6 = some r
      ∧ FirstFrom (OccursAt (id : UInt8 → UInt8) [97, 66, 97] [97, 98, 97, 97, 66, 97]) 0 r)
    ∧ ∃ r, (compileKeyWord [97, 66, 97]).findIgnoreCase [97, 98, 97, 97, 66, 97, 0] 6 = some r
      ∧ FirstFrom (OccursAt tolowerByte [97, 66, 97] [97, 98, 97, 97, 66, 97]) 0 r :=
  find_first [97, 66, 97] [97, 98, 97, 97, 66, 97] (by decide)

end Edm.Base
