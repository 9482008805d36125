import Edm.Support.Base64
import Edm.Support.Overwrite
import Edm.Support.Wrap

/-!
# Deliver — LineWrap

A base 64 text in lines: `dw_line_wrap`, which inserts a separator into a string behind every `pos`
characters, and the loops of `oldeml` and `spliteml`, which copy the text into a buffer and put a
line feed in front of every 76th character.

`dw_line_wrap` counts in `int`s, and the buffer of `oldeml` has 500 KiB.  The separator is a C
string whose length an `int` holds.

* `lineWrapLoop_eq`, `fits_of_lineWrapLoop`: what the insertions give, and what the `int`s have to
  hold for it.
* `copyLoop_eq`: the other loops write the same lines.
* **The text is wrapped** exactly when the `int`s hold the length of the full lines, and the buffer
  the lines of 76 characters (`wraps_iff`).
-/

namespace Edm.Deliver.LineWrap
open Support

/-! ### The code -/

/-- `insert` in front of an offset below the size. -/
theorem length_insert {text : Text} {n : Nat} (str : Text) (h : (n : Int) < int32 text.length) :
    (text.take n ++ (str ++ text.drop n)).length = text.length + str.length ∧ n < text.length := by
  have hsize := int32_le (Int.natCast_nonneg text.length)
  rw [List.length_append, List.length_append, List.length_take, List.length_drop]
  omega

/-- The loop of `dw_line_wrap`; there is no result when a sum is `intEnd` or more, which no `int`
holds. -/
def lineWrapLoop (intEnd pos : Nat) (hpos : 0 < pos) (str text : Text) (offset : Nat) :
    Option Text :=
  if offset + pos < intEnd then
    if _h : ((offset + pos : Nat) : Int) < int32 text.length then
      if offset + (pos + str.length) < intEnd then
        lineWrapLoop intEnd pos hpos str
          (text.take (offset + pos) ++ (str ++ text.drop (offset + pos)))
          (offset + (pos + str.length))
      else none
    else some text
  else none
termination_by text.length - offset
decreasing_by
  have hlen := length_insert str _h
  rw [hlen.1]
  omega

/-- `dw_line_wrap`. -/
def dwLineWrap (text : Text) (pos : Int) (str : Text) : Option Text :=
  if h : str = [] ∨ pos < 1 then some text
  else lineWrapLoop (2 ^ 31) pos.toNat (by omega) str text 0

/-- `*(pp+j) = c; j++`, in a buffer of so many bytes. -/
def putChar (room : Nat) (pp : Text) (c : Char) : Option Text :=
  if pp.length < room then some (pp ++ [c]) else none

/-- The loop of `oldeml` and `spliteml` at the character `i` of `encode`.  The buffer was cleared;
behind the last character stands the NUL that ends the string. -/
def copyLoop (room : Nat) : Nat → Text → Text → Option Text
  | _, [], pp => put room pp
  | i, c :: encode, pp =>
      if c = nul then put room pp
      else if i ≠ 0 ∧ i % 76 = 0 then
        ((putChar room pp '\n').bind fun pp => putChar room pp c).bind
          (copyLoop room (i + 1) encode)
      else (putChar room pp c).bind (copyLoop room (i + 1) encode)

/-- The lines of `oldeml`. -/
def oldemlLines (encode : Text) : Option Text := copyLoop (500 * 1024) 0 encode []

/-- The lines of `spliteml`. -/
def splitemlLines (encode : Text) : Option Text :=
  copyLoop (encode.length / 76 + encode.length + 2048) 0 encode []

/-! ### Insertions -/

section Insert
variable {intEnd pos : Nat} {str : Text}

/-- The offset at the end of the loop over `n` characters, and one line more. -/
def lastEnd (pos L n : Nat) : Nat := ((n - 1) / pos + 1) * pos + (n - 1) / pos * L

theorem lastEnd_short (hpos : 0 < pos) {L n : Nat} (h : n ≤ pos) : lastEnd pos L n = pos := by
  rw [lastEnd, Nat.div_eq_of_lt (by omega), Nat.zero_add, Nat.one_mul, Nat.zero_mul, Nat.add_zero]

theorem lastEnd_long (hpos : 0 < pos) {L n : Nat} (h : pos < n) :
    lastEnd pos L n = pos + L + lastEnd pos L (n - pos) := by
  have hdiv : (n - 1) / pos = (n - pos - 1) / pos + 1 := by
    rw [← Nat.add_div_right _ hpos]
    congr 1
    omega
  rw [lastEnd, lastEnd, hdiv]
  simp only [Nat.succ_mul]
  omega

/-- The last line ends where the offset of the last turn is. -/
theorem length_le_lastEnd (hpos : 0 < pos) (L n : Nat) : n ≤ lastEnd pos L n := by
  have hdiv := Nat.lt_div_mul_add hpos (a := n - 1)
  rw [lastEnd, Nat.succ_mul]
  omega

/-- One turn; a line is left, and what is behind it. -/
theorem lineWrapLoop_turn (hpos : 0 < pos) (front rest : Text) :
    lineWrapLoop intEnd pos hpos str (front ++ rest) front.length =
      if front.length + pos < intEnd then
        if ((front.length + pos : Nat) : Int) < int32 (front.length + rest.length : Nat) then
          if front.length + (pos + str.length) < intEnd then
            lineWrapLoop intEnd pos hpos str (front ++ rest.take pos ++ str ++ rest.drop pos)
              (front.length + (pos + str.length))
          else none
        else some (front ++ rest)
      else none := by
  have htake : (front ++ rest).take (front.length + pos) = front ++ rest.take pos :=
    List.take_length_add_append ..
  have hdrop : (front ++ rest).drop (front.length + pos) = rest.drop pos :=
    List.drop_length_add_append ..
  rw [lineWrapLoop, dite_eq_ite, List.length_append, htake, hdrop,
    ← List.append_assoc (front ++ rest.take pos)]

/-- Where the `int`s hold the end of the last line, the separator stands behind every line but the
last. -/
theorem lineWrapLoop_eq (hend : intEnd ≤ 2 ^ 31) (hpos : 0 < pos) (rest : Text) :
    ∀ front : Text, front.length + lastEnd pos str.length rest.length < intEnd →
      lineWrapLoop intEnd pos hpos str (front ++ rest) front.length
        = some (front ++ str.intercalate (cutEvery pos rest)) := by
  induction rest using cutEvery.induct pos with
  | case1 rest h ih =>
      intro front hfit
      have hnext : (front ++ rest.take pos ++ str).length = front.length + (pos + str.length) := by
        rw [List.length_append, List.length_append, List.length_take_of_le (Nat.le_of_lt h.2),
          Nat.add_assoc]
      rw [lastEnd_long hpos h.2] at hfit
      have hle := length_le_lastEnd hpos str.length (rest.length - pos)
      have hint : int32 (front.length + rest.length : Nat) = (front.length + rest.length : Nat) :=
        int32_of_range (by omega) (by omega)
      have hrest := ih (front ++ rest.take pos ++ str)
        (by rw [hnext, List.length_drop]; omega)
      rw [hnext] at hrest
      rw [lineWrapLoop_turn, if_pos (by omega), if_pos (by omega), if_pos (by omega), hrest,
        cutEvery_long hpos h.2, List.intercalate_cons_of_ne_nil (cutEvery_ne_nil pos _)]
      simp only [List.append_assoc]
  | case2 rest h =>
      intro front hfit
      have hshort : rest.length ≤ pos := Nat.le_of_not_lt fun hlong => h ⟨hpos, hlong⟩
      rw [lastEnd_short hpos hshort] at hfit
      have hint : int32 (front.length + rest.length : Nat) = (front.length + rest.length : Nat) :=
        int32_of_range (by omega) (by omega)
      rw [lineWrapLoop_turn, if_pos hfit, if_neg (by omega), cutEvery_short hshort,
        List.intercalate_singleton]

/-- With as many separators as there have to be, the last turn comes to the end of the last
line. -/
theorem fits_of_lineWrapLoop (hpos : 0 < pos) (hstr : str ≠ []) (rest : Text) :
    ∀ front r : Text, lineWrapLoop intEnd pos hpos str (front ++ rest) front.length = some r →
      r.length = front.length + (rest.length + (rest.length - 1) / pos * str.length) →
      front.length + lastEnd pos str.length rest.length < intEnd := by
  have hL : 0 < str.length := List.length_pos_iff.mpr hstr
  induction rest using cutEvery.induct pos with
  | case1 rest h ih =>
      intro front r hr hlen
      have hnext : (front ++ rest.take pos ++ str).length = front.length + (pos + str.length) := by
        rw [List.length_append, List.length_append, List.length_take_of_le (Nat.le_of_lt h.2),
          Nat.add_assoc]
      have hdiv : (rest.length - 1) / pos = (rest.length - pos - 1) / pos + 1 := by
        rw [← Nat.add_div_right _ hpos]
        congr 1
        omega
      rw [hdiv, Nat.succ_mul] at hlen
      rw [lineWrapLoop_turn] at hr
      split at hr
      next =>
        split at hr
        next =>
          split at hr
          next =>
            rw [← hnext] at hr
            have hrest := ih _ r hr (by rw [hnext, List.length_drop, hlen]; omega)
            rw [hnext, List.length_drop] at hrest
            rw [lastEnd_long hpos h.2]
            omega
          next => cases hr
        next =>
          -- The loop ends too soon.
          have := congrArg List.length (Option.some.inj hr)
          rw [List.length_append] at this
          omega
      next => cases hr
  | case2 rest h =>
      intro front r hr _
      have hshort : rest.length ≤ pos := Nat.le_of_not_lt fun hlong => h ⟨hpos, hlong⟩
      rw [lineWrapLoop_turn] at hr
      rw [lastEnd_short hpos hshort]
      split at hr
      next hfit => exact hfit
      next => cases hr

end Insert

/-! ### Copies -/

/-- What the other loops write, where the buffer has room for it and for the NUL. -/
theorem copyLoop_eq (room : Nat) (encode : Text) (hnul : nul ∉ encode) : ∀ (i : Nat) (pp : Text),
    copyLoop room i encode pp = put room (pp ++ wrapFrom 76 i encode) := by
  have hput : ∀ {pp : Text} {c : Char} {t : Text} {f : Text → Option Text},
      f (pp ++ [c]) = put room (pp ++ c :: t) →
        (putChar room pp c).bind f = put room (pp ++ c :: t) := by
    intro pp c t f hf
    rw [putChar]
    split
    next => exact hf
    next hfull =>
      rw [put, if_neg]
      · rfl
      · rw [List.length_append]
        omega
  induction encode with
  | nil =>
      intro i pp
      rw [copyLoop, wrapFrom, List.append_nil]
  | cons c encode ih =>
      intro i pp
      rw [List.mem_cons, not_or] at hnul
      have hcopy : ∀ pp', (putChar room pp' c).bind (copyLoop room (i + 1) encode)
          = put room (pp' ++ c :: wrapFrom 76 (i + 1) encode) := fun pp' =>
        hput (by rw [ih hnul.2, List.append_assoc, List.singleton_append])
      rw [copyLoop, if_neg (Ne.symm hnul.1), wrapFrom]
      split
      next =>
        rw [Option.bind_assoc]
        exact hput (by rw [hcopy, List.append_assoc, List.singleton_append])
      next => exact hcopy pp

/-! ### Both -/

/-- A text of base 64 digits and padding. -/
def IsBase64 (t : Text) : Prop := ∀ c ∈ t, c ∈ digits64 ∨ c = '='

instance (t : Text) : Decidable (IsBase64 t) :=
  decidableForallText (fun c => c ∈ digits64 ∨ c = '=') t

theorem IsBase64.nul_not_mem {t : Text} (h : IsBase64 t) : nul ∉ t := by
  have hdigits : nul ∉ digits64 := by decide +kernel
  exact fun hnul => (h nul hnul).elim hdigits (by decide)

/-- `t` is wrapped: deleting the separators gives it back, all its lines but the last have `pos`
characters, and the last has not more, and some if `t` has.  For line feeds behind 76 characters,
it is what the loops write that copy. -/
structure Wraps (t : Text) (pos : Int) (str : Text) : Prop where
  lines : ∃ ls, EvenLines pos.toNat t ls ∧ dwLineWrap t pos str = some (str.intercalate ls)
  same : pos = 76 → str = ['\n'] →
    oldemlLines t = dwLineWrap t pos str ∧ splitemlLines t = dwLineWrap t pos str

/-- An `int` holds the end of the last line, and the buffer of `oldeml` the lines of 76
characters. -/
def Fits (t : Text) (pos : Int) (str : Text) : Prop :=
  lastEnd pos.toNat str.length t.length < 2 ^ 31
    ∧ (pos = 76 → str = ['\n'] → t.length + (t.length - 1) / 76 < 500 * 1024)

/-- **The text is wrapped** exactly when it fits. -/
theorem wraps_iff {t str : Text} {pos : Int} (ht : IsBase64 t) (hpos : 1 ≤ pos) (hstr : str ≠ []) :
    Wraps t pos str ↔ Fits t pos str := by
  have hp : 0 < pos.toNat := by omega
  have hcode : dwLineWrap t pos str = lineWrapLoop (2 ^ 31) pos.toNat hp str t 0 :=
    dif_neg fun h => h.elim hstr (by omega)
  have hcopy : ∀ room, copyLoop room 0 t [] = put room (wrapFrom 76 0 t) := fun room =>
    copyLoop_eq room t ht.nul_not_mem 0 []
  have hlen : (wrapFrom 76 0 t).length = t.length + (t.length - 1) / 76 := by
    have := length_wrapFrom (w := 76) (by decide) t 0
    rw [Nat.zero_add] at this
    omega
  constructor
  · rintro ⟨⟨ls, hls, hr⟩, hsame⟩
    constructor
    · have hfit := fits_of_lineWrapLoop hp hstr t [] (str.intercalate ls) (hcode ▸ hr)
        (by rw [hls.length_intercalate hp, List.length_nil, Nat.zero_add])
      rwa [List.length_nil, Nat.zero_add] at hfit
    · intro h76 hlf
      have hold := (hsame h76 hlf).1
      rw [hr, oldemlLines, hcopy, put] at hold
      split at hold
      next hroom => rwa [hlen] at hroom
      next => cases hold
  · rintro ⟨hend, hroom⟩
    have hloop := @lineWrapLoop_eq _ _ str (Nat.le_refl _) hp t []
      (by rwa [List.length_nil, Nat.zero_add])
    rw [List.nil_append, List.nil_append, List.length_nil, ← hcode] at hloop
    refine ⟨⟨_, evenLines_cutEvery hp t, hloop⟩, fun h76 hlf => ?_⟩
    subst h76 hlf
    have hsame : dwLineWrap t 76 ['\n'] = some (wrapFrom 76 0 t) := by
      rw [hloop, wrapFrom_zero (by decide)]
      rfl
    rw [hsame, oldemlLines, splitemlLines, hcopy, hcopy, put, put, if_pos, if_pos]
    · exact ⟨rfl, rfl⟩
    · rw [hlen]
      omega
    · rw [hlen]
      exact hroom rfl rfl

theorem wraps_qvga : Wraps "UVZHQQ==".toList 4 ['\n'] ↔ Fits "UVZHQQ==".toList 4 ['\n'] :=
  wraps_iff (by decide +kernel) (by decide) (by decide)

/-- 500 KiB of digits are wrapped, but the buffer of `oldeml` is too small. -/
theorem not_wraps : ¬ ∀ (t : Text) (pos : Int) (str : Text), IsBase64 t → 1 ≤ pos → str ≠ [] →
    Wraps t pos str := by
  intro h
  have hdigits : IsBase64 (List.replicate (500 * 1024) 'A') := fun c hc => by
    rw [List.eq_of_mem_replicate hc]
    exact .inl (by decide)
  have hwraps := h _ 76 ['\n'] hdigits (by decide) (by decide)
  have hfits := ((wraps_iff hdigits (by decide) (by decide)).mp hwraps).2 rfl rfl
  rw [List.length_replicate] at hfits
  omega

end Edm.Deliver.LineWrap
