import Mathlib
import Edm.Deliver.Template
import Edm.Faceside.Base64
import Edm.Support.Between

/-!
# Faceside — DwString

What `taskinf_dump` does with strings: `dw_encode_base64`, `dw_line_wrap`, `dw_linefeed`,
`dw_substr_base64_encode`, `get_html_text`, and the two steps of a table, which `deliver` has too.

Three of them can go wrong.  The block of `dw_encode_base64` has two bytes for each byte of the
text, in an `int`: no room for the four digits of a single byte (`Encodable`).  `dw_linefeed` goes
on with an iterator after an insertion, which is right only while the block of the string is large
enough.  A position that `find` has not found is out of range.  The other lengths are those that
`int` can hold.
-/

namespace Edm.Faceside
open Support

/-! ### Base 64 -/

/-- The text that `dw_encode_base64` leaves: where an `int` does not hold the doubled length, or
holds it as a negative number, it is not encoded. -/
def encoded (dst : Text) : Text :=
  if dst.length % 2 ^ 31 < 2 ^ 30 then Base64.ngxEncodeBase64 dst else dst

/-- A text is not encoded, or there is room for its digits. -/
def Encodable (dst : Text) : Prop :=
  dst.length % 2 ^ 31 < 2 ^ 30 → dst.length ≠ 1 ∧ dst.length < 2 ^ 30

theorem dwEncodeBase64_yields (dst : Text) :
    Yields (Base64.dwEncodeBase64 dst) (Encodable dst) (encoded dst) := by
  have hdouble := Base64.int32_double dst.length
  have hlen := Base64.length_ngxEncodeBase64 dst
  rw [Base64.dwEncodeBase64, hdouble, Base64.newBytes, Encodable, encoded]
  split
  next hempty =>
    obtain rfl : dst = [] := List.length_eq_zero_iff.mp (by omega)
    exact (yields_pure []).congr (iff_of_true trivial fun _ => by decide)
  next hempty =>
    by_cases hneg : dst.length % 2 ^ 31 < 2 ^ 30
    · have hsize : int32 (dst.length * 2) = (dst.length % 2 ^ 31 * 2 : Nat) := by
        rw [int32, Int.bmod]
        omega
      rw [if_neg (by omega), if_pos hneg, hsize]
      refine ((yields_require _ _).bind_pure fun _ => Base64.ngxEncodeBase64 dst).congr ?_
      rw [hlen]
      omega
    · have hsize : int32 (dst.length * 2) < 0 := by
        rw [int32, Int.bmod]
        omega
      rw [if_pos hsize, if_neg hneg]
      exact (yields_pure dst).congr (iff_of_true trivial fun h => absurd h hneg)

/-- The markers of `dw_substr_base64_encode`. -/
def base64Begin : Text := "<$BASE64>".toList

def base64End : Text := "</$BASE64>".toList

theorem base64Begin_ne : base64Begin ≠ [] := by decide

/-- `dw_substr_base64_encode(text, "<$BASE64>", "</$BASE64>")`. -/
def dwSubstrBase64Encode (text : Text) : Except Fault Text :=
  match h : nextMarked base64Begin base64End text with
  | none => .ok text
  | some (p, x, r) => do
      have := length_lt_of_nextMarked base64Begin_ne h
      let result ← Base64.dwEncodeBase64 x
      let rest ← dwSubstrBase64Encode r
      return p ++ (result ++ rest)
termination_by text.length

/-- Each marked part is encoded, if there is room for all of them. -/
theorem dwSubstrBase64Encode_yields (text : Text) : Yields (dwSubstrBase64Encode text)
    (∀ x ∈ between base64Begin_ne base64End text, Encodable x)
    (mapBetween base64Begin_ne base64End encoded text) := by
  induction text using marked_induction base64Begin_ne base64End with
  | last s hs =>
      rw [dwSubstrBase64Encode, between_none hs, mapBetween_none hs]
      split
      next => exact (yields_pure s).congr (by simp)
      next h => rw [hs] at h; cases h
  | next s p x r hs ih =>
      rw [dwSubstrBase64Encode, between_some hs, mapBetween_some hs, List.forall_mem_cons]
      split
      next h => rw [hs] at h; cases h
      next h =>
        rw [hs] at h
        cases h
        exact (dwEncodeBase64_yields x).bind (ih.bind_pure fun rest => p ++ (encoded x ++ rest))

/-! ### Lines -/

/-- The loop of `dw_line_wrap`, with room for `n` more characters in the line. -/
def wrapLeft (str : Text) (pos : Nat) : Nat → Text → Text
  | _, [] => []
  | 0, c :: s => str ++ c :: wrapLeft str pos (pos - 1) s
  | n + 1, c :: s => c :: wrapLeft str pos n s

/-- `dw_line_wrap`. -/
def dwLineWrap (text : Text) (pos : Nat) (str : Text) : Text :=
  if str.isEmpty || pos == 0 then text else wrapLeft str pos pos text

def crlf : Text := "\r\n".toList

/-- The loop of `dw_linefeed`, at a text of `size` bytes: what is left of the text from the
iterator on, and how long the text was at each insertion. -/
def linefeedFrom (pos size offset : Nat) : Text → Text × List Nat
  | [] => ([], [])
  | c :: s =>
      if offset = pos ∧ crlf.isPrefixOf (c :: s) then
        (crlf ++ (linefeedFrom pos size 0 (s.drop 1)).1, (linefeedFrom pos size 0 (s.drop 1)).2)
      else if offset = pos then
        -- Behind the CRLF that was inserted the loop goes on with this character.
        if c = '\r' ∨ c = '\n' then
          (crlf ++ (linefeedFrom pos (size + 1) 0 s).1, size :: (linefeedFrom pos (size + 1) 0 s).2)
        else (crlf ++ c :: (linefeedFrom pos (size + 2) 1 s).1,
          size :: (linefeedFrom pos (size + 2) 1 s).2)
      else if c = '\r' ∨ c = '\n' then linefeedFrom pos (size - 1) offset s
      else (c :: (linefeedFrom pos size (offset + 1) s).1, (linefeedFrom pos size (offset + 1) s).2)
termination_by s => s.length

/-- `dw_linefeed(text, 76)`, for a text in a block of `capacity` bytes: an insertion must not move
the block, since the loop keeps its iterator. -/
def dwLinefeed (capacity : Nat) (text : Text) : Except Fault Text := do
  let r := linefeedFrom 76 text.length 0 text
  require (∀ size ∈ r.2, size + 2 ≤ capacity) .moved
  return r.1

theorem dwLinefeed_yields (capacity : Nat) (text : Text) : Yields (dwLinefeed capacity text)
    (∀ size ∈ (linefeedFrom 76 text.length 0 text).2, size + 2 ≤ capacity)
    (linefeedFrom 76 text.length 0 text).1 :=
  (yields_require _ _).bind_pure fun _ => _

/-! ### Templates -/

/-- The loop of `get_html_text`; each turn is two characters further on. -/
def htmlText : Nat → Text → Text
  | 0, _ => []
  | fuel + 1, html =>
      if html.contains '>' then
        let p := skipBlanks (cut '>' html).2
        if (cstr p).contains '<' then
          let br := if strncasecmpEq (p.dropWhile (· != '<')) "<br".toList then crlf else []
          (cut '<' p).1 ++ (br ++ htmlText fuel (cut '<' p).2)
        else []
      else []

/-- `get_html_text`, for an empty `text`. -/
def getHtmlText (html : Text) : Text :=
  htmlText html.length ((Deliver.strcasestr "<body>".toList (cstr html)).elim html fun b =>
    html.drop ((cstr html).length - b.length))

/-- `table_first_step`; `none` if the value is no column. -/
def tableFirstStep (vars values : Text) (tables : Deliver.Tables) : Option Deliver.Tables :=
  if vars.isEmpty || !values.contains '|' then none
  else some (tables.set vars ((cstr values).splitOn '|'))

/-- `table_second_step`: it does not see what stands behind a NUL. -/
def tableSecondStep (html : Text) (tables : Deliver.Tables) : Text :=
  Deliver.tableSecondStep (cstr html) tables ++ html.drop (cstr html).length

end Edm.Faceside
