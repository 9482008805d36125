import Edm.Support.CString

/-!
# Support — Crlf

Texts and their lines, which end in CR LF.  A text has one line more than it has line ends; what
stands behind the last line end is the last line (`crlfLines_append`, `flatten_crlfLines`).
-/

namespace Support

/-- The end of a line. -/
def crlf : Text := ['\r', '\n']

/-- `c` is the first character of a text with these lines. -/
def consLine (c : Char) : List Text → List Text
  | l :: ls => (c :: l) :: ls
  | [] => [[c]]

/-- The lines of a text. -/
def crlfLines : Text → List Text
  | [] => [[]]
  | '\r' :: '\n' :: s => [] :: crlfLines s
  | c :: s => consLine c (crlfLines s)

theorem crlfLines_crlf (s : Text) : crlfLines (crlf ++ s) = [] :: crlfLines s := rfl

theorem crlfLines_ne_nil (s : Text) : crlfLines s ≠ [] := by
  induction s using crlfLines.induct with
  | case1 => exact List.cons_ne_nil _ _
  | case2 s ih => exact List.cons_ne_nil _ _
  | case3 c s hc ih =>
      rw [crlfLines.eq_3 _ _ hc]
      obtain ⟨l, ls, h⟩ := List.exists_cons_of_ne_nil ih
      rw [h]
      exact List.cons_ne_nil _ _

theorem consLine_append (c : Char) {ls : List Text} (h : ls ≠ []) (ls' : List Text) :
    consLine c (ls ++ ls') = consLine c ls ++ ls' := by
  obtain ⟨l, ls, rfl⟩ := List.exists_cons_of_ne_nil h
  rfl

/-- The lines of two texts with a line end between them. -/
theorem crlfLines_append (s t : Text) :
    crlfLines (s ++ (crlf ++ t)) = crlfLines s ++ crlfLines t := by
  induction s using crlfLines.induct with
  | case1 => exact crlfLines_crlf t
  | case2 s ih => exact congrArg ([] :: ·) ih
  | case3 c s hc ih =>
      have hc' : ∀ s', c = '\r' → s ++ (crlf ++ t) ≠ '\n' :: s' := by
        rintro s' rfl h
        cases s with
        | nil => exact nomatch h
        | cons d s => exact hc s rfl (by rw [(List.cons.inj h).1])
      rw [List.cons_append, crlfLines.eq_3 _ _ hc, crlfLines.eq_3 _ _ hc', ih,
        consLine_append c (crlfLines_ne_nil s)]

/-- A text is its lines, each with its line end, but the last. -/
theorem flatten_crlfLines (s : Text) :
    ((crlfLines s).map (· ++ crlf)).flatten = s ++ crlf := by
  induction s using crlfLines.induct with
  | case1 => rfl
  | case2 s ih => exact congrArg (crlf ++ ·) ih
  | case3 c s hc ih =>
      rw [crlfLines.eq_3 _ _ hc, List.cons_append, ← ih]
      obtain ⟨l, ls, h⟩ := List.exists_cons_of_ne_nil (crlfLines_ne_nil s)
      rw [h]
      rfl

end Support
