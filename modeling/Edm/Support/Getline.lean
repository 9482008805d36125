import Edm.Support.Split

/-!
# Support — Getline

`getline` on a file that could be opened, where a read fails at the end of the file only.  A reader
that has lines before it (`ofLines`) gives one after the other (`getline_ofLines`), whether or not
the last one ends with a LF; behind them it is at its end and leaves the string as it was.
-/

namespace Support

/-- A file that is read line by line: what is left of it, and `eof()`. -/
structure LineStream where
  rest : Text
  eof : Bool

namespace LineStream

/-- The reader at the beginning of a file. -/
def of (s : Text) : LineStream := ⟨s, false⟩

/-- The reader that has met the end. -/
def ended : LineStream := ⟨[], true⟩

/-- `getline(fs, line, '\n')`: the string, and the reader. -/
def getline (f : LineStream) (line : Text) : Text × LineStream :=
  if f.eof then (line, f)
  else if '\n' ∈ f.rest then ((cut '\n' f.rest).1, of (cut '\n' f.rest).2)
  else (f.rest, ended)

/-- How much a reader may read. -/
def left (f : LineStream) : Nat := if f.eof then 0 else f.rest.length + 1

theorem getline_lt {f : LineStream} (h : f.eof = false) (line : Text) :
    (f.getline line).2.left < f.left := by
  have hleft : f.left = f.rest.length + 1 := by rw [left, h]; rfl
  rw [getline, h, if_neg (by decide), hleft]
  split
  next hin =>
    obtain ⟨a, b, hrest, ha⟩ := List.eq_append_cons_of_mem hin
    rw [hrest, cut_append ha]
    simp only [left, of, Bool.false_eq_true, if_false, List.length_append, List.length_cons]
    omega
  next => simp [left, ended]

theorem getline_le (f : LineStream) (line : Text) : (f.getline line).2.left ≤ f.left := by
  cases h : f.eof with
  | true => rw [getline, if_pos h]
  | false => exact Nat.le_of_lt (getline_lt h line)

/-- What is read stands in the file, or in the string. -/
theorem getline_forall {P : Char → Prop} {f : LineStream} {line : Text} (hrest : ∀ c ∈ f.rest, P c)
    (hline : ∀ c ∈ line, P c) :
    (∀ c ∈ (f.getline line).1, P c) ∧ ∀ c ∈ (f.getline line).2.rest, P c := by
  rw [getline]
  split
  next => exact ⟨hline, hrest⟩
  next =>
    split
    next =>
      exact ⟨fun c hc => hrest c (mem_of_mem_cut (.inl hc)),
        fun c hc => hrest c (mem_of_mem_cut (.inr hc))⟩
    next => exact ⟨hrest, nofun⟩

/-- A line that is read has no LF. -/
theorem lf_not_mem_getline {f : LineStream} {line : Text} (h : f.eof = true → '\n' ∉ line) :
    '\n' ∉ (f.getline line).1 := by
  rw [getline]
  split
  next heof => exact h heof
  next =>
    split
    next => exact not_mem_takeWhile '\n' f.rest
    next hin => exact hin

/-! ### Lines -/

/-- Lines in a file; behind the last one there is no LF. -/
def joinLines : List Text → Text
  | [] => []
  | [l] => l
  | l :: ls => l ++ '\n' :: joinLines ls

/-- The reader before lines. -/
def ofLines : List Text → LineStream
  | [] => ended
  | ls => of (joinLines ls)

theorem getline_ofLines {l : Text} (h : '\n' ∉ l) (ls : List Text) (line : Text) :
    (ofLines (l :: ls)).getline line = (l, ofLines ls) := by
  cases ls with
  | nil => exact if_neg h
  | cons l' ls =>
      have hrest : (ofLines (l :: l' :: ls)).rest = l ++ '\n' :: joinLines (l' :: ls) := rfl
      rw [getline, hrest, if_neg (by simp [ofLines, of]), if_pos (by simp), cut_append h]
      rfl

@[simp] theorem eof_ofLines_cons (l : Text) (ls : List Text) :
    (ofLines (l :: ls)).eof = false := rfl

end LineStream

end Support
