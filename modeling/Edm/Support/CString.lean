import Mathlib.Data.List.Basic
import Mathlib.Algebra.Group.Nat.Defs
import Mathlib.Algebra.Ring.Int.Defs
import Mathlib.Tactic.Common

/-!
# Support — CString

`std::string` and C strings as lists of characters, and 32-bit `int` arithmetic.  A `Text` is
the content of a `std::string`; `cstr` is what `c_str()` shows a C function, which stops at the
first NUL.

* `int32` is the value an x86-64 `int` holds after an operation whose exact result is its
  argument; `intOfDouble` is the conversion `int(d)` of a whole `double`.
* `strtol` reads a number as the C library's `strtol` does in base 10: white space, a sign,
  digits, the value cut off at the ends of `long`.  `atoi` and `sscanf "%d"` keep the low 32
  bits of it.
* `padded w n` is `"%0wd"`; it determines `n` (`padded_inj`).
-/

namespace Support

/-- The content of a `std::string`. -/
abbrev Text := List Char

instance lawful_text : LawfulBEq Text := inferInstance

/-- The letters of a text are gone through one by one. -/
instance decidableForallText (p : Char → Prop) [DecidablePred p] (s : Text) :
    Decidable (∀ c ∈ s, p c) := List.decidableBAll p s

/-! ### `int` -/

/-- The value an `int` holds: `z` modulo `2^32`, in `[-2^31, 2^31)`. -/
def int32 (z : Int) : Int := z.bmod (2 ^ 32)

theorem int32_of_range {z : Int} (h₁ : -2 ^ 31 ≤ z) (h₂ : z < 2 ^ 31) : int32 z = z := by
  unfold int32
  exact Int.bmod_eq_of_le (by omega) (by omega)

theorem int32_lower (z : Int) : -2 ^ 31 ≤ int32 z := by
  have := Int.le_bmod (x := z) (m := 2 ^ 32) (by decide)
  unfold int32; omega

theorem int32_upper (z : Int) : int32 z < 2 ^ 31 := by
  have := Int.bmod_lt (x := z) (m := 2 ^ 32) (by decide)
  unfold int32; omega

/-- A difference of two `int`s is that of the numbers they hold. -/
theorem int32_sub (a b : Int) : int32 (int32 a - int32 b) = int32 (a - b) := by
  simp only [int32, Int.bmod_sub_bmod, Int.sub_bmod_bmod]

/-- An `int` does not hold more than the number it was given. -/
theorem int32_le {z : Int} (h : 0 ≤ z) : int32 z ≤ z := by
  have h₁ := int32_upper z
  rcases Int.lt_or_le z (2 ^ 31) with hz | hz
  · exact Int.le_of_eq (int32_of_range (by omega) hz)
  · omega

/-- `int(d)` for a `double` whose value is the whole number `z`: a value no `int` holds is
converted to the least one. -/
def intOfDouble (z : Int) : Int := if -2 ^ 31 ≤ z ∧ z < 2 ^ 31 then z else -2 ^ 31

theorem intOfDouble_of_range {z : Int} (h₁ : -2 ^ 31 ≤ z) (h₂ : z < 2 ^ 31) :
    intOfDouble z = z :=
  if_pos ⟨h₁, h₂⟩

/-- `k < d / m` in C, where the division truncates. -/
theorem lt_tdiv_iff {k d m : Int} (hk : 0 ≤ k) (hm : 0 < m) :
    k < d.tdiv m ↔ (k + 1) * m ≤ d := by
  rcases Int.le_total 0 d with hd | hd
  · rw [Int.tdiv_eq_ediv_of_nonneg hd, ← Int.add_one_le_iff, Int.le_ediv_iff_mul_le hm]
  · have h₁ : d.tdiv m ≤ 0 := by
      rw [← Int.neg_neg d, Int.neg_tdiv]
      exact Int.neg_nonpos_of_nonneg
        (Int.tdiv_nonneg (Int.neg_nonneg_of_nonpos hd) (Int.le_of_lt hm))
    have h₂ : 0 < (k + 1) * m := Int.mul_pos (by omega) hm
    omega

/-! ### C strings -/

/-- The terminating NUL. -/
def nul : Char := Char.ofNat 0

/-- What `c_str()` shows a C function. -/
def cstr (s : Text) : Text := s.takeWhile (· != nul)

/-- `std::transform(…, tolower)`. -/
def tolower (s : Text) : Text := s.map Char.toLower

/-- `strncasecmp(s, key, strlen(key)) == 0`. -/
def strncasecmpEq (s key : Text) : Bool := tolower ((cstr s).take key.length) == tolower key

/-- `strcasecmp(s, key) == 0`. -/
def strcasecmpEq (s key : Text) : Bool := tolower (cstr s) == tolower key

/-- `strncmp(s, key, strlen(key)) == 0`. -/
def strncmpEq (s key : Text) : Bool := key.isPrefixOf (cstr s)

/-- `while (*p == ' ' || *p == '\t') p++`. -/
def skipBlanks (p : Text) : Text := p.dropWhile fun c => c == ' ' || c == '\t'

/-- `s.erase(0, s.find_first_not_of(cls))`. -/
def eraseFront (cls : Text) (s : Text) : Text := s.dropWhile (cls.contains ·)

/-- `s.erase(s.find_last_not_of(cls) + 1)`. -/
def eraseBack (cls : Text) (s : Text) : Text := (s.reverse.dropWhile (cls.contains ·)).reverse

/-- The text before the first `c`, and the text after it; all of the text, when it has no `c`. -/
def cut (c : Char) (s : Text) : Text × Text :=
  (s.takeWhile (· != c), (s.dropWhile (· != c)).drop 1)

/-- `isspace` in the C locale. -/
def isspace (c : Char) : Bool :=
  c == ' ' || c == '\t' || c == '\n' || c == '\r' || c.toNat == 11 || c.toNat == 12

/-- `GlobalFunc::removeSpace`. -/
def removeSpace (s : Text) : Text := s.filter fun c => !(isspace c || c == nul)

/-- `strcmp(s, t)`: its sign is that of the first difference, read as `unsigned char`. -/
def strcmpText : Text → Text → Int
  | [], [] => 0
  | [], d :: _ => -(d.toNat : Int)
  | c :: _, [] => c.toNat
  | c :: s, d :: t => if c = d then strcmpText s t else (c.toNat : Int) - d.toNat

def strcmp (s t : Text) : Int := strcmpText (cstr s) (cstr t)

/-- `s[i]`, a `char` of x86-64, which is signed. -/
def charAt (s : Text) (i : Nat) : Int := Int.bmod (s.getD i nul).toNat 256

/-- The line `fgets` reads into a buffer of `n + 1` bytes, and the text it leaves. -/
def takeLine : Nat → Text → Text × Text
  | _, [] => ([], [])
  | n, c :: s =>
      if n = 0 then ([], c :: s)
      else if c = '\n' then ([c], s)
      else (c :: (takeLine (n - 1) s).1, (takeLine (n - 1) s).2)

/-- `fgets(sLine, n, pIn)`; `none` at the end of the file. -/
def fgets (n : Nat) (pIn : Text) : Option (Text × Text) :=
  if pIn.isEmpty then none else some (takeLine (n - 1) pIn)

/-- `strstr(s, t)`: the part of `s` from the first `t` on. -/
def strstr (t : Text) : Text → Option Text
  | [] => if t.isEmpty then some [] else none
  | c :: s => if t.isPrefixOf (c :: s) then some (c :: s) else strstr t s

/-- `instr(s, t) > 0`: `t` occurs in `s`. -/
def occursIn (t : Text) : Text → Bool
  | [] => t.isEmpty
  | c :: s => t.isPrefixOf (c :: s) || occursIn t s

theorem occursIn_iff (t : Text) : ∀ s : Text, occursIn t s = true ↔ t <:+: s
  | [] => List.isEmpty_iff.trans List.infix_nil.symm
  | c :: s => by
      rw [occursIn, Bool.or_eq_true, List.isPrefixOf_iff_prefix, occursIn_iff t s,
        List.infix_cons_iff]

/-! ### Numbers in text -/

/-- The value of a string of digits. -/
def decimal (ds : Text) : Nat := Nat.ofDigitChars 10 ds 0

/-- The optional sign of a number: whether it is `-`, and what follows it. -/
def strtolSign : Text → Bool × Text
  | '-' :: s => (true, s)
  | '+' :: s => (false, s)
  | s => (false, s)

/-- `strtol(s, 0, 10)`, when it reads at least one digit. -/
def strtol (s : Text) : Option Int :=
  let neg := (strtolSign (s.dropWhile isspace)).1
  let ds := (strtolSign (s.dropWhile isspace)).2.takeWhile Char.isDigit
  if ds.isEmpty then none
  else if neg then some (max (-2 ^ 63) (-(decimal ds : Int)))
  else some (min (2 ^ 63 - 1) (decimal ds : Int))

/-- `atoi(s)`. -/
def atoi (s : Text) : Int := int32 ((strtol (cstr s)).getD 0)

/-- `sscanf(s, "%d", &n)`: what it stores, if it reads a number. -/
def sscanfInt (s : Text) : Option Int := (strtol (cstr s)).map int32

/-- What follows the number `strtol` reads. -/
def strtolRest (s : Text) : Text :=
  (strtolSign (s.dropWhile isspace)).2.dropWhile Char.isDigit

/-- A `%d` in the middle of a `sscanf` format: the number, and the text after it. -/
def scanInt (s : Text) : Option (Int × Text) := (strtol s).map fun n => (int32 n, strtolRest s)

theorem digit_range {c : Char} (h : c.isDigit) : 48 ≤ c.toNat ∧ c.toNat ≤ 57 := by
  simp only [Char.isDigit, Bool.and_eq_true, decide_eq_true_eq] at h
  exact h

theorem digit_ne_nul {c : Char} (h : c.isDigit) : (c != nul) = true := by
  rw [bne_iff_ne]
  rintro rfl
  exact absurd h (by decide)

theorem isspace_digit {c : Char} (h : c.isDigit) : isspace c = false := by
  have hr := digit_range h
  simp only [isspace, Bool.or_eq_false_iff, beq_eq_false_iff_ne]
  refine ⟨⟨⟨⟨⟨?_, ?_⟩, ?_⟩, ?_⟩, by omega⟩, by omega⟩ <;> rintro rfl <;> exact absurd h (by decide)

theorem strtolSign_digit {c : Char} (h : c.isDigit) (s : Text) :
    strtolSign (c :: s) = (false, c :: s) := by
  unfold strtolSign
  split
  · exact absurd h (by simp_all)
  · exact absurd h (by simp_all)
  · rfl

theorem takeWhile_all {p : Char → Bool} : ∀ {s : Text}, (∀ c ∈ s, p c) → s.takeWhile p = s
  | [], _ => rfl
  | c :: s, h => by
      rw [List.takeWhile_cons_of_pos (h c (by simp)), takeWhile_all fun d hd => h d (by simp [hd])]

/-- A string of digits is read as its value, cut off at the end of `long`. -/
theorem strtol_digits {ds : Text} (hne : ds ≠ []) (hd : ∀ c ∈ ds, c.isDigit) :
    strtol ds = some (min (2 ^ 63 - 1) (decimal ds : Int)) := by
  obtain ⟨d, ds', rfl⟩ := List.exists_cons_of_ne_nil hne
  have hd₀ : d.isDigit := hd d (by simp)
  unfold strtol
  rw [List.dropWhile_cons_of_neg (by simp [isspace_digit hd₀]), strtolSign_digit hd₀,
    takeWhile_all hd]
  rfl

theorem cstr_digits {ds : Text} (hd : ∀ c ∈ ds, c.isDigit) : cstr ds = ds :=
  takeWhile_all fun c hc => digit_ne_nul (hd c hc)

/-- A string of digits is read as its value, when an `int` holds it. -/
theorem sscanfInt_digits {ds : Text} (hne : ds ≠ []) (hd : ∀ c ∈ ds, c.isDigit)
    (hv : decimal ds < 2 ^ 31) : sscanfInt ds = some (decimal ds : Int) := by
  rw [sscanfInt, cstr_digits hd, strtol_digits hne hd, Option.map_some]
  have : min (2 ^ 63 - 1) (decimal ds : Int) = decimal ds := by omega
  rw [this, int32_of_range (by omega) (by omega)]

/-- `"%0wd"`. -/
def padded (w n : Nat) : Text := (Nat.toDigits 10 n).leftpad w '0'

theorem decimal_padded (w n : Nat) : decimal (padded w n) = n := by
  rw [decimal, padded, List.leftpad, Nat.ofDigitChars_append, Nat.ofDigitChars_replicate_zero,
    Nat.mul_zero, Nat.ofDigitChars_ten_toDigits]

/-- A padded number determines the number. -/
theorem padded_inj {w n w' n' : Nat} (h : padded w n = padded w' n') : n = n' := by
  rw [← decimal_padded w n, h, decimal_padded]

theorem padded_length {w n : Nat} (hw : 0 < w) (h : n < 10 ^ w) : (padded w n).length = w := by
  have := (Nat.length_toDigits_le_iff (b := 10) (n := n) (by decide) hw).mpr h
  rw [padded, List.leftpad, List.length_append, List.length_replicate]
  omega

theorem isDigit_of_mem_padded {w n : Nat} {c : Char} (h : c ∈ padded w n) : c.isDigit := by
  rw [padded, List.leftpad, List.mem_append] at h
  rcases h with h | h
  · rw [List.eq_of_mem_replicate h]; decide
  · exact Nat.isDigit_of_mem_toDigits (by decide) (by decide) h

end Support
