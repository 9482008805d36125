import Edm.Support.Bytes

/-!
# Support — Base64

The base 64 encoding with padding: three bytes are 24 bits, and these are four digits of six bits,
the highest first.  The last group may have one or two bytes; its bits are filled up with zeros, and
its digits with `=`.
-/

namespace Support

/-- The 64 digits. -/
def digits64 : Text := "ABCDEFGHIJKLMNOPQRSTUVWXYZabcdefghijklmnopqrstuvwxyz0123456789+/".toList

/-- The digit for six bits. -/
def digit64 (n : Nat) : Char := digits64.getD (n % 64) '='

/-- The encoding of a text of bytes. -/
def base64 : Text → Text
  | a :: b :: c :: s =>
      let n := a.toNat * 2 ^ 16 + b.toNat * 2 ^ 8 + c.toNat
      digit64 (n / 2 ^ 18) :: digit64 (n / 2 ^ 12) :: digit64 (n / 2 ^ 6) :: digit64 n :: base64 s
  | [a, b] =>
      let n := a.toNat * 2 ^ 16 + b.toNat * 2 ^ 8
      [digit64 (n / 2 ^ 18), digit64 (n / 2 ^ 12), digit64 (n / 2 ^ 6), '=']
  | [a] =>
      let n := a.toNat * 2 ^ 16
      [digit64 (n / 2 ^ 18), digit64 (n / 2 ^ 12), '=', '=']
  | [] => []

/-- The texts of bytes, three at a time. -/
@[elab_as_elim]
theorem triples_induction {motive : Text → Prop} (nil : motive []) (one : ∀ a, motive [a])
    (two : ∀ a b, motive [a, b]) (more : ∀ a b c s, motive s → motive (a :: b :: c :: s)) :
    ∀ s, motive s
  | [] => nil
  | [a] => one a
  | [a, b] => two a b
  | a :: b :: c :: s => more a b c s (triples_induction nil one two more s)

/-! ### The digits -/

/-- What holds of the digits holds of each of them. -/
theorem forall_digit64 {P : Char → Prop} (h : ∀ c ∈ digits64, P c) (n : Nat) : P (digit64 n) := by
  have hlt : n % 64 < digits64.length := Nat.mod_lt _ (by decide)
  rw [digit64, List.getD_eq_getElem?_getD, List.getElem?_eq_getElem hlt, Option.getD_some]
  exact h _ (List.getElem_mem hlt)

/-- What holds of the digits and of `=` holds of what is written. -/
theorem forall_base64 {P : Char → Prop} (h : ∀ c ∈ digits64, P c) (heq : P '=') (s : Text) :
    ∀ c ∈ base64 s, P c := by
  induction s using triples_induction with
  | nil => exact fun c hc => absurd hc List.not_mem_nil
  | one a => simp [base64, forall_digit64 h, heq]
  | two a b => simp [base64, forall_digit64 h, heq]
  | more a b c s ih => simpa [base64, forall_digit64 h] using ih

theorem length_base64 (s : Text) : (base64 s).length = (s.length + 2) / 3 * 4 := by
  induction s using triples_induction with
  | nil => rfl
  | one a => simp [base64]
  | two a b => simp [base64]
  | more a b c s ih =>
      simp only [base64, List.length_cons, ih]
      omega

end Support
