import Edm.Support.Split

/-!
# Support — Decimal

`%d`: how an `int` is printed, and that it is read back (`scanInt_showInt`).
-/

namespace Support

/-- `%d`. -/
def showInt (z : Int) : Text :=
  if z < 0 then '-' :: Nat.toDigits 10 z.natAbs else Nat.toDigits 10 z.natAbs

theorem showInt_mem {z : Int} {c : Char} (h : c ∈ showInt z) : c.isDigit = true ∨ c = '-' := by
  rw [showInt] at h
  split at h
  · rcases List.mem_cons.mp h with rfl | h
    · exact .inr rfl
    · exact .inl (Nat.isDigit_of_mem_toDigits (by decide) (by decide) h)
  · exact .inl (Nat.isDigit_of_mem_toDigits (by decide) (by decide) h)

/-- The numbers of an `int`. -/
def IsInt (z : Int) : Prop := -2 ^ 31 ≤ z ∧ z < 2 ^ 31

instance (z : Int) : Decidable (IsInt z) := inferInstanceAs (Decidable (_ ∧ _))

theorem isInt_int32 (z : Int) : IsInt (int32 z) := ⟨int32_lower z, int32_upper z⟩

theorem length_showInt {z : Int} (h : IsInt z) : (showInt z).length ≤ 11 := by
  have hlen : (Nat.toDigits 10 z.natAbs).length ≤ 10 :=
    (Nat.length_toDigits_le_iff (by decide) (by decide)).mpr (by
      have h₁ := h.1
      have h₂ := h.2
      omega)
  rw [showInt]
  split
  · rw [List.length_cons]
    omega
  · omega

/-- A character that is not printed by `%d`. -/
theorem not_mem_showInt {c : Char} (hd : c.isDigit = false) (hm : c ≠ '-') (z : Int) :
    c ∉ showInt z := by
  intro h
  rcases showInt_mem h with h | h
  · rw [hd] at h
    cases h
  · exact hm h

theorem isDigit_toDigits (n : Nat) : ∀ c ∈ Nat.toDigits 10 n, c.isDigit = true :=
  fun _ hc => Nat.isDigit_of_mem_toDigits (by decide) (by decide) hc

theorem toDigits_ne_nil (n : Nat) : Nat.toDigits 10 n ≠ [] := by
  have h : 0 < (Nat.toDigits 10 n).length := Nat.length_toDigits_pos
  exact List.ne_nil_of_length_pos h

theorem decimal_toDigits (n : Nat) : decimal (Nat.toDigits 10 n) = n :=
  Nat.ofDigitChars_ten_toDigits

theorem ofDigitChars_lt (init : Nat) {ds : Text} (hd : ∀ c ∈ ds, c.isDigit = true) :
    Nat.ofDigitChars 10 ds init < (init + 1) * 10 ^ ds.length := by
  induction ds generalizing init with
  | nil => simp
  | cons c ds ih =>
      obtain ⟨hc, hd⟩ := List.forall_mem_cons.mp hd
      have hc := digit_range hc
      have hlt := ih (10 * init + (c.toNat - 48)) hd
      have hle : (10 * init + (c.toNat - 48) + 1) * 10 ^ ds.length
          ≤ (init + 1) * 10 * 10 ^ ds.length := Nat.mul_le_mul_right _ (by omega)
      rw [Nat.ofDigitChars_cons, List.length_cons, Nat.pow_succ, Nat.mul_comm (10 ^ ds.length),
        ← Nat.mul_assoc]
      exact Nat.lt_of_lt_of_le hlt hle

theorem le_ofDigitChars (init : Nat) (ds : Text) : init ≤ Nat.ofDigitChars 10 ds init := by
  induction ds generalizing init with
  | nil => exact Nat.le_refl init
  | cons c ds ih =>
      rw [Nat.ofDigitChars_cons]
      exact Nat.le_trans (by omega) (ih _)

theorem decimal_lt {ds : Text} (hd : ∀ c ∈ ds, c.isDigit = true) :
    decimal ds < 10 ^ ds.length := by
  have hlt := ofDigitChars_lt 0 hd
  rwa [Nat.zero_add, Nat.one_mul] at hlt

/-- What `strtol` reads of digits, when no digit follows. -/
theorem takeWhile_digits {ds rest : Text} (hd : ∀ c ∈ ds, c.isDigit = true)
    (hrest : ∀ c ∈ rest.head?, c.isDigit = false) :
    (ds ++ rest).takeWhile Char.isDigit = ds ∧ (ds ++ rest).dropWhile Char.isDigit = rest := by
  have hcut : rest.takeWhile Char.isDigit = [] ∧ rest.dropWhile Char.isDigit = rest := by
    cases rest with
    | nil => exact ⟨rfl, rfl⟩
    | cons c rest =>
        have hc := hrest c rfl
        exact ⟨List.takeWhile_cons_of_neg (by simp [hc]), List.dropWhile_cons_of_neg (by simp [hc])⟩
  constructor
  · rw [List.takeWhile_append_of_pos hd, hcut.1, List.append_nil]
  · rw [List.dropWhile_append_of_pos hd, hcut.2]

/-- The sign and the digits of a printed `int`. -/
theorem strtolSign_showInt (z : Int) (rest : Text) :
    strtolSign ((showInt z ++ rest).dropWhile isspace)
      = (decide (z < 0), Nat.toDigits 10 z.natAbs ++ rest) := by
  rw [showInt]
  split
  next h =>
    rw [List.cons_append, List.dropWhile_cons_of_neg (by decide), strtolSign, decide_eq_true h]
  next h =>
    have hdigits := isDigit_toDigits z.natAbs
    obtain ⟨d, ds, hds⟩ := List.exists_cons_of_ne_nil (toDigits_ne_nil z.natAbs)
    rw [hds] at hdigits ⊢
    have hd := hdigits d List.mem_cons_self
    rw [List.cons_append, List.dropWhile_cons_of_neg (by simp [isspace_digit hd]),
      strtolSign_digit hd, decide_eq_false h]

/-- A printed `int` is read back. -/
theorem scanInt_showInt {z : Int} (h : IsInt z) {rest : Text}
    (hrest : ∀ c ∈ rest.head?, c.isDigit = false) :
    scanInt (showInt z ++ rest) = some (z, rest) := by
  have hcut := takeWhile_digits (isDigit_toDigits z.natAbs) hrest
  have hval : strtol (showInt z ++ rest) = some z := by
    rw [strtol, strtolSign_showInt]
    simp only [hcut.1, decimal_toDigits, List.isEmpty_eq_false_iff.mpr (toDigits_ne_nil _),
      Bool.false_eq_true, if_false]
    obtain ⟨h₁, h₂⟩ := h
    split
    next hneg =>
      rw [decide_eq_true_eq] at hneg
      exact congrArg some (by omega)
    next hneg =>
      rw [decide_eq_true_eq] at hneg
      exact congrArg some (by omega)
  have hrest' : strtolRest (showInt z ++ rest) = rest := by
    rw [strtolRest, strtolSign_showInt]
    exact hcut.2
  rw [scanInt, hval, Option.map_some, int32_of_range h.1 h.2, hrest']

theorem atoi_showInt {z : Int} (h : IsInt z) : atoi (showInt z) = z := by
  have hnul : nul ∉ showInt z := not_mem_showInt (by decide) (by decide) z
  have hscan : scanInt (showInt z ++ []) = some (z, []) := scanInt_showInt h (by simp)
  rw [List.append_nil] at hscan
  obtain ⟨n, hn, hval⟩ := Option.map_eq_some_iff.mp hscan
  rw [atoi, cstr_self hnul, hn]
  exact (Prod.mk.inj hval).1

end Support
