import Mathlib
import Edm.Faceside.Fault
import Edm.Support.Base64

/-!
# Faceside — base 64

`ngx_encode_base64` and `ngx_decode_base64`, and the two functions that call them with a buffer.
The encoder gets two bytes for each byte of the string, counted in an `int`; the decoder gets as
many bytes as the string has.

* `ngxEncodeBase64_eq`, `dwDecodeBase64_base64`: what is written is the encoding with padding, and
  decoding gives the bytes back.
* `dwDecodeBase64_isOk`: the decoder does not leave its buffer.
* **The codec is right** but for a string of one byte, which needs four, and for the strings whose
  doubled length no `int` holds (`codec_iff`).
-/

namespace Edm.Faceside.Base64
open Support

/-! ### The encoder -/

/-- `basis64[n]` of the encoder. -/
def basis64 (n : Nat) : Char := digits64.getD n nul

/-- `ngx_encode_base64`: what it writes. -/
def ngxEncodeBase64 : Text → Text
  | a :: b :: c :: s =>
      basis64 (a.toNat >>> 2 &&& 0x3f)
        :: basis64 ((a.toNat &&& 3) <<< 4 ||| b.toNat >>> 4)
        :: basis64 ((b.toNat &&& 0x0f) <<< 2 ||| c.toNat >>> 6)
        :: basis64 (c.toNat &&& 0x3f) :: ngxEncodeBase64 s
  | [a, b] =>
      [basis64 (a.toNat >>> 2 &&& 0x3f), basis64 ((a.toNat &&& 3) <<< 4 ||| b.toNat >>> 4),
        basis64 ((b.toNat &&& 0x0f) <<< 2), '=']
  | [a] => [basis64 (a.toNat >>> 2 &&& 0x3f), basis64 ((a.toNat &&& 3) <<< 4), '=', '=']
  | [] => []

/-- `new(std::nothrow) u_char[size]`: a negative number is more than there is. -/
def newBytes (size : Int) : Option Nat := if size < 0 then none else some size.toNat

/-- `dw_encode_base64`. -/
def dwEncodeBase64 (dst : Text) : Except Fault Text :=
  if dst.length < 1 then .ok dst
  else match newBytes (int32 (int32 dst.length * 2)) with
    | none => .ok dst
    | some size => do
        require ((ngxEncodeBase64 dst).length ≤ size) .overrun
        return ngxEncodeBase64 dst

/-! ### The decoder -/

/-- `basis64` of the decoder; 77 is no digit. -/
def decodeTable : List Nat :=
  [77, 77, 77, 77, 77, 77, 77, 77, 77, 77, 77, 77, 77, 77, 77, 77,
   77, 77, 77, 77, 77, 77, 77, 77, 77, 77, 77, 77, 77, 77, 77, 77,
   77, 77, 77, 77, 77, 77, 77, 77, 77, 77, 77, 62, 77, 77, 77, 63,
   52, 53, 54, 55, 56, 57, 58, 59, 60, 61, 77, 77, 77, 77, 77, 77,
   77,  0,  1,  2,  3,  4,  5,  6,  7,  8,  9, 10, 11, 12, 13, 14,
   15, 16, 17, 18, 19, 20, 21, 22, 23, 24, 25, 77, 77, 77, 77, 77,
   77, 26, 27, 28, 29, 30, 31, 32, 33, 34, 35, 36, 37, 38, 39, 40,
   41, 42, 43, 44, 45, 46, 47, 48, 49, 50, 51, 77, 77, 77, 77, 77]

/-- `basis[c]`; the second half of the table is 77 as well. -/
def basis (c : Char) : Nat := decodeTable.getD c.toNat 77

/-- The first loop of `ngx_decode_base64_internal`: the number of digits in front of a `=`. -/
def digitsLen : Text → Option Nat
  | [] => some 0
  | c :: s => if c = '=' then some 0 else if basis c = 77 then none else (digitsLen s).map (· + 1)

/-- `(u_char) n`. -/
def uChar (n : Nat) : Char := Char.ofNat (n % 256)

/-- The second loop, over `len` digits: what it writes. -/
def decodeBytes : Text → Text
  | a :: b :: c :: d :: s =>
      uChar (basis a <<< 2 ||| basis b >>> 4) :: uChar (basis b <<< 4 ||| basis c >>> 2)
        :: uChar (basis c <<< 6 ||| basis d) :: decodeBytes s
  | [a, b, c] =>
      [uChar (basis a <<< 2 ||| basis b >>> 4), uChar (basis b <<< 4 ||| basis c >>> 2)]
  | [a, b] => [uChar (basis a <<< 2 ||| basis b >>> 4)]
  | _ => []

/-- `ngx_decode_base64`: what it writes; there is nothing where it returns -1. -/
def ngxDecodeBase64 (src : Text) : Option Text :=
  match digitsLen src with
  | none => none
  | some len => if len % 4 = 1 then none else some (decodeBytes (src.take len))

/-- `dw_decode_base64`: the value, and the string. -/
def dwDecodeBase64 (dst : Text) : Except Fault (Int × Text) :=
  if dst.length < 1 then .ok (-1, dst)
  else match ngxDecodeBase64 dst with
    | none => .ok (-1, dst)
    | some data => do
        require (data.length ≤ dst.length) .overrun
        return (0, data)

/-! ### What the encoder writes -/

theorem basis64_of_lt {n m : Nat} (h : n = m % 64) : basis64 n = digit64 m := by
  have hall : ∀ k < 64, digits64.getD k nul = digits64.getD k '=' := by decide +kernel
  rw [basis64, h, digit64]
  exact hall _ (Nat.mod_lt _ (by decide))

/-- Bits above other bits. -/
theorem shiftLeft_or {n k m : Nat} (h : k < 2 ^ m) : n <<< m ||| k = n * 2 ^ m + k := by
  rw [← Nat.shiftLeft_add_eq_or_of_lt h, Nat.shiftLeft_eq]

theorem and_mask (n m : Nat) : n &&& (2 ^ m - 1) = n % 2 ^ m := Nat.and_two_pow_sub_one_eq_mod n m

section Bits
variable {a b c : Nat}

theorem first_six (a : Nat) : a >>> 2 &&& 0x3f = a / 4 % 64 := by
  rw [Nat.shiftRight_eq_div_pow]
  exact and_mask _ 6

theorem second_six (hb : b < 256) : (a &&& 3) <<< 4 ||| b >>> 4 = a % 4 * 16 + b / 16 := by
  rw [Nat.shiftRight_eq_div_pow, shiftLeft_or (by omega)]
  exact congrArg (· * 16 + b / 16) (and_mask a 2)

theorem third_six (hc : c < 256) : (b &&& 0x0f) <<< 2 ||| c >>> 6 = b % 16 * 4 + c / 64 := by
  rw [Nat.shiftRight_eq_div_pow, shiftLeft_or (by omega)]
  exact congrArg (· * 4 + c / 64) (and_mask b 4)

theorem low_two (a : Nat) : (a &&& 3) <<< 4 = a % 4 * 16 := by
  rw [Nat.shiftLeft_eq]
  exact congrArg (· * 16) (and_mask a 2)

theorem low_four (b : Nat) : (b &&& 0x0f) <<< 2 = b % 16 * 4 := by
  rw [Nat.shiftLeft_eq]
  exact congrArg (· * 4) (and_mask b 4)

theorem fourth_six (c : Nat) : c &&& 0x3f = c % 64 := and_mask c 6

end Bits

theorem ngxEncodeBase64_eq {s : Text} (h : IsBytes s) : ngxEncodeBase64 s = base64 s := by
  induction s using triples_induction with
  | nil => rfl
  | one a =>
      have ha := h a (by simp)
      rw [ngxEncodeBase64, base64, first_six, low_two]
      refine List.cons_eq_cons.mpr ⟨basis64_of_lt (by omega), ?_⟩
      exact List.cons_eq_cons.mpr ⟨basis64_of_lt (by omega), rfl⟩
  | two a b =>
      have ha := h a (by simp)
      have hb := h b (by simp)
      rw [ngxEncodeBase64, base64, first_six, second_six hb, low_four]
      refine List.cons_eq_cons.mpr ⟨basis64_of_lt (by omega), ?_⟩
      refine List.cons_eq_cons.mpr ⟨basis64_of_lt (by omega), ?_⟩
      exact List.cons_eq_cons.mpr ⟨basis64_of_lt (by omega), rfl⟩
  | more a b c s ih =>
      have ha := h a (by simp)
      have hb := h b (by simp)
      have hc := h c (by simp)
      have hrest : IsBytes s := fun x hx => h x (by simp [hx])
      rw [ngxEncodeBase64, base64, ih hrest, first_six, second_six hb, third_six hc, fourth_six]
      refine List.cons_eq_cons.mpr ⟨basis64_of_lt (by omega), ?_⟩
      refine List.cons_eq_cons.mpr ⟨basis64_of_lt (by omega), ?_⟩
      refine List.cons_eq_cons.mpr ⟨basis64_of_lt (by omega), ?_⟩
      exact List.cons_eq_cons.mpr ⟨basis64_of_lt (by omega), rfl⟩

theorem length_ngxEncodeBase64 (s : Text) :
    (ngxEncodeBase64 s).length = (s.length + 2) / 3 * 4 := by
  induction s using triples_induction with
  | nil => rfl
  | one a => simp [ngxEncodeBase64]
  | two a b => simp [ngxEncodeBase64]
  | more a b c s ih =>
      simp only [ngxEncodeBase64, List.length_cons, ih]
      omega

/-- What holds of the digits, of `=` and of NUL holds of what is written, whatever the text. -/
theorem forall_ngxEncodeBase64 {P : Char → Prop} (h : ∀ c ∈ digits64, P c) (heq : P '=')
    (hnul : P nul) (s : Text) : ∀ c ∈ ngxEncodeBase64 s, P c := by
  have hbasis : ∀ n, P (basis64 n) := by
    intro n
    rw [basis64, List.getD_eq_getElem?_getD]
    cases hn : digits64[n]? with
    | none => exact hnul
    | some c => exact h c (List.mem_of_getElem? hn)
  induction s using triples_induction with
  | nil => exact nofun
  | one a => simp [ngxEncodeBase64, hbasis, heq]
  | two a b => simp [ngxEncodeBase64, hbasis, heq]
  | more a b c s ih => simpa [ngxEncodeBase64, hbasis] using ih

/-! ### What the decoder writes -/

theorem length_decodeBytes (s : Text) : (decodeBytes s).length ≤ s.length := by
  induction s using decodeBytes.induct with
  | case1 a b c d s ih =>
      rw [decodeBytes]
      simp only [List.length_cons]
      omega
  | case2 a b c => exact Nat.le_succ 2
  | case3 a b => exact Nat.le_succ 1
  | case4 s h₁ h₂ h₃ =>
      rw [decodeBytes.eq_4 s h₁ h₂ h₃]
      exact Nat.zero_le _

/-- The decoder does not leave its buffer. -/
theorem dwDecodeBase64_isOk (dst : Text) : (dwDecodeBase64 dst).isOk = true := by
  rw [dwDecodeBase64]
  split
  · rfl
  · split
    next => rfl
    next data h =>
      have hlen : data.length ≤ dst.length := by
        rw [ngxDecodeBase64] at h
        split at h
        next => cases h
        next len _ =>
          split at h
          next => cases h
          next =>
            cases h
            exact (length_decodeBytes _).trans (List.length_take_le' _ _)
      rw [require, if_pos hlen]
      rfl

theorem basis_digit64 (m : Nat) : basis (digit64 m) = m % 64 := by
  have hall : ∀ k < 64, basis (digits64.getD k '=') = k := by decide +kernel
  exact hall _ (Nat.mod_lt _ (by decide))

theorem uChar_eq {a : Char} {k : Nat} (h : k % 256 = a.toNat) : uChar k = a := by
  rw [uChar, h, Char.ofNat_toNat]

section Eights
variable {x y : Nat}

theorem first_eight (hy : y < 64) : x <<< 2 ||| y >>> 4 = x * 4 + y / 16 := by
  rw [Nat.shiftRight_eq_div_pow]
  exact shiftLeft_or (by omega)

theorem second_eight (hy : y < 64) : x <<< 4 ||| y >>> 2 = x * 16 + y / 4 := by
  rw [Nat.shiftRight_eq_div_pow]
  exact shiftLeft_or (by omega)

theorem third_eight (hy : y < 64) : x <<< 6 ||| y = x * 64 + y := shiftLeft_or hy

end Eights

/-- The digits of a code, which the decoder turns into the bytes again, and the padding. -/
theorem base64_parts {s : Text} (h : IsBytes s) : ∃ ds pad, base64 s = ds ++ pad ∧
    (∀ c ∈ ds, c ∈ digits64) ∧ (∀ c ∈ pad, c = '=') ∧ ds.length % 4 ≠ 1 ∧ decodeBytes ds = s := by
  have hdigit : ∀ m, digit64 m ∈ digits64 := forall_digit64 fun _ hc => hc
  have hlt : ∀ m, m % 64 < 64 := fun m => Nat.mod_lt m (by decide)
  induction s using triples_induction with
  | nil => exact ⟨[], [], rfl, by simp, by simp, by decide, rfl⟩
  | one a =>
      have ha := h a (by simp)
      refine ⟨[digit64 (a.toNat * 2 ^ 16 / 2 ^ 18), digit64 (a.toNat * 2 ^ 16 / 2 ^ 12)],
        ['=', '='], rfl, by simp [hdigit], by simp, by simp, ?_⟩
      rw [decodeBytes, basis_digit64, basis_digit64, first_eight (hlt _),
        uChar_eq (a := a) (by omega)]
  | two a b =>
      have ha := h a (by simp)
      have hb := h b (by simp)
      refine ⟨[digit64 ((a.toNat * 2 ^ 16 + b.toNat * 2 ^ 8) / 2 ^ 18),
        digit64 ((a.toNat * 2 ^ 16 + b.toNat * 2 ^ 8) / 2 ^ 12),
        digit64 ((a.toNat * 2 ^ 16 + b.toNat * 2 ^ 8) / 2 ^ 6)], ['='], rfl, by simp [hdigit],
        by simp, by simp, ?_⟩
      rw [decodeBytes, basis_digit64, basis_digit64, basis_digit64, first_eight (hlt _),
        second_eight (hlt _), uChar_eq (a := a) (by omega), uChar_eq (a := b) (by omega)]
  | more a b c s ih =>
      have ha := h a (by simp)
      have hb := h b (by simp)
      have hc := h c (by simp)
      obtain ⟨ds, pad, hds, hdigits, hpad, hlen, hdecode⟩ := ih fun x hx => h x (by simp [hx])
      obtain ⟨n, hn⟩ : ∃ n, n = a.toNat * 2 ^ 16 + b.toNat * 2 ^ 8 + c.toNat := ⟨_, rfl⟩
      refine ⟨digit64 (n / 2 ^ 18) :: digit64 (n / 2 ^ 12) :: digit64 (n / 2 ^ 6) :: digit64 n ::
        ds, pad, ?_, ?_, hpad, ?_, ?_⟩
      · rw [base64, hds, hn]
        rfl
      · simp only [List.forall_mem_cons]
        exact ⟨hdigit _, hdigit _, hdigit _, hdigit _, hdigits⟩
      · simp only [List.length_cons]
        omega
      · rw [decodeBytes, hdecode, basis_digit64, basis_digit64, basis_digit64, basis_digit64,
          first_eight (hlt _), second_eight (hlt _), third_eight (hlt _),
          uChar_eq (a := a) (by omega), uChar_eq (a := b) (by omega),
          uChar_eq (a := c) (by omega)]

theorem digitsLen_append {ds pad : Text} (hds : ∀ c ∈ ds, c ∈ digits64)
    (hpad : ∀ c ∈ pad, c = '=') : digitsLen (ds ++ pad) = some ds.length := by
  have hvalid : ∀ c ∈ digits64, c ≠ '=' ∧ basis c ≠ 77 := by decide +kernel
  induction ds with
  | nil =>
      cases pad with
      | nil => rfl
      | cons c pad =>
          rw [List.nil_append, digitsLen, if_pos (hpad c List.mem_cons_self)]
          rfl
  | cons c ds ih =>
      obtain ⟨hc, hrest⟩ := List.forall_mem_cons.mp hds
      rw [List.cons_append, digitsLen, if_neg (hvalid c hc).1, if_neg (hvalid c hc).2, ih hrest]
      rfl

/-- Decoding a code gives the bytes back. -/
theorem dwDecodeBase64_base64 {s : Text} (h : IsBytes s) (hne : s ≠ []) :
    dwDecodeBase64 (base64 s) = .ok (0, s) := by
  obtain ⟨ds, pad, hds, hdigits, hpad, hlen, hdecode⟩ := base64_parts h
  have hpos : 0 < s.length := List.length_pos_iff.mpr hne
  have hcode : ngxDecodeBase64 (base64 s) = some s := by
    rw [ngxDecodeBase64, hds, digitsLen_append hdigits hpad]
    dsimp only
    rw [if_neg hlen, List.take_left, hdecode]
  have hroom : s.length ≤ (base64 s).length := by
    rw [length_base64]
    omega
  rw [dwDecodeBase64, if_neg (by omega), hcode]
  dsimp only
  rw [require, if_pos hroom]
  rfl

/-! ### The codec -/

/-- Encoding and decoding of `s`. -/
structure Codec (s : Text) : Prop where
  encodes : dwEncodeBase64 s = .ok (base64 s)
  inside : (dwDecodeBase64 s).isOk = true
  restores : s ≠ [] → (dwEncodeBase64 s >>= dwDecodeBase64) = .ok (0, s)

/-- The doubled length of a string, in an `int`. -/
theorem int32_double (n : Nat) : int32 (int32 n * 2) = int32 (n * 2) := Int.bmod_mul_bmod ..

/-- Up to that length, what is written is the code. -/
theorem dwEncodeBase64_eq {s : Text} (h : IsBytes s) (hone : s.length ≠ 1)
    (hlen : s.length < 2 ^ 30) : dwEncodeBase64 s = .ok (base64 s) := by
  have hsize : newBytes (int32 (int32 s.length * 2)) = some (s.length * 2) := by
    rw [int32_double, int32_of_range (by omega) (by omega), newBytes, if_neg (by omega)]
    exact congrArg some (by omega)
  rw [dwEncodeBase64, hsize, ngxEncodeBase64_eq h]
  split
  next hempty =>
    obtain rfl : s = [] := List.length_eq_zero_iff.mp (by omega)
    rfl
  next hempty =>
    dsimp only
    rw [length_base64, require, if_pos (by omega)]
    rfl

/-- A string of one byte has no room for its code, and one that is too long none at all or not
enough. -/
theorem dwEncodeBase64_ne {s : Text} (h : IsBytes s) (hbad : s.length = 1 ∨ 2 ^ 30 ≤ s.length) :
    dwEncodeBase64 s ≠ .ok (base64 s) := by
  have hlen := length_base64 s
  rw [dwEncodeBase64, if_neg (by omega), int32_double, newBytes]
  split
  next hnone =>
    -- The string stays as it is, and its code is longer.
    intro hok
    have := congrArg List.length (Except.ok.inj hok)
    omega
  next size hsize =>
    have hupper := int32_upper (s.length * 2)
    have hroom : ¬ (base64 s).length ≤ size := by
      split at hsize
      next => cases hsize
      next hnonneg =>
        have hs := Option.some.inj hsize
        have hmod : (2 ^ 32 : Int) ∣ s.length * 2 - int32 (s.length * 2) := Int.dvd_self_sub_bmod
        rw [hlen]
        omega
    rw [ngxEncodeBase64_eq h, require, if_neg hroom]
    nofun

/-- **The codec is right** exactly for the strings that have not one byte, and whose doubled
length an `int` holds. -/
theorem codec_iff {s : Text} (h : IsBytes s) : Codec s ↔ s.length ≠ 1 ∧ s.length < 2 ^ 30 := by
  constructor
  · intro hc
    constructor
    · exact fun hone => dwEncodeBase64_ne h (.inl hone) hc.encodes
    · exact Nat.lt_of_not_le fun hlong => dwEncodeBase64_ne h (.inr hlong) hc.encodes
  · rintro ⟨h₁, h₂⟩
    have hok := dwEncodeBase64_eq h h₁ h₂
    refine ⟨hok, dwDecodeBase64_isOk s, fun hne => ?_⟩
    rw [hok]
    exact dwDecodeBase64_base64 h hne

theorem codec_edm : Codec "edm".toList ↔ ("edm".toList.length ≠ 1 ∧ "edm".toList.length < 2 ^ 30) :=
  codec_iff (by decide)

/-- A single byte: four are written into a buffer of two. -/
theorem not_codec : ¬ ∀ s, IsBytes s → Codec s := fun h => by
  have hcodec := h ['a'] (by decide)
  exact absurd ((codec_iff (by decide)).mp hcodec).1 (by decide)

end Edm.Faceside.Base64
