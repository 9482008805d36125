import Mathlib.Data.BitVec
import Edm.Support.CString

/-!
# Support — Inet

IPv4 addresses as 32-bit words in host order, and networks.

* `inetAton` reads an address of one to four numbers as the C library's `inet_aton` does, from a
  text of digits and dots: a number that begins with `0` is octal, and the last number fills the
  bytes that are left.
* `mem_network_iff`: the words between `a` with its low `k` bits cleared and `a` with them set are
  those whose other bits are those of `a`.
-/

namespace Support

/-! ### Networks -/

section Network
variable {w : Nat}

theorem and_shiftLeft_allOnes (a : BitVec w) (k : Nat) :
    a &&& (BitVec.allOnes w <<< k) = (a >>> k) <<< k := by
  ext i hi
  simp only [BitVec.getElem_and, BitVec.getElem_shiftLeft, BitVec.getElem_ushiftRight]
  by_cases hk : i < k
  · simp [hk]
  · simp [hk, show k + (i - k) = i by omega, BitVec.getLsbD_eq_getElem hi]

theorem or_ushiftRight_allOnes (a : BitVec w) {k : Nat} (hk : k ≤ w) :
    a ||| (BitVec.allOnes w >>> (w - k)) =
      ((a >>> k) <<< k) ||| (BitVec.allOnes w >>> (w - k)) := by
  ext i hi
  simp only [BitVec.getElem_or, BitVec.getElem_shiftLeft, BitVec.getElem_ushiftRight,
    BitVec.getLsbD_allOnes]
  by_cases h : i < k
  · simp [h, show w - k + i < w by omega]
  · simp [h, show k + (i - k) = i by omega, BitVec.getLsbD_eq_getElem hi]

theorem toNat_shift_shift (a : BitVec w) (k : Nat) :
    ((a >>> k) <<< k).toNat = a.toNat / 2 ^ k * 2 ^ k := by
  rw [BitVec.toNat_shiftLeft, BitVec.toNat_ushiftRight, Nat.shiftRight_eq_div_pow,
    Nat.shiftLeft_eq]
  exact Nat.mod_eq_of_lt (Nat.lt_of_le_of_lt (Nat.div_mul_le_self _ _) a.isLt)

theorem toNat_ushiftRight_allOnes {k : Nat} (hk : k ≤ w) :
    (BitVec.allOnes w >>> (w - k)).toNat = 2 ^ k - 1 := by
  have hp : 2 ^ w = 2 ^ k * 2 ^ (w - k) := by
    rw [← Nat.pow_add]
    congr 1
    omega
  have h₁ : 0 < 2 ^ (w - k) := Nat.two_pow_pos _
  have h₂ : 0 < 2 ^ k := Nat.two_pow_pos _
  have hle : 2 ^ (w - k) ≤ 2 ^ k * 2 ^ (w - k) := Nat.le_mul_of_pos_left _ h₂
  rw [BitVec.toNat_ushiftRight, BitVec.toNat_allOnes, Nat.shiftRight_eq_div_pow, hp,
    Nat.div_eq_iff h₁, Nat.sub_mul, Nat.one_mul]
  omega

/-- The last word of a network. -/
theorem toNat_broadcast (a : BitVec w) {k : Nat} (hk : k ≤ w) :
    (a ||| (BitVec.allOnes w >>> (w - k))).toNat = a.toNat / 2 ^ k * 2 ^ k + (2 ^ k - 1) := by
  have hlt : 2 ^ k - 1 < 2 ^ k := Nat.sub_lt (Nat.two_pow_pos _) Nat.one_pos
  rw [or_ushiftRight_allOnes a hk, BitVec.toNat_or, toNat_ushiftRight_allOnes hk,
    toNat_shift_shift, ← Nat.shiftLeft_eq, Nat.shiftLeft_add_eq_or_of_lt hlt]

/-- **A network is an interval.** -/
theorem mem_network_iff (a x : BitVec w) {k : Nat} (hk : k ≤ w) :
    (a &&& (BitVec.allOnes w <<< k) ≤ x ∧ x ≤ a ||| (BitVec.allOnes w >>> (w - k))) ↔
      x >>> k = a >>> k := by
  have hp : 0 < 2 ^ k := Nat.two_pow_pos _
  rw [BitVec.le_def, BitVec.le_def, and_shiftLeft_allOnes, toNat_shift_shift,
    toNat_broadcast a hk, ← BitVec.toNat_inj, BitVec.toNat_ushiftRight, BitVec.toNat_ushiftRight,
    Nat.shiftRight_eq_div_pow, Nat.shiftRight_eq_div_pow, Nat.div_eq_iff hp, Nat.add_sub_assoc hp]

end Network

/-! ### Addresses in text -/

/-- A number of an address: octal when it begins with `0`. -/
def inetPart (s : Text) : Option Nat :=
  if s.isEmpty || !s.all Char.isDigit then none
  else if s.head? = some '0' then
    if s.all fun c => c.toNat ≤ 55 then some (Nat.ofDigitChars 8 s 0) else none
  else some (decimal s)

/-- `inet_aton(s)`, with the address in host order. -/
def inetAton (s : Text) : Option (BitVec 32) :=
  match (s.splitOn '.').mapM inetPart with
  | some [a] => if a < 2 ^ 32 then some (.ofNat 32 a) else none
  | some [a, b] =>
      if a < 2 ^ 8 ∧ b < 2 ^ 24 then some (.ofNat 32 (a * 2 ^ 24 + b)) else none
  | some [a, b, c] =>
      if a < 2 ^ 8 ∧ b < 2 ^ 8 ∧ c < 2 ^ 16 then
        some (.ofNat 32 (a * 2 ^ 24 + b * 2 ^ 16 + c))
      else none
  | some [a, b, c, d] =>
      if a < 2 ^ 8 ∧ b < 2 ^ 8 ∧ c < 2 ^ 8 ∧ d < 2 ^ 8 then
        some (.ofNat 32 (a * 2 ^ 24 + b * 2 ^ 16 + c * 2 ^ 8 + d))
      else none
  | _ => none

example : inetAton "10.0.0.1".toList = some 0x0a000001#32 := by decide
example : inetAton "10.1".toList = some 0x0a000001#32 := by decide
example : inetAton "010.0.0.08".toList = none := by decide

theorem mem_splitOn {s : Text} {c : Char} (sep : Char) (h : c ∈ s) :
    c = sep ∨ ∃ p ∈ s.splitOn sep, c ∈ p := by
  induction s with
  | nil => cases h
  | cons d s ih =>
      rw [List.splitOn, List.splitOnP_cons_eq_if_modifyHead]
      obtain ⟨p, ps, hp⟩ := List.exists_cons_of_ne_nil (List.splitOnP_ne_nil (· == sep) s)
      rw [List.splitOn, hp] at ih
      rw [hp]
      by_cases hd : d == sep
      · rw [if_pos hd]
        rcases List.mem_cons.mp h with rfl | h
        · exact .inl (beq_iff_eq.mp hd)
        · exact (ih h).imp id fun ⟨q, hq, hc⟩ => ⟨q, List.mem_cons_of_mem _ hq, hc⟩
      · rw [if_neg hd, List.modifyHead_cons]
        rcases List.mem_cons.mp h with rfl | h
        · exact .inr ⟨_, List.mem_cons_self, List.mem_cons_self⟩
        · refine (ih h).imp id fun ⟨q, hq, hc⟩ => ?_
          rcases List.mem_cons.mp hq with rfl | hq
          · exact ⟨_, List.mem_cons_self, List.mem_cons_of_mem _ hc⟩
          · exact ⟨q, List.mem_cons_of_mem _ hq, hc⟩

theorem isSome_of_mapM {α β : Type*} {f : α → Option β} : ∀ {l : List α} {r : List β},
    l.mapM f = some r → ∀ x ∈ l, (f x).isSome
  | [], _, _, _, hx => by cases hx
  | y :: l, r, h, x, hx => by
      rw [List.mapM_cons, Option.bind_eq_bind, Option.bind_eq_some_iff] at h
      obtain ⟨b, hb, h⟩ := h
      rw [Option.bind_eq_bind, Option.bind_eq_some_iff] at h
      obtain ⟨bs, hbs, -⟩ := h
      rcases List.mem_cons.mp hx with rfl | hx
      · rw [hb]; rfl
      · exact isSome_of_mapM hbs x hx

theorem isDigit_of_inetPart {s : Text} (h : (inetPart s).isSome) : ∀ c ∈ s, c.isDigit := by
  unfold inetPart at h
  split at h
  · cases h
  · rename_i hs
    rw [Bool.or_eq_true, not_or, Bool.not_eq_true', Bool.not_eq_false] at hs
    exact List.all_eq_true.mp hs.2

/-- An address is written with digits and dots. -/
theorem mem_of_inetAton {s : Text} {a : BitVec 32} (h : inetAton s = some a) :
    ∀ c ∈ s, c.isDigit ∨ c = '.' := by
  intro c hc
  unfold inetAton at h
  cases hm : (s.splitOn '.').mapM inetPart with
  | none => rw [hm] at h; cases h
  | some l =>
      rcases mem_splitOn '.' hc with rfl | ⟨p, hp, hcp⟩
      · exact .inr rfl
      · exact .inl (isDigit_of_inetPart (isSome_of_mapM hm p hp) c hcp)

end Support
