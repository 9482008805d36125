import Edm.Base.RangeStorage
import Edm.Base.StringTokenizer
import Edm.Support.Decimal
import Edm.Support.Inet

/-!
# Network — IPRangeMap

`IPRangeMap::loadIPRange` (`cpplib/network/iprangemap.h`): items behind one another, each parsed by
`parseIPRange` into the range that is stored for it.

* `Item` are the forms of an item; `Item.parse` is what the parser makes of one.
* The masks of `setSubnetMask` are shifted by 32 for the lengths 0 and 32, and a shift by 32 does
  nothing: `a/0` and `a/32` are the addresses from `a` on (`Item.Reaches`).
* Some texts of no form are parsed too: a number of a quad is an `int` that wraps round, and
  `stringToInt` stops at what is no digit.
-/

namespace Edm.Network
open Support Base

/-! ### Numbers -/

/-- `StringFunc::toupper`, for the letters. -/
def toupper (ch : Int) : Int := if 97 ≤ ch ∧ ch ≤ 122 then ch - 32 else ch

/-- `StringFunc::convertHexNumberToDec`. -/
def convertHexNumberToDec (ch : Char) : Int :=
  if ch.isDigit then ch.toNat - 48
  else if ch.isAlphanum then toupper (ch.toNat + 10) - 65
  else -1

/-- The loop of `stringToInt`, for a `size_t`. -/
def stringToIntFrom (nResult : Nat) : Text → Nat
  | [] => nResult
  | ch :: s =>
      let nDecNumber := convertHexNumberToDec ch
      if nDecNumber < 0 ∨ 10 ≤ nDecNumber % 256 then nResult
      else stringToIntFrom ((nResult * 10 + (nDecNumber % 256).toNat) % 2 ^ 64) s

/-- `StringFunc::stringToInt<size_t>`. -/
def stringToInt (s : Text) : Nat :=
  match s with
  | '-' :: s => (2 ^ 64 - stringToIntFrom 0 s) % 2 ^ 64
  | '+' :: s => stringToIntFrom 0 s
  | s => stringToIntFrom 0 s

/-- The loop of `GlobalFunc::getIPV4Integer`. -/
def getIPV4From (nIPInteger : BitVec 32) (nPartCount nPartNumber : Int) : Text → Option (BitVec 32)
  | [] =>
      if nPartCount = 4 ∧ 0 ≤ nPartNumber ∧ nPartNumber ≤ 255 then
        some ((nIPInteger <<< 8) + BitVec.ofInt 32 nPartNumber)
      else none
  | ch :: s =>
      if ch.isDigit then
        if nPartNumber = 0 then none
        else
          let nDigit : Int := ch.toNat - 48
          getIPV4From nIPInteger nPartCount
            (if nPartNumber = -1 then nDigit else int32 (nPartNumber * 10 + nDigit)) s
      else if ch = '.' then
        if nPartNumber < 0 ∨ 255 < nPartNumber then none
        else
          getIPV4From ((nIPInteger <<< 8) + BitVec.ofInt 32 nPartNumber) (int32 (nPartCount + 1))
            (-1) s
      else none

/-- `GlobalFunc::getIPV4Integer`, which `setIPAddress` calls with a C string. -/
def getIPV4Integer (lpszHostAddr : Text) : Option (BitVec 32) :=
  let hostAddr := cstr lpszHostAddr
  if hostAddr = [] ∨ hostAddr.head? = some '.' then none else getIPV4From 0 1 (-1) hostAddr

/-- `setSubnetMask`; a shift takes the low five bits of its count. -/
def setSubnetMask (nIP : BitVec 32) (nBits : Nat) (bSetSubnetTo1 : Bool) : BitVec 32 :=
  let nBits := if 32 < nBits then 32 else nBits
  if bSetSubnetTo1 then nIP ||| (BitVec.allOnes 32 >>> (nBits % 32))
  else nIP &&& (BitVec.allOnes 32 <<< ((32 - nBits) % 32))

theorem setSubnetMask_le (nIP : BitVec 32) (nBits : Nat) :
    setSubnetMask nIP nBits false ≤ setSubnetMask nIP nBits true := by
  have hand : setSubnetMask nIP nBits false ≤ nIP := by
    rw [BitVec.le_def]
    exact Nat.and_le_left
  have hor : nIP ≤ setSubnetMask nIP nBits true := by
    rw [BitVec.le_def]
    exact Nat.left_le_or
  exact BitVec.le_trans hand hor

/-- `IPRangeParser::parseIPRange`; `none`: false is returned. -/
def parseIPRange (strOneRange : Text) : Option (KeyRange (BitVec 32)) :=
  if '-' ∈ strOneRange then
    let strPart := cut '-' strOneRange
    (getIPV4Integer (removeSpace strPart.1)).bind fun ipBegin =>
      (getIPV4Integer (removeSpace strPart.2)).bind fun ipEnd =>
        if h : ipEnd < ipBegin then none else some ⟨ipBegin, ipEnd, BitVec.not_lt.mp h⟩
  else if '/' ∈ strOneRange then
    let strPart := cut '/' strOneRange
    let nBits := stringToInt (removeSpace strPart.2)
    (getIPV4Integer (removeSpace strPart.1)).bind fun ip =>
      if 32 < nBits then none
      else some
        ⟨setSubnetMask ip nBits false, setSubnetMask ip nBits true, setSubnetMask_le ip nBits⟩
  else (getIPV4Integer (removeSpace strOneRange)).map fun ip => ⟨ip, ip, BitVec.le_refl ip⟩

/-! ### Lists -/

/-- The keys of the map are the addresses as numbers. -/
def keyRange (r : KeyRange (BitVec 32)) : KeyRange (Fin (2 ^ 32)) :=
  ⟨r.begin.toFin, r.last.toFin, r.le⟩

/-- The loop of `loadIPRange`. -/
def loadLoop (m : RangeDataMap (Fin (2 ^ 32)) Bool) :
    List Text → Bool × RangeDataMap (Fin (2 ^ 32)) Bool
  | [] => (true, m)
  | strOneRange :: tokens =>
      if (removeSpace strOneRange).isEmpty then loadLoop m tokens
      else match parseIPRange (removeSpace strOneRange) with
        | none => (false, m)
        | some r => loadLoop (m.apply (.updateOrInsert (keyRange r) true)) tokens

/-- What stands behind an optional `!`. -/
def behindNegative : Text → Text
  | '!' :: s => s
  | s => s

/-- `IPRangeMap::loadIPRange`: what it returns, and the map. -/
def loadIPRange (strIPRange : Text) : Bool × RangeDataMap (Fin (2 ^ 32)) Bool :=
  loadLoop ⟨strIPRange.head? == some '!', .empty⟩ (tokens ";,".toList (behindNegative strIPRange))

/-- `findInRange`. -/
def findInRange (m : RangeDataMap (Fin (2 ^ 32)) Bool) (x : BitVec 32) : Bool :=
  (m.findInRange x.toFin).1

/-! ### The forms of an item -/

/-- A number of a dotted quad. -/
def quadPart (a : BitVec 32) (k : Nat) : Nat := a.toNat / 256 ^ k % 256

/-- The dotted quad of an address. -/
def dotted (a : BitVec 32) : Text :=
  Nat.toDigits 10 (quadPart a 3) ++ '.' :: (Nat.toDigits 10 (quadPart a 2) ++
    '.' :: (Nat.toDigits 10 (quadPart a 1) ++ '.' :: Nat.toDigits 10 (quadPart a 0)))

/-- The number of bits behind a `/`. -/
structure Bits where
  text : Text
  ne_nil : text ≠ []
  digits : ∀ c ∈ text, c.isDigit = true
  le : decimal text ≤ 32

/-- An item: an address, the addresses from one to another, or a network. -/
inductive Item where
  | single (a : BitVec 32)
  | pair (a b : BitVec 32) (h : a ≤ b)
  | network (a : BitVec 32) (n : Bits)

namespace Item

def text : Item → Text
  | single a => dotted a
  | pair a b _ => dotted a ++ '-' :: dotted b
  | network a n => dotted a ++ '/' :: n.text

/-- What an item means. -/
def Covers : Item → BitVec 32 → Prop
  | single a, x => x = a
  | pair a b _, x => a ≤ x ∧ x ≤ b
  | network a n, x => x >>> (32 - decimal n.text) = a >>> (32 - decimal n.text)

/-- What is stored for it: a network of length 0 or 32 are the addresses from `a` on. -/
def Reaches : Item → BitVec 32 → Prop
  | single a, x => x = a
  | pair a b _, x => a ≤ x ∧ x ≤ b
  | network a n, x =>
      if decimal n.text = 0 ∨ decimal n.text = 32 then a ≤ x
      else x >>> (32 - decimal n.text) = a >>> (32 - decimal n.text)

end Item

/-! ### Parsing an item -/

theorem getIPV4From_digits {ds : Text} (hd : ∀ c ∈ ds, c.isDigit = true) {m : Nat} (hm : 0 < m)
    (h : Nat.ofDigitChars 10 ds m < 2 ^ 31) (ip : BitVec 32) (count : Int) (s : Text) :
    getIPV4From ip count m (ds ++ s) = getIPV4From ip count (Nat.ofDigitChars 10 ds m : Nat) s := by
  induction ds generalizing m with
  | nil => rfl
  | cons c ds ih =>
      obtain ⟨hc, hd⟩ := List.forall_mem_cons.mp hd
      have hzero : '0'.toNat = 48 := rfl
      rw [Nat.ofDigitChars_cons, hzero] at h ⊢
      have hle := le_ofDigitChars (10 * m + (c.toNat - 48)) ds
      have hrange := digit_range hc
      have hvalue : int32 ((m : Int) * 10 + ((c.toNat : Int) - 48)) =
          ((10 * m + (c.toNat - 48) : Nat) : Int) := by
        rw [int32_of_range (by omega) (by omega)]
        omega
      rw [List.cons_append, getIPV4From, if_pos hc, if_neg (by omega)]
      dsimp only
      rw [if_neg (by omega), hvalue]
      exact ih hd (by omega) h

/-- A number is written without a leading zero. -/
theorem toDigits_head (n : Nat) : (Nat.toDigits 10 n).head? = some '0' → n = 0 := by
  induction n using Nat.strongRecOn with
  | ind n ih =>
      intro h
      have hdigit : ∀ n < 10, [n.digitChar].head? = some '0' → n = 0 := by decide
      rcases Nat.lt_or_ge n 10 with hn | hn
      · rw [Nat.toDigits_of_lt_base hn] at h
        exact hdigit n hn h
      · rw [Nat.toDigits_of_base_le (by decide) hn,
          List.head?_append_of_ne_nil _ (toDigits_ne_nil _)] at h
        have hzero := ih (n / 10) (by omega) h
        omega

theorem getIPV4From_number {n : Nat} (hn : n < 256) (ip : BitVec 32) (count : Int) (s : Text) :
    getIPV4From ip count (-1) (Nat.toDigits 10 n ++ s) = getIPV4From ip count n s := by
  have hdigits := isDigit_toDigits n
  have hhead := toDigits_head n
  have hvalue := decimal_toDigits n
  obtain ⟨d, ds, hds⟩ := List.exists_cons_of_ne_nil (toDigits_ne_nil n)
  rw [hds] at hdigits hhead hvalue ⊢
  obtain ⟨hd, hds'⟩ := List.forall_mem_cons.mp hdigits
  have hrange := digit_range hd
  have h48 : '0'.toNat = 48 := rfl
  rw [decimal, Nat.ofDigitChars_cons, Nat.mul_zero, Nat.zero_add, h48] at hvalue
  rw [List.cons_append, getIPV4From, if_pos hd, if_neg (by decide)]
  dsimp only
  rw [if_pos rfl]
  have hcast : (d.toNat : Int) - 48 = ((d.toNat - 48 : Nat) : Int) := by omega
  rw [hcast]
  by_cases hzero : n = 0
  · subst hzero
    have hone : Nat.toDigits 10 0 = ['0'] := by decide
    rw [hone] at hds
    obtain ⟨rfl, rfl⟩ := List.cons.inj hds
    rfl
  · have hpos : 0 < d.toNat - 48 := by
      by_contra hnot
      have hd0 : d = '0' := by
        rw [← Char.ofNat_toNat d, show d.toNat = 48 by omega]
      exact hzero (hhead (congrArg some hd0))
    rw [getIPV4From_digits hds' hpos (by rw [hvalue]; omega), hvalue]

theorem getIPV4From_dot {n : Nat} (hn : n < 256) (ip : BitVec 32) (count : Int) (s : Text) :
    getIPV4From ip count (-1) (Nat.toDigits 10 n ++ '.' :: s) =
      getIPV4From ((ip <<< 8) + BitVec.ofNat 32 n) (int32 (count + 1)) (-1) s := by
  rw [getIPV4From_number hn, getIPV4From, if_neg (by decide), if_pos rfl, if_neg (by omega),
    BitVec.ofInt_natCast]

theorem quadPart_lt (a : BitVec 32) (k : Nat) : quadPart a k < 256 := Nat.mod_lt _ (by decide)

/-- The numbers of an address, put together. -/
theorem quadParts (a : BitVec 32) : ((((((0#32 <<< 8) + BitVec.ofNat 32 (quadPart a 3)) <<< 8) +
    BitVec.ofNat 32 (quadPart a 2)) <<< 8) + BitVec.ofNat 32 (quadPart a 1)) <<< 8 +
      BitVec.ofNat 32 (quadPart a 0) = a := by
  have ha := a.isLt
  apply BitVec.eq_of_toNat_eq
  simp only [BitVec.toNat_add, BitVec.toNat_shiftLeft, BitVec.toNat_ofNat, Nat.shiftLeft_eq,
    quadPart]
  omega

theorem dotted_mem {a : BitVec 32} {c : Char} (hc : c ∈ dotted a) : c.isDigit = true ∨ c = '.' := by
  simp only [dotted, List.mem_append, List.mem_cons] at hc
  rcases hc with hc | rfl | hc | rfl | hc | rfl | hc
  · exact .inl (isDigit_toDigits _ c hc)
  · exact .inr rfl
  · exact .inl (isDigit_toDigits _ c hc)
  · exact .inr rfl
  · exact .inl (isDigit_toDigits _ c hc)
  · exact .inr rfl
  · exact .inl (isDigit_toDigits _ c hc)

theorem not_mem_dotted {a : BitVec 32} {c : Char} (hd : c.isDigit = false) (hdot : c ≠ '.') :
    c ∉ dotted a := fun hc => (dotted_mem hc).elim (fun h => by rw [hd] at h; cases h) hdot

theorem getIPV4Integer_dotted (a : BitVec 32) : getIPV4Integer (dotted a) = some a := by
  have hfirst : ¬ (dotted a = [] ∨ (dotted a).head? = some '.') := by
    obtain ⟨d, ds, hds⟩ := List.exists_cons_of_ne_nil (toDigits_ne_nil (quadPart a 3))
    have hd := isDigit_toDigits (quadPart a 3) d (hds ▸ List.mem_cons_self)
    rw [dotted, hds]
    rintro (h | h)
    · cases h
    · obtain rfl : d = '.' := Option.some.inj h
      exact absurd hd (by decide)
  rw [getIPV4Integer, cstr_self (not_mem_dotted (by decide) (by decide)), if_neg hfirst, dotted,
    getIPV4From_dot (quadPart_lt a 3), getIPV4From_dot (quadPart_lt a 2),
    getIPV4From_dot (quadPart_lt a 1), ← List.append_nil (Nat.toDigits 10 (quadPart a 0)),
    getIPV4From_number (quadPart_lt a 0), getIPV4From]
  have h0 := quadPart_lt a 0
  rw [if_pos ⟨by decide, by omega, by omega⟩, BitVec.ofInt_natCast]
  exact congrArg some (quadParts a)

theorem stringToIntFrom_digits {ds : Text} (hd : ∀ c ∈ ds, c.isDigit = true) {m : Nat}
    (h : Nat.ofDigitChars 10 ds m < 2 ^ 64) :
    stringToIntFrom m ds = Nat.ofDigitChars 10 ds m := by
  induction ds generalizing m with
  | nil => rfl
  | cons c ds ih =>
      obtain ⟨hc, hd⟩ := List.forall_mem_cons.mp hd
      have h48 : '0'.toNat = 48 := rfl
      rw [Nat.ofDigitChars_cons, h48] at h ⊢
      have hle := le_ofDigitChars (10 * m + (c.toNat - 48)) ds
      have hrange := digit_range hc
      have hmod : ((c.toNat : Int) - 48) % 256 = ((c.toNat - 48 : Nat) : Int) := by omega
      rw [stringToIntFrom, convertHexNumberToDec, if_pos hc, hmod, if_neg (by omega),
        Int.toNat_natCast, Nat.mod_eq_of_lt (by omega), Nat.mul_comm m 10]
      exact ih hd h

theorem stringToInt_bits (n : Bits) : stringToInt n.text = decimal n.text := by
  have hle := n.le
  rw [decimal] at hle
  have hfrom : stringToIntFrom 0 n.text = decimal n.text :=
    stringToIntFrom_digits n.digits (by omega)
  obtain ⟨d, ds, hds⟩ := List.exists_cons_of_ne_nil n.ne_nil
  have hd := n.digits d (hds ▸ List.mem_cons_self)
  rw [← hfrom, hds, stringToInt]
  · rintro s ⟨⟩
    exact absurd hd (by decide)
  · rintro s ⟨⟩
    exact absurd hd (by decide)

/-- A text of digits and other marks has no spaces. -/
theorem removeSpace_self {s : Text} (h : ∀ c ∈ s, isspace c = false ∧ c ≠ nul) :
    removeSpace s = s := by
  refine List.filter_eq_self.mpr fun c hc => ?_
  simp [(h c hc).1, (h c hc).2]

theorem digit_plain {c : Char} (h : c.isDigit = true) : isspace c = false ∧ c ≠ nul :=
  ⟨isspace_digit h, by rintro rfl; exact absurd h (by decide)⟩

theorem dotted_plain (a : BitVec 32) : ∀ c ∈ dotted a, isspace c = false ∧ c ≠ nul := by
  intro c hc
  rcases dotted_mem hc with h | rfl
  · exact digit_plain h
  · exact ⟨by decide, by decide⟩

theorem Item.text_plain (i : Item) : ∀ c ∈ i.text, isspace c = false ∧ c ≠ nul := by
  intro c hc
  cases i with
  | single a => exact dotted_plain a c hc
  | pair a b h =>
      rcases List.mem_append.mp hc with hc | hc
      · exact dotted_plain a c hc
      · rcases List.mem_cons.mp hc with rfl | hc
        · exact ⟨by decide, by decide⟩
        · exact dotted_plain b c hc
  | network a n =>
      rcases List.mem_append.mp hc with hc | hc
      · exact dotted_plain a c hc
      · rcases List.mem_cons.mp hc with rfl | hc
        · exact ⟨by decide, by decide⟩
        · exact digit_plain (n.digits c hc)

/-- The masks for all lengths but 0 and 32. -/
theorem setSubnetMask_mem (a x : BitVec 32) {n : Nat} (hpos : 0 < n) (hlt : n < 32) :
    (setSubnetMask a n false ≤ x ∧ x ≤ setSubnetMask a n true) ↔
      x >>> (32 - n) = a >>> (32 - n) := by
  have hnetwork := mem_network_iff a x (k := 32 - n) (by omega)
  rw [show 32 - (32 - n) = n by omega] at hnetwork
  rw [← hnetwork, setSubnetMask, setSubnetMask]
  simp only [if_neg (show ¬ 32 < n by omega), Nat.mod_eq_of_lt hlt,
    Nat.mod_eq_of_lt (show 32 - n < 32 by omega), Bool.false_eq_true, if_false, if_true]

/-- For these the mask is no mask. -/
theorem setSubnetMask_all (a x : BitVec 32) {n : Nat} (h : n = 0 ∨ n = 32) :
    (setSubnetMask a n false ≤ x ∧ x ≤ setSubnetMask a n true) ↔ a ≤ x := by
  have hfalse : setSubnetMask a n false = a := by
    rcases h with rfl | rfl <;> exact BitVec.and_allOnes
  have htrue : setSubnetMask a n true = BitVec.allOnes 32 := by
    rcases h with rfl | rfl <;> exact BitVec.or_allOnes
  rw [hfalse, htrue]
  have hx := x.isLt
  refine and_iff_left ?_
  rw [BitVec.le_def, BitVec.toNat_allOnes]
  omega

/-- What is stored for an item. -/
theorem parseIPRange_item (i : Item) : ∃ r, parseIPRange i.text = some r ∧
    ∀ x, (r.begin ≤ x ∧ x ≤ r.last) ↔ i.Reaches x := by
  have hquad : ∀ a, getIPV4Integer (removeSpace (dotted a)) = some a := fun a => by
    rw [removeSpace_self (dotted_plain a), getIPV4Integer_dotted]
  have hminus : ∀ a, '-' ∉ dotted a := fun a => not_mem_dotted (by decide) (by decide)
  have hslash : ∀ a, '/' ∉ dotted a := fun a => not_mem_dotted (by decide) (by decide)
  cases i with
  | single a =>
      refine ⟨⟨a, a, BitVec.le_refl a⟩, ?_, fun x => ?_⟩
      · rw [Item.text, parseIPRange, if_neg (hminus a), if_neg (hslash a), hquad]
        rfl
      · refine ⟨fun h => BitVec.le_antisymm h.2 h.1, ?_⟩
        rintro rfl
        exact ⟨BitVec.le_refl x, BitVec.le_refl x⟩
  | pair a b h =>
      refine ⟨⟨a, b, h⟩, ?_, fun x => Iff.rfl⟩
      have hmem : '-' ∈ dotted a ++ '-' :: dotted b := by simp
      rw [Item.text, parseIPRange, if_pos hmem, cut_append (hminus a)]
      simp only [hquad, Option.bind_some]
      rw [dif_neg (BitVec.not_lt.mpr h)]
  | network a n =>
      have hno : '-' ∉ dotted a ++ '/' :: n.text := by
        intro hc
        rcases List.mem_append.mp hc with hc | hc
        · exact hminus a hc
        · rcases List.mem_cons.mp hc with hc | hc
          · exact absurd hc (by decide)
          · exact absurd (n.digits '-' hc) (by decide)
      have hmem : '/' ∈ dotted a ++ '/' :: n.text := by simp
      have hbits : removeSpace n.text = n.text :=
        removeSpace_self fun c hc => digit_plain (n.digits c hc)
      refine ⟨⟨_, _, setSubnetMask_le a (decimal n.text)⟩, ?_, fun x => ?_⟩
      · rw [Item.text, parseIPRange, if_neg hno, if_pos hmem, cut_append (hslash a)]
        simp only [hquad, Option.bind_some, hbits, stringToInt_bits]
        rw [if_neg (Nat.not_lt.mpr n.le)]
      · rw [Item.Reaches]
        have hle := n.le
        split
        next hall => exact setSubnetMask_all a x hall
        next hsome => exact setSubnetMask_mem a x (by omega) (by omega)

end Edm.Network
