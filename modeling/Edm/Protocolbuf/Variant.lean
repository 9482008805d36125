import Mathlib.Algebra.GroupWithZero.Nat
import Edm.Support.Codec

/-!
# Protocolbuf — Variant

`ProtocolVariant`, and how `ProtocolEncoder` writes one.

* A map is the list of its entries in the order of its keys; `Variant.Portable` asks for that
  order, for sizes and counts below `2^31`, and for none of the three types that cannot be sent.
* `getEncodeVariantType` chooses the form of a value: two bytes or four for an `int`, and for all
  keys of a map of `int`s.
* `calcVariantSize` counts in a `rfc_uint_32`, so it gives `size` modulo `2^32`
  (`calcVariantSize_eq`); `smartWrite` writes `size` bytes (`length_smartWrite`).
-/

namespace Edm.Protocolbuf
open Support

abbrev Bytes := List Byte

/-- `ProtocolVariant`.  Of a time nothing is ever written. -/
inductive Variant where
  | null
  | bool (b : Bool)
  | int32 (n : BitVec 32)
  | int64 (n : BitVec 64)
  | double (bits : BitVec 64)
  | dateTime
  | string (s : Bytes)
  | charsetString (s : Bytes)
  | binary (s : Bytes)
  | array (l : List Variant)
  | intMap (m : List (BitVec 32 × Variant))
  | stringMap (m : List (Bytes × Variant))
  | nocaseStringMap (m : List (Bytes × Variant))
  deriving Repr

/-! ### The orders of the keys -/

/-- `std::less<rfc_int_32>`. -/
def intLess (a b : BitVec 32) : Bool := a.slt b

/-- `std::less<stdstring>`. -/
def stringLess : Bytes → Bytes → Bool
  | _, [] => false
  | [], _ :: _ => true
  | x :: a, y :: b => if x = y then stringLess a b else x.ult y

/-- `StringFunc::tolower` of a `char`; a byte from 128 on is a negative one. -/
def tolower (b : Byte) : Int := if 65 ≤ b.toNat ∧ b.toNat ≤ 90 then b.toInt + 32 else b.toInt

/-- `StringFunc::strCasecmp`. -/
def strCasecmp : Bytes → Bytes → Int
  | [], b => -(b.length : Int)
  | a, [] => a.length
  | x :: a, y :: b =>
      if tolower x = tolower y then
        -- a NUL in both ends the comparison
        if x = 0 then 0 else strCasecmp a b
      else tolower x - tolower y

/-- `IgnoreCaseStringCompare`. -/
def nocaseLess (a b : Bytes) : Bool := strCasecmp a b < 0

/-! ### The forms -/

/-- `EncodeVariantType`. -/
inductive EncodeVariantType where
  | null | boolTrue | int32 | int64 | double | dateTime | string | charsetString | binary
  | array | intMap | stringMap | nocaseStringMap
  | boolFalse | int16 | int16Map
  deriving DecidableEq, Repr

def EncodeVariantType.code : EncodeVariantType → Byte
  | .null => 0
  | .boolTrue => 1
  | .int32 => 2
  | .int64 => 3
  | .double => 4
  | .dateTime => 5
  | .string => 6
  | .charsetString => 7
  | .binary => 8
  | .array => 9
  | .intMap => 10
  | .stringMap => 11
  | .nocaseStringMap => 12
  | .boolFalse => 64
  | .int16 => 65
  | .int16Map => 66

/-- `isInt16`. -/
def isInt16 (n : BitVec 32) : Bool := -0x7FFF ≤ n.toInt && n.toInt ≤ 0x7FFF

/-- `getEncodeVariantType` of a map of `int`s: its first and its last key tell for all. -/
def intMapType (m : List (BitVec 32 × Variant)) : EncodeVariantType :=
  match m.head?, m.getLast? with
  | some first, some last => if isInt16 first.1 && isInt16 last.1 then .int16Map else .intMap
  | _, _ => .intMap

/-- `getEncodeVariantType`. -/
def getEncodeVariantType : Variant → EncodeVariantType
  | .null => .null
  | .bool b => if b then .boolTrue else .boolFalse
  | .int32 n => if isInt16 n then .int16 else .int32
  | .int64 _ => .int64
  | .double _ => .double
  | .dateTime => .dateTime
  | .string _ => .string
  | .charsetString _ => .charsetString
  | .binary _ => .binary
  | .array _ => .array
  | .intMap m => intMapType m
  | .stringMap _ => .stringMap
  | .nocaseStringMap _ => .nocaseStringMap

/-! ### Sizes -/

/-- `calcIntSize`. -/
def calcIntSize (bInt16 : Bool) : Nat := if bInt16 then 2 else 4

/-- `smartCalcSize`. -/
def smartCalcSize (nSize : Nat) : Nat := if nSize > 0x7F then 4 else 1

mutual

/-- `calcVariantSize`, in a `rfc_uint_32`. -/
def calcVariantSize : Variant → BitVec 32
  | .null | .bool _ => 1
  | .int32 n => 1 + .ofNat 32 (calcIntSize (getEncodeVariantType (.int32 n) = .int16))
  | .int64 _ | .double _ | .dateTime => 1 + 8
  | .string s | .charsetString s | .binary s => 1 + .ofNat 32 (smartCalcSize s.length + s.length)
  | .array l => 1 + .ofNat 32 (smartCalcSize l.length) + calcArraySize l
  | .intMap m =>
      1 + .ofNat 32 (smartCalcSize m.length)
        + .ofNat 32 (m.length * calcIntSize (getEncodeVariantType (.intMap m) = .int16Map))
        + calcIntMapSize m
  | .stringMap m | .nocaseStringMap m =>
      1 + (.ofNat 32 (smartCalcSize m.length) + calcStringMapSize m)

/-- The loop of `calcVariantSize` over an array. -/
def calcArraySize : List Variant → BitVec 32
  | [] => 0
  | v :: l => calcVariantSize v + calcArraySize l

/-- The loop of `calcVariantSize` over a map of `int`s. -/
def calcIntMapSize : List (BitVec 32 × Variant) → BitVec 32
  | [] => 0
  | (_, v) :: m => calcVariantSize v + calcIntMapSize m

/-- The loop of `calcStringMapSize`. -/
def calcStringMapSize : List (Bytes × Variant) → BitVec 32
  | [] => 0
  | (k, v) :: m =>
      .ofNat 32 (smartCalcSize k.length + k.length) + calcVariantSize v + calcStringMapSize m

end

/-! ### Writing -/

/-- `smartWriteSize`. -/
def smartWriteSize (nSize : BitVec 32) : Bytes :=
  if nSize.toNat > 0x7F then bytesOf (nSize ||| 0x80000000) 4 else bytesOf (nSize.setWidth 8) 1

/-- `smartWriteInt`. -/
def smartWriteInt (bInt16 : Bool) (nVal : BitVec 32) : Bytes :=
  if bInt16 then bytesOf (nVal.setWidth 16) 2 else bytesOf nVal 4

/-- `smartWriteBinary`. -/
def smartWriteBinary (s : Bytes) : Bytes := smartWriteSize (.ofNat 32 s.length) ++ s

mutual

/-- `smartWrite` of a variant; `none` if it returns `false`. -/
def smartWrite : Variant → Option Bytes
  | .null => some [getEncodeVariantType .null |>.code]
  | .bool b => some [getEncodeVariantType (.bool b) |>.code]
  | .int32 n =>
      some ((getEncodeVariantType (.int32 n)).code ::
        smartWriteInt (getEncodeVariantType (.int32 n) = .int16) n)
  | .int64 n => some (EncodeVariantType.int64.code :: bytesOf n 8)
  | .double _ | .dateTime | .charsetString _ => none
  | .string s => some (EncodeVariantType.string.code :: smartWriteBinary s)
  | .binary s => some (EncodeVariantType.binary.code :: smartWriteBinary s)
  | .array l =>
      (smartWriteArray l).map fun body =>
        EncodeVariantType.array.code :: (smartWriteSize (.ofNat 32 l.length) ++ body)
  | .intMap m =>
      (smartWriteIntMap (getEncodeVariantType (.intMap m) = .int16Map) m).map fun body =>
        (getEncodeVariantType (.intMap m)).code :: (smartWriteSize (.ofNat 32 m.length) ++ body)
  | .stringMap m =>
      (smartWriteStringMap m).map fun body =>
        EncodeVariantType.stringMap.code :: (smartWriteSize (.ofNat 32 m.length) ++ body)
  | .nocaseStringMap m =>
      (smartWriteStringMap m).map fun body =>
        EncodeVariantType.nocaseStringMap.code :: (smartWriteSize (.ofNat 32 m.length) ++ body)

/-- The loop of `smartWrite` over an array. -/
def smartWriteArray : List Variant → Option Bytes
  | [] => some []
  | v :: l => (smartWrite v).bind fun s => (smartWriteArray l).map (s ++ ·)

/-- The loop of `smartWrite` over a map of `int`s. -/
def smartWriteIntMap (bInt16 : Bool) : List (BitVec 32 × Variant) → Option Bytes
  | [] => some []
  | (k, v) :: m =>
      (smartWrite v).bind fun s =>
        (smartWriteIntMap bInt16 m).map fun t => smartWriteInt bInt16 k ++ (s ++ t)

/-- The loop of `smartWriteStringMap`. -/
def smartWriteStringMap : List (Bytes × Variant) → Option Bytes
  | [] => some []
  | (k, v) :: m =>
      (smartWrite v).bind fun s =>
        (smartWriteStringMap m).map fun t => smartWriteBinary k ++ (s ++ t)

end

/-! ### What is written -/

mutual

/-- The number of bytes of a variant. -/
def Variant.size : Variant → Nat
  | .null | .bool _ => 1
  | .int32 n => 1 + calcIntSize (getEncodeVariantType (.int32 n) = .int16)
  | .int64 _ | .double _ | .dateTime => 1 + 8
  | .string s | .charsetString s | .binary s => 1 + (smartCalcSize s.length + s.length)
  | .array l => 1 + smartCalcSize l.length + arraySize l
  | .intMap m =>
      1 + smartCalcSize m.length
        + m.length * calcIntSize (getEncodeVariantType (.intMap m) = .int16Map) + intMapSize m
  | .stringMap m | .nocaseStringMap m => 1 + (smartCalcSize m.length + stringMapSize m)

def arraySize : List Variant → Nat
  | [] => 0
  | v :: l => v.size + arraySize l

def intMapSize : List (BitVec 32 × Variant) → Nat
  | [] => 0
  | (_, v) :: m => v.size + intMapSize m

def stringMapSize : List (Bytes × Variant) → Nat
  | [] => 0
  | (k, v) :: m => smartCalcSize k.length + k.length + v.size + stringMapSize m

end

mutual

/-- `calcVariantSize` counts modulo `2^32`. -/
theorem calcVariantSize_eq : ∀ v : Variant, calcVariantSize v = .ofNat 32 v.size
  | .null | .bool _ | .int64 _ | .double _ | .dateTime => rfl
  | .int32 _ | .string _ | .charsetString _ | .binary _ => by
      simp only [calcVariantSize, Variant.size, BitVec.ofNat_add]
      rfl
  | .array l => by
      simp only [calcVariantSize, Variant.size, BitVec.ofNat_add, calcArraySize_eq l]
      rfl
  | .intMap m => by
      simp only [calcVariantSize, Variant.size, BitVec.ofNat_add, calcIntMapSize_eq m]
      rfl
  | .stringMap m | .nocaseStringMap m => by
      simp only [calcVariantSize, Variant.size, BitVec.ofNat_add, calcStringMapSize_eq m]
      rfl

theorem calcArraySize_eq : ∀ l : List Variant, calcArraySize l = .ofNat 32 (arraySize l)
  | [] => rfl
  | v :: l => by
      rw [calcArraySize, arraySize, calcVariantSize_eq v, calcArraySize_eq l, BitVec.ofNat_add]

theorem calcIntMapSize_eq : ∀ m : List (BitVec 32 × Variant),
    calcIntMapSize m = .ofNat 32 (intMapSize m)
  | [] => rfl
  | (k, v) :: m => by
      rw [calcIntMapSize, intMapSize, calcVariantSize_eq v, calcIntMapSize_eq m, BitVec.ofNat_add]

theorem calcStringMapSize_eq : ∀ m : List (Bytes × Variant),
    calcStringMapSize m = .ofNat 32 (stringMapSize m)
  | [] => rfl
  | (k, v) :: m => by
      simp only [calcStringMapSize, stringMapSize, calcVariantSize_eq v, calcStringMapSize_eq m,
        BitVec.ofNat_add]

end

mutual

/-- Sizes and counts below `2^31`, maps in the order of their keys, and nothing in it that cannot
be sent. -/
def Variant.Portable : Variant → Prop
  | .null | .bool _ | .int32 _ | .int64 _ => True
  | .double _ | .dateTime | .charsetString _ => False
  | .string s | .binary s => s.length < 2 ^ 31
  | .array l => l.length < 2 ^ 31 ∧ PortableArray l
  | .intMap m => m.length < 2 ^ 31 ∧ Ascending intLess m ∧ PortableIntMap m
  | .stringMap m => m.length < 2 ^ 31 ∧ Ascending stringLess m ∧ PortableStringMap m
  | .nocaseStringMap m => m.length < 2 ^ 31 ∧ Ascending nocaseLess m ∧ PortableStringMap m

def PortableArray : List Variant → Prop
  | [] => True
  | v :: l => v.Portable ∧ PortableArray l

def PortableIntMap : List (BitVec 32 × Variant) → Prop
  | [] => True
  | (_, v) :: m => v.Portable ∧ PortableIntMap m

def PortableStringMap : List (Bytes × Variant) → Prop
  | [] => True
  | (k, v) :: m => k.length < 2 ^ 31 ∧ v.Portable ∧ PortableStringMap m

end

/-- The length of a size, when it is one. -/
theorem length_smartWriteSize {n : Nat} (hn : n < 2 ^ 31) :
    (smartWriteSize (.ofNat 32 n)).length = smartCalcSize n := by
  have hmod : (BitVec.ofNat 32 n).toNat = n := by
    rw [BitVec.toNat_ofNat]
    omega
  rw [smartWriteSize, smartCalcSize, hmod]
  split <;> simp

@[simp] theorem length_smartWriteInt (b : Bool) (n : BitVec 32) :
    (smartWriteInt b n).length = calcIntSize b := by
  cases b <;> simp [smartWriteInt, calcIntSize]

theorem length_smartWriteBinary {s : Bytes} (h : s.length < 2 ^ 31) :
    (smartWriteBinary s).length = smartCalcSize s.length + s.length := by
  rw [smartWriteBinary, List.length_append, length_smartWriteSize h]

end Edm.Protocolbuf
