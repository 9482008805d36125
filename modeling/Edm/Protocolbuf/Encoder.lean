import Edm.Protocolbuf.Variant

/-!
# Protocolbuf — Encoder

How `ProtocolEncoder` reads a variant.

`smartRead` reads into a variant that may hold something already: the entries of a map are added to
those it has.  Each level of a variant takes a byte, so the length of the text is fuel enough.
-/

namespace Edm.Protocolbuf
open Support

/-! ### Reading -/

/-- The case of `smartRead` that a byte selects. -/
def ofCode (nType : Byte) : Option EncodeVariantType :=
  [.null, .boolTrue, .int32, .int64, .double, .dateTime, .string, .charsetString, .binary, .array,
    .intMap, .stringMap, .nocaseStringMap, .boolFalse, .int16, .int16Map].find?
      fun t : EncodeVariantType => t.code = nType

/-- `smartReadSize`. -/
def smartReadSize : Bytes → Option (BitVec 32 × Bytes)
  | [] => none
  | b :: s =>
      if b.toNat > 0x7F then (readWord 32 4 (b :: s)).map fun a => (a.1 &&& 0x7FFFFFFF, a.2)
      else some (b.setWidth 32, s)

/-- `smartReadInt`. -/
def smartReadInt (bInt16 : Bool) (s : Bytes) : Option (BitVec 32 × Bytes) :=
  if bInt16 then (readWord 16 2 s).map fun a => (a.1.signExtend 32, a.2) else readWord 32 4 s

/-- `smartReadBinary`. -/
def smartReadBinary (nSize : Nat) (s : Bytes) : Option (Bytes × Bytes) :=
  if s.length < nSize then none else some (s.take nSize, s.drop nSize)

/-- `smartRead` of a string. -/
def smartReadString (s : Bytes) : Option (Bytes × Bytes) :=
  (smartReadSize s).bind fun a => smartReadBinary a.1.toNat a.2

/-- `asIntMap`: a variant of another type becomes an empty map. -/
def Variant.asIntMap : Variant → List (BitVec 32 × Variant)
  | .intMap m => m
  | _ => []

/-- `asStringMap`. -/
def Variant.asStringMap : Variant → List (Bytes × Variant)
  | .stringMap m => m
  | _ => []

/-- `asNocaseStringMap`. -/
def Variant.asNocaseStringMap : Variant → List (Bytes × Variant)
  | .nocaseStringMap m => m
  | _ => []

/-- The part of `smartRead` behind the type; `read` reads the variants in it. -/
def readBody (read : Variant → Bytes → Option (Variant × Bytes)) (tVar : Variant) (nType : Byte)
    (s : Bytes) : Option (Variant × Bytes) :=
  match ofCode nType with
  | some .null => some (.null, s)
  | some .boolTrue => some (.bool true, s)
  | some .boolFalse => some (.bool false, s)
  | some .int16 => (smartReadInt true s).map fun a => (.int32 a.1, a.2)
  | some .int32 => (smartReadInt false s).map fun a => (.int32 a.1, a.2)
  | some .int64 => (readWord 64 8 s).map fun a => (.int64 a.1, a.2)
  | some .double => (readWord 64 8 s).map fun a => (.double a.1, a.2)
  | some .string => (smartReadString s).map fun a => (.string a.1, a.2)
  | some .binary => (smartReadString s).map fun a => (.binary a.1, a.2)
  | some .array =>
      (smartReadSize s).bind fun a => (readMany (read .null) a.1.toNat a.2).map fun r =>
        (.array r.1, r.2)
  | some .int16Map =>
      (smartReadSize s).bind fun a =>
        (readMap intLess (smartReadInt true) read .null a.1.toNat tVar.asIntMap a.2).map fun r =>
          (.intMap r.1, r.2)
  | some .intMap =>
      (smartReadSize s).bind fun a =>
        (readMap intLess (smartReadInt false) read .null a.1.toNat tVar.asIntMap a.2).map fun r =>
          (.intMap r.1, r.2)
  | some .stringMap =>
      (smartReadSize s).bind fun a =>
        (readMap stringLess smartReadString read .null a.1.toNat tVar.asStringMap a.2).map fun r =>
          (.stringMap r.1, r.2)
  | some .nocaseStringMap =>
      (smartReadSize s).bind fun a =>
        (readMap nocaseLess smartReadString read .null a.1.toNat tVar.asNocaseStringMap a.2).map
          fun r => (.nocaseStringMap r.1, r.2)
  -- `ProtocalVarException`
  | some .dateTime | some .charsetString | none => none

/-- `smartRead` with `fuel` levels. -/
def readVariant : Nat → Variant → Bytes → Option (Variant × Bytes)
  | 0, _, _ => none
  | _ + 1, _, [] => none
  | fuel + 1, tVar, nType :: s => readBody (readVariant fuel) tVar nType s

/-- `smartRead` into `tVar`; `none` if it returns `false` or throws. -/
def smartRead (tVar : Variant) (s : Bytes) : Option (Variant × Bytes) :=
  readVariant s.length tVar s

/-! ### Packages -/

/-- `ProtocolHeader`. -/
structure ProtocolHeader where
  protocolPrefix : BitVec 16 := 0xFFFE
  protocolVersion : BitVec 16 := 1

/-- `ProtocolHeader::isValid`. -/
def ProtocolHeader.isValid (hdr : ProtocolHeader) : Bool :=
  hdr.protocolPrefix = 0xFFFE && hdr.protocolVersion = 1

/-- `ProtocolHeader::saveToBinary`. -/
def ProtocolHeader.saveToBinary (hdr : ProtocolHeader) : Bytes :=
  bytesOf hdr.protocolPrefix 2 ++ bytesOf hdr.protocolVersion 2

/-- `ProtocolHeader::loadFromBinary`. -/
def ProtocolHeader.loadFromBinary (s : Bytes) : Option (ProtocolHeader × Bytes) :=
  (readWord 16 2 s).bind fun p => (readWord 16 2 p.2).bind fun v =>
    if (ProtocolHeader.mk p.1 v.1).isValid then some (⟨p.1, v.1⟩, v.2) else none

/-- `saveToBinary`: the length of what follows, the header, and the variant. -/
def saveToBinary (tVar : Variant) : Option Bytes :=
  (smartWrite tVar).map fun s =>
    bytesOf (4 + calcVariantSize tVar) 4 ++ (({} : ProtocolHeader).saveToBinary ++ s)

/-- `loadWithoutSize`, with what is left. -/
def loadWithoutSize (s : Bytes) (varRes : Variant) : Option (Variant × Bytes) :=
  (ProtocolHeader.loadFromBinary s).bind fun hdr => smartRead varRes hdr.2

/-- `loadFromBinary`, with what is left. -/
def loadFromBinary (s : Bytes) (varRes : Variant) : Option (Variant × Bytes) :=
  if s.length < 4 then none
  else if s.length < 4 + (ofBytes (0 : BitVec 32) (s.take 4)).toNat then none
  else loadWithoutSize (s.drop 4) varRes

end Edm.Protocolbuf
