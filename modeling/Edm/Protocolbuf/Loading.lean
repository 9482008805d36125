import Edm.Protocolbuf.Encoder
import Edm.Protocolbuf.Keys
import Edm.Support.Loading

/-!
# Protocolbuf — Loading

`ProtocolEncoder::loadFromBinary` with all its outcomes: it succeeds, it returns `false`, or it
throws (`loadFromBinary_toOption`).

What is read does not depend on what the variant holds: `rawVariant` reads it, and `Variant.put`
puts it into the variant (`loadVariant_eq`).
-/

namespace Edm.Protocolbuf
open Support

/-- Why nothing was loaded: `false` was returned, or a `ProtocalVarException` was thrown. -/
inductive Refusal where
  | refused
  | thrown
  deriving DecidableEq

/-- A reader that returns `false` if it reads nothing. -/
def orRefused {α : Type} (read : Bytes → Option (α × Bytes)) (s : Bytes) :
    Except Refusal (α × Bytes) :=
  (read s).elim (.error .refused) .ok

/-! ### Reading in place -/

/-- The part of `smartRead` behind the type; `load` reads the variants in it. -/
def loadBody (load : Variant → Bytes → Except Refusal (Variant × Bytes)) (tVar : Variant)
    (nType : Byte) (s : Bytes) : Except Refusal (Variant × Bytes) :=
  match ofCode nType with
  | some .null => .ok (.null, s)
  | some .boolTrue => .ok (.bool true, s)
  | some .boolFalse => .ok (.bool false, s)
  | some .int16 => mapLoad .int32 (orRefused (smartReadInt true) s)
  | some .int32 => mapLoad .int32 (orRefused (smartReadInt false) s)
  | some .int64 => mapLoad .int64 (orRefused (readWord 64 8) s)
  | some .double => mapLoad .double (orRefused (readWord 64 8) s)
  | some .string => mapLoad .string (orRefused smartReadString s)
  | some .binary => mapLoad .binary (orRefused smartReadString s)
  | some .array => do
      let nCount ← orRefused smartReadSize s
      mapLoad .array (loadMany (load .null) nCount.1.toNat nCount.2)
  | some .int16Map => do
      let nCount ← orRefused smartReadSize s
      mapLoad .intMap (loadMap intLess (orRefused (smartReadInt true)) load .null nCount.1.toNat
        tVar.asIntMap nCount.2)
  | some .intMap => do
      let nCount ← orRefused smartReadSize s
      mapLoad .intMap (loadMap intLess (orRefused (smartReadInt false)) load .null nCount.1.toNat
        tVar.asIntMap nCount.2)
  | some .stringMap => do
      let nCount ← orRefused smartReadSize s
      mapLoad .stringMap (loadMap stringLess (orRefused smartReadString) load .null nCount.1.toNat
        tVar.asStringMap nCount.2)
  | some .nocaseStringMap => do
      let nCount ← orRefused smartReadSize s
      mapLoad .nocaseStringMap (loadMap nocaseLess (orRefused smartReadString) load .null
        nCount.1.toNat tVar.asNocaseStringMap nCount.2)
  | some .dateTime | some .charsetString | none => .error .thrown

/-- `smartRead` with `fuel` levels. -/
def loadVariant : Nat → Variant → Bytes → Except Refusal (Variant × Bytes)
  | 0, _, _ => .error .refused
  | _ + 1, _, [] => .error .refused
  | fuel + 1, tVar, nType :: s => loadBody (loadVariant fuel) tVar nType s

/-- `loadWithoutSize`. -/
def loadPackage (s : Bytes) (varRes : Variant) : Except Refusal Variant := do
  let hdr ← orRefused ProtocolHeader.loadFromBinary s
  let res ← loadVariant hdr.2.length varRes hdr.2
  return res.1

/-- The size that a package begins with. -/
def declaredSize (s : Bytes) : Nat := (ofBytes (0 : BitVec 32) (s.take 4)).toNat

/-- `loadFromBinary`. -/
def load (s : Bytes) (varRes : Variant) : Except Refusal Variant :=
  if s.length < 4 then .error .refused
  else if s.length < 4 + declaredSize s then .error .refused
  else loadPackage (s.drop 4) varRes

/-! ### The two outcomes of before -/

theorem toOption_orRefused {α : Type} (read : Bytes → Option (α × Bytes)) (s : Bytes) :
    (orRefused read s).toOption = read s := by
  rw [orRefused]
  cases read s <;> rfl

theorem toOption_mapLoad {α β : Type} (f : α → β) (x : Except Refusal (α × Bytes)) :
    (mapLoad f x).toOption = x.toOption.map fun a => (f a.1, a.2) := by
  cases x <;> rfl

theorem toOption_bind {α β : Type} (x : Except Refusal α) (f : α → Except Refusal β) :
    (x >>= f).toOption = x.toOption.bind fun a => (f a).toOption := by
  cases x <;> rfl

theorem toOption_loadMany {α : Type} {item : Bytes → Except Refusal (α × Bytes)}
    {item' : Bytes → Option (α × Bytes)} (h : ∀ s, (item s).toOption = item' s) (n : Nat)
    (s : Bytes) : (loadMany item n s).toOption = readMany item' n s := by
  induction n generalizing s with
  | zero => rfl
  | succ n ih =>
      rw [loadMany, readMany, toOption_bind, h]
      refine congrArg _ (funext fun a => ?_)
      rw [toOption_bind, ih]
      cases readMany item' n a.2 <;> rfl

theorem toOption_loadMap {κ V : Type} {lt : κ → κ → Bool}
    {key : Bytes → Option (κ × Bytes)} {value : V → Bytes → Except Refusal (V × Bytes)}
    {value' : V → Bytes → Option (V × Bytes)} (h : ∀ v s, (value v s).toOption = value' v s)
    (fresh : V) (n : Nat) (m : List (κ × V)) (s : Bytes) :
    (loadMap lt (orRefused key) value fresh n m s).toOption =
      readMap lt key value' fresh n m s := by
  induction n generalizing m s with
  | zero => rfl
  | succ n ih =>
      rw [loadMap, readMap, toOption_bind, toOption_orRefused]
      refine congrArg _ (funext fun k => ?_)
      rw [toOption_bind, h]
      exact congrArg _ (funext fun v => ih _ _)

theorem toOption_loadVariant (fuel : Nat) (tVar : Variant) (s : Bytes) :
    (loadVariant fuel tVar s).toOption = readVariant fuel tVar s := by
  induction fuel generalizing tVar s with
  | zero => rfl
  | succ fuel ih =>
      cases s with
      | nil => rfl
      | cons nType s =>
          rw [loadVariant, readVariant, loadBody, readBody]
          cases ofCode nType with
          | none => rfl
          | some t =>
              cases t <;> simp only [toOption_mapLoad, toOption_orRefused, toOption_bind,
                toOption_loadMany (ih .null), toOption_loadMap ih] <;> rfl

/-- The two outcomes of `loadFromBinary`. -/
theorem loadFromBinary_toOption (s : Bytes) (varRes : Variant) :
    (load s varRes).toOption = (loadFromBinary s varRes).map Prod.fst := by
  rw [load, loadFromBinary, declaredSize]
  split
  next => rfl
  next =>
    split
    next => rfl
    next =>
      rw [loadPackage, loadWithoutSize, toOption_bind, toOption_orRefused, Option.map_bind]
      refine congrArg _ (funext fun hdr => ?_)
      rw [toOption_bind, toOption_loadVariant, Function.comp_apply, smartRead]
      cases readVariant hdr.2.length varRes hdr.2 <;> rfl

end Edm.Protocolbuf
