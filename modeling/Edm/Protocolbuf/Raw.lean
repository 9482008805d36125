import Mathlib
import Edm.Protocolbuf.Loading

/-!
# Protocolbuf — Raw

What the bytes of a variant say, before it is put into a variant: the entries of a map in the order
in which they come, whatever their keys.  `smartRead` reads it and puts it into place
(`loadVariant_eq`), so it is read in the same way whatever the variant holds, and more bytes behind
it change nothing unless the bytes were too few (`extends_rawVariant`).
-/

namespace Edm.Protocolbuf
open Support

/-- What is read. -/
inductive Raw where
  | null
  | bool (b : Bool)
  | int32 (n : BitVec 32)
  | int64 (n : BitVec 64)
  | double (bits : BitVec 64)
  | string (s : Bytes)
  | binary (s : Bytes)
  | array (l : List Raw)
  | intMap (l : List (BitVec 32 × Raw))
  | stringMap (l : List (Bytes × Raw))
  | nocaseStringMap (l : List (Bytes × Raw))

mutual

/-- What is read is put into a variant. -/
def Variant.put (v : Variant) : Raw → Variant
  | .null => .null
  | .bool b => .bool b
  | .int32 n => .int32 n
  | .int64 n => .int64 n
  | .double bits => .double bits
  | .string s => .string s
  | .binary s => .binary s
  | .array l => .array (putArray l)
  | .intMap l => .intMap (putIntMap v.asIntMap l)
  | .stringMap l => .stringMap (putStringMap stringLess v.asStringMap l)
  | .nocaseStringMap l => .nocaseStringMap (putStringMap nocaseLess v.asNocaseStringMap l)

/-- The items of an array are new. -/
def putArray : List Raw → List Variant
  | [] => []
  | r :: l => Variant.null.put r :: putArray l

def putIntMap (m : List (BitVec 32 × Variant)) : List (BitVec 32 × Raw) → List (BitVec 32 × Variant)
  | [] => m
  | (k, r) :: l =>
      putIntMap (assignBy intLess k (((lookupBy intLess k m).getD .null).put r) m) l

def putStringMap (less : Bytes → Bytes → Bool) (m : List (Bytes × Variant)) :
    List (Bytes × Raw) → List (Bytes × Variant)
  | [] => m
  | (k, r) :: l =>
      putStringMap less (assignBy less k (((lookupBy less k m).getD .null).put r) m) l

end

theorem putArray_eq (l : List Raw) : putArray l = l.map Variant.null.put := by
  induction l with
  | nil => rfl
  | cons r l ih => rw [putArray, List.map_cons, ih]

theorem putIntMap_eq (m : List (BitVec 32 × Variant)) (l : List (BitVec 32 × Raw)) :
    putIntMap m l = mergeBy intLess Variant.put .null m l := by
  induction l generalizing m with
  | nil => rfl
  | cons e l ih => exact ih _

theorem putStringMap_eq (less : Bytes → Bytes → Bool) (m : List (Bytes × Variant))
    (l : List (Bytes × Raw)) : putStringMap less m l = mergeBy less Variant.put .null m l := by
  induction l generalizing m with
  | nil => rfl
  | cons e l ih => exact ih _

/-! ### Reading -/

/-- The part behind the type; `item` reads the variants in it. -/
def rawBody (item : Bytes → Except Refusal (Raw × Bytes)) (nType : Byte) (s : Bytes) :
    Except Refusal (Raw × Bytes) :=
  match ofCode nType with
  | some .null => .ok (.null, s)
  | some .boolTrue => .ok (.bool true, s)
  | some .boolFalse => .ok (.bool false, s)
  | some .int16 => mapLoad .int32 (orRefused (smartReadInt true) s)
  | some .int32 => mapLoad .int32 (orRefused (smartReadInt false) s)
  | some .int64 => mapLoad .int64 (orRefused (readWord 64 8) s)
  | some .double => mapLoad .double (orRefused (readWord 64 8) s)
  | some .string => mapLoad .string (orRefused smartReadString s)
  | some .binary => mapLoad .binary (orRefused smartReadString s)
  | some .array => do
      let nCount ← orRefused smartReadSize s
      mapLoad .array (loadMany item nCount.1.toNat nCount.2)
  | some .int16Map => do
      let nCount ← orRefused smartReadSize s
      mapLoad .intMap
        (loadMany (loadPair (orRefused (smartReadInt true)) item) nCount.1.toNat nCount.2)
  | some .intMap => do
      let nCount ← orRefused smartReadSize s
      mapLoad .intMap
        (loadMany (loadPair (orRefused (smartReadInt false)) item) nCount.1.toNat nCount.2)
  | some .stringMap => do
      let nCount ← orRefused smartReadSize s
      mapLoad .stringMap
        (loadMany (loadPair (orRefused smartReadString) item) nCount.1.toNat nCount.2)
  | some .nocaseStringMap => do
      let nCount ← orRefused smartReadSize s
      mapLoad .nocaseStringMap
        (loadMany (loadPair (orRefused smartReadString) item) nCount.1.toNat nCount.2)
  | some .dateTime | some .charsetString | none => .error .thrown

/-- A variant of up to `fuel` levels. -/
def rawVariant : Nat → Bytes → Except Refusal (Raw × Bytes)
  | 0, _ => .error .refused
  | _ + 1, [] => .error .refused
  | fuel + 1, nType :: s => rawBody (rawVariant fuel) nType s

theorem mapLoad_mapLoad {α β γ : Type} (f : α → β) (g : β → γ)
    (x : Except Refusal (α × Bytes)) : mapLoad g (mapLoad f x) = mapLoad (fun a => g (f a)) x := by
  cases x <;> rfl

theorem mapLoad_bind {α β γ : Type} (g : β → γ) (x : Except Refusal α)
    (f : α → Except Refusal (β × Bytes)) :
    mapLoad g (x >>= f) = x >>= fun a => mapLoad g (f a) := by
  cases x <;> rfl

theorem loadMany_mapLoad {α β : Type} (f : α → β) (item : Bytes → Except Refusal (α × Bytes))
    (n : Nat) (s : Bytes) :
    loadMany (fun s => mapLoad f (item s)) n s = mapLoad (List.map f) (loadMany item n s) := by
  induction n generalizing s with
  | zero => rfl
  | succ n ih =>
      rw [loadMany, loadMany]
      cases item s with
      | error e => rfl
      | ok a =>
          simp only [mapLoad, Except.map, bind, Except.bind] at ih ⊢
          rw [ih]
          cases loadMany item n a.2 <;> rfl

/-- What is read is put into place. -/
theorem loadVariant_eq (fuel : Nat) (tVar : Variant) (s : Bytes) :
    loadVariant fuel tVar s = mapLoad tVar.put (rawVariant fuel s) := by
  induction fuel generalizing tVar s with
  | zero => rfl
  | succ fuel ih =>
      cases s with
      | nil => rfl
      | cons nType s =>
          have hitem : loadVariant fuel .null =
              fun s => mapLoad Variant.null.put (rawVariant fuel s) := funext fun s => ih .null s
          rw [loadVariant, rawVariant, loadBody, rawBody]
          cases ofCode nType with
          | none => rfl
          | some t =>
              cases t <;> simp only [mapLoad_mapLoad, mapLoad_bind, hitem, loadMany_mapLoad,
                loadMap_eq _ _ ih, Variant.put, putArray_eq, putIntMap_eq, putStringMap_eq] <;> rfl

/-! ### More bytes -/

/-- What a reader finds it finds as well when `u` stands behind it. -/
def Keeps {α : Type} (u : Bytes) (read : Bytes → Option (α × Bytes)) : Prop :=
  ∀ s a, read s = some a → read (s ++ u) = some (a.1, a.2 ++ u) ∧ a.2.length ≤ s.length

section Keeps

variable {α β : Type} {u : Bytes} {read : Bytes → Option (α × Bytes)}

theorem Keeps.extends (h : Keeps u read) (n : Nat) :
    Extends .refused n u (orRefused read) (orRefused read) := by
  intro s _
  rw [orRefused]
  cases hread : read s with
  | none =>
      refine ⟨fun b hb => ?_, fun e he hne => absurd (Except.error.inj he).symm hne⟩
      cases hb
  | some a =>
      obtain ⟨hmore, hlen⟩ := h s a hread
      refine ⟨fun b hb => ?_, fun e he => by cases he⟩
      obtain rfl := Except.ok.inj hb
      refine ⟨?_, hlen⟩
      rw [orRefused, hmore]
      rfl

theorem Keeps.map (h : Keeps u read) (f : α → β) :
    Keeps u fun s => (read s).map fun a => (f a.1, a.2) := by
  intro s b hb
  obtain ⟨a, ha, rfl⟩ := Option.map_eq_some_iff.mp hb
  obtain ⟨hmore, hlen⟩ := h s a ha
  dsimp only
  rw [hmore]
  exact ⟨rfl, hlen⟩

theorem Keeps.bind (h : Keeps u read) {next : α → Bytes → Option (β × Bytes)}
    (hnext : ∀ a, Keeps u (next a)) : Keeps u fun s => (read s).bind fun a => next a.1 a.2 := by
  intro s b hb
  obtain ⟨a, ha, hb⟩ := Option.bind_eq_some_iff.mp hb
  obtain ⟨hmore, hlen⟩ := h s a ha
  obtain ⟨hmore', hlen'⟩ := hnext a.1 a.2 b hb
  dsimp only
  rw [hmore]
  exact ⟨hmore', hlen'.trans hlen⟩

end Keeps

section

variable (u : Bytes)

theorem keeps_readWord (w k : Nat) : Keeps u (readWord w k) := by
  intro s a ha
  rw [readWord] at ha
  split at ha
  next => cases ha
  next h =>
    obtain rfl := Option.some.inj ha
    have hk : k ≤ s.length := Nat.le_of_not_lt h
    rw [readWord, if_neg (by rw [List.length_append]; omega), List.take_append_of_le_length hk,
      List.drop_append_of_le_length hk]
    exact ⟨rfl, by simp⟩

theorem keeps_smartReadSize : Keeps u smartReadSize := by
  intro s a ha
  cases s with
  | nil => cases ha
  | cons b s =>
      rw [smartReadSize] at ha
      rw [List.cons_append, smartReadSize]
      split at ha
      next h =>
        rw [if_pos h]
        exact (keeps_readWord u 32 4).map (· &&& 0x7FFFFFFF) (b :: s) a ha
      next h =>
        rw [if_neg h]
        obtain rfl := Option.some.inj ha
        exact ⟨rfl, Nat.le_succ s.length⟩

theorem keeps_smartReadInt (b : Bool) : Keeps u (smartReadInt b) := by
  cases b with
  | true => exact (keeps_readWord u 16 2).map fun v => v.signExtend 32
  | false => exact keeps_readWord u 32 4

theorem keeps_smartReadBinary (nSize : Nat) : Keeps u (smartReadBinary nSize) := by
  intro s a ha
  rw [smartReadBinary] at ha
  split at ha
  next => cases ha
  next h =>
    obtain rfl := Option.some.inj ha
    have hk : nSize ≤ s.length := Nat.le_of_not_lt h
    rw [smartReadBinary, if_neg (by rw [List.length_append]; omega),
      List.take_append_of_le_length hk, List.drop_append_of_le_length hk]
    exact ⟨rfl, by simp⟩

theorem keeps_smartReadString : Keeps u smartReadString :=
  (keeps_smartReadSize u).bind fun a => keeps_smartReadBinary u a.toNat

end

theorem extends_rawBody {n : Nat} {u : Bytes}
    {item item₁ : Bytes → Except Refusal (Raw × Bytes)} (h : Extends .refused n u item item₁)
    (nType : Byte) : Extends .refused n u (rawBody item nType) (rawBody item₁ nType) := by
  have hint := fun b => (keeps_smartReadInt u b).extends n
  have hlong := (keeps_readWord u 64 8).extends n
  have hstring := (keeps_smartReadString u).extends n
  have hsize := (keeps_smartReadSize u).extends n
  unfold rawBody
  cases ofCode nType with
  | none => exact .fail _ n u _
  | some t =>
      cases t with
      | null => exact .pure _ n u _
      | boolTrue => exact .pure _ n u _
      | boolFalse => exact .pure _ n u _
      | int16 => exact (hint true).map _
      | int32 => exact (hint false).map _
      | int64 => exact hlong.map _
      | double => exact hlong.map _
      | string => exact hstring.map _
      | binary => exact hstring.map _
      | array => exact hsize.bind fun a => (h.many a.toNat).map _
      | int16Map => exact hsize.bind fun a => (((hint true).pair h).many a.toNat).map _
      | intMap => exact hsize.bind fun a => (((hint false).pair h).many a.toNat).map _
      | stringMap => exact hsize.bind fun a => ((hstring.pair h).many a.toNat).map _
      | nocaseStringMap => exact hsize.bind fun a => ((hstring.pair h).many a.toNat).map _
      | dateTime => exact .fail _ n u _
      | charsetString => exact .fail _ n u _

/-- More bytes behind a variant change nothing, unless its bytes were too few. -/
theorem extends_rawVariant (u : Bytes) (n : Nat) (fuel fuel₁ : Nat) (h : n ≤ fuel)
    (h₁ : n + u.length ≤ fuel₁) :
    Extends .refused n u (rawVariant fuel) (rawVariant fuel₁) := by
  induction n generalizing fuel fuel₁ with
  | zero =>
      intro s hs
      obtain rfl := List.length_eq_zero_iff.mp (Nat.le_zero.mp hs)
      have hnil : rawVariant fuel [] = .error .refused := by
        cases fuel <;> rfl
      rw [hnil]
      exact ⟨nofun, fun e he hne => absurd (Except.error.inj he).symm hne⟩
  | succ n ih =>
      intro s hs
      obtain ⟨f, rfl⟩ : ∃ f, fuel = f + 1 := Nat.exists_eq_succ_of_ne_zero (by omega)
      obtain ⟨f₁, rfl⟩ : ∃ f, fuel₁ = f + 1 := Nat.exists_eq_succ_of_ne_zero (by omega)
      cases s with
      | nil => exact ⟨nofun, fun e he hne => absurd (Except.error.inj he).symm hne⟩
      | cons b s =>
          -- the byte of the type is one letter less for the variants in it
          obtain ⟨hok, herror⟩ := extends_rawBody (ih f f₁ (by omega) (by omega)) b s
            (Nat.le_of_succ_le_succ hs)
          exact ⟨fun a ha => ⟨(hok a ha).1, (hok a ha).2.trans (Nat.le_succ s.length)⟩, herror⟩

/-! ### Packages -/

/-- What the bytes of a package say. -/
def rawPackage (s : Bytes) : Except Refusal Raw := do
  let hdr ← orRefused ProtocolHeader.loadFromBinary s
  let raw ← rawVariant hdr.2.length hdr.2
  return raw.1

theorem loadPackage_eq (s : Bytes) (varRes : Variant) :
    loadPackage s varRes = (rawPackage s).map varRes.put := by
  rw [loadPackage, rawPackage]
  cases orRefused ProtocolHeader.loadFromBinary s with
  | error e => rfl
  | ok hdr =>
      simp only [bind, Except.bind, loadVariant_eq, mapLoad]
      cases rawVariant hdr.2.length hdr.2 <;> rfl

theorem keeps_header (u : Bytes) : Keeps u ProtocolHeader.loadFromBinary := by
  have hcheck : ∀ p v, Keeps u fun s =>
      if (ProtocolHeader.mk p v).isValid then some (ProtocolHeader.mk p v, s) else none := by
    intro p v s a ha
    dsimp only at ha ⊢
    split at ha
    next h =>
      obtain rfl := Option.some.inj ha
      rw [if_pos h]
      exact ⟨rfl, le_rfl⟩
    next => cases ha
  exact (keeps_readWord u 16 2).bind fun p => (keeps_readWord u 16 2).bind (hcheck p)

/-- A package that is not too short is the same with more bytes behind it. -/
theorem rawPackage_append {s : Bytes} (u : Bytes) (h : rawPackage s ≠ .error .refused) :
    rawPackage (s ++ u) = rawPackage s := by
  obtain ⟨hok, herror⟩ := (keeps_header u).extends s.length s le_rfl
  rw [rawPackage] at h ⊢
  rw [rawPackage]
  cases hhdr : orRefused ProtocolHeader.loadFromBinary s with
  | error e =>
      rw [hhdr] at h
      rw [herror e hhdr fun he => h (by rw [he]; rfl)]
  | ok hdr =>
      obtain ⟨hmore, -⟩ := hok hdr hhdr
      obtain ⟨hok', herror'⟩ := extends_rawVariant u hdr.2.length hdr.2.length
        (hdr.2 ++ u).length le_rfl (by rw [List.length_append]) hdr.2 le_rfl
      rw [hmore]
      rw [hhdr] at h
      simp only [bind, Except.bind] at h ⊢
      cases hraw : rawVariant hdr.2.length hdr.2 with
      | error e =>
          rw [hraw] at h
          rw [herror' e hraw fun he => h (by rw [he])]
      | ok raw => rw [(hok' raw hraw).1]

end Edm.Protocolbuf
