import Edm.Protocolbuf.Raw

/-!
# Protocolbuf — Declared

A package declares its size, and `loadFromBinary` is to read what it declares and nothing else: not
the bytes behind it, and not what the variant held.  Both can matter.

* The whole buffer is read, not the declared bytes of it: a variant that the declared bytes cut short
  may go on behind them (`Received.CutShort`).
* A map is filled and not cleared first: what the package does not overwrite stays
  (`Overwritten`, `foldl_put_eq_iff`).

These are the only two ways (`load_declared_iff`).
-/

namespace Edm.Protocolbuf
open Support

/-! ### Maps that are not cleared -/

/-- One of the kinds of maps: what is read into a variant that has such a map is merged with it, if
it is one too. -/
structure MapKind (κ L : Type) [LinearOrder L] where
  less : κ → κ → Bool
  rank : κ → L
  toVariant : List (κ × Variant) → Variant
  ofVariant : Variant → List (κ × Variant)
  toRaw : List (κ × Raw) → Raw
  ofRaw : Raw → Option (List (κ × Raw))
  less_iff : ∀ a b, less a b = true ↔ rank a < rank b
  toVariant_inj : ∀ {m m'}, toVariant m = toVariant m' → m = m'
  ofVariant_toVariant : ∀ m, ofVariant (toVariant m) = m
  ofVariant_null : ofVariant .null = []
  eq_of_ofRaw : ∀ {r l}, ofRaw r = some l → r = toRaw l
  put_toRaw : ∀ v l,
    v.put (toRaw l) = toVariant (mergeBy less Variant.put .null (ofVariant v) l)
  put_other : ∀ {r}, ofRaw r = none → ∀ m, (toVariant m).put r = Variant.null.put r

/-- The entries of maps that are read one after the other, if they all are maps of one kind. -/
def entriesOf {κ : Type} (ofRaw : Raw → Option (List (κ × Raw))) :
    List Raw → Option (List (κ × Raw))
  | [] => some []
  | r :: rs => (ofRaw r).bind fun l => (entriesOf ofRaw rs).map (l ++ ·)

namespace MapKind

variable {κ L : Type} [LinearOrder L] (K : MapKind κ L)

theorem foldl_put {rs : List Raw} {l : List (κ × Raw)} (h : entriesOf K.ofRaw rs = some l)
    (m : List (κ × Variant)) : rs.foldl Variant.put (K.toVariant m) =
      K.toVariant (mergeBy K.less Variant.put .null m l) := by
  induction rs generalizing l m with
  | nil =>
      obtain rfl := Option.some.inj h
      rfl
  | cons r rs ih =>
      rw [entriesOf, Option.bind_eq_some_iff] at h
      obtain ⟨lr, hr, h⟩ := h
      obtain ⟨lrs, hrs, rfl⟩ := Option.map_eq_some_iff.mp h
      rw [List.foldl_cons, K.eq_of_ofRaw hr, K.put_toRaw, K.ofVariant_toVariant, ih hrs, mergeBy,
        mergeBy, mergeBy, List.foldl_append]

/-- Behind something else the map does not matter. -/
theorem foldl_put_other {rs : List Raw} (h : entriesOf K.ofRaw rs = none)
    (m m' : List (κ × Variant)) :
    rs.foldl Variant.put (K.toVariant m) = rs.foldl Variant.put (K.toVariant m') := by
  induction rs generalizing m m' with
  | nil => cases h
  | cons r rs ih =>
      rw [List.foldl_cons, List.foldl_cons]
      cases hr : K.ofRaw r with
      | none => rw [K.put_other hr, K.put_other hr]
      | some l =>
          rw [entriesOf, hr, Option.bind_some, Option.map_eq_none_iff] at h
          rw [K.eq_of_ofRaw hr, K.put_toRaw, K.put_toRaw]
          exact ih h _ _

theorem foldl_put_null {rs : List Raw} (hne : rs ≠ []) :
    rs.foldl Variant.put .null = rs.foldl Variant.put (K.toVariant []) := by
  obtain ⟨r, rs, rfl⟩ := List.exists_cons_of_ne_nil hne
  have hput : Variant.null.put r = (K.toVariant []).put r := by
    cases hr : K.ofRaw r with
    | none => rw [K.put_other hr]
    | some l => rw [K.eq_of_ofRaw hr, K.put_toRaw, K.put_toRaw, K.ofVariant_null,
        K.ofVariant_toVariant]
  rw [List.foldl_cons, List.foldl_cons, hput]

theorem foldl_put_eq_iff {rs : List Raw} (hne : rs ≠ []) {m : List (κ × Variant)}
    (hm : Ascending K.less m) :
    rs.foldl Variant.put (K.toVariant m) = rs.foldl Variant.put .null ↔
      ∀ l, entriesOf K.ofRaw rs = some l → ∀ e ∈ m,
        (stored K.rank e.1 l).map Prod.fst = some e.1 ∧
          (updates K.rank e.1 l).foldl Variant.put e.2 =
            (updates K.rank e.1 l).foldl Variant.put .null := by
  rw [K.foldl_put_null hne]
  cases h : entriesOf K.ofRaw rs with
  | none => exact iff_of_true (K.foldl_put_other h m []) nofun
  | some l =>
      rw [K.foldl_put h, K.foldl_put h]
      refine ⟨fun heq l' hl' => ?_, fun hall => congrArg K.toVariant ?_⟩
      · obtain rfl := Option.some.inj hl'
        exact (mergeBy_eq_iff K.less_iff hm l).mp (K.toVariant_inj heq)
      · exact (mergeBy_eq_iff K.less_iff hm l).mpr (hall l rfl)

end MapKind

def Raw.asIntMap : Raw → Option (List (BitVec 32 × Raw))
  | .intMap l => some l
  | _ => none

def Raw.asStringMap : Raw → Option (List (Bytes × Raw))
  | .stringMap l => some l
  | _ => none

def Raw.asNocaseStringMap : Raw → Option (List (Bytes × Raw))
  | .nocaseStringMap l => some l
  | _ => none

def intMapKind : MapKind (BitVec 32) Int where
  less := intLess
  rank := intRank
  toVariant := .intMap
  ofVariant := Variant.asIntMap
  toRaw := .intMap
  ofRaw := Raw.asIntMap
  less_iff := intLess_iff
  toVariant_inj := Variant.intMap.inj
  ofVariant_toVariant := fun _ => rfl
  ofVariant_null := rfl
  eq_of_ofRaw := by
    intro r l h
    cases r <;> cases h
    rfl
  put_toRaw := by
    intro v l
    rw [Variant.put, putIntMap_eq]
  put_other := by
    intro r h m
    cases r <;> first | rfl | cases h

def stringMapKind : MapKind Bytes (List Int) where
  less := stringLess
  rank := stringRank
  toVariant := .stringMap
  ofVariant := Variant.asStringMap
  toRaw := .stringMap
  ofRaw := Raw.asStringMap
  less_iff := stringLess_iff
  toVariant_inj := Variant.stringMap.inj
  ofVariant_toVariant := fun _ => rfl
  ofVariant_null := rfl
  eq_of_ofRaw := by
    intro r l h
    cases r <;> cases h
    rfl
  put_toRaw := by
    intro v l
    rw [Variant.put, putStringMap_eq]
  put_other := by
    intro r h m
    cases r <;> first | rfl | cases h

def nocaseStringMapKind : MapKind Bytes (List Int) where
  less := nocaseLess
  rank := nocaseRank
  toVariant := .nocaseStringMap
  ofVariant := Variant.asNocaseStringMap
  toRaw := .nocaseStringMap
  ofRaw := Raw.asNocaseStringMap
  less_iff := nocaseLess_iff
  toVariant_inj := Variant.nocaseStringMap.inj
  ofVariant_toVariant := fun _ => rfl
  ofVariant_null := rfl
  eq_of_ofRaw := by
    intro r l h
    cases r <;> cases h
    rfl
  put_toRaw := by
    intro v l
    rw [Variant.put, putStringMap_eq]
  put_other := by
    intro r h m
    cases r <;> first | rfl | cases h

mutual

/-- Nothing stays of a variant that `rs` are put into one after the other: either one of them is not
a map of its kind, or they have each of its keys, the first time as it is written in it, and nothing
stays of the value. -/
def Overwritten : Variant → List Raw → Prop
  | .intMap m, rs => ∀ l, entriesOf Raw.asIntMap rs = some l → OverwrittenIntMap m l
  | .stringMap m, rs =>
      ∀ l, entriesOf Raw.asStringMap rs = some l → OverwrittenStringMap stringRank m l
  | .nocaseStringMap m, rs =>
      ∀ l, entriesOf Raw.asNocaseStringMap rs = some l → OverwrittenStringMap nocaseRank m l
  | _, _ => True

def OverwrittenIntMap : List (BitVec 32 × Variant) → List (BitVec 32 × Raw) → Prop
  | [], _ => True
  | (k, v) :: m, l => ((stored intRank k l).map Prod.fst = some k ∧
      Overwritten v (updates intRank k l)) ∧ OverwrittenIntMap m l

def OverwrittenStringMap (rank : Bytes → List Int) :
    List (Bytes × Variant) → List (Bytes × Raw) → Prop
  | [], _ => True
  | (k, v) :: m, l => ((stored rank k l).map Prod.fst = some k ∧
      Overwritten v (updates rank k l)) ∧ OverwrittenStringMap rank m l

end

/-- Only a map keeps something. -/
theorem foldl_put_of_noMap {v : Variant} (hint : v.asIntMap = []) (hstring : v.asStringMap = [])
    (hnocase : v.asNocaseStringMap = []) {rs : List Raw} (hne : rs ≠ []) :
    rs.foldl Variant.put v = rs.foldl Variant.put .null := by
  obtain ⟨r, rs, rfl⟩ := List.exists_cons_of_ne_nil hne
  rw [List.foldl_cons, List.foldl_cons]
  refine congrArg (rs.foldl Variant.put) ?_
  cases r with
  | intMap l => rw [Variant.put, hint]; rfl
  | stringMap l => rw [Variant.put, hstring]; rfl
  | nocaseStringMap l => rw [Variant.put, hnocase]; rfl
  | _ => rfl

mutual

/-- What a variant held does not matter, if and only if nothing stays of it. -/
theorem foldl_put_eq_iff : ∀ v : Variant, v.Ordered → ∀ {rs : List Raw}, rs ≠ [] →
    (rs.foldl Variant.put v = rs.foldl Variant.put .null ↔ Overwritten v rs)
  | .intMap m, h, rs, hne => by
      refine (intMapKind.foldl_put_eq_iff hne h.1).trans ?_
      exact forall_congr' fun l => imp_congr_right fun _ => overwrittenIntMap_iff m h.2 l
  | .stringMap m, h, rs, hne => by
      refine (stringMapKind.foldl_put_eq_iff hne h.1).trans ?_
      exact forall_congr' fun l => imp_congr_right fun _ =>
        overwrittenStringMap_iff stringRank m h.2 l
  | .nocaseStringMap m, h, rs, hne => by
      refine (nocaseStringMapKind.foldl_put_eq_iff hne h.1).trans ?_
      exact forall_congr' fun l => imp_congr_right fun _ =>
        overwrittenStringMap_iff nocaseRank m h.2 l
  | .null, _, _, hne => iff_of_true rfl trivial
  | .bool _, _, _, hne => iff_of_true (foldl_put_of_noMap rfl rfl rfl hne) trivial
  | .int32 _, _, _, hne => iff_of_true (foldl_put_of_noMap rfl rfl rfl hne) trivial
  | .int64 _, _, _, hne => iff_of_true (foldl_put_of_noMap rfl rfl rfl hne) trivial
  | .double _, _, _, hne => iff_of_true (foldl_put_of_noMap rfl rfl rfl hne) trivial
  | .string _, _, _, hne => iff_of_true (foldl_put_of_noMap rfl rfl rfl hne) trivial
  | .binary _, _, _, hne => iff_of_true (foldl_put_of_noMap rfl rfl rfl hne) trivial
  | .array _, _, _, hne => iff_of_true (foldl_put_of_noMap rfl rfl rfl hne) trivial
  | .dateTime, _, _, hne => iff_of_true (foldl_put_of_noMap rfl rfl rfl hne) trivial
  | .charsetString _, _, _, hne => iff_of_true (foldl_put_of_noMap rfl rfl rfl hne) trivial

theorem overwrittenIntMap_iff : ∀ m, OrderedIntMap m → ∀ l : List (BitVec 32 × Raw),
    (∀ e ∈ m, (stored intRank e.1 l).map Prod.fst = some e.1 ∧
      (updates intRank e.1 l).foldl Variant.put e.2 =
        (updates intRank e.1 l).foldl Variant.put .null) ↔ OverwrittenIntMap m l
  | [], _, _ => iff_of_true nofun trivial
  | (k, v) :: m, h, l => by
      rw [List.forall_mem_cons, OverwrittenIntMap, overwrittenIntMap_iff m h.2 l]
      refine and_congr_left' (and_congr_right fun hk => ?_)
      exact foldl_put_eq_iff v h.1 (updates_ne_nil hk)

theorem overwrittenStringMap_iff (rank : Bytes → List Int) : ∀ m, OrderedStringMap m →
    ∀ l : List (Bytes × Raw), (∀ e ∈ m, (stored rank e.1 l).map Prod.fst = some e.1 ∧
      (updates rank e.1 l).foldl Variant.put e.2 =
        (updates rank e.1 l).foldl Variant.put .null) ↔ OverwrittenStringMap rank m l
  | [], _, _ => iff_of_true nofun trivial
  | (k, v) :: m, h, l => by
      rw [List.forall_mem_cons, OverwrittenStringMap, overwrittenStringMap_iff rank m h.2 l]
      refine and_congr_left' (and_congr_right fun hk => ?_)
      exact foldl_put_eq_iff v h.1 (updates_ne_nil hk)

end

/-! ### Bytes behind the package -/

/-- Bytes that have all that their first four declare. -/
structure Received where
  bytes : Bytes
  four_le : 4 ≤ bytes.length
  declared_le : declaredSize bytes + 4 ≤ bytes.length

/-- The package that is declared. -/
def Received.declared (s : Received) : Bytes := s.bytes.take (declaredSize s.bytes + 4)

/-- The declared bytes are too few for what they begin, but not with the bytes behind them. -/
def Received.CutShort (s : Received) : Prop :=
  rawPackage (s.declared.drop 4) = .error .refused ∧ rawPackage (s.bytes.drop 4) ≠ .error .refused

theorem load_eq {s : Bytes} (h : 4 ≤ s.length) (hdeclared : declaredSize s + 4 ≤ s.length)
    (varRes : Variant) : load s varRes = (rawPackage (s.drop 4)).map varRes.put := by
  rw [load, if_neg (by omega), if_neg (by omega), loadPackage_eq]

theorem Received.load_declared (s : Received) (varRes : Variant) :
    load s.declared varRes = (rawPackage (s.declared.drop 4)).map varRes.put := by
  have hle := s.declared_le
  have hsize : declaredSize s.declared = declaredSize s.bytes := by
    rw [declaredSize, declaredSize, Received.declared, List.take_take, Nat.min_eq_left (by omega)]
  have hlen : s.declared.length = declaredSize s.bytes + 4 := by
    rw [Received.declared, List.length_take, Nat.min_eq_left hle]
  exact load_eq (by omega) (by omega) varRes

theorem Received.drop_four (s : Received) : s.bytes.drop 4 =
    s.declared.drop 4 ++ s.bytes.drop (declaredSize s.bytes + 4) := by
  have hlen : s.declared.length = declaredSize s.bytes + 4 := by
    rw [Received.declared, List.length_take, Nat.min_eq_left s.declared_le]
  rw [← List.drop_append_of_le_length (by omega), Received.declared, List.take_append_drop]

/-- What is loaded depends on the declared package alone, if and only if it is not cut short and
nothing stays of what the variant held. -/
theorem load_declared_iff (s : Received) (prev : StoredVariant) :
    load s.bytes prev.1 = load s.declared .null ↔ ¬ s.CutShort ∧
      ∀ raw, rawPackage (s.declared.drop 4) = .ok raw → Overwritten prev.1 [raw] := by
  rw [load_eq s.four_le s.declared_le, s.load_declared, Received.CutShort, s.drop_four]
  cases hraw : rawPackage (s.declared.drop 4) with
  | error e =>
      cases e with
      | refused =>
          -- all depends on what the bytes behind the package make of it
          cases rawPackage (s.declared.drop 4 ++ s.bytes.drop (declaredSize s.bytes + 4)) with
          | error e => simp [Except.map]
          | ok raw => simp [Except.map]
      | thrown =>
          have hne : rawPackage (s.declared.drop 4) ≠ .error .refused := by
            rw [hraw]
            nofun
          rw [rawPackage_append _ hne, hraw]
          exact iff_of_true rfl ⟨nofun, nofun⟩
  | ok raw =>
      have hne : rawPackage (s.declared.drop 4) ≠ .error .refused := by
        rw [hraw]
        nofun
      rw [rawPackage_append _ hne, hraw]
      have hput := foldl_put_eq_iff prev.1 prev.2 (List.cons_ne_nil raw [])
      constructor
      · intro heq
        refine ⟨nofun, fun raw' hraw' => ?_⟩
        obtain rfl := Except.ok.inj hraw'
        exact hput.mp (Except.ok.inj heq)
      · rintro ⟨-, hover⟩
        exact congrArg Except.ok (hput.mpr (hover raw rfl))

/-- An empty map is received for a variant that holds an entry. -/
def emptyMap : Received where
  bytes := [0, 0, 0, 6, 0xFF, 0xFE, 0, 1, 10, 0]
  four_le := by decide
  declared_le := by decide

/-- The entry is still there. -/
theorem not_load_declared : ∃ (s : Received) (prev : StoredVariant),
    load s.bytes prev.1 ≠ load s.declared .null := by
  refine ⟨emptyMap, ⟨.intMap [(1, .null)], List.pairwise_singleton _ _, trivial, trivial⟩, ?_⟩
  intro h
  have hlength := congrArg (fun r => r.toOption.map fun v => v.asIntMap.length) h
  revert hlength
  decide

end Edm.Protocolbuf
