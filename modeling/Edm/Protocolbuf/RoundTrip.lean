import Edm.Protocolbuf.Encoder

/-!
# Protocolbuf — RoundTrip

A variant that can be sent is read as it was written.

* `Sent v s`: `s` has the `size` bytes of `v`, and gives `v` again, whatever stands behind it.
* `sent_smartWrite`: what `smartWrite` makes of a variant that can be sent.  The writer and the
  reader choose the same form of each size and of each key, since a map is written with short keys
  only when all are short (`isInt16_of_intMapType`).
* `roundTrip`: the same of the whole package.  `calcVariantSize` tells its length only below `2^32`
  bytes (`not_sized`).
-/

namespace Edm.Protocolbuf
open Support

/-! ### Sizes, numbers and strings -/

theorem reads_smartReadSize {n : Nat} (hn : n < 2 ^ 31) :
    Reads smartReadSize (smartWriteSize (.ofNat 32 n)) (.ofNat 32 n) := by
  have hmod : (BitVec.ofNat 32 n).toNat = n := by
    rw [BitVec.toNat_ofNat]
    omega
  rw [smartWriteSize, hmod]
  split
  next hlong =>
    -- the highest bit says that there are four bytes
    have hor : (BitVec.ofNat 32 n ||| 0x80000000).toNat = 2 ^ 31 + n := by
      have h : (0x80000000 : BitVec 32).toNat = 2 ^ 31 * 1 := rfl
      rw [BitVec.toNat_or, hmod, h, Nat.or_comm, ← Nat.two_pow_add_eq_or_of_lt hn,
        Nat.mul_one]
    have hand : (BitVec.ofNat 32 n ||| 0x80000000) &&& 0x7FFFFFFF = BitVec.ofNat 32 n := by
      have h : (0x7FFFFFFF : BitVec 32).toNat = 2 ^ 31 - 1 := rfl
      apply BitVec.eq_of_toNat_eq
      rw [BitVec.toNat_and, hor, h, Nat.and_two_pow_sub_one_eq_mod, hmod]
      omega
    intro rest
    have hword := reads_word (BitVec.ofNat 32 n ||| 0x80000000) (k := 4) le_rfl rest
    generalize BitVec.ofNat 32 n ||| 0x80000000 = v at hor hand hword
    have hfirst : ((v >>> (8 * 3)).setWidth 8).toNat > 0x7F := by
      rw [BitVec.toNat_setWidth, BitVec.toNat_ushiftRight, hor, Nat.shiftRight_eq_div_pow]
      omega
    rw [bytesOf, List.cons_append] at hword ⊢
    rw [smartReadSize, if_pos hfirst, hword, Option.map_some, hand]
  next hshort =>
    intro rest
    have hbyte : ((BitVec.ofNat 32 n).setWidth 8).toNat = n := by
      rw [BitVec.toNat_setWidth, hmod]
      omega
    have hzero : ((BitVec.ofNat 32 n).setWidth 8 >>> (8 * 0)).setWidth 8
        = (BitVec.ofNat 32 n).setWidth 8 := by simp
    have hback : ((BitVec.ofNat 32 n).setWidth 8).setWidth 32 = BitVec.ofNat 32 n := by
      apply BitVec.eq_of_toNat_eq
      rw [BitVec.toNat_setWidth, hbyte, hmod]
      omega
    rw [bytesOf, bytesOf, hzero, List.cons_append, smartReadSize, hbyte, if_neg hshort, hback]
    rfl

theorem reads_smartReadInt {b : Bool} {n : BitVec 32} (h : b = true → isInt16 n = true) :
    Reads (smartReadInt b) (smartWriteInt b n) n := by
  cases b with
  | false => exact reads_word n le_rfl
  | true =>
      have hn := h rfl
      rw [isInt16, Bool.and_eq_true, decide_eq_true_eq, decide_eq_true_eq] at hn
      have hback : (n.setWidth 16).signExtend 32 = n := by
        apply BitVec.eq_of_toInt_eq
        rw [BitVec.toInt_signExtend_of_le (by omega)]
        rw [BitVec.toInt_eq_toNat_bmod] at hn ⊢
        rw [BitVec.toInt_eq_toNat_bmod, BitVec.toNat_setWidth]
        have := n.isLt
        simp only [Int.bmod] at hn ⊢
        omega
      have hread := (reads_word (n.setWidth 16) (k := 2) le_rfl).map fun v => v.signExtend 32
      rwa [hback] at hread

theorem reads_smartReadString {s : Bytes} (h : s.length < 2 ^ 31) :
    Reads smartReadString (smartWriteBinary s) s := by
  refine (reads_smartReadSize h).bind (fun a => smartReadBinary a.toNat) fun rest => ?_
  have hmod : (BitVec.ofNat 32 s.length).toNat = s.length := by
    rw [BitVec.toNat_ofNat]
    omega
  have hlen : ¬ (s ++ rest).length < s.length := by simp
  rw [hmod, smartReadBinary, if_neg hlen, List.take_left, List.drop_left]

theorem intMapType_cases (m : List (BitVec 32 × Variant)) :
    intMapType m = .intMap ∨ intMapType m = .int16Map := by
  rw [intMapType]
  split
  · split
    · exact .inr rfl
    · exact .inl rfl
  · exact .inl rfl

/-- The keys between two small ones are small. -/
theorem isInt16_of_intMapType {m : List (BitVec 32 × Variant)} (hasc : Ascending intLess m)
    (h : intMapType m = .int16Map) : ∀ e ∈ m, isInt16 e.1 = true := by
  intro e he
  cases m with
  | nil => cases he
  | cons a m =>
      rw [intMapType, List.head?_cons, List.getLast?_eq_some_getLast (List.cons_ne_nil a m)] at h
      dsimp only at h
      split at h
      next hboth =>
        simp only [isInt16, Bool.and_eq_true, decide_eq_true_eq] at hboth ⊢
        have hfirst : a.1.toInt ≤ e.1.toInt := by
          rcases List.mem_cons.mp he with rfl | hm
          · exact Int.le_refl _
          · have := (List.pairwise_cons.mp hasc).1 e hm
            rw [intLess, BitVec.slt_iff_toInt_lt] at this
            exact Int.le_of_lt this
        have hlast : e.1.toInt ≤ ((a :: m).getLast (List.cons_ne_nil a m)).1.toInt := by
          have hsplit := List.dropLast_append_getLast (List.cons_ne_nil a m)
          rw [← hsplit] at he
          rcases List.mem_append.mp he with hd | hd
          · have hasc' := hasc
            rw [← hsplit] at hasc'
            have := (List.pairwise_append.mp hasc').2.2 e hd _ List.mem_cons_self
            rw [intLess, BitVec.slt_iff_toInt_lt] at this
            exact Int.le_of_lt this
          · exact Int.le_of_eq (congrArg (fun e => e.1.toInt) (List.mem_singleton.mp hd))
        omega
      next => cases h

/-! ### Variants -/

/-- A value reads back as itself from `s`, and `s` has as many bytes as it. -/
def Sent (v : Variant) (s : Bytes) : Prop :=
  s.length = v.size ∧ ∀ fuel, v.size ≤ fuel → Reads (readVariant fuel .null) s v

theorem sent_of_body {t : EncodeVariantType} {s : Bytes} {v : Variant}
    (hsize : v.size = 1 + s.length)
    (h : ∀ fuel, v.size ≤ fuel + 1 → Reads (readBody (readVariant fuel) .null t.code) s v) :
    Sent v (t.code :: s) := by
  refine ⟨by rw [List.length_cons, hsize, Nat.add_comm], fun fuel hfuel => ?_⟩
  obtain ⟨f, rfl⟩ : ∃ f, fuel = f + 1 := Nat.exists_eq_succ_of_ne_zero (by omega)
  exact h f hfuel

theorem toNat_count {n : Nat} (hn : n < 2 ^ 31) : (BitVec.ofNat 32 n).toNat = n := by
  rw [BitVec.toNat_ofNat]
  omega

/-- A count, and behind it what it counts. -/
theorem reads_counted {α : Type*} {n : Nat} (hn : n < 2 ^ 31)
    (next : Nat → Bytes → Option (α × Bytes)) {s : Bytes} {a : α} (h : Reads (next n) s a)
    (f : α → Variant) :
    Reads (fun s => (smartReadSize s).bind fun a => (next a.1.toNat a.2).map fun r => (f r.1, r.2))
      (smartWriteSize (.ofNat 32 n) ++ s) (f a) := by
  refine (reads_smartReadSize hn).bind (fun c s => (next c.toNat s).map fun r => (f r.1, r.2)) ?_
  rw [toNat_count hn]
  exact h.map f

mutual

/-- A variant that can be sent is written. -/
theorem sent_smartWrite : ∀ {v : Variant}, v.Portable → ∃ s, smartWrite v = some s ∧ Sent v s
  | .null, _ => ⟨_, rfl, sent_of_body rfl fun _ _ _ => rfl⟩
  | .bool b, _ => ⟨_, rfl, sent_of_body rfl fun _ _ _ => by cases b <;> rfl⟩
  | .int32 n, _ => by
      refine ⟨_, rfl, sent_of_body (by rw [length_smartWriteInt]; rfl) fun fuel _ => ?_⟩
      rw [getEncodeVariantType]
      split
      next h => exact (reads_smartReadInt (b := true) fun _ => h).map Variant.int32
      next h => exact (reads_smartReadInt (b := false) nofun).map Variant.int32
  | .int64 n, _ =>
      ⟨_, rfl, sent_of_body (by rw [length_bytesOf]; rfl) fun _ _ =>
        (reads_word n (k := 8) le_rfl).map Variant.int64⟩
  | .double _, h | .dateTime, h | .charsetString _, h => h.elim
  | .string s, h =>
      ⟨_, rfl, sent_of_body (by rw [length_smartWriteBinary h]; rfl) fun _ _ =>
        (reads_smartReadString h).map Variant.string⟩
  | .binary s, h =>
      ⟨_, rfl, sent_of_body (by rw [length_smartWriteBinary h]; rfl) fun _ _ =>
        (reads_smartReadString h).map Variant.binary⟩
  | .array l, h => by
      obtain ⟨s, hs, hlen, hread⟩ := sent_smartWriteArray h.2
      refine ⟨_, by rw [smartWrite, hs]; rfl, sent_of_body ?_ fun fuel hfuel => ?_⟩
      · rw [List.length_append, length_smartWriteSize h.1, hlen, Variant.size, Nat.add_assoc]
      · rw [Variant.size] at hfuel
        exact reads_counted h.1 (readMany (readVariant fuel .null))
          (hread fuel (by omega)) Variant.array
  | .intMap m, h => by
      obtain ⟨hcount, hasc, hm⟩ := h
      have hsmall : getEncodeVariantType (.intMap m) = .int16Map → ∀ e ∈ m, isInt16 e.1 = true :=
        isInt16_of_intMapType hasc
      obtain ⟨s, hs, hlen, hread⟩ := sent_smartWriteIntMap
        (b := getEncodeVariantType (.intMap m) = .int16Map)
        (fun h => hsmall (of_decide_eq_true h)) hm
      refine ⟨_, by rw [smartWrite, hs]; rfl, sent_of_body ?_ fun fuel hfuel => ?_⟩
      · rw [List.length_append, length_smartWriteSize hcount, hlen, Variant.size, Nat.add_assoc,
          Nat.add_assoc]
      · rw [Variant.size] at hfuel
        have hentries := hread fuel (by omega) [] hasc
        rw [getEncodeVariantType] at hentries ⊢
        rcases intMapType_cases m with h | h <;> rw [h] at hentries ⊢
        · exact reads_counted hcount
            (fun n => readMap intLess (smartReadInt false) (readVariant fuel) .null n []) hentries
            Variant.intMap
        · exact reads_counted hcount
            (fun n => readMap intLess (smartReadInt true) (readVariant fuel) .null n []) hentries
            Variant.intMap
  | .stringMap m, h => by
      obtain ⟨hcount, hasc, hm⟩ := h
      obtain ⟨s, hs, hlen, hread⟩ := sent_smartWriteStringMap hm
      refine ⟨_, by rw [smartWrite, hs]; rfl, sent_of_body ?_ fun fuel hfuel => ?_⟩
      · rw [List.length_append, length_smartWriteSize hcount, hlen, Variant.size]
      · rw [Variant.size] at hfuel
        exact reads_counted hcount
          (fun n => readMap stringLess smartReadString (readVariant fuel) .null n [])
          (hread fuel (by omega) [] hasc) Variant.stringMap
  | .nocaseStringMap m, h => by
      obtain ⟨hcount, hasc, hm⟩ := h
      obtain ⟨s, hs, hlen, hread⟩ := sent_smartWriteStringMap hm
      refine ⟨_, by rw [smartWrite, hs]; rfl, sent_of_body ?_ fun fuel hfuel => ?_⟩
      · rw [List.length_append, length_smartWriteSize hcount, hlen, Variant.size]
      · rw [Variant.size] at hfuel
        exact reads_counted hcount
          (fun n => readMap nocaseLess smartReadString (readVariant fuel) .null n [])
          (hread fuel (by omega) [] hasc) Variant.nocaseStringMap

theorem sent_smartWriteArray : ∀ {l : List Variant}, PortableArray l → ∃ s,
    smartWriteArray l = some s ∧ s.length = arraySize l ∧
      ∀ fuel, arraySize l ≤ fuel → Reads (readMany (readVariant fuel .null) l.length) s l
  | [], _ => ⟨[], rfl, rfl, fun _ _ _ => rfl⟩
  | v :: l, h => by
      obtain ⟨s, hs, hlen, hread⟩ := sent_smartWrite h.1
      obtain ⟨t, ht, htlen, htread⟩ := sent_smartWriteArray h.2
      refine ⟨s ++ t, by rw [smartWriteArray, hs, ht]; rfl, ?_, fun fuel hfuel => ?_⟩
      · rw [List.length_append, hlen, htlen, arraySize]
      · rw [arraySize] at hfuel
        exact (hread fuel (by omega)).readMany_cons (htread fuel (by omega))

theorem sent_smartWriteIntMap : ∀ {b : Bool} {m : List (BitVec 32 × Variant)},
    (b = true → ∀ e ∈ m, isInt16 e.1 = true) → PortableIntMap m → ∃ s,
      smartWriteIntMap b m = some s ∧ s.length = m.length * calcIntSize b + intMapSize m ∧
        ∀ fuel, intMapSize m ≤ fuel → ∀ m₀, Ascending intLess (m₀ ++ m) →
          Reads (readMap intLess (smartReadInt b) (readVariant fuel) .null m.length m₀) s (m₀ ++ m)
  | b, [], _, _ => by
      refine ⟨[], rfl, by simp [intMapSize], fun fuel _ m₀ _ rest => ?_⟩
      rw [List.append_nil]
      rfl
  | b, (k, v) :: m, hb, h => by
      obtain ⟨s, hs, hlen, hread⟩ := sent_smartWrite h.1
      obtain ⟨t, ht, htlen, htread⟩ := sent_smartWriteIntMap
        (fun hb₁ => (List.forall_mem_cons.mp (hb hb₁)).2) h.2
      refine ⟨_, by rw [smartWriteIntMap, hs, ht]; rfl, ?_, fun fuel hfuel m₀ hasc => ?_⟩
      · rw [List.length_append, List.length_append, length_smartWriteInt, hlen, htlen, intMapSize,
          List.length_cons, Nat.succ_mul]
        omega
      · rw [intMapSize] at hfuel
        have hlast : ∀ e₁ ∈ m₀, intLess e₁.1 k = true :=
          fun e₁ he₁ => (List.pairwise_append.mp hasc).2.2 e₁ he₁ (k, v) List.mem_cons_self
        have hentries := htread fuel (by omega) (m₀ ++ [(k, v)]) (by simpa using hasc)
        rw [List.append_assoc] at hentries
        exact Reads.readMap_cons (e := (k, v)) hlast
          (reads_smartReadInt fun hb₁ => (List.forall_mem_cons.mp (hb hb₁)).1)
          (hread fuel (by omega)) hentries

theorem sent_smartWriteStringMap : ∀ {m : List (Bytes × Variant)}, PortableStringMap m → ∃ s,
    smartWriteStringMap m = some s ∧ s.length = stringMapSize m ∧
      ∀ {lt : Bytes → Bytes → Bool} (fuel), stringMapSize m ≤ fuel → ∀ m₀, Ascending lt (m₀ ++ m) →
        Reads (readMap lt smartReadString (readVariant fuel) .null m.length m₀) s (m₀ ++ m)
  | [], _ => by
      refine ⟨[], rfl, rfl, fun fuel _ m₀ _ rest => ?_⟩
      rw [List.append_nil]
      rfl
  | (k, v) :: m, h => by
      obtain ⟨hk, hv, hm⟩ := h
      obtain ⟨s, hs, hlen, hread⟩ := sent_smartWrite hv
      obtain ⟨t, ht, htlen, htread⟩ := sent_smartWriteStringMap hm
      refine ⟨_, by rw [smartWriteStringMap, hs, ht]; rfl, ?_, fun {lt} fuel hfuel m₀ hasc => ?_⟩
      · rw [List.length_append, List.length_append, length_smartWriteBinary hk, hlen, htlen,
          stringMapSize]
        omega
      · rw [stringMapSize] at hfuel
        have hlast : ∀ e₁ ∈ m₀, lt e₁.1 k = true :=
          fun e₁ he₁ => (List.pairwise_append.mp hasc).2.2 e₁ he₁ (k, v) List.mem_cons_self
        have hentries := htread fuel (by omega) (m₀ ++ [(k, v)]) (by simpa using hasc)
        rw [List.append_assoc] at hentries
        exact Reads.readMap_cons (e := (k, v)) hlast (reads_smartReadString hk)
          (hread fuel (by omega)) hentries

end

/-! ### Packages -/

theorem reads_header :
    Reads ProtocolHeader.loadFromBinary (({} : ProtocolHeader).saveToBinary) {} := by
  intro rest
  rw [ProtocolHeader.loadFromBinary, ProtocolHeader.saveToBinary, List.append_assoc,
    reads_word (w := 16) (k := 2) _ (by decide), Option.bind_some,
    reads_word (w := 16) (k := 2) _ (by decide), Option.bind_some]
  rfl

theorem length_saveToBinary {v : Variant} {s t : Bytes} (ht : Sent v t) (hw : smartWrite v = some t)
    (hs : saveToBinary v = some s) : s.length = 8 + v.size := by
  rw [saveToBinary, hw] at hs
  obtain rfl := Option.some.inj hs
  simp only [ProtocolHeader.saveToBinary, List.length_append, length_bytesOf, ht.1]
  omega

/-- Below `2^32`, the size is what `calcVariantSize` tells. -/
theorem toNat_calcVariantSize (v : Variant) : (calcVariantSize v).toNat = v.size % 2 ^ 32 := by
  rw [calcVariantSize_eq, BitVec.toNat_ofNat]

theorem loadWithoutSize_sent {v : Variant} {t : Bytes} (ht : Sent v t) :
    loadWithoutSize (({} : ProtocolHeader).saveToBinary ++ t) .null = some (v, []) := by
  have hread := ht.2 t.length (Nat.le_of_eq ht.1.symm) []
  rw [List.append_nil] at hread
  rw [loadWithoutSize, reads_header, Option.bind_some]
  exact hread

/-- **A variant that can be sent comes back.**  It is saved, in eight bytes more than it has; all
bytes are read again, and give the variant.  `calcVariantSize` tells their number if the variant
has less than `2^32` bytes, and only then. -/
theorem roundTrip {v : Variant} (h : v.Portable) : ∃ s, saveToBinary v = some s ∧
    s.length = 8 + v.size ∧ (s.length = 8 + (calcVariantSize v).toNat ↔ v.size < 2 ^ 32) ∧
    loadFromBinary s .null = some (v, []) ∧ loadWithoutSize (s.drop 4) .null = some (v, []) := by
  obtain ⟨t, hw, ht⟩ := sent_smartWrite h
  have hs : saveToBinary v = some (bytesOf (4 + calcVariantSize v) 4
      ++ (({} : ProtocolHeader).saveToBinary ++ t)) := by
    rw [saveToBinary, hw, Option.map_some]
  have hlen := length_saveToBinary ht hw hs
  have htake : (bytesOf (4 + calcVariantSize v) 4
      ++ (({} : ProtocolHeader).saveToBinary ++ t)).take 4 = bytesOf (4 + calcVariantSize v) 4 :=
    List.take_left' (length_bytesOf _ 4)
  have hdrop : (bytesOf (4 + calcVariantSize v) 4
      ++ (({} : ProtocolHeader).saveToBinary ++ t)).drop 4
        = ({} : ProtocolHeader).saveToBinary ++ t := List.drop_left' (length_bytesOf _ 4)
  have hload := loadWithoutSize_sent ht
  have hword : ofBytes (0 : BitVec 32) (bytesOf (4 + calcVariantSize v) 4)
      = 4 + calcVariantSize v := by
    have hzero : (4 + calcVariantSize v) >>> (8 * 4) = 0 := BitVec.ushiftRight_eq_zero le_rfl
    rw [← hzero, ofBytes_bytesOf]
  refine ⟨_, hs, hlen, ?_, ?_, ?_⟩
  · rw [hlen, toNat_calcVariantSize]
    omega
  · -- the length in front is that of the rest, modulo `2^32`
    have hsmall : (4 + calcVariantSize v).toNat ≤ 4 + v.size := by
      rw [BitVec.toNat_add, toNat_calcVariantSize]
      exact (Nat.mod_le _ _).trans (Nat.add_le_add_left (Nat.mod_le _ _) 4)
    rw [loadFromBinary, hlen, htake, hword, hdrop, if_neg (by omega), if_neg (by omega)]
    exact hload
  · rw [hdrop]
    exact hload

/-- A list of a number, a string and a map whose keys differ in more than the case of their
letters. -/
theorem roundTrip_array :
    let v : Variant := .array [.int32 (-5), .string [104, 105],
      .nocaseStringMap [([65], .bool true), ([98], .intMap [(40000, .null)])]]
    ∃ s, saveToBinary v = some s ∧ s.length = 8 + v.size ∧
      (s.length = 8 + (calcVariantSize v).toNat ↔ v.size < 2 ^ 32) ∧
      loadFromBinary s .null = some (v, []) ∧ loadWithoutSize (s.drop 4) .null = some (v, []) :=
  roundTrip
    ⟨by decide, trivial, by unfold Variant.Portable; decide,
      ⟨by decide, by unfold Ascending; decide,
    by decide, trivial, by decide, ⟨by decide, by unfold Ascending; decide, trivial, trivial⟩,
    trivial⟩, trivial⟩

/-- Three strings of `2^31 - 1` bytes are more than a `rfc_uint_32` counts. -/
theorem not_sized : ¬ ∀ v : Variant, v.Portable → ∃ s, saveToBinary v = some s ∧
    s.length = 8 + (calcVariantSize v).toNat ∧ loadFromBinary s .null = some (v, []) ∧
    loadWithoutSize (s.drop 4) .null = some (v, []) := by
  intro h
  obtain ⟨c, hc⟩ : ∃ c : Bytes, c.length = 2147483647 :=
    ⟨List.replicate 2147483647 0, List.length_replicate⟩
  have hstring : (Variant.string c).Portable := by
    rw [Variant.Portable, hc]
    omega
  have hv : (Variant.array [.string c, .string c, .string c]).Portable :=
    ⟨by simp, hstring, hstring, hstring, trivial⟩
  have hsize : (Variant.array [.string c, .string c, .string c]).size = 6442450958 := by
    simp [Variant.size, arraySize, hc, smartCalcSize]
  obtain ⟨t, hw, ht⟩ := sent_smartWrite hv
  obtain ⟨s, hs, hlen, -⟩ := h _ hv
  rw [length_saveToBinary ht hw hs, toNat_calcVariantSize, hsize] at hlen
  omega

end Edm.Protocolbuf
