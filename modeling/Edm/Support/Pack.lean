import Edm.Support.Bytes

/-!
# Support — Pack

Messages of numbers and records.  `pack` writes numbers one behind the other, four bytes each, and
`ofBe32_drop_pack` reads the one at an index; `be16` is the count in front of the records, which
keeps only its low sixteen bits.  `readItems` reads records one behind the other with a reader
that says where the next one starts; it reads back what was written record by record
(`readItems_flatMap`).
-/

namespace Support

/-- `htonl` of the numbers, one behind the other. -/
def pack (l : List Int) : Text := l.flatMap be32

/-- The two bytes of `htons(n)`. -/
def be16 (n : Nat) : Text := [Char.ofNat (n / 256 % 256), Char.ofNat (n % 256)]

/-- `ntohs` of the `unsigned short` at the start of a memory. -/
def ofBe16 (s : Text) : Nat := 256 * (s.getD 0 nul).toNat + (s.getD 1 nul).toNat

/-- The `n` records at the start of a memory, with what is behind them. -/
def readItems {A : Type*} (item : Text → Option (A × Text)) : Nat → Text → Option (List A × Text)
  | 0, s => some ([], s)
  | n + 1, s => (item s).bind fun a => (readItems item n a.2).map fun r => (a.1 :: r.1, r.2)

@[simp] theorem length_be16 (n : Nat) : (be16 n).length = 2 := rfl

@[simp] theorem length_pack (l : List Int) : (pack l).length = 4 * l.length := by
  induction l with
  | nil => rfl
  | cons z l ih =>
      have hcons : pack (z :: l) = be32 z ++ pack l := rfl
      rw [hcons, List.length_append, ih, length_be32, List.length_cons]
      omega

/-- The number at an index. -/
theorem ofBe32_drop_pack {z : Int} {tail : Text} : ∀ {l : List Int} {i : Nat}, l[i]? = some z →
    ofBe32 ((pack l ++ tail).drop (4 * i)) = int32 z
  | [], _, h => by cases h
  | y :: l, 0, h => by
      obtain rfl : y = z := Option.some.inj h
      have hcons : pack (y :: l) ++ tail = be32 y ++ (pack l ++ tail) := rfl
      rw [Nat.mul_zero, List.drop_zero, hcons]
      exact ofBe32_append y _
  | y :: l, i + 1, h => by
      have hcons : (pack (y :: l) ++ tail).drop (4 * (i + 1)) = (pack l ++ tail).drop (4 * i) := rfl
      rw [hcons]
      exact ofBe32_drop_pack h

/-- The first four bytes are enough. -/
theorem ofBe32_append_left {s : Text} (h : 4 ≤ s.length) (t : Text) :
    ofBe32 (s ++ t) = ofBe32 s := by
  match s, h with
  | _ :: _ :: _ :: _ :: _, _ => rfl

theorem ofBe16_append (n : Nat) (s : Text) : ofBe16 (be16 n ++ s) = n % 65536 := by
  have hbyte : ∀ m, (Char.ofNat (m % 256)).toNat = m % 256 := by
    intro m
    have hlt : m % 256 < 256 := Nat.mod_lt _ (by omega)
    rw [Char.ofNat, dif_pos (Or.inl (by omega))]
    rfl
  have hread : ofBe16 (be16 n ++ s)
      = 256 * (Char.ofNat (n / 256 % 256)).toNat + (Char.ofNat (n % 256)).toNat := rfl
  rw [hread, hbyte, hbyte]
  omega

/-- As many records are read as were asked for. -/
theorem length_readItems {A : Type*} {item : Text → Option (A × Text)} : ∀ {n : Nat} {s : Text}
    {r : List A × Text}, readItems item n s = some r → r.1.length = n
  | 0, _, _, h => by
      cases h
      rfl
  | n + 1, s, _, h => by
      rw [readItems, Option.bind_eq_some_iff] at h
      obtain ⟨a, _, h⟩ := h
      obtain ⟨r, hr, rfl⟩ := Option.map_eq_some_iff.mp h
      rw [List.length_cons, length_readItems hr]

/-- What was written record by record is read back. -/
theorem readItems_flatMap {A B : Type*} {item : Text → Option (A × Text)} {enc : B → Text}
    {dec : B → A} {t : Text} : ∀ {l : List B},
    (∀ b ∈ l, ∀ rest, item (enc b ++ rest) = some (dec b, rest)) →
      readItems item l.length (l.flatMap enc ++ t) = some (l.map dec, t)
  | [], _ => rfl
  | b :: l, h => by
      obtain ⟨hb, hl⟩ := List.forall_mem_cons.mp h
      rw [List.length_cons, readItems, List.flatMap_cons, List.append_assoc, hb, Option.bind_some,
        readItems_flatMap hl, Option.map_some, List.map_cons]

end Support
