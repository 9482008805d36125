import Edm.Deliver.Template
import Edm.Support.Base64
import Edm.Support.Between
import Edm.Support.Split

/-!
# Deliver — Edcode

`base64_encode` and `base64_decode`, and `base64_replace`, which encodes what stands between
`<$BASE64>` and `</$BASE64>` in a text.

The lengths are `int`.  Up to `maxEncoded` bytes, the code is the encoding of base 64
(`encoded_eq_iff`).  For a longer text `ret_len` does not fit an `int` and the program exits, or the
length that is handed over is that of another text.  Decoding writes behind its array `need` at the
first digit, so that no text comes back (`not_roundTrips`).
`base64Replace_iff`: the marked parts of a text are encoded, and nothing else, if and only if none
of them is longer.
-/

namespace Edm.Deliver.Edcode

open Support

/-! ### The two functions -/

/-- `malloc` of an `int`: a negative number is more than there is. -/
def malloc (size : Int) : Option Nat := if size < 0 then none else some size.toNat

/-- `ret_len` of `base64_encode`. -/
def encodeLen (data_len : Int) : Int :=
  let ret_len := data_len.tdiv 3
  let temp := data_len.tmod 3
  let ret_len := if temp > 0 then ret_len + 1 else ret_len
  int32 (int32 (ret_len * 4) + 1)

/-- `base64_encode`: the size of the buffer, and what is written in front of the NUL; `none` is its
`exit`. -/
def base64Encode (data : Text) (data_len : Int) : Option (Nat × Text) :=
  (malloc (encodeLen data_len)).map fun size =>
    (size, Deliver.base64Encode (data.take data_len.toNat))

/-- `find_pos`: the last place in `base`, its NUL included.  `none` is the difference to a null
pointer. -/
def findPos (ch : Char) : Option Nat :=
  ((base ++ [nul]).reverse.idxOf? ch).map fun i => base.length - i

/-- The digits `need`, up to four: one byte for each of them, but three at most. -/
def decodeGroup (need : Text) : Option Text :=
  (need.mapM findPos).map fun ps =>
    let prepare := ps.foldl (fun prepare p => prepare <<< 6 ||| p) 0 <<< ((4 - need.length) * 6)
    (List.range (min 3 need.length)).map fun i => Char.ofNat (prepare >>> ((2 - i) * 8) &&& 0xFF)

/-- `memset` of `n` bytes of an array of `room`; `none` when it goes over its end. -/
def memset (room n : Nat) : Option Unit := if n ≤ room then some () else none

/-- `while (tmp < (data_len - equal_count))`; each turn sets four bytes of `char need[3]`. -/
def decodeLoop : Text → Option Text
  | a :: b :: c :: d :: data =>
      (memset 3 4).bind fun _ => (decodeGroup [a, b, c, d]).bind fun f =>
        (decodeLoop data).map (f ++ ·)
  | [] => some []
  | need => (memset 3 4).bind fun _ => decodeGroup need

/-- `ret_len` of `base64_decode`. -/
def decodeLen (data_len : Int) : Nat → Int
  | 0 => data_len.tdiv 4 * 3 + 4
  | 1 => data_len.tdiv 4 * 3 + 4
  | 2 => data_len.tdiv 4 * 3 + 3
  | _ => data_len.tdiv 4 * 3 + 2

/-- `base64_decode`, of three bytes or more; it reads the last three first. -/
def base64Decode (data : Text) (data_len : Int) : Option (Nat × Text) :=
  if data_len < 3 ∨ data.length < data_len then none
  else
    let equal_count := ((data.take data_len.toNat).drop (data_len.toNat - 3)).count '='
    (malloc (decodeLen data_len equal_count)).bind fun size =>
      (decodeLoop (data.take (data_len.toNat - equal_count))).map fun ret => (size, ret)

/-! ### The digits -/

theorem base_getD (m : Nat) : base.getD (m % 64) nul = digit64 m := by
  have hall : ∀ k < 64, base.getD k nul = digits64.getD k '=' := by decide +kernel
  exact hall _ (Nat.mod_lt _ (by decide))

/-- Four digits for three bytes, or for what is left of them. -/
theorem base64Group_eq (bytes : List Nat) (n : Nat)
    (hn : n = bytes.getD 0 0 * 2 ^ 16 + bytes.getD 1 0 * 2 ^ 8 + bytes.getD 2 0) :
    base64Group bytes = [digit64 (n / 2 ^ 18),
      if bytes.length < 1 then '=' else digit64 (n / 2 ^ 12),
      if bytes.length < 2 then '=' else digit64 (n / 2 ^ 6),
      if bytes.length < 3 then '=' else digit64 n] := by
  have hpad : base.getD 64 nul = '=' := by decide +kernel
  have hrange : List.range 4 = [0, 1, 2, 3] := rfl
  rw [base64Group, ← hn, hrange, hpad]
  simp only [List.map, Nat.shiftRight_eq_div_pow, base_getD]
  simp

/-- `data[tmp] & 0xFF`. -/
def lowByte (c : Char) : Char := Char.ofNat (c.toNat % 256)

theorem toNat_lowByte (c : Char) : (lowByte c).toNat = c.toNat % 256 := by
  have hvalid : (c.toNat % 256).isValidChar := Or.inl (by omega)
  rw [lowByte, Char.ofNat, dif_pos hvalid]
  rfl

theorem map_lowByte {x : Text} (hb : IsBytes x) : x.map lowByte = x := by
  refine (List.map_congr_left fun c hc => ?_).trans (List.map_id x)
  rw [lowByte, Nat.mod_eq_of_lt (hb c hc), Char.ofNat_toNat]
  rfl

/-- What is written is the encoding of the low bytes. -/
theorem base64Encode_eq (x : Text) : Deliver.base64Encode x = base64 (x.map lowByte) := by
  induction x using triples_induction with
  | nil => rfl
  | one a =>
      rw [Deliver.base64Encode, base64Group_eq _ _ rfl]
      simp [base64, toNat_lowByte]
  | two a b =>
      rw [Deliver.base64Encode, base64Group_eq _ _ rfl]
      simp [base64, toNat_lowByte]
  | more a b c s ih =>
      rw [Deliver.base64Encode, ih, base64Group_eq _ _ rfl]
      simp [base64, toNat_lowByte]

/-- There is no turn without harm. -/
theorem decodeLoop_eq_some_iff {data r : Text} : decodeLoop data = some r ↔ data = [] ∧ r = [] := by
  have hneed : memset 3 4 = none := rfl
  match data with
  | [] => simp [decodeLoop, eq_comm]
  | _ :: _ :: _ :: _ :: _ | [_] | [_, _] | [_, _, _] => simp [decodeLoop, hneed]

/-- `base64_decode` comes to its end where there is nothing to decode. -/
theorem base64Decode_eq_some_iff {data r : Text} {size : Nat} :
    base64Decode data data.length = some (size, r) ↔ data = "===".toList ∧ size = 2 ∧ r = [] := by
  rw [base64Decode]
  constructor
  · intro h
    obtain ⟨hlen, h⟩ := Option.ite_none_left_eq_some.mp h
    obtain ⟨size', hsize, h⟩ := Option.bind_eq_some_iff.mp h
    obtain ⟨r', hr, h⟩ := Option.map_eq_some_iff.mp h
    cases h
    rw [Int.toNat_natCast, List.take_length] at hsize hr
    obtain ⟨htake, rfl⟩ := decodeLoop_eq_some_iff.mp hr
    have hle := List.count_le_length (a := '=') (l := data.drop (data.length - 3))
    rw [List.length_drop] at hle
    have hnone := congrArg List.length htake
    rw [List.length_take, List.length_nil] at hnone
    have hthree : data.length = 3 := by omega
    rw [hthree, Nat.sub_self, List.drop_zero] at hle hnone hsize
    have hcount : data.count '=' = 3 := by omega
    have hall := List.count_eq_length.mp (hcount.trans hthree.symm)
    have hdata : data = "===".toList :=
      List.eq_replicate_iff.mpr ⟨hthree, fun c hc => (hall c hc).symm⟩
    subst hdata
    exact ⟨rfl, (Option.some.inj hsize).symm, rfl⟩
  · rintro ⟨rfl, rfl, rfl⟩
    rfl

/-! ### Lengths that fit an `int` -/

/-- The length of the longest text `base64_encode` has a buffer for. -/
def maxEncoded : Nat := 1610612733

variable {n : Nat}

theorem encodeLen_eq (n : Nat) : encodeLen n = int32 (((n + 2) / 3 * 4 : Nat) + 1) := by
  have hdiv : (n : Int).tdiv 3 = ((n / 3 : Nat) : Int) := rfl
  have hmod : (n : Int).tmod 3 = ((n % 3 : Nat) : Int) := rfl
  have hceil : (if ((n % 3 : Nat) : Int) > 0 then ((n / 3 : Nat) : Int) + 1 else (n / 3 : Nat)) * 4
      = ((n + 2) / 3 * 4 : Nat) := by
    split <;> omega
  rw [encodeLen, hdiv, hmod, hceil]
  simp only [int32, Int.bmod_add_bmod]

theorem malloc_encodeLen (h : n ≤ maxEncoded) :
    malloc (encodeLen n) = some ((n + 2) / 3 * 4 + 1) := by
  have hfit : n ≤ 1610612733 := h
  rw [encodeLen_eq, int32_of_range (by omega) (by omega), malloc, if_neg (by omega)]
  congr 1

theorem exists_int32_eq (z : Int) : ∃ q, int32 z = z - 2 ^ 32 * q :=
  ⟨_, Int.bmod_eq_self_sub_mul_bdiv z (2 ^ 32)⟩

theorem malloc_encodeLen_none (h : maxEncoded < n) (hint : n < 2 ^ 31) :
    malloc (encodeLen n) = none := by
  have hlong : 1610612733 < n := h
  obtain ⟨q, hq⟩ := exists_int32_eq (((n + 2) / 3 * 4 : Nat) + 1)
  have hlow := int32_lower (((n + 2) / 3 * 4 : Nat) + 1)
  have hupp := int32_upper (((n + 2) / 3 * 4 : Nat) + 1)
  rw [encodeLen_eq, malloc, if_pos (by omega)]

/-- A length that does not fit is handed over as a smaller one. -/
theorem toNat_int32_lt (hint : 2 ^ 31 ≤ n) :
    (int32 n).toNat = 0 ∨ (int32 n).toNat + 2 ^ 32 ≤ n := by
  obtain ⟨q, hq⟩ := exists_int32_eq n
  have hupp := int32_upper n
  omega

theorem eq_of_base64Encode {data : Text} {data_len : Int} {size : Nat} {s : Text}
    (h : base64Encode data data_len = some (size, s)) :
    s = base64 ((data.take data_len.toNat).map lowByte) := by
  obtain ⟨size', -, h⟩ := Option.map_eq_some_iff.mp h
  obtain ⟨rfl, rfl⟩ := Prod.mk.inj h
  exact base64Encode_eq _

/-! ### The round trip -/

theorem base64Encode_of_le {x : Text} (h : x.length ≤ maxEncoded) :
    base64Encode x (int32 x.length)
      = some ((x.length + 2) / 3 * 4 + 1, base64 (x.map lowByte)) := by
  have hfit : x.length ≤ 1610612733 := h
  rw [base64Encode, int32_of_range (by omega) (by omega), malloc_encodeLen h, Int.toNat_natCast,
    List.take_length, base64Encode_eq]
  rfl

/-- Of a longer text less is encoded than it has, or nothing. -/
theorem base64Encode_short {x s : Text} {size : Nat} (h : maxEncoded < x.length)
    (henc : base64Encode x (int32 x.length) = some (size, s)) : s.length < x.length := by
  have hlong : 1610612733 < x.length := h
  rcases Nat.lt_or_ge x.length (2 ^ 31) with hint | hint
  -- up to `2^31` the size is negative; behind that, it is the length that has wrapped
  · rw [base64Encode, int32_of_range (by omega) (by omega), malloc_encodeLen_none h hint] at henc
    cases henc
  · have hlt := toNat_int32_lt hint
    have hupp := int32_upper x.length
    rw [eq_of_base64Encode henc, length_base64, List.length_map, List.length_take]
    omega

/-- The encoding fits its buffer, and decoding gives the text back. -/
def RoundTrips (x : Text) : Prop :=
  ∃ size, base64Encode x (int32 x.length) = some (size, base64 x) ∧
    size = 4 * ((x.length + 2) / 3) + 1 ∧ (base64 x).length + 1 ≤ size ∧
    ∃ size₁ ret, base64Decode (base64 x) (int32 (base64 x).length) = some (size₁, ret) ∧
      cstr ret = x

/-- **The codec.**  No string comes back from its encoding: `base64_decode` writes over the end of
`need`, or the encoding has no buffer. -/
theorem not_roundTrips {x : Text} (hne : x ≠ []) : ¬ RoundTrips x := by
  rintro ⟨size, henc, -, -, size₁, ret, hdec, -⟩
  have hpos := List.length_pos_iff.mpr hne
  have hlen := length_base64 x
  rcases Nat.lt_or_ge maxEncoded x.length with hlong | hle
  · have hshort := base64Encode_short hlong henc
    omega
  · have hfit : x.length ≤ 1610612733 := hle
    rw [int32_of_range (by omega) (by omega)] at hdec
    have hthree := congrArg List.length (base64Decode_eq_some_iff.mp hdec).1
    rw [hlen] at hthree
    simp only [String.length_toList] at hthree
    have hfour : "===".length = 3 := rfl
    omega

theorem not_roundTrips_hello : ¬ RoundTrips "hello".toList := not_roundTrips (by decide)

theorem letter_not_decoded : ¬ ∀ x : Text, IsBytes x → nul ∉ x → x ≠ [] → RoundTrips x := by
  intro h
  obtain ⟨-, -, -, -, size₁, ret, hdec, -⟩ := h "A".toList (by decide) (by decide) (by decide)
  have hnone : base64Decode (base64 "A".toList) (int32 (base64 "A".toList).length) = none := by
    decide +kernel
  cases hnone.symm.trans hdec

/-! ### The marked parts of a text -/

def bgptr : Text := "<$BASE64>".toList

def edptr : Text := "</$BASE64>".toList

/-- How `base64_replace` ends. -/
inductive Ends where
  | returns (text : Text)
  | exits
  deriving DecidableEq

/-- `while(offset < text.length())`; `none` if it does not end with this fuel. -/
def replaceLoop : Nat → Text → Nat → Option Ends
  | 0, _, _ => none
  | fuel + 1, text, offset =>
      if offset < text.length then
        match nextMarked bgptr edptr (text.drop offset) with
        | none => some (.returns text)
        | some (before, result, behind) =>
            let p_start := offset + before.length
            (base64Encode result (int32 result.length)).elim (some .exits) fun r =>
              replaceLoop fuel (text.take p_start ++ (r.2 ++ behind)) (p_start + result.length)
      else some (.returns text)

/-- `base64_replace`. -/
def base64Replace (text : Text) : Option Ends := replaceLoop (text.length + 1) text 0

/-- What `base64_replace` puts for a marked part. -/
def encoded (result : Text) : Option Text :=
  (base64Encode result (int32 result.length)).map Prod.snd

theorem bgptr_ne_nil : bgptr ≠ [] := by decide

theorem encoded_none {result : Text} (h : base64Encode result (int32 result.length) = none) :
    encoded result = none := by
  rw [encoded, h]
  rfl

theorem encoded_some {result pstr : Text} {size : Nat}
    (h : base64Encode result (int32 result.length) = some (size, pstr)) :
    encoded result = some pstr := by
  rw [encoded, h]
  rfl

theorem length_pstr_le {result pstr : Text} {size : Nat}
    (h : base64Encode result (int32 result.length) = some (size, pstr)) :
    pstr.length ≤ (result.length + 2) / 3 * 4 := by
  rw [eq_of_base64Encode h, length_base64, List.length_map, List.length_take]
  omega

section Step
variable {text before result behind pstr : Text} {offset size fuel : Nat}

theorem length_of_nextMarked
    (h : nextMarked bgptr edptr (text.drop offset) = some (before, result, behind)) :
    text.length = offset + before.length + 9 + result.length + 10 + behind.length := by
  have hlen := congrArg List.length (eq_of_nextMarked h)
  have hbg : bgptr.length = 9 := rfl
  have hed : edptr.length = 10 := rfl
  simp only [List.length_append, List.length_drop, hbg, hed] at hlen
  omega

/-- Each turn leaves less of the text. -/
theorem length_rest_lt
    (h : nextMarked bgptr edptr (text.drop offset) = some (before, result, behind))
    (henc : base64Encode result (int32 result.length) = some (size, pstr))
    (hfuel : text.length - offset < fuel + 1) :
    (text.take (offset + before.length) ++ (pstr ++ behind)).length
      - (offset + before.length + result.length) < fuel := by
  have hlen := length_of_nextMarked h
  have hshort := length_pstr_le henc
  simp only [List.length_append, List.length_take]
  omega

/-- The loop is the scan that goes on in its own text, by induction on the fuel. -/
theorem replaceLoop_iff {o : Text} (h : text.length - offset < fuel) :
    replaceLoop fuel text offset = some (.returns o) ↔
      ∃ out, o = text.take offset ++ out ∧
        Rescans bgptr edptr encoded (text.drop offset) out := by
  induction fuel generalizing text offset with
  | zero => exact absurd h (Nat.not_lt_zero _)
  | succ fuel ih =>
      have hreturn : ∀ {t : Text}, some (Ends.returns t) = some (.returns o) ↔ o = t := fun {t} =>
        ⟨fun ht => (Ends.returns.inj (Option.some.inj ht)).symm, fun ht => ht ▸ rfl⟩
      rw [replaceLoop]
      cases hnext : nextMarked bgptr edptr (text.drop offset) with
      | none =>
          rw [ite_self, hreturn]
          simp only [rescans_none_iff hnext, exists_eq_right, List.take_append_drop]
      | some q =>
          obtain ⟨before, result, behind⟩ := q
          have hlen := length_of_nextMarked hnext
          rw [if_pos (by omega)]
          dsimp only
          simp only [rescans_some_iff hnext]
          cases henc : base64Encode result (int32 result.length) with
          | none => simp [encoded_none henc]
          | some r =>
              obtain ⟨size, pstr⟩ := r
              have hfront : text.take (offset + before.length) = text.take offset ++ before := by
                rw [List.take_add, eq_of_nextMarked hnext, List.take_left]
              have hplace : (text.take (offset + before.length)).length
                  = offset + before.length := by
                rw [List.length_take]
                omega
              have htake : (text.take (offset + before.length) ++ (pstr ++ behind)).take
                  (offset + before.length + result.length)
                  = text.take offset ++ (before ++ (pstr ++ behind).take result.length) := by
                rw [List.take_add, List.take_left' hplace, List.drop_left' hplace, hfront,
                  List.append_assoc]
              have hdrop : (text.take (offset + before.length) ++ (pstr ++ behind)).drop
                  (offset + before.length + result.length)
                  = (pstr ++ behind).drop result.length := by
                rw [← List.drop_drop, List.drop_left' hplace]
              rw [Option.elim_some, ih (length_rest_lt hnext henc h), encoded_some henc, htake,
                hdrop]
              constructor
              · rintro ⟨out, rfl, hscan⟩
                exact ⟨_, by simp only [List.append_assoc], pstr, rfl, out, hscan, rfl⟩
              · rintro ⟨_, rfl, y, hy, out, hscan, rfl⟩
                cases hy
                exact ⟨out, by simp only [List.append_assoc], hscan⟩

end Step

theorem encoded_eq_iff (x : Text) :
    encoded x = some (base64 (x.map lowByte)) ↔ x.length ≤ maxEncoded := by
  constructor
  · intro h
    refine Nat.le_of_not_lt fun hlong => ?_
    obtain ⟨⟨size, s⟩, henc, hs⟩ := Option.map_eq_some_iff.mp h
    have hshort := base64Encode_short hlong henc
    have hlen : s.length = (base64 (x.map lowByte)).length := congrArg List.length hs
    rw [length_base64, List.length_map] at hlen
    omega
  · intro h
    rw [encoded, base64Encode_of_le h]
    rfl

/-- **The markers.**  The marked parts of a text are encoded, and nothing else is changed, if and
only if each of them has an encoding with a length. -/
theorem base64Replace_iff {text : Text} (hb : IsBytes text) :
    base64Replace text = some (.returns (mapBetween bgptr_ne_nil edptr base64 text)) ↔
      ∀ x ∈ between bgptr_ne_nil edptr text, x.length ≤ maxEncoded := by
  have hparts : mapBetween bgptr_ne_nil edptr base64 text
      = mapBetween bgptr_ne_nil edptr (fun x => base64 (x.map lowByte)) text :=
    mapBetween_congr fun x hx => by
      rw [map_lowByte fun c hc => hb c (mem_of_mem_between hx hc)]
  have hlong : ∀ x : Text, x.length ≤ (base64 (x.map lowByte)).length := by
    intro x
    rw [length_base64, List.length_map]
    omega
  have hclear : ∀ x : Text, '<' ∉ base64 (x.map lowByte) := fun x hm =>
    forall_base64 (P := ('<' ≠ ·)) (by decide) (by decide) _ _ hm rfl
  -- a part that is too long leaves less than it has, which no other part makes up for
  have hwrong : ∀ x y, encoded x = some y → y = base64 (x.map lowByte) ∨
      y.length < x.length ∧ x.length < (base64 (x.map lowByte)).length := by
    intro x y hy
    rcases Nat.lt_or_ge maxEncoded x.length with hlt | hle
    · obtain ⟨⟨size, s⟩, henc, rfl⟩ := Option.map_eq_some_iff.mp hy
      have hshort := base64Encode_short hlt henc
      refine Or.inr ⟨hshort, ?_⟩
      rw [length_base64, List.length_map]
      omega
    · rw [(encoded_eq_iff x).mpr hle] at hy
      exact Or.inl (Option.some.inj hy).symm
  have hscan : Rescans bgptr edptr encoded text
      (mapBetween bgptr_ne_nil edptr (fun x => base64 (x.map lowByte)) text) ↔
        ∀ x ∈ between bgptr_ne_nil edptr text, encoded x = some (base64 (x.map lowByte)) :=
    rescans_iff (a := '<') (t := "$BASE64>".toList) bgptr_ne_nil hclear hlong hwrong text
  have hfuel : text.length - 0 < text.length + 1 := by omega
  rw [hparts, base64Replace, replaceLoop_iff hfuel]
  simp only [List.take_zero, List.nil_append, List.drop_zero, exists_eq_left', hscan,
    encoded_eq_iff]

/-- A text with two marked parts, one of them empty. -/
def markedText : Text := "a<$BASE64>hello</$BASE64>b<$BASE64></$BASE64>".toList

theorem base64Replace_markedText : base64Replace markedText
    = some (.returns (mapBetween bgptr_ne_nil edptr base64 markedText)) := by
  refine (base64Replace_iff (by decide)).mpr ?_
  have hfirst : nextMarked bgptr edptr markedText
      = some ("a".toList, "hello".toList, "b<$BASE64></$BASE64>".toList) := by decide +kernel
  have hsecond : nextMarked bgptr edptr "b<$BASE64></$BASE64>".toList
      = some ("b".toList, [], []) := by decide +kernel
  have hlast : nextMarked bgptr edptr [] = none := by decide +kernel
  rw [between_some hfirst, between_some hsecond, between_none hlast]
  decide

theorem base64Replace_exits {text before result behind : Text}
    (h : nextMarked bgptr edptr text = some (before, result, behind))
    (henc : base64Encode result (int32 result.length) = none) :
    base64Replace text = some .exits := by
  have hlen := length_of_nextMarked (show nextMarked bgptr edptr (text.drop 0) = _ from h)
  rw [base64Replace, replaceLoop, if_pos (by omega), List.drop_zero, h]
  dsimp only
  rw [henc]
  rfl

/-- The first text that is too long. -/
def tooLong : Text := List.replicate (maxEncoded + 1) 'A'

theorem length_tooLong : tooLong.length = maxEncoded + 1 := List.length_replicate

/-- A text of more than `2^30` letters between markers. -/
theorem exits_tooLong : ¬ ∀ text : Text, IsBytes text →
    base64Replace text = some (.returns (mapBetween bgptr_ne_nil edptr base64 text)) := by
  intro h
  have hletter : ∀ c ∈ tooLong, c = 'A' := fun c hc => List.eq_of_mem_replicate hc
  have hbytes : IsBytes (bgptr ++ (tooLong ++ (edptr ++ []))) := by
    intro c hc
    simp only [List.mem_append] at hc
    rcases hc with hc | hc | hc | hc
    · exact (show IsBytes bgptr by decide) c hc
    · rw [hletter c hc]
      decide
    · exact (show IsBytes edptr by decide) c hc
    · exact absurd hc List.not_mem_nil
  have hnext : nextMarked bgptr edptr (bgptr ++ (tooLong ++ (edptr ++ [])))
      = some ([], tooLong, []) :=
    nextMarked_front (a := '<') (t := "/$BASE64>".toList) bgptr_ne_nil
      (fun hm => absurd (hletter '<' hm) (by decide)) []
  have henc : base64Encode tooLong (int32 tooLong.length) = none := by
    rw [length_tooLong, int32_of_range (by decide) (by decide), base64Encode,
      malloc_encodeLen_none (Nat.lt_succ_self _) (by decide)]
    rfl
  have hrun := h _ hbytes
  rw [base64Replace_exits hnext henc] at hrun
  cases hrun

end Edm.Deliver.Edcode
