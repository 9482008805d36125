import Edm.Network.IPRangeMap

/-!
# Network — IPRangeList

What `loadIPRange` makes of a list of items.  `items` are the items of a text as it is meant;
`parsed` are those the tokenizer gives, which are the same if the text has no NUL.  Some texts of no
form are taken for an item all the same (`Accepted`): numbers that an `int` or a `size_t` takes for
others, and a length with something behind it.

A text is read as it is meant (`Means`) if and only if a network of length 0 or 32 makes no
difference for the address that is looked up, and not all of its items are taken if some have no form
(`means_iff`).
-/

namespace Edm.Network
open Support Base Ranges

/-- The items of a text. -/
def items (strIPRange : Text) : List Text :=
  (((behindNegative strIPRange).splitOnP fun c => c == ';' || c == ',').map
    (·.filter (!isspace ·))).filter (!·.isEmpty)

/-- The items that are parsed. -/
def parsed (strIPRange : Text) : List Text :=
  ((tokens ";,".toList (behindNegative strIPRange)).map removeSpace).filter (!·.isEmpty)

/-- An address is covered by an item. -/
def Covered (strIPRange : Text) (x : BitVec 32) : Prop :=
  ∃ i : Item, i.text ∈ items strIPRange ∧ i.Covers x

/-- The same, where the networks of length 0 and 32 are the addresses from theirs on. -/
def Reached (strIPRange : Text) (x : BitVec 32) : Prop :=
  ∃ i : Item, i.text ∈ items strIPRange ∧ i.Reaches x

/-- Every item has a form. -/
def Formed (strIPRange : Text) : Prop := ∀ t ∈ items strIPRange, ∃ i : Item, i.text = t

/-- A text is read as it is meant. -/
structure Means (strIPRange : Text) (x : BitVec 32) : Prop where
  found : Formed strIPRange → (loadIPRange strIPRange).1 = true ∧
    (findInRange (loadIPRange strIPRange).2 x = true ↔
      if strIPRange.head? = some '!' then ¬ Covered strIPRange x else Covered strIPRange x)
  refused : ¬ Formed strIPRange → (loadIPRange strIPRange).1 = false

/-! ### Loading -/

theorem filter_map_filter {f : Text → Text} (hf : f [] = []) (l : List Text) :
    ((l.filter (!·.isEmpty)).map f).filter (!·.isEmpty) = (l.map f).filter (!·.isEmpty) := by
  induction l with
  | nil => rfl
  | cons t l ih =>
      cases t with
      | nil => simpa [hf] using ih
      | cons c t => simp [ih, List.filter_cons]

/-- Without a NUL the items that are parsed are the items of the text. -/
theorem parsed_eq {s : Text} (h : nul ∉ behindNegative s) : parsed s = items s := by
  have hp : ∀ c ∈ behindNegative s,
      isDelimiter ";,".toList c = (c == ';' || c == ',') := by
    intro c hc
    have hne : (c == nul) = false := beq_eq_false_iff_ne.mpr fun heq => h (heq ▸ hc)
    simp [isDelimiter, hne, beq_eq_decide]
  rw [parsed, tokens_eq, filter_map_filter rfl, splitOnP_congr hp, items]
  congr 1
  refine List.map_congr_left fun t ht => List.filter_congr fun c hc => ?_
  have hne : c ≠ nul := fun heq => h (heq ▸ mem_of_mem_splitOnP ht hc)
  simp [hne]

/-- An item with a form has no NUL. -/
theorem Formed.nul_not_mem {s : Text} (h : Formed s) : nul ∉ behindNegative s := by
  intro hnul
  obtain ⟨t, ht, hmem⟩ := mem_splitOnP (p := fun c => c == ';' || c == ',') hnul (by decide)
  have hin : nul ∈ t.filter (!isspace ·) := List.mem_filter.mpr ⟨hmem, by decide⟩
  obtain ⟨i, hi⟩ := h (t.filter (!isspace ·)) (List.mem_filter.mpr
    ⟨List.mem_map_of_mem ht, by simpa using List.ne_nil_of_mem hin⟩)
  exact (i.text_plain nul (hi ▸ hin)).2 rfl

/-- The loop, for the items that are parsed. -/
theorem loadLoop_cons (m : RangeDataMap (Fin (2 ^ 32)) Bool) (t : Text) (ts : List Text) :
    loadLoop m (t :: ts) = if (removeSpace t).isEmpty then loadLoop m ts
      else match parseIPRange (removeSpace t) with
        | none => (false, m)
        | some r => loadLoop (m.apply (.updateOrInsert (keyRange r) true)) ts := rfl

/-- What is loaded: every item is parsed, and the addresses of their ranges are found. -/
theorem loadLoop_spec {ts : List Text} {m : RangeDataMap (Fin (2 ^ 32)) Bool}
    {p : Fin (2 ^ 32) → Option Bool} (hm : Represents m.m_mapRange.find p) :
    ((loadLoop m ts).1 = true ↔
      ∀ t ∈ (ts.map removeSpace).filter (!·.isEmpty), parseIPRange t ≠ none) ∧
    ((loadLoop m ts).1 = true → ∃ p', Represents (loadLoop m ts).2.m_mapRange.find p' ∧
      (loadLoop m ts).2.m_bNegative = m.m_bNegative ∧ ∀ x : BitVec 32,
        (p' x.toFin).isSome = true ↔ (p x.toFin).isSome = true ∨
          ∃ t ∈ (ts.map removeSpace).filter (!·.isEmpty), ∃ r, parseIPRange t = some r ∧
            r.begin ≤ x ∧ x ≤ r.last) := by
  induction ts generalizing m p with
  | nil =>
      refine ⟨iff_of_true rfl (by simp), fun _ => ⟨p, hm, rfl, fun x => ?_⟩⟩
      simp
  | cons t ts ih =>
      rw [loadLoop_cons, List.map_cons]
      cases hempty : (removeSpace t).isEmpty with
      | true =>
          rw [List.filter_cons_of_neg (by simp [hempty])]
          exact ih hm
      | false =>
          rw [List.filter_cons_of_pos (by simp [hempty]), if_neg (by decide)]
          cases hparse : parseIPRange (removeSpace t) with
          | none =>
              refine ⟨iff_of_false (by simp) fun h => h _ List.mem_cons_self hparse, ?_⟩
              intro h
              cases h
          | some r =>
              obtain ⟨hfst, hrep⟩ := ih (m := m.apply (.updateOrInsert (keyRange r) true))
                (hm.overwrite (RangeMap.updateOrInsert_overwrites hm.apart (keyRange r) true))
              constructor
              · refine hfst.trans ⟨fun h u hu => ?_, fun h u hu => h u (List.mem_cons_of_mem _ hu)⟩
                rcases List.mem_cons.mp hu with rfl | hu
                · rw [hparse]
                  exact Option.some_ne_none r
                · exact h u hu
              · intro h
                obtain ⟨p', hp', hneg, hsome⟩ := hrep h
                refine ⟨p', hp', hneg, fun x => (hsome x).trans ?_⟩
                have hset : (setOn (keyRange r) (some true) p x.toFin).isSome = true ↔
                    (r.begin ≤ x ∧ x ≤ r.last) ∨ (p x.toFin).isSome = true := by
                  rw [setOn]
                  split
                  next hin => exact iff_of_true rfl (.inl hin)
                  next hout => exact (or_iff_right hout).symm
                rw [hset]
                simp only [List.mem_cons, exists_eq_or_imp, hparse, Option.some.injEq,
                  exists_eq_left']
                tauto

theorem loadIPRange_fst (s : Text) :
    (loadIPRange s).1 = true ↔ ∀ t ∈ parsed s, parseIPRange t ≠ none :=
  (loadLoop_spec represents_empty).1

/-- What is found in a map that was loaded. -/
theorem findInRange_iff {s : Text} (h : (loadIPRange s).1 = true) (x : BitVec 32) :
    findInRange (loadIPRange s).2 x = true ↔
      if s.head? = some '!' then ¬ ∃ t ∈ parsed s, ∃ r, parseIPRange t = some r ∧
          r.begin ≤ x ∧ x ≤ r.last
        else ∃ t ∈ parsed s, ∃ r, parseIPRange t = some r ∧ r.begin ≤ x ∧ x ≤ r.last := by
  obtain ⟨p, hp, hneg, hsome⟩ := (loadLoop_spec represents_empty).2 h
  have hiff : (p x.toFin).isSome = true ↔
      ∃ t ∈ parsed s, ∃ r, parseIPRange t = some r ∧ r.begin ≤ x ∧ x ≤ r.last := by
    refine (hsome x).trans (or_iff_right ?_)
    simp
  have hfound := findInRange_eq hp.apart (k := x.toFin) (hp.covers x.toFin)
  have hnegative : (loadIPRange s).2.m_bNegative = (s.head? == some '!') := hneg
  rw [findInRange, loadIPRange, hfound, ← hiff]
  rw [loadIPRange] at hnegative
  rw [hnegative]
  by_cases hhead : s.head? = some '!'
  · simp [hhead]
  · have hfalse : (s.head? == some '!') = false := beq_eq_false_iff_ne.mpr hhead
    simp [hhead, hfalse]

/-- Every item of a text of formed items is parsed, and its addresses are found. -/
theorem Formed.loaded {s : Text} (h : Formed s) (x : BitVec 32) : (loadIPRange s).1 = true ∧
    (findInRange (loadIPRange s).2 x = true ↔
      if s.head? = some '!' then ¬ Reached s x else Reached s x) := by
  have hparsed := parsed_eq h.nul_not_mem
  have hload : (loadIPRange s).1 = true := by
    rw [loadIPRange_fst, hparsed]
    intro t ht
    obtain ⟨i, rfl⟩ := h t ht
    obtain ⟨r, hr, -⟩ := parseIPRange_item i
    rw [hr]
    exact Option.some_ne_none r
  have hreached : (∃ t ∈ parsed s, ∃ r, parseIPRange t = some r ∧ r.begin ≤ x ∧ x ≤ r.last) ↔
      Reached s x := by
    rw [hparsed]
    constructor
    · rintro ⟨t, ht, r, hr, hin⟩
      obtain ⟨i, rfl⟩ := h t ht
      obtain ⟨r', hr', hiff⟩ := parseIPRange_item i
      obtain rfl : r = r' := Option.some.inj (hr.symm.trans hr')
      exact ⟨i, ht, (hiff x).mp hin⟩
    · rintro ⟨i, hi, hin⟩
      obtain ⟨r, hr, hiff⟩ := parseIPRange_item i
      exact ⟨i.text, hi, r, hr, (hiff x).mpr hin⟩
  refine ⟨hload, ?_⟩
  rw [findInRange_iff hload, hreached]

/-! ### What is accepted -/

/-- The digits are the number `z` in an `int`, and none of the numbers on the way is 0 or -1. -/
structure ReadsInt (ds : Text) (z : Int) : Prop where
  ne_nil : ds ≠ []
  digits : ∀ c ∈ ds, c.isDigit = true
  before : ∀ p q, p ++ q = ds → p ≠ [] → q ≠ [] →
    int32 (decimal p) ≠ 0 ∧ int32 (decimal p) ≠ -1
  value : int32 (decimal ds) = z

/-- A number of a quad that is taken.  One that an `int` takes for -1 is as if it were not there. -/
inductive QuadNumber : Text → Nat → Prop
  | number {ds : Text} {n : Nat} (h : ReadsInt ds n) (hn : n ≤ 255) : QuadNumber ds n
  | again {ds ds' : Text} {n : Nat} (h : ReadsInt ds (-1)) (h' : QuadNumber ds' n) :
      QuadNumber (ds ++ ds') n

/-- The numbers of a quad put behind an address. -/
def putNumbers (ip : BitVec 32) (ns : List Nat) : BitVec 32 :=
  ns.foldl (fun ip n => (ip <<< 8) + BitVec.ofNat 32 n) ip

/-- Numbers with a dot between them, as many as an `int` takes for 4, and the address they give. -/
def QuadText (t : Text) (a : BitVec 32) : Prop :=
  ∃ ns : List Nat, List.Forall₂ QuadNumber (t.splitOn '.') ns ∧ int32 ns.length = 4 ∧
    putNumbers 0 ns = a

/-- What a character counts in the length of a network: letters from `W` on count as well. -/
def bitsDigit (c : Char) : Option Nat :=
  if c.isDigit then some (c.toNat - 48)
  else if 87 ≤ c.toNat ∧ c.toNat ≤ 90 then some (c.toNat - 87) else none

/-- The digits that a text begins with. -/
def bitsDigits : Text → List Nat
  | [] => []
  | c :: u => match bitsDigit c with
    | some d => d :: bitsDigits u
    | none => []

/-- A length that is taken: the digits behind an optional plus, which may be none and with anything
behind them, are at most 32 modulo `2^64`. -/
def BitsText : Text → Prop
  | '+' :: u | u => (bitsDigits u).foldl (fun n d => 10 * n + d) 0 % 2 ^ 64 ≤ 32

/-- An item that is accepted. -/
inductive Accepted : Text → Prop
  | single {t : Text} {a : BitVec 32} (hminus : '-' ∉ t) (hslash : '/' ∉ t) (ha : QuadText t a) :
      Accepted t
  | pair {t u : Text} {a b : BitVec 32} (hminus : '-' ∉ t) (ha : QuadText t a) (hb : QuadText u b)
      (hle : a ≤ b) : Accepted (t ++ '-' :: u)
  | network {t u : Text} {a : BitVec 32} (hminus : '-' ∉ t ++ '/' :: u) (hslash : '/' ∉ t)
      (ha : QuadText t a) (hbits : BitsText u) : Accepted (t ++ '/' :: u)

/-- What the next character makes of `nPartNumber`. -/
def numberStep (nPartNumber : Int) (ch : Char) : Option Int :=
  if ch.isDigit then
    if nPartNumber = 0 then none
    else
      some (if nPartNumber = -1 then (ch.toNat : Int) - 48
        else int32 (nPartNumber * 10 + ((ch.toNat : Int) - 48)))
  else none

theorem decimal_append_digit (p : Text) {c : Char} (hc : c.isDigit = true) :
    ((decimal (p ++ [c]) : Nat) : Int) = (decimal p : Int) * 10 + ((c.toNat : Int) - 48) := by
  have hrange := digit_range hc
  have h48 : '0'.toNat = 48 := rfl
  rw [decimal, Nat.ofDigitChars_append, Nat.ofDigitChars_cons, Nat.ofDigitChars_nil, h48, decimal]
  omega

theorem numberStep_int {p : Text} {c : Char} (hc : c.isDigit = true)
    (h0 : int32 (decimal p) ≠ 0) (h1 : int32 (decimal p) ≠ -1) :
    numberStep (int32 (decimal p)) c = some (int32 (decimal (p ++ [c]))) := by
  rw [numberStep, if_pos hc, if_neg h0, if_neg h1, decimal_append_digit p hc, int32, int32, int32,
    ← Int.bmod_add_bmod, Int.bmod_mul_bmod, Int.bmod_add_bmod]

theorem numberStep_first {c : Char} (hc : c.isDigit = true) :
    numberStep (-1) c = some (int32 (decimal [c])) := by
  have hrange := digit_range hc
  have hvalue := decimal_append_digit [] hc
  have hnil : decimal [] = 0 := rfl
  rw [List.nil_append, hnil] at hvalue
  rw [numberStep, if_pos hc, if_neg (by decide), if_pos rfl, hvalue,
    int32_of_range (by omega) (by omega)]
  congr 1
  omega

/-- The digits of a number are read one by one. -/
theorem ReadsInt.foldlM {ds : Text} {z : Int} (h : ReadsInt ds z) :
    ds.foldlM numberStep (-1) = some z := by
  obtain ⟨hne, hdigits, hbefore, rfl⟩ := h
  induction ds using List.reverseRecOn with
  | nil => exact absurd rfl hne
  | append_singleton p c ih =>
      have hc : c.isDigit = true := hdigits c (by simp)
      by_cases hp : p = []
      · subst hp
        exact (bind_pure _).trans (numberStep_first hc)
      · obtain ⟨h0, h1⟩ := hbefore p [c] rfl hp (by simp)
        have hread := ih hp (fun d hd => hdigits d (by simp [hd])) fun q r hqr hq hr =>
          hbefore q (r ++ [c]) (by rw [← List.append_assoc, hqr]) hq (by simp)
        rw [List.foldlM_append, hread]
        exact (bind_pure _).trans (numberStep_int hc h0 h1)

theorem QuadNumber.foldlM {ds : Text} {n : Nat} (h : QuadNumber ds n) :
    n ≤ 255 ∧ ds.foldlM numberStep (-1) = some (n : Int) := by
  induction h with
  | number h hn => exact ⟨hn, h.foldlM⟩
  | again h _ ih =>
      refine ⟨ih.1, ?_⟩
      rw [List.foldlM_append, h.foldlM]
      exact ih.2

theorem readsInt_singleton {c : Char} (hc : c.isDigit = true) :
    ReadsInt [c] (int32 (decimal [c])) := by
  refine ⟨List.cons_ne_nil c [], by simpa using hc, fun p q hpq hp hq => ?_, rfl⟩
  rcases List.append_eq_singleton_iff.mp hpq with ⟨rfl, -⟩ | ⟨-, rfl⟩
  · exact absurd rfl hp
  · exact absurd rfl hq

theorem ReadsInt.concat {b : Text} {c : Char} (h : ReadsInt b (int32 (decimal b)))
    (hc : c.isDigit = true) (h0 : int32 (decimal b) ≠ 0) (h1 : int32 (decimal b) ≠ -1) :
    ReadsInt (b ++ [c]) (int32 (decimal (b ++ [c]))) := by
  refine ⟨by simp, fun d hd => ?_, fun p q hpq hp hq => ?_, rfl⟩
  · rcases List.mem_append.mp hd with hd | hd
    · exact h.digits d hd
    · rwa [List.mem_singleton.mp hd]
  · obtain ⟨q, d, rfl⟩ := (List.eq_nil_or_concat q).resolve_left hq
    rw [List.concat_eq_append, ← List.append_assoc] at hpq
    have hpq := List.append_inj_left' hpq rfl
    by_cases hq' : q = []
    · subst hq'
      rw [List.append_nil] at hpq
      exact hpq ▸ ⟨h0, h1⟩
    · exact h.before p q hpq hp hq'

theorem isDigit_of_numberStep {z z' : Int} {c : Char} (h : numberStep z c = some z') :
    c.isDigit = true ∧ z ≠ 0 := by
  rw [numberStep] at h
  split at h
  next hc =>
    split at h
    next => cases h
    next h0 => exact ⟨hc, h0⟩
  next => cases h

/-- The number goes on behind the digits `b`. -/
theorem quadNumber_of_reads {n : Nat} (hn : n ≤ 255) (ds : Text) : ∀ b : Text,
    ReadsInt b (int32 (decimal b)) →
      ds.foldlM numberStep (int32 (decimal b)) = some (n : Int) → QuadNumber (b ++ ds) n := by
  induction ds with
  | nil =>
      intro b hb h
      rw [List.append_nil]
      rw [Option.some.inj h] at hb
      exact .number hb hn
  | cons c ds ih =>
      intro b hb h
      obtain ⟨z, hz, h⟩ := Option.bind_eq_some_iff.mp h
      obtain ⟨hc, h0⟩ := isDigit_of_numberStep hz
      by_cases h1 : int32 (decimal b) = -1
      · rw [h1, numberStep_first hc] at hz
        rw [h1] at hb
        exact .again hb (ih [c] (readsInt_singleton hc) (Option.some.inj hz ▸ h))
      · rw [numberStep_int hc h0 h1] at hz
        rw [← List.singleton_append, ← List.append_assoc]
        exact ih (b ++ [c]) (hb.concat hc h0 h1) (Option.some.inj hz ▸ h)

theorem quadNumber_iff {ds : Text} {n : Nat} :
    QuadNumber ds n ↔ n ≤ 255 ∧ ds.foldlM numberStep (-1) = some (n : Int) := by
  refine ⟨QuadNumber.foldlM, fun ⟨hn, h⟩ => ?_⟩
  cases ds with
  | nil =>
      have hminus : (-1 : Int) = n := Option.some.inj h
      omega
  | cons c ds =>
      obtain ⟨z, hz, h⟩ := Option.bind_eq_some_iff.mp h
      obtain ⟨hc, -⟩ := isDigit_of_numberStep hz
      rw [numberStep_first hc] at hz
      exact quadNumber_of_reads hn ds [c] (readsInt_singleton hc) (Option.some.inj hz ▸ h)

theorem getIPV4From_part {s : Text} (h : '.' ∉ s) (ip : BitVec 32) (count p : Int) (r : Text) :
    getIPV4From ip count p (s ++ r) =
      (s.foldlM numberStep p).bind fun p => getIPV4From ip count p r := by
  induction s generalizing p with
  | nil => rfl
  | cons c s ih =>
      obtain ⟨hc, hs⟩ := not_or.mp (mt List.mem_cons.mpr h)
      rw [List.cons_append, getIPV4From, List.foldlM_cons, numberStep, if_neg (Ne.symm hc)]
      by_cases hdigit : c.isDigit = true
      · rw [if_pos hdigit, if_pos hdigit]
        by_cases hzero : p = 0
        · rw [if_pos hzero, if_pos hzero]
          rfl
        · rw [if_neg hzero, if_neg hzero]
          exact ih hs _
      · rw [if_neg hdigit, if_neg hdigit]
        rfl

/-- The numbers of a quad are read part by part. -/
theorem getIPV4From_iff (t : Text) (a : BitVec 32) : ∀ (ip : BitVec 32) (k : Int),
    getIPV4From ip (int32 k) (-1) t = some a ↔ ∃ ns : List Nat,
      List.Forall₂ QuadNumber (t.splitOn '.') ns ∧ int32 (k + ns.length - 1) = 4 ∧
        putNumbers ip ns = a := by
  induction t using split_induction '.' with
  | last s h =>
      intro ip k
      rw [← List.append_nil s, getIPV4From_part h, List.append_nil, List.splitOn_eq_singleton h]
      constructor
      · intro hsome
        obtain ⟨z, hz, hsome⟩ := Option.bind_eq_some_iff.mp hsome
        obtain ⟨⟨hk, hpos, hle⟩, hsome⟩ := Option.ite_none_right_eq_some.mp hsome
        obtain ⟨n, rfl⟩ := Int.eq_ofNat_of_zero_le hpos
        refine ⟨[n], .cons (quadNumber_iff.mpr ⟨by omega, hz⟩) .nil, ?_, ?_⟩
        · rwa [show k + ([n].length : Int) - 1 = k by simp]
        · rw [← Option.some.inj hsome, BitVec.ofInt_natCast]
          rfl
      · rintro ⟨ns, hns, hk, rfl⟩
        cases hns with
        | @cons _ n _ _ hn hnil =>
          cases hnil
          obtain ⟨hle, hread⟩ := quadNumber_iff.mp hn
          rw [show k + ([n].length : Int) - 1 = k by simp] at hk
          rw [hread, Option.bind_some, getIPV4From, if_pos ⟨hk, by omega, by omega⟩,
            BitVec.ofInt_natCast]
          rfl
  | more s r h ih =>
      intro ip k
      rw [getIPV4From_part h, splitOn_more h]
      have hstep : ∀ p : Int, getIPV4From ip (int32 k) p ('.' :: r) =
          if p < 0 ∨ 255 < p then none
          else getIPV4From ((ip <<< 8) + BitVec.ofInt 32 p) (int32 (k + 1)) (-1) r := by
        intro p
        rw [getIPV4From, if_neg (by decide), if_pos rfl, int32, int32, Int.bmod_add_bmod]
        rfl
      constructor
      · intro hsome
        obtain ⟨z, hz, hsome⟩ := Option.bind_eq_some_iff.mp hsome
        rw [hstep] at hsome
        obtain ⟨hrange, hsome⟩ := Option.ite_none_left_eq_some.mp hsome
        obtain ⟨n, rfl⟩ := Int.eq_ofNat_of_zero_le (show 0 ≤ z by omega)
        obtain ⟨ns, hns, hk, ha⟩ := (ih _ _).mp hsome
        refine ⟨n :: ns, .cons (quadNumber_iff.mpr ⟨by omega, hz⟩) hns, ?_, ?_⟩
        · rw [List.length_cons, ← hk]
          congr 1
          omega
        · rw [← ha, BitVec.ofInt_natCast]
          rfl
      · rintro ⟨ns, hns, hk, rfl⟩
        cases hns with
        | @cons _ n _ ns hn hns =>
          obtain ⟨hle, hread⟩ := quadNumber_iff.mp hn
          rw [hread, Option.bind_some, hstep, if_neg (by omega)]
          refine (ih _ _).mpr ⟨ns, hns, ?_, ?_⟩
          · rw [List.length_cons] at hk
            rw [← hk]
            congr 1
            omega
          · rw [BitVec.ofInt_natCast]
            rfl

theorem getIPV4Integer_iff {t : Text} (h : nul ∉ t) (a : BitVec 32) :
    getIPV4Integer t = some a ↔ QuadText t a := by
  have hfrom := getIPV4From_iff t a 0 1
  have hone : int32 1 = 1 := rfl
  simp only [hone, add_sub_cancel_left] at hfrom
  rw [QuadText, ← hfrom, getIPV4Integer, cstr_self h]
  split
  next hbad =>
    refine iff_of_false (fun hnone => by cases hnone) fun hsome => ?_
    cases t with
    | nil => cases hsome
    | cons c t =>
        obtain rfl : c = '.' := Option.some.inj (hbad.resolve_left (List.cons_ne_nil c t))
        cases hsome
  next => exact Iff.rfl

/-- What `stringToInt` makes of a character. -/
theorem convertHexNumberToDec_cases (c : Char) :
    (∃ d : Nat, bitsDigit c = some d ∧ convertHexNumberToDec c = d ∧ d < 10) ∨
      bitsDigit c = none ∧
        (convertHexNumberToDec c < 0 ∨ 10 ≤ convertHexNumberToDec c % 256) := by
  rw [bitsDigit, convertHexNumberToDec]
  by_cases hdigit : c.isDigit = true
  · have hrange := digit_range hdigit
    rw [if_pos hdigit, if_pos hdigit]
    exact .inl ⟨_, rfl, by omega, by omega⟩
  · rw [if_neg hdigit, if_neg hdigit]
    have halnum : c.isAlphanum = true ↔
        65 ≤ c.toNat ∧ c.toNat ≤ 90 ∨ 97 ≤ c.toNat ∧ c.toNat ≤ 122 := by
      delta Char.isAlphanum Char.isAlpha Char.isUpper Char.isLower
      simp only [hdigit, Bool.or_false, Bool.or_eq_true, Bool.and_eq_true, decide_eq_true_eq,
        UInt32.le_iff_toNat_le, ge_iff_le]
      exact Iff.rfl
    by_cases halpha : c.isAlphanum = true
    · rw [if_pos halpha, toupper]
      have hrange := halnum.mp halpha
      by_cases hw : 87 ≤ c.toNat ∧ c.toNat ≤ 90
      · rw [if_pos hw, if_pos (by omega)]
        exact .inl ⟨_, rfl, by omega, by omega⟩
      · rw [if_neg hw]
        refine .inr ⟨rfl, .inr ?_⟩
        split <;> omega
    · rw [if_neg halpha, if_neg fun hw => halpha (halnum.mpr (.inl (by omega)))]
      exact .inr ⟨rfl, .inl (by decide)⟩

theorem stringToIntFrom_mod (u : Text) (n : Nat) :
    stringToIntFrom (n % 2 ^ 64) u =
      (bitsDigits u).foldl (fun n d => 10 * n + d) n % 2 ^ 64 := by
  induction u generalizing n with
  | nil => rfl
  | cons c u ih =>
      rw [stringToIntFrom, bitsDigits]
      rcases convertHexNumberToDec_cases c with ⟨d, hbits, hdec, hlt⟩ | ⟨hbits, hdec⟩
      · have hmod : ((d : Int) % 256).toNat = d := by omega
        rw [hdec, hbits]
        dsimp only
        rw [if_neg (by omega), hmod, List.foldl_cons, ← ih]
        congr 1
        omega
      · rw [hbits]
        exact if_pos hdec

theorem bitsText_iff {u : Text} (h : '-' ∉ u) : stringToInt u ≤ 32 ↔ BitsText u := by
  have hfrom : ∀ u, stringToIntFrom 0 u = _ := fun u => stringToIntFrom_mod u 0
  unfold stringToInt BitsText
  split
  next => simp at h
  next u =>
    rw [hfrom]
    exact Iff.rfl
  next u hminus hplus =>
    rw [hfrom]
    split
    next u => exact absurd rfl (hplus u)
    next => exact Iff.rfl

theorem mem_parsed {s t : Text} (h : t ∈ parsed s) : ∀ c ∈ t, isspace c = false ∧ c ≠ nul := by
  obtain ⟨ht, -⟩ := List.mem_filter.mp h
  obtain ⟨u, -, rfl⟩ := List.mem_map.mp ht
  intro c hc
  simpa using (List.mem_filter.mp hc).2

theorem parseIPRange_ne_none {t : Text} (h : ∀ c ∈ t, isspace c = false ∧ c ≠ nul) :
    parseIPRange t ≠ none ↔ Accepted t := by
  have hself : ∀ {u : Text}, (∀ c ∈ u, c ∈ t) → removeSpace u = u := fun hu =>
    removeSpace_self fun c hc => h c (hu c hc)
  have hquad : ∀ {u : Text}, (∀ c ∈ u, c ∈ t) → ∀ a, getIPV4Integer u = some a ↔ QuadText u a :=
    fun hu => getIPV4Integer_iff fun hnul => (h nul (hu nul hnul)).2 rfl
  constructor
  · intro hne
    rw [parseIPRange] at hne
    by_cases hminus : '-' ∈ t
    · obtain ⟨p, q, rfl, hp⟩ := List.eq_append_cons_of_mem hminus
      rw [if_pos hminus, cut_append hp] at hne
      dsimp only at hne
      rw [hself (fun c hc => by simp [hc]), hself (fun c hc => by simp [hc])] at hne
      cases ha : getIPV4Integer p with
      | none => rw [ha] at hne; exact absurd rfl hne
      | some a =>
        cases hb : getIPV4Integer q with
        | none => rw [ha, hb] at hne; exact absurd rfl hne
        | some b =>
          rw [ha, hb, Option.bind_some, Option.bind_some] at hne
          refine .pair hp ((hquad (fun c hc => by simp [hc]) a).mp ha)
            ((hquad (fun c hc => by simp [hc]) b).mp hb) (BitVec.not_lt.mp fun hlt => hne ?_)
          exact dif_pos hlt
    · rw [if_neg hminus] at hne
      by_cases hslash : '/' ∈ t
      · obtain ⟨p, q, rfl, hp⟩ := List.eq_append_cons_of_mem hslash
        rw [if_pos hslash, cut_append hp] at hne
        dsimp only at hne
        rw [hself (fun c hc => by simp [hc]), hself (fun c hc => by simp [hc])] at hne
        cases ha : getIPV4Integer p with
        | none => rw [ha] at hne; exact absurd rfl hne
        | some a =>
          rw [ha, Option.bind_some] at hne
          exact .network hminus hp ((hquad (fun c hc => by simp [hc]) a).mp ha)
            ((bitsText_iff fun hc => hminus (by simp [hc])).mp
              (Nat.not_lt.mp fun hlt => hne (if_pos hlt)))
      · rw [if_neg hslash, hself fun c hc => hc] at hne
        cases ha : getIPV4Integer t with
        | none => rw [ha] at hne; exact absurd rfl hne
        | some a => exact .single hminus hslash ((hquad (fun c hc => hc) a).mp ha)
  · intro haccepted
    rw [parseIPRange]
    cases haccepted with
    | single hminus hslash ha =>
        rw [if_neg hminus, if_neg hslash, hself fun c hc => hc, (hquad (fun c hc => hc) _).mpr ha]
        exact Option.some_ne_none _
    | @pair p q a b hp ha hb hle =>
        rw [if_pos (by simp), cut_append hp]
        dsimp only
        rw [hself (fun c hc => by simp [hc]), hself (fun c hc => by simp [hc]),
          (hquad (fun c hc => by simp [hc]) a).mpr ha, (hquad (fun c hc => by simp [hc]) b).mpr hb,
          Option.bind_some, Option.bind_some, dif_neg (BitVec.not_lt.mpr hle)]
        exact Option.some_ne_none _
    | @network p q a hminus hp ha hbits =>
        have hle := (bitsText_iff fun hc => hminus (by simp [hc])).mpr hbits
        rw [if_neg hminus, if_pos (by simp), cut_append hp]
        dsimp only
        rw [hself (fun c hc => by simp [hc]), hself (fun c hc => by simp [hc]),
          (hquad (fun c hc => by simp [hc]) a).mpr ha, Option.bind_some,
          if_neg (Nat.not_lt.mpr hle)]
        exact Option.some_ne_none _

/-- A text is read as it is meant, where a network of length 0 or 32 makes no difference, and one
of the items is refused if some item has no form. -/
theorem means_iff (s : Text) (x : BitVec 32) : Means s x ↔
    (Formed s → (Covered s x ↔ Reached s x)) ∧
      (¬ Formed s → ∃ t ∈ parsed s, ¬ Accepted t) := by
  have hrefused : (loadIPRange s).1 = false ↔ ∃ t ∈ parsed s, ¬ Accepted t := by
    rw [← Bool.not_eq_true, loadIPRange_fst]
    simp only [not_forall, exists_prop]
    refine exists_congr fun t => and_congr_right fun ht => ?_
    rw [← parseIPRange_ne_none (mem_parsed ht)]
  constructor
  · intro h
    refine ⟨fun hformed => ?_, fun hnot => hrefused.mp (h.refused hnot)⟩
    have hfound := (hformed.loaded x).2.symm.trans (h.found hformed).2
    by_cases hhead : s.head? = some '!'
    · simp only [if_pos hhead] at hfound
      exact (not_iff_not.mp hfound).symm
    · simp only [if_neg hhead] at hfound
      exact hfound.symm
  · rintro ⟨hformed, hnot⟩
    refine ⟨fun h => ?_, fun h => hrefused.mpr (hnot h)⟩
    rw [hformed h]
    exact h.loaded x

/-- `10.0.0.0/0` is not every address. -/
theorem not_means_all : ¬ Means "10.0.0.0/0".toList 0x09000000#32 := by
  intro h
  have hitems : items "10.0.0.0/0".toList = ["10.0.0.0/0".toList] := by decide
  let n : Bits := ⟨"0".toList, by decide, by decide, by decide⟩
  have htext : (Item.network 0x0a000000#32 n).text = "10.0.0.0/0".toList := by decide
  have hformed : Formed "10.0.0.0/0".toList := by
    intro t ht
    rw [hitems] at ht
    exact ⟨_, htext.trans (List.mem_singleton.mp ht).symm⟩
  have hcovered : Covered "10.0.0.0/0".toList 0x09000000#32 :=
    ⟨.network 0x0a000000#32 n, by rw [htext, hitems]; exact List.mem_singleton_self _, by
      show 0x09000000#32 >>> 32 = 0x0a000000#32 >>> 32
      decide⟩
  obtain ⟨hload, hfound⟩ := h.found hformed
  obtain ⟨t, ht, r, hr, hin⟩ :=
    (findInRange_iff hload 0x09000000#32).mp (hfound.mpr hcovered)
  obtain ⟨r', hr', hreaches⟩ := parseIPRange_item (.network 0x0a000000#32 n)
  rw [parsed_eq hformed.nul_not_mem, hitems, List.mem_singleton] at ht
  obtain rfl : r = r' := by
    rw [ht, ← htext] at hr
    exact Option.some.inj (hr.symm.trans hr')
  have hle : 0x0a000000#32 ≤ 0x09000000#32 := (hreaches 0x09000000#32).mp hin
  exact absurd hle (by decide)

end Edm.Network
