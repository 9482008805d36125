import Edm.Support.Decimal
import Edm.Support.Split

/-!
# Deliver — InetAddr

`check_inet_addr`, which tells whether a local address is a dotted quad.

The digits of a field are collected in a buffer of four bytes, and the test that there are not too
many lets four pass.  The buffer has then no NUL, and `atoi` reads on behind it.
`right_iff`: the verdict is right, and `atoi` stays in the buffer, unless a field of four digits is
closed at its place, with octets in front of it.
-/

namespace Edm.Deliver.InetAddr

open Support

/-! ### The function -/

/-- `atoi(buf)`, if the buffer has a NUL. -/
def atoiBuf (buf : Text) : Option Int := if nul ∈ buf then some (atoi buf) else none

/-- `while (*cp != '\0')`, and the test at the end; `none` where `atoi` reads behind the buffer. -/
def scan : Text → Nat → Nat → Text → Option Int
  | [], i, dot, buf =>
      if dot ≠ 3 ∨ i < 1 then some (-1)
      else (atoiBuf buf).map fun v => if v > 255 then -1 else 0
  | c :: cp, i, dot, buf =>
      if c.isDigit then
        if i > 3 then some (-1) else scan cp (i + 1) dot (buf.set i c)
      else if c = '.' then
        if dot + 1 > 3 then some (-1)
        else if i < 1 then some (-1)
        else (atoiBuf buf).bind fun v =>
          if v > 255 then some (-1) else scan cp 0 (dot + 1) ((buf.set 1 nul).set 2 nul)
      else some (-1)

/-- `check_inet_addr`. -/
def checkInetAddr (cp : Text) : Option Int := scan (cstr cp) 0 0 [nul, nul, nul, nul]

/-! ### What it is for -/

/-- One to three digits, for a byte. -/
def IsOctet (f : Text) : Prop :=
  1 ≤ f.length ∧ f.length ≤ 3 ∧ (∀ c ∈ f, c.isDigit = true) ∧ decimal f ≤ 255

instance (f : Text) : Decidable (IsOctet f) :=
  inferInstanceAs (Decidable (_ ∧ _ ∧ (∀ c ∈ (f : List Char), _) ∧ _))

/-- Four octets with single dots between them. -/
def DottedQuad (s : Text) : Prop :=
  (s.splitOn '.').length = 4 ∧ ∀ f ∈ s.splitOn '.', IsOctet f

instance (s : Text) : Decidable (DottedQuad s) :=
  inferInstanceAs (Decidable (_ ∧ ∀ f ∈ s.splitOn '.', IsOctet f))

/-- The verdict is that of the dotted quads, and `atoi` stays in the buffer. -/
def Right (cp : Text) : Prop := ∃ r, checkInetAddr cp = some r ∧ (r = 0 ↔ DottedQuad cp)

/-- Four digits. -/
def FourDigits (f : Text) : Prop := f.length = 4 ∧ ∀ c ∈ f, c.isDigit = true

instance (f : Text) : Decidable (FourDigits f) :=
  inferInstanceAs (Decidable (_ ∧ ∀ c ∈ (f : List Char), _))

/-- With `k` dots still to come, a field of four digits is closed: by one of these dots, or, after
all of them, by the end.  The fields in front of it are octets. -/
def Overfull : Nat → List Text → Prop
  | 0, [f] => FourDigits f
  | k + 1, f :: g :: fs => FourDigits f ∨ (IsOctet f ∧ Overfull k (g :: fs))
  | _, _ => False

@[reducible] instance decidableOverfull : ∀ (k : Nat) (fs : List Text), Decidable (Overfull k fs)
  | 0, [_] => inferInstanceAs (Decidable (FourDigits _))
  | k + 1, _ :: g :: fs =>
      have := decidableOverfull k (g :: fs)
      inferInstanceAs (Decidable (_ ∨ (_ ∧ _)))
  | 0, [] => inferInstanceAs (Decidable False)
  | 0, _ :: _ :: _ => inferInstanceAs (Decidable False)
  | _ + 1, [] => inferInstanceAs (Decidable False)
  | _ + 1, [_] => inferInstanceAs (Decidable False)

/-! ### One field -/

section Field
variable {f rest buf : Text} {i dot : Nat} {x : Char}

/-- Digits are collected while the buffer has room. -/
theorem scan_digits (hf : ∀ c ∈ f, c.isDigit = true) (hlen : f.length ≤ 4) :
    scan (f ++ rest) 0 dot [x, nul, nul, nul]
      = scan rest f.length dot (f ++ [x, nul, nul, nul].drop f.length) := by
  match f, hf, hlen with
  | [], _, _ => rfl
  | [a], hf, _ | [a, b], hf, _ | [a, b, c], hf, _ | [a, b, c, d], hf, _ =>
      simp only [List.forall_mem_cons] at hf
      simp [scan, hf]

/-- A field with something else, or with five digits, ends the scan. -/
theorem scan_bad (hdot : '.' ∉ f) (hi : i ≤ 4)
    (hf : ¬ ((∀ c ∈ f, c.isDigit = true) ∧ i + f.length ≤ 4)) :
    scan (f ++ rest) i dot buf = some (-1) := by
  induction f generalizing i buf with
  | nil => exact absurd ⟨fun c hc => absurd hc List.not_mem_nil, hi⟩ hf
  | cons c f ih =>
      obtain ⟨hc, hdot⟩ := not_or.mp (mt List.mem_cons.mpr hdot)
      rw [List.cons_append, scan]
      split
      next hdigit =>
        split
        next => rfl
        next hle =>
          refine ih hdot (by omega) fun h => hf ⟨List.forall_mem_cons.mpr ⟨hdigit, h.1⟩, ?_⟩
          rw [List.length_cons]
          omega
      next => rw [if_neg (Ne.symm hc)]

/-- Up to three digits leave a NUL behind them. -/
theorem exists_field_nul (hpos : 1 ≤ f.length) (hlen : f.length ≤ 3) :
    ∃ t, [x, nul, nul, nul].drop f.length = nul :: t := by
  match f, hpos, hlen with
  | [_], _, _ | [_, _], _, _ | [_, _, _], _, _ => exact ⟨_, rfl⟩

theorem atoiBuf_field (hf : ∀ c ∈ f, c.isDigit = true) (hpos : 1 ≤ f.length)
    (hlen : f.length ≤ 3) :
    atoiBuf (f ++ [x, nul, nul, nul].drop f.length) = some (decimal f : Int) := by
  obtain ⟨t, ht⟩ := exists_field_nul (x := x) hpos hlen
  have hnul : nul ∉ f := fun hm => absurd (hf nul hm) (by decide)
  have hne : f ≠ [] := List.length_pos_iff.mp hpos
  have hvalue : decimal f < 10 ^ f.length := decimal_lt hf
  have hpow : 10 ^ f.length ≤ 10 ^ 3 := Nat.pow_le_pow_right (by decide) hlen
  have hread := sscanfInt_digits hne hf (by omega)
  have hatoi : atoi (f ++ nul :: t) = atoi f := by
    rw [atoi, atoi, cstr_append hnul, cstr_self hnul]
  obtain ⟨v, hv, hint⟩ := Option.map_eq_some_iff.mp hread
  rw [ht, atoiBuf, if_pos (by simp), hatoi, atoi, hv, Option.getD_some, hint]

theorem atoiBuf_full (hf : FourDigits f) :
    atoiBuf (f ++ [x, nul, nul, nul].drop f.length) = none := by
  have hnul : nul ∉ f := fun hm => absurd (hf.2 nul hm) (by decide)
  rw [hf.1, atoiBuf, if_neg (by simpa using hnul)]

/-- Behind a dot the buffer is empty, but for its first byte. -/
theorem exists_reset (hpos : 1 ≤ f.length) (hlen : f.length ≤ 3) :
    ∃ y, ((f ++ [x, nul, nul, nul].drop f.length).set 1 nul).set 2 nul = [y, nul, nul, nul] := by
  match f, hpos, hlen with
  | [_], _, _ | [_, _], _, _ | [_, _, _], _, _ => exact ⟨_, rfl⟩

end Field

/-! ### The verdict -/

/-- A field has something else than up to four digits, or it has none, four, or one to three. -/
theorem field_cases (f : Text) :
    (¬ ((∀ c ∈ f, c.isDigit = true) ∧ 0 + f.length ≤ 4) ∧ ¬ FourDigits f ∧ ¬ IsOctet f) ∨
    (f = [] ∧ ¬ FourDigits f ∧ ¬ IsOctet f) ∨
    (FourDigits f ∧ ¬ IsOctet f) ∨
    ((∀ c ∈ f, c.isDigit = true) ∧ 1 ≤ f.length ∧ f.length ≤ 3 ∧ ¬ FourDigits f ∧
      (IsOctet f ↔ decimal f ≤ 255)) := by
  have hfour : FourDigits f → f.length = 4 := And.left
  have hoctet : IsOctet f → 1 ≤ f.length ∧ f.length ≤ 3 := fun h => ⟨h.1, h.2.1⟩
  have hno : (f.length = 0 ∨ 4 ≤ f.length) → ¬ IsOctet f := fun hl h => by
    have := hoctet h
    omega
  have hnot : f.length ≠ 4 → ¬ FourDigits f := fun hl h => hl (hfour h)
  by_cases hd : ∀ c ∈ f, c.isDigit = true
  · rcases Nat.lt_or_ge 4 f.length with hlong | hle
    · exact Or.inl ⟨fun h => by omega, hnot (by omega), hno (by omega)⟩
    · rcases Nat.eq_zero_or_pos f.length with hzero | hpos
      · exact Or.inr (Or.inl ⟨List.length_eq_zero_iff.mp hzero, hnot (by omega), hno (by omega)⟩)
      · rcases Nat.eq_or_lt_of_le hle with h4 | hlt
        · exact Or.inr (Or.inr (Or.inl ⟨⟨h4, hd⟩, hno (by omega)⟩))
        · exact Or.inr (Or.inr (Or.inr ⟨hd, hpos, by omega, hnot (by omega),
            fun h => h.2.2.2, fun h => ⟨hpos, by omega, hd, h⟩⟩))
  · exact Or.inl ⟨fun h => hd h.1, fun h => hd h.2, fun h => hd h.2.2.1⟩

/-- The whole scan, field by field; `k` dots are still to come. -/
theorem scan_eq (s : Text) : ∀ {k : Nat} {x : Char}, k ≤ 3 →
    scan s 0 (3 - k) [x, nul, nul, nul] = if Overfull k (s.splitOn '.') then none
      else some (if (s.splitOn '.').length = k + 1 ∧ ∀ f ∈ s.splitOn '.', IsOctet f then 0
        else -1) := by
  induction s using split_induction '.' with
  | last s hs =>
      intro k x hk
      have hover : Overfull k [s] ↔ k = 0 ∧ FourDigits s := by
        cases k <;> simp [Overfull]
      rw [List.splitOn_eq_singleton hs]
      simp only [hover, List.length_singleton, List.forall_mem_singleton]
      rw [← List.append_nil s]
      rcases field_cases s with ⟨hbad, hfour, hoct⟩ | ⟨rfl, hfour, hoct⟩ | ⟨hfour, hoct⟩ |
        ⟨hd, hpos, hle, hfour, hoct⟩
      · rw [scan_bad hs (Nat.zero_le _) hbad]
        simp [hfour, hoct]
      · simp [scan, hfour, hoct]
      · rw [scan_digits hfour.2 (Nat.le_of_eq hfour.1), scan]
        by_cases hzero : k = 0
        · subst hzero
          have hthree : ¬ (3 - 0 ≠ 3 ∨ s.length < 1) := by
            rw [hfour.1]
            omega
          rw [if_neg hthree, atoiBuf_full hfour]
          simp [hfour]
        · have hdot : 3 - k ≠ 3 ∨ s.length < 1 := by omega
          rw [if_pos hdot]
          simp [hzero]
      · rw [scan_digits hd (by omega), scan]
        by_cases hzero : k = 0
        · subst hzero
          have hthree : ¬ (3 - 0 ≠ 3 ∨ s.length < 1) := by omega
          rw [if_neg hthree, atoiBuf_field hd hpos hle]
          by_cases hv : decimal s ≤ 255
          · have hint : ¬ (decimal s : Int) > 255 := by omega
            simp [hfour, hoct, hv, hint]
          · have hint : (decimal s : Int) > 255 := by omega
            simp [hfour, hoct, hv, hint]
        · have hdot : 3 - k ≠ 3 ∨ s.length < 1 := by omega
          rw [if_pos hdot]
          simp [hzero]
  | more s t hs ih =>
      intro k x hk
      have hne : t.splitOn '.' ≠ [] := List.splitOn_ne_nil _ _
      obtain ⟨g, fs, hfs⟩ := List.exists_cons_of_ne_nil hne
      have hover : Overfull k (s :: g :: fs) ↔
          0 < k ∧ (FourDigits s ∨ (IsOctet s ∧ Overfull (k - 1) (g :: fs))) := by
        cases k <;> simp [Overfull]
      rw [splitOn_more hs, hfs]
      simp only [hover, List.length_cons, List.forall_mem_cons]
      rcases field_cases s with ⟨hbad, hfour, hoct⟩ | ⟨rfl, hfour, hoct⟩ | ⟨hfour, hoct⟩ |
        ⟨hd, hpos, hle, hfour, hoct⟩
      · rw [scan_bad hs (Nat.zero_le _) hbad]
        simp [hfour, hoct]
      · simp [scan, hfour, hoct]
      · rw [scan_digits hfour.2 (Nat.le_of_eq hfour.1), scan, if_neg (by decide), if_pos rfl]
        by_cases hzero : k = 0
        · subst hzero
          simp
        · have hdot : ¬ 3 - k + 1 > 3 := by omega
          have hsome : ¬ s.length < 1 := by
            rw [hfour.1]
            omega
          rw [if_neg hdot, if_neg hsome, atoiBuf_full hfour]
          simp [hfour, Nat.pos_of_ne_zero hzero]
      · rw [scan_digits hd (by omega), scan, if_neg (by decide), if_pos rfl]
        by_cases hzero : k = 0
        · subst hzero
          simp
        · have hdot : ¬ 3 - k + 1 > 3 := by omega
          have hsome : ¬ s.length < 1 := by omega
          obtain ⟨y, hy⟩ := exists_reset (x := x) hpos hle
          rw [if_neg hdot, if_neg hsome, atoiBuf_field hd hpos hle, Option.bind_some, hy]
          by_cases hv : decimal s ≤ 255
          · have hint : ¬ (decimal s : Int) > 255 := by omega
            have hnext : 3 - k + 1 = 3 - (k - 1) := by omega
            have hlen : fs.length = k - 1 ↔ fs.length + 1 = k := by omega
            rw [if_neg hint, hnext, ih (by omega), hfs]
            simp [hfour, hoct.mpr hv, Nat.pos_of_ne_zero hzero, hlen]
          · have hint : (decimal s : Int) > 255 := by omega
            simp [hfour, hoct, hv, hint]

/-- **The verdict.**  It is right, and `atoi` stays in the buffer, unless a field of four digits is
closed where three more fields at most are to come. -/
theorem right_iff {cp : Text} (hnul : nul ∉ cp) :
    Right cp ↔ ¬ Overfull 3 (cp.splitOn '.') := by
  have hscan : checkInetAddr cp = _ := (congrArg (scan · 0 0 _) (cstr_self hnul)).trans
    (scan_eq cp (k := 3) (x := nul) le_rfl)
  rw [Right, hscan]
  by_cases hover : Overfull 3 (cp.splitOn '.')
  · simp [hover]
  · rw [if_neg hover]
    refine iff_of_true ⟨_, rfl, ?_⟩ hover
    by_cases hquad : DottedQuad cp
    · exact iff_of_true (if_pos hquad) hquad
    · refine iff_of_false (fun h => ?_) hquad
      have hminus : (-1 : Int) = 0 := (if_neg hquad).symm.trans h
      cases hminus

theorem right_localhost : Right "127.0.0.1".toList :=
  (right_iff (by decide)).mpr (by decide)

/-- Four digits in the last field. -/
theorem not_right_fourDigits : ¬ ∀ cp : Text, nul ∉ cp → Right cp := by
  intro h
  obtain ⟨r, hr, -⟩ := h "10.0.0.0001".toList (by decide)
  have hnone : checkInetAddr "10.0.0.0001".toList = none := by decide
  rw [hnone] at hr
  cases hr

end Edm.Deliver.InetAddr
