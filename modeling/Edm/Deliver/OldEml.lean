import Edm.Deliver.Edcode
import Edm.Support.Rewrite
import Edm.Support.Run
import Edm.Support.Wrap

/-!
# Deliver — OldEml

`emlbase64`, which encodes a mail before it is sent, and `oldeml`, which encodes a mail of one part.

`emlbase64` looks for CRLFCRLF first and `oldeml` for LFLF.  `encodes_iff`: `oldeml` leaves the head
and the blank lines behind it and encodes the rest if and only if its search ends behind the same
blank lines, and there is room.

`flag` is a global variable, which a text without a blank line leaves as it is; `a` is then a null
pointer, and written through when `flag` is set.  `safe_iff`: what a sequence of texts must be like
for no call to do so, and for `oldeml` to stay inside its buffers.
-/

namespace Edm.Deliver.OldEml

open Support Edcode

/-! ### The two functions -/

/-- The size of `context` and `pp`. -/
def room : Nat := 500 * 1024

def crlf : Text := ['\r', '\n']

def crlf2 : Text := ['\r', '\n', '\r', '\n']

def lf2 : Text := ['\n', '\n']

/-- `while(*(p+k) == '\r') k = k+2`: one CR at the end of the text takes it past the NUL. -/
def skipPairs : Text → Nat
  | [] => 0
  | [c] => if c = '\r' then 2 else 0
  | c :: _ :: s => if c = '\r' then 2 + skipPairs s else 0

/-- Where `p+k` points to in `context`; `none` when `k == 0`. -/
def bodyAt (src : Text) : Option Nat :=
  match breakAt lf2 src with
  | some (h, s) => some (h.length + 2 + (s.takeWhile (· == '\n')).length)
  | none => (breakAt crlf2 src).map fun q => q.1.length + 4 + skipPairs q.2

/-- `oldeml` of a C string; `some none` is a null pointer, and `none` that a buffer is left. -/
def oldeml (src : Text) : Option (Option Text) :=
  if room < src.length + 1 then none
  else (bodyAt src).elim (some none) fun k =>
    if room ≤ k then none
    else (Edcode.base64Encode (src.drop k) (int32 (src.drop k).length)).bind fun encode =>
      let pp := wrapFrom 76 0 encode.2
      -- the NUL of `pp`, and what is copied behind the head
      if room ≤ pp.length ∨ room < k + pp.length then none else some (some (src.take k ++ pp))

/-- The first blank line as `emlbase64` looks for it: the text before it and what `flag` becomes. -/
def findBlank (src : Text) : Option (Text × Nat) :=
  match breakAt crlf2 src with
  | some q => some (q.1, 1)
  | none => (breakAt lf2 src).map fun q => (q.1, 2)

/-- `boundary` is named in front of the first blank line, or anywhere when there is none. -/
def Multipart (src : Text) : Prop :=
  "boundary=\"".toList <:+: ((findBlank src).map (·.1)).getD src

instance : DecidablePred Multipart := fun src =>
  inferInstanceAs (Decidable ("boundary=\"".toList <:+: ((findBlank src).map (·.1)).getD src))

/-- What `emlbase64` does last. -/
inductive Call where
  /-- `*a` is set, with `a` null -/
  | null
  | oldeml (src : Text)
  | spliteml (src : Text)
  deriving DecidableEq

/-- `emlbase64`: `flag` afterwards, and what is called. -/
def emlbase64 (flag : Nat) (src : Text) : Nat × Call :=
  let found := findBlank src
  let flag := (found.map (·.2)).getD flag
  (flag,
    if found = none ∧ flag ≠ 0 then .null
    else if Multipart src then .spliteml src else .oldeml src)

/-! ### What `oldeml` writes -/

/-- The length of `n` bytes, encoded and in lines. -/
def wrappedLength (n : Nat) : Nat := (n + 2) / 3 * 4 + ((n + 2) / 3 * 4 - 1) / 76

/-- What `oldeml` writes for the body. -/
def body (x : Text) : Text := wrapFrom 76 0 (base64 (x.map lowByte))

theorem length_body (x : Text) : (body x).length = wrappedLength x.length := by
  have hlen := length_wrapFrom (w := 76) (by decide) (base64 (x.map lowByte)) 0
  rw [length_base64, List.length_map, Nat.zero_add] at hlen
  rw [body, wrappedLength, ← hlen]
  rfl

theorem wrapped_body (x : Text) : Wrapped 76 (base64 (x.map lowByte)) (body x) :=
  wrapped_wrapFrom (by decide) _

theorem two_le_of_bodyAt {src : Text} {k : Nat} (h : bodyAt src = some k) : 2 ≤ k := by
  rw [bodyAt] at h
  split at h
  · have := Option.some.inj h
    omega
  · obtain ⟨q, -, rfl⟩ := Option.map_eq_some_iff.mp h
    omega

theorem oldeml_none {src : Text} (hlen : src.length < room) (h : bodyAt src = none) :
    oldeml src = some none := by
  have hfit : ¬ room < src.length + 1 := Nat.not_lt.mpr hlen
  rw [oldeml, if_neg hfit, h]
  rfl

theorem oldeml_some {src : Text} {k : Nat} (hlen : src.length < room) (h : bodyAt src = some k) :
    oldeml src = if k < room ∧ k + wrappedLength (src.length - k) ≤ room then
      some (some (src.take k ++ body (src.drop k))) else none := by
  have hfit : ¬ room < src.length + 1 := Nat.not_lt.mpr hlen
  have hk := two_le_of_bodyAt h
  have hroom : room = 512000 := rfl
  have henc : (src.drop k).length ≤ maxEncoded := by
    rw [List.length_drop, maxEncoded]
    omega
  have hbody := length_body (src.drop k)
  rw [List.length_drop] at hbody
  rw [oldeml, if_neg hfit, h, Option.elim_some, base64Encode_of_le henc, Option.bind_some]
  change (if room ≤ k then none else if room ≤ (body (src.drop k)).length ∨
    room < k + (body (src.drop k)).length then none else some _) = _
  rw [hbody]
  split
  · rw [if_neg fun h => by omega]
  · split
    · rw [if_neg fun h => by omega]
    · rw [if_pos ⟨by omega, by omega⟩]
      rfl

/-! ### Blank lines -/

/-- Nothing but blank lines, each ended by LF or CRLF. -/
inductive BlankLines : Text → Prop where
  | nil : BlankLines []
  | lf {s : Text} : BlankLines s → BlankLines ('\n' :: s)
  | crlf {s : Text} : BlankLines s → BlankLines ('\r' :: '\n' :: s)

variable {src h sep b blank rest : Text}

theorem BlankLines.mem {s : Text} {c : Char} (hs : BlankLines s) (hc : c ∈ s) :
    c = '\r' ∨ c = '\n' := by
  induction hs with
  | nil => cases hc
  | lf _ ih =>
      rcases List.mem_cons.mp hc with rfl | hc
      · exact .inr rfl
      · exact ih hc
  | crlf _ ih =>
      rcases List.mem_cons.mp hc with rfl | hc
      · exact .inl rfl
      · rcases List.mem_cons.mp hc with rfl | hc
        · exact .inr rfl
        · exact ih hc

theorem skipPairs_of_ne {s : Text} (hs : s.head? ≠ some '\r') : skipPairs s = 0 := by
  match s with
  | [] => rfl
  | [c] => exact if_neg fun hc => hs (by rw [hc]; rfl)
  | c :: _ :: _ => exact if_neg fun hc => hs (by rw [hc]; rfl)

theorem skipPairs_pair (c : Char) (s : Text) : skipPairs ('\r' :: c :: s) = 2 + skipPairs s :=
  if_pos rfl

theorem skip_cases (s : Text) :
    s.head? ≠ some '\r' ∨ s = ['\r'] ∨ ∃ c t, s = '\r' :: c :: t := by
  match s with
  | [] => exact .inl (by simp)
  | [c] =>
      by_cases hc : c = '\r'
      · exact .inr (.inl (by rw [hc]))
      · exact .inl (by simpa using hc)
  | c :: d :: t =>
      by_cases hc : c = '\r'
      · exact .inr (.inr ⟨d, t, by rw [hc]⟩)
      · exact .inl (by simpa using hc)

/-- Of blank lines, the CRLF are skipped. -/
theorem skipPairs_iff (hblank : BlankLines blank) :
    skipPairs (blank ++ rest) = blank.length
      ↔ (∃ m, blank = (List.replicate m crlf).flatten) ∧ rest.head? ≠ some '\r' := by
  induction hblank with
  | nil =>
      rw [List.nil_append, List.length_nil]
      refine ⟨fun h => ⟨⟨0, rfl⟩, ?_⟩, fun h => skipPairs_of_ne h.2⟩
      obtain hr | rfl | ⟨c, s, rfl⟩ := skip_cases rest
      · exact hr
      · cases h
      · rw [skipPairs_pair] at h
        omega
  | @lf s _ _ =>
      refine iff_of_false (fun h => ?_) fun h => ?_
      · rw [List.cons_append, skipPairs_of_ne (by simp)] at h
        cases h
      · obtain ⟨⟨_ | m, hm⟩, -⟩ := h <;> simp [crlf, List.replicate_succ] at hm
  | @crlf s _ ih =>
      rw [List.cons_append, List.cons_append, skipPairs_pair, List.length_cons, List.length_cons,
        Nat.add_comm 2, Nat.add_right_cancel_iff (n := 2), ih]
      refine and_congr_left fun _ => ⟨fun ⟨m, hm⟩ => ⟨m + 1, ?_⟩, fun ⟨m, hm⟩ => ?_⟩
      · rw [hm, List.replicate_succ, List.flatten_cons]
        rfl
      · cases m with
        | zero => simp at hm
        | succ m =>
            refine ⟨m, ?_⟩
            rw [List.replicate_succ, List.flatten_cons] at hm
            simpa [crlf] using hm

/-- Blank lines, with a text behind them that has no CR, are all that is skipped. -/
theorem skipPairs_eq {s x : Text} (hblank : BlankLines blank)
    (h : s.take (skipPairs s) = blank ++ x) (hx : '\r' ∉ x) : skipPairs s = blank.length := by
  induction hblank generalizing s with
  | nil =>
      rw [List.nil_append] at h
      obtain hs | rfl | ⟨c, s, rfl⟩ := skip_cases s
      · exact skipPairs_of_ne hs
      · exact absurd (h ▸ List.mem_cons_self) hx
      · rw [skipPairs_pair, Nat.add_comm] at h
        exact absurd (h ▸ List.mem_cons_self) hx
  | @lf t _ _ =>
      obtain hs | rfl | ⟨c, s, rfl⟩ := skip_cases s
      · rw [skipPairs_of_ne hs] at h
        cases h
      · simp [skipPairs] at h
      · rw [skipPairs_pair, Nat.add_comm, List.take_succ_cons] at h
        simp at h
  | @crlf t _ ih =>
      obtain hs | rfl | ⟨c, s, rfl⟩ := skip_cases s
      · rw [skipPairs_of_ne hs] at h
        cases h
      · simp [skipPairs] at h
      · rw [skipPairs_pair, Nat.add_comm, List.take_succ_cons, List.take_succ_cons] at h
        simp only [List.cons_append, List.cons.injEq] at h
        rw [skipPairs_pair, ih h.2.2, List.length_cons, List.length_cons, Nat.add_comm]

/-! ### The two searches -/

/-- The head of a mail, its first blank line and its body: CRLFCRLF if the text has one, else
LFLF. -/
def separated (src : Text) : Option (Text × Text × Text) :=
  match breakAt crlf2 src with
  | some (h, b) => some (h, crlf2, b)
  | none => (breakAt lf2 src).map fun q => (q.1, lf2, q.2)

/-- The search of `oldeml` ends behind `blank`: the first LFLF and the LFs behind it do; without
LFLF, CRLFs and nothing else make up `blank`, and no CR follows. -/
def Agrees (src h sep blank rest : Text) : Prop :=
  match breakAt lf2 src with
  | some (h', s) => h ++ (sep ++ blank) = h' ++ (lf2 ++ s.takeWhile (· == '\n'))
  | none => (∃ m, blank = (List.replicate m crlf).flatten) ∧ rest.head? ≠ some '\r'

theorem separated_cases (hs : separated src = some (h, sep, b)) :
    (sep = crlf2 ∧ breakAt crlf2 src = some (h, b)) ∨
      (sep = lf2 ∧ breakAt lf2 src = some (h, b)) := by
  rw [separated] at hs
  split at hs
  next hcrlf =>
    cases hs
    exact .inl ⟨rfl, hcrlf⟩
  next =>
    obtain ⟨q, hq, hs⟩ := Option.map_eq_some_iff.mp hs
    cases hs
    exact .inr ⟨rfl, hq⟩

theorem eq_of_separated (hs : separated src = some (h, sep, b)) : src = h ++ (sep ++ b) := by
  obtain ⟨rfl, hbreak⟩ | ⟨rfl, hbreak⟩ := separated_cases hs <;> exact eq_of_breakAt hbreak

theorem split_of_separated (hs : separated src = some (h, sep, blank ++ rest)) :
    src = h ++ (sep ++ blank) ++ rest := by
  rw [eq_of_separated hs, List.append_assoc, List.append_assoc]

theorem blankLines_sep (hs : separated src = some (h, sep, b)) (hblank : BlankLines blank) :
    BlankLines (sep ++ blank) := by
  obtain ⟨rfl, -⟩ | ⟨rfl, -⟩ := separated_cases hs
  · exact .crlf (.crlf hblank)
  · exact .lf (.lf hblank)

theorem bodyAt_lf {s : Text} (hlf : breakAt lf2 src = some (h, s)) :
    bodyAt src = some (h ++ (lf2 ++ s.takeWhile (· == '\n'))).length := by
  rw [bodyAt, hlf]
  simp [lf2]
  omega

theorem bodyAt_crlf (hlf : breakAt lf2 src = none) (hs : separated src = some (h, sep, b)) :
    sep = crlf2 ∧ bodyAt src = some (h.length + 4 + skipPairs b) := by
  obtain ⟨rfl, hbreak⟩ | ⟨-, hbreak⟩ := separated_cases hs
  · rw [bodyAt, hlf, hbreak]
    exact ⟨rfl, rfl⟩
  · rw [hlf] at hbreak
    cases hbreak

theorem agrees_iff (hs : separated src = some (h, sep, blank ++ rest)) (hblank : BlankLines blank) :
    Agrees src h sep blank rest ↔ bodyAt src = some (h ++ (sep ++ blank)).length := by
  have hsrc := split_of_separated hs
  rw [Agrees]
  split
  next h' s hlf =>
    have hparts : h ++ (sep ++ blank) ++ rest
        = (h' ++ (lf2 ++ s.takeWhile (· == '\n'))) ++ s.dropWhile (· == '\n') := by
      have hsrc' := eq_of_breakAt hlf
      rw [← List.takeWhile_append_dropWhile (p := (· == '\n')) (l := s)] at hsrc'
      rw [← hsrc, hsrc', List.append_assoc, List.append_assoc]
    rw [bodyAt_lf hlf, Option.some.injEq]
    exact ⟨fun h => by rw [h], fun h => (List.append_inj hparts h.symm).1⟩
  next hlf =>
    obtain ⟨rfl, hbody⟩ := bodyAt_crlf hlf hs
    rw [hbody, Option.some.injEq, ← skipPairs_iff hblank]
    simp [crlf2]
    omega

/-- What `Wrapped` says of a text in base 64, as far as blank lines go. -/
structure Plain (t : Text) : Prop where
  noCr : '\r' ∉ t
  start : t.head? ≠ some '\n'
  noBlank : ¬ lf2 <:+: t

theorem plain_of_wrapped {x t : Text} (ht : Wrapped 76 (base64 x) t) : Plain t := by
  have hmem : ∀ c ∈ base64 x, c ≠ '\r' ∧ c ≠ '\n' :=
    forall_base64 (P := fun c => c ≠ '\r' ∧ c ≠ '\n') (by decide) (by decide) x
  refine ⟨fun hc => ?_, fun hc => ?_, ht.not_infix fun hc => (hmem _ hc).2 rfl⟩
  · rcases ht.mem hc with hc | hc
    · exact (hmem _ hc).1 rfl
    · exact absurd hc (by decide)
  · rw [ht.head] at hc
    exact (hmem _ (List.mem_of_head? hc)).2 rfl

/-- The search does not end before the blank lines do, when a plain text follows it. -/
theorem Plain.not_before {k : Nat} {x w : Text} (hs : separated src = some (h, sep, blank ++ rest))
    (hblank : BlankLines blank) (hk : bodyAt src = some k)
    (hx : h ++ (sep ++ blank) = src.take k ++ x) (hplain : Plain (x ++ w)) : x = [] := by
  have hsuffix : x <:+ sep ++ blank := by
    refine List.suffix_of_suffix_length_le ⟨_, hx.symm⟩ (List.suffix_append h _) ?_
    obtain ⟨rfl, -⟩ | ⟨rfl, hlf⟩ := separated_cases hs
    · -- a longer one has the CR of CRLFCRLF
      by_contra hlen
      refine hplain.noCr (List.mem_append_left w ?_)
      have : crlf2 ++ blank <:+ x := List.suffix_of_suffix_length_le (List.suffix_append h _)
        ⟨_, hx.symm⟩ (by omega)
      exact this.subset List.mem_cons_self
    · have hkEq := (bodyAt_lf hlf).symm.trans hk
      have hlen := congrArg List.length hx
      have hsrc := congrArg List.length (eq_of_separated hs)
      have htake := (List.takeWhile_prefix (· == '\n') (l := blank ++ rest)).length_le
      simp only [Option.some.injEq, List.length_append, List.length_take] at *
      omega
  cases x with
  | nil => rfl
  | cons c x =>
      rcases (blankLines_sep hs hblank).mem (hsuffix.subset List.mem_cons_self) with rfl | rfl
      · exact absurd (by simp) hplain.noCr
      · exact absurd rfl hplain.start

/-- The search for LFLF ends inside the text, behind two LFs. -/
theorem suffix_lf {k : Nat} {s : Text} (hlf : breakAt lf2 src = some (h, s))
    (hk : bodyAt src = some k) : k ≤ src.length ∧ lf2 <:+ src.take k := by
  obtain ⟨u, hu⟩ : ∃ u, u = s.takeWhile (· == '\n') := ⟨_, rfl⟩
  have hkEq := Option.some.inj ((bodyAt_lf hlf).symm.trans hk)
  have hsrc : src = (h ++ (lf2 ++ u)) ++ s.dropWhile (· == '\n') := by
    have hsrc := eq_of_breakAt hlf
    rw [← List.takeWhile_append_dropWhile (p := (· == '\n')) (l := s)] at hsrc
    simpa [hu] using hsrc
  have hlfs : lf2 ++ u = u ++ lf2 := by
    have hrep : u = List.replicate u.length '\n' :=
      List.eq_replicate_iff.mpr ⟨rfl, fun c hc =>
        eq_of_beq (List.mem_takeWhile_imp (p := (· == '\n')) (hu ▸ hc))⟩
    have htwo : lf2 = List.replicate 2 '\n' := rfl
    rw [hrep, htwo, List.replicate_append_replicate, List.replicate_append_replicate, Nat.add_comm]
  rw [← hu] at hkEq
  refine ⟨?_, h ++ u, ?_⟩
  · have hpre : h ++ (lf2 ++ u) <+: src := ⟨_, hsrc.symm⟩
    rw [← hkEq]
    exact hpre.length_le
  · rw [← hkEq, hsrc, List.take_left, hlfs, List.append_assoc]

/-- Nor behind them. -/
theorem Plain.not_behind {k : Nat} {x w : Text} (hs : separated src = some (h, sep, blank ++ rest))
    (hblank : BlankLines blank) (hk : bodyAt src = some k)
    (hx : src.take k = h ++ (sep ++ blank) ++ x) (hplain : Plain (x ++ w)) :
    k = (h ++ (sep ++ blank)).length := by
  have hcr : '\r' ∉ x := fun hc => hplain.noCr (List.mem_append_left w hc)
  cases hlf : breakAt lf2 src with
  | none =>
      obtain ⟨rfl, hbody⟩ := bodyAt_crlf hlf hs
      have hkEq := Option.some.inj (hbody.symm.trans hk)
      have hsplit : (blank ++ rest).take (skipPairs (blank ++ rest)) = blank ++ x := by
        have hlen : h.length + 4 = (h ++ crlf2).length := by
          rw [List.length_append, crlf2]
          rfl
        rw [eq_of_separated hs, ← hkEq, hlen, ← List.append_assoc,
          List.take_length_add_append] at hx
        simpa using hx
      rw [← hkEq, skipPairs_eq hblank hsplit hcr]
      simp [crlf2]
      omega
  | some q =>
      obtain ⟨h', s⟩ := q
      have hkEq := Option.some.inj ((bodyAt_lf hlf).symm.trans hk)
      obtain ⟨hle, hends⟩ := suffix_lf hlf hk
      have hnil : x = [] := by
        rcases List.suffix_or_suffix_of_suffix ⟨_, hx.symm⟩ hends with hsuf | hsuf
        · cases x with
          | nil => rfl
          | cons c x =>
              -- `x` is a tail of LFLF
              have hc : c = '\n' := by simpa [lf2] using hsuf.subset List.mem_cons_self
              exact absurd (by rw [hc]; rfl) hplain.start
        · exact absurd (hsuf.isInfix.trans (List.prefix_append x w).isInfix) hplain.noBlank
      rw [hnil, List.append_nil] at hx
      rw [← hx, List.length_take]
      omega

/-- `oldeml` returns the head, the first blank line and the blank lines behind it, and the rest of
the body in base 64, in lines of 76. -/
def Encodes (src h sep b : Text) : Prop :=
  ∃ t blank rest w, oldeml src = some (some t) ∧ t.length < room ∧ BlankLines blank ∧
    b = blank ++ rest ∧ t = h ++ (sep ++ blank) ++ w ∧ Wrapped 76 (base64 (rest.map lowByte)) w

theorem length_lt_of_oldeml {o : Option Text} (h : oldeml src = some o) : src.length < room := by
  rw [oldeml] at h
  split at h
  next => cases h
  next hlen => exact Nat.not_lt.mp hlen

/-- What a text is that `oldeml` returns. -/
theorem eq_of_oldeml {t : Text} (ht : oldeml src = some (some t)) :
    ∃ k, bodyAt src = some k ∧ k < room ∧ t = src.take k ++ body (src.drop k) := by
  have hlen := length_lt_of_oldeml ht
  cases hk : bodyAt src with
  | none =>
      rw [oldeml_none hlen hk] at ht
      cases ht
  | some k =>
      rw [oldeml_some hlen hk] at ht
      split at ht
      next hroom =>
        cases ht
        exact ⟨k, rfl, hroom.1, rfl⟩
      next => cases ht

/-- What there is to encode, when the search ends behind `blank` and there is room. -/
theorem parts_of_encodes (hs : separated src = some (h, sep, b)) (henc : Encodes src h sep b) :
    ∃ blank rest, BlankLines blank ∧ b = blank ++ rest ∧ Agrees src h sep blank rest ∧
      src.length < room ∧ (h ++ (sep ++ blank)).length + wrappedLength rest.length < room := by
  obtain ⟨t, blank, rest, w, hold, hlen, hblank, rfl, ht, hw⟩ := henc
  obtain ⟨k, hk, -, hbody⟩ := eq_of_oldeml hold
  have hp : k = (h ++ (sep ++ blank)).length := by
    rcases List.append_eq_append_iff.mp (hbody.symm.trans ht) with ⟨x, hx, hbefore⟩ | ⟨x, hx, hw'⟩
    · -- the search ends before `blank` does
      have hplain := plain_of_wrapped (wrapped_body (src.drop k))
      rw [hbefore] at hplain
      rw [hplain.not_before hs hblank hk hx, List.append_nil] at hx
      exact (plain_of_wrapped hw).not_behind (x := []) hs hblank hk (by rw [hx, List.append_nil])
    -- it ends behind `blank`
    · rw [hw'] at hw
      exact (plain_of_wrapped hw).not_behind hs hblank hk hx
  have hsrc := split_of_separated hs
  refine ⟨blank, rest, hblank, rfl, (agrees_iff hs hblank).mpr (hp ▸ hk),
    length_lt_of_oldeml hold, ?_⟩
  rw [hp, hsrc, List.take_left, List.drop_left] at hbody
  rw [hbody, List.length_append, length_body] at hlen
  exact hlen

/-- A mail is encoded as it should be if and only if `oldeml` finds the blank lines behind its head,
and it fits the buffers, as it is and with its body encoded. -/
theorem encodes_iff (hs : separated src = some (h, sep, b)) :
    Encodes src h sep b ↔ ∃ blank rest, BlankLines blank ∧ b = blank ++ rest ∧
      Agrees src h sep blank rest ∧ src.length < room ∧
      (h ++ (sep ++ blank)).length + wrappedLength rest.length < room := by
  refine ⟨parts_of_encodes hs, ?_⟩
  rintro ⟨blank, rest, hblank, rfl, hagrees, hlen, hroom⟩
  have hk := (agrees_iff hs hblank).mp hagrees
  have hsrc := split_of_separated hs
  have hrest : src.length - (h ++ (sep ++ blank)).length = rest.length := by
    have hsum := congrArg List.length hsrc
    simp only [List.length_append] at hsum ⊢
    omega
  have hfit : (h ++ (sep ++ blank)).length < room
      ∧ (h ++ (sep ++ blank)).length + wrappedLength rest.length ≤ room := by omega
  refine ⟨_, blank, rest, body rest, ?_, ?_, hblank, rfl, rfl, wrapped_body rest⟩
  · rw [oldeml_some hlen hk, hrest, if_pos hfit, hsrc, List.take_left, List.drop_left]
  · rw [List.length_append, length_body]
    exact hroom

/-- LFs all through. -/
theorem encodes_lf : Encodes "a: b\n\n\nhello".toList "a: b".toList lf2 "\nhello".toList :=
  (encodes_iff (by decide)).mpr
    ⟨['\n'], "hello".toList, .lf .nil, rfl, (agrees_iff (by decide) (.lf .nil)).mpr (by decide),
      by decide, by decide⟩

/-- A head with CRLFs, and a body with LFs in which an empty line comes later. -/
def mixed : Text := "a: b\r\n\r\nx\n\ny".toList

theorem separated_mixed : separated mixed = some ("a: b".toList, crlf2, "x\n\ny".toList) := by
  decide

theorem not_encodes_mixed : ¬ ∀ src h sep b, separated src = some (h, sep, b) →
    Encodes src h sep b := by
  intro hall
  obtain ⟨blank, rest, hblank, hb, hagrees, -⟩ :=
    parts_of_encodes separated_mixed (hall _ _ _ _ separated_mixed)
  have hlf : breakAt lf2 mixed = some ("a: b\r\n\r\nx".toList, ['y']) := by decide
  rw [Agrees, hlf] at hagrees
  have hx : blank = ['x', '\n', '\n'] := by simpa [crlf2, lf2] using hagrees
  rw [hx] at hblank
  cases hblank

/-! ### Sequences of texts -/

/-- The call sets no `*a` of a null pointer, and `oldeml` does not leave its buffers. -/
def Safe (flag : Nat) (src : Text) : Prop :=
  match (emlbase64 flag src).2 with
  | .null => False
  | .oldeml src => (oldeml src).isSome
  | .spliteml _ => True

/-- The text fits `context`, and does with its body encoded. -/
def Fits (src : Text) : Prop :=
  src.length < room ∧
    ∀ k, bodyAt src = some k → k < room ∧ k + wrappedLength (src.length - k) ≤ room

theorem isSome_oldeml_iff (src : Text) : (oldeml src).isSome ↔ Fits src := by
  by_cases hlen : src.length < room
  · cases hk : bodyAt src with
    | none =>
        rw [oldeml_none hlen hk]
        exact iff_of_true rfl ⟨hlen, fun k h => absurd (hk.symm.trans h) (by simp)⟩
    | some k =>
        rw [oldeml_some hlen hk]
        have hfits : Fits src ↔ k < room ∧ k + wrappedLength (src.length - k) ≤ room :=
          ⟨fun h => h.2 k hk, fun h => ⟨hlen, fun k' h' => by
            rwa [← Option.some.inj (hk.symm.trans h')]⟩⟩
        rw [hfits]
        split
        next h => exact iff_of_true rfl h
        next h => exact iff_of_false (by simp) h
  · refine iff_of_false (fun h => hlen ?_) fun h => hlen h.1
    obtain ⟨o, ho⟩ := Option.isSome_iff_exists.mp h
    exact length_lt_of_oldeml ho

theorem flag_ne_zero_iff (flag : Nat) (src : Text) :
    (emlbase64 flag src).1 ≠ 0 ↔ flag ≠ 0 ∨ findBlank src ≠ none := by
  have hpos : ∀ q, findBlank src = some q → q.2 ≠ 0 := by
    intro q hq
    rw [findBlank] at hq
    split at hq
    · cases hq
      exact Nat.one_ne_zero
    · obtain ⟨p, -, rfl⟩ := Option.map_eq_some_iff.mp hq
      exact Nat.succ_ne_zero 1
  rw [emlbase64]
  cases hfound : findBlank src with
  | none => simp
  | some q => simpa using hpos q hfound

theorem safe_iff_flag (flag : Nat) (src : Text) :
    Safe flag src ↔ (flag ≠ 0 → findBlank src ≠ none) ∧ (¬ Multipart src → Fits src) := by
  have hnull : (findBlank src = none ∧ ((findBlank src).map (·.2)).getD flag ≠ 0)
      ↔ ¬ (flag ≠ 0 → findBlank src ≠ none) := by
    cases findBlank src <;> simp
  rw [Safe, emlbase64]
  dsimp only
  by_cases h : flag ≠ 0 → findBlank src ≠ none
  · rw [if_neg (fun hn => hnull.mp hn h)]
    by_cases hm : Multipart src
    · rw [if_pos hm]
      exact iff_of_true trivial ⟨h, absurd hm⟩
    · rw [if_neg hm]
      dsimp only
      rw [isSome_oldeml_iff]
      exact ⟨fun hf => ⟨h, fun _ => hf⟩, fun hf => hf.2 hm⟩
  · rw [if_pos (hnull.mpr h)]
    exact iff_of_false id fun hf => h hf.1

/-- The state is `flag`. -/
theorem safe_iff_of_flag {srcs : List Text} : ∀ {flag : Nat},
    (∀ p ∈ visits (fun flag src => (emlbase64 flag src).1) flag srcs, Safe p.1 p.2)
      ↔ (flag ≠ 0 → ∀ src ∈ srcs, findBlank src ≠ none) ∧
        srcs.Pairwise (fun s t => findBlank s ≠ none → findBlank t ≠ none) ∧
        ∀ src ∈ srcs, ¬ Multipart src → Fits src := by
  induction srcs with
  | nil => exact fun {flag} => iff_of_true (by simp [visits]) (by simp)
  | cons src srcs ih =>
      intro flag
      rw [visits, List.forall_mem_cons, safe_iff_flag, ih, flag_ne_zero_iff, List.forall_mem_cons,
        List.forall_mem_cons, List.pairwise_cons]
      constructor
      · rintro ⟨⟨hsep, hfit⟩, hset, hpair, hfits⟩
        exact ⟨fun h => ⟨hsep h, hset (.inl h)⟩, ⟨fun t ht h => hset (.inr h) t ht, hpair⟩,
          hfit, hfits⟩
      · rintro ⟨hset, ⟨hfirst, hpair⟩, hfit, hfits⟩
        exact ⟨⟨fun h => (hset h).1, hfit⟩,
          fun h t ht => h.elim (fun h => (hset h).2 t ht) fun h => hfirst t ht h, hpair, hfits⟩

/-- No call writes through a null pointer or leaves a buffer if and only if no text without a blank
line comes after one that has one, and each text of one part fits. -/
theorem safe_iff (srcs : List Text) :
    (∀ p ∈ visits (fun flag src => (emlbase64 flag src).1) 0 srcs, Safe p.1 p.2)
      ↔ srcs.Pairwise (fun s t => findBlank s ≠ none → findBlank t ≠ none) ∧
        ∀ src ∈ srcs, ¬ Multipart src → Fits src := by
  rw [safe_iff_of_flag]
  exact and_iff_right fun h => absurd rfl h

/-- A mail, and a text without a blank line after it. -/
theorem not_safe_unseparated : ¬ ∀ srcs : List Text, (∀ src ∈ srcs, src.length < 1024 * 1024) →
    ∀ p ∈ visits (fun flag src => (emlbase64 flag src).1) 0 srcs, Safe p.1 p.2 := by
  intro hall
  have hsafe := hall ["a: b\n\nhello".toList, "hello".toList] (by decide)
  have hset := (safe_iff_of_flag.mp hsafe).2.1
  exact absurd hset (by decide)

end Edm.Deliver.OldEml
