import Edm.Support.CString

/-!
# Support — Wrap

A text wrapped into lines of at most `w` characters.  `wrapFrom` goes through the text and puts a
line feed in front of every `w`-th character; `wrapped_wrapFrom` says that this wraps it.

A wrapped text begins with the text, and no two line feeds stand next to each other in it.

`cutEvery` cuts a text behind every `w` characters.  The loop puts line feeds between these pieces
(`wrapFrom_zero`), and any text in pieces of `w` characters, but the last, has as many of them
(`EvenLines.length_intercalate`).
-/

namespace Support

/-- The loop over a text, at its character `i`. -/
def wrapFrom (w : Nat) : Nat → Text → Text
  | _, [] => []
  | i, c :: s =>
      if i ≠ 0 ∧ i % w = 0 then '\n' :: c :: wrapFrom w (i + 1) s else c :: wrapFrom w (i + 1) s

/-- `t` is `s` in lines of one to `w` characters. -/
def Wrapped (w : Nat) (s t : Text) : Prop :=
  ∃ ls : List Text, (∀ l ∈ ls, l ≠ [] ∧ l.length ≤ w) ∧ ls.flatten = s ∧ ['\n'].intercalate ls = t

variable {w : Nat} {s t : Text}

/-- What the loop writes: the rest of a line, and lines. -/
theorem exists_wrapFrom (hw : 0 < w) (hs : s ≠ []) (i : Nat) :
    ∃ l ls, l ≠ [] ∧ l.length ≤ w - i % w ∧ (∀ x ∈ ls, x ≠ [] ∧ x.length ≤ w) ∧
      (l :: ls).flatten = s ∧ wrapFrom w i s
        = (if i ≠ 0 ∧ i % w = 0 then ['\n'] else []) ++ ['\n'].intercalate (l :: ls) := by
  induction s generalizing i with
  | nil => exact absurd rfl hs
  | cons c s ih =>
      have hmod := Nat.mod_lt i hw
      by_cases hnil : s = []
      · subst hnil
        refine ⟨[c], [], by simp, by simp; omega, by simp, by simp, ?_⟩
        rw [wrapFrom]
        split <;> simp [wrapFrom]
      obtain ⟨l, ls, hne, hlen, hls, hflat, hwrap⟩ := ih hnil (i + 1)
      have hsum : (i + 1) % w = (i % w + 1) % w := (Nat.mod_add_mod i w 1).symm
      by_cases hline : i % w + 1 = w
      · -- the line ends behind `c`
        rw [hline, Nat.mod_self] at hsum
        rw [hsum, Nat.sub_zero] at hlen
        have hfeed : i + 1 ≠ 0 ∧ (i + 1) % w = 0 := ⟨Nat.succ_ne_zero i, hsum⟩
        rw [if_pos hfeed] at hwrap
        refine ⟨[c], l :: ls, by simp, by simp; omega, ?_, by simp [← hflat], ?_⟩
        · exact List.forall_mem_cons.mpr ⟨⟨hne, hlen⟩, hls⟩
        · rw [wrapFrom, hwrap]
          split <;> simp
      · have hlt : i % w + 1 < w := by omega
        rw [Nat.mod_eq_of_lt hlt] at hsum
        have hsame : ¬ (i + 1 ≠ 0 ∧ (i + 1) % w = 0) := fun h => by omega
        rw [if_neg hsame] at hwrap
        rw [hsum] at hlen
        refine ⟨c :: l, ls, by simp, by simp; omega, hls, by simp [← hflat], ?_⟩
        rw [wrapFrom, hwrap]
        split <;> simp

theorem wrapped_wrapFrom (hw : 0 < w) (s : Text) : Wrapped w s (wrapFrom w 0 s) := by
  by_cases hs : s = []
  · subst hs
    exact ⟨[], by simp, rfl, rfl⟩
  · obtain ⟨l, ls, hne, hlen, hls, hflat, hwrap⟩ := exists_wrapFrom hw hs 0
    refine ⟨l :: ls, List.forall_mem_cons.mpr ⟨⟨hne, by omega⟩, hls⟩, hflat, ?_⟩
    simpa using hwrap.symm

/-- Behind `i` characters, so many have a line feed in front of them. -/
theorem length_wrapFrom (hw : 0 < w) (s : Text) (i : Nat) :
    (wrapFrom w i s).length + (i - 1) / w = s.length + (i + s.length - 1) / w := by
  induction s generalizing i with
  | nil => simp [wrapFrom]
  | cons c s ih =>
      have hstep := ih (i + 1)
      rw [Nat.add_sub_cancel] at hstep
      have hlen : i + (c :: s).length - 1 = i + 1 + s.length - 1 := by
        rw [List.length_cons, Nat.add_right_comm, Nat.add_assoc]
      rw [wrapFrom, hlen]
      split
      next h =>
        obtain ⟨q, hq⟩ := Nat.dvd_of_mod_eq_zero h.2
        have hbefore : (i - 1) / w + 1 = i / w := by
          obtain ⟨q, rfl⟩ : ∃ p, q = p + 1 := ⟨q - 1, by
            have : q ≠ 0 := fun h0 => h.1 (by simp [hq, h0])
            omega⟩
          have hlast : i - 1 = w * q + (w - 1) := by
            rw [hq, Nat.mul_succ]
            omega
          have hlt : w - 1 < w := Nat.sub_lt hw Nat.one_pos
          rw [hlast, hq, Nat.mul_add_div hw, Nat.div_eq_of_lt hlt, Nat.mul_div_cancel_left _ hw,
            Nat.add_zero]
        simp only [List.length_cons]
        omega
      next h =>
        have hbefore : (i - 1) / w = i / w := by
          by_cases hi : i = 0
          · simp [hi]
          · have hne : i % w ≠ 0 := fun hm => h ⟨hi, hm⟩
            have hdiv := Nat.div_add_mod i w
            have hlast : i - 1 = w * (i / w) + (i % w - 1) := by omega
            have hmod := Nat.mod_lt i hw
            have hlt : i % w - 1 < w := by omega
            rw [hlast, Nat.mul_add_div hw, Nat.div_eq_of_lt hlt, Nat.add_zero]
        simp only [List.length_cons]
        omega

/-! ### What a wrapped text is like -/

theorem Wrapped.mem {c : Char} (h : Wrapped w s t) (hc : c ∈ t) : c ∈ s ∨ c = '\n' := by
  obtain ⟨ls, -, rfl, rfl⟩ := h
  induction ls with
  | nil => simp at hc
  | cons l ls ih =>
      cases ls with
      | nil => exact .inl (by simpa using hc)
      | cons l' ls =>
          rw [List.intercalate_cons_cons, List.mem_append, List.mem_append] at hc
          rcases hc with (hc | hc) | hc
          · exact .inl (by simp [hc])
          · exact .inr (by simpa using hc)
          · exact (ih hc).imp_left fun h => by simp_all

/-- A wrapped text begins as the text does. -/
theorem Wrapped.head (h : Wrapped w s t) : t.head? = s.head? := by
  obtain ⟨ls, hls, rfl, rfl⟩ := h
  match ls, hls with
  | [], _ => rfl
  | [] :: ls, hls => exact absurd rfl (hls [] List.mem_cons_self).1
  | (c :: l) :: ls, _ => simp

theorem infix_append_of_not_mem {c : Char} {l u : Text} (hl : c ∉ l) (rest : Text)
    (h : c :: u <:+: l ++ rest) : c :: u <:+: rest := by
  induction l with
  | nil => exact h
  | cons d l ih =>
      rw [List.mem_cons, not_or] at hl
      rw [List.cons_append, List.infix_cons_iff] at h
      rcases h with h | h
      · exact absurd (List.cons_prefix_cons.mp h).1 hl.1
      · exact ih hl.2 h

/-- Between two line feeds stands a line. -/
theorem Wrapped.not_infix (h : Wrapped w s t) (hs : '\n' ∉ s) : ¬ ['\n', '\n'] <:+: t := by
  obtain ⟨ls, hls, rfl, rfl⟩ := h
  induction ls with
  | nil => simp
  | cons l ls ih =>
      rw [List.flatten_cons, List.mem_append, not_or] at hs
      obtain ⟨hl, hls⟩ := List.forall_mem_cons.mp hls
      cases ls with
      | nil =>
          rw [List.intercalate_singleton]
          exact fun h => hs.1 (h.subset (by simp))
      | cons l' ls =>
          rw [List.intercalate_cons_cons, List.append_assoc]
          intro h
          have hrest := infix_append_of_not_mem hs.1 _ h
          rw [List.singleton_append, List.infix_cons_iff] at hrest
          rcases hrest with hrest | hrest
          · -- the next line begins with another character
            obtain ⟨d, l', rfl⟩ := List.exists_cons_of_ne_nil (hls l' List.mem_cons_self).1
            simp at hrest hs
            exact hs.2.1 hrest
          · exact ih hls hs.2 hrest

/-! ### Pieces of the same length -/

/-- A text cut behind every `w` characters. -/
def cutEvery (w : Nat) (s : Text) : List Text :=
  if _h : 0 < w ∧ w < s.length then s.take w :: cutEvery w (s.drop w) else [s]
termination_by s.length
decreasing_by
  rw [List.length_drop]
  omega

theorem cutEvery_short (h : s.length ≤ w) : cutEvery w s = [s] := by
  rw [cutEvery, dif_neg fun hlong => absurd hlong.2 (Nat.not_lt.mpr h)]

theorem cutEvery_long (hw : 0 < w) (h : w < s.length) :
    cutEvery w s = s.take w :: cutEvery w (s.drop w) := by
  rw [cutEvery, dif_pos ⟨hw, h⟩]

theorem cutEvery_ne_nil (w : Nat) (s : Text) : cutEvery w s ≠ [] := by
  rw [cutEvery]
  split
  · exact List.cons_ne_nil _ _
  · exact List.cons_ne_nil _ _

/-- The lines of `s`: all but the last have `w` characters, and the last has one to `w`. -/
structure EvenLines (w : Nat) (s : Text) (ls : List Text) : Prop where
  flat : ls.flatten = s
  full : ∀ l ∈ ls.dropLast, l.length = w
  last : ∀ l ∈ ls.getLast?, l.length ≤ w ∧ (s ≠ [] → l ≠ [])

theorem evenLines_cutEvery (hw : 0 < w) (s : Text) : EvenLines w s (cutEvery w s) := by
  induction s using cutEvery.induct w with
  | case1 s h ih =>
      obtain ⟨flat, full, last⟩ := ih
      have hne : s.drop w ≠ [] := by
        rw [← List.length_pos_iff, List.length_drop]
        omega
      rw [cutEvery_long h.1 h.2]
      refine ⟨?_, ?_, ?_⟩
      · rw [List.flatten_cons, flat, List.take_append_drop]
      · rw [List.dropLast_cons_of_ne_nil (cutEvery_ne_nil w _), List.forall_mem_cons]
        exact ⟨List.length_take_of_le (Nat.le_of_lt h.2), full⟩
      · intro l hl
        rw [List.getLast?_cons_of_ne_nil (cutEvery_ne_nil w _)] at hl
        exact ⟨(last l hl).1, fun _ => (last l hl).2 hne⟩
  | case2 s h =>
      have hshort : s.length ≤ w := Nat.le_of_not_lt fun hlong => h ⟨hw, hlong⟩
      rw [cutEvery_short hshort]
      refine ⟨List.append_nil s, nofun, fun l hl => ?_⟩
      cases hl
      exact ⟨hshort, id⟩

/-- Their number is determined by the length of the text. -/
theorem EvenLines.length_intercalate {ls : List Text} (h : EvenLines w s ls) (hw : 0 < w)
    (sep : Text) : (sep.intercalate ls).length = s.length + (s.length - 1) / w * sep.length := by
  obtain ⟨rfl, full, last⟩ := h
  induction ls with
  | nil => simp
  | cons l ls ih =>
      cases ls with
      | nil =>
          have hl := (last l rfl).1
          have hdiv : (l.length - 1) / w = 0 := Nat.div_eq_of_lt (by omega)
          simp [hdiv]
      | cons l' ls =>
          rw [List.dropLast_cons_cons, List.forall_mem_cons] at full
          have hne : (l :: l' :: ls).flatten ≠ [] := fun hnil => by
            have : l = [] := (List.append_eq_nil_iff.mp hnil).1
            rw [this] at full
            exact Nat.ne_of_lt hw full.1
          have hlast : ∀ x ∈ (l' :: ls).getLast?, x.length ≤ w ∧ x ≠ [] := fun x hx =>
            (last x hx).imp_right fun h => h hne
          have hpos : 0 < (l' :: ls).flatten.length := by
            have hmem := List.getLast_mem (List.cons_ne_nil l' ls)
            have hx := (hlast _ (List.getLast?_eq_getLast_of_ne_nil (List.cons_ne_nil l' ls))).2
            obtain ⟨c, hc⟩ := List.exists_mem_of_ne_nil _ hx
            exact List.length_pos_of_mem (List.mem_flatten.mpr ⟨_, hmem, hc⟩)
          have hrest := ih full.2 fun x hx => (hlast x hx).imp_right fun h _ => h
          have hdiv : (l.length + (l' :: ls).flatten.length - 1) / w
              = ((l' :: ls).flatten.length - 1) / w + 1 := by
            rw [full.1, Nat.add_sub_assoc hpos, Nat.add_div_left _ hw]
          have hflat : (l :: l' :: ls).flatten.length = l.length + (l' :: ls).flatten.length :=
            List.length_append
          rw [List.intercalate_cons_cons, List.length_append, List.length_append, hrest, hflat,
            hdiv, Nat.succ_mul]
          omega

/-! ### The loop and the pieces -/

/-- The loop over characters in front of which no line feed stands. -/
theorem wrapFrom_append {i : Nat} (a b : Text) (h : i % w + a.length ≤ w) (hi : i % w ≠ 0) :
    wrapFrom w i (a ++ b) = a ++ wrapFrom w (i + a.length) b := by
  induction a generalizing i with
  | nil => rfl
  | cons c a ih =>
      have hnot : ¬ (i ≠ 0 ∧ i % w = 0) := fun hline => hi hline.2
      rw [List.cons_append, wrapFrom, if_neg hnot, List.length_cons, Nat.add_comm a.length,
        ← Nat.add_assoc]
      rw [List.length_cons] at h
      cases a with
      | nil => rfl
      | cons d a =>
          rw [List.length_cons] at h
          have hmod : (i + 1) % w = i % w + 1 := by
            rw [← Nat.mod_add_mod, Nat.mod_eq_of_lt (by omega)]
          rw [ih (by rw [hmod, List.length_cons]; omega) (by omega)]
          rfl

/-- The first line of a text. -/
theorem wrapFrom_line {i : Nat} (hi : i % w = 0) (a b : Text) (ha : a ≠ []) (hlen : a.length ≤ w) :
    wrapFrom w i (a ++ b)
      = (if i ≠ 0 then ['\n'] else []) ++ (a ++ wrapFrom w (i + a.length) b) := by
  obtain ⟨c, a, rfl⟩ := List.exists_cons_of_ne_nil ha
  have hrest : wrapFrom w (i + 1) (a ++ b) = a ++ wrapFrom w (i + (c :: a).length) b := by
    rw [List.length_cons] at hlen ⊢
    cases a with
    | nil => rfl
    | cons d a =>
        rw [List.length_cons] at hlen
        have hmod : (i + 1) % w = 1 := by
          rw [← Nat.mod_add_mod, hi, Nat.mod_eq_of_lt (by omega)]
        rw [wrapFrom_append _ _ (by rw [hmod, List.length_cons]; omega) (by omega)]
        congr 2
        omega
  rw [List.cons_append, wrapFrom, hrest]
  by_cases h0 : i = 0
  · rw [if_neg (fun h => h.1 h0), if_neg (not_not.mpr h0)]
    rfl
  · rw [if_pos ⟨h0, hi⟩, if_pos h0]
    rfl

/-- The loop puts line feeds between the pieces. -/
theorem wrapFrom_eq (hw : 0 < w) (hs : s ≠ []) {i : Nat} (hi : i % w = 0) : wrapFrom w i s
    = (if i ≠ 0 then ['\n'] else []) ++ ['\n'].intercalate (cutEvery w s) := by
  induction s using cutEvery.induct w generalizing i with
  | case1 s h ih =>
      have hlen : (s.take w).length = w := List.length_take_of_le (Nat.le_of_lt h.2)
      have hne : s.drop w ≠ [] := by
        rw [← List.length_pos_iff, List.length_drop]
        omega
      have htake : s.take w ≠ [] := by
        rw [← List.length_pos_iff, hlen]
        exact hw
      have hline := wrapFrom_line hi (s.take w) (s.drop w) htake (Nat.le_of_eq hlen)
      have hnext : i + w ≠ 0 := by omega
      rw [List.take_append_drop, hlen, ih hne (by rw [Nat.add_mod_right, hi]), if_pos hnext]
        at hline
      rw [hline, cutEvery_long h.1 h.2, List.intercalate_cons_of_ne_nil (cutEvery_ne_nil w _)]
      simp
  | case2 s h =>
      have hshort : s.length ≤ w := Nat.le_of_not_lt fun hlong => h ⟨hw, hlong⟩
      have hline := wrapFrom_line hi s [] hs hshort
      rw [List.append_nil] at hline
      rw [hline, cutEvery_short hshort, List.intercalate_singleton, wrapFrom, List.append_nil]

theorem wrapFrom_zero (hw : 0 < w) (s : Text) :
    wrapFrom w 0 s = ['\n'].intercalate (cutEvery w s) := by
  by_cases hs : s = []
  · rw [hs, cutEvery_short (Nat.zero_le w)]
    rfl
  · exact wrapFrom_eq hw hs (Nat.zero_mod w)

end Support
