import Edm.Support.CString
import Edm.Support.Replace
import Mathlib.Algebra.GroupWithZero.Nat

/-!
# Support — Quote

How MySQL reads the string literals of a statement, and `printf` with nothing to print.

* `lex` reads a statement into its characters and the values of its literals.
* A statement put together from plain text and values between quotes is a list of `Piece`s.
  `lex_render_iff`: it reads back as it was meant if and only if no value has a quote, and a
  backslash only before `%` or `_`, where MySQL leaves it alone (`plain`).
* `length_of_lex`: nothing shorter reads as much, so a statement that was cut off does not.
* `printf` replaces `%%` by `%`; the text keeps its length only without `%` (`not_mem_of_printf`).
-/

namespace Support

/-- The single quote. -/
def quote : Char := Char.ofNat 39

/-! ### Reading literals -/

inductive Token where
  | char (c : Char)
  | literal (v : Text)
  deriving DecidableEq

/-- What a backslash and the character behind it stand for. -/
def unescape (c : Char) : Text :=
  if c = '0' then [nul]
  else if c = 'b' then [Char.ofNat 8]
  else if c = 'n' then ['\n']
  else if c = 'r' then ['\r']
  else if c = 't' then ['\t']
  else if c = 'Z' then [Char.ofNat 26]
  else if c = '%' ∨ c = '_' then ['\\', c]
  else [c]

/-- The tokens of a text, behind the part `v` of a literal when one is open; `none` if the last
literal does not end. -/
def lex : Option Text → Text → Option (List Token)
  | none, [] => some []
  | some _, [] => none
  | none, c :: s => if c = quote then lex (some []) s else (lex none s).map (.char c :: ·)
  | some v, [c] => if c = quote then some [.literal v] else none
  | some v, c :: d :: s =>
      if c = quote then
        if d = quote then lex (some (v ++ [quote])) s
        else (lex none (d :: s)).map (.literal v :: ·)
      else if c = '\\' then lex (some (v ++ unescape d)) s
      else lex (some (v ++ [c])) (d :: s)

/-- The characters a token takes at least. -/
def Token.size : Token → Nat
  | .char _ => 1
  | .literal v => v.length + 2

def Token.sizes (ts : List Token) : Nat := (ts.map Token.size).sum

theorem length_unescape (c : Char) : (unescape c).length ≤ 2 := by
  unfold unescape
  split_ifs <;> simp

theorem Token.sizes_cons (t : Token) (ts : List Token) :
    Token.sizes (t :: ts) = t.size + Token.sizes ts := by
  rw [Token.sizes, Token.sizes, List.map_cons, List.sum_cons]

/-- Nothing shorter reads as much. -/
theorem length_of_lex : ∀ {v : Option Text} {s : Text} {ts : List Token}, lex v s = some ts →
    Token.sizes ts ≤ s.length + (v.elim 0 fun v => v.length + 1)
  | none, [], ts, h => by
      obtain rfl := Option.some.inj h
      rfl
  | some v, [], ts, h => by cases h
  | none, c :: s, ts, h => by
      rw [lex] at h
      split at h
      · have ih := length_of_lex h
        simpa only [Option.elim_some, Option.elim_none, List.length_cons, List.length_nil,
          Nat.add_zero, Nat.zero_add] using ih
      · obtain ⟨ts, hts, rfl⟩ := Option.map_eq_some_iff.mp h
        have ih := length_of_lex hts
        rw [Token.sizes_cons, Token.size, List.length_cons]
        omega
  | some v, [c], ts, h => by
      rw [lex] at h
      split at h
      · obtain rfl := Option.some.inj h
        simp only [Token.sizes, List.map_cons, List.map_nil, List.sum_cons, List.sum_nil,
          Token.size, List.length_cons, List.length_nil, Option.elim_some]
        omega
      · cases h
  | some v, c :: d :: s, ts, h => by
      rw [lex] at h
      split_ifs at h
      · have ih := length_of_lex h
        simp only [Option.elim_some, List.length_append, List.length_cons, List.length_nil] at ih ⊢
        omega
      · obtain ⟨ts, hts, rfl⟩ := Option.map_eq_some_iff.mp h
        have ih := length_of_lex hts
        rw [Token.sizes_cons, Token.size]
        simp only [Option.elim_some, Option.elim_none, List.length_cons] at ih ⊢
        omega
      · have ih := length_of_lex h
        have hd := length_unescape d
        simp only [Option.elim_some, List.length_append, List.length_cons] at ih ⊢
        omega
      · have ih := length_of_lex h
        simp only [Option.elim_some, List.length_append, List.length_cons, List.length_nil] at ih ⊢
        omega

/-! ### Values between quotes -/

/-- A value MySQL reads back: no quote, and a backslash only before `%` or `_`. -/
def plain : Text → Bool
  | [] => true
  | [c] => c ≠ quote ∧ c ≠ '\\'
  | c :: d :: s =>
      if c = quote then false
      else if c = '\\' then (d == '%' || d == '_') && plain s
      else plain (d :: s)

/-- A value between quotes. -/
def quoted (v : Text) : Text := quote :: (v ++ [quote])

/-- What is meant by a statement. -/
def meant : Piece Text Char → List Token
  | .lit t => t.map .char
  | .hole v => [.literal v]

/-- The text between the values has no quotes, and something stands behind each value. -/
def Spaced : List (Piece Text Char) → Prop
  | [] => True
  | .lit t :: ps => quote ∉ t ∧ Spaced ps
  | .hole _ :: ps => (render quoted ps).head? ≠ some quote ∧ Spaced ps

theorem sizes_chars (t : Text) : Token.sizes (t.map .char) = t.length := by
  induction t with
  | nil => rfl
  | cons c t ih =>
      rw [List.map_cons, Token.sizes_cons, ih, Token.size, List.length_cons, Nat.add_comm]

theorem Token.sizes_append (ts ts' : List Token) :
    Token.sizes (ts ++ ts') = Token.sizes ts + Token.sizes ts' := by
  rw [Token.sizes, List.map_append, List.sum_append]
  rfl

theorem sizes_meant (ps : List (Piece Text Char)) :
    Token.sizes (ps.flatMap meant) = (render quoted ps).length := by
  induction ps with
  | nil => rfl
  | cons p ps ih =>
      rw [List.flatMap_cons, Token.sizes_append, ih, render, render, List.flatMap_cons,
        List.length_append]
      cases p with
      | lit t => rw [meant, sizes_chars, Piece.text]
      | hole v =>
          simp only [meant, Token.sizes, List.map_cons, List.map_nil, List.sum_cons, List.sum_nil,
            Token.size, Piece.text, quoted, List.length_cons, List.length_append, List.length_nil]
          omega

theorem lex_chars {t : Text} (h : quote ∉ t) (s : Text) :
    lex none (t ++ s) = (lex none s).map (t.map .char ++ ·) := by
  induction t with
  | nil => simp
  | cons c t ih =>
      obtain ⟨hc, ht⟩ := not_or.mp (mt List.mem_cons.mpr h)
      rw [List.cons_append, lex, if_neg (Ne.symm hc), ih ht, Option.map_map]
      rfl

section Steps

variable (v s : Text) {c d : Char}

theorem lex_close_end : lex (some v) [quote] = some [.literal v] := by
  rw [lex, if_pos rfl]

theorem lex_close (hd : d ≠ quote) :
    lex (some v) (quote :: d :: s) = (lex none (d :: s)).map (.literal v :: ·) := by
  conv_lhs => rw [lex, if_pos rfl, if_neg hd]

theorem lex_doubled : lex (some v) (quote :: quote :: s) = lex (some (v ++ [quote])) s := by
  rw [lex, if_pos rfl, if_pos rfl]

theorem lex_escape : lex (some v) ('\\' :: d :: s) = lex (some (v ++ unescape d)) s := by
  rw [lex, if_neg (by decide), if_pos rfl]

theorem lex_inside (hq : c ≠ quote) (hb : c ≠ '\\') :
    lex (some v) (c :: d :: s) = lex (some (v ++ [c])) (d :: s) := by
  rw [lex, if_neg hq, if_neg hb]

end Steps

theorem length_unescape_of_ne {c : Char} (h : ¬ (c = '%' ∨ c = '_')) :
    (unescape c).length = 1 := by
  rw [unescape, if_neg h]
  split_ifs <;> rfl

theorem unescape_of_eq {c : Char} (h : c = '%' ∨ c = '_') : unescape c = ['\\', c] := by
  rcases h with rfl | rfl <;> decide

/-- A literal that was shortened leaves too little text. -/
theorem lex_ne_of_short {acc s w : Text} {ts : List Token}
    (hshort : s.length + acc.length < w.length + Token.sizes ts + 1) :
    lex (some acc) s ≠ some (.literal w :: ts) := by
  intro h
  have hle := length_of_lex h
  rw [Token.sizes_cons, Token.size, Option.elim_some] at hle
  omega

/-- A value reads back if and only if it is plain.  The text behind it counts, since a longer
literal would leave too little of it. -/
theorem lex_value_iff {s : Text} {ts : List Token} (hs : s.head? ≠ some quote)
    (hsize : Token.sizes ts = s.length) : ∀ {acc v : Text},
    lex (some acc) (v ++ quote :: s) = some (.literal (acc ++ v) :: ts) ↔
      plain v = true ∧ lex none s = some ts
  | acc, [] => by
      rw [List.append_nil, List.nil_append, plain, eq_self, true_and]
      cases s with
      | nil =>
          rw [lex_close_end]
          simp [lex]
      | cons d s =>
          rw [lex_close _ _ (fun h => hs (congrArg some h))]
          simp
  | acc, [c] => by
      rw [List.cons_append, List.nil_append, plain]
      by_cases hq : c = quote
      · rw [hq, lex_doubled]
        refine iff_of_false (lex_ne_of_short ?_) (by simp)
        simp only [List.length_append, List.length_cons, List.length_nil, hsize]
        omega
      · by_cases hb : c = '\\'
        · rw [hb, lex_escape]
          refine iff_of_false (lex_ne_of_short ?_) (by simp)
          have hone : (unescape quote).length = 1 := by decide
          simp only [List.length_append, List.length_cons, List.length_nil, hsize, hone]
          omega
        · have ih := @lex_value_iff s ts hs hsize (acc ++ [c]) []
          rw [List.append_nil, List.nil_append, plain, eq_self, true_and] at ih
          rw [lex_inside _ _ hq hb, ih]
          simp [hq, hb]
  | acc, c :: d :: v => by
      rw [List.cons_append, List.cons_append, plain]
      by_cases hq : c = quote
      · rw [hq, if_pos rfl]
        refine iff_of_false ?_ (by simp)
        by_cases hd : d = quote
        · rw [hd, lex_doubled]
          refine lex_ne_of_short ?_
          simp only [List.length_append, List.length_cons, List.length_nil, hsize]
          omega
        · rw [lex_close _ _ hd]
          simp
      · rw [if_neg hq]
        by_cases hb : c = '\\'
        · rw [hb, if_pos rfl, lex_escape]
          by_cases hd : d = '%' ∨ d = '_'
          · have ih := @lex_value_iff s ts hs hsize (acc ++ unescape d) v
            rw [unescape_of_eq hd, List.append_assoc, List.cons_append, List.singleton_append] at ih
            have hb : (d == '%' || d == '_') = true := by simpa using hd
            rw [unescape_of_eq hd, ih, hb, Bool.true_and]
          · have hb : (d == '%' || d == '_') = false := by simpa using hd
            rw [hb, Bool.false_and]
            refine iff_of_false (lex_ne_of_short ?_) (by simp)
            have hone := length_unescape_of_ne hd
            simp only [List.length_append, List.length_cons, hsize, hone]
            omega
        · rw [if_neg hb, lex_inside _ _ hq hb]
          have ih := @lex_value_iff s ts hs hsize (acc ++ [c]) (d :: v)
          rwa [List.append_assoc, List.singleton_append, List.cons_append] at ih

/-- A statement reads back as it was meant if and only if its values are plain. -/
theorem lex_render_iff : ∀ {ps : List (Piece Text Char)}, Spaced ps →
    (lex none (render quoted ps) = some (ps.flatMap meant) ↔
      ∀ v, Piece.hole v ∈ ps → plain v = true)
  | [], _ => by simp [render, lex]
  | .lit t :: ps, h => by
      have ih := lex_render_iff h.2
      have hcons : render quoted (.lit t :: ps) = t ++ render quoted ps := rfl
      rw [hcons, lex_chars h.1, List.flatMap_cons, meant]
      simp only [Option.map_eq_some_iff, List.append_cancel_left_eq, exists_eq_right,
        List.mem_cons, reduceCtorEq, false_or]
      exact ih
  | .hole v :: ps, h => by
      have ih := lex_render_iff h.2
      have hcons : render quoted (.hole v :: ps) = quote :: (v ++ quote :: render quoted ps) := by
        rw [render, List.flatMap_cons, Piece.text, quoted, render]
        simp only [List.cons_append, List.append_assoc, List.nil_append]
      have hvalue := @lex_value_iff _ _ h.1 (sizes_meant ps) [] v
      rw [List.nil_append] at hvalue
      rw [hcons, lex, if_pos rfl, List.flatMap_cons, meant, List.singleton_append, hvalue, ih]
      simp only [List.mem_cons, Piece.hole.injEq, forall_eq_or_imp]

/-- A statement that was cut off does not read back as it was meant. -/
theorem lex_take_iff {ps : List (Piece Text Char)} (h : Spaced ps) (n : Nat) :
    lex none ((render quoted ps).take n) = some (ps.flatMap meant) ↔
      (render quoted ps).length ≤ n ∧ ∀ v, Piece.hole v ∈ ps → plain v = true := by
  by_cases hn : (render quoted ps).length ≤ n
  · rw [List.take_of_length_le hn, lex_render_iff h]
    exact (and_iff_right hn).symm
  · refine iff_of_false (fun hlex => ?_) (fun h => hn h.1)
    have hle := length_of_lex hlex
    rw [sizes_meant, List.length_take, Option.elim_none] at hle
    omega

/-! ### Formats -/

/-- `printf` of a format that has nothing to print: `none` at a conversion, which would print
whatever it finds. -/
def printf : Text → Option Text
  | [] => some []
  | [c] => if c = '%' then none else some [c]
  | c :: d :: s =>
      if c = '%' then if d = '%' then (printf s).map ('%' :: ·) else none
      else (printf (d :: s)).map (c :: ·)

theorem length_printf : ∀ {s t : Text}, printf s = some t → t.length ≤ s.length
  | [], t, h => by
      obtain rfl := Option.some.inj h
      rfl
  | [c], t, h => by
      rw [printf] at h
      split at h
      · cases h
      · obtain rfl := Option.some.inj h
        rfl
  | c :: d :: s, t, h => by
      rw [printf] at h
      split_ifs at h
      · obtain ⟨t, ht, rfl⟩ := Option.map_eq_some_iff.mp h
        have ih := length_printf ht
        simp only [List.length_cons]
        omega
      · obtain ⟨t, ht, rfl⟩ := Option.map_eq_some_iff.mp h
        have ih := length_printf ht
        simp only [List.length_cons] at ih ⊢
        omega

/-- A format without `%` is printed as it is. -/
theorem printf_self : ∀ {s : Text}, '%' ∉ s → printf s = some s
  | [], _ => rfl
  | [c], h => by
      rw [printf, if_neg (fun hc => h (by rw [hc]; exact List.mem_cons_self))]
  | c :: d :: s, h => by
      obtain ⟨hc, hs⟩ := not_or.mp (mt List.mem_cons.mpr h)
      rw [printf, if_neg (Ne.symm hc), printf_self hs]
      rfl

/-- With a `%` the text gets shorter. -/
theorem not_mem_of_printf : ∀ {s t : Text}, printf s = some t → s.length ≤ t.length → '%' ∉ s
  | [], _, _, _ => List.not_mem_nil
  | [c], t, h, _ => by
      rw [printf] at h
      split at h
      · cases h
      next hc => exact fun hm => hc (List.mem_singleton.mp hm).symm
  | c :: d :: s, t, h, hle => by
      rw [printf] at h
      split_ifs at h with hc
      · obtain ⟨t, ht, rfl⟩ := Option.map_eq_some_iff.mp h
        have hlen := length_printf ht
        simp only [List.length_cons] at hle
        omega
      · obtain ⟨t, ht, rfl⟩ := Option.map_eq_some_iff.mp h
        have ih := not_mem_of_printf ht (by simpa using hle)
        exact fun hm => (List.mem_cons.mp hm).elim (fun hm => hc hm.symm) ih

end Support
