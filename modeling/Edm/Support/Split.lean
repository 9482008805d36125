import Edm.Support.CString
import Mathlib.Algebra.GroupWithZero.Nat

/-!
# Support — Split

A text and its parts between separators.  A text without the separator is one part; otherwise it
is a first part, the separator, and a rest (`split_induction`).
-/

namespace Support

theorem takeWhile_ne {c : Char} {s : Text} (h : c ∉ s) : s.takeWhile (· != c) = s :=
  takeWhile_all fun d hd => by
    rw [bne_iff_ne]
    rintro rfl
    exact h hd

theorem not_mem_takeWhile (c : Char) (s : Text) : c ∉ s.takeWhile (· != c) := by
  intro h
  have := List.all_eq_true.mp List.all_takeWhile c h
  rw [bne_self_eq_false] at this
  cases this

theorem nul_not_mem_cstr (s : Text) : nul ∉ cstr s := not_mem_takeWhile nul s

/-- A run of `p` ends where something else, or nothing, comes. -/
theorem takeWhile_run {p : Char → Bool} {s t : Text} (hs : ∀ c ∈ s, p c = true)
    (ht : ∀ c ∈ t.head?, p c = false) :
    (s ++ t).takeWhile p = s ∧ (s ++ t).dropWhile p = t := by
  rw [List.takeWhile_append_of_pos hs, List.dropWhile_append_of_pos hs]
  cases t with
  | nil => simp
  | cons c t =>
      have hc : p c = false := ht c rfl
      simp [hc]

theorem takeWhile_append_self (c : Char) (s t : Text) :
    (s ++ c :: t).takeWhile (· != c) = s.takeWhile (· != c) := by
  rw [List.takeWhile_append, List.takeWhile_cons_of_neg (by simp), List.append_nil]
  split
  next h => rw [(List.takeWhile_prefix _).eq_of_length h]
  next => rfl

theorem dropWhile_append_self (c : Char) (s t : Text) :
    (s ++ c :: t).dropWhile (· != c) = s.dropWhile (· != c) ++ c :: t := by
  rw [List.dropWhile_append, List.dropWhile_cons_of_neg (by simp)]
  split
  next h => rw [List.isEmpty_iff.mp h, List.nil_append]
  next => rfl

theorem takeWhile_ne_append {c : Char} {s : Text} (h : c ∉ s) (t : Text) :
    (s ++ c :: t).takeWhile (· != c) = s := by
  rw [takeWhile_append_self, takeWhile_ne h]

theorem dropWhile_ne {c : Char} {s : Text} (h : c ∉ s) : s.dropWhile (· != c) = [] := by
  have := List.takeWhile_append_dropWhile (p := (· != c)) (l := s)
  rwa [takeWhile_ne h, List.append_right_eq_self] at this

theorem dropWhile_ne_append {c : Char} {s : Text} (h : c ∉ s) (t : Text) :
    (s ++ c :: t).dropWhile (· != c) = c :: t := by
  rw [dropWhile_append_self, dropWhile_ne h, List.nil_append]

theorem cstr_self {s : Text} (h : nul ∉ s) : cstr s = s := takeWhile_ne h

theorem cstr_append {s : Text} (h : nul ∉ s) (t : Text) : cstr (s ++ nul :: t) = s :=
  takeWhile_ne_append h t

/-- The first bytes of a line, against a word of their number. -/
theorem strncasecmpEq_append {k key : Text} (hlen : k.length = key.length) (hnul : nul ∉ k)
    (rest : Text) : strncasecmpEq (k ++ rest) key = (tolower k == tolower key) := by
  have hne : ∀ c ∈ k, (c != nul) = true := by
    intro c hc
    rw [bne_iff_ne]
    rintro rfl
    exact hnul hc
  rw [strncasecmpEq, cstr, List.takeWhile_append_of_pos hne, List.take_left' hlen]

theorem cut_append {c : Char} {s : Text} (h : c ∉ s) (t : Text) : cut c (s ++ c :: t) = (s, t) := by
  rw [cut, takeWhile_ne_append h, dropWhile_ne_append h]
  rfl

theorem cut_suffix (c : Char) (s : Text) : (cut c s).2 <:+ s :=
  (List.drop_suffix 1 _).trans (List.dropWhile_suffix _)

theorem mem_of_mem_cut {c d : Char} {s : Text} (h : d ∈ (cut c s).1 ∨ d ∈ (cut c s).2) : d ∈ s := by
  rcases h with h | h
  · exact (List.takeWhile_prefix _).subset h
  · exact (cut_suffix c s).subset h

theorem mem_of_mem_eraseBack {cls s : Text} {c : Char} (h : c ∈ eraseBack cls s) : c ∈ s := by
  rw [eraseBack, List.mem_reverse] at h
  exact List.mem_reverse.mp ((List.dropWhile_suffix _).subset h)

theorem eraseBack_append {cls s tail : Text} (hs : ∀ c ∈ s.getLast?, c ∉ cls)
    (htail : ∀ c ∈ tail, c ∈ cls) : eraseBack cls (s ++ tail) = s := by
  rw [eraseBack, List.reverse_append, (takeWhile_run _ _).2, List.reverse_reverse]
  · exact fun c hc => List.contains_iff_mem.mpr (htail c (List.mem_reverse.mp hc))
  · intro c hc
    rw [List.head?_reverse] at hc
    exact Bool.eq_false_iff.mpr fun hin => hs c hc (List.contains_iff_mem.mp hin)

/-- What `strstr` finds. -/
theorem strstr_eq_some {t u : Text} : ∀ {s : Text}, strstr t s = some u → u <:+ s ∧ t <+: u
  | [], h => by
      rw [strstr] at h
      split at h
      next ht =>
        obtain rfl := Option.some.inj h
        rw [List.isEmpty_iff.mp ht]
        exact ⟨List.suffix_rfl, List.prefix_rfl⟩
      next => cases h
  | c :: s, h => by
      rw [strstr] at h
      split at h
      next ht =>
        obtain rfl := Option.some.inj h
        exact ⟨List.suffix_rfl, List.isPrefixOf_iff_prefix.mp ht⟩
      next =>
        obtain ⟨hu, ht⟩ := strstr_eq_some h
        exact ⟨hu.trans (List.suffix_cons c s), ht⟩

theorem takeLine_line {u : Text} (h : '\n' ∉ u) (rest : Text) : ∀ {n : Nat}, u.length < n →
    takeLine n (u ++ '\n' :: rest) = (u ++ ['\n'], rest) := by
  induction u with
  | nil =>
      intro n hn
      rw [List.nil_append, takeLine, if_neg (by simp at hn; omega), if_pos rfl]
      rfl
  | cons c u ih =>
      intro n hn
      obtain ⟨hc, hu⟩ := not_or.mp (mt List.mem_cons.mpr h)
      rw [List.length_cons] at hn
      rw [List.cons_append, takeLine, if_neg (by omega), if_neg (Ne.symm hc), ih hu (by omega)]
      rfl

/-- A whole line is read. -/
theorem fgets_line {u : Text} (h : '\n' ∉ u) {n : Nat} (hn : u.length + 1 < n) (rest : Text) :
    fgets n (u ++ '\n' :: rest) = some (u ++ ['\n'], rest) := by
  rw [fgets, if_neg (by simp), takeLine_line h rest (by omega)]

/-- A text is one part, or a first part, the separator, and a rest. -/
@[elab_as_elim]
theorem split_induction {motive : Text → Prop} (c : Char) (last : ∀ s, c ∉ s → motive s)
    (more : ∀ s t, c ∉ s → motive t → motive (s ++ c :: t)) (s : Text) : motive s := by
  induction hn : s.length using Nat.strongRecOn generalizing s with
  | ind n ih =>
      by_cases h : c ∈ s
      · obtain ⟨a, b, hs, ha⟩ := List.eq_append_cons_of_mem h
        have hlen : b.length < n := by
          rw [← hn, hs, List.length_append, List.length_cons]
          omega
        rw [hs]
        exact more a b ha (ih _ hlen b rfl)
      · exact last s h

theorem splitOn_more {c : Char} {s : Text} (h : c ∉ s) (t : Text) :
    (s ++ c :: t).splitOn c = s :: t.splitOn c :=
  List.splitOn_append_cons_self_of_not_mem h t

/-- The parts do not have the separator. -/
theorem not_mem_of_mem_splitOn {c : Char} {s t : Text} (h : t ∈ s.splitOn c) : c ∉ t := by
  induction s using split_induction c with
  | last s hs =>
      rw [List.splitOn_eq_singleton hs] at h
      exact List.mem_singleton.mp h ▸ hs
  | more s r hs ih =>
      rw [splitOn_more hs] at h
      rcases List.mem_cons.mp h with rfl | h
      · exact hs
      · exact ih h

/-- The characters of the parts are characters of the text. -/
theorem mem_of_mem_splitOn {c d : Char} {s t : Text} (h : t ∈ s.splitOn c) (hd : d ∈ t) :
    d ∈ s := by
  induction s using split_induction c with
  | last s hs =>
      rw [List.splitOn_eq_singleton hs] at h
      exact List.mem_singleton.mp h ▸ hd
  | more s r hs ih =>
      rw [splitOn_more hs] at h
      rcases List.mem_cons.mp h with rfl | h
      · exact List.mem_append_left _ hd
      · exact List.mem_append_right _ (List.mem_cons_of_mem _ (ih h))

/-- A character that is neither in the parts nor between them. -/
theorem not_mem_intercalate {c d : Char} (hcd : c ≠ d) : ∀ {l : List Text}, (∀ t ∈ l, c ∉ t) →
    c ∉ [d].intercalate l
  | [], _ => by simp
  | [t], h => by simpa using h
  | t :: t' :: l, h => by
      obtain ⟨ht, hl⟩ := List.forall_mem_cons.mp h
      have ih := not_mem_intercalate hcd hl
      rw [List.intercalate_cons_cons]
      simp [ht, hcd, ih]

/-- The parts, each with one separator, are as long as the text with one more. -/
theorem sum_splitOn (c : Char) (s : Text) :
    ((s.splitOn c).map fun t => t.length + 1).sum = s.length + 1 := by
  induction s using split_induction c with
  | last s hs =>
      rw [List.splitOn_eq_singleton hs]
      rfl
  | more s r hs ih =>
      rw [splitOn_more hs, List.map_cons, List.sum_cons, ih, List.length_append, List.length_cons]
      omega

/-! ### Lines -/

/-- The lines that have their end. -/
def completeLines (s : Text) : List Text := (s.splitOn '\n').dropLast

/-- The text ends behind a line. -/
def endsLine (s : Text) : Bool := s.getLast?.all (· == '\n')

theorem completeLines_last {s : Text} (h : '\n' ∉ s) : completeLines s = [] := by
  rw [completeLines, List.splitOn_eq_singleton h]
  rfl

theorem completeLines_more {s : Text} (h : '\n' ∉ s) (t : Text) :
    completeLines (s ++ '\n' :: t) = s :: completeLines t := by
  rw [completeLines, splitOn_more h, List.dropLast_cons_of_ne_nil]
  · rfl
  · exact List.splitOn_ne_nil _ _

/-- What stands behind the last line end. -/
def lastPart (s : Text) : Text := (s.splitOn '\n').getLastD []

theorem lastPart_last {s : Text} (h : '\n' ∉ s) : lastPart s = s := by
  rw [lastPart, List.splitOn_eq_singleton h]
  rfl

theorem lastPart_more {s : Text} (h : '\n' ∉ s) (t : Text) :
    lastPart (s ++ '\n' :: t) = lastPart t := by
  rw [lastPart, splitOn_more h, lastPart]
  cases hparts : t.splitOn '\n' with
  | nil => exact absurd hparts (List.splitOn_ne_nil _ _)
  | cons a parts => rfl

theorem not_mem_lastPart (s : Text) : '\n' ∉ lastPart s := by
  induction s using split_induction '\n' with
  | last s h =>
    rw [lastPart_last h]
    exact h
  | more s t h ih =>
    rw [lastPart_more h]
    exact ih

/-- A buffer that is filled from a sequence of lines has the first of them, and a part of the
next. -/
theorem lines_of_prefix {ls : List Text} : ∀ {buffer pending : Text},
    buffer ++ pending = ls.flatMap (· ++ ['\n']) → (∀ l ∈ ls, '\n' ∉ l) →
      ∃ ls', ls = completeLines buffer ++ ls' ∧ lastPart buffer ++ pending
        = ls'.flatMap (· ++ ['\n']) := by
  induction ls with
  | nil =>
    intro buffer pending h _
    obtain ⟨rfl, rfl⟩ := List.append_eq_nil_iff.mp h
    exact ⟨[], rfl, rfl⟩
  | cons l ls ih =>
    intro buffer pending h hl
    have hfirst : '\n' ∉ l := hl l List.mem_cons_self
    rw [List.flatMap_cons, List.append_assoc, List.singleton_append] at h
    by_cases hb : '\n' ∈ buffer
    · -- The first line is in the buffer whole.
      obtain ⟨a, b, rfl, ha⟩ := List.eq_append_cons_of_mem hb
      rw [List.append_assoc, List.cons_append] at h
      have hcut := congrArg (cut '\n') h
      rw [cut_append ha, cut_append hfirst] at hcut
      obtain ⟨rfl, hrest⟩ := Prod.mk.inj hcut
      obtain ⟨ls', hls, hpart⟩ := ih hrest fun l' hl' => hl l' (List.mem_cons_of_mem _ hl')
      refine ⟨ls', ?_, ?_⟩
      · rw [completeLines_more ha, List.cons_append, ← hls]
      · rw [lastPart_more ha]
        exact hpart
    · refine ⟨l :: ls, ?_, ?_⟩
      · rw [completeLines_last hb]
        rfl
      · rw [lastPart_last hb, List.flatMap_cons, List.append_assoc, List.singleton_append]
        exact h

theorem endsLine_append {s t : Text} (ht : t ≠ []) : endsLine (s ++ t) = endsLine t := by
  rw [endsLine, List.getLast?_append_of_ne_nil _ ht, endsLine]

theorem endsLine_rest {s t : Text} (h : endsLine (s ++ t) = true) (ht : '\n' ∉ t) : t = [] := by
  by_contra hne
  rw [endsLine_append hne, endsLine, List.getLast?_eq_some_getLast hne, Option.all_some,
    beq_iff_eq] at h
  exact ht (h ▸ List.getLast_mem hne)

/-- The loop of `fgetsLines`. -/
def fgetsFrom (n : Nat) : Nat → Text → List Text
  | 0, _ => []
  | fuel + 1, pIn =>
      match fgets n pIn with
      | some (sLine, pIn) => sLine :: fgetsFrom n fuel pIn
      | none => []

/-- What `while (fgets(sLine, n, pIn))` reads: the lines of a file, a line that is too long for the
buffer in pieces. -/
def fgetsLines (n : Nat) (pIn : Text) : List Text := fgetsFrom n pIn.length pIn

theorem fgets_last {u : Text} (hu : u ≠ []) (h : '\n' ∉ u) {n : Nat} (hn : u.length < n) :
    fgets n u = some (u, []) := by
  have hall : ∀ {s : Text} {m : Nat}, '\n' ∉ s → s.length ≤ m → takeLine m s = (s, []) := by
    intro s
    induction s with
    | nil => exact fun _ _ => rfl
    | cons c s ih =>
      intro m hs hm
      obtain ⟨hc, hs⟩ := not_or.mp (mt List.mem_cons.mpr hs)
      rw [List.length_cons] at hm
      rw [takeLine, if_neg (by omega), if_neg (Ne.symm hc), ih hs (by omega)]
  rw [fgets, if_neg (by simpa using hu), hall h (by omega)]

/-- The parts of a text are its lines, and what stands behind the last of them. -/
theorem splitOn_eq_lines (s : Text) : s.splitOn '\n' = completeLines s ++ [lastPart s] := by
  induction s using split_induction '\n' with
  | last u hu => rw [completeLines_last hu, lastPart_last hu, List.splitOn_eq_singleton hu]; rfl
  | more u rest hu ih =>
    rw [completeLines_more hu, lastPart_more hu, splitOn_more hu, ih, List.cons_append]

theorem not_mem_completeLines {s u : Text} (h : u ∈ completeLines s) : '\n' ∉ u :=
  not_mem_of_mem_splitOn (List.dropLast_subset _ h)

/-- What is read of a file whose lines fit the buffer: the lines with their ends, and what stands
behind the last end, if it is not empty. -/
theorem fgetsLines_short {n : Nat} {file : Text}
    (hshort : ∀ u ∈ file.splitOn '\n', u.length + 1 < n) :
    fgetsLines n file =
      (completeLines file).map (· ++ ['\n']) ++
        if lastPart file = [] then [] else [lastPart file] := by
  have hloop : ∀ fuel, file.length ≤ fuel → fgetsFrom n fuel file =
      (completeLines file).map (· ++ ['\n']) ++
        if lastPart file = [] then [] else [lastPart file] := by
    induction file using split_induction '\n' with
    | last u hu =>
      rw [List.splitOn_eq_singleton hu] at hshort
      rw [completeLines_last hu, lastPart_last hu]
      intro fuel hfuel
      have hone := hshort u List.mem_cons_self
      by_cases hempty : u = []
      · cases fuel <;> simp [hempty, fgetsFrom, fgets]
      · have hpos := List.length_pos_iff.mpr hempty
        obtain ⟨fuel, rfl⟩ := Nat.exists_eq_succ_of_ne_zero (n := fuel) (by omega)
        have hget := fgets_last hempty hu (Nat.lt_of_succ_lt hone)
        have hend : fgetsFrom n fuel [] = [] := by cases fuel <;> rfl
        simp only [fgetsFrom, hget, hend, if_neg hempty, List.map_nil, List.nil_append]
    | more u rest hu ih =>
      rw [splitOn_more hu] at hshort
      rw [completeLines_more hu, lastPart_more hu]
      intro fuel hfuel
      rw [List.length_append, List.length_cons] at hfuel
      obtain ⟨fuel, rfl⟩ := Nat.exists_eq_succ_of_ne_zero (n := fuel) (by omega)
      simp only [fgetsFrom, fgets_line hu (hshort u List.mem_cons_self)]
      rw [ih (fun v hv => hshort v (List.mem_cons_of_mem u hv)) fuel (by omega), List.map_cons,
        List.cons_append]
  exact hloop file.length (Nat.le_refl _)

/-- What is read of a file whose lines fit the buffer is what its lines say, where the end of a
line and an empty line say nothing. -/
theorem filterMap_fgetsLines {β : Type*} {f : Text → Option β} {n : Nat} (hnil : f [] = none)
    (hline : ∀ u, '\n' ∉ u → f (u ++ ['\n']) = f u) {file : Text}
    (hshort : ∀ u ∈ file.splitOn '\n', u.length + 1 < n) :
    (fgetsLines n file).filterMap f = (file.splitOn '\n').filterMap f := by
  have hlines : (completeLines file).filterMap (f ∘ (· ++ ['\n']))
      = (completeLines file).filterMap f :=
    List.filterMap_congr fun u hu => hline u (not_mem_completeLines hu)
  rw [fgetsLines_short hshort, splitOn_eq_lines, List.filterMap_append, List.filterMap_append,
    List.filterMap_map, hlines]
  split
  next h => rw [h, List.filterMap_cons_none hnil]
  next => rfl

end Support
