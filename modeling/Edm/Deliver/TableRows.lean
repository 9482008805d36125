import Edm.Deliver.Page
import Edm.Deliver.StrReplace

/-!
# Deliver — TableRows

`table_second_step` repeats the rows of a page.

* `repeated tables row` is what is to stand in the place of a row: as many copies as the longest
  column in it has values, and in each copy the values of its line.
* `CleanRow`: while the columns are replaced, one after another, no placeholder is met but those
  that stand in the row.
* `rowsAt_eq`: the loop makes the copies, and ends behind the last of them.
* `tableSecondStepWith` has fuel for both loops of the source, and its position in the page is an
  `int`; `tableSecondStepWith_eq` says how much fuel is enough while the position is one.
* `tableSecondStep_repeats`: the page, up to its NUL, with its rows repeated.  A value may make the
  placeholder of another column with the text around it, which is then replaced too
  (`row_not_repeated`).
-/

namespace Edm.Deliver
open Support

/-! ### What is to stand in the place of a row -/

/-- The tables that `table_first_step` makes of names without a NUL: their placeholders, with at
least one value each. -/
structure Tables.Columns (tables : Tables) : Prop where
  key : ∀ e ∈ tables.entries, ∃ vars, vars ≠ [] ∧ nul ∉ vars ∧ e.1 = placeholder vars
  values : ∀ e ∈ tables.entries, e.2 ≠ [] ∧ ∀ value ∈ e.2, nul ∉ value

/-- The row, with the placeholders of the columns in it. -/
def rowPieces (tables : Tables) (row : Text) : List (Piece Text Char) :=
  holesOf (tables.entries.map Prod.fst) row

/-- The columns whose placeholder the row contains. -/
def contained (tables : Tables) (row : Text) : List (Text × List Text) :=
  tables.entries.filter fun e => occursIn e.1 row

/-- The largest number of values among these columns. -/
def rowCount (tables : Tables) (row : Text) : Nat :=
  ((contained tables row).map fun e => e.2.length).foldr max 0

/-- A placeholder in the `i`-th copy: the value of its column, or itself. -/
def valueAt (tables : Tables) (i : Nat) (key : Text) : Text :=
  ((tables.find key).bind fun column => column[i]?).getD key

/-- The `i`-th copy of a row. -/
def copyAt (tables : Tables) (row : Text) (i : Nat) : Text :=
  "\r\n".toList ++ render (valueAt tables i) (rowPieces tables row)

/-- A row in its place. -/
def repeated (tables : Tables) (row : Text) : Text :=
  if contained tables row = [] then row
  else (List.range (rowCount tables row)).flatMap (copyAt tables row)

/-- The columns that have a value in the line `i`, with it. -/
def lineAt (tables : Tables) (i : Nat) : List (Text × Text) :=
  tables.entries.filterMap fun e => e.2[i]?.map fun value => (e.1, value)

/-- No placeholder of the row overlaps another, and none is made while the columns are replaced. -/
structure CleanRow (tables : Tables) (row : Text) : Prop where
  apart : ∀ e ∈ tables.entries, Alone id e.1 [] (rowPieces tables row)
  clear : ∀ i < rowCount tables row, AloneAll id (lineAt tables i) (rowPieces tables row)

instance (tables : Tables) (row : Text) : Decidable (CleanRow tables row) :=
  decidable_of_iff ((∀ e ∈ tables.entries, Alone id e.1 [] (rowPieces tables row)) ∧
    ∀ i < rowCount tables row, AloneAll id (lineAt tables i) (rowPieces tables row))
    ⟨fun h => ⟨h.1, h.2⟩, fun h => ⟨h.apart, h.clear⟩⟩

/-! ### Tables -/

/-- `table_first_step` makes such tables. -/
theorem columns_tableFirstStep {vars values : Text} {tables tables₁ : Tables}
    (h : tables.Columns) (hnul : nul ∉ vars)
    (hstep : tableFirstStep vars values tables = some tables₁) : tables₁.Columns := by
  rw [tableFirstStep] at hstep
  split at hstep
  next => cases hstep
  next hvars =>
    obtain rfl := Option.some.inj hstep
    rw [Bool.or_eq_true, not_or, List.isEmpty_iff] at hvars
    have hmem : ∀ e ∈ (tables.set (placeholder vars) ((cstr values).splitOn '|')).entries,
        e = (placeholder vars, (cstr values).splitOn '|') ∨ e ∈ tables.entries := by
      intro e he
      have hfind := StdMap.find_eq_some_iff.mpr he
      rw [StdMap.find_set] at hfind
      split at hfind
      next hk => exact .inl (Prod.ext hk (Option.some.inj hfind).symm)
      next => exact .inr (StdMap.find_eq_some_iff.mp hfind)
    constructor
    · intro e he
      rcases hmem e he with rfl | he
      · exact ⟨vars, hvars.1, hnul, rfl⟩
      · exact h.key e he
    · intro e he
      rcases hmem e he with rfl | he
      · refine ⟨List.splitOn_ne_nil _ _, fun value hvalue hc => ?_⟩
        exact nul_not_mem_cstr _ (mem_of_mem_splitOn hvalue hc)
      · exact h.values e he

theorem columns_empty : Tables.Columns .empty :=
  ⟨fun _ he => absurd he (List.not_mem_nil), fun _ he => absurd he (List.not_mem_nil)⟩

section Row

variable {tables : Tables} (ht : tables.Columns) {row : Text}

include ht

/-- A placeholder begins with a `$`. -/
theorem Tables.Columns.head {e : Text × List Text} (he : e ∈ tables.entries) :
    ∃ t, e.1 = '$' :: t := by
  obtain ⟨vars, -, -, hkey⟩ := ht.key e he
  exact ⟨_, hkey⟩

theorem Tables.Columns.ne_nil {e : Text × List Text} (he : e ∈ tables.entries) : e.1 ≠ [] := by
  obtain ⟨t, hkey⟩ := ht.head he
  simp [hkey]

theorem render_rowPieces : render id (rowPieces tables row) = row := by
  refine render_holesOf (fun hnil => ?_) row
  obtain ⟨e, he, hkey⟩ := List.mem_map.mp hnil
  exact ht.ne_nil he hkey

omit ht

/-- The value of a placeholder in a line. -/
theorem firstValue_lineAt (tables : Tables) (i : Nat) (key : Text) :
    firstValue key (lineAt tables i) = (tables.find key).bind fun column => column[i]? := by
  rw [lineAt, StdMap.find]
  have hsorted := tables.sorted
  generalize tables.entries = l at hsorted ⊢
  induction l with
  | nil => rfl
  | cons e l ih =>
      obtain ⟨hlt, hl⟩ := List.pairwise_cons.mp hsorted
      rw [StdMap.lookup]
      by_cases hk : key = e.1
      · subst hk
        rw [if_pos rfl]
        cases hv : e.2[i]? with
        | some v =>
            rw [List.filterMap_cons_some (by rw [hv]; rfl), firstValue, if_pos rfl]
            exact hv.symm
        | none =>
            -- no other entry has this key
            rw [List.filterMap_cons_none (by rw [hv]; rfl), ih hl]
            cases hfind : StdMap.lookup e.1 l with
            | none => exact hv.symm
            | some v => exact absurd (hlt _ (StdMap.mem_of_lookup hfind)) (lt_irrefl _)
      · rw [if_neg hk, ← ih hl]
        cases hv : e.2[i]? with
        | some v => rw [List.filterMap_cons_some (by rw [hv]; rfl), firstValue, if_neg hk]
        | none => rw [List.filterMap_cons_none (by rw [hv]; rfl)]

/-- The columns of a line, replaced one after another. -/
theorem foldl_dwReplace {ops : List (Text × Text)} (hne : ∀ e ∈ ops, e.1 ≠ [])
    {ps : List (Piece Text Char)} (h : AloneAll id ops ps) (n : Nat) :
    ∃ m, ops.foldl (fun tr e => ((dwReplace tr.1 e.1 e.2).1, tr.2 + (dwReplace tr.1 e.1 e.2).2))
        (render id ps, n) = (render id (fills ops ps), n + m) ∧
      (0 < m ↔ ∃ e ∈ ops, Piece.hole e.1 ∈ ps) := by
  induction ops generalizing ps n with
  | nil => exact ⟨0, rfl, by simp⟩
  | cons e ops ih =>
      obtain ⟨he, hops⟩ := List.forall_mem_cons.mp hne
      have hrender := replaceAll_render (v := e.2) (x := []) (show id e.1 ≠ [] from he) h.1
      rw [List.nil_append, List.nil_append] at hrender
      have hdw : dwReplace (render id ps) e.1 e.2
          = (render id (fill e.1 e.2 ps), ps.count (.hole e.1)) := by
        rw [dwReplace_eq he]
        exact Prod.ext hrender.1 hrender.2
      obtain ⟨m, hm, hpos⟩ := ih hops h.2 (n + ps.count (.hole e.1))
      refine ⟨ps.count (.hole e.1) + m, ?_, ?_⟩
      · rw [List.foldl_cons, hdw, ← Nat.add_assoc]
        exact hm
      · by_cases hole : Piece.hole e.1 ∈ ps
        · have := List.count_pos_iff.mpr hole
          exact iff_of_true (by omega) ⟨e, List.mem_cons_self, hole⟩
        · rw [List.count_eq_zero.mpr hole, Nat.zero_add, hpos, fill_of_not_mem hole]
          simp [hole]

theorem rowAt_foldl (tables : Tables) (row : Text) (pos : Nat) :
    rowAt tables row pos = (lineAt tables pos).foldl
      (fun tr e => ((dwReplace tr.1 e.1 e.2).1, tr.2 + (dwReplace tr.1 e.1 e.2).2))
      ("\r\n".toList ++ row, 0) := by
  rw [rowAt, lineAt, List.foldl_filterMap]
  congr 1
  funext tr e
  cases e.2[pos]? <;> rfl

end Row

/-! ### The rows -/

theorem mem_contained {tables : Tables} {row : Text} {e : Text × List Text} :
    e ∈ contained tables row ↔ e ∈ tables.entries ∧ e.1 <:+: row := by
  rw [contained, List.mem_filter, occursIn_iff]

theorem length_le_foldr_max {l : List (Text × List Text)} {e : Text × List Text} (he : e ∈ l) :
    e.2.length ≤ (l.map fun e => e.2.length).foldr max 0 := by
  induction l with
  | nil => cases he
  | cons a l ih =>
      rw [List.map_cons, List.foldr_cons]
      rcases List.mem_cons.mp he with rfl | he
      · exact Nat.le_max_left _ _
      · exact (ih he).trans (Nat.le_max_right _ _)

theorem exists_lt_of_lt_foldr_max {l : List (Text × List Text)} {i : Nat}
    (h : i < (l.map fun e => e.2.length).foldr max 0) : ∃ e ∈ l, i < e.2.length := by
  induction l with
  | nil => cases h
  | cons a l ih =>
      rw [List.map_cons, List.foldr_cons] at h
      by_cases ha : i < a.2.length
      · exact ⟨a, List.mem_cons_self, ha⟩
      · obtain ⟨e, he, hlt⟩ := ih (by omega)
        exact ⟨e, List.mem_cons_of_mem a he, hlt⟩

theorem rowCount_le_height (tables : Tables) (row : Text) :
    rowCount tables row ≤ tables.height := by
  by_contra hlt
  obtain ⟨e, he, hlen⟩ := exists_lt_of_lt_foldr_max (Nat.lt_of_not_le hlt)
  have := length_le_foldr_max (mem_contained.mp he).1
  exact absurd hlen (Nat.not_lt.mpr this)

theorem mem_lineAt {tables : Tables} {i : Nat} {a : Text × Text} :
    a ∈ lineAt tables i ↔ ∃ e ∈ tables.entries, a.1 = e.1 ∧ e.2[i]? = some a.2 := by
  rw [lineAt, List.mem_filterMap]
  constructor
  · rintro ⟨e, he, h⟩
    obtain ⟨v, hv, rfl⟩ := Option.map_eq_some_iff.mp h
    exact ⟨e, he, rfl, hv⟩
  · rintro ⟨e, he, hkey, hv⟩
    exact ⟨e, he, by rw [hv, Option.map_some, ← hkey]⟩

/-- Behind the longest column nothing is replaced. -/
theorem rowAt_of_height_le {tables : Tables} {row : Text} {pos : Nat} (h : tables.height ≤ pos) :
    (rowAt tables row pos).2 = 0 := by
  have hnil : lineAt tables pos = [] := by
    refine List.eq_nil_iff_forall_not_mem.mpr fun a ha => ?_
    obtain ⟨e, he, -, hv⟩ := mem_lineAt.mp ha
    have hlt := (List.getElem?_eq_some_iff.mp hv).1
    have := length_le_foldr_max he
    exact absurd hlt (Nat.not_lt.mpr (this.trans h))
  rw [rowAt_foldl, hnil]
  rfl

/-- The loop over the lines ends with the longest column. -/
theorem rowsAt_fuel (tables : Tables) (row : Text) : ∀ {fuel fuel₁ pos : Nat},
    tables.height < fuel + pos → tables.height < fuel₁ + pos →
      rowsAt tables row fuel pos = rowsAt tables row fuel₁ pos
  | 0, 0, _, _, _ => rfl
  | 0, fuel₁ + 1, pos, h, _ => by
      rw [rowsAt, rowsAt, if_pos (by rw [rowAt_of_height_le (by omega)]; decide)]
  | fuel + 1, 0, pos, _, h => by
      rw [rowsAt, rowsAt, if_pos (by rw [rowAt_of_height_le (by omega)]; decide)]
  | fuel + 1, fuel₁ + 1, pos, h, h₁ => by
      have hrest : rowsAt tables row fuel (pos + 1) = rowsAt tables row fuel₁ (pos + 1) :=
        rowsAt_fuel tables row (by omega) (by omega)
      rw [rowsAt, rowsAt, hrest]

section Clean

variable {tables : Tables} (ht : tables.Columns) {row : Text} (hrow : CleanRow tables row)

include ht hrow

/-- The holes of a row are the placeholders in it. -/
theorem hole_mem_rowPieces_iff {e : Text × List Text} (he : e ∈ tables.entries) :
    Piece.hole e.1 ∈ rowPieces tables row ↔ e.1 <:+: row := by
  constructor
  · intro h
    have hin := mark_infix_of_mem id h
    rwa [render_rowPieces ht] at hin
  · intro h
    by_contra hnot
    have hout := (hrow.apart e he).absent hnot
    rw [List.nil_append, render_rowPieces ht] at hout
    exact hout h

/-- A line of the row, and whether something is replaced in it. -/
theorem rowAt_eq {pos : Nat} (hpos : pos ≤ rowCount tables row) :
    (rowAt tables row pos).1 = copyAt tables row pos ∧
      (0 < (rowAt tables row pos).2 ↔ pos < rowCount tables row) := by
  have hkey : ∀ a ∈ lineAt tables pos, ∃ e ∈ tables.entries, a.1 = e.1 ∧ e.2[pos]? = some a.2 :=
    fun a ha => mem_lineAt.mp ha
  have hholes : (∃ a ∈ lineAt tables pos, Piece.hole a.1 ∈ rowPieces tables row) ↔
      pos < rowCount tables row := by
    constructor
    · rintro ⟨a, ha, hole⟩
      obtain ⟨e, he, hae, hv⟩ := hkey a ha
      have hlt := (List.getElem?_eq_some_iff.mp hv).1
      rw [hae] at hole
      have hin := (hole_mem_rowPieces_iff ht hrow he).mp hole
      exact hlt.trans_le (length_le_foldr_max (mem_contained.mpr ⟨he, hin⟩))
    · intro hlt
      obtain ⟨e, he, hlen⟩ := exists_lt_of_lt_foldr_max hlt
      obtain ⟨he, hin⟩ := mem_contained.mp he
      exact ⟨(e.1, e.2[pos]), mem_lineAt.mpr ⟨e, he, rfl, List.getElem?_eq_getElem hlen⟩,
        (hole_mem_rowPieces_iff ht hrow he).mpr hin⟩
  -- behind the last line there is nothing to replace
  have hclear : AloneAll id (lineAt tables pos) (rowPieces tables row) := by
    rcases Nat.lt_or_ge pos (rowCount tables row) with hlt | hge
    · exact hrow.clear pos hlt
    · refine aloneAll_of_not_mem fun a ha => ?_
      obtain ⟨e, he, hae, -⟩ := hkey a ha
      exact ⟨hae ▸ hrow.apart e he, fun hole => absurd (hholes.mp ⟨a, ha, hole⟩) (by omega)⟩
  have hcrlf : AloneAll id (lineAt tables pos) (.lit "\r\n".toList :: rowPieces tables row) := by
    refine hclear.lit fun a ha => ?_
    obtain ⟨e, he, hae, -⟩ := hkey a ha
    obtain ⟨t, hkeyt⟩ := ht.head he
    exact ⟨'$', t, hae.trans hkeyt, by decide⟩
  have hne : ∀ a ∈ lineAt tables pos, a.1 ≠ [] := by
    intro a ha
    obtain ⟨e, he, hae, -⟩ := hkey a ha
    exact hae ▸ ht.ne_nil he
  obtain ⟨m, hm, hcount⟩ := foldl_dwReplace hne hcrlf 0
  have hrender : render id (.lit "\r\n".toList :: rowPieces tables row) = "\r\n".toList ++ row :=
    congrArg ("\r\n".toList ++ ·) (render_rowPieces ht)
  rw [hrender] at hm
  rw [rowAt_foldl, hm, Nat.zero_add, hcount, ← hholes]
  refine ⟨?_, ?_⟩
  · rw [render_fills_getD, copyAt]
    simp only [firstValue_lineAt]
    rfl
  · simp

/-- The loop makes the copies, from one line to the last. -/
theorem rowsAt_eq {n : Nat} : ∀ {fuel pos : Nat}, pos + n = rowCount tables row → n < fuel →
    rowsAt tables row fuel pos = (List.range' pos n).flatMap (copyAt tables row) := by
  induction n with
  | zero =>
      intro fuel pos hpos hfuel
      obtain ⟨fuel, rfl⟩ := Nat.exists_eq_succ_of_ne_zero (n := fuel) (by omega)
      have hend : pos ≤ rowCount tables row := by omega
      have hcount := (rowAt_eq ht hrow hend).2
      rw [rowsAt, if_pos (by omega)]
      rfl
  | succ n ih =>
      intro fuel pos hpos hfuel
      obtain ⟨fuel, rfl⟩ := Nat.exists_eq_succ_of_ne_zero (n := fuel) (by omega)
      have hle : pos ≤ rowCount tables row := by omega
      obtain ⟨hcopy, hcount⟩ := rowAt_eq ht hrow hle
      rw [rowsAt, if_neg (by omega), hcopy, ih (by omega) (by omega), List.range'_succ,
        List.flatMap_cons]

/-- A row is repeated. -/
theorem repeatRow_eq : repeatRow tables row = repeated tables row := by
  have hrows : rowsAt tables row (tables.height + 1) 0
      = (List.range (rowCount tables row)).flatMap (copyAt tables row) := by
    have := rowCount_le_height tables row
    rw [rowsAt_eq ht hrow (Nat.zero_add _) (by omega), List.range_eq_range']
  rw [repeatRow, repeated, hrows]
  by_cases hnone : contained tables row = []
  · have hzero : rowCount tables row = 0 := by rw [rowCount, hnone]; rfl
    rw [if_pos hnone, hzero]
    rfl
  · -- the columns are not empty
    obtain ⟨e, l, hl⟩ := List.exists_cons_of_ne_nil hnone
    have he : e ∈ contained tables row := hl ▸ List.mem_cons_self
    have hlen := List.length_pos_iff.mpr (ht.values e (mem_contained.mp he).1).1
    obtain ⟨n, hn⟩ : ∃ n, rowCount tables row = n + 1 :=
      Nat.exists_eq_succ_of_ne_zero (Nat.ne_of_gt (hlen.trans_le (length_le_foldr_max he)))
    rw [if_neg hnone, hn, List.range_succ_eq_map, List.flatMap_cons, copyAt, if_neg (by simp)]

end Clean

/-! ### The loops -/

/-- `for (int pos=0; ; pos++)`: the rows from `pos` on; `none` if it does not end with this fuel. -/
def rowsLoop (tables : Tables) (row : Text) : Nat → Nat → Option Text
  | 0, _ => none
  | fuel + 1, pos =>
      if (rowAt tables row pos).2 < 1 then some []
      else (rowsLoop tables row fuel (pos + 1)).map ((rowAt tables row pos).1 ++ ·)

/-- `while (offset < html.length())`: `offset` is an `int`, and a negative one is more than any
length. -/
def secondStepLoop (tables : Tables) : Nat → Text → Int → Option Text
  | 0, _, _ => none
  | fuel + 1, html, offset =>
      if offset < 0 ∨ html.length ≤ offset then some html
      else
        let haystack := cstr (html.drop offset.toNat)
        match strcasestr "<tr ".toList haystack with
        | none => some html
        | some b =>
            let begin := offset.toNat + (haystack.length - b.length)
            match rowTag (b.drop 4) with
            | none => some html
            | some (false, n) => secondStepLoop tables fuel html (int32 (begin + (4 + n) : Nat))
            | some (true, n) =>
                (rowsLoop tables (b.take (4 + n)) fuel 0).bind fun trs =>
                  if trs.isEmpty then
                    secondStepLoop tables fuel html (int32 (begin + (4 + n) : Nat))
                  else
                    secondStepLoop tables fuel
                      (html.take begin ++ (trs ++ html.drop (begin + (4 + n))))
                      (int32 (begin + trs.length : Nat))

/-- `table_second_step`, with fuel for its loops. -/
def tableSecondStepWith (fuel : Nat) (html : Text) (tables : Tables) : Option Text :=
  if html.isEmpty || tables.entries.isEmpty then some html
  else secondStepLoop tables fuel html 0

theorem rowsLoop_eq (tables : Tables) (row : Text) : ∀ {fuel pos : Nat},
    tables.height - pos < fuel → rowsLoop tables row fuel pos = some (rowsAt tables row fuel pos)
  | 0, _, h => absurd h (Nat.not_lt_zero _)
  | fuel + 1, pos, h => by
      rw [rowsLoop, rowsAt]
      by_cases hpos : tables.height ≤ pos
      · rw [rowAt_of_height_le hpos]
        rfl
      · have hrest : rowsLoop tables row fuel (pos + 1) = some (rowsAt tables row fuel (pos + 1)) :=
          rowsLoop_eq tables row (by omega)
        rw [hrest]
        split <;> rfl

theorem rowsLoop_zero {tables : Tables} {fuel : Nat} (h : tables.height < fuel) (row : Text) :
    rowsLoop tables row fuel 0 = some (rowsAt tables row (tables.height + 1) 0) :=
  (rowsLoop_eq tables row h).trans
    (congrArg some (rowsAt_fuel tables row h (Nat.lt_succ_self _)))

/-- What is made of the text in front of the next row and what follows it. -/
def madeFrom (tables : Tables) (k : Nat) (before s : Text) : Text :=
  (rowsFrom k before s).flatMap fun p => if p.1 then repeatRow tables p.2 else p.2

/-- The text in front of the next row stays. -/
theorem prefix_madeFrom (tables : Tables) : ∀ (k : Nat) (before s : Text),
    before <+: madeFrom tables k before s
  | 0, before, s => by simp [madeFrom, rowsFrom]
  | k + 1, before, s => by
      rw [madeFrom, rowsFrom]
      cases strcasestr "<tr ".toList s with
      | none => simp
      | some b =>
          dsimp only
          cases rowTag (b.drop 4) with
          | none => simp
          | some r =>
              obtain ⟨isRow, n⟩ := r
              cases isRow with
              | false => exact (List.prefix_append _ _).trans (prefix_madeFrom tables k _ _)
              | true => simp [List.append_assoc]

theorem rowTag_le {s : Text} {r : Bool × Nat} (h : rowTag s = some r) : r.2 ≤ s.length := by
  rw [rowTag] at h
  dsimp only at h
  split at h
  · exact Option.some.inj h ▸ Nat.sub_le _ _
  · split at h
    · exact Option.some.inj h ▸ Nat.sub_le _ _
    · split at h
      · exact Option.some.inj h ▸ Nat.sub_le _ _
      · obtain ⟨b, -, h⟩ := Option.bind_eq_some_iff.mp h
        obtain ⟨endtr, -, rfl⟩ := Option.map_eq_some_iff.mp h
        exact Nat.sub_le _ _

theorem int32_length {n : Nat} (h : n < 2 ^ 31) : int32 n = n :=
  int32_of_range (by omega) (by omega)

section Next

variable {tables : Tables} {a b before : Text} {n : Nat}

theorem madeFrom_last (hb : strcasestr "<tr ".toList a = none) (k : Nat) :
    madeFrom tables k before a = before ++ a := by
  cases k with
  | zero => simp [madeFrom, rowsFrom]
  | succ k => rw [madeFrom, rowsFrom, hb]; simp

theorem madeFrom_open (hb : strcasestr "<tr ".toList (a ++ b) = some b)
    (htag : rowTag (b.drop 4) = none) (k : Nat) :
    madeFrom tables k before (a ++ b) = before ++ (a ++ b) := by
  cases k with
  | zero => simp [madeFrom, rowsFrom]
  | succ k =>
      rw [madeFrom, rowsFrom, hb]
      dsimp only
      rw [htag]
      simp

theorem madeFrom_tag (hb : strcasestr "<tr ".toList (a ++ b) = some b)
    (htag : rowTag (b.drop 4) = some (false, n)) (k : Nat) :
    madeFrom tables (k + 1) before (a ++ b) =
      madeFrom tables k (before ++ (a ++ b.take (4 + n))) (b.drop (4 + n)) := by
  rw [madeFrom, rowsFrom, hb]
  dsimp only
  rw [htag]
  dsimp only
  rw [List.length_append, Nat.add_sub_cancel, List.take_length_add_append]
  rfl

theorem madeFrom_row (hb : strcasestr "<tr ".toList (a ++ b) = some b)
    (htag : rowTag (b.drop 4) = some (true, n)) (k : Nat) :
    madeFrom tables (k + 1) before (a ++ b) =
      before ++ (a ++ (repeatRow tables (b.take (4 + n)) ++
        madeFrom tables k [] (b.drop (4 + n)))) := by
  rw [madeFrom, rowsFrom, hb]
  dsimp only
  rw [htag]
  dsimp only
  rw [List.length_append, Nat.add_sub_cancel, List.take_left, List.flatMap_cons, List.flatMap_cons]
  exact List.append_assoc before a _

end Next

theorem cstr_append_of_ended {s rest : Text} (hs : nul ∉ s) (hrest : cstr rest = []) :
    cstr (s ++ rest) = s := by
  have hall : ∀ c ∈ s, (c != nul) = true := fun c hc => by
    rw [bne_iff_ne]
    rintro rfl
    exact hs hc
  rw [cstr, List.takeWhile_append_of_pos hall]
  exact (congrArg (s ++ ·) hrest).trans (List.append_nil s)

/-- A turn of the loop: the tag stays, or the row is repeated, and the loop goes on behind it. -/
theorem secondStepLoop_turn {tables : Tables} {fuel n : Nat} {isRow : Bool}
    {pre a row b rest : Text} (hheight : tables.height < fuel) (hs : nul ∉ a ++ (row ++ b))
    (hrest : cstr rest = []) (hb : strcasestr "<tr ".toList (a ++ (row ++ b)) = some (row ++ b))
    (htag : rowTag ((row ++ b).drop 4) = some (isRow, n)) (hrow : row.length = 4 + n) :
    secondStepLoop tables (fuel + 1) (pre ++ (a ++ (row ++ b) ++ rest)) pre.length =
      let trs := if isRow then repeatRow tables row else row
      secondStepLoop tables fuel (pre ++ (a ++ (trs ++ (b ++ rest))))
        (int32 ((pre ++ a).length + trs.length : Nat)) := by
  have hinside : ¬ ((pre.length : Int) < 0 ∨
      ((pre ++ (a ++ (row ++ b) ++ rest)).length : Int) ≤ pre.length) := by
    simp only [List.length_append, hrow]
    omega
  have hbegin : pre.length + ((a ++ (row ++ b)).length - (row ++ b).length)
      = (pre ++ a).length := by
    simp only [List.length_append]
    omega
  have htake₁ : (row ++ b).take (4 + n) = row := hrow ▸ List.take_left
  have hsame : pre ++ (a ++ (row ++ b) ++ rest) = pre ++ (a ++ (row ++ (b ++ rest))) := by
    simp only [List.append_assoc]
  rw [secondStepLoop, if_neg hinside]
  simp only [Int.toNat_natCast, List.drop_left, cstr_append_of_ended hs hrest, hb, htag, hbegin]
  cases isRow with
  | false => rw [if_neg Bool.false_ne_true, hsame, hrow]
  | true =>
      dsimp only
      rw [if_pos rfl, htake₁, rowsLoop_zero hheight, Option.bind_some, repeatRow]
      split
      -- A row without a placeholder of a column stays, too.
      next => rw [hsame, hrow]
      next =>
        have htake : (pre ++ (a ++ (row ++ b) ++ rest)).take (pre ++ a).length = pre ++ a := by
          simpa only [List.append_assoc] using
            @List.take_left _ (pre ++ a) (row ++ (b ++ rest))
        have hdrop : (pre ++ (a ++ (row ++ b) ++ rest)).drop ((pre ++ a).length + (4 + n))
            = b ++ rest := by
          rw [← hrow, ← List.length_append, hsame]
          simpa only [List.append_assoc] using
            @List.drop_left _ (pre ++ (a ++ row)) (b ++ rest)
        rw [htake, hdrop, List.append_assoc]

/-- The loop makes of the text behind `before` what the rows make of it. -/
theorem secondStepLoop_eq {tables : Tables} {fuel : Nat} :
    ∀ {k : Nat} {done before s rest : Text}, tables.height + s.length < fuel → s.length ≤ k →
      nul ∉ s → cstr rest = [] → (done ++ madeFrom tables k before s).length < 2 ^ 31 →
      secondStepLoop tables fuel (done ++ (before ++ (s ++ rest))) (done ++ before).length =
        some (done ++ (madeFrom tables k before s ++ rest)) := by
  induction fuel with
  | zero => exact fun h => absurd h (Nat.not_lt_zero _)
  | succ fuel ih =>
      intro k done before s rest hfuel hk hs hrest hlen
      have hdrop : (done ++ (before ++ (s ++ rest))).drop (done ++ before).length = s ++ rest := by
        rw [← List.append_assoc, List.drop_left]
      cases hb : strcasestr "<tr ".toList s with
      | none =>
          rw [secondStepLoop, madeFrom_last hb]
          simp only [Int.toNat_natCast, hdrop, cstr_append_of_ended hs hrest, hb]
          simp
      | some b =>
          obtain ⟨a, rfl, ⟨o, r, hor, ho⟩, -⟩ := exists_of_strcasestr (by decide) (by decide) hb
          have hfour : 4 ≤ b.length := by
            rw [hor, List.length_append, length_tr (ho.trans (by decide))]
            exact Nat.le_add_right 4 _
          rw [List.length_append] at hfuel hk
          obtain ⟨k, rfl⟩ : ∃ k₁, k = k₁ + 1 := Nat.exists_eq_succ_of_ne_zero (by omega)
          cases htag : rowTag (b.drop 4) with
          | none =>
              rw [secondStepLoop, madeFrom_open hb htag]
              simp only [Int.toNat_natCast, hdrop, cstr_append_of_ended hs hrest, hb, htag]
              simp
          | some tag =>
              obtain ⟨isRow, n⟩ := tag
              have hn : 4 + n ≤ b.length := by
                have := rowTag_le htag
                rw [List.length_drop] at this
                omega
              obtain ⟨row, b, rfl, hrow⟩ : ∃ row b', b = row ++ b' ∧ row.length = 4 + n :=
                ⟨b.take (4 + n), b.drop (4 + n), (List.take_append_drop _ _).symm,
                  List.length_take_of_le hn⟩
              rw [List.length_append] at hfuel hk
              have hdrop₁ : (row ++ b).drop (4 + n) = b := hrow ▸ List.drop_left
              have htake₁ : (row ++ b).take (4 + n) = row := hrow ▸ List.take_left
              have hs₁ : nul ∉ b := fun hc =>
                hs (List.mem_append_right a (List.mem_append_right row hc))
              rw [← List.append_assoc done, secondStepLoop_turn (by omega) hs hrest hb htag hrow]
              cases isRow with
              | false =>
                  -- The tag joins what stands in front of the next row.
                  rw [madeFrom_tag hb htag, hdrop₁, htake₁] at hlen ⊢
                  have hpos : (done ++ before ++ a).length + row.length =
                      (done ++ (before ++ (a ++ row))).length := by
                    simp only [List.length_append, Nat.add_assoc]
                  have hlt : (done ++ (before ++ (a ++ row))).length < 2 ^ 31 := by
                    have hle := (prefix_madeFrom tables k (before ++ (a ++ row)) b).length_le
                    rw [List.length_append] at hlen ⊢
                    omega
                  have hstep := @ih _ done (before ++ (a ++ row)) _ _ (by omega) (by omega) hs₁
                    hrest hlen
                  rw [if_neg Bool.false_ne_true]
                  dsimp only
                  rw [hpos, int32_length hlt]
                  simpa only [List.append_assoc] using hstep
              | true =>
                  -- The row is done with all in front of it.
                  rw [madeFrom_row hb htag, hdrop₁, htake₁] at hlen ⊢
                  have hpos : (done ++ before ++ a).length + (repeatRow tables row).length =
                      (done ++ (before ++ (a ++ repeatRow tables row)) ++ []).length := by
                    simp only [List.length_append, List.length_nil, Nat.add_assoc, Nat.add_zero]
                  have hlt : (done ++ (before ++ (a ++ repeatRow tables row)) ++ []).length
                      < 2 ^ 31 := by
                    simp only [List.length_append, List.length_nil] at hlen ⊢
                    omega
                  have hstep := @ih k (done ++ (before ++ (a ++ repeatRow tables row))) [] _ _
                    (by omega) (by omega) hs₁ hrest
                    (by simpa only [List.append_assoc] using hlen)
                  rw [if_pos rfl]
                  dsimp only
                  rw [hpos, int32_length hlt]
                  simpa only [List.append_assoc, List.nil_append] using hstep

theorem cstr_drop_cstr (s : Text) : cstr (s.drop (cstr s).length) = [] := by
  induction s with
  | nil => rfl
  | cons c s ih =>
      by_cases hc : c = nul
      · simp [cstr, hc]
      · simpa [cstr, hc] using ih

/-- The loops end, and make of the C string what they make of a page. -/
theorem tableSecondStepWith_eq {fuel : Nat} {html : Text} {tables : Tables}
    (h : tables.height + html.length < fuel)
    (hlen : (tableSecondStep (cstr html) tables).length < 2 ^ 31) :
    tableSecondStepWith fuel html tables =
      some (tableSecondStep (cstr html) tables ++ html.drop (cstr html).length) := by
  have hhtml : cstr html ++ html.drop (cstr html).length = html :=
    List.prefix_iff_eq_append.mp (List.takeWhile_prefix _)
  have hle : (cstr html).length ≤ html.length := (List.takeWhile_prefix _).length_le
  rw [tableSecondStepWith]
  cases htables : tables.entries.isEmpty with
  | true => rw [tableSecondStep, htables, Bool.or_true, Bool.or_true, if_pos rfl, if_pos rfl, hhtml]
  | false =>
      rw [tableSecondStep_of_columns htables] at hlen ⊢
      have hloop : secondStepLoop tables fuel
          ([] ++ ([] ++ (cstr html ++ html.drop (cstr html).length)))
          (([] ++ [] : Text).length : Nat) = _ :=
        secondStepLoop_eq (by omega) le_rfl (nul_not_mem_cstr html) (cstr_drop_cstr html) hlen
      rw [List.nil_append, List.nil_append, hhtml] at hloop
      split
      next hempty =>
        rw [Bool.or_false, List.isEmpty_iff] at hempty
        subst hempty
        rfl
      next => exact hloop

/-! ### The rows of a page -/

/-- The page, with a text in the place of each row. -/
def withRows (f : Text → Text) (l : List (Bool × Text)) : Text :=
  l.flatMap fun p => if p.1 then f p.2 else p.2

theorem withRows_id (l : List (Bool × Text)) :
    withRows (fun row => row) l = l.flatMap Prod.snd := by
  refine List.flatMap_congr fun p _ => ?_
  cases p.1 <;> rfl

theorem repeatRow_of_isEmpty {tables : Tables} (h : tables.entries.isEmpty = true) (row : Text) :
    repeatRow tables row = row := by
  have hnone : rowsAt tables row (tables.height + 1) 0 = [] := by
    rw [rowsAt, rowAt, List.isEmpty_iff.mp h]
    rfl
  rw [repeatRow, hnone, if_pos (by rfl)]

/-- What is made of a page, whether or not its rows are clean. -/
theorem tableSecondStep_page {html : Text} {l : List (Bool × Text)} (h : Page html l)
    (tables : Tables) : tableSecondStep html tables = withRows (repeatRow tables) l := by
  cases htables : tables.entries.isEmpty with
  | true =>
      have hid : repeatRow tables = fun row => row := funext (repeatRow_of_isEmpty htables)
      rw [tableSecondStep, htables, Bool.or_true, if_pos rfl, hid, withRows_id, h.text]
  | false =>
      rw [tableSecondStep_of_columns htables, rows, ← flatMap_tokens, h.tokens _ le_rfl,
        flatMap_tokens]
      rfl

/-- The loops end, and the rows of the page are repeated, while it stays so short that an `int` is a
position in it. -/
theorem tableSecondStep_repeats (html : Text) {tables : Tables} (ht : tables.Columns) :
    (∃ l, Page (cstr html) l) ∧
    ∀ l, Page (cstr html) l → l.flatMap Prod.snd = cstr html ∧
      ∀ fuel, tables.height + html.length < fuel →
        (withRows (repeatRow tables) l).length < 2 ^ 31 →
        tableSecondStepWith fuel html tables =
            some (withRows (repeatRow tables) l ++ html.drop (cstr html).length) ∧
          ((∀ row, (true, row) ∈ l → CleanRow tables row) →
            withRows (repeatRow tables) l = withRows (repeated tables) l) := by
  refine ⟨exists_page _, fun l hl => ⟨hl.text, fun fuel hfuel hlen => ?_⟩⟩
  have hpage := tableSecondStep_page hl tables
  rw [tableSecondStepWith_eq hfuel (hpage ▸ hlen), hpage]
  refine ⟨rfl, fun hclean => List.flatMap_congr fun p hp => ?_⟩
  obtain ⟨isRow, row⟩ := p
  cases isRow with
  | false => rfl
  | true => exact repeatRow_eq ht (hclean row hp)

/-- The rows of a page, and the page with its rows repeated, as they are computed. -/
theorem mem_page_iff {html row : Text} {l : List (Bool × Text)} (h : Page html l) :
    (true, row) ∈ l ↔ .inr row ∈ tokens (rows html) := by
  rw [rows, h.tokens _ le_rfl, mem_tokens]

theorem withRows_page {html : Text} {l : List (Bool × Text)} (h : Page html l) (f : Text → Text) :
    withRows f l = (tokens (rows html)).flatMap fun t => t.elim (fun c => [c]) f := by
  rw [rows, h.tokens _ le_rfl, flatMap_tokens]
  rfl

/-- Two columns, and a page with a row for both and another tag. -/
def peopleTables : Tables :=
  (StdMap.empty.set (placeholder "n".toList) ["Bo".toList, "Al".toList, "Cy".toList]).set
    (placeholder "m".toList) ["x".toList, "y".toList]

def peopleRow : Text := "<TR class='__many__'>$n$:$m$</tr>".toList

def peoplePage : Text := "<tr >".toList ++ (peopleRow ++ "|$n$".toList)

theorem columns_peopleTables : peopleTables.Columns := by
  have hn : tableFirstStep "n".toList "Bo|Al|Cy".toList .empty = some _ := rfl
  have hm : tableFirstStep "m".toList "x|y".toList _ = some peopleTables := rfl
  exact columns_tableFirstStep (columns_tableFirstStep columns_empty (by decide) hn) (by decide) hm

theorem people_repeated : tableSecondStepWith 60 peoplePage peopleTables = some
    ("<tr >\r\n<TR class='__many__'>Bo:x</tr>\r\n<TR class='__many__'>Al:y</tr>".toList
      ++ "\r\n<TR class='__many__'>Cy:$m$</tr>|$n$".toList) := by
  obtain ⟨⟨l, hl⟩, hpage⟩ := tableSecondStep_repeats peoplePage columns_peopleTables
  obtain ⟨-, hfuel⟩ := hpage l hl
  have hcstr : cstr peoplePage = peoplePage := by decide
  rw [hcstr] at hl hfuel
  have hrows : ∀ row, (true, row) ∈ l → CleanRow peopleTables row := by
    intro row hrow
    have hone : ∀ t ∈ tokens (rows peoplePage),
        t.elim (fun _ => true) (fun row => row == peopleRow) = true := by decide +kernel
    obtain rfl : row = peopleRow := by simpa using hone _ ((mem_page_iff hl).mp hrow)
    decide +kernel
  have hlen : (withRows (repeatRow peopleTables) l).length < 2 ^ 31 := by
    rw [withRows_page hl]
    decide +kernel
  obtain ⟨hwith, hclean⟩ := hfuel 60 (by decide) hlen
  rw [hwith, hclean hrows, withRows_page hl]
  decide +kernel

/-- A value that makes the placeholder of the next column with the `$` around it. -/
def makingTables : Tables :=
  (StdMap.empty.set (placeholder "a".toList) ["b".toList, "c".toList]).set
    (placeholder "b".toList) ["x".toList, "y".toList]

def makingPage : Text := "<tr class='__many__'>$$a$$</tr>".toList

theorem columns_makingTables : makingTables.Columns := by
  have ha : tableFirstStep "a".toList "b|c".toList .empty = some _ := rfl
  have hb : tableFirstStep "b".toList "x|y".toList _ = some makingTables := rfl
  exact columns_tableFirstStep (columns_tableFirstStep columns_empty (by decide) ha) (by decide) hb

theorem row_not_repeated : ¬ ∀ (html : Text) (tables : Tables), tables.Columns →
    (∀ e ∈ tables.entries, ∀ value ∈ e.2, ∀ e₁ ∈ tables.entries, occursIn e₁.1 value = false) →
    ∀ l, Page html l → ∀ fuel, tables.height + html.length < fuel →
      tableSecondStepWith fuel html tables = some (withRows (repeated tables) l) := by
  intro h
  obtain ⟨l, hl⟩ := exists_page makingPage
  have hmade := h makingPage makingTables columns_makingTables (by decide) l hl 60 (by decide)
  rw [withRows_page hl] at hmade
  exact absurd hmade (by decide +kernel)

end Edm.Deliver
