import Edm.Maillist.TaskFile
import Edm.Support.Sorted
import Mathlib.Data.List.Nodup

/-!
# Maillist — AliasFile

The alias file of the list daemon: `ReadDomainAlias` reads lines `alias="domain"` into the table
that `FindAliasDomain` searches.  Each new alias sinks into its place, before those that are equal
to it; a domain is entered once.

`Reads`: the table holds the aliases of the lines read so far, sorted, each with a domain that one
of them assigns to it.

* A line that does not fit the buffer is read in pieces, and each piece is taken for a line: the
  rest of a long comment may assign a domain (`rest_of_comment`).
* The size of the table in bytes is an `int`, and `realloc` fails where it does not fit: nothing is
  defined then.
* The table is right if it fits and what is read assigns what the lines assign
  (`aliases_right_iff`), as it does when the lines fit (`Unsplit.of_short`); where every alias has
  one domain, only then.
-/

namespace Edm.Maillist
open Support

/-- The double quote. -/
def dquote : Char := Char.ofNat 34

/-- `TreatConfLine`: the alias and the domain of a line; `none` is `-1`. -/
def treatConfLine (sLine : Text) : Option (Text × Text) :=
  let sLine := (cut '#' (endLine sLine)).1
  if '=' ∈ sLine then
    let sTmp := (cut '=' sLine).2
    if dquote ∈ sTmp then
      let sTmp := (cut dquote sTmp).2
      if dquote ∈ sTmp then
        some (eraseBack " \t".toList (cut '=' sLine).1, (cut dquote sTmp).1)
      else none
    else none
  else none

/-- The tables of `DomainAlias` while they are filled: each alias with the number of its domain,
and the domains. -/
structure AliasTable where
  sAlias : List (Text × Nat)
  sDomain : List Text
  /-- The number of a domain is one. -/
  valid : ∀ r ∈ sAlias, r.2 < sDomain.length
  /-- The size of the aliases, 34 bytes each, is an `int`. -/
  fits : sAlias.length * 34 < 2 ^ 31
  /-- So the size of the domains is one, too. -/
  fewer : sDomain.length ≤ sAlias.length

namespace AliasTable

def empty : AliasTable := ⟨[], [], fun _ h => absurd h List.not_mem_nil, by decide, Nat.le_refl 0⟩

/-- What the task keeps of the tables. -/
def domainAlias (p : AliasTable) : DomainAlias :=
  ⟨p.sDomain.length, p.sAlias.pmap (fun r h => (r.1, ⟨r.2, h⟩)) p.valid⟩

/-- The domain with number `i`. -/
def domain (p : AliasTable) (i : Fin p.domainAlias.nDomainNum) : Text := p.sDomain.get i

/-- The loop over the domains: the number of `sTmp`, or how many there are. -/
def domainNum (p : AliasTable) (sTmp : Text) : Nat := p.sDomain.findIdx fun d => strcmp d sTmp == 0

/-- The domains with `sTmp`. -/
def domainsWith (p : AliasTable) (sTmp : Text) : List Text :=
  if p.domainNum sTmp = p.sDomain.length then p.sDomain ++ [sTmp.take 29] else p.sDomain

/-- The aliases with a new one, which has sunk into its place. -/
def aliasesWith (p : AliasTable) (r : Text × Nat) : List (Text × Nat) :=
  sink (fun r r' => decide (strcmp r.1 r'.1 > 0)) p.sAlias.length (p.sAlias ++ [r])

variable {p : AliasTable} {s sTmp : Text} {r r' : Text × Nat}

theorem domainNum_lt : p.domainNum sTmp < (p.domainsWith sTmp).length := by
  have hle : p.domainNum sTmp ≤ p.sDomain.length := List.findIdx_le_length
  rw [domainsWith]
  split
  next heq => simp [heq]
  next hne => exact Nat.lt_of_le_of_ne hle hne

theorem length_le_domainsWith : p.sDomain.length ≤ (p.domainsWith sTmp).length := by
  rw [domainsWith]
  split <;> simp

/-- Where the new alias has come to stand. -/
theorem aliasesWith_spec (p : AliasTable) (r : Text × Nat) :
    ∃ a c, p.sAlias = a ++ c ∧ p.aliasesWith r = a ++ r :: c ∧
      (∀ y ∈ c, ¬ 0 < strcmp r.1 y.1) ∧ ∀ y ∈ a.getLast?, 0 < strcmp r.1 y.1 := by
  obtain ⟨a, c, hac, hsink, hc, ha⟩ :=
    sink_spec (fun r r' : Text × Nat => decide (strcmp r.1 r'.1 > 0)) p.sAlias r []
  refine ⟨a, c, hac, by simpa [aliasesWith] using hsink, fun y hy => ?_, fun y hy => ?_⟩
  · exact of_decide_eq_false (hc y hy)
  · exact of_decide_eq_true (ha y hy)

theorem mem_aliasesWith : r' ∈ p.aliasesWith r ↔ r' ∈ p.sAlias ∨ r' = r := by
  obtain ⟨a, c, hac, hsink, -, -⟩ := p.aliasesWith_spec r
  rw [hac, hsink]
  simp only [List.mem_append, List.mem_cons]
  tauto

theorem valid_aliasesWith : ∀ r ∈ p.aliasesWith (s, p.domainNum sTmp),
    r.2 < (p.domainsWith sTmp).length := by
  intro r hr
  rcases mem_aliasesWith.mp hr with hr | rfl
  · exact Nat.lt_of_lt_of_le (p.valid r hr) length_le_domainsWith
  · exact domainNum_lt

theorem length_aliasesWith : (p.aliasesWith r).length = p.sAlias.length + 1 := by
  obtain ⟨a, c, hac, hsink, -, -⟩ := p.aliasesWith_spec r
  rw [hac, hsink, List.length_append, List.length_append, List.length_cons, Nat.add_assoc]

theorem length_domainsWith_le : (p.domainsWith sTmp).length ≤ (p.aliasesWith r).length := by
  have hfewer := p.fewer
  rw [length_aliasesWith, domainsWith]
  split
  · rw [List.length_append, List.length_singleton]
    exact Nat.succ_le_succ hfewer
  · exact Nat.le_succ_of_le hfewer

/-- One line of the loop of `ReadDomainAlias`.  Where the size of the aliases does not fit an `int`,
there is no memory behind `sPos`. -/
def addLine (p : AliasTable) (sLine : Text) : Option AliasTable :=
  match treatConfLine sLine with
  | none => some p
  | some (sName, sTmp) =>
      if hfits : (p.sAlias.length + 1) * 34 < 2 ^ 31 then
        some
          { sAlias := p.aliasesWith (sName.take 29, p.domainNum sTmp)
            sDomain := p.domainsWith sTmp
            valid := valid_aliasesWith
            fits := by rwa [length_aliasesWith]
            fewer := length_domainsWith_le }
      else none

end AliasTable

/-- `ReadDomainAlias`; `pIn = none` is a file that cannot be opened. -/
def readDomainAlias (pIn : Option Text) (p : AliasTable) : Option AliasTable :=
  match pIn with
  | none => some p
  | some file => (fgetsLines 1024 file).foldlM AliasTable.addLine p

/-! ### What a line says -/

theorem mem_of_mem_endLine {c : Char} {s : Text} (h : c ∈ endLine s) : c ∈ cstr s := by
  rw [endLine] at h
  split at h <;> exact mem_of_mem_cut (Or.inl h)

/-- What is read of a line are C strings. -/
theorem nul_not_mem_treatConfLine {sLine sName sTmp : Text}
    (h : treatConfLine sLine = some (sName, sTmp)) : nul ∉ sName ∧ nul ∉ sTmp := by
  have hline : ∀ c, c ∈ (cut '#' (endLine sLine)).1 → c ∈ cstr sLine := fun c hc =>
    mem_of_mem_endLine (mem_of_mem_cut (Or.inl hc))
  rw [treatConfLine] at h
  dsimp only at h
  split at h
  · split at h
    · split at h
      · obtain ⟨rfl, rfl⟩ := Prod.mk.inj (Option.some.inj h)
        refine ⟨fun hnul => ?_, fun hnul => ?_⟩
        · exact nul_not_mem_cstr sLine
            (hline nul (mem_of_mem_cut (Or.inl (mem_of_mem_eraseBack hnul))))
        · exact nul_not_mem_cstr sLine (hline nul (mem_of_mem_cut (Or.inr
            (mem_of_mem_cut (Or.inr (mem_of_mem_cut (Or.inl hnul)))))))
      · exact absurd h (Option.some_ne_none _).symm
    · exact absurd h (Option.some_ne_none _).symm
  · exact absurd h (Option.some_ne_none _).symm

theorem treatConfLine_nil : treatConfLine [] = none := rfl

/-- The end of a line says nothing. -/
theorem treatConfLine_concat {u : Text} (h : '\n' ∉ u) :
    treatConfLine (u ++ ['\n']) = treatConfLine u := by
  have hend : endLine (u ++ ['\n']) = endLine u := by
    by_cases hnul : nul ∈ u
    · obtain ⟨a, b, rfl, ha⟩ := List.eq_append_cons_of_mem hnul
      rw [endLine, endLine, List.append_assoc, List.cons_append, cstr_append ha, cstr_append ha]
    · have hnul' : nul ∉ u ++ ['\n'] := by
        simpa [hnul] using (by decide : nul ≠ '\n')
      have hcontains : (u ++ ['\n']).contains '\r' = u.contains '\r' := by simp
      rw [endLine, endLine, cstr_self hnul, cstr_self hnul', hcontains]
      split
      next hcr =>
        obtain ⟨a, b, rfl, ha⟩ := List.eq_append_cons_of_mem (List.contains_iff_mem.mp hcr)
        rw [List.append_assoc, List.cons_append, cut_append ha, cut_append ha]
      next => rw [cut_append h, cut, takeWhile_ne h]
  rw [treatConfLine, treatConfLine, hend]

/-- What the lines of a file assign. -/
def lineAssignments (file : Text) : List (Text × Text) :=
    (file.splitOn '\n').filterMap treatConfLine

/-- What `ReadDomainAlias` comes by. -/
def readAssignments (file : Text) : List (Text × Text) :=
    (fgetsLines 1024 file).filterMap treatConfLine

/-- A file whose lines fit the buffer is read as it is. -/
theorem readAssignments_of_short {file : Text} (h : ∀ u ∈ file.splitOn '\n', u.length < 1023) :
    readAssignments file = lineAssignments file :=
  filterMap_fgetsLines treatConfLine_nil (fun _ hu => treatConfLine_concat hu)
    fun u hu => Nat.succ_lt_succ (h u hu)

/-! ### The tables -/

/-- The names of a file fit the tables. -/
def NamesFit (as : List (Text × Text)) : Prop := ∀ a ∈ as, a.1.length ≤ 29 ∧ a.2.length ≤ 29

instance (as : List (Text × Text)) : Decidable (NamesFit as) :=
  inferInstanceAs (Decidable (∀ a ∈ as, _))

/-- The size of the aliases that are read is an `int`. -/
def SizeFits (as : List (Text × Text)) : Prop := as.length * 34 < 2 ^ 31

namespace AliasTable
variable {p : AliasTable} {as : List (Text × Text)} {s d : Text}

/-- The aliases, as the search compares them. -/
def names (p : AliasTable) : List Text := p.sAlias.map Prod.fst

/-- The tables after the lines that assign `as`. -/
structure Reads (p : AliasTable) (as : List (Text × Text)) : Prop where
  length : p.sAlias.length = as.length
  sorted : p.names.Pairwise (· ≤ ·)
  distinct : p.sDomain.Nodup
  names_clean : ∀ s ∈ p.names, nul ∉ s
  domains_clean : ∀ d ∈ p.sDomain, nul ∉ d
  /-- An alias has a domain that is assigned to it. -/
  entry : ∀ r ∈ p.sAlias, ∃ d, p.sDomain[r.2]? = some d ∧ (r.1, d) ∈ as
  /-- What is assigned a domain is in the table. -/
  covers : ∀ a ∈ as, a.1 ∈ p.names

theorem Reads.empty : Reads AliasTable.empty [] where
  length := rfl
  sorted := List.Pairwise.nil
  distinct := List.nodup_nil
  names_clean _ h := absurd h List.not_mem_nil
  domains_clean _ h := absurd h List.not_mem_nil
  entry _ h := absurd h List.not_mem_nil
  covers _ h := absurd h List.not_mem_nil

/-- The domain is found, or it is new. -/
theorem Reads.domain (h : p.Reads as) (hd : nul ∉ d) (hfit : d.length ≤ 29) :
    (p.domainsWith d)[p.domainNum d]? = some d ∧ (p.domainsWith d).Nodup ∧
      p.sDomain <+: p.domainsWith d ∧ ∀ e ∈ p.domainsWith d, nul ∉ e := by
  have hcmp : ∀ e ∈ p.sDomain, (strcmp e d == 0) = true ↔ e = d := fun e he => by
    rw [beq_iff_eq, strcmp_eq_zero_iff, cstr_self (h.domains_clean e he), cstr_self hd]
  by_cases hnum : p.domainNum d = p.sDomain.length
  · have hnew : d ∉ p.sDomain := fun hmem => by
      have hall := List.findIdx_eq_length.mp hnum d hmem
      exact Bool.false_ne_true (hall.symm.trans ((hcmp d hmem).mpr rfl))
    rw [domainsWith, if_pos hnum, List.take_of_length_le hfit, hnum]
    refine ⟨List.getElem?_concat_length, ?_, List.prefix_append _ _, fun e he => ?_⟩
    · rw [← List.concat_eq_append]
      exact List.Nodup.concat hnew h.distinct
    · rcases List.mem_append.mp he with he | he
      · exact h.domains_clean e he
      · exact List.mem_singleton.mp he ▸ hd
  · have hlt : p.domainNum d < p.sDomain.length := Nat.lt_of_le_of_ne List.findIdx_le_length hnum
    rw [domainsWith, if_neg hnum]
    refine ⟨?_, h.distinct, List.prefix_rfl, h.domains_clean⟩
    rw [List.getElem?_eq_getElem hlt]
    exact congrArg some ((hcmp _ (List.getElem_mem hlt)).mp (List.findIdx_getElem (w := hlt)))

/-- The alias is put between the smaller and the others. -/
theorem Reads.sorted_aliasesWith (h : p.Reads as) (hs : nul ∉ s) (i : Nat) :
    ((p.aliasesWith (s, i)).map Prod.fst).Pairwise (· ≤ ·) := by
  obtain ⟨a, c, hac, hsink, hc, ha⟩ := p.aliasesWith_spec (s, i)
  have hnames : p.names = a.map Prod.fst ++ c.map Prod.fst := by rw [names, hac, List.map_append]
  have hsorted := hnames ▸ h.sorted
  have hclean : ∀ r ∈ a ++ c, cstr r.1 = r.1 := fun r hr =>
    cstr_self (h.names_clean r.1 (List.mem_map_of_mem (hac ▸ hr)))
  rw [hsink, List.map_append, List.map_cons]
  refine pairwise_insert hsorted (fun t ht => ?_) fun t ht => ?_
  · -- The last entry before the alias is smaller, and the others are not larger than it.
    rcases List.eq_nil_or_concat a with rfl | ⟨a', z, rfl⟩
    · exact absurd ht List.not_mem_nil
    · have hlast : z.1 < s := by
        have hz := ha z (by simp)
        rwa [strcmp_pos_iff, cstr_self hs, hclean z (by simp)] at hz
      have hle : t ≤ z.1 := by
        have hsort := (List.pairwise_append.mp hsorted).1
        rw [List.concat_eq_append, List.map_append, List.pairwise_append] at hsort
        rw [List.concat_eq_append, List.map_append, List.mem_append] at ht
        rcases ht with ht | ht
        · exact hsort.2.2 t ht z.1 (by simp)
        · rw [List.map_singleton, List.mem_singleton] at ht
          exact le_of_eq ht
      exact le_of_lt (lt_of_le_of_lt hle hlast)
  · obtain ⟨r, hr, rfl⟩ := List.mem_map.mp ht
    have hr' := hc r hr
    rw [strcmp_pos_iff, cstr_self hs, hclean r (List.mem_append_right _ hr)] at hr'
    exact not_lt.mp hr'

theorem Reads.addLine (h : p.Reads as) {sLine : Text} {p' : AliasTable}
    (hfit : ∀ a ∈ treatConfLine sLine, a.1.length ≤ 29 ∧ a.2.length ≤ 29)
    (hadd : p.addLine sLine = some p') : p'.Reads (as ++ (treatConfLine sLine).toList) := by
  cases hline : treatConfLine sLine with
  | none =>
    rw [AliasTable.addLine, hline] at hadd
    obtain rfl := Option.some.inj hadd
    rw [Option.toList_none, List.append_nil]
    exact h
  | some a =>
    obtain ⟨s, d⟩ := a
    obtain ⟨hs, hd⟩ := nul_not_mem_treatConfLine hline
    obtain ⟨hsfit, hdfit⟩ := hfit _ hline
    obtain ⟨hget, hnodup, hprefix, hclean⟩ := h.domain hd hdfit
    simp only [AliasTable.addLine, hline, List.take_of_length_le hsfit] at hadd
    obtain ⟨hfits, hadd⟩ := Option.dite_none_right_eq_some.mp hadd
    obtain rfl := Option.some.inj hadd
    rw [Option.toList_some]
    refine ⟨?_, h.sorted_aliasesWith hs _, hnodup, fun t ht => ?_, hclean, fun r hr =>
      ?_, fun b hb => ?_⟩
    · rw [length_aliasesWith, h.length, List.length_append, List.length_singleton]
    · obtain ⟨r, hr, rfl⟩ := List.mem_map.mp ht
      rcases mem_aliasesWith.mp hr with hr | rfl
      · exact h.names_clean r.1 (List.mem_map_of_mem hr)
      · exact hs
    · rcases mem_aliasesWith.mp hr with hr | rfl
      · obtain ⟨e, he, hmem⟩ := h.entry r hr
        refine ⟨e, ?_, List.mem_append_left _ hmem⟩
        obtain ⟨t, ht⟩ := hprefix
        have hold : (p.sDomain ++ t)[r.2]? = some e := by
          rw [List.getElem?_append_left (p.valid r hr), he]
        exact (congrArg (·[r.2]?) ht).symm.trans hold
      · exact ⟨d, hget, List.mem_append_right _ List.mem_cons_self⟩
    · rcases List.mem_append.mp hb with hb | hb
      · obtain ⟨r, hr, hrb⟩ := List.mem_map.mp (h.covers b hb)
        exact List.mem_map.mpr ⟨r, mem_aliasesWith.mpr (Or.inl hr), hrb⟩
      · rw [List.mem_singleton.mp hb]
        exact List.mem_map.mpr ⟨_, mem_aliasesWith.mpr (Or.inr rfl), rfl⟩

/-- A line is entered while the size of the aliases is an `int`. -/
theorem isSome_addLine {sLine : Text} (h : p.Reads as)
    (hsize : SizeFits (as ++ (treatConfLine sLine).toList)) : (p.addLine sLine).isSome = true := by
  cases hline : treatConfLine sLine with
  | none => rw [AliasTable.addLine, hline, Option.isSome_some]
  | some a =>
    rw [hline, Option.toList_some, SizeFits, List.length_append, List.length_singleton,
      ← h.length] at hsize
    simp only [AliasTable.addLine, hline, dif_pos hsize, Option.isSome_some]

theorem filterMap_cons_toList (sLine : Text) (ls : List Text) :
    (sLine :: ls).filterMap treatConfLine
      = (treatConfLine sLine).toList ++ ls.filterMap treatConfLine := by
  rw [List.filterMap_cons]
  cases treatConfLine sLine <;> rfl

/-- The loop of `ReadDomainAlias`. -/
theorem Reads.addLines {ls : List Text} {p' : AliasTable} (h : p.Reads as)
    (hfit : NamesFit (ls.filterMap treatConfLine))
    (hadd : ls.foldlM AliasTable.addLine p = some p') :
    p'.Reads (as ++ ls.filterMap treatConfLine) := by
  induction ls generalizing p as with
  | nil =>
    obtain rfl := Option.some.inj hadd
    simpa using h
  | cons sLine ls ih =>
    rw [filterMap_cons_toList] at hfit ⊢
    rw [List.foldlM_cons] at hadd
    obtain ⟨q, hq, hadd⟩ := Option.bind_eq_some_iff.mp hadd
    rw [← List.append_assoc]
    refine ih (h.addLine (fun a ha => hfit a (List.mem_append_left _ ?_)) hq) (fun a ha =>
      hfit a (List.mem_append_right _ ha)) hadd
    exact Option.mem_toList.mpr ha

/-- It enters all lines if the size of the aliases is an `int`. -/
theorem isSome_addLines {ls : List Text} (h : p.Reads as)
    (hfit : NamesFit (ls.filterMap treatConfLine))
    (hsize : SizeFits (as ++ ls.filterMap treatConfLine)) :
    (ls.foldlM AliasTable.addLine p).isSome = true := by
  induction ls generalizing p as with
  | nil => rfl
  | cons sLine ls ih =>
    rw [filterMap_cons_toList] at hfit
    rw [filterMap_cons_toList, ← List.append_assoc] at hsize
    have hline : SizeFits (as ++ (treatConfLine sLine).toList) := by
      rw [SizeFits, List.length_append] at hsize
      exact lt_of_le_of_lt (Nat.mul_le_mul_right 34 (Nat.le_add_right _ _)) hsize
    obtain ⟨q, hq⟩ := Option.isSome_iff_exists.mp (isSome_addLine h hline)
    rw [List.foldlM_cons, hq]
    refine ih (h.addLine (fun a ha => hfit a (List.mem_append_left _ ?_)) hq)
      (fun a ha => hfit a (List.mem_append_right _ ha)) hsize
    exact Option.mem_toList.mpr ha

theorem names_domainAlias (p : AliasTable) : p.domainAlias.sAlias.map Prod.fst = p.names := by
  rw [domainAlias, List.map_pmap, names, List.pmap_eq_map]

theorem Reads.compares (h : p.Reads as) (hs : nul ∉ s) :
    Compares (fun nM => strcmp (p.names.getD nM []) s) p.names s where
  neg {m t} ht := by
    have hclean := h.names_clean t (List.mem_of_getElem? ht)
    rw [List.getD_eq_getElem?_getD, ht, Option.getD_some, strcmp_neg_iff,
      cstr_self hclean, cstr_self hs]
  pos {m t} ht := by
    have hclean := h.names_clean t (List.mem_of_getElem? ht)
    rw [List.getD_eq_getElem?_getD, ht, Option.getD_some, strcmp_pos_iff,
      cstr_self hclean, cstr_self hs]

/-- The search of the aliases: a domain it finds is assigned to the alias, and what it does not
find is assigned none. -/
theorem Reads.find (h : p.Reads as) (hs : nul ∉ s) :
    match findAliasDomain s p.domainAlias with
    | some i => (s, p.domain i) ∈ as
    | none => s ∉ as.map Prod.fst := by
  have hlength : p.domainAlias.sAlias.length = p.names.length := by
    rw [← p.names_domainAlias, List.length_map]
  have hfind : findAliasDomain s p.domainAlias
      = (bsearch (fun nM => strcmp (p.names.getD nM []) s) p.names.length).bind
          fun nM => (p.domainAlias.sAlias[nM]?).map Prod.snd := by
    rw [findAliasDomain, p.names_domainAlias, hlength]
  cases hb : bsearch (fun nM => strcmp (p.names.getD nM []) s) p.names.length with
  | none =>
    have hnot : s ∉ p.names := fun hmem => by
      have hsome := (bsearch_isSome_iff h.sorted (h.compares hs)).mpr hmem
      rw [hb] at hsome
      exact Bool.false_ne_true hsome
    rw [hfind, hb]
    rintro hmem
    obtain ⟨a, ha, rfl⟩ := List.mem_map.mp hmem
    exact hnot (h.covers a ha)
  | some m =>
    have hm : p.names[m]? = some s := (h.compares hs).found hb
    obtain ⟨r, hr, rfl⟩ : ∃ r, p.sAlias[m]? = some r ∧ r.1 = s := by
      simpa [names] using hm
    obtain ⟨hlt, rfl⟩ := List.getElem?_eq_some_iff.mp hr
    have hmem : p.sAlias[m] ∈ p.sAlias := List.getElem_mem hlt
    have hget :
        p.domainAlias.sAlias[m]? = some (p.sAlias[m].1, ⟨p.sAlias[m].2, p.valid _ hmem⟩) := by
      refine List.getElem?_eq_some_iff.mpr ⟨by simpa [domainAlias] using hlt, ?_⟩
      simp [domainAlias]
    obtain ⟨d, hd, hassigned⟩ := h.entry _ hmem
    rw [hfind, hb, Option.bind_some, hget]
    rw [List.getElem?_eq_getElem (p.valid _ hmem)] at hd
    have hdomain : p.domain ⟨p.sAlias[m].2, p.valid _ hmem⟩ = d := Option.some.inj hd
    simpa only [Option.map_some, hdomain] using hassigned

end AliasTable

/-- The tables are right: the aliases are sorted, no domain is there twice, and the search finds a
domain that a line of the file assigns, or no line assigns one. -/
structure AliasesRight (file : Text) (p : AliasTable) : Prop where
  sorted : p.names.Pairwise fun s t => strcmp s t ≤ 0
  distinct : p.sDomain.Nodup
  finds : ∀ s, nul ∉ s →
    match findAliasDomain s p.domainAlias with
    | some i => (s, p.domain i) ∈ lineAssignments file
    | none => s ∉ (lineAssignments file).map Prod.fst

/-- What is read assigns no domain that the lines do not, and every alias of theirs has one. -/
structure Unsplit (file : Text) : Prop where
  assigned : ∀ a ∈ readAssignments file, a ∈ lineAssignments file
  aliased : ∀ a ∈ lineAssignments file, a.1 ∈ (readAssignments file).map Prod.fst

theorem Unsplit.of_short {file : Text} (h : ∀ u ∈ file.splitOn '\n', u.length < 1023) :
    Unsplit file where
  assigned _ ha := readAssignments_of_short h ▸ ha
  aliased _ ha := List.mem_map_of_mem (readAssignments_of_short h ▸ ha)

/-- What is read assigns every alias one domain. -/
def OneDomain (file : Text) : Prop :=
  ∀ a ∈ readAssignments file, ∀ b ∈ readAssignments file, a.1 = b.1 → a.2 = b.2

instance (file : Text) : Decidable (OneDomain file) :=
  inferInstanceAs (Decidable (∀ a ∈ readAssignments file, ∀ b ∈ readAssignments file, _))

theorem nul_not_mem_alias {ls : List Text} {a : Text × Text} (h : a ∈ ls.filterMap treatConfLine) :
    nul ∉ a.1 := by
  obtain ⟨l, -, hl⟩ := List.mem_filterMap.mp h
  exact (nul_not_mem_treatConfLine hl).1

theorem reads_readDomainAlias {file : Text} {p : AliasTable}
    (hfit : NamesFit (readAssignments file))
    (hread : readDomainAlias (some file) .empty = some p) : p.Reads (readAssignments file) :=
  AliasTable.Reads.empty.addLines hfit hread

/-- The file is read, and the tables are right. -/
def ReadsRight (file : Text) : Prop :=
  ∃ p ∈ readDomainAlias (some file) .empty, AliasesRight file p

/-- A file that is read as it is. -/
theorem Unsplit.aliases_right {file : Text} (h : Unsplit file)
    (hsize : SizeFits (readAssignments file)) (hfit : NamesFit (lineAssignments file)) :
    ReadsRight file := by
  have hread : NamesFit (readAssignments file) := fun a ha => hfit a (h.assigned a ha)
  obtain ⟨p, hp⟩ :=
    Option.isSome_iff_exists.mp (AliasTable.isSome_addLines .empty hread hsize)
  have hreads := reads_readDomainAlias hread hp
  refine ⟨p, hp, hreads.sorted.imp_of_mem fun hs ht hle => ?_, hreads.distinct, fun s hs => ?_⟩
  · refine Int.not_lt.mp fun hpos => not_lt.mpr hle ?_
    rwa [strcmp_pos_iff, cstr_self (hreads.names_clean _ hs),
      cstr_self (hreads.names_clean _ ht)] at hpos
  · have hfind := hreads.find hs
    split at hfind
    next i hi => exact h.assigned _ hfind
    next hi =>
      intro hmem
      obtain ⟨a, ha, rfl⟩ := List.mem_map.mp hmem
      exact hfind (h.aliased a ha)

theorem AliasesRight.not_found {file : Text} {p : AliasTable} (h : AliasesRight file p) {s : Text}
    (hs : nul ∉ s) (hnone : s ∉ (lineAssignments file).map Prod.fst) :
    findAliasDomain s p.domainAlias = none := by
  have hright := h.finds s hs
  split at hright
  next => exact absurd (List.mem_map_of_mem hright) hnone
  next hi => exact hi

/-- A file whose tables are right is read as it is, where every alias has one domain. -/
theorem AliasesRight.unsplit {file : Text} {p : AliasTable} (h : AliasesRight file p)
    (hreads : p.Reads (readAssignments file)) (hone : OneDomain file) : Unsplit file := by
  refine ⟨fun a ha => ?_, fun a ha => ?_⟩
  · have hs := nul_not_mem_alias ha
    have hfind := hreads.find hs
    have hright := h.finds a.1 hs
    split at hfind
    next i hi =>
      rw [hi] at hright
      have heq := Prod.ext (show (a.1, AliasTable.domain _ i).1 = a.1 from rfl)
          (hone _ hfind a ha rfl)
      rw [← heq]
      exact hright
    next hi => exact absurd (List.mem_map_of_mem ha) hfind
  · have hs := nul_not_mem_alias ha
    have hfind := hreads.find hs
    have hright := h.finds a.1 hs
    split at hright
    next i hi =>
      rw [hi] at hfind
      exact List.mem_map.mpr ⟨_, hfind, rfl⟩
    next hi => exact absurd (List.mem_map_of_mem ha) hright

/-- The tables are right if they fit and the file is read as it is; where what is read assigns
every alias one domain, only then. -/
theorem aliases_right_iff {file : Text} (hfit : NamesFit (lineAssignments file)) :
    (Unsplit file ∧ SizeFits (readAssignments file) → ReadsRight file) ∧
      (NamesFit (readAssignments file) → OneDomain file →
        (ReadsRight file ↔ Unsplit file ∧ SizeFits (readAssignments file))) := by
  refine ⟨fun ⟨h, hsize⟩ => h.aliases_right hsize hfit, fun hread hone =>
    ⟨fun ⟨p, hp, h⟩ => ?_, fun ⟨h, hsize⟩ => h.aliases_right hsize hfit⟩⟩
  have hreads := reads_readDomainAlias hread hp
  refine ⟨h.unsplit hreads hone, ?_⟩
  rw [SizeFits, ← hreads.length]
  exact p.fits

/-- Two aliases of one domain, and one of another. -/
def sampleAliases : Text := "mail.b=\"b.c\"\na = \"b.c\"\n#x=\"y\"\nd=\"e.f\"".toList

theorem aliases_right_iff_sample : ReadsRight sampleAliases ∧
    (ReadsRight sampleAliases ↔
      Unsplit sampleAliases ∧ SizeFits (readAssignments sampleAliases)) := by
  have hshort : ∀ u ∈ sampleAliases.splitOn '\n', u.length < 1023 := by decide +kernel
  have hfit : NamesFit (lineAssignments sampleAliases) := by decide +kernel
  have hread : NamesFit (readAssignments sampleAliases) := by decide +kernel
  have hone : OneDomain sampleAliases := by decide +kernel
  have hsize : (readAssignments sampleAliases).length * 34 < 2 ^ 31 := by decide +kernel
  exact ⟨(aliases_right_iff hfit).1 ⟨.of_short hshort, hsize⟩,
    (aliases_right_iff hfit).2 hread hone⟩

/-- A comment that does not fit the buffer. -/
def longComment : Text := '#' :: (List.replicate 1022 'x' ++ "a=\"b\"\n".toList)

/-- The rest of the comment is read as a line of its own, and assigns a domain. -/
theorem rest_of_comment : NamesFit (lineAssignments longComment) ∧ ¬ ReadsRight longComment := by
  have hnone : lineAssignments longComment = [] := by decide +kernel
  have hfound : ((readDomainAlias (some longComment) .empty).all fun p =>
      (findAliasDomain "a".toList p.domainAlias).isSome) = true := by decide +kernel
  refine ⟨by rw [hnone]; exact fun a ha => absurd ha List.not_mem_nil, fun ⟨p, hp, h⟩ => ?_⟩
  have hsome := (Option.all_eq_true _ _).mp hfound p hp
  rw [h.not_found (by decide) (by rw [hnone]; exact List.not_mem_nil)] at hsome
  exact Bool.false_ne_true hsome

end Edm.Maillist
