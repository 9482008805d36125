import Edm.Deliver.Node
import Edm.Maillist.Record
import Mathlib.Data.List.Forall2

/-!
# Deliver — Wire

A subscriber line on its way from the list daemon to the delivery engine.  The daemon writes the
fields as `$name$value`, the engine reads them with `sscanf` and takes `$` for a delimiter
wherever it stands.  Nothing is escaped, so a name or a value with a `$` is cut, and a last empty
field is not sent at all.

`Arrives` says what should come out: the same task, the same mailbox, and for every further column
the value of its field.  `Line.Sound` is the exact condition on the line: `arrives_iff` for a
single line, `mail_list_iff` for a response of any number of them, whose records fit the blocks they
are written into (`SentMail.FitsBlock`).
-/

namespace Edm.Deliver
open Support Edm.Maillist

/-! ### Reading segments -/

/-- The name and value read from a segment. -/
def variableOf (tmp : Text) : Text × Text := (scanVariable tmp).getD ([], [])

/-- A segment fits the buffers. -/
def Fits (tmp : Text) : Prop := tmp.length ≤ 4194303 ∧ (scanVariable tmp).isSome

theorem splitLoop_skip {s : Text} (hs : nul ∉ s) (n : Nat) (mem p : Text) (seen : Bool)
    (vars : StdMap Text Text) :
    splitLoop (s.length + n) (s ++ mem) p seen vars = splitLoop n mem p seen vars := by
  induction s with
  | nil => rw [List.length_nil, Nat.zero_add, List.nil_append]
  | cons c s ih =>
      obtain ⟨hc, hs⟩ := not_or.mp (mt List.mem_cons.mpr hs)
      rw [List.length_cons, Nat.add_right_comm, splitLoop, List.cons_append, List.headD_cons,
        if_neg (Ne.symm hc), List.tail_cons, ih hs]

/-- The loop over the segments, each with its NUL, sets one variable after another. -/
theorem splitLoop_segments {segs : List Text} (hs : ∀ s ∈ segs, nul ∉ s) (rest : Text)
    (vars : StdMap Text Text) (m : StdMap Text Text) :
    splitLoop (segs.map (· ++ [nul])).flatten.length ((segs.map (· ++ [nul])).flatten ++ rest)
        ((segs.map (· ++ [nul])).flatten ++ rest) true vars = some m ↔
      (∀ s ∈ segs, Fits s) ∧
        m = (segs.map variableOf).foldl (fun m kv => m.set kv.1 kv.2) vars := by
  induction segs generalizing vars with
  | nil =>
      simp only [List.map_nil, List.flatten_nil, List.length_nil, splitLoop, List.foldl_nil,
        Option.some.injEq]
      exact ⟨fun h => ⟨fun _ h => (nomatch h), h.symm⟩, fun h => h.2.symm⟩
  | cons s segs ih =>
      obtain ⟨hs₁, hs₂⟩ := List.forall_mem_cons.mp hs
      rw [List.map_cons, List.flatten_cons, List.append_assoc, List.singleton_append,
        List.append_assoc, List.cons_append, List.length_append, List.length_cons,
        splitLoop_skip hs₁, splitLoop, List.headD_cons, if_pos rfl, cstr_append hs₁, if_pos rfl,
        List.tail_cons]
      by_cases hlen : 4194303 < s.length
      · rw [if_pos hlen]
        refine iff_of_false (nomatch ·) fun h => ?_
        have := (h.1 s List.mem_cons_self).1
        omega
      · rw [if_neg hlen]
        cases hsc : scanVariable s with
        | none =>
            refine iff_of_false (nomatch ·) fun h => ?_
            have := (h.1 s List.mem_cons_self).2
            rw [hsc] at this
            exact nomatch this
        | some kv =>
            rw [Option.bind_some, ih hs₂, List.map_cons, List.foldl_cons, List.forall_mem_cons]
            have hfit : Fits s := ⟨Nat.le_of_not_lt hlen, by rw [hsc]; rfl⟩
            have hv : variableOf s = kv := by rw [variableOf, hsc]; rfl
            rw [hv]
            exact ⟨fun h => ⟨⟨hfit, h.1⟩, h.2⟩, fun h => ⟨h.1.2, h.2⟩⟩

/-- The whole of `SplitVariable` on a mailbox and segments. -/
theorem splitVariable_eq_some_iff {box : Text} {segs : List Text} (hb : nul ∉ box)
    (hlen : box.length ≤ 127) (hs : ∀ s ∈ segs, nul ∉ s) (rest : Text) (m : StdMap Text Text) :
    splitVariable (box ++ nul :: ((segs.map (· ++ [nul])).flatten ++ rest))
        ((box.length + 1 + (segs.map (· ++ [nul])).flatten.length : Nat) + 12 : Int) = some m ↔
      (∀ s ∈ segs, Fits s) ∧
        m = (segs.map variableOf).foldl (fun m kv => m.set kv.1 kv.2) StdMap.empty := by
  have hn : ((box.length + 1 + (segs.map (· ++ [nul])).flatten.length : Nat) + 12 - 12 : Int).toNat
      = box.length + ((segs.map (· ++ [nul])).flatten.length + 1) := by omega
  rw [splitVariable, if_neg (by omega), hn, splitLoop_skip hb, splitLoop, List.headD_cons,
    if_pos rfl, cstr_append hb, if_neg (by omega), if_neg Bool.false_ne_true, List.tail_cons]
  exact splitLoop_segments hs rest StdMap.empty m

/-! ### What is read from a segment -/

/-- Names and values are read without `$`, and a value only behind a name. -/
theorem variableOf_spec (tmp : Text) : '$' ∉ (variableOf tmp).1 ∧ '$' ∉ (variableOf tmp).2 ∧
    ((variableOf tmp).1 = [] → (variableOf tmp).2 = []) := by
  have hnil : '$' ∉ ([] : Text) ∧ '$' ∉ ([] : Text) ∧ (([] : Text) = [] → ([] : Text) = []) :=
    ⟨List.not_mem_nil, List.not_mem_nil, fun _ => rfl⟩
  simp only [variableOf, scanVariable]
  split
  · exact hnil
  · split
    · exact hnil
    · refine ⟨not_mem_takeWhile _ _, not_mem_takeWhile _ _, fun hkey => ?_⟩
      simp only [Option.getD_some] at hkey ⊢
      -- Behind the leading `$`s stands something else, so the name is empty only at the end.
      cases hr : tmp.dropWhile (· == '$') with
      | nil => rfl
      | cons d r =>
          have hd : (d == '$') = false := by
            have := List.head?_dropWhile_not (· == '$') tmp
            rwa [hr, List.head?_cons] at this
          rw [hr, List.takeWhile_cons_of_pos (by rw [bne, hd]; rfl)] at hkey
          exact nomatch hkey

/-- What `sscanf` makes of a segment whose name does not start with the delimiter. -/
theorem scanVariable_segment {name : Text} (hne : name ≠ []) (hn : name.head? ≠ some '$')
    (value : Text) : scanVariable ('$' :: name ++ ['$'] ++ value)
      = if 127 < (name.takeWhile (· != '$')).length then none
        else some (name.takeWhile (· != '$'),
          (name.dropWhile (· != '$') ++ '$' :: value).tail.takeWhile (· != '$')) := by
  obtain ⟨c, name', rfl⟩ := List.exists_cons_of_ne_nil hne
  have hc : ¬(c == '$') = true := fun h => hn (by rw [List.head?_cons, beq_iff_eq.mp h])
  have htmp : '$' :: (c :: name') ++ ['$'] ++ value = '$' :: (c :: name' ++ '$' :: value) := by
    simp
  have hdrop : ('$' :: (c :: name' ++ '$' :: value)).dropWhile (· == '$')
      = c :: name' ++ '$' :: value := by
    rw [List.dropWhile_cons_of_pos (by rfl), List.cons_append,
      List.dropWhile_cons_of_neg (p := (· == '$')) hc]
  have htake : ('$' :: (c :: name' ++ '$' :: value)).takeWhile (· == '$') = ['$'] := by
    rw [List.takeWhile_cons_of_pos (by rfl), List.cons_append,
      List.takeWhile_cons_of_neg (p := (· == '$')) hc]
  simp only [htmp, scanVariable, htake, hdrop, takeWhile_append_self, dropWhile_append_self,
    List.isEmpty_cons, List.length_singleton, Nat.reduceLT, false_or, List.drop_one,
    Bool.false_eq_true, if_false]

/-- A name without `$` is read up to the delimiter. -/
theorem variableOf_named {name value : Text} (hne : name ≠ []) (hn : '$' ∉ name)
    (hv : '$' ∉ value) (hlen : name.length ≤ 127) :
    variableOf ('$' :: name ++ ['$'] ++ value) = (name, value) := by
  have hhead : name.head? ≠ some '$' := fun h => hn (List.mem_of_mem_head? h)
  rw [variableOf, scanVariable_segment hne hhead, takeWhile_ne hn, dropWhile_ne hn,
    List.nil_append, List.tail_cons, takeWhile_ne hv, if_neg (by omega), Option.getD_some]

/-- A field without a name is read as an empty variable. -/
theorem scanVariable_plain {value : Text} (hv : '$' ∉ value) :
    scanVariable value = some ([], []) := by
  have : value.takeWhile (· == '$') = [] := by
    cases value with
    | nil => rfl
    | cons c value =>
        have hc : c ≠ '$' := fun h => hv (h ▸ List.mem_cons_self)
        exact List.takeWhile_cons_of_neg (by simpa using hc)
  simp only [scanVariable, this, List.isEmpty_nil, if_true]

theorem head_rest {name : Text} (hn : '$' ∉ name) (rest : Text) :
    (name ++ ',' :: rest).head? ≠ some '$' := by
  cases name with
  | nil => exact fun h => nomatch Option.some.inj h
  | cons c name => exact fun h => hn (Option.some.inj h ▸ List.mem_cons_self)

/-- The rest of the column names is read as one name, with its commas. -/
theorem variableOf_rest {name rest value : Text} (hn : '$' ∉ name)
    (hlen : ((name ++ ',' :: rest).takeWhile (· != '$')).length ≤ 127) :
    ',' ∈ (variableOf ('$' :: (name ++ ',' :: rest) ++ ['$'] ++ value)).1 := by
  rw [variableOf, scanVariable_segment (List.append_ne_nil_of_right_ne_nil _ (List.cons_ne_nil _ _))
    (head_rest hn rest), if_neg (by omega), Option.getD_some, List.takeWhile_append_of_pos,
    List.takeWhile_cons_of_pos (by rfl)]
  · exact List.mem_append_right _ List.mem_cons_self
  · intro d hd
    rw [bne_iff_ne]
    rintro rfl
    exact hn hd

end Edm.Deliver

namespace Edm.Maillist.Line
open Support Edm.Deliver
variable (l : Line)

/-- The name a field is sent under; fields from the 256th on have none. -/
def sentName (i : Nat) : Text := if i < 256 then paramName (paramNames l.header) i else []

/-- Field `i` and the name of its column. -/
def Has (i : Nat) (c f : Text) : Prop := l.columns[i + 1]? = some c ∧ l.fields[i + 1]? = some f

/-- The name and the field are plain text to the reader. -/
def Plain (c f : Text) : Prop := '$' ∉ c ∧ '$' ∉ f ∧ (c = [] → f = [])

/-- When a line arrives. -/
structure Sound : Prop where
  box : l.box.length ≤ 127
  fits : ∀ i f, l.kept[i]? = some f → (l.segment f (i + 1)).length ≤ 4194303 ∧
    ((l.sentName (i + 1)).takeWhile (· != '$')).length ≤ 127
  plain : ∀ i c f, l.Has i c f → Plain c f
  agree : ∀ i j c f g, l.Has i c f → l.Has j c g → f = g
  sent : ∀ i c f, l.Has i c f → ∃ j < l.kept.length, l.sentName (j + 1) = c

theorem getElem?_kept {j : Nat} {g : Text} (h : l.kept[j]? = some g) :
    ∃ c, l.Has j c g := by
  have hf : l.fields[j + 1]? = some g := by
    rw [l.fields_eq, List.getElem?_cons_succ]
    rw [kept] at h
    split at h
    · rw [List.getElem?_dropLast] at h
      split at h
      · exact h
      · cases h
    · exact h
  obtain ⟨hlt, -⟩ := List.getElem?_eq_some_iff.mp hf
  have hle : l.fields.length ≤ l.columns.length := l.fields_le
  exact ⟨l.columns[j + 1], List.getElem?_eq_getElem (by omega), hf⟩

/-- A segment is its field alone, or its name and its field between delimiters.  The name is that
of the column, or starts with it. -/
theorem segment_cases {j : Nat} {c g : Text} (h : l.Has j c g) :
    255 ≤ j ∧ l.sentName (j + 1) = [] ∧ l.segment g (j + 1) = g ∨
      j < 255 ∧ l.segment g (j + 1) = '$' :: l.sentName (j + 1) ++ ['$'] ++ g ∧
        (l.sentName (j + 1) = c ∨ ∃ r, l.sentName (j + 1) = c ++ ',' :: r) := by
  by_cases hj : j + 1 < 256
  · refine Or.inr ⟨Nat.lt_of_succ_lt_succ hj, ?_⟩
    rw [segment, sentName, if_pos hj, if_pos hj]
    obtain ⟨r, hr, hr₁, hr₂⟩ := l.paramName_eq hj h.1
    refine ⟨rfl, ?_⟩
    by_cases hlast : j + 1 = 255 ∧ 256 < l.columns.length
    · obtain ⟨r', rfl⟩ := hr₂ hlast.1 hlast.2
      exact Or.inr ⟨r', hr⟩
    · rw [hr, hr₁ (by omega), List.append_nil]
      exact Or.inl rfl
  · rw [segment, sentName, if_neg hj, if_neg hj]
    exact Or.inl ⟨by omega, rfl, rfl⟩

/-- The buffers a segment of plain text has to fit. -/
theorem fits_segment {j : Nat} {c g : Text} (h : l.Has j c g) (hp : Plain c g) :
    Fits (l.segment g (j + 1)) ↔ (l.segment g (j + 1)).length ≤ 4194303 ∧
      ((l.sentName (j + 1)).takeWhile (· != '$')).length ≤ 127 := by
  obtain ⟨hc, hg, hcg⟩ := hp
  refine and_congr_right fun _ => ?_
  rcases l.segment_cases h with ⟨-, hn, hs⟩ | ⟨-, hs, hn⟩
  · rw [hs, hn, scanVariable_plain hg]
    exact iff_of_true rfl (Nat.zero_le _)
  · rw [hs]
    by_cases hne : l.sentName (j + 1) = []
    · have hce : c = [] := by
        rcases hn with hn | ⟨r, hn⟩
        · exact hn.symm.trans hne
        · exact absurd (hn.symm.trans hne) (by simp)
      rw [hne, hcg hce]
      decide
    · have hhead : (l.sentName (j + 1)).head? ≠ some '$' := by
        rcases hn with hn | ⟨r, hn⟩
        · rw [hn]
          exact fun h => hc (List.mem_of_mem_head? h)
        · rw [hn]
          exact head_rest hc r
      rw [scanVariable_segment hne hhead]
      split
      next h => exact iff_of_false (nomatch ·) (Nat.not_le_of_lt h)
      next h => exact iff_of_true rfl (Nat.le_of_not_lt h)

/-- What is read of a segment: its column and its field, an empty variable if it has no name, or
at least the first comma of a name that holds the rest of the columns. -/
theorem variableOf_segment {j : Nat} {c g : Text} (h : l.Has j c g) (hp : Plain c g)
    (hlen : ((l.sentName (j + 1)).takeWhile (· != '$')).length ≤ 127) :
    variableOf (l.segment g (j + 1)) = (c, g) ∧ l.sentName (j + 1) = c ∨
      variableOf (l.segment g (j + 1)) = ([], []) ∧ l.sentName (j + 1) = [] ∨
        ',' ∈ (variableOf (l.segment g (j + 1))).1 ∧ ',' ∈ l.sentName (j + 1) := by
  obtain ⟨hc, hg, hcg⟩ := hp
  rcases l.segment_cases h with ⟨hj, hn, hs⟩ | ⟨hj, hs, hn | ⟨r, hn⟩⟩
  · rw [hs, variableOf, scanVariable_plain hg]
    exact Or.inr (Or.inl ⟨rfl, hn⟩)
  · refine Or.inl ⟨?_, hn⟩
    rw [hs, hn]
    rw [hn, takeWhile_ne hc] at hlen
    by_cases hne : c = []
    · rw [hcg hne, hne]
      decide
    · exact variableOf_named hne hc hg hlen
  · rw [hs, hn]
    rw [hn] at hlen
    exact Or.inr (Or.inr ⟨variableOf_rest hc hlen, List.mem_append_right _ List.mem_cons_self⟩)

/-- The variables a line is read as. -/
def mapVariable : StdMap Text Text :=
  (l.segments.map variableOf).foldl (fun m kv => m.set kv.1 kv.2) StdMap.empty

theorem mem_segments {s : Text} : s ∈ l.segments ↔ ∃ j g, l.kept[j]? = some g ∧
    l.segment g (j + 1) = s := by
  rw [segments, List.mem_map]
  constructor
  · rintro ⟨⟨g, i⟩, hm, rfl⟩
    obtain ⟨hi, hg⟩ := List.mk_mem_zipIdx_iff_le_and_getElem?_sub.mp hm
    exact ⟨i - 1, g, hg, by rw [Nat.sub_add_cancel hi]⟩
  · rintro ⟨j, g, hg, rfl⟩
    exact ⟨(g, j + 1), List.mk_mem_zipIdx_iff_le_and_getElem?_sub.mpr ⟨by omega, hg⟩, rfl⟩

theorem mem_variables {e : Text × Text} : e ∈ l.segments.map variableOf ↔
    ∃ j c g, l.kept[j]? = some g ∧ l.Has j c g ∧ variableOf (l.segment g (j + 1)) = e := by
  rw [List.mem_map]
  constructor
  · rintro ⟨s, hs, rfl⟩
    obtain ⟨j, g, hg, rfl⟩ := l.mem_segments.mp hs
    obtain ⟨c, hc⟩ := l.getElem?_kept hg
    exact ⟨j, c, g, hg, hc, rfl⟩
  · rintro ⟨j, c, g, hg, -, rfl⟩
    exact ⟨_, l.mem_segments.mpr ⟨j, g, hg, rfl⟩, rfl⟩

theorem comma_not_mem {j : Nat} {c g : Text} (h : l.Has j c g) : ',' ∉ c :=
  not_mem_of_mem_splitOn (List.mem_of_getElem? h.1)

theorem Sound.find {l : Line} (h : l.Sound) {i : Nat} {c f : Text} (hi : l.Has i c f) :
    l.mapVariable.find c = some f := by
  have hc := l.comma_not_mem hi
  have hf := (h.plain i c f hi).2.2
  refine StdMap.find_foldl_set_of_agree (fun e he hec => ?_) (Or.inl ?_)
  · obtain ⟨j, d, g, hg, hd, rfl⟩ := l.mem_variables.mp he
    rcases l.variableOf_segment hd (h.plain j d g hd) (h.fits j g hg).2 with h' | h' | h'
    · rw [h'.1] at hec ⊢
      obtain rfl : d = c := hec
      exact h.agree j i d g f hd hi
    · rw [h'.1] at hec ⊢
      exact (hf hec.symm).symm
    · exact absurd (hec ▸ h'.1) hc
  · obtain ⟨j, hj, hn⟩ := h.sent i c f hi
    have hg := List.getElem?_eq_getElem hj
    obtain ⟨d, hd⟩ := l.getElem?_kept hg
    refine l.mem_variables.mpr ⟨j, d, _, hg, hd, ?_⟩
    rcases l.variableOf_segment hd (h.plain j d _ hd) (h.fits j _ hg).2 with h' | h' | h'
    · obtain rfl : d = c := h'.2.symm.trans hn
      rw [h'.1, h.agree j i d _ f hd hi]
    · have hce : c = [] := hn.symm.trans h'.2
      rw [h'.1, hf hce, hce]
    · exact absurd (hn ▸ h'.2) hc

/-- All variables arrive exactly when the line is sound. -/
theorem sound_iff : l.Sound ↔ l.box.length ≤ 127 ∧ (∀ s ∈ l.segments, Fits s) ∧
    ∀ i c f, l.Has i c f → l.mapVariable.find c = some f := by
  constructor
  · intro h
    refine ⟨h.box, fun s hs => ?_, fun i c f hi => h.find hi⟩
    obtain ⟨j, g, hg, rfl⟩ := l.mem_segments.mp hs
    obtain ⟨d, hd⟩ := l.getElem?_kept hg
    exact (l.fits_segment hd (h.plain _ _ _ hd)).mpr (h.fits _ _ hg)
  · rintro ⟨hbox, hfits, hall⟩
    have hmem : ∀ {i c f}, l.Has i c f → (c, f) ∈ l.segments.map variableOf := fun hi =>
      (StdMap.mem_of_find_foldl_set (hall _ _ _ hi)).resolve_right (nomatch ·)
    have hplain : ∀ i c f, l.Has i c f → Plain c f := fun i c f hi => by
      obtain ⟨j, d, g, -, -, hv⟩ := l.mem_variables.mp (hmem hi)
      have := variableOf_spec (l.segment g (j + 1))
      rwa [hv] at this
    have hfits' : ∀ i f, l.kept[i]? = some f → (l.segment f (i + 1)).length ≤ 4194303 ∧
        ((l.sentName (i + 1)).takeWhile (· != '$')).length ≤ 127 := fun i f hi => by
      obtain ⟨d, hd⟩ := l.getElem?_kept hi
      exact (l.fits_segment hd (hplain _ _ _ hd)).mp (hfits _ (l.mem_segments.mpr ⟨i, f, hi, rfl⟩))
    refine ⟨hbox, hfits', hplain, fun i j c f g hi hj => ?_, fun i c f hi => ?_⟩
    · exact Option.some.inj ((hall i c f hi).symm.trans (hall j c g hj))
    · obtain ⟨j, d, g, hg, hd, hv⟩ := l.mem_variables.mp (hmem hi)
      refine ⟨j, (List.getElem?_eq_some_iff.mp hg).1, ?_⟩
      rcases l.variableOf_segment hd (hplain j d g hd) (hfits' j g hg).2 with h' | h' | h'
      · rw [h'.2]
        exact congrArg Prod.fst (h'.1.symm.trans hv)
      · rw [h'.2]
        exact congrArg Prod.fst (h'.1.symm.trans hv)
      · rw [hv] at h'
        exact absurd h'.1 (l.comma_not_mem hi)

end Edm.Maillist.Line

namespace Edm.Deliver
open Support Edm.Maillist

/-! ### Mails on the wire -/

/-- What should come out of a line of the task `n`: its task, its mailbox, and the field of every
further column. -/
structure Arrives (n : Int × Int × Int) (l : Line) (node : MailNode) : Prop where
  taskId : node.taskId = ⟨toUnsigned n.1, toUnsigned n.2.1, toUnsigned n.2.2⟩
  mail : node.mail = l.box
  fields : ∀ i c f, l.Has i c f → node.mapVariable.find c = some f

/-- What does come out. -/
def decoded (n : Int × Int × Int) (l : Line) : MailNode where
  status := .unsent
  failtimes := 0
  domain := mailDomain l.box
  mail := l.box
  errstr := []
  stime := 0
  taskId := ⟨toUnsigned n.1, toUnsigned n.2.1, toUnsigned n.2.2⟩
  mapVariable := l.mapVariable

theorem readTaskId_idBytes (n : Int × Int × Int) (s : Text) :
    readTaskId (idBytes n ++ s) = ⟨toUnsigned n.1, toUnsigned n.2.1, toUnsigned n.2.2⟩ := by
  have h₀ : idBytes n ++ s = be32 n.1 ++ (be32 n.2.1 ++ (be32 n.2.2 ++ s)) := rfl
  have h₁ : (idBytes n ++ s).drop 4 = be32 n.2.1 ++ (be32 n.2.2 ++ s) := rfl
  have h₂ : (idBytes n ++ s).drop 8 = be32 n.2.2 ++ s := rfl
  rw [readTaskId, h₁, h₂, h₀, ofBe32_append, ofBe32_append, ofBe32_append, toUnsigned_int32,
    toUnsigned_int32, toUnsigned_int32]

/-- The strings of a line, one after another. -/
def strings (l : Line) : Text := l.box ++ nul :: (l.segments.map (· ++ [nul])).flatten

theorem recordText_strings (l : Line) :
    recordText (paramNames l.header) l.text = Char.ofNat l.level :: strings l :=
  l.recordText_line

theorem length_strings (l : Line) : (strings l).length + 12 < 2 ^ 31 := by
  have h := l.length_record
  rw [recordText_strings, List.length_cons] at h
  omega

theorem wire_eq (n : Int × Int × Int) (l : Line) :
    l.wire (idBytes n) = be32 ((strings l).length + 12) ++ (idBytes n ++ strings l) := by
  have hlen : (((strings l).length + 1 : Nat) - 1 + 12 : Int) = (strings l).length + 12 := by omega
  have hid : (idBytes n).take 12 = idBytes n := rfl
  rw [Line.wire, recordText_strings, List.length_cons, hlen, hid, List.drop_one, List.tail_cons,
    List.append_assoc]

/-- The length of a mail on the wire, read back. -/
theorem ofBe32_wire (n : Int × Int × Int) (l : Line) (rest : Text) :
    ofBe32 (l.wire (idBytes n) ++ rest) = (strings l).length + 12 := by
  have := length_strings l
  rw [wire_eq, List.append_assoc, ofBe32_append]
  exact int32_of_range (by omega) (by omega)

theorem drop_wire (n : Int × Int × Int) (l : Line) (rest : Text) :
    (l.wire (idBytes n) ++ rest).drop 16 = strings l ++ rest := by
  rw [wire_eq]
  rfl

theorem cstr_strings (l : Line) (rest : Text) : cstr (strings l ++ rest) = l.box := by
  rw [strings, List.append_assoc]
  exact cstr_append l.nul_not_mem_box _

/-- A mail on the wire is read whole, or a string does not fit. -/
theorem makeMail_wire (n : Int × Int × Int) (l : Line) (rest : Text) (node : MailNode) :
    makeMail (l.wire (idBytes n) ++ rest) = some node ↔
      (l.box.length ≤ 127 ∧ ∀ s ∈ l.segments, Fits s) ∧ decoded n l = node := by
  have hid : readTaskId ((l.wire (idBytes n) ++ rest).drop 4)
      = ⟨toUnsigned n.1, toUnsigned n.2.1, toUnsigned n.2.2⟩ := by
    rw [wire_eq, List.append_assoc, List.drop_left' (length_be32 _), List.append_assoc]
    exact readTaskId_idBytes n _
  rw [makeMail, drop_wire, cstr_strings, hid, ofBe32_wire]
  by_cases hbox : 127 < l.box.length
  · rw [if_pos hbox]
    exact iff_of_false (nomatch ·) fun h => Nat.not_le_of_lt hbox h.1.1
  · have hbox' := Nat.le_of_not_lt hbox
    have hlen : ((strings l).length : Int)
        = (l.box.length + 1 + (l.segments.map (· ++ [nul])).flatten.length : Nat) := by
      rw [strings, List.length_append, List.length_cons]
      omega
    have hsplit := splitVariable_eq_some_iff l.nul_not_mem_box hbox'
      (fun s hs => l.nul_not_mem_segment hs) rest
    rw [if_neg hbox, hlen, strings, List.append_assoc, List.cons_append, Option.map_eq_some_iff]
    constructor
    · rintro ⟨vars, hv, rfl⟩
      obtain ⟨hfit, rfl⟩ := (hsplit vars).mp hv
      exact ⟨⟨hbox', hfit⟩, rfl⟩
    · rintro ⟨⟨-, hfit⟩, rfl⟩
      exact ⟨l.mapVariable, (hsplit _).mpr ⟨hfit, rfl⟩, rfl⟩

theorem arrives_decoded_iff (n : Int × Int × Int) (l : Line) :
    Arrives n l (decoded n l) ↔ ∀ i c f, l.Has i c f → l.mapVariable.find c = some f :=
  ⟨fun h => h.fields, fun h => ⟨rfl, rfl, h⟩⟩

/-- A mail of a response: a line of the task `id`, the list as it was when the line was read, and
what was written behind its record before the mail was sent. -/
structure SentMail where
  id : Int × Int × Int
  before : MailList
  line : Line
  later : List (List Text × Nat × Text)

namespace SentMail
variable (m : SentMail)

/-- The records that go into the list, that of the line first. -/
def records : List (List Text × Nat × Text) :=
  (paramNames m.line.header, m.line.level, m.line.body) :: m.later

/-- The list the mail is sent from, unless a record has run over its block. -/
def list : Option MailList :=
  m.records.foldlM (fun p r => p.writeRecord r.1 r.2.1 r.2.2) m.before

/-- What the daemon sends for the mail. -/
def response : Option Text :=
  m.list.map fun p => p.response (idBytes m.id) ⟨m.before.sMailboxList.length, none⟩

/-- The records fit the block. -/
def FitsBlock : Prop :=
  m.before.mailBlock.HoldsAll
    (m.records.map fun r => (record r.1 (Char.ofNat r.2.1 :: r.2.2)).length)

/-- The bytes of the line. -/
def wire : Text := m.line.wire (idBytes m.id)

theorem response_eq_some_iff {m : SentMail} {text : Text} :
    m.response = some text ↔ m.FitsBlock ∧ m.wire = text := by
  rw [response, Option.map_eq_some_iff]
  simp only [list, foldlM_writeRecord_eq_some_iff, and_assoc]
  have hstored : Stored (m.records.foldl (fun p r => p.addRecord r.1 r.2.1 r.2.2) m.before)
      ⟨m.before.sMailboxList.length, none⟩ (paramNames m.line.header) m.line.text :=
    (stored_addRecord m.before _ _ _).foldl m.later
  have hwire := hstored.response (idBytes m.id)
  constructor
  · rintro ⟨_, hfits, rfl, rfl⟩
    exact ⟨hfits, hwire.symm⟩
  · rintro ⟨hfits, rfl⟩
    exact ⟨_, hfits, rfl, hwire⟩

end SentMail

/-- A list of mails on the wire is read whole, or a string does not fit. -/
theorem makeMailList_response (mails : List SentMail) (rest : Text)
    (nodes : List (Option MailNode)) :
    makeMailList mails.length ((mails.map SentMail.wire).flatten ++ rest) = some nodes ↔
      (∀ m ∈ mails, m.line.box.length ≤ 127 ∧ ∀ s ∈ m.line.segments, Fits s) ∧
        (mails.map fun m =>
          if 3000000 < toUnsigned m.id.1 then none else some (decoded m.id m.line)) = nodes := by
  induction mails generalizing nodes with
  | nil =>
      rw [List.length_nil, makeMailList, Option.some.injEq]
      exact ⟨fun h => ⟨fun _ h => (nomatch h), h⟩, fun h => h.2⟩
  | cons m mails ih =>
      have hdrop :
          (m.line.wire (idBytes m.id) ++ ((mails.map SentMail.wire).flatten ++ rest)).drop
          (4 + ((strings m.line).length + 12 : Int).toNat)
            = (mails.map SentMail.wire).flatten ++ rest := by
        refine List.drop_left' ?_
        have hid : (idBytes m.id).length = 12 := rfl
        rw [wire_eq, List.length_append, List.length_append, length_be32, hid]
        omega
      rw [List.length_cons, List.map_cons, List.flatten_cons, List.append_assoc, SentMail.wire,
        makeMailList, ofBe32_wire, if_neg (by omega), hdrop, Option.bind_eq_some_iff]
      simp only [Option.map_eq_some_iff, ih, makeMail_wire, List.forall_mem_cons, List.map_cons]
      constructor
      · rintro ⟨_, ⟨hm, rfl⟩, _, ⟨hms, rfl⟩, rfl⟩
        exact ⟨⟨hm, hms⟩, rfl⟩
      · rintro ⟨⟨hm, hms⟩, rfl⟩
        exact ⟨_, ⟨hm, rfl⟩, _, ⟨hms, rfl⟩, rfl⟩

/-- The bytes of any number of mails are read as exactly these mails, in order, if and only if every
line is sound and of a task the reader takes. -/
theorem wires_iff (mails : List SentMail) :
    (∃ nodes : List MailNode,
      makeMailList mails.length (mails.map SentMail.wire).flatten = some (nodes.map some) ∧
        List.Forall₂ (fun m node => Arrives m.id m.line node) mails nodes) ↔
      ∀ m ∈ mails, m.line.Sound ∧ toUnsigned m.id.1 ≤ 3000000 := by
  have hread := makeMailList_response mails []
  rw [List.append_nil] at hread
  constructor
  · rintro ⟨nodes, hn, harr⟩
    obtain ⟨hfit, hnodes⟩ := (hread _).mp hn
    have hid : ∀ m ∈ mails, toUnsigned m.id.1 ≤ 3000000 := fun m hm => by
      by_contra hlt
      have hnone : none ∈ nodes.map some :=
        hnodes ▸ List.mem_map.mpr ⟨m, hm, if_pos (Nat.lt_of_not_le hlt)⟩
      obtain ⟨_, -, h⟩ := List.mem_map.mp hnone
      exact nomatch h
    have hdec : mails.map (fun m => decoded m.id m.line) = nodes := by
      refine List.map_injective_iff.mpr (fun _ _ => Option.some.inj) ?_
      rw [← hnodes, List.map_map]
      refine List.map_congr_left fun m hm => ?_
      rw [if_neg (Nat.not_lt_of_le (hid m hm))]
      rfl
    rw [← hdec, List.forall₂_map_right_iff, List.forall₂_same] at harr
    exact fun m hm => ⟨m.line.sound_iff.mpr ⟨(hfit m hm).1, (hfit m hm).2,
      (arrives_decoded_iff _ _).mp (harr m hm)⟩, hid m hm⟩
  · intro h
    refine ⟨mails.map fun m => decoded m.id m.line, (hread _).mpr ⟨fun m hm => ?_, ?_⟩, ?_⟩
    · obtain ⟨hbox, hfit, -⟩ := m.line.sound_iff.mp (h m hm).1
      exact ⟨hbox, hfit⟩
    · rw [List.map_map]
      refine List.map_congr_left fun m hm => ?_
      rw [if_neg (Nat.not_lt_of_le (h m hm).2)]
      rfl
    · rw [List.forall₂_map_right_iff, List.forall₂_same]
      exact fun m hm => (arrives_decoded_iff _ _).mpr (m.line.sound_iff.mp (h m hm).1).2.2

/-- What is sent for the mails: the bytes of their lines, if the records fit. -/
theorem responses_iff (mails : List SentMail) (texts : List Text) :
    List.Forall₂ (fun m text => m.response = some text) mails texts ↔
      (∀ m ∈ mails, m.FitsBlock) ∧ mails.map SentMail.wire = texts := by
  simp only [SentMail.response_eq_some_iff]
  rw [List.forall₂_and_left, ← List.forall₂_map_left_iff (R := (· = ·)), List.forall₂_eq_eq_eq]

/-- A response of any number of mails is read as exactly these mails, in order, if and only if
every record fits its block and every line is sound and of a task the reader takes. -/
theorem mail_list_iff (mails : List SentMail) :
    (∃ (texts : List Text) (nodes : List MailNode),
      List.Forall₂ (fun m text => m.response = some text) mails texts ∧
        makeMailList mails.length texts.flatten = some (nodes.map some) ∧
          List.Forall₂ (fun m node => Arrives m.id m.line node) mails nodes) ↔
      (∀ m ∈ mails, m.FitsBlock) ∧ ∀ m ∈ mails, m.line.Sound ∧ toUnsigned m.id.1 ≤ 3000000 := by
  rw [← wires_iff]
  simp only [responses_iff]
  constructor
  · rintro ⟨_, nodes, ⟨hfits, rfl⟩, hread⟩
    exact ⟨hfits, nodes, hread⟩
  · rintro ⟨hfits, nodes, hread⟩
    exact ⟨_, nodes, ⟨hfits, rfl⟩, hread⟩

/-- The subscriber line `a@b.c,x$y` under the columns `mail,name`. -/
def dollarLine : Line where
  header := "mail,name".toList
  body := "a@b.c,x$y".toList
  level := 5
  header_length := by decide
  body_length := by decide
  header_clean := by simp [nul]
  body_clean := by simp [nul]
  mailbox := by decide
  comma := by decide
  fields_le := by decide
  level_mem := Or.inl rfl

def dollarMail : SentMail where
  id := (1, 2, 3)
  before := MailList.empty []
  line := dollarLine
  later := []

/-- The value `x$y` arrives as `x`. -/
theorem dollar_cuts_value : dollarMail.response = some dollarMail.wire ∧
    ¬ ∃ nodes : List MailNode, makeMailList 1 dollarMail.wire = some (nodes.map some) ∧
      List.Forall₂ (fun m node => Arrives m.id m.line node) [dollarMail] nodes := by
  refine ⟨SentMail.response_eq_some_iff.mpr ⟨?_, rfl⟩, ?_⟩
  · exact ⟨by decide +kernel, trivial⟩
  rintro ⟨nodes, hn, harr⟩
  obtain ⟨node, _, ha, _, rfl⟩ := List.forall₂_cons_left_iff.mp harr
  have hx : node.mapVariable.find "name".toList = some "x$y".toList :=
    ha.fields 0 _ _ ⟨by decide, by decide⟩
  have hread : (makeMailList 1 dollarMail.wire).map (fun nodes => nodes.map fun node =>
      node.bind fun node => node.mapVariable.find "name".toList) = some [some "x".toList] := by
    decide +kernel
  rw [hn, Option.map_some, List.map_cons, List.map_cons, Option.bind_some, hx] at hread
  exact absurd hread (by simp)

end Edm.Deliver
