import Edm.Deliver.Template

/-!
# Deliver — Merge

What merging a template should be: outside the rows to repeat, the placeholders of the template are
replaced by the values of their names, all at once (`substitute`, `Merged`).

`MakeMailText` replaces one name after another in the text as it grows, so it replaces whatever
reads like a placeholder when the turn of its name comes: also one that values brought along or
made up together with the text around them, and one that shares a `$` with another.  `Clean` says
that this does not happen.  Then the mail is merged (`merged_of_clean`), with the values that are
no columns of a table.
-/

namespace Edm.Deliver
open Support

/-! ### Variables -/

/-- The names and values are C strings. -/
def IsVariables (vars : StdMap Text Text) : Prop := ∀ e ∈ vars.entries, nul ∉ e.1 ∧ nul ∉ e.2

theorem IsVariables.set {vars : StdMap Text Text} (h : IsVariables vars) {kv : Text × Text}
    (hkv : nul ∉ kv.1 ∧ nul ∉ kv.2) : IsVariables (vars.set kv.1 kv.2) := by
  intro e he
  have hfind := StdMap.find_eq_some_iff.mpr he
  rw [StdMap.find_set] at hfind
  split at hfind
  next hk => rwa [hk, ← Option.some.inj hfind]
  next => exact h e (StdMap.find_eq_some_iff.mp hfind)

theorem nul_not_mem_scanVariable {tmp : Text} {kv : Text × Text} (hnul : nul ∉ tmp)
    (h : scanVariable tmp = some kv) : nul ∉ kv.1 ∧ nul ∉ kv.2 := by
  rw [scanVariable] at h
  split at h
  next => exact Option.some.inj h ▸ ⟨List.not_mem_nil, List.not_mem_nil⟩
  next =>
    split at h
    next => cases h
    next =>
      obtain rfl := Option.some.inj h
      refine ⟨fun hc => hnul ?_, fun hc => hnul ?_⟩
      · exact (List.dropWhile_suffix _).subset ((List.takeWhile_prefix _).subset hc)
      · exact ((List.drop_suffix _ _).trans ((List.dropWhile_suffix _).trans
          (List.dropWhile_suffix _))).subset ((List.takeWhile_prefix _).subset hc)

theorem splitLoop_isVariables {n : Nat} {mem p : Text} {seen : Bool}
    {vars vars₁ : StdMap Text Text} (h : splitLoop n mem p seen vars = some vars₁)
    (hvars : IsVariables vars) : IsVariables vars₁ := by
  induction n generalizing mem p seen vars with
  | zero => exact Option.some.inj h ▸ hvars
  | succ n ih =>
      rw [splitLoop] at h
      split at h
      · split at h
        · cases h
        · split at h
          · obtain ⟨kv, hkv, h⟩ := Option.bind_eq_some_iff.mp h
            have hnul : nul ∉ cstr p := fun hc => absurd (List.mem_takeWhile_imp hc) (by simp)
            exact ih h (hvars.set (nul_not_mem_scanVariable hnul hkv))
          · exact ih h hvars
      · exact ih h hvars

/-- The variables of a mail are C strings. -/
theorem splitVariable_isVariables {mem : Text} {mailLength : Int} {vars : StdMap Text Text}
    (h : splitVariable mem mailLength = some vars) : IsVariables vars := by
  rw [splitVariable] at h
  split at h
  · cases h
  · exact splitLoop_isVariables h (by simp [IsVariables, StdMap.empty])

/-! ### The merged template -/

/-- The placeholders of a text, given by its parts between `$`.  One takes both its `$`. -/
def readTemplateFrom (isName : Text → Bool) : List Text → List (Piece Text Char)
  | [] => []
  | [f] => [.lit ('$' :: f)]
  | f :: g :: fs =>
      if isName f then .hole f :: .lit g :: readTemplateFrom isName fs
      else .lit ('$' :: f) :: readTemplateFrom isName (g :: fs)

/-- A text as a template, read from left to right. -/
def readTemplate (isName : Text → Bool) (s : Text) : List (Piece Text Char) :=
  match s.splitOn '$' with
  | [] => []
  | f :: fs => .lit f :: readTemplateFrom isName fs

/-- The simultaneous substitution of the values given for the names. -/
def substitute (values : List (Text × Text)) (s : Text) : Text :=
  render (fun k => (firstValue k values).getD [])
    (readTemplate (fun k => (firstValue k values).isSome) s)

/-- Outside the rows to repeat the text is the substituted template. -/
def Merged (values : List (Text × Text)) (template_text mail_text : Text) : Prop :=
  ∃ row : Text → Text, mail_text
    = (rows template_text).flatMap fun s => if s.1 then row s.2 else substitute values s.2

/-! ### Templates read and written -/

theorem render_readTemplateFrom (isName : Text → Bool) : ∀ fs : List Text,
    render placeholder (readTemplateFrom isName fs) = fs.flatMap ('$' :: ·)
  | [] => rfl
  | [f] => rfl
  | f :: g :: fs => by
      rw [readTemplateFrom]
      split
      · have ih := render_readTemplateFrom isName fs
        simp only [render, List.flatMap_cons, Piece.text, placeholder] at ih ⊢
        simp only [ih, List.cons_append, List.append_assoc, List.nil_append]
      · have ih := render_readTemplateFrom isName (g :: fs)
        simp only [render, List.flatMap_cons, Piece.text] at ih ⊢
        rw [ih]

/-- A template shows the text it was read from. -/
theorem render_readTemplate (isName : Text → Bool) (s : Text) :
    render placeholder (readTemplate isName s) = s := by
  have hsplit : ∀ s : Text, ∃ f fs, s.splitOn '$' = f :: fs ∧ f ++ fs.flatMap ('$' :: ·) = s := by
    intro s
    induction s using split_induction '$' with
    | last s hs => exact ⟨s, [], List.splitOn_eq_singleton hs, List.append_nil s⟩
    | more s t hs ih =>
        obtain ⟨f, fs, hf, hflat⟩ := ih
        refine ⟨s, f :: fs, by rw [splitOn_more hs, hf], ?_⟩
        rw [List.flatMap_cons, List.cons_append, hflat]
  obtain ⟨f, fs, hf, hflat⟩ := hsplit s
  rw [readTemplate, hf]
  simp only [render, List.flatMap_cons, Piece.text]
  rw [← hflat]
  exact congrArg (f ++ ·) (render_readTemplateFrom isName fs)

theorem isName_of_mem_readTemplateFrom {isName : Text → Bool} {k : Text} : ∀ {fs : List Text},
    Piece.hole k ∈ readTemplateFrom isName fs → isName k = true
  | [], h => nomatch h
  | [f], h => by simp [readTemplateFrom] at h
  | f :: g :: fs, h => by
      rw [readTemplateFrom] at h
      split at h
      next hf =>
        simp only [List.mem_cons, Piece.hole.injEq, reduceCtorEq, false_or] at h
        rcases h with rfl | h
        · exact hf
        · exact isName_of_mem_readTemplateFrom h
      next =>
        simp only [List.mem_cons, reduceCtorEq, false_or] at h
        exact isName_of_mem_readTemplateFrom h

theorem isName_of_mem_readTemplate {isName : Text → Bool} {k s : Text}
    (h : Piece.hole k ∈ readTemplate isName s) : isName k = true := by
  rw [readTemplate] at h
  split at h
  · cases h
  · exact isName_of_mem_readTemplateFrom ((List.mem_cons.mp h).resolve_left (by simp))

/-- A hole of a template stands in its text. -/
theorem placeholder_isInfix {isName : Text → Bool} {k s : Text}
    (h : Piece.hole k ∈ readTemplate isName s) : placeholder k <:+: s := by
  have hs := mark_infix_of_mem placeholder h
  rwa [render_readTemplate] at hs

theorem strcasestr_suffix {t b : Text} : ∀ {s : Text}, strcasestr t s = some b → b <:+ s
  | [], h => by
      rw [strcasestr] at h
      split at h
      · exact Option.some.inj h ▸ List.suffix_refl _
      · cases h
  | c :: s, h => by
      rw [strcasestr] at h
      split at h
      · exact Option.some.inj h ▸ List.suffix_refl _
      · exact (strcasestr_suffix h).trans (List.suffix_cons c s)

theorem flatMap_rowsFrom : ∀ (fuel : Nat) (before s : Text),
    (rowsFrom fuel before s).flatMap Prod.snd = before ++ s
  | 0, before, s => by simp [rowsFrom]
  | fuel + 1, before, s => by
      rw [rowsFrom]
      cases hb : strcasestr "<tr ".toList s with
      | none => simp
      | some b =>
          obtain ⟨front, rfl⟩ := strcasestr_suffix hb
          have hlen : (front ++ b).length - b.length = front.length := by simp
          dsimp only
          cases rowTag (b.drop 4) with
          | none => simp
          | some r =>
              obtain ⟨isRow, n⟩ := r
              cases isRow with
              | false =>
                  dsimp only
                  rw [flatMap_rowsFrom fuel, hlen, List.take_length_add_append]
                  simp only [List.append_assoc, List.take_append_drop]
              | true =>
                  dsimp only
                  rw [List.flatMap_cons, List.flatMap_cons, flatMap_rowsFrom fuel, hlen,
                    List.take_left]
                  simp only [List.nil_append, List.append_assoc, List.take_append_drop]

/-- The rows and the text between them are the whole text. -/
theorem flatMap_rows (s : Text) : (rows s).flatMap Prod.snd = s := flatMap_rowsFrom _ _ _

/-! ### Clean templates -/

/-- The loop over the variables does not replace this one: its value is a column, or its name is
empty. -/
def passedOver (e : Text × Text) : Bool := e.1.isEmpty || e.2.contains '|'

/-- The variables that are no columns. -/
def literals (vars : StdMap Text Text) : List (Text × Text) :=
  vars.entries.filter fun e => !passedOver e

/-- The loop over the variables replaces this one. -/
def isReplaced (template_text : Text) (e : Text × Text) : Bool :=
  !passedOver e && occursIn e.1 template_text

def isReplacedBuiltin (template_text : Text) (e : Text × Text) : Bool :=
  occursIn (placeholder e.1) template_text

/-- The columns of the table. -/
def columns (vars : StdMap Text Text) : Tables :=
  vars.entries.foldl (fun tables e => (tableFirstStep e.1 e.2 tables).getD tables) .empty

section Clean

variable (template_text : Text) (vars : StdMap Text Text) (mail sTime2 : Text)

/-- The variables that are replaced, in their order. -/
def replaced : List (Text × Text) :=
  vars.entries.filter (isReplaced template_text)

/-- The placeholders of the engine that are replaced, in their order. -/
def replacedBuiltins : List (Text × Text) :=
  (builtins mail sTime2).filter (isReplacedBuiltin template_text)

/-- A part of the template, with its placeholders. -/
def piecesOf (s : Bool × Text) : List (Piece Text Char) :=
  readTemplate (fun k => (firstValue k (literals vars ++ builtins mail sTime2)).isSome) s.2

/-- The part behind the loop over the variables. -/
def filledOf (s : Bool × Text) : List (Piece Text Char) :=
  fills (replaced template_text vars) (piecesOf vars mail sTime2 s)

/-- The part behind `table_second_step`: a repeated row may show placeholders of the engine. -/
def repeatedOf (s : Bool × Text) : List (Piece Text Char) :=
  if s.1 && !(columns vars).entries.isEmpty then
    readTemplate (fun k => (firstValue k (builtins mail sTime2)).isSome)
      (repeatRow (columns vars) (render placeholder (filledOf template_text vars mail sTime2 s)))
  else filledOf template_text vars mail sTime2 s

/-- The template keeps its placeholders apart while they are replaced. -/
structure Clean : Prop where
  name : ∀ e ∈ vars.entries, e.1.length ≤ 125
  variable_ : ClearAll placeholder (replaced template_text vars)
    ((rows template_text).flatMap (piecesOf vars mail sTime2))
  row : (columns vars).entries ≠ [] →
    rows (render placeholder
      ((rows template_text).flatMap (filledOf template_text vars mail sTime2)))
      = (rows template_text).map fun s =>
          (s.1, render placeholder (filledOf template_text vars mail sTime2 s))
  builtin : ClearAll placeholder (replacedBuiltins template_text mail sTime2)
    ((rows template_text).flatMap (repeatedOf template_text vars mail sTime2))

end Clean

/-! ### The loops -/

/-- Replacing a placeholder fills its holes. -/
theorem strReplace_render {k v : Text} {ps : List (Piece Text Char)}
    (h : placeholder k = v ∨ ClearFrom placeholder k v [] ps) : ∃ fuel, ∀ n, fuel ≤ n →
      strReplace n (render placeholder ps) (placeholder k) v
        = some (render placeholder (fill k v ps)) := by
  by_cases hkv : placeholder k = v
  · refine ⟨0, fun n _ => ?_⟩
    rw [strReplace, if_pos hkv, fill, render, render, List.flatMap_map]
    refine congrArg some (List.flatMap_congr fun p _ => ?_)
    cases p with
    | lit t => rfl
    | hole k' =>
        rw [Piece.put]
        split
        next hk => rw [Piece.text, Piece.text, hk, hkv]
        next => rfl
  · have hne : placeholder k ≠ [] := List.cons_ne_nil _ _
    obtain ⟨fuel, hfuel⟩ := replaceLoop_render hne (h.resolve_left hkv)
    refine ⟨fuel, fun n hn => ?_⟩
    rw [strReplace, if_neg hkv]
    exact replaceLoop_mono hn hfuel

/-- The loop over the placeholders of the engine. -/
theorem mergeBuiltins {template_text : Text} : ∀ {l : List (Text × Text)}
    {ps : List (Piece Text Char)},
    ClearAll placeholder (l.filter (isReplacedBuiltin template_text)) ps →
    ∃ fuel, ∀ n, fuel ≤ n →
      l.foldlM (mergeBuiltin n template_text) (render placeholder ps) = some (render placeholder
        (fills (l.filter (isReplacedBuiltin template_text)) ps))
  | [], _, _ => ⟨0, fun _ _ => rfl⟩
  | e :: l, ps, h => by
      by_cases he : isReplacedBuiltin template_text e = true
      · rw [List.filter_cons_of_pos he] at h ⊢
        obtain ⟨fuel₁, h₁⟩ := strReplace_render h.1
        obtain ⟨fuel₂, h₂⟩ := mergeBuiltins h.2
        refine ⟨max fuel₁ fuel₂, fun n hn => ?_⟩
        rw [isReplacedBuiltin] at he
        rw [List.foldlM_cons, mergeBuiltin, if_pos he, h₁ n (le_trans (le_max_left _ _) hn)]
        exact h₂ n (le_trans (le_max_right _ _) hn)
      · rw [List.filter_cons_of_neg he] at h ⊢
        obtain ⟨fuel, h⟩ := mergeBuiltins h
        refine ⟨fuel, fun n hn => ?_⟩
        rw [isReplacedBuiltin] at he
        rw [List.foldlM_cons, mergeBuiltin, if_neg he]
        exact h n hn

theorem tableFirstStep_eq_none {e : Text × Text} (h : passedOver e = false) (tables : Tables) :
    tableFirstStep e.1 e.2 tables = none := by
  rw [passedOver, Bool.or_eq_false_iff] at h
  rw [tableFirstStep, h.1, h.2]
  rfl

/-- What the loop does at a variable whose name and value are C strings. -/
theorem mergeVariable_eq {e : Text × Text} (hkey : nul ∉ e.1) (hvalue : nul ∉ e.2)
    (hlen : e.1.length ≤ 125) (n : Nat) (template_text mail_text : Text) (tables : Tables)
    (random : Int) : ∃ random',
      mergeVariable n template_text ⟨mail_text, tables, random⟩ e
        = (if isReplaced template_text e then
            strReplace n mail_text (placeholder e.1) e.2
          else some mail_text).map fun mail_text =>
            ⟨mail_text, (tableFirstStep e.1 e.2 tables).getD tables, random'⟩ := by
  rw [mergeVariable, cstr_self hkey, cstr_self hvalue]
  by_cases hempty : e.1.isEmpty = true
  · have hpassed : passedOver e = true := by rw [passedOver, hempty]; rfl
    have hnone : tableFirstStep e.1 e.2 tables = none := by rw [tableFirstStep, hempty]; rfl
    refine ⟨random, ?_⟩
    rw [if_pos hempty, isReplaced, hpassed, hnone]
    rfl
  · rw [if_neg hempty, if_neg (Nat.not_lt.mpr hlen)]
    refine ⟨if e.1 = "iedm_ran".toList then atoi e.2 else random, ?_⟩
    dsimp only
    cases ht : tableFirstStep e.1 e.2 tables with
    | some t =>
        have hpassed : passedOver e = true := by
          by_contra hne
          rw [tableFirstStep_eq_none (Bool.eq_false_iff.mpr hne)] at ht
          cases ht
        rw [isReplaced, hpassed]
        rfl
    | none =>
        have hpassed : passedOver e = false := by
          rw [tableFirstStep] at ht
          split at ht
          next h =>
            rw [Bool.eq_false_iff.mpr hempty, Bool.false_or, Bool.not_eq_true'] at h
            rw [passedOver, Bool.eq_false_iff.mpr hempty, h]
            rfl
          next => cases ht
        rw [isReplaced, hpassed]
        dsimp only
        cases occursIn e.1 template_text <;> rfl

/-- The loop over the variables. -/
theorem mergeVariables {template_text : Text} : ∀ {l : List (Text × Text)}
    {ps : List (Piece Text Char)},
    (∀ e ∈ l, nul ∉ e.1 ∧ nul ∉ e.2 ∧ e.1.length ≤ 125) →
    ClearAll placeholder (l.filter (isReplaced template_text)) ps →
    ∃ fuel, ∀ n, fuel ≤ n → ∀ tables random, ∃ random',
      l.foldlM (mergeVariable n template_text) ⟨render placeholder ps, tables, random⟩
        = some ⟨render placeholder
            (fills (l.filter (isReplaced template_text)) ps),
          l.foldl (fun tables e => (tableFirstStep e.1 e.2 tables).getD tables) tables, random'⟩
  | [], _, _, _ => ⟨0, fun _ _ _ random => ⟨random, rfl⟩⟩
  | e :: l, ps, hl, h => by
      obtain ⟨⟨hkey, hvalue, hlen⟩, hl⟩ := List.forall_mem_cons.mp hl
      by_cases he : isReplaced template_text e = true
      · rw [List.filter_cons_of_pos he] at h ⊢
        obtain ⟨fuel₁, h₁⟩ := strReplace_render h.1
        obtain ⟨fuel₂, h₂⟩ := mergeVariables hl h.2
        refine ⟨max fuel₁ fuel₂, fun n hn tables random => ?_⟩
        obtain ⟨random₁, hstep⟩ := mergeVariable_eq hkey hvalue hlen n template_text
          (render placeholder ps) tables random
        rw [if_pos he, h₁ n (le_trans (le_max_left _ _) hn)] at hstep
        rw [List.foldlM_cons, hstep]
        exact h₂ n (le_trans (le_max_right _ _) hn) _ random₁
      · rw [List.filter_cons_of_neg he] at h ⊢
        obtain ⟨fuel, h⟩ := mergeVariables hl h
        refine ⟨fuel, fun n hn tables random => ?_⟩
        obtain ⟨random₁, hstep⟩ := mergeVariable_eq hkey hvalue hlen n template_text
          (render placeholder ps) tables random
        rw [if_neg he] at hstep
        rw [List.foldlM_cons, hstep]
        exact h n hn _ random₁

/-! ### The whole mail -/

theorem firstValue_filter {k : Text} {p : Text × Text → Bool} {l : List (Text × Text)}
    (hp : ∀ e ∈ l, e.1 = k → p e = true) : firstValue k (l.filter p) = firstValue k l := by
  induction l with
  | nil => rfl
  | cons e l ih =>
      obtain ⟨he, hl⟩ := List.forall_mem_cons.mp hp
      by_cases hk : k = e.1
      · rw [List.filter_cons_of_pos (he hk.symm), firstValue, firstValue, if_pos hk, if_pos hk]
      · rw [List.filter_cons, firstValue, if_neg hk]
        split
        · rw [firstValue, if_neg hk, ih hl]
        · exact ih hl

theorem firstValue_append {k : Text} {l₁ l₂ : List (Text × Text)} :
    firstValue k (l₁ ++ l₂) = (firstValue k l₁).or (firstValue k l₂) := by
  induction l₁ with
  | nil => rfl
  | cons e l₁ ih =>
      rw [List.cons_append, firstValue, firstValue]
      split
      · rfl
      · exact ih

section Merged

variable {template_text : Text} {vars : StdMap Text Text} {mail sTime2 : Text}

/-- Each placeholder of the template is filled, with its value. -/
theorem value_of_hole {s : Bool × Text} (hs : s ∈ rows template_text) {k : Text}
    (hk : Piece.hole k ∈ piecesOf vars mail sTime2 s) :
    firstValue k (replaced template_text vars ++ replacedBuiltins template_text mail sTime2)
      = some ((firstValue k (literals vars ++ builtins mail sTime2)).getD []) := by
  have hin : placeholder k <:+: template_text := by
    refine (placeholder_isInfix hk).trans ?_
    obtain ⟨a, b, hab⟩ := List.append_of_mem hs
    have hflat := flatMap_rows template_text
    rw [hab, List.flatMap_append, List.flatMap_cons] at hflat
    exact ⟨_, _, by rw [← hflat, List.append_assoc]⟩
  have hreplaced : firstValue k (replaced template_text vars) = firstValue k (literals vars) := by
    have hfilter : replaced template_text vars
        = (literals vars).filter fun e => occursIn e.1 template_text := by
      rw [literals, List.filter_comm, List.filter_filter]
      rfl
    rw [hfilter]
    refine firstValue_filter ?_
    rintro e - rfl
    exact (occursIn_iff _ _).mpr (List.IsInfix.trans ⟨['$'], ['$'], rfl⟩ hin)
  have hbuiltin : firstValue k (replacedBuiltins template_text mail sTime2)
      = firstValue k (builtins mail sTime2) := by
    refine firstValue_filter ?_
    rintro e - rfl
    exact (occursIn_iff _ _).mpr hin
  obtain ⟨v, hv⟩ := Option.isSome_iff_exists.mp (isName_of_mem_readTemplate hk)
  rw [firstValue_append, hreplaced, hbuiltin, ← firstValue_append, hv]
  rfl

theorem tableSecondStep_of_columns {tables : Tables} (h : tables.entries.isEmpty = false)
    (html : Text) : tableSecondStep html tables
      = (rows html).flatMap fun s => if s.1 then repeatRow tables s.2 else s.2 := by
  rw [tableSecondStep, h, Bool.or_false]
  cases html with
  | nil => rfl
  | cons c html => rfl

/-- `table_second_step` repeats the rows of the template. -/
theorem tableSecondStep_eq (h : Clean template_text vars mail sTime2) :
    tableSecondStep (render placeholder ((rows template_text).flatMap
        (filledOf template_text vars mail sTime2))) (columns vars)
      = render placeholder ((rows template_text).flatMap
          (repeatedOf template_text vars mail sTime2)) := by
  rw [render_flatMap placeholder (repeatedOf template_text vars mail sTime2)]
  by_cases hempty : (columns vars).entries.isEmpty = true
  · rw [tableSecondStep, hempty, Bool.or_true, if_pos rfl, render_flatMap]
    refine List.flatMap_congr fun s _ => ?_
    rw [repeatedOf, hempty, Bool.not_true, Bool.and_false, if_neg Bool.false_ne_true]
  · have hrow := h.row fun hnil => hempty (List.isEmpty_iff.mpr hnil)
    rw [tableSecondStep_of_columns (Bool.eq_false_iff.mpr hempty), hrow, List.flatMap_map]
    refine List.flatMap_congr fun s _ => ?_
    rw [repeatedOf, Bool.eq_false_iff.mpr hempty, Bool.not_false, Bool.and_true]
    cases s.1 with
    | false => rfl
    | true => exact (render_readTemplate _ _).symm

/-- A clean template is merged, from some fuel on. -/
theorem merged_of_clean (hvars : IsVariables vars) (h : Clean template_text vars mail sTime2)
    (random : Int) : ∃ fuel mail_text,
      Merged (literals vars ++ builtins mail sTime2) template_text mail_text ∧
      ∀ n, fuel ≤ n → ∃ random',
        makeMailText n template_text vars mail sTime2 random = some (mail_text, random') := by
  have hread : render placeholder ((rows template_text).flatMap (piecesOf vars mail sTime2))
      = template_text := by
    rw [render_flatMap]
    conv_rhs => rw [← flatMap_rows template_text]
    exact List.flatMap_congr fun s _ => render_readTemplate _ s.2
  obtain ⟨fuel₁, h₁⟩ := mergeVariables
    (fun e he => ⟨(hvars e he).1, (hvars e he).2, h.name e he⟩) h.variable_
  obtain ⟨fuel₂, h₂⟩ := mergeBuiltins h.builtin
  refine ⟨max fuel₁ fuel₂, render placeholder (fills (replacedBuiltins template_text mail sTime2)
    ((rows template_text).flatMap (repeatedOf template_text vars mail sTime2))), ?_, ?_⟩
  · refine ⟨fun t => render placeholder (fills (replacedBuiltins template_text mail sTime2)
      (repeatedOf template_text vars mail sTime2 (true, t))), ?_⟩
    rw [fills_flatMap, render_flatMap]
    refine List.flatMap_congr fun s hs => ?_
    obtain ⟨isRow, t⟩ := s
    cases isRow with
    | true => rfl
    | false =>
        rw [repeatedOf, Bool.false_and, if_neg Bool.false_ne_true, filledOf, ← fills_append]
        exact render_fills fun k hk => value_of_hole hs hk
  · intro n hn
    obtain ⟨random', hloop⟩ := h₁ n (le_trans (le_max_left _ _) hn) .empty random
    rw [hread, fills_flatMap] at hloop
    have hloop : vars.entries.foldlM (mergeVariable n template_text)
        ⟨template_text, .empty, random⟩ = some ⟨render placeholder ((rows template_text).flatMap
          (filledOf template_text vars mail sTime2)), columns vars, random'⟩ := hloop
    refine ⟨random', ?_⟩
    rw [makeMailText, hloop, Option.bind_some, tableSecondStep_eq h,
      h₂ n (le_trans (le_max_right _ _) hn)]
    rfl

end Merged

/-- A variable whose value is a column. -/
def columnVariables : StdMap Text Text := StdMap.empty.set "a".toList "x|y".toList

/-- The placeholder of a column stays in the mail. -/
theorem column_not_merged : ¬ ∀ (template_text : Text) (vars : StdMap Text Text)
    (mail sTime2 : Text) (random : Int), IsVariables vars → ∃ fuel mail_text,
      Merged (vars.entries ++ builtins mail sTime2) template_text mail_text ∧
      ∀ n, fuel ≤ n → ∃ random',
        makeMailText n template_text vars mail sTime2 random = some (mail_text, random') := by
  intro h
  have hvars : IsVariables columnVariables := by
    rw [IsVariables]
    decide
  obtain ⟨fuel, mail_text, ⟨row, hmerged⟩, hmail⟩ := h "$a$".toList columnVariables [] [] 0 hvars
  obtain ⟨random', hmail⟩ := hmail fuel le_rfl
  have hcode : makeMailText fuel "$a$".toList columnVariables [] [] 0
      = some ("$a$".toList, 0) := rfl
  have hrows : rows "$a$".toList = [(false, "$a$".toList)] := by decide
  have hvalue : substitute (columnVariables.entries ++ builtins [] []) "$a$".toList
      = "x|y".toList := by decide
  rw [hrows, List.flatMap_cons, List.flatMap_nil, List.append_nil, if_neg Bool.false_ne_true,
    hvalue] at hmerged
  rw [hcode, hmerged] at hmail
  have htext : "$a$".toList = "x|y".toList := congrArg Prod.fst (Option.some.inj hmail)
  exact absurd htext (by decide)

/-- A variable to put in, and one whose value is a column. -/
def sampleVariables : StdMap Text Text :=
  (StdMap.empty.set "a".toList "A".toList).set "c".toList "1|2".toList

/-- A template with one row to repeat. -/
def sampleTemplate : Text := "$a$$iedm_to$<tr class='__many__'>$c$</tr>".toList

theorem sample_merged : ∃ fuel mail_text,
    Merged (literals sampleVariables ++ builtins "m@d".toList []) sampleTemplate mail_text ∧
    ∀ n, fuel ≤ n → ∃ random',
      makeMailText n sampleTemplate sampleVariables "m@d".toList [] 0
        = some (mail_text, random') := by
  have hvars : IsVariables sampleVariables := by
    rw [IsVariables]
    decide
  refine merged_of_clean hvars ⟨by decide, ?_, fun _ => ?_, ?_⟩ 0
  all_goals decide +kernel

end Edm.Deliver
