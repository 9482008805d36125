import Edm.Base.LogicalExp
import Edm.Support.Lower
import Edm.Support.Split
import Mathlib.Data.List.Chain

/-!
# Base — LogicalText

`splitExpression` and formulas as texts.  `Spaced` is how tokens are written one behind the other,
with blanks where two words would otherwise be one; of such a text `splitExpression` makes these
tokens again (`splitLoop_spaced`), since in a formula AND does not follow AND, nor OR follow OR
(`Formula.chain`).  So `checkMatch` gives the value of a formula, however it is written
(`checkMatchText_formula`).
-/

namespace Edm.Base
open Support

/-! ### Splitting -/

/-- `::isalnum(ch) || ch == '_'`. -/
def isWordChar (ch : Char) : Bool := ch.isAlphanum || ch == '_'

/-- `if ( !strToken.empty() ) listExpToken.push_back(strToken)`, in front of the later tokens. -/
def pushToken (strToken : Text) (listExpToken : List Text) : List Text :=
  if strToken.isEmpty then listExpToken else strToken :: listExpToken

/-- The loop of `splitExpression`; `none`: a character that is in no token. -/
def splitLoop : Text → Text → Option (List Text)
  | strToken, [] => some (pushToken strToken [])
  | strToken, ch :: p =>
      if isspace ch then (splitLoop [] p).map (pushToken strToken)
      else if ch ∈ "!&|()".toList then
        if (ch = '&' ∨ ch = '|') ∧ p.head? = some ch then
          (splitLoop [] p.tail).map fun tokens => pushToken strToken ([ch, ch] :: tokens)
        else (splitLoop [] p).map fun tokens => pushToken strToken ([ch] :: tokens)
      else if !isWordChar ch then none
      else splitLoop (strToken ++ [ch]) p
  termination_by _ p => p.length
  decreasing_by all_goals (simp only [List.length_cons, List.length_tail]; omega)

/-- `splitExpression`. -/
def splitExpression (strExpression : Text) : Option (List Text) :=
  (splitLoop [] strExpression).filter (· ≠ [])

/-- `checkMatch`, for a text. -/
def checkMatchText (checker : Text → Bool) (strExpression : Text) : ExpRetCode :=
  match splitExpression strExpression with
  | none => .retError
  | some listExpToken => checkMatch checker listExpToken

/-! ### Tokens one behind the other -/

/-- A text that is one token of letters, digits and `_`. -/
def IsWord (t : Text) : Prop := t ≠ [] ∧ ∀ c ∈ t, isWordChar c = true

instance (t : Text) : Decidable (IsWord t) :=
  inferInstanceAs (Decidable (t ≠ [] ∧ ∀ c ∈ t, isWordChar c = true))

/-- The other tokens. -/
def IsSymbol (t : Text) : Prop :=
  t ∈ ["!".toList, "&".toList, "&&".toList, "|".toList, "||".toList, "(".toList, ")".toList]

/-- Tokens with blanks around them; no word runs into what follows it. -/
inductive Spaced : List Text → Text → Prop
  | done {blanks : Text} (hblanks : ∀ c ∈ blanks, isspace c = true) : Spaced [] blanks
  | token {blanks t rest : Text} {ts : List Text} (hblanks : ∀ c ∈ blanks, isspace c = true)
      (happart : IsWord t → ∀ c ∈ rest.head?, isWordChar c = false) (hrest : Spaced ts rest) :
      Spaced (t :: ts) (blanks ++ (t ++ rest))

/-- One is not the beginning of the other. -/
def Separate (t t' : Text) : Prop := ∀ c ∈ t'.head?, c = '&' ∨ c = '|' → t ≠ [c]

theorem isWordChar_of_isspace {c : Char} (h : isspace c = true) : isWordChar c = false := by
  simp only [isspace, Bool.or_eq_true, beq_iff_eq] at h
  rcases h with ((((rfl | rfl) | rfl) | rfl) | h) | h
  · decide
  · decide
  · decide
  · decide
  · rw [← Char.ofNat_toNat c, h]
    decide
  · rw [← Char.ofNat_toNat c, h]
    decide

theorem isWordChar_of_symbol : ∀ c ∈ "!&|()".toList, isWordChar c = false ∧ isspace c = false := by
  decide

/-- The characters of a word are put behind what was read. -/
theorem splitLoop_word {w : Text} (hw : ∀ c ∈ w, isWordChar c = true) (strToken p : Text) :
    splitLoop strToken (w ++ p) = splitLoop (strToken ++ w) p := by
  induction w generalizing strToken with
  | nil => rw [List.nil_append, List.append_nil]
  | cons c w ih =>
      have hc := hw c List.mem_cons_self
      have hspace : ¬ isspace c = true := fun h => by rw [isWordChar_of_isspace h] at hc; cases hc
      have hsymbol : c ∉ "!&|()".toList := fun h => by
        rw [(isWordChar_of_symbol c h).1] at hc
        cases hc
      rw [List.cons_append, splitLoop, if_neg hspace, if_neg hsymbol, hc, if_neg (by decide),
        ih (fun d hd => hw d (List.mem_cons_of_mem _ hd)), List.append_assoc, List.singleton_append]

/-- A word ends at what is not in a word. -/
theorem splitLoop_push {p : Text} (hp : ∀ c ∈ p.head?, isWordChar c = false) (strToken : Text) :
    splitLoop strToken p = (splitLoop [] p).map (pushToken strToken) := by
  have hnil : pushToken [] = id := rfl
  cases p with
  | nil => rw [splitLoop, splitLoop]; rfl
  | cons c p =>
      have hc := hp c rfl
      simp only [splitLoop, hnil]
      by_cases hspace : isspace c = true
      · rw [if_pos hspace, if_pos hspace, Option.map_id, id]
      · by_cases hsymbol : c ∈ "!&|()".toList
        · rw [if_neg hspace, if_neg hspace, if_pos hsymbol, if_pos hsymbol]
          by_cases htwo : (c = '&' ∨ c = '|') ∧ p.head? = some c
          · rw [if_pos htwo, if_pos htwo, Option.map_map]
            rfl
          · rw [if_neg htwo, if_neg htwo, Option.map_map]
            rfl
        · rw [if_neg hspace, if_neg hspace, if_neg hsymbol, if_neg hsymbol, hc]
          rfl

theorem splitLoop_blanks {blanks : Text} (h : ∀ c ∈ blanks, isspace c = true) (p : Text) :
    splitLoop [] (blanks ++ p) = splitLoop [] p := by
  have hnil : pushToken [] = id := rfl
  induction blanks with
  | nil => rfl
  | cons c blanks ih =>
      rw [List.cons_append, splitLoop, if_pos (h c List.mem_cons_self), hnil, Option.map_id, id,
        ih fun d hd => h d (List.mem_cons_of_mem _ hd)]

theorem splitLoop_symbol {t p : Text} (ht : IsSymbol t)
    (hp : ∀ c ∈ p.head?, c = '&' ∨ c = '|' → t ≠ [c]) :
    splitLoop [] (t ++ p) = (splitLoop [] p).map (t :: ·) := by
  have hone : ∀ c : Char, c ∈ "!&|()".toList → t = [c] →
      splitLoop [] (t ++ p) = (splitLoop [] p).map (t :: ·) := by
    rintro c hc rfl
    rw [List.singleton_append, splitLoop, if_neg (by simp [(isWordChar_of_symbol c hc).2]),
      if_pos hc, if_neg fun h => hp c h.2 h.1 rfl]
    rfl
  have htwo : ∀ c : Char, c = '&' ∨ c = '|' → c ∈ "!&|()".toList → t = [c, c] →
      splitLoop [] (t ++ p) = (splitLoop [] p).map (t :: ·) := by
    rintro c hc hin rfl
    rw [List.cons_append, splitLoop, if_neg (by simp [(isWordChar_of_symbol c hin).2]), if_pos hin,
      if_pos ⟨hc, rfl⟩]
    rfl
  simp only [IsSymbol, List.mem_cons, List.not_mem_nil, or_false] at ht
  rcases ht with ht | ht | ht | ht | ht | ht | ht
  · exact hone '!' (by decide) ht
  · exact hone '&' (by decide) ht
  · exact htwo '&' (by decide) (by decide) ht
  · exact hone '|' (by decide) ht
  · exact htwo '|' (by decide) (by decide) ht
  · exact hone '(' (by decide) ht
  · exact hone ')' (by decide) ht

/-- How a text of tokens begins. -/
theorem Spaced.head {ts : List Text} {s : Text} (h : Spaced ts s) {c : Char} (hc : c ∈ s.head?) :
    isspace c = true ∨ [] ∈ ts ∨ ∃ t ∈ ts.head?, c ∈ t.head? := by
  cases h with
  | done hblanks => exact .inl (hblanks c (List.mem_of_mem_head? hc))
  | @token blanks t rest ts hblanks happart hrest =>
      cases blanks with
      | cons d blanks =>
          obtain rfl : d = c := by simpa using hc
          exact .inl (hblanks d List.mem_cons_self)
      | nil =>
          cases t with
          | nil => exact .inr (.inl List.mem_cons_self)
          | cons d t => exact .inr (.inr ⟨d :: t, rfl, hc⟩)

/-- The text is split into the tokens it was made of. -/
theorem splitLoop_spaced {ts : List Text} {s : Text} (h : Spaced ts s)
    (ht : ∀ t ∈ ts, IsWord t ∨ IsSymbol t) (hsep : ts.IsChain Separate) :
    splitLoop [] s = some ts := by
  induction h with
  | done hblanks =>
      have hnil := splitLoop_blanks hblanks []
      rw [List.append_nil] at hnil
      rw [hnil, splitLoop]
      rfl
  | @token blanks t rest ts hblanks happart hrest ih =>
      have hrun := ih (fun t h => ht t (List.mem_cons_of_mem _ h)) (List.isChain_cons.mp hsep).2
      rw [splitLoop_blanks hblanks]
      rcases ht t List.mem_cons_self with hword | hsymbol
      · obtain ⟨hne, hall⟩ := hword
        rw [splitLoop_word hall, List.nil_append, splitLoop_push (happart ⟨hne, hall⟩), hrun,
          Option.map_some, pushToken, if_neg (by simpa using hne)]
      · rw [splitLoop_symbol hsymbol, hrun, Option.map_some]
        intro c hc hcc
        rcases hrest.head hc with hspace | hnil | ⟨t', ht', hct⟩
        · rcases hcc with rfl | rfl <;> exact absurd hspace (by decide)
        · rcases ht [] (List.mem_cons_of_mem _ hnil) with hword | hsym
          · exact absurd rfl hword.1
          · exact absurd hsym (by unfold IsSymbol; decide)
        · cases ts with
          | nil => cases ht'
          | cons t₁ ts =>
              obtain rfl : t₁ = t' := by simpa using ht'
              exact (List.isChain_cons_cons.mp hsep).1 c hct hcc

/-! ### The tokens of a formula -/

/-- Neither AND nor OR. -/
def NoJoin (t : Text) : Prop := getOperator t ≠ .and ∧ getOperator t ≠ .or

theorem isWord_of_tolower {t key : Text} (h : strCaseEqual t key = true) (hkey : key ≠ [])
    (hall : ∀ c ∈ tolower key, isWordChar c = true) : IsWord t := by
  rw [strCaseEqual, beq_iff_eq] at h
  refine ⟨?_, fun c hc => ?_⟩
  · rintro rfl
    exact hkey (List.map_eq_nil_iff.mp h.symm)
  · have hlow : isWordChar c.toLower = true :=
      hall _ (h ▸ List.mem_map_of_mem (f := Char.toLower) hc)
    rcases toLower_cases c with ⟨hsame, -⟩ | ⟨h₁, h₂, -⟩
    · rwa [hsame] at hlow
    · have hupper : c.isUpper = true := decide_eq_true ⟨h₁, h₂⟩
      rw [isWordChar]
      delta Char.isAlphanum Char.isAlpha
      rw [hupper]
      rfl

/-- An operator is written as a word or as a symbol. -/
theorem isWord_or_isSymbol {t : Text} (h : getOperator t ≠ .unknown) : IsWord t ∨ IsSymbol t := by
  have hsymbol : ∀ t' ∈ ["!".toList, "&".toList, "&&".toList, "|".toList, "||".toList, "(".toList,
      ")".toList], t = t' → IsWord t ∨ IsSymbol t := by
    rintro t' ht' rfl
    exact .inr ht'
  have hword : ∀ key ∈ ["NOT".toList, "AND".toList, "OR".toList], strCaseEqual t key = true →
      IsWord t ∨ IsSymbol t := fun key hkey ht => by
    have hletters : ∀ key ∈ ["NOT".toList, "AND".toList, "OR".toList], key ≠ [] ∧
        ∀ c ∈ tolower key, isWordChar c = true := by decide
    exact .inl (isWord_of_tolower ht (hletters key hkey).1 (hletters key hkey).2)
  unfold getOperator at h
  split at h
  next hop => exact hop.elim (hsymbol _ (by decide)) (hword _ (by decide))
  next =>
  split at h
  next hop =>
    exact hop.elim (hsymbol _ (by decide))
      fun hop => hop.elim (hsymbol _ (by decide)) (hword _ (by decide))
  next =>
  split at h
  next hop =>
    exact hop.elim (hsymbol _ (by decide))
      fun hop => hop.elim (hsymbol _ (by decide)) (hword _ (by decide))
  next =>
  split at h
  next hop => exact hsymbol _ (by decide) hop
  next =>
  split at h
  next hop => exact hsymbol _ (by decide) hop
  next => exact absurd rfl h

/-- What is separate where only one of two joins. -/
theorem separate_of_noJoin {t t' : Text} (ht' : IsWord t' ∨ IsSymbol t')
    (h : NoJoin t ∨ NoJoin t') : Separate t t' := by
  have hjoin : ∀ c, c = '&' ∨ c = '|' → getOperator [c] = .and ∨ getOperator [c] = .or := by
    rintro c (rfl | rfl) <;> decide
  rintro c hc hcc rfl
  rcases h with h | h
  · exact (hjoin c hcc).elim h.1 h.2
  · rcases ht' with hword | hsymbol
    · have hc := hword.2 c (List.mem_of_mem_head? hc)
      rcases hcc with rfl | rfl <;> exact absurd hc (by decide)
    · have hno : ∀ t' ∈ ["!".toList, "&".toList, "&&".toList, "|".toList, "||".toList, "(".toList,
          ")".toList], t'.head? = some '&' ∨ t'.head? = some '|' →
            getOperator t' = .and ∨ getOperator t' = .or := by decide
      have hfirst := hcc.imp (fun h => hc.trans (congrArg some h)) fun h =>
        hc.trans (congrArg some h)
      exact (hno t' hsymbol hfirst).elim h.1 h.2

namespace Formula

theorem tokens_ne_nil {l : Level} (f : Formula l) : f.tokens ≠ [] := by
  induction f with
  | operand | group | not | and | or => simp [tokens]
  | plain a ih | single a ih | one a ih => exact ih

/-- AND and OR stand neither at the ends nor side by side. -/
structure Chained (ts : List Text) : Prop where
  chain : ts.IsChain fun t t' => NoJoin t ∨ NoJoin t'
  head : ∀ t ∈ ts.head?, NoJoin t
  last : ∀ t ∈ ts.getLast?, NoJoin t

theorem Chained.single {t : Text} (h : NoJoin t) : Chained [t] :=
  ⟨List.isChain_singleton _, by simpa using h, by simpa using h⟩

theorem Chained.cons {t : Text} {ts : List Text} (h : NoJoin t) (hts : Chained ts) :
    Chained (t :: ts) := by
  refine ⟨hts.chain.cons fun _ _ => .inl h, by simpa using h, fun t' ht' => ?_⟩
  cases ts with
  | nil =>
      obtain rfl : t = t' := by simpa using ht'
      exact h
  | cons t₁ ts => exact hts.last t' (by rwa [List.getLast?_cons_cons] at ht')

theorem Chained.append {ts ts' : List Text} (hts : Chained ts) (hts' : Chained ts')
    (hne : ts ≠ []) (hne' : ts' ≠ []) (op : Text) : Chained (ts ++ op :: ts') := by
  refine ⟨List.isChain_append.mpr ⟨hts.chain, hts'.chain.cons fun t ht => .inr (hts'.head t ht),
    fun t ht _ _ => .inl (hts.last t ht)⟩, fun t ht => ?_, fun t ht => ?_⟩
  · rw [List.head?_append_of_ne_nil _ hne] at ht
    exact hts.head t ht
  · rw [List.getLast?_append_of_ne_nil _ (List.cons_ne_nil _ _), ← List.singleton_append,
      List.getLast?_append_of_ne_nil _ hne'] at ht
    exact hts'.last t ht

theorem noJoin_of_token {op : ExpOperator} (t : Token op) (hand : op ≠ .and) (hor : op ≠ .or) :
    NoJoin t.1 := by
  rw [NoJoin, t.2]
  exact ⟨hand, hor⟩

theorem chained {l : Level} (f : Formula l) : Chained f.tokens := by
  induction f with
  | operand name => exact .single (noJoin_of_token name (by decide) (by decide))
  | group l e r ih =>
      have hr := noJoin_of_token r (by decide) (by decide)
      refine .cons (noJoin_of_token l (by decide) (by decide)) ⟨?_, ?_, ?_⟩
      · exact List.isChain_append.mpr ⟨ih.chain, List.isChain_singleton _,
          fun t ht _ _ => .inl (ih.last t ht)⟩
      · rw [List.head?_append_of_ne_nil _ e.tokens_ne_nil]
        exact ih.head
      · rw [List.getLast?_append_of_ne_nil _ (List.cons_ne_nil _ _)]
        simpa using hr
  | plain a ih | single f ih | one t ih => exact ih
  | not op a ih => exact ih.cons (noJoin_of_token op (by decide) (by decide))
  | and t op f iht ihf => exact iht.append ihf t.tokens_ne_nil f.tokens_ne_nil op.1
  | or e op t ihe iht => exact ihe.append iht e.tokens_ne_nil t.tokens_ne_nil op.1

theorem isWord_or_isSymbol {l : Level} (f : Formula l)
    (hname : ∀ t ∈ f.tokens, getOperator t = .unknown → IsWord t) {t : Text} (ht : t ∈ f.tokens) :
    IsWord t ∨ IsSymbol t := by
  by_cases h : getOperator t = .unknown
  · exact .inl (hname t ht h)
  · exact Base.isWord_or_isSymbol h

theorem splitExpression_tokens {l : Level} (f : Formula l) {s : Text}
    (hname : ∀ t ∈ f.tokens, getOperator t = .unknown → IsWord t) (hs : Spaced f.tokens s) :
    splitExpression s = some f.tokens := by
  have hsep : f.tokens.IsChain Separate :=
    f.chained.chain.imp_of_mem_imp fun t t' _ ht' h =>
      separate_of_noJoin (f.isWord_or_isSymbol hname ht') h
  rw [splitExpression, splitLoop_spaced hs (fun t => f.isWord_or_isSymbol hname) hsep]
  simp [f.tokens_ne_nil]

end Formula

/-- A formula is given its value, however it is written. -/
theorem checkMatch_formula (f : Formula .expr) {s : Text}
    (hname : ∀ t ∈ f.tokens, getOperator t = .unknown → IsWord t) (hs : Spaced f.tokens s)
    (setValue : Finset Text) : checkMatchText (ValueSetChecker setValue) s =
      if f.value (fun name => decide (name ∈ setValue)) then .retTrue else .retFalse := by
  rw [checkMatchText, f.splitExpression_tokens hname hs]
  exact checkMatch_tokens _ f

/-- `not a&b`. -/
def notAndFormula : Formula .expr :=
  .one (.and (.single (.not ⟨"not".toList, by decide⟩ (.operand ⟨"a".toList, by decide⟩)))
    ⟨"&".toList, by decide⟩ (.plain (.operand ⟨"b".toList, by decide⟩)))

theorem notAndFormula_spaced : Spaced notAndFormula.tokens "not a&b".toList := by
  have hfirst : ∀ {x : Char} {rest : Text}, isWordChar x = false →
      ∀ c ∈ (x :: rest).head?, isWordChar c = false := by
    intro x rest hx c hc
    obtain rfl := Option.some.inj hc
    exact hx
  have hb : Spaced ["b".toList] ([] ++ ("b".toList ++ [])) :=
    .token (by simp) (fun _ => nofun) (.done (by simp))
  have hand : Spaced ["&".toList, "b".toList] ([] ++ ("&".toList ++ "b".toList)) :=
    .token (by simp) (fun h => absurd h (by decide)) hb
  have ha : Spaced ["a".toList, "&".toList, "b".toList]
      (" ".toList ++ ("a".toList ++ "&b".toList)) :=
    .token (by decide) (fun _ => hfirst (by decide)) hand
  have hnot : Spaced notAndFormula.tokens ([] ++ ("not".toList ++ " a&b".toList)) :=
    .token (by simp) (fun _ => hfirst (by decide)) ha
  exact hnot

theorem checkMatch_notAndFormula :
    checkMatchText (ValueSetChecker {"b".toList}) "not a&b".toList = .retTrue :=
  checkMatch_formula notAndFormula (by decide) notAndFormula_spaced {"b".toList}

end Edm.Base
