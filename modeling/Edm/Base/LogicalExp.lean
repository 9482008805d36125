import Mathlib.Data.Finset.Insert
import Edm.Support.CString

/-!
# Base — LogicalExp

`LogicalExpInterpreter` (`cpplib/base/logicalexpinterpreter.cpp`): `checkMatch` goes through the
tokens with a stack of operators and a stack of results, the tops of which come first here.

* An operator that is reduced when the next one comes takes two results at once; NOT is applied by
  `checkNotOperation`, when a result stands above it.
* `Formula` is the grammar, with the tokens a formula is written with.  `TermEnd` and `Ors` say
  what is still to be reduced behind a term and in front of it; `Formula.reads` is what the tokens
  of a formula do to the stacks, and `checkMatch_tokens` that they give its value.
-/

namespace Edm.Base
open Support

/-! ### Operators -/

/-- `ExpOperator`. -/
inductive ExpOperator where
  | not | and | or | leftBracket | rightBracket | unknown
  deriving DecidableEq

/-- `OperatorPriority`. -/
inductive OperatorPriority where
  | less | equal | greater | error
  deriving DecidableEq

/-- `ExpRetCode`. -/
inductive ExpRetCode where
  | retFalse | retTrue | retError
  deriving DecidableEq

/-- `StringFunc::strCaseEqual`. -/
def strCaseEqual (a b : Text) : Bool := tolower a == tolower b

/-- `getOperator`. -/
def getOperator (strOperator : Text) : ExpOperator :=
  if strOperator = "!".toList ∨ strCaseEqual strOperator "NOT".toList then .not
  else if strOperator = "&&".toList ∨ strOperator = "&".toList ∨
      strCaseEqual strOperator "AND".toList then .and
  else if strOperator = "||".toList ∨ strOperator = "|".toList ∨
      strCaseEqual strOperator "OR".toList then .or
  else if strOperator = "(".toList then .leftBracket
  else if strOperator = ")".toList then .rightBracket
  else .unknown

/-- `getOperatorPriority`: a row for the operator on the stack, a column for the one that comes. -/
def getOperatorPriority : ExpOperator → ExpOperator → OperatorPriority
  | .not, .leftBracket => .less
  | .not, .unknown => .greater
  | .not, _ => .error
  | .and, .not => .less
  | .and, .leftBracket => .less
  | .and, _ => .greater
  | .or, .not => .less
  | .or, .and => .less
  | .or, .leftBracket => .less
  | .or, _ => .greater
  | .leftBracket, .rightBracket => .equal
  | .leftBracket, .unknown => .error
  | .leftBracket, _ => .less
  | .rightBracket, _ => .error
  | .unknown, .rightBracket => .error
  | .unknown, .unknown => .equal
  | .unknown, _ => .less

/-! ### The two stacks -/

/-- `listExpOperator`, `listMatchResult` and `bLastTokenIsOperand`. -/
structure Stacks where
  operators : List ExpOperator
  results : List Bool
  lastTokenIsOperand : Bool
  deriving DecidableEq

/-- `checkNotOperation`. -/
def checkNotOperation : List ExpOperator → List Bool → List ExpOperator × List Bool
  | .not :: operators, result :: results => (operators, (!result) :: results)
  | operators, results => (operators, results)

/-- `onBinaryOperation`. -/
def onBinaryOperation : ExpOperator → List Bool → Option (List Bool)
  | .and, top₁ :: top₂ :: results => some ((top₁ && top₂) :: results)
  | .or, top₁ :: top₂ :: results => some ((top₁ || top₂) :: results)
  | _, _ => none

theorem length_checkNotOperation (operators : List ExpOperator) (results : List Bool) :
    (checkNotOperation operators results).1.length ≤ operators.length := by
  unfold checkNotOperation
  split <;> simp

/-- `while ( nNewOP == EXP_OP_RIGHT_BRACKET )`: down to the bracket that is closed. -/
def closeBracket : List ExpOperator → List Bool → Option (List ExpOperator × List Bool)
  | [], _ => none
  | nOldOP :: operators, results =>
      let s := checkNotOperation operators results
      if nOldOP = .leftBracket then some s
      else (onBinaryOperation nOldOP s.2).bind (closeBracket s.1)
  termination_by operators => operators.length
  decreasing_by exact Nat.lt_succ_of_le (length_checkNotOperation operators results)

/-- A token that is an operator. -/
def onOperator (nNewOP : ExpOperator) (s : Stacks) : Option Stacks :=
  let nOldOP := s.operators.headD .unknown
  match getOperatorPriority nOldOP nNewOP with
  | .less => some ⟨nNewOP :: s.operators, s.results, false⟩
  | .equal =>
      let (operators, results) := checkNotOperation s.operators.tail s.results
      some ⟨operators, results, false⟩
  | .greater =>
      (onBinaryOperation nOldOP s.results).bind fun results =>
        let (operators, results) := checkNotOperation s.operators.tail results
        if nNewOP = .rightBracket then
          (closeBracket operators results).map fun (operators, results) =>
            ⟨operators, results, false⟩
        else some ⟨nNewOP :: operators, results, false⟩
  | .error => none

/-- A token that is an operand. -/
def onOperand (result : Bool) (s : Stacks) : Option Stacks :=
  if s.lastTokenIsOperand then none
  else
    let (operators, results) := checkNotOperation s.operators (result :: s.results)
    some ⟨operators, results, true⟩

/-- The loop over the tokens. -/
def onTokens (checker : Text → Bool) (s : Stacks) : List Text → Option Stacks
  | [] => some s
  | strToken :: tokens =>
      (if getOperator strToken = .unknown then onOperand (checker strToken) s
        else onOperator (getOperator strToken) s).bind fun s => onTokens checker s tokens

/-- `while ( !listExpOperator.empty() )`, behind the last token. -/
def finish : List ExpOperator → List Bool → Option (List Bool)
  | [], results => some results
  | op :: operators, results =>
      if getOperatorPriority op .unknown ≠ .greater then none
      else (onBinaryOperation op results).bind fun results =>
        finish (checkNotOperation operators results).1 (checkNotOperation operators results).2
  termination_by operators => operators.length
  decreasing_by exact Nat.lt_succ_of_le (length_checkNotOperation operators results)

/-- What is returned for the results that are left. -/
def retCode : Option (List Bool) → ExpRetCode
  | some [result] => if result then .retTrue else .retFalse
  | _ => .retError

/-- `checkMatch`, for a list of tokens. -/
def checkMatch (checker : Text → Bool) (listExpToken : List Text) : ExpRetCode :=
  retCode ((onTokens checker ⟨[], [], false⟩ listExpToken).bind fun s =>
    finish s.operators s.results)

/-- `ValueSetChecker::checkMatch`. -/
def ValueSetChecker (setValue : Finset Text) (strOperand : Text) : Bool :=
  decide (strOperand ∈ setValue)

/-! ### Formulas -/

/-- A way to write an operator, or an operand. -/
def Token (op : ExpOperator) : Type := { t : Text // getOperator t = op }

/-- What may be written where. -/
inductive Level where
  | atom | factor | term | expr

/-- A formula of the grammar. -/
inductive Formula : Level → Type where
  | operand (name : Token .unknown) : Formula .atom
  | group (l : Token .leftBracket) (e : Formula .expr) (r : Token .rightBracket) : Formula .atom
  | plain (a : Formula .atom) : Formula .factor
  | not (op : Token .not) (a : Formula .atom) : Formula .factor
  | single (f : Formula .factor) : Formula .term
  | and (t : Formula .term) (op : Token .and) (f : Formula .factor) : Formula .term
  | one (t : Formula .term) : Formula .expr
  | or (e : Formula .expr) (op : Token .or) (t : Formula .term) : Formula .expr

namespace Formula

/-- The tokens it is written with. -/
def tokens : {l : Level} → Formula l → List Text
  | _, operand name => [name.1]
  | _, group l e r => l.1 :: (e.tokens ++ [r.1])
  | _, plain a => a.tokens
  | _, not op a => op.1 :: a.tokens
  | _, single f => f.tokens
  | _, and t op f => t.tokens ++ op.1 :: f.tokens
  | _, one t => t.tokens
  | _, or e op t => e.tokens ++ op.1 :: t.tokens

/-- Its value, where `holds` are the operands that are true. -/
def value (holds : Text → Bool) : {l : Level} → Formula l → Bool
  | _, operand name => holds name.1
  | _, group _ e _ => e.value holds
  | _, plain a => a.value holds
  | _, not _ a => !a.value holds
  | _, single f => f.value holds
  | _, and t _ f => t.value holds && f.value holds
  | _, one t => t.value holds
  | _, or e _ t => e.value holds || t.value holds

end Formula

/-! ### What is left on the stacks -/

/-- Nothing is reduced before what comes behind this operator. -/
theorem checkNotOperation_eq {operators : List ExpOperator} (results : List Bool)
    (h : operators.headD .unknown ≠ .not) :
    checkNotOperation operators results = (operators, results) := by
  unfold checkNotOperation
  split
  next => exact absurd rfl h
  next => rfl

/-- Behind a term: its value, or that of all but its last factor, and the one of this. -/
inductive TermEnd (operators : List ExpOperator) (results : List Bool) :
    Bool → List ExpOperator → List Bool → Prop
  | single (v : Bool) : TermEnd operators results v operators (v :: results)
  | and (v w : Bool) : TermEnd operators results (v && w) (.and :: operators) (w :: v :: results)

/-- In front of a term: what it is still to be joined with. -/
inductive Ors (operators : List ExpOperator) (results : List Bool) :
    Bool → List ExpOperator → List Bool → Prop
  | start : Ors operators results false operators results
  | or {v : Bool} {operators' : List ExpOperator} {results' : List Bool} (w : Bool)
      (h : Ors operators results v operators' results') :
      Ors operators results (v || w) (.or :: operators') (w :: results')

/-- Behind an expression. -/
def ExprEnd (operators : List ExpOperator) (results : List Bool) (v : Bool)
    (operators' : List ExpOperator) (results' : List Bool) : Prop :=
  ∃ w x before below, Ors operators results w before below ∧
    TermEnd before below x operators' results' ∧ v = (w || x)

/-- What an expression may begin behind. -/
def Starts (operators : List ExpOperator) : Prop :=
  operators.headD .unknown = .unknown ∨ operators.headD .unknown = .leftBracket

/-- What a term may begin behind. -/
def StartsTerm (operators : List ExpOperator) : Prop :=
  Starts operators ∨ operators.headD .unknown = .or

section Reduce
variable {operators operators' before : List ExpOperator} {results results' below : List Bool}
  {v w x : Bool}

theorem StartsTerm.ne_not (h : StartsTerm operators) : operators.headD .unknown ≠ .not := by
  rcases h with (h | h) | h <;> rw [h] <;> decide

theorem Ors.starts (h : Ors operators results v before below) (hs : Starts operators) :
    StartsTerm before := by
  cases h with
  | start => exact .inl hs
  | or => exact .inr rfl

/-- An operator that binds more is put on the stack. -/
theorem onOperator_less {op : ExpOperator}
    (h : getOperatorPriority (operators.headD .unknown) op = .less) (last : Bool) :
    onOperator op ⟨operators, results, last⟩ = some ⟨op :: operators, results, false⟩ := by
  unfold onOperator
  simp only [h]

/-- An operator that binds less comes behind what the one on the stack gives. -/
theorem onOperator_greater {op old : ExpOperator} (h : getOperatorPriority old op = .greater)
    (hop : op ≠ .rightBracket) (hgives : onBinaryOperation old results = some results')
    (hnot : operators.headD .unknown ≠ .not) (last : Bool) :
    onOperator op ⟨old :: operators, results, last⟩ = some ⟨op :: operators, results', false⟩ := by
  unfold onOperator
  simp only [List.headD_cons, h, hgives, Option.bind_some, List.tail_cons,
    checkNotOperation_eq _ hnot, if_neg hop]

/-- A bracket is closed behind what the operator on the stack gives. -/
theorem onRightBracket_greater {old : ExpOperator}
    (h : getOperatorPriority old .rightBracket = .greater)
    (hgives : onBinaryOperation old results = some results')
    (hnot : operators.headD .unknown ≠ .not) (last : Bool) :
    onOperator .rightBracket ⟨old :: operators, results, last⟩ =
      (closeBracket operators results').map fun s => ⟨s.1, s.2, false⟩ := by
  unfold onOperator
  simp only [List.headD_cons, h, hgives, Option.bind_some, List.tail_cons,
    checkNotOperation_eq _ hnot, if_true]

/-- AND joins the factors of a term. -/
theorem TermEnd.onAnd (h : TermEnd operators results v operators' results')
    (hs : StartsTerm operators) (last : Bool) :
    onOperator .and ⟨operators', results', last⟩ =
      some ⟨.and :: operators, v :: results, false⟩ := by
  cases h with
  | single v =>
      refine onOperator_less ?_ last
      rcases hs with (hop | hop) | hop <;> rw [hop] <;> rfl
  | and v w =>
      rw [Bool.and_comm v w]
      exact onOperator_greater rfl (by decide) (by rfl) hs.ne_not last

/-- OR joins the term with what is in front of it, or waits for the end. -/
theorem ExprEnd.onOr (h : ExprEnd operators results v operators' results')
    (hs : Starts operators) (last : Bool) : ∃ before below,
      onOperator .or ⟨operators', results', last⟩ = some ⟨.or :: before, below, false⟩ ∧
        Ors operators results v (.or :: before) below := by
  obtain ⟨w, x, before, below, hors, hterm, rfl⟩ := h
  have hnot := (hors.starts hs).ne_not
  cases hterm with
  | single x =>
      cases hors with
      | start =>
          refine ⟨operators, x :: results, onOperator_less ?_ last, .or x .start⟩
          rcases hs with hop | hop <;> rw [hop] <;> rfl
      | @or v before below a hors =>
          refine ⟨before, (x || a) :: below, ?_, ?_⟩
          · exact onOperator_greater rfl (by decide) (by rfl) (hors.starts hs).ne_not last
          · rw [Bool.or_assoc, Bool.or_comm a x]
            exact hors.or (x || a)
  | and x y =>
      refine ⟨before, (y && x) :: below, ?_, ?_⟩
      · exact onOperator_greater rfl (by decide) (by rfl) hnot last
      · rw [Bool.and_comm x y]
        exact hors.or (y && x)

/-- The bracket is found, with the value of what it holds. -/
theorem Ors.close (h : Ors (.leftBracket :: operators) results w before below) :
    closeBracket before (x :: below) =
      some (checkNotOperation operators ((w || x) :: results)) := by
  induction h generalizing x with
  | start => rw [closeBracket, if_pos rfl, Bool.false_or]
  | @or v before below a h ih =>
      have hnot := (h.starts (.inr rfl)).ne_not
      rw [closeBracket, if_neg (by decide), checkNotOperation_eq _ hnot]
      simp only [onBinaryOperation, Option.bind_some]
      rw [ih, Bool.or_assoc, Bool.or_comm x a]

theorem ExprEnd.onRightBracket
    (h : ExprEnd (.leftBracket :: operators) results v operators' results') (last : Bool) :
    onOperator .rightBracket ⟨operators', results', last⟩ =
      some ⟨(checkNotOperation operators (v :: results)).1,
        (checkNotOperation operators (v :: results)).2, false⟩ := by
  obtain ⟨w, x, before, below, hors, hterm, rfl⟩ := h
  have hnot := (hors.starts (.inr rfl)).ne_not
  cases hterm with
  | single x =>
      cases hors with
      | start => rfl
      | @or v before below a hors =>
          rw [onRightBracket_greater rfl rfl (hors.starts (.inr rfl)).ne_not last, hors.close,
            Bool.or_assoc, Bool.or_comm x a]
          rfl
  | and x y =>
      rw [onRightBracket_greater rfl rfl hnot last, hors.close, Bool.and_comm x y]
      rfl

theorem Ors.finish (h : Ors [] [] w before below) : finish before (x :: below) = some [w || x] := by
  induction h generalizing x with
  | start => rw [Base.finish, Bool.false_or]
  | @or v before below a h ih =>
      have hnot := (h.starts (.inl rfl)).ne_not
      rw [Base.finish, if_neg (by decide)]
      simp only [onBinaryOperation, Option.bind_some, checkNotOperation_eq _ hnot]
      rw [ih, Bool.or_assoc, Bool.or_comm x a]

theorem ExprEnd.finish (h : ExprEnd [] [] v operators' results') :
    finish operators' results' = some [v] := by
  obtain ⟨w, x, before, below, hors, hterm, rfl⟩ := h
  have hnot := (hors.starts (.inl rfl)).ne_not
  cases hterm with
  | single x => exact hors.finish
  | and x y =>
      rw [Base.finish, if_neg (by decide)]
      simp only [onBinaryOperation, Option.bind_some, checkNotOperation_eq _ hnot, hors.finish,
        Bool.and_comm x y]

end Reduce

/-! ### Running over a formula -/

section Run
variable {checker : Text → Bool}

theorem onTokens_append (s : Stacks) (ts ts' : List Text) : onTokens checker s (ts ++ ts') =
    (onTokens checker s ts).bind fun s => onTokens checker s ts' := by
  induction ts generalizing s with
  | nil => rfl
  | cons t ts ih => simp only [List.cons_append, onTokens, Option.bind_assoc, ih]

theorem onTokens_operator {op : ExpOperator} (t : Token op) (hop : op ≠ .unknown) (s : Stacks)
    (ts : List Text) : onTokens checker s (t.1 :: ts) =
      (onOperator op s).bind fun s => onTokens checker s ts := by
  rw [onTokens, t.2, if_neg hop]

/-- What the tokens of a formula do. -/
def Reads (checker : Text → Bool) : {l : Level} → Formula l → Prop
  | .atom, f => ∀ operators results, operators.headD .unknown ≠ .rightBracket → ∃ last,
      onTokens checker ⟨operators, results, false⟩ f.tokens =
        some ⟨(checkNotOperation operators (f.value checker :: results)).1,
          (checkNotOperation operators (f.value checker :: results)).2, last⟩
  | .factor, f => ∀ operators results, StartsTerm operators ∨ operators.headD .unknown = .and →
      ∃ last, onTokens checker ⟨operators, results, false⟩ f.tokens =
        some ⟨operators, f.value checker :: results, last⟩
  | .term, f => ∀ operators results, StartsTerm operators → ∃ operators' results' last,
      onTokens checker ⟨operators, results, false⟩ f.tokens =
        some ⟨operators', results', last⟩ ∧
      TermEnd operators results (f.value checker) operators' results'
  | .expr, f => ∀ operators results, Starts operators → ∃ operators' results' last,
      onTokens checker ⟨operators, results, false⟩ f.tokens =
        some ⟨operators', results', last⟩ ∧
      ExprEnd operators results (f.value checker) operators' results'

variable (checker) in
theorem Formula.reads {l : Level} (f : Formula l) : Reads checker f := by
  induction f with
  | operand name =>
      intro operators results _
      exact ⟨true, by rw [tokens, onTokens, if_pos name.2]; rfl⟩
  | group l e r ih =>
      intro operators results hop
      obtain ⟨operators', results', last, hrun, hend⟩ := ih (.leftBracket :: operators) results
        (.inr rfl)
      refine ⟨false, ?_⟩
      have hopen : onOperator .leftBracket ⟨operators, results, false⟩ =
          some ⟨.leftBracket :: operators, results, false⟩ := by
        refine onOperator_less ?_ false
        revert hop
        cases operators.headD .unknown <;> decide
      rw [tokens, onTokens_operator l (by decide), hopen, Option.bind_some, onTokens_append, hrun,
        Option.bind_some, onTokens_operator r (by decide), hend.onRightBracket]
      rfl
  | plain a ih =>
      intro operators results hop
      have hnot : operators.headD .unknown ≠ .not := by
        rcases hop with hop | hop
        · exact hop.ne_not
        · rw [hop]; decide
      have hright : operators.headD .unknown ≠ .rightBracket := by
        rcases hop with ((hop | hop) | hop) | hop <;> rw [hop] <;> decide
      obtain ⟨last, hrun⟩ := ih operators results hright
      rw [checkNotOperation_eq _ hnot] at hrun
      exact ⟨last, hrun⟩
  | not op a ih =>
      intro operators results hop
      obtain ⟨last, hrun⟩ := ih (.not :: operators) results (by simp)
      have hpush : onOperator .not ⟨operators, results, false⟩ =
          some ⟨.not :: operators, results, false⟩ := by
        refine onOperator_less ?_ false
        rcases hop with ((hop | hop) | hop) | hop <;> rw [hop] <;> rfl
      refine ⟨last, ?_⟩
      rw [tokens, onTokens_operator op (by decide), hpush, Option.bind_some, hrun]
      rfl
  | single f ih =>
      intro operators results hop
      obtain ⟨last, hrun⟩ := ih operators results (.inl hop)
      exact ⟨operators, _, last, hrun, .single _⟩
  | and t op f iht ihf =>
      intro operators results hop
      obtain ⟨operators', results', last, hrun, hend⟩ := iht operators results hop
      obtain ⟨last', hrun'⟩ := ihf (.and :: operators) (t.value checker :: results) (.inr rfl)
      refine ⟨_, _, last', ?_, .and _ _⟩
      rw [tokens, onTokens_append, hrun, Option.bind_some, onTokens_operator op (by decide),
        hend.onAnd hop, Option.bind_some, hrun']
  | one t ih =>
      intro operators results hop
      obtain ⟨operators', results', last, hrun, hend⟩ := ih operators results (.inl hop)
      exact ⟨operators', results', last, hrun, false, _, _, _, .start, hend,
        (Bool.false_or _).symm⟩
  | or e op t ihe iht =>
      intro operators results hop
      obtain ⟨operators', results', last, hrun, hend⟩ := ihe operators results hop
      obtain ⟨before, below, hor, hors⟩ := hend.onOr hop last
      obtain ⟨operators'', results'', last', hrun', hend'⟩ := iht (.or :: before) below (.inr rfl)
      refine ⟨operators'', results'', last', ?_, _, _, _, _, hors, hend', rfl⟩
      rw [tokens, onTokens_append, hrun, Option.bind_some, onTokens_operator op (by decide), hor,
        Option.bind_some, hrun']

/-- The tokens of a formula are given its value. -/
theorem checkMatch_tokens (checker : Text → Bool) (f : Formula .expr) :
    checkMatch checker f.tokens =
      if f.value checker then .retTrue else .retFalse := by
  obtain ⟨operators', results', last, hrun, hend⟩ := Formula.reads checker f [] [] (.inl rfl)
  rw [checkMatch, hrun, Option.bind_some, hend.finish]
  rfl

end Run

end Edm.Base
