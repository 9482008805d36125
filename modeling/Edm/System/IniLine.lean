import Edm.Network.IPRangeMap
import Edm.Support.LineEnds
import Edm.Support.Split

/-!
# System — IniLine

The lines of a configuration file (`cpplib/system/iniconfigureparser.cpp`).  A line that ends with a
backslash goes on; in a line stands a section, or a key with its value, and a comment.  Quotes and
backslashes hide what would end a value.

* `decodeValue_escape`: **what is escaped is read back**, whatever it is.
* `parseLine_entry`, `parseLine_section`: what is found in a line that is written by the rules.
-/

namespace Edm.System
open Support
open Network (convertHexNumberToDec)

/-! ### The code -/

/-- `IniConfigureParser`; `getenv` is the environment behind the variables that were set. -/
structure IniConfigureParser where
  bReplaceEnvVar : Bool
  bSkipError : Bool
  getReplaceEnvVar : Text → Option Text

/-- `IniConfigureParser::m_strCommentSymbol`. -/
def commentSymbol : Text := "#;!".toList

/-- `StringFunc::g_strSpaceString`. -/
def spaceString : Text := [' ', '\t', '\r', '\n', '\x0c', '\x0b']

/-- `StringFunc::trim`. -/
def trim (strVal : Text) : Text := eraseFront spaceString (eraseBack spaceString strVal)

/-- `findTheEnd`: what stands before the first `chEnd` that is not escaped, and what is left. -/
def findTheEnd (chEnd : Char) : Text → Text × Text
  | [] => ([], [])
  | '\\' :: d :: s => ('\\' :: d :: (findTheEnd chEnd s).1, (findTheEnd chEnd s).2)
  | c :: s =>
      if c = chEnd then ([], c :: s)
      else (c :: (findTheEnd chEnd s).1, (findTheEnd chEnd s).2)

theorem length_findTheEnd (chEnd : Char) (s : Text) :
    (findTheEnd chEnd s).1.length + (findTheEnd chEnd s).2.length = s.length := by
  induction s using findTheEnd.induct chEnd with
  | case1 => rfl
  | case2 d s ih =>
      rw [findTheEnd]
      simp only [List.length_cons]
      omega
  | case3 s hc =>
      rw [findTheEnd.eq_3 chEnd _ _ hc, if_pos rfl]
      exact Nat.zero_add _
  | case4 c s hc hne ih =>
      rw [findTheEnd.eq_3 chEnd _ _ hc, if_neg hne]
      simp only [List.length_cons]
      omega

/-- `needNextLine`. -/
def needNextLine (strCurrentLine : Text) : Bool :=
  if strCurrentLine.getLast? ≠ some '\\' then false
  else if strCurrentLine.length = 1 then true
  else if strCurrentLine[strCurrentLine.length - 2]? ≠ some '\\' then true
  else
    let nPos := (eraseBack ['\\'] strCurrentLine).length
    decide ((strCurrentLine.length - nPos) % 2 ≠ 0)

/-- What a backslash makes of the character behind it. -/
def unescape (ch : Char) : Char :=
  if ch = 'r' then '\r'
  else if ch = 'n' then '\n'
  else if ch = 't' then '\t'
  else if ch = 'f' then '\x0c'
  else if ch = 'v' then '\x0b'
  else if ch.isDigit then Char.ofNat (ch.toNat - 48)
  else ch

/-- `\xHH`, if two numbers are there. -/
def hexChar : Text → Option (Char × Text)
  | a :: b :: s =>
      let n1 := convertHexNumberToDec a
      let n2 := convertHexNumberToDec b
      if 0 ≤ n1 ∧ 0 ≤ n2 then some (Char.ofNat ((n1 * 16 + n2).toNat % 256), s) else none
  | _ => none

theorem length_hexChar {s rest : Text} {c : Char} (h : hexChar s = some (c, rest)) :
    rest.length < s.length := by
  match s with
  | [] | [_] => cases h
  | a :: b :: s =>
      rw [hexChar] at h
      obtain ⟨-, h⟩ := Option.ite_none_right_eq_some.mp h
      obtain ⟨-, rfl⟩ := Prod.mk.inj (Option.some.inj h)
      simp only [List.length_cons]
      omega

namespace IniConfigureParser
variable (p : IniConfigureParser)

/-- A variable of the environment, from the `(` behind its `$`: what stands for it, and what is
left. -/
def envVar : Text → Option (Text × Text)
  | '(' :: s =>
      match findTheEnd ')' s with
      | (_, []) => none
      | (strKey, c :: rest) =>
          some ((p.getReplaceEnvVar strKey).getD ('$' :: '(' :: (strKey ++ [c])), rest)
  | _ => none

theorem length_envVar {s v rest : Text} (h : p.envVar s = some (v, rest)) :
    rest.length < s.length := by
  unfold envVar at h
  split at h
  next s =>
      have hlen := length_findTheEnd ')' s
      split at h
      next => cases h
      next strKey c rest' hend =>
          rw [hend] at hlen
          obtain ⟨-, rfl⟩ := Prod.mk.inj (Option.some.inj h)
          simp only [List.length_cons] at hlen ⊢
          omega
  next => cases h

/-- `decodeValue`. -/
def decodeValue : Text → Text
  | [] => []
  | '\\' :: ch :: s =>
      match _h : if ch = 'x' then hexChar s else none with
      | some (c, rest) => c :: decodeValue rest
      | none => unescape ch :: decodeValue s
  | ch :: s =>
      match _h : if p.bReplaceEnvVar ∧ ch = '$' then p.envVar s else none with
      | some (v, rest) => v ++ decodeValue rest
      | none => ch :: decodeValue s
termination_by s => s.length
decreasing_by
  · have hlen := length_hexChar (Option.ite_none_right_eq_some.mp _h).2
    simp only [List.length_cons]
    omega
  · simp only [List.length_cons]
    omega
  · have hlen := p.length_envVar (Option.ite_none_right_eq_some.mp _h).2
    simp only [List.length_cons]
    omega
  · simp only [List.length_cons]
    omega

end IniConfigureParser

/-- `pKeyValueSplitPos`, `pSpacePos` and `pCommentPos`. -/
structure Marks where
  split : Option Nat
  space : Option Nat
  comment : Option Nat

/-- Behind the quote `ch`: how long the quoted text is, and what stands behind it. -/
def skipQuoted (ch : Char) (s : Text) : Option (Nat × Text) :=
  match findTheEnd ch s with
  | (_, []) => none
  | (quoted, _ :: rest) => some (quoted.length, rest)

theorem length_skipQuoted {ch : Char} {s rest : Text} {n : Nat}
    (h : skipQuoted ch s = some (n, rest)) : rest.length < s.length := by
  have hlen := length_findTheEnd ch s
  unfold skipQuoted at h
  split at h
  next => cases h
  next hend =>
      cases h
      rw [hend] at hlen
      simp only [List.length_cons] at hlen
      omega

/-- The loop of `parseLine`, from the character `i` on. -/
def findMarks (i : Nat) (m : Marks) : Text → Marks
  | [] => m
  | ch :: s =>
      if ch = '\'' ∨ ch = '"' then
        match _h : skipQuoted ch s with
        | none => findMarks (i + 1) m s
        | some (n, rest) => findMarks (i + n + 2) m rest
      else if ch = '=' ∧ m.split = none then findMarks (i + 1) { m with split := some i } s
      else if (ch = ' ' ∨ ch = '\t') ∧ m.space = none then
        findMarks (i + 1) { m with space := some i } s
      else if m.comment = none ∧ ch ∈ commentSymbol then
        findMarks (i + 1) { m with comment := some i } s
      else if ch = '\\' then findMarks (i + 2) m (s.drop 1)
      else findMarks (i + 1) m s
termination_by s => s.length
decreasing_by
  · simp
  · have hlen := length_skipQuoted _h
    simp only [List.length_cons]
    omega
  all_goals
    simp only [List.length_cons, List.length_drop]
    omega

/-- A quoted value without its quotes. -/
def unquote (strValue : Text) : Text :=
  match strValue with
  | c :: d :: s =>
      if c = '\'' ∨ c = '"' then
        match findTheEnd c (d :: s) with
        | (_, []) => strValue
        | (inner, _ :: _) => inner
      else strValue
  | _ => strValue

/-- The text of an `IniParserException`. -/
abbrev IniParserException := Text

/-- `parseLine`: the key, the value and the comment. -/
def IniConfigureParser.parseLine (p : IniConfigureParser) (strLine : Text) :
    Except IniParserException (Option (Text × Text × Text)) :=
  match strLine with
  | [] => .ok none
  | c :: _ =>
      let m := findMarks 0 ⟨none, none, none⟩ strLine
      let nComment := m.comment.getD strLine.length
      let strComment := strLine.drop (nComment + 1)
      if nComment = 0 then .ok none
      else if c = '[' then .ok (some (strLine.take nComment, [], strComment))
      else
        let nSplit := (m.split.or m.space).getD nComment
        let strKey := trim (strLine.take nSplit)
        if strKey.isEmpty then .ok none
        else if nSplit ≥ nComment ∧ !p.bSkipError then
          .error ("INI configure key/value line not found split symbol: ".toList ++ strLine)
        else
          let strValue := trim ((strLine.take nComment).drop (nSplit + 1))
          .ok (some (strKey, p.decodeValue (unquote strValue), strComment))

/-! ### What is escaped -/

/-- How a character is written inside the quotes `q`. -/
def escapeChar (q c : Char) : Text :=
  if c = '\r' then ['\\', 'r']
  else if c = '\n' then ['\\', 'n']
  else if c = '\\' ∨ c = q ∨ c = '$' then ['\\', c]
  else [c]

/-- How a value is written inside the quotes `q`. -/
def escape (q : Char) (v : Text) : Text := v.flatMap (escapeChar q)

/-- The quotes. -/
def IsQuote (q : Char) : Prop := q = '\'' ∨ q = '"'

section Escape
variable {q : Char}

/-- A character is written as itself, or behind a backslash. -/
theorem escapeChar_cases (hq : IsQuote q) (c : Char) :
    (∃ d, escapeChar q c = ['\\', d] ∧ unescape d = c ∧ d ≠ 'x') ∨
      (escapeChar q c = [c] ∧ c ≠ '\\' ∧ c ≠ q ∧ c ≠ '$') := by
  unfold escapeChar
  split
  next hc => exact .inl ⟨'r', rfl, by rw [hc]; rfl, by simp⟩
  next =>
    split
    next hc => exact .inl ⟨'n', rfl, by rw [hc]; rfl, by simp⟩
    next =>
      split
      next hc =>
        refine .inl ⟨c, rfl, ?_, ?_⟩
        · rcases hc with rfl | rfl | rfl
          · rfl
          · rcases hq with rfl | rfl
            · rfl
            · rfl
          · rfl
        · rcases hc with rfl | rfl | rfl
          · simp
          · rcases hq with rfl | rfl
            · simp
            · simp
          · simp
      next hc =>
        rw [not_or, not_or] at hc
        exact .inr ⟨rfl, hc.1, hc.2.1, hc.2.2⟩

theorem findTheEnd_char {chEnd c : Char} (hc : c ≠ '\\') (hend : c ≠ chEnd) (s : Text) :
    findTheEnd chEnd (c :: s) = (c :: (findTheEnd chEnd s).1, (findTheEnd chEnd s).2) := by
  rw [findTheEnd.eq_3 _ _ _ fun _ _ h => absurd h hc, if_neg hend]

theorem findTheEnd_end {chEnd : Char} (hend : chEnd ≠ '\\') (s : Text) :
    findTheEnd chEnd (chEnd :: s) = ([], chEnd :: s) := by
  rw [findTheEnd.eq_3 _ _ _ fun _ _ h => absurd h hend, if_pos rfl]

theorem findTheEnd_escape (hq : IsQuote q) (v s : Text) :
    findTheEnd q (escape q v ++ q :: s) = (escape q v, q :: s) := by
  induction v with
  | nil =>
      refine findTheEnd_end ?_ s
      rcases hq with rfl | rfl
      · simp
      · simp
  | cons c v ih =>
      rw [escape, List.flatMap_cons, List.append_assoc]
      rw [escape] at ih
      rcases escapeChar_cases hq c with ⟨d, hd, -⟩ | ⟨hc, hback, hne, -⟩
      · rw [hd, List.cons_append, List.cons_append, List.nil_append, findTheEnd, ih]
        rfl
      · rw [hc, List.cons_append, List.nil_append, findTheEnd_char hback hne, ih]
        rfl

theorem IniConfigureParser.decodeValue_char (p : IniConfigureParser) {c : Char} (hc : c ≠ '\\')
    (hne : c ≠ '$') (s : Text) : p.decodeValue (c :: s) = c :: p.decodeValue s := by
  rw [decodeValue.eq_3 _ _ _ fun _ _ h => absurd h hc]
  have hnone : (if p.bReplaceEnvVar ∧ c = '$' then p.envVar s else none) = none :=
    if_neg fun h => hne h.2
  split
  next h =>
    rw [hnone] at h
    cases h
  next => rfl

theorem IniConfigureParser.decodeValue_back (p : IniConfigureParser) {d : Char} (hd : d ≠ 'x')
    (s : Text) : p.decodeValue ('\\' :: d :: s) = unescape d :: p.decodeValue s := by
  rw [decodeValue.eq_2]
  have hnone : (if d = 'x' then hexChar s else none) = none := if_neg hd
  split
  next h =>
    rw [hnone] at h
    cases h
  next => rfl

/-- What is escaped is read back. -/
theorem decodeValue_escape (p : IniConfigureParser) (hq : IsQuote q) (v : Text) :
    p.decodeValue (escape q v) = v := by
  induction v with
  | nil => rw [escape, List.flatMap_nil, IniConfigureParser.decodeValue]
  | cons c v ih =>
      rw [escape, List.flatMap_cons]
      rw [escape] at ih
      rcases escapeChar_cases hq c with ⟨d, hd, hc, hx⟩ | ⟨hc, hback, -, hne⟩
      · rw [hd, List.cons_append, List.cons_append, List.nil_append, p.decodeValue_back hx, ih, hc]
      · rw [hc, List.cons_append, List.nil_append, p.decodeValue_char hback hne, ih]

theorem decodeValue_plain (p : IniConfigureParser) {v : Text} (hv : '\\' ∉ v ∧ '$' ∉ v) :
    p.decodeValue v = v := by
  induction v with
  | nil => rw [IniConfigureParser.decodeValue]
  | cons c v ih =>
      simp only [List.mem_cons, not_or] at hv
      rw [p.decodeValue_char (Ne.symm hv.1.1) (Ne.symm hv.2.1), ih ⟨hv.1.2, hv.2.2⟩]

end Escape

/-! ### Blanks at both ends -/

/-- There is no blank at the ends. -/
def Trimmed (s : Text) : Prop :=
  (∀ c ∈ s.head?, c ∉ spaceString) ∧ ∀ c ∈ s.getLast?, c ∉ spaceString

theorem eraseFront_pad {cls pad s : Text} (hpad : ∀ c ∈ pad, c ∈ cls)
    (hs : ∀ c ∈ s.head?, c ∉ cls) : eraseFront cls (pad ++ s) = s := by
  refine (takeWhile_run (fun c hc => List.contains_iff_mem.mpr (hpad c hc)) fun c hc => ?_).2
  exact Bool.eq_false_iff.mpr fun hin => hs c hc (List.contains_iff_mem.mp hin)

theorem trim_pad {a s b : Text} (ha : ∀ c ∈ a, c ∈ spaceString) (hs : Trimmed s)
    (hb : ∀ c ∈ b, c ∈ spaceString) : trim (a ++ (s ++ b)) = s := by
  rw [trim]
  by_cases hnil : s = []
  · subst hnil
    have hback : eraseBack spaceString (a ++ ([] ++ b)) = [] := by
      rw [← List.nil_append (a ++ ([] ++ b))]
      refine eraseBack_append (by simp) fun c hc => ?_
      rcases List.mem_append.mp hc with hc | hc
      · exact ha c hc
      · exact hb c (by simpa using hc)
    rw [hback]
    rfl
  · rw [← List.append_assoc, eraseBack_append (fun c hc => hs.2 c ?_) hb,
      eraseFront_pad ha hs.1]
    rwa [List.getLast?_append_of_ne_nil _ hnil] at hc

/-! ### What is found in a line -/

/-- Neither quoted nor escaped, and no comment. -/
def IsPlain (s : Text) : Prop := ∀ c ∈ s, c ≠ '\'' ∧ c ≠ '"' ∧ c ≠ '\\' ∧ c ∉ commentSymbol

/-- A plain text has neither quotes nor a comment. -/
theorem findMarks_plain {s : Text} (hs : IsPlain s) (i : Nat) (m : Marks) (t : Text) :
    ∃ split space, findMarks i m (s ++ t) = findMarks (i + s.length) ⟨split, space, m.comment⟩ t ∧
      ('=' ∉ s ∨ m.split ≠ none → split = m.split) := by
  induction s generalizing i m with
  | nil => exact ⟨m.split, m.space, rfl, fun _ => rfl⟩
  | cons c s ih =>
      obtain ⟨⟨hq₁, hq₂, hback, hsym⟩, hs⟩ := List.forall_mem_cons.mp hs
      have hlen : i + 1 + s.length = i + (s.length + 1) := by omega
      rw [List.cons_append, findMarks, if_neg (by simp [hq₁, hq₂]), List.length_cons, ← hlen]
      split
      next hsplit =>
        obtain ⟨split, space, heq, hkeeps⟩ := ih hs (i + 1) { m with split := some i }
        refine ⟨split, space, heq, fun h => ?_⟩
        rcases h with h | h
        · exact absurd (by rw [hsplit.1]; exact List.mem_cons_self) h
        · exact absurd hsplit.2 h
      next =>
        have hrest : '=' ∉ c :: s ∨ m.split ≠ none → '=' ∉ s ∨ m.split ≠ none :=
          Or.imp_left fun h hin => h (List.mem_cons_of_mem c hin)
        split
        next =>
          obtain ⟨split, space, heq, hkeeps⟩ := ih hs (i + 1) { m with space := some i }
          exact ⟨split, space, heq, fun h => hkeeps (hrest h)⟩
        next =>
          have hnone : ¬ (m.comment = none ∧ c ∈ commentSymbol) := fun h => hsym h.2
          rw [if_neg hnone]
          obtain ⟨split, space, heq, hkeeps⟩ := ih hs (i + 1) m
          exact ⟨split, space, heq, fun h => hkeeps (hrest h)⟩

theorem findMarks_quoted {q : Char} (hq : IsQuote q) (v : Text) (i : Nat) (m : Marks) (t : Text) :
    findMarks i m (q :: (escape q v ++ q :: t)) = findMarks (i + (escape q v).length + 2) m t := by
  have hskip : skipQuoted q (escape q v ++ q :: t) = some ((escape q v).length, t) := by
    rw [skipQuoted, findTheEnd_escape hq]
  have hquote : q = '\'' ∨ q = '"' := hq
  rw [findMarks, if_pos hquote]
  split
  next h =>
    rw [hskip] at h
    cases h
  next h =>
    rw [hskip] at h
    cases h
    rfl

/-- What is found stays. -/
theorem findMarks_keeps (i : Nat) (m : Marks) (s : Text) :
    (m.split ≠ none → (findMarks i m s).split = m.split) ∧
      (m.comment ≠ none → (findMarks i m s).comment = m.comment) := by
  fun_induction findMarks i m s with
  | case1 => exact ⟨fun _ => rfl, fun _ => rfl⟩
  | case2 _ _ _ _ _ _ ih => exact ih
  | case3 _ _ _ _ _ _ _ _ ih => exact ih
  | case4 _ _ _ _ _ hsplit ih => exact ⟨fun h => absurd hsplit.2 h, ih.2⟩
  | case5 _ _ _ _ _ _ _ ih => exact ih
  | case6 _ _ _ _ _ _ _ hcomment ih => exact ⟨ih.1, fun h => absurd hcomment.1 h⟩
  | case7 _ _ _ _ _ _ _ ih => exact ih
  | case8 _ _ _ _ _ _ _ _ _ ih => exact ih

/-! ### Lines that are written by the rules -/

/-- Blanks in a line. -/
def IsBlanks (b : Text) : Prop := ∀ c ∈ b, c = ' ' ∨ c = '\t'

/-- A comment with its symbol, or nothing. -/
def IsComment (t : Text) : Prop := ∀ c ∈ t.head?, c ∈ commentSymbol

/-- The value `v` is spelled `t`: in quotes, or as it is. -/
def Spelled (v t : Text) : Prop :=
  (∃ q, IsQuote q ∧ t = q :: (escape q v ++ [q])) ∨
    (t = v ∧ IsPlain v ∧ '$' ∉ v ∧ Trimmed v)

/-- A key with its value, in a line. -/
structure Entry where
  key : Text
  value : Text
  spelled : Text
  before : Text
  after : Text
  behind : Text
  comment : Text
  ne_nil : key ≠ []
  isKey : IsPlain key ∧ '=' ∉ key ∧ Trimmed key ∧ key.head? ≠ some '['
  isSpelled : Spelled value spelled
  areBlanks : IsBlanks before ∧ IsBlanks after ∧ IsBlanks behind
  isComment : IsComment comment

/-- What stands between the `=` and the comment. -/
def Entry.right (e : Entry) : Text := e.after ++ (e.spelled ++ e.behind)

def Entry.line (e : Entry) : Text := (e.key ++ e.before) ++ ('=' :: (e.right ++ e.comment))

/-- The path of a section, in a line. -/
structure SectionLine where
  names : List Text
  behind : Text
  comment : Text
  areNames : ∀ n ∈ names, n ≠ [] ∧ IsPlain n ∧ '/' ∉ n ∧ ']' ∉ n
  areBlanks : IsBlanks behind
  isComment : IsComment comment

/-- The names with slashes between them. -/
def pathText (names : List Text) : Text := ['/'].intercalate names

def SectionLine.head (s : SectionLine) : Text := '[' :: (pathText s.names ++ (']' :: s.behind))

def SectionLine.line (s : SectionLine) : Text := s.head ++ s.comment

/-! ### What `parseLine` finds in them -/

theorem IsBlanks.isPlain {b : Text} (hb : IsBlanks b) : IsPlain b := by
  intro c hc
  rcases hb c hc with rfl | rfl
  · exact ⟨by simp, by simp, by simp, by simp [commentSymbol]⟩
  · exact ⟨by simp, by simp, by simp, by simp [commentSymbol]⟩

theorem IsBlanks.isSpace {b : Text} (hb : IsBlanks b) : ∀ c ∈ b, c ∈ spaceString := by
  intro c hc
  rcases hb c hc with rfl | rfl
  · exact List.mem_cons_self
  · exact List.mem_cons_of_mem _ List.mem_cons_self

theorem IsBlanks.eq_not_mem {b : Text} (hb : IsBlanks b) : '=' ∉ b := by
  intro h
  rcases hb _ h with h | h
  · cases h
  · cases h

theorem IsPlain.append {s t : Text} (hs : IsPlain s) (ht : IsPlain t) : IsPlain (s ++ t) := by
  intro c hc
  rcases List.mem_append.mp hc with hc | hc
  · exact hs c hc
  · exact ht c hc

theorem IsQuote.not_space {q : Char} (hq : IsQuote q) : q ∉ spaceString := by
  rcases hq with rfl | rfl
  · simp [spaceString]
  · simp [spaceString]

theorem findMarks_comment {t : Text} (ht : IsComment t) (i : Nat) {m : Marks}
    (hm : m.comment = none) : (findMarks i m t).comment.getD (i + t.length) = i ∧
      (m.split ≠ none → (findMarks i m t).split = m.split) := by
  refine ⟨?_, (findMarks_keeps i m t).1⟩
  cases t with
  | nil =>
      rw [findMarks, hm]
      rfl
  | cons sym text =>
      have hsym : sym = '#' ∨ sym = ';' ∨ sym = '!' := by simpa [commentSymbol] using ht sym rfl
      have hfound : findMarks i m (sym :: text)
          = findMarks (i + 1) { m with comment := some i } text := by
        rw [findMarks, hm]
        rcases hsym with rfl | rfl | rfl
        · simp [commentSymbol]
        · simp [commentSymbol]
        · simp [commentSymbol]
      rw [hfound, (findMarks_keeps (i + 1) _ text).2 (by simp)]
      rfl

theorem Spelled.trimmed {v t : Text} (h : Spelled v t) : Trimmed t := by
  rcases h with ⟨q, hq, rfl⟩ | ⟨rfl, -, -, h⟩
  · refine ⟨fun c hc => ?_, fun c hc => ?_⟩
    · obtain rfl := Option.some.inj hc
      exact hq.not_space
    · rw [← List.cons_append, List.getLast?_append, List.getLast?_singleton] at hc
      obtain rfl := Option.some.inj hc
      exact hq.not_space
  · exact h

theorem findMarks_spelled {v t : Text} (h : Spelled v t) (i : Nat) {m : Marks}
    (hm : m.split ≠ none) (rest : Text) : ∃ space, findMarks i m (t ++ rest)
      = findMarks (i + t.length) ⟨m.split, space, m.comment⟩ rest := by
  rcases h with ⟨q, hq, rfl⟩ | ⟨rfl, hplain, -⟩
  · refine ⟨m.space, ?_⟩
    rw [List.cons_append, List.append_assoc, List.singleton_append, findMarks_quoted hq]
    simp [Nat.add_assoc]
  · obtain ⟨split, space, heq, hkeeps⟩ := findMarks_plain hplain i m rest
    rw [hkeeps (.inr hm)] at heq
    exact ⟨space, heq⟩

theorem decodeValue_spelled (p : IniConfigureParser) {v t : Text} (h : Spelled v t) :
    p.decodeValue (unquote t) = v := by
  rcases h with ⟨q, hq, rfl⟩ | ⟨rfl, hplain, hdollar, -⟩
  · have hend := findTheEnd_escape hq v []
    have hunquote : unquote (q :: (escape q v ++ [q])) = escape q v := by
      obtain ⟨d, s, hds⟩ := List.exists_cons_of_ne_nil (l := escape q v ++ [q]) (by simp)
      have hquote : q = '\'' ∨ q = '"' := hq
      rw [hds] at hend ⊢
      rw [unquote, if_pos hquote, hend]
    rw [hunquote, decodeValue_escape p hq]
  · have hunquote : unquote t = t := by
      unfold unquote
      split
      next c d s =>
        have hc := hplain c List.mem_cons_self
        rw [if_neg (by simp [hc.1, hc.2.1])]
      next => rfl
    rw [hunquote, decodeValue_plain p ⟨fun h => (hplain _ h).2.2.1 rfl, hdollar⟩]

/-- The marks of an entry: its `=` is found, and where its comment begins. -/
theorem findMarks_entry (e : Entry) : (findMarks 0 ⟨none, none, none⟩ e.line).split
      = some (e.key ++ e.before).length ∧
    (findMarks 0 ⟨none, none, none⟩ e.line).comment.getD e.line.length
      = (e.key ++ e.before).length + 1 + e.right.length := by
  obtain ⟨hplain, heq, -⟩ := e.isKey
  obtain ⟨hbefore, hafter, hbehind⟩ := e.areBlanks
  have hleft : '=' ∉ e.key ++ e.before := by
    rw [List.mem_append, not_or]
    exact ⟨heq, hbefore.eq_not_mem⟩
  obtain ⟨split, space, h, hsplit⟩ := findMarks_plain (hplain.append hbefore.isPlain) 0
    ⟨none, none, none⟩ ('=' :: (e.right ++ e.comment))
  obtain rfl := hsplit (.inl hleft)
  rw [Nat.zero_add] at h
  have hmark : findMarks (e.key ++ e.before).length ⟨none, space, none⟩
      ('=' :: (e.right ++ e.comment)) = findMarks ((e.key ++ e.before).length + 1)
        ⟨some (e.key ++ e.before).length, space, none⟩ (e.right ++ e.comment) := by
    rw [findMarks]
    simp
  obtain ⟨split₁, space₁, h₁, hsplit₁⟩ := findMarks_plain hafter.isPlain
    ((e.key ++ e.before).length + 1) ⟨some (e.key ++ e.before).length, space, none⟩
    (e.spelled ++ e.behind ++ e.comment)
  obtain rfl := hsplit₁ (.inr (by simp))
  obtain ⟨space₂, h₂⟩ := findMarks_spelled e.isSpelled
    ((e.key ++ e.before).length + 1 + e.after.length)
    (m := ⟨some (e.key ++ e.before).length, space₁, none⟩) (by simp) (e.behind ++ e.comment)
  obtain ⟨split₃, space₃, h₃, hsplit₃⟩ := findMarks_plain hbehind.isPlain
    ((e.key ++ e.before).length + 1 + e.after.length + e.spelled.length)
    ⟨some (e.key ++ e.before).length, space₂, none⟩ e.comment
  obtain rfl := hsplit₃ (.inr (by simp))
  have hall : findMarks 0 ⟨none, none, none⟩ e.line
      = findMarks ((e.key ++ e.before).length + 1 + e.right.length)
        ⟨some (e.key ++ e.before).length, space₃, none⟩ e.comment := by
    have hlen : (e.key ++ e.before).length + 1 + e.after.length + e.spelled.length + e.behind.length
        = (e.key ++ e.before).length + 1 + (e.after ++ (e.spelled ++ e.behind)).length := by
      simp only [List.length_append]
      omega
    rw [Entry.line, h, hmark, Entry.right, List.append_assoc, h₁, List.append_assoc, h₂, h₃, hlen]
  have hcomment := findMarks_comment e.isComment
    ((e.key ++ e.before).length + 1 + e.right.length)
    (m := ⟨some (e.key ++ e.before).length, space₃, none⟩) rfl
  have hlen : e.line.length
      = (e.key ++ e.before).length + 1 + e.right.length + e.comment.length := by
    simp only [Entry.line, Entry.right, List.length_append, List.length_cons]
    omega
  rw [hall, hlen]
  exact ⟨hcomment.2 (by simp), hcomment.1⟩

theorem parseLine_entry (p : IniConfigureParser) (e : Entry) :
    p.parseLine e.line = .ok (some (e.key, e.value, e.comment.drop 1)) := by
  obtain ⟨hsplit, hcomment⟩ := findMarks_entry e
  obtain ⟨c, key, hkey⟩ := List.exists_cons_of_ne_nil e.ne_nil
  have hc : c ≠ '[' := by
    have hhead := e.isKey.2.2.2
    rw [hkey] at hhead
    simpa using hhead
  have hline : e.line = c :: (key ++ e.before ++ ('=' :: (e.right ++ e.comment))) := by
    rw [Entry.line, hkey]
    rfl
  have hsliced : e.line = (e.key ++ e.before ++ ['=']) ++ e.right ++ e.comment := by
    rw [Entry.line]
    simp
  have hleft : (e.key ++ e.before ++ ['=']).length = (e.key ++ e.before).length + 1 :=
    List.length_append
  have htake : e.line.take (e.key ++ e.before).length = e.key ++ e.before := by
    rw [Entry.line, List.take_left]
  have hvalue : (e.line.take ((e.key ++ e.before).length + 1 + e.right.length)).drop
      ((e.key ++ e.before).length + 1) = e.right := by
    rw [hsliced, List.take_left' (by rw [List.length_append, hleft]), List.drop_left' hleft]
  have hdrop : e.line.drop ((e.key ++ e.before).length + 1 + e.right.length + 1)
      = e.comment.drop 1 := by
    rw [hsliced, ← List.drop_drop, List.drop_left' (by rw [List.length_append, hleft])]
  have hname : trim (e.key ++ e.before) = e.key := by
    have hpad := trim_pad (a := []) (by simp) e.isKey.2.2.1 e.areBlanks.1.isSpace
    rwa [List.nil_append] at hpad
  have hright : trim e.right = e.spelled :=
    trim_pad e.areBlanks.2.1.isSpace e.isSpelled.trimmed e.areBlanks.2.2.isSpace
  unfold IniConfigureParser.parseLine
  rw [hline]
  dsimp only
  rw [← hline, hsplit, hcomment, Option.some_or, Option.getD_some]
  rw [if_neg (by omega), if_neg hc, htake, hname, if_neg (by simpa using e.ne_nil), if_neg (by omega),
    hvalue, hright, decodeValue_spelled p e.isSpelled, hdrop]

theorem mem_pathText {names : List Text} {c : Char} (h : c ∈ pathText names) :
    c = '/' ∨ ∃ n ∈ names, c ∈ n := by
  by_contra hno
  rw [not_or] at hno
  exact not_mem_intercalate hno.1 (fun n hn hc => hno.2 ⟨n, hn, hc⟩) h

theorem SectionLine.mem_path (s : SectionLine) {c : Char} (h : c ∈ pathText s.names) :
    (c ≠ '\'' ∧ c ≠ '"' ∧ c ≠ '\\' ∧ c ∉ commentSymbol) ∧ c ≠ ']' := by
  rcases mem_pathText h with rfl | ⟨n, hn, hc⟩
  · simp [commentSymbol]
  · obtain ⟨-, hplain, -, hend⟩ := s.areNames n hn
    exact ⟨hplain c hc, ne_of_mem_of_not_mem hc hend⟩

theorem SectionLine.isPlain (s : SectionLine) : IsPlain s.head := by
  intro c hc
  rw [SectionLine.head, List.mem_cons, List.mem_append, List.mem_cons] at hc
  rcases hc with rfl | hc | rfl | hc
  · simp [commentSymbol]
  · exact (s.mem_path hc).1
  · simp [commentSymbol]
  · exact s.areBlanks.isPlain c hc

theorem parseLine_section (p : IniConfigureParser) (s : SectionLine) :
    p.parseLine s.line = .ok (some (s.head, [], s.comment.drop 1)) := by
  obtain ⟨split, space, hmarks, -⟩ := findMarks_plain s.isPlain 0 ⟨none, none, none⟩ s.comment
  have hcomment := (findMarks_comment s.isComment (0 + s.head.length)
    (m := ⟨split, space, none⟩) rfl).1
  have hlen : s.line.length = 0 + s.head.length + s.comment.length := by
    rw [SectionLine.line, List.length_append, Nat.zero_add]
  have hline : s.line = '[' :: (pathText s.names ++ (']' :: s.behind) ++ s.comment) := rfl
  have hdrop : s.line.drop (s.head.length + 1) = s.comment.drop 1 := by
    rw [SectionLine.line, ← List.drop_drop, List.drop_left]
  rw [← hmarks, ← hlen] at hcomment
  unfold IniConfigureParser.parseLine
  rw [hline]
  dsimp only
  rw [← hline]
  have hfound : (findMarks 0 ⟨none, none, none⟩ s.line).comment.getD s.line.length
      = s.head.length := by
    rw [SectionLine.line] at hcomment ⊢
    rw [hcomment, Nat.zero_add]
  rw [hfound, if_neg (by simp [SectionLine.head]), if_pos rfl, hdrop, SectionLine.line,
    List.take_left]

theorem findTheEnd_section (s : SectionLine) :
    findTheEnd ']' (s.head.drop 1) = (pathText s.names, ']' :: s.behind) := by
  have hrun : ∀ t : Text, (∀ c ∈ t, c ≠ '\\' ∧ c ≠ ']') →
      findTheEnd ']' (t ++ (']' :: s.behind)) = (t, ']' :: s.behind) := by
    intro t
    induction t with
    | nil => exact fun _ => findTheEnd_end (by simp) s.behind
    | cons c t ih =>
        intro ht
        obtain ⟨⟨hback, hend⟩, ht⟩ := List.forall_mem_cons.mp ht
        rw [List.cons_append, findTheEnd_char hback hend, ih ht]
  exact hrun _ fun c hc => ⟨(s.mem_path hc).1.2.2.1, (s.mem_path hc).2⟩

/-- A line that begins with the symbol of a comment is one. -/
theorem parseLine_comment (p : IniConfigureParser) {t : Text} (ht : IsComment t) :
    p.parseLine t = .ok none := by
  cases t with
  | nil => rfl
  | cons sym text =>
      have hcomment := (findMarks_comment ht 0 (m := ⟨none, none, none⟩) rfl).1
      rw [Nat.zero_add] at hcomment
      unfold IniConfigureParser.parseLine
      dsimp only
      rw [hcomment, if_pos rfl]

end Edm.System
