import Edm.Support.Framing
import Edm.Smtp.Context

/-!
# Smtp — the reply of an exchanger

`SmtpSvr::recv_line` reads a reply of the mail exchanger.  It passes over the lines `ddd-text` and
returns the first other one, with its line end, when it is `ddd text` or `ddd`; any other line is
an error.  The place of a line end is kept in an `int`.

* `scan_of_cut`: what the inner loop does with the part of a stream that is there.
* `recvLine_of_verdict`: the cuts do not matter for what is returned.
* **The last line is returned** when the lines are shorter than `2^31` bytes, and **an error** when
  the first line is no reply; the exact conditions are `LinesFit` and `ErrorSeen`
  (`recvLine_iff`).
-/

namespace Edm.Smtp.RecvLine
open Support

/-! ### The code -/

/-- What a line of a reply is. -/
inductive Kind where
  | error | continued | last
  deriving DecidableEq

/-- What stands behind the digits: the `switch` on `line[3]`. -/
def kindBehind : Text → Kind
  | [] => .last
  | c :: _ => if c = ' ' then .last else if c = '-' then .continued else .error

/-- The tests of a line. -/
def kind : Text → Kind
  | a :: b :: c :: rest =>
      if !a.isDigit || !b.isDigit || !c.isDigit then .error else kindBehind rest
  | _ => .error

/-- `int poscrlf = tmpdata.find(SMTP_CRLF)`; `npos` is -1. -/
def posCrlf (tmpdata : Text) : Int :=
  match findFrom smtpCrlf tmpdata 0 with
  | none => -1
  | some n => int32 n

/-- `substr(0, n)`.  A negative `int` is a `size_t` above every length. -/
def substr (s : Text) (n : Int) : Text := if n < 0 then s else s.take n.toNat

/-- `erase(0, n)`. -/
def erase (s : Text) (n : Int) : Text := if n < 0 then [] else s.drop n.toNat

/-- How the inner loop ends: the function returns a value, with `data`; more bytes are needed; or
it goes round for ever. -/
inductive Scan where
  | returned (value : Int) (data : Text)
  | more (tmpdata : Text)
  | spins
  deriving DecidableEq

/-- The inner loop. -/
def scan (tmpdata : Text) : Scan :=
  if tmpdata.length > 0 then
    let pos := posCrlf tmpdata
    if pos = -1 then .more tmpdata
    else
      let line := substr tmpdata pos
      match kind line with
      | .error => .returned (-1) []
      | .last => .returned 0 (line ++ smtpCrlf)
      | .continued =>
          let rest := erase tmpdata (pos + 2)
          if rest.length < tmpdata.length then scan rest else .spins
  else .more tmpdata
termination_by tmpdata.length

/-- `recv_line`, over the pieces `recv` gives before it gives `ended`, 0 or -1: the value it
returns and `data`.  There is none when it does not return. -/
def recvLine (ended : Int) : List Text → Text → Option (Int × Text)
  | [], _ => some (ended, [])
  | [] :: _, _ => some (0, [])
  | buffer :: pieces, tmpdata =>
      match scan (tmpdata ++ buffer) with
      | .returned value data => some (value, data)
      | .more tmpdata => recvLine ended pieces tmpdata
      | .spins => none

theorem recvLine_cons (ended : Int) (b : Char) (p : Text) (pieces : List Text) (tmpdata : Text) :
    recvLine ended ((b :: p) :: pieces) tmpdata =
      match scan (tmpdata ++ b :: p) with
      | .returned value data => some (value, data)
      | .more tmpdata => recvLine ended pieces tmpdata
      | .spins => none := rfl

/-! ### The inner loop -/

section Scan
variable {t l r : Text}

theorem posCrlf_of_none (h : breakAt crlf t = none) : posCrlf t = -1 := by
  have hfind : findFrom smtpCrlf t 0 = none := (findFrom_zero crlf t).trans (by rw [h]; rfl)
  rw [posCrlf, hfind]

theorem posCrlf_of_some (h : breakAt crlf t = some (l, r)) : posCrlf t = int32 l.length := by
  have hfind : findFrom smtpCrlf t 0 = some l.length :=
    (findFrom_zero crlf t).trans (by rw [h]; rfl)
  rw [posCrlf, hfind]

/-- More bytes are needed where no line end is found. -/
theorem scan_of_pos (h : posCrlf t = -1) : scan t = .more t := by
  rw [scan]
  split
  · dsimp only
    rw [if_pos h]
  · rfl

/-- A line whose end is found. -/
theorem scan_of_some (h : breakAt crlf t = some (l, r)) (hpos : int32 l.length ≠ -1) : scan t =
    match kind (substr t (int32 l.length)) with
    | .error => .returned (-1) []
    | .last => .returned 0 (substr t (int32 l.length) ++ smtpCrlf)
    | .continued =>
        if (erase t (int32 l.length + 2)).length < t.length then
          scan (erase t (int32 l.length + 2))
        else .spins := by
  have hlen : t.length > 0 := by
    have := length_lt_of_breakAt crlf_ne_nil h
    omega
  rw [scan, if_pos hlen]
  dsimp only
  rw [posCrlf_of_some h, if_neg hpos]

/-- A line whose place an `int` can hold. -/
theorem scan_of_short (h : breakAt crlf t = some (l, r)) (hshort : l.length < 2 ^ 31) : scan t =
    match kind l with
    | .error => .returned (-1) []
    | .last => .returned 0 (l ++ crlf)
    | .continued => scan r := by
  have hint : int32 l.length = l.length := int32_of_range (by omega) (by omega)
  have ht := eq_of_breakAt h
  have hline : substr t (l.length : Int) = l := by
    rw [substr, if_neg (by omega), Int.toNat_natCast, ht, List.take_left]
  have hrest : erase t ((l.length : Int) + 2) = r := by
    have htwo : ((l.length : Int) + 2).toNat = l.length + crlf.length := rfl
    rw [erase, if_neg (by omega), htwo, ht, ← List.drop_drop, List.drop_left, List.drop_left]
  rw [scan_of_some h (by omega), hint, hline, hrest,
    if_pos (length_lt_of_breakAt crlf_ne_nil h)]
  rfl

end Scan

/-! ### The cuts -/

/-- A line the loop passes over. -/
structure Passes (c : Text) : Prop where
  kind : kind c = .continued
  short : c.length < 2 ^ 31
  line : breakAt crlf c = none

/-- A stream of such lines, and `l` behind them. -/
def Stream (pre : List Text) (l rest : Text) : Text :=
  (pre.map (· ++ crlf)).flatten ++ (l ++ (crlf ++ rest))

section Cut
variable {pre : List Text} {l rest : Text} {value : Int} {data : Text}

theorem stream_cons (c : Text) (pre : List Text) (l rest : Text) :
    Stream (c :: pre) l rest = c ++ (crlf ++ Stream pre l rest) := by
  simp [Stream]

/-- The first line of a stream is the first of every part of it that has one. -/
theorem first_of_cut {c t u s : Text} (hc : breakAt crlf c = none) (h : t ++ u = c ++ (crlf ++ s))
    {q : Text × Text} (hq : breakAt crlf t = some q) : q.1 = c ∧ q.2 ++ u = s := by
  obtain ⟨l, r⟩ := q
  have hlong := breakAt_append_right crlf_ne_nil hq u
  rw [h, breakAt_line hc] at hlong
  obtain ⟨rfl, rfl⟩ := Prod.mk.inj (Option.some.inj hlong)
  exact ⟨rfl, rfl⟩

/-- The part of a stream that is there: the answer, or the beginning of a line of the rest. -/
theorem scan_of_cut (hpre : ∀ c ∈ pre, Passes c) (hl : breakAt crlf l = none)
    (hv : ∀ r, scan (l ++ (crlf ++ r)) = .returned value data) {t u : Text}
    (h : t ++ u = Stream pre l rest) :
    scan t = .returned value data ∨ ∃ pre' t', scan t = .more t' ∧ breakAt crlf t' = none ∧
      (∀ c ∈ pre', Passes c) ∧ t' ++ u = Stream pre' l rest := by
  induction pre generalizing t with
  | nil =>
      cases hb : breakAt crlf t with
      | none => exact .inr ⟨[], t, scan_of_pos (posCrlf_of_none hb), hb, hpre, h⟩
      | some q =>
          obtain ⟨rfl, -⟩ := first_of_cut hl h hb
          rw [eq_of_breakAt hb]
          exact .inl (hv _)
  | cons c pre ih =>
      obtain ⟨hc, hpre'⟩ := List.forall_mem_cons.mp hpre
      cases hb : breakAt crlf t with
      | none => exact .inr ⟨c :: pre, t, scan_of_pos (posCrlf_of_none hb), hb, hpre, h⟩
      | some q =>
          rw [stream_cons] at h
          obtain ⟨rfl, hrest⟩ := first_of_cut hc.line h hb
          rw [scan_of_short hb hc.short, hc.kind]
          exact ih hpre' hrest

/-- However the stream is cut, the answer is that of the line behind those passed over. -/
theorem recvLine_of_verdict {ended : Int} {pieces : List Text} (hpre : ∀ c ∈ pre, Passes c)
    (hl : breakAt crlf l = none) (hv : ∀ r, scan (l ++ (crlf ++ r)) = .returned value data)
    (hne : ∀ p ∈ pieces, p ≠ []) {t : Text} (ht : breakAt crlf t = none)
    (h : t ++ pieces.flatten = Stream pre l rest) :
    recvLine ended pieces t = some (value, data) := by
  induction pieces generalizing pre t with
  | nil =>
      rw [List.flatten_nil, List.append_nil] at h
      refine absurd ?_ (breakAt_eq_none_iff.mp ht)
      rw [h, Stream]
      exact List.infix_append' _ _ _ |>.trans (List.suffix_append _ _).isInfix
  | cons p ps ih =>
      obtain ⟨hp, hps⟩ := List.forall_mem_cons.mp hne
      obtain ⟨b, p, rfl⟩ := List.exists_cons_of_ne_nil hp
      rw [List.flatten_cons, ← List.append_assoc] at h
      rw [recvLine_cons]
      rcases scan_of_cut hpre hl hv h with hret | ⟨pre', t', hmore, ht', hpre', h'⟩
      · rw [hret]
      · rw [hmore]
        exact ih hpre' hps ht' h'

end Cut

/-! ### Lines whose place an `int` cannot hold -/

section Long
variable {l r s : Text} {pos : Int}

theorem int32_natCast (n : Nat) :
    int32 n = if n % 2 ^ 32 < 2 ^ 31 then ((n % 2 ^ 32 : Nat) : Int)
      else ((n % 2 ^ 32 : Nat) : Int) - 2 ^ 32 := by
  rw [int32, Int.bmod_def]
  split <;> split <;> omega

theorem kind_append (h : 4 ≤ l.length) (s : Text) : kind (l ++ s) = kind l := by
  match l, h with
  | _ :: _ :: _ :: _ :: _, _ => rfl

theorem kind_take {n : Nat} (h : 4 ≤ n) (s : Text) : kind (s.take n) = kind s := by
  match n, h with
  | n + 4, _ =>
      match s with
      | [] | [_] | [_, _] | [_, _, _] | _ :: _ :: _ :: _ :: _ => rfl

theorem kind_of_short (h : l.length < 3) : kind l = .error := by
  match l, h with
  | [], _ | [_], _ | [_, _], _ => rfl

/-- A line that goes on has a fourth letter. -/
theorem four_le_of_continued (h : kind l = .continued) : 4 ≤ l.length := by
  match l with
  | [] | [_] | [_, _] => cases h
  | [a, b, c] =>
      rw [kind] at h
      split at h <;> cases h
  | _ :: _ :: _ :: _ :: l => simp

/-- The three digits of a line. -/
theorem kind_take_three (h : kind l ≠ .error) : kind (l.take 3) = .last := by
  match l with
  | [] | [_] | [_, _] => exact absurd rfl h
  | a :: b :: c :: l =>
      have hdigits : ¬ (!a.isDigit || !b.isDigit || !c.isDigit) = true := fun hd =>
        h (by rw [kind, if_pos hd])
      exact if_neg hdigits

/-- The line a wrong place gives is of the same kind, but for a place in its first letters. -/
theorem kind_substr (hl : 4 ≤ l.length) (hpos : pos < 0 ∨ 4 ≤ pos) (s : Text) :
    kind (substr (l ++ s) pos) = kind l := by
  rw [substr]
  split
  · exact kind_append hl s
  · rw [kind_take (by omega), kind_append hl]

theorem kind_substr_of_lt (hpos : 0 ≤ pos) (h : pos < 3) : kind (substr s pos) = .error := by
  rw [substr, if_neg (by omega)]
  exact kind_of_short (by rw [List.length_take]; omega)

theorem substr_three (hl : 3 ≤ l.length) (s : Text) : substr (l ++ s) 3 = l.take 3 := by
  rw [substr, if_neg (by omega)]
  exact List.take_append_of_le_length hl

end Long

/-! ### The reply -/

/-- The lines of a reply: some that go on, and the last one. -/
structure IsReply (cs : List Text) (f : Text) : Prop where
  continued : ∀ c ∈ cs, kind c = .continued ∧ breakAt crlf c = none
  last : kind f = .last ∧ breakAt crlf f = none

/-- The bytes of a reply. -/
def replyText (cs : List Text) (f : Text) : Text := Stream cs f []

/-- The lines have places an `int` can hold; or the first that has not is cut by a wrong place to
its three digits, and these happen to be the last line. -/
def LinesFit (cs : List Text) (f : Text) : Prop :=
  (∀ l ∈ cs ++ [f], l.length < 2 ^ 31) ∨
    ∃ pre l more, cs = pre ++ l :: more ∧ (∀ c ∈ pre, c.length < 2 ^ 31) ∧
      2 ^ 31 ≤ l.length ∧ l.length % 2 ^ 32 = 3 ∧ f = l.take 3

/-- The first line `l`, which is no reply, is seen: its place is not taken for `npos`, unless
`recv` fails in the end, and does not cut it to three digits. -/
def ErrorSeen (ended : Int) (l : Text) : Prop :=
  (l.length % 2 ^ 32 = 2 ^ 32 - 1 → ended = -1) ∧
    (l.length % 2 ^ 32 = 3 → kind (l.take 3) = .error)

section Reply
variable {cs pre more : List Text} {f l r rest : Text} {ended : Int}

/-- All in one piece. -/
theorem recvLine_one (ended : Int) {t : Text} (ht : t ≠ []) : recvLine ended [t] [] =
    match scan t with
    | .returned value data => some (value, data)
    | .more _ => some (ended, [])
    | .spins => none := by
  obtain ⟨b, t, rfl⟩ := List.exists_cons_of_ne_nil ht
  exact recvLine_cons ended b t [] []

theorem scan_stream (hpre : ∀ c ∈ pre, Passes c) (l rest : Text) :
    scan (Stream pre l rest) = scan (l ++ (crlf ++ rest)) := by
  induction pre with
  | nil => rfl
  | cons c pre ih =>
      obtain ⟨hc, hpre⟩ := List.forall_mem_cons.mp hpre
      rw [stream_cons, scan_of_short (breakAt_line hc.line _) hc.short, hc.kind]
      exact ih hpre

/-- A line whose place is taken for three. -/
theorem scan_of_three (hl : breakAt crlf l = none) (h3 : l.length % 2 ^ 32 = 3)
    (hkind : kind (l.take 3) = .last) (r : Text) :
    scan (l ++ (crlf ++ r)) = .returned 0 (l.take 3 ++ crlf) := by
  have hpos : int32 l.length = 3 := by rw [int32_natCast, h3]; rfl
  have hline : substr (l ++ (crlf ++ r)) 3 = l.take 3 := substr_three (by omega) _
  rw [scan_of_some (breakAt_line hl r) (by omega), hpos, hline, hkind]
  rfl

/-- What is behind a wrong place in a line that goes on: the search finds -2, and the loop stays
where it is, or takes all that is there for a line. -/
theorem scan_of_minus_two (hl : breakAt crlf l = none) (hpos : int32 l.length = -2) (r : Text) :
    scan (l ++ (crlf ++ r)) = .returned (-1) [] ∨ scan (l ++ (crlf ++ r)) = .spins ∨
      scan (l ++ (crlf ++ r)) = .returned 0 ((l ++ (crlf ++ r)) ++ crlf) := by
  have hall : substr (l ++ (crlf ++ r)) (-2) = l ++ (crlf ++ r) := rfl
  have hstay : erase (l ++ (crlf ++ r)) (-2 + 2) = l ++ (crlf ++ r) := rfl
  rw [scan_of_some (breakAt_line hl r) (by omega), hpos, hall, hstay, if_neg (lt_irrefl _)]
  cases kind (l ++ (crlf ++ r)) with
  | error => exact .inl rfl
  | last => exact .inr (.inr rfl)
  | continued => exact .inr (.inl rfl)

/-- A wrong place does not make a line go on that does not. -/
theorem continued_of_substr (hl : 4 ≤ l.length) {pos : Int}
    (h : kind (substr (l ++ rest) pos) = .continued) :
    (pos < 0 ∨ 4 ≤ pos) ∧ kind l = .continued := by
  have hpos : pos < 0 ∨ 4 ≤ pos := by
    by_contra hno
    have hlen := four_le_of_continued h
    rw [substr, if_neg (by omega), List.length_take] at hlen
    omega
  exact ⟨hpos, by rwa [kind_substr hl hpos] at h⟩

theorem passes_of_reply (h : IsReply cs f) (hpre : pre ⊆ cs)
    (hshort : ∀ c ∈ pre, c.length < 2 ^ 31) : ∀ c ∈ pre, Passes c := fun c hc =>
  ⟨(h.continued c (hpre hc)).1, hshort c hc, (h.continued c (hpre hc)).2⟩

/-- The place of the last line is wrong. -/
theorem long_last (h : IsReply cs f) (hshort : ∀ c ∈ cs, c.length < 2 ^ 31)
    (hlong : 2 ^ 31 ≤ f.length) : recvLine ended [replyText cs f] [] ≠ some (0, f ++ crlf) := by
  have hne : replyText cs f ≠ [] := by simp [replyText, Stream, crlf]
  rw [recvLine_one ended hne, replyText,
    scan_stream (passes_of_reply h (List.Subset.refl cs) hshort)]
  by_cases hblocked : int32 f.length = -1
  · rw [scan_of_pos ((posCrlf_of_some (breakAt_line h.last.2 [])).trans hblocked)]
    intro heq
    have hdata := congrArg List.length (Prod.mk.inj (Option.some.inj heq)).2
    rw [List.length_append, List.length_nil] at hdata
    omega
  · rw [scan_of_some (breakAt_line h.last.2 []) hblocked]
    cases hk : kind (substr (f ++ (crlf ++ [])) (int32 f.length)) with
    | error =>
        intro heq
        exact absurd (Prod.mk.inj (Option.some.inj heq)).1 (by decide)
    | continued =>
        have hf := (continued_of_substr (by omega) hk).2
        rw [h.last.1] at hf
        cases hf
    | last =>
        intro heq
        have hlen := congrArg List.length (Prod.mk.inj (Option.some.inj heq)).2
        have hcrlf : smtpCrlf.length = 2 := rfl
        have hcrlf' : crlf.length = 2 := rfl
        rw [List.length_append, List.length_append, hcrlf, hcrlf', substr] at hlen
        have hupper := int32_upper f.length
        split at hlen
        · rw [List.length_append, List.length_append, hcrlf', List.length_nil] at hlen
          omega
        · rw [List.length_take, List.length_append, List.length_append, hcrlf',
            List.length_nil] at hlen
          omega

theorem stream_append (pre : List Text) (l : Text) (more : List Text) (f rest : Text) :
    Stream (pre ++ l :: more) f rest = Stream pre l (Stream more f rest) := by
  simp [Stream]

theorem length_replyText (cs : List Text) (f : Text) : f.length + 2 ≤ (replyText cs f).length := by
  simp only [replyText, Stream, List.length_append, crlf, List.length_cons, List.length_nil]
  omega

/-- What a line that goes on leaves behind a wrong place in it. -/
theorem erase_inside (hlong : 2 ^ 31 ≤ l.length) (hpos : 0 ≤ int32 l.length) (s : Text) :
    ∃ n, n ≤ l.length ∧ 0 < n ∧ int32 (l.drop n).length = -2 ∧
      erase (l ++ s) (int32 l.length + 2) = l.drop n ++ s := by
  have hplace := int32_natCast l.length
  have hlt : l.length % 2 ^ 32 < 2 ^ 31 := by
    by_contra hge
    rw [if_neg hge] at hplace
    omega
  rw [if_pos hlt] at hplace
  refine ⟨l.length % 2 ^ 32 + 2, by omega, by omega, ?_, ?_⟩
  · rw [List.length_drop, int32_natCast, if_neg (by omega)]
    omega
  · have hnat : (int32 l.length + 2).toNat = l.length % 2 ^ 32 + 2 := by omega
    rw [erase, if_neg (by omega), hnat, List.drop_append_of_le_length (by omega)]

/-- The place of a line that goes on is wrong. -/
theorem long_continued (h : IsReply (pre ++ l :: more) f) (hshort : ∀ c ∈ pre, c.length < 2 ^ 31)
    (hlong : 2 ^ 31 ≤ l.length) (hdigits : ¬ (l.length % 2 ^ 32 = 3 ∧ f = l.take 3)) :
    recvLine ended [replyText (pre ++ l :: more) f] [] ≠ some (0, f ++ crlf) := by
  obtain ⟨hkind, hl⟩ := h.continued l (List.mem_append_right _ List.mem_cons_self)
  have hne : replyText (pre ++ l :: more) f ≠ [] := by simp [replyText, Stream, crlf]
  have hcrlf : crlf.length = 2 := rfl
  have hnil : (ended, ([] : Text)) ≠ (0, f ++ crlf) := by
    intro heq
    have hlen := congrArg List.length (Prod.mk.inj heq).2
    rw [List.length_append, hcrlf, List.length_nil] at hlen
    omega
  have hreply : replyText (pre ++ l :: more) f = Stream pre l (replyText more f) :=
    stream_append pre l more f []
  rw [recvLine_one ended hne, hreply,
    scan_stream (passes_of_reply h (List.subset_append_left _ _) hshort)]
  by_cases hblocked : int32 l.length = -1
  · rw [scan_of_pos ((posCrlf_of_some (breakAt_line hl _)).trans hblocked)]
    exact fun heq => hnil (Option.some.inj heq)
  rw [scan_of_some (breakAt_line hl _) hblocked]
  cases hk : kind (substr (l ++ (crlf ++ replyText more f)) (int32 l.length)) with
  | error => exact fun heq => absurd (Prod.mk.inj (Option.some.inj heq)).1 (by decide)
  | last =>
      intro heq
      -- only a place in the first letters makes the line the last one
      have hthree : int32 l.length = 3 := by
        by_contra hno
        by_cases hin : 0 ≤ int32 l.length ∧ int32 l.length < 3
        · rw [kind_substr_of_lt hin.1 hin.2] at hk
          cases hk
        · rw [kind_substr (by omega) (by omega), hkind] at hk
          cases hk
      have hline := (Prod.mk.inj (Option.some.inj heq)).2
      rw [hthree, substr_three (by omega)] at hline
      refine hdigits ⟨?_, (List.append_cancel_right hline).symm⟩
      rw [int32_natCast] at hthree
      split at hthree <;> omega
  | continued =>
      rcases (continued_of_substr (by omega) hk).1 with hneg | hfour
      · by_cases htwo : int32 l.length = -2
        · have hstay : erase (l ++ (crlf ++ replyText more f)) (int32 l.length + 2)
              = l ++ (crlf ++ replyText more f) := by rw [htwo]; rfl
          rw [hstay, if_neg (lt_irrefl _)]
          exact Option.some_ne_none _ ∘ Eq.symm
        · have hgone : erase (l ++ (crlf ++ replyText more f)) (int32 l.length + 2) = [] :=
            if_pos (by omega)
          have hscan : scan [] = .more [] := scan_of_pos rfl
          rw [hgone, if_pos (by rw [List.length_nil, List.length_append]; omega), hscan]
          exact fun heq => hnil (Option.some.inj heq)
      · obtain ⟨n, hn, hpos, htwo, herase⟩ := erase_inside hlong (by omega)
          (crlf ++ replyText more f)
        have hnone : breakAt crlf (l.drop n) = none := by
          rw [breakAt_eq_none_iff] at hl ⊢
          exact fun hin => hl (hin.trans (List.drop_suffix n l).isInfix)
        rw [herase, if_pos (by simp only [List.length_append, List.length_drop]; omega)]
        rcases scan_of_minus_two hnone htwo (replyText more f) with hs | hs | hs
        · rw [hs]
          exact fun heq => absurd (Prod.mk.inj (Option.some.inj heq)).1 (by decide)
        · rw [hs]
          exact Option.some_ne_none _ ∘ Eq.symm
        · rw [hs]
          intro heq
          have hlen := congrArg List.length (Prod.mk.inj (Option.some.inj heq)).2
          have := length_replyText more f
          simp only [List.length_append, hcrlf] at hlen
          omega

/-- The first line that is not short. -/
theorem exists_first_long (ls : List Text) : (∀ l ∈ ls, l.length < 2 ^ 31) ∨
    ∃ pre l more, ls = pre ++ l :: more ∧ (∀ c ∈ pre, c.length < 2 ^ 31) ∧ 2 ^ 31 ≤ l.length := by
  induction ls with
  | nil => exact .inl fun _ h => absurd h List.not_mem_nil
  | cons l ls ih =>
      by_cases hl : l.length < 2 ^ 31
      · rcases ih with hall | ⟨pre, l', more, rfl, hpre, hlong⟩
        · exact .inl (List.forall_mem_cons.mpr ⟨hl, hall⟩)
        · exact .inr ⟨l :: pre, l', more, rfl, List.forall_mem_cons.mpr ⟨hl, hpre⟩, hlong⟩
      · exact .inr ⟨[], l, ls, rfl, fun _ h => absurd h List.not_mem_nil, by omega⟩

/-- The last line of a reply is returned, however it is cut, just when the lines fit. -/
theorem last_returned_iff (h : IsReply cs f) (ended : Int) :
    (∀ pieces : List Text, (∀ p ∈ pieces, p ≠ []) → pieces.flatten = replyText cs f →
        recvLine ended pieces [] = some (0, f ++ crlf)) ↔ LinesFit cs f := by
  constructor
  · intro hall
    have hne : replyText cs f ≠ [] := by simp [replyText, Stream, crlf]
    have hone := hall [replyText cs f] (by simpa using hne) List.flatten_singleton
    rcases exists_first_long cs with hshort | ⟨pre, l, more, rfl, hpre, hlong⟩
    · by_cases hf : f.length < 2 ^ 31
      · refine .inl fun l hl => ?_
        rcases List.mem_append.mp hl with hl | hl
        · exact hshort l hl
        · rwa [List.mem_singleton.mp hl]
      · exact absurd hone (long_last h hshort (by omega))
    · by_contra hno
      refine long_continued h hpre hlong (fun hdigits => hno (.inr ?_)) hone
      exact ⟨pre, l, more, rfl, hpre, hlong, hdigits.1, hdigits.2⟩
  · rintro (hshort | ⟨pre, l, more, rfl, hpre, hlong, hthree, rfl⟩) pieces hne hflat
    · have hf : f.length < 2 ^ 31 := hshort f (by simp)
      have hcs : ∀ c ∈ cs, c.length < 2 ^ 31 := fun c hc => hshort c (by simp [hc])
      refine recvLine_of_verdict (passes_of_reply h (List.Subset.refl cs) hcs) h.last.2 ?_ hne rfl
        hflat
      intro r
      rw [scan_of_short (breakAt_line h.last.2 r) hf, h.last.1]
    · obtain ⟨hkind, hl⟩ := h.continued l (List.mem_append_right _ List.mem_cons_self)
      refine recvLine_of_verdict (l := l)
        (passes_of_reply h (List.subset_append_left _ _) hpre) hl ?_ hne rfl
        (hflat.trans (stream_append pre l more _ []))
      exact scan_of_three hl hthree (kind_take_three (by rw [hkind]; decide))

/-- The place of the first line is taken for `npos`. -/
theorem recvLine_blocked (hl : breakAt crlf l = none) (hpos : int32 l.length = -1)
    {pieces : List Text} (hne : ∀ p ∈ pieces, p ≠ []) {t : Text}
    (h : t ++ pieces.flatten = l ++ (crlf ++ rest)) :
    recvLine ended pieces t = some (ended, []) := by
  induction pieces generalizing t with
  | nil => rfl
  | cons p ps ih =>
      obtain ⟨hp, hps⟩ := List.forall_mem_cons.mp hne
      obtain ⟨b, p, rfl⟩ := List.exists_cons_of_ne_nil hp
      rw [List.flatten_cons, ← List.append_assoc] at h
      have hmore : posCrlf (t ++ b :: p) = -1 := by
        cases hb : breakAt crlf (t ++ b :: p) with
        | none => exact posCrlf_of_none hb
        | some q => rw [posCrlf_of_some hb, (first_of_cut hl h hb).1, hpos]
      rw [recvLine_cons, scan_of_pos hmore]
      exact ih hps h

/-- A stream whose first line is no reply is refused, however it is cut, just when the error is
seen. -/
theorem error_returned_iff (hkind : kind l = .error) (hl : breakAt crlf l = none) (ended : Int)
    (rest : Text) :
    (∀ pieces : List Text, (∀ p ∈ pieces, p ≠ []) → pieces.flatten = l ++ (crlf ++ rest) →
        recvLine ended pieces [] = some (-1, [])) ↔ ErrorSeen ended l := by
  have hplace := int32_natCast l.length
  constructor
  · intro hall
    have hne : l ++ (crlf ++ rest) ≠ [] := by simp [crlf]
    have hone := hall [l ++ (crlf ++ rest)] (by simpa using hne) List.flatten_singleton
    refine ⟨fun hblocked => ?_, fun hthree => ?_⟩
    · rw [hblocked, if_neg (by omega)] at hplace
      rw [recvLine_one ended hne,
        scan_of_pos ((posCrlf_of_some (breakAt_line hl rest)).trans (by omega))] at hone
      exact (Prod.mk.inj (Option.some.inj hone)).1
    · by_contra hdigits
      have hlast := kind_take_three (l := l.take 3) hdigits
      rw [List.take_take, min_self] at hlast
      rw [recvLine_one ended hne, scan_of_three hl hthree hlast] at hone
      exact absurd (Prod.mk.inj (Option.some.inj hone)).1 (by decide)
  · rintro ⟨hblocked, hthree⟩ pieces hne hflat
    by_cases hpos : int32 l.length = -1
    · rw [recvLine_blocked hl hpos hne hflat, hblocked]
      rw [hplace] at hpos
      split at hpos <;> omega
    · have hpre : ∀ c ∈ ([] : List Text), Passes c := fun _ h => absurd h List.not_mem_nil
      refine recvLine_of_verdict hpre hl ?_ hne rfl hflat
      intro r
      by_cases hshort : l.length < 2 ^ 31
      · rw [scan_of_short (breakAt_line hl r) hshort, hkind]
      have herror : kind (substr (l ++ (crlf ++ r)) (int32 l.length)) = .error := by
        by_cases h3 : int32 l.length = 3
        · rw [h3, substr_three (by omega)]
          rw [hplace] at h3
          exact hthree (by split at h3 <;> omega)
        · by_cases hin : 0 ≤ int32 l.length ∧ int32 l.length < 3
          · exact kind_substr_of_lt hin.1 hin.2
          · rw [kind_substr (by omega) (by omega), hkind]
      rw [scan_of_some (breakAt_line hl r) hpos, herror]

/-- **The reply.**  Of a reply the last line is returned, and a stream whose first line is none is
refused, just when the place of a line end that is looked at is what an `int` makes of it. -/
theorem recvLine_iff (ended : Int) :
    (∀ cs f, IsReply cs f →
      ((∀ pieces : List Text, (∀ p ∈ pieces, p ≠ []) → pieces.flatten = replyText cs f →
          recvLine ended pieces [] = some (0, f ++ crlf)) ↔ LinesFit cs f)) ∧
    ∀ l rest, kind l = .error → breakAt crlf l = none →
      ((∀ pieces : List Text, (∀ p ∈ pieces, p ≠ []) → pieces.flatten = l ++ (crlf ++ rest) →
          recvLine ended pieces [] = some (-1, [])) ↔ ErrorSeen ended l) :=
  ⟨fun _ _ h => last_returned_iff h ended, fun _ rest hkind hl =>
    error_returned_iff hkind hl ended rest⟩

end Reply

/-- A reply of two lines, cut in its line ends, and a line without a code. -/
theorem recvLine_two_lines :
    recvLine 0 ["250-a\r".toList, "\n250 b\r".toList, "\n".toList] []
        = some (0, "250 b\r\n".toList) ∧
      recvLine 0 ["he".toList, "llo\r\n2".toList] [] = some (-1, []) := by
  constructor
  · refine ((recvLine_iff 0).1 ["250-a".toList] "250 b".toList ⟨?_, by decide, by decide⟩).mpr
      (.inl (by decide)) _ (by decide) (by decide)
    intro c hc
    rw [List.mem_singleton.mp hc]
    decide
  · exact ((recvLine_iff 0).2 "hello".toList "2".toList (by decide) (by decide)).mpr
      ⟨by decide, by decide⟩ _ (by decide) (by decide)

/-- Pieces that do not end a line are put one behind the other. -/
theorem recvLine_keeps {ended : Int} {pieces : List Text} (rest : List Text)
    (hne : ∀ p ∈ pieces, p ≠ []) {t : Text} (h : breakAt crlf (t ++ pieces.flatten) = none) :
    recvLine ended (pieces ++ rest) t = recvLine ended rest (t ++ pieces.flatten) := by
  induction pieces generalizing t with
  | nil => rw [List.flatten_nil, List.append_nil, List.nil_append]
  | cons p ps ih =>
      obtain ⟨hp, hps⟩ := List.forall_mem_cons.mp hne
      obtain ⟨b, p, rfl⟩ := List.exists_cons_of_ne_nil hp
      rw [List.flatten_cons, ← List.append_assoc] at h ⊢
      have hnone : breakAt crlf (t ++ b :: p) = none := by
        rw [breakAt_eq_none_iff] at h ⊢
        exact fun hin => h (hin.trans (List.prefix_append _ _).isInfix)
      rw [List.cons_append, recvLine_cons, scan_of_pos (posCrlf_of_none hnone)]
      exact ih hps h

/-- A reply of one line of `2^31` bytes, received four bytes at a time: all that is there is taken
for the line, with its line end. -/
theorem recvLine_long_line : ¬ ∀ cs f, IsReply cs f → ∀ pieces : List Text,
    (∀ p ∈ pieces, p ≠ []) → pieces.flatten = replyText cs f →
      recvLine 0 pieces [] = some (0, f ++ crlf) := by
  intro h
  obtain ⟨n, hn⟩ : ∃ n, n = 2 ^ 29 - 1 := ⟨_, rfl⟩
  obtain ⟨f, hf⟩ : ∃ f, f = "250 ".toList ++ List.replicate (n * 4) 'A' := ⟨_, rfl⟩
  have hlen : f.length = 2 ^ 31 := by
    rw [hf, List.length_append, List.length_replicate, hn]
    rfl
  have hkind : kind f = .last := by rw [hf]; rfl
  have hnone : breakAt crlf f = none := by
    rw [breakAt_eq_none_iff, hf]
    intro hin
    rcases List.mem_append.mp (hin.subset (List.mem_cons_self (a := '\r'))) with hr | hr
    · exact absurd hr (by decide)
    · exact absurd (List.eq_of_mem_replicate hr) (by decide)
  have hfront : ("250 ".toList :: List.replicate n (List.replicate 4 'A')).flatten = f := by
    rw [List.flatten_cons, List.flatten_replicate_replicate, hf]
  have hne : ∀ p ∈ "250 ".toList :: List.replicate n (List.replicate 4 'A'), p ≠ [] := by
    intro p hp
    rcases List.mem_cons.mp hp with rfl | hp
    · decide
    · rw [List.eq_of_mem_replicate hp]
      decide
  have hall := h [] f ⟨fun _ hc => absurd hc List.not_mem_nil, hkind, hnone⟩
    (("250 ".toList :: List.replicate n (List.replicate 4 'A')) ++ [crlf]) (by
      intro p hp
      rcases List.mem_append.mp hp with hp | hp
      · exact hne p hp
      · rw [List.mem_singleton.mp hp]
        exact crlf_ne_nil) (by
      rw [List.flatten_append, hfront, List.flatten_singleton]
      simp [replyText, Stream])
  have hpos : int32 f.length = -2 ^ 31 := by rw [hlen]; decide
  have hbreak : breakAt crlf (f ++ crlf) = some (f, []) := by
    have hline := breakAt_line hnone []
    rwa [List.append_nil] at hline
  have hwhole : substr (f ++ crlf) (-2 ^ 31) = f ++ crlf := rfl
  rw [recvLine_keeps _ hne (by rw [List.nil_append, hfront]; exact hnone), List.nil_append, hfront,
    crlf, recvLine_cons, ← crlf, scan_of_some hbreak (by rw [hpos]; decide), hpos, hwhole,
    kind_append (by omega), hkind] at hall
  have hdata := congrArg List.length (Prod.mk.inj (Option.some.inj hall)).2
  simp [smtpCrlf, crlf] at hdata

end Edm.Smtp.RecvLine
