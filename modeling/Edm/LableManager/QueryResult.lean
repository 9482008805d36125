import Edm.Support.Crlf
import Edm.Support.Decimal

/-!
# LableManager — QueryResult

`get_query_result` of the label manager, and `query_context_result` of `deliver_help`: the first
columns of a result set, each with CR LF, behind a header with their length.  The buffer is
estimated from the number of rows.  It grows before a row that does not fit, where a row fits that
fills what is left; but `snprintf` puts a NUL behind what it prints.

* `printRows_iff`: the rows that are printed as they are.
* `framed_iff`: the response is right when there is room behind each row (`RowsFit`).
-/

namespace Edm.LableManager
open Support

/-! ### The code -/

/-- `row[0]`, which is NULL or has the bytes that `mysql_fetch_lengths` counts. -/
abbrev Row := Option Text

/-- What the two functions differ in: the header in front of its twelve `$` and behind them, and
what they return. -/
structure Reply where
  before : Text
  behind : Text
  db_error : Int
  no_rows : Int
  ok : Int
  before_clean : '$' ∉ before
  behind_clean : ∃ c ∈ behind.head?, c ≠ '$' ∧ c ≠ nul
  small : before.length + 12 + behind.length < 256

/-- The header as it is printed first. -/
def Reply.header (r : Reply) : Text := r.before ++ (List.replicate 12 '$' ++ r.behind)

/-- The response while it is printed: the bytes of `sendbuf` that were written. -/
structure Printing where
  sendbuf : Text
  buffer_length : Int
  sb_bytes : Int
  content_length : Int
  deriving DecidableEq

/-- An `int`, and none where a sum overflows it. -/
def checkedInt (z : Int) : Option Int := if -2 ^ 31 ≤ z ∧ z < 2 ^ 31 then some z else none

/-- `buffer_length` when a row is printed.  What is left of the buffer is compared with
`row_lengths` as an `unsigned long`, so that a negative number counts as room. -/
def grown (buffer_length sb_bytes remaining_rows : Int) (row_lengths : Nat) : Int :=
  if 0 ≤ buffer_length - sb_bytes ∧ (row_lengths : Int) > buffer_length - sb_bytes then
    int32 (buffer_length + remaining_rows * row_lengths * 2)
  else buffer_length

/-- `"%s\r\n"`. -/
def Row.printed (row : Row) : Text :=
  (match row with
    | none => "(null)".toList
    | some column => cstr column) ++ crlf

/-- What `snprintf` writes into `size` bytes, without a NUL that is still to be overwritten. -/
def snprintf (size : Nat) (printed : Text) : Text :=
  if printed.length < size then printed
  else if size = 0 then [] else printed.take (size - 1) ++ [nul]

/-- One row.  There is none where `memmove` or `snprintf` writes beyond the buffer, or a sum
overflows; so it does, too, when the length is too large for `snprintf` to return it. -/
def printRow (b : Printing) (remaining_rows : Int) (row : Row) : Option Printing :=
  let row_lengths := (row.getD []).length + 2
  let buffer_length := grown b.buffer_length b.sb_bytes remaining_rows row_lengths
  if buffer_length - b.sb_bytes < 0 then none
  else
    (checkedInt (b.sb_bytes + row.printed.length)).bind fun sb_bytes =>
      (checkedInt (b.content_length + row.printed.length)).map fun content_length =>
        { sendbuf := b.sendbuf ++ snprintf (buffer_length - b.sb_bytes).toNat row.printed
          buffer_length := buffer_length
          sb_bytes := sb_bytes
          content_length := content_length }

/-- `while (row = mysql_fetch_row(result))`. -/
def printRows : Printing → Int → List Row → Option Printing
  | b, _, [] => some b
  | b, remaining_rows, row :: rows =>
      (printRow b remaining_rows row).bind fun b => printRows b (remaining_rows - 1) rows

/-- A NUL or a `$`. -/
def isMark (c : Char) : Bool := c == nul || c == '$'

/-- The number is printed at the first `$`, and the marks behind it are made blanks. -/
def fillNumber (sendbuf : Text) (content_length : Int) : Text :=
  let pflag := sendbuf.dropWhile (· != '$')
  let number := Nat.toDigits 10 (content_length % 2 ^ 32).toNat
  let behind := nul :: pflag.drop (number.length + 1)
  sendbuf.takeWhile (· != '$') ++
    (number ++ ((behind.takeWhile isMark).map (fun _ => ' ') ++ behind.dropWhile isMark))

/-- What a query comes to: a value without a response, a response of `sb_bytes` bytes in `sendbuf`,
or nothing that is defined. -/
inductive Outcome where
  | value (retval : Int)
  | response (sendbuf : Text) (sb_bytes retval : Int)
  | undefined
  deriving DecidableEq

/-- Both functions; there are no rows when `mysql_query` fails. -/
def queryResult (r : Reply) (result : Option (List Row)) : Outcome :=
  match result with
  | none => .value r.db_error
  | some rows =>
      let num_rows := int32 rows.length
      if num_rows < 1 then .value r.no_rows
      else
        match (checkedInt (256 + num_rows * 80)).bind fun buffer_length =>
            printRows ⟨r.header, buffer_length, r.header.length, 0⟩ num_rows rows with
        | none => .undefined
        | some b => .response (fillNumber b.sendbuf b.content_length) b.sb_bytes r.ok

/-- The header of the label manager; `DT_DB_ERROR` and `DT_HTTP_OK`. -/
def labelReply : Reply where
  before := "HTTP/1.1 200 OK\r\nServer: www.mtarget.cn\r\n".toList
    ++ "Content-Type: text/plain\r\nContent-Length: ".toList
  behind := "\r\nConnection: close\r\n\r\n".toList
  db_error := 206
  no_rows := 200
  ok := 0
  before_clean := by decide
  behind_clean := ⟨'\r', rfl, by decide⟩
  small := by decide

def getQueryResult (result : Option (List Row)) : Outcome := queryResult labelReply result

end Edm.LableManager

namespace Edm.DeliverHelp
open Support LableManager

/-- The header of `deliver_help`, whose `VERSION` is 1.0.1; `HTTP_503`, `HTTP_404` and
`HTTP_200`. -/
def helperReply : Reply where
  before := "HTTP/1.1 200 OK\r\nServer: Deliverhelper/1.0.1\r\n".toList
    ++ "Content-Type: text/plain\r\nContent-Length: ".toList
  behind := "\r\nConnection: close\r\n\r\n".toList
  db_error := 6
  no_rows := 3
  ok := 0
  before_clean := by decide
  behind_clean := ⟨'\r', rfl, by decide⟩
  small := by decide

def queryContextResult (result : Option (List Row)) : Outcome := queryResult helperReply result

end Edm.DeliverHelp

namespace Edm.LableManager
open Support

/-! ### What is promised -/

/-- The first columns, each with CR LF; NULL has no bytes. -/
def body (rows : List Row) : Text := rows.flatMap fun row => row.getD [] ++ crlf

/-- The header with a number, and blanks up to where the twelve `$` ended. -/
def Reply.headerWith (r : Reply) (n : Nat) : Text :=
  r.before ++ (Nat.toDigits 10 n ++ (List.replicate (12 - (Nat.toDigits 10 n).length) ' ' ++
    r.behind))

/-- The response has all rows, the number is that of the bytes behind the header, and `sb_bytes`
that of all bytes. -/
def FramedExactly (r : Reply) (query_result : Option (List Row) → Outcome) (rows : List Row) :
    Prop :=
  query_result (some rows) =
    .response (r.headerWith (body rows).length ++ body rows)
      (r.headerWith (body rows).length ++ body rows).length r.ok

/-- No first column is NULL or has a NUL byte, and each row leaves room for one byte more. -/
def RowsFit : Int → Int → Int → List Row → Prop
  | _, _, _, [] => True
  | buffer_length, sb_bytes, remaining_rows, row :: rows =>
      let row_lengths := (row.getD []).length + 2
      let buffer_length := grown buffer_length sb_bytes remaining_rows row_lengths
      row ≠ none ∧ nul ∉ row.getD [] ∧ sb_bytes + row_lengths < buffer_length ∧
        RowsFit buffer_length (sb_bytes + row_lengths) (remaining_rows - 1) rows

/-! ### One row -/

theorem checkedInt_eq_some {z z' : Int} :
    checkedInt z = some z' ↔ z' = z ∧ -2 ^ 31 ≤ z ∧ z < 2 ^ 31 := by
  rw [checkedInt]
  split
  next h =>
    rw [Option.some.injEq]
    exact ⟨fun heq => ⟨heq.symm, h⟩, fun heq => heq.1.symm⟩
  next h => exact iff_of_false (by rintro ⟨⟩) fun heq => h heq.2

theorem checkedInt_of_range {z : Int} (h₁ : -2 ^ 31 ≤ z) (h₂ : z < 2 ^ 31) :
    checkedInt z = some z := checkedInt_eq_some.mpr ⟨rfl, h₁, h₂⟩

theorem grown_lt {L S m : Int} {n : Nat} (h : L < 2 ^ 31) : grown L S m n < 2 ^ 31 := by
  rw [grown]
  split
  · exact int32_upper _
  · exact h

/-- What a step comes to, if it is defined. -/
theorem printRow_eq_some {b b' : Printing} {m : Int} {row : Row} :
    printRow b m row = some b' ↔
      0 ≤ grown b.buffer_length b.sb_bytes m ((row.getD []).length + 2) - b.sb_bytes ∧
      (-2 ^ 31 ≤ b.sb_bytes + row.printed.length ∧ b.sb_bytes + row.printed.length < 2 ^ 31) ∧
      (-2 ^ 31 ≤ b.content_length + row.printed.length ∧
        b.content_length + row.printed.length < 2 ^ 31) ∧
      b' = {
        sendbuf := b.sendbuf ++ snprintf
          (grown b.buffer_length b.sb_bytes m ((row.getD []).length + 2) - b.sb_bytes).toNat
          row.printed
        buffer_length := grown b.buffer_length b.sb_bytes m ((row.getD []).length + 2)
        sb_bytes := b.sb_bytes + row.printed.length
        content_length := b.content_length + row.printed.length } := by
  simp only [printRow]
  split
  next h => exact iff_of_false (by simp) (by omega)
  next h =>
    rw [Option.bind_eq_some_iff]
    simp only [checkedInt_eq_some, Option.map_eq_some_iff]
    constructor
    · rintro ⟨S, ⟨rfl, hS⟩, c, ⟨rfl, hc⟩, rfl⟩
      exact ⟨by omega, hS, hc, rfl⟩
    · rintro ⟨-, hS, hc, rfl⟩
      exact ⟨_, ⟨rfl, hS⟩, _, ⟨rfl, hc⟩, rfl⟩

theorem snprintf_of_lt {size : Nat} {printed : Text} (h : printed.length < size) :
    snprintf size printed = printed := if_pos h

theorem length_snprintf_of_le {size : Nat} {printed : Text} (h : size ≤ printed.length) :
    (snprintf size printed).length = size := by
  rw [snprintf, if_neg (by omega)]
  split
  · simp [*]
  · rw [List.length_append, List.length_take, List.length_singleton]
    omega

/-- What is printed in front of the CR LF. -/
def Row.shown (row : Row) : Text :=
  match row with
  | none => "(null)".toList
  | some column => cstr column

theorem Row.printed_eq (row : Row) : row.printed = row.shown ++ crlf := by
  cases row <;> rfl

/-- The last character gives way to the NUL. -/
theorem snprintf_self (row : Row) :
    snprintf row.printed.length row.printed = row.shown ++ ['\r', nul] := by
  have hlen : row.printed.length = row.shown.length + 2 := by
    rw [row.printed_eq, List.length_append]
    rfl
  have htake : row.printed.take (row.shown.length + 2 - 1) = row.shown ++ ['\r'] := by
    rw [row.printed_eq, show row.shown.length + 2 - 1 = row.shown.length + 1 from rfl,
      List.take_length_add_append]
    rfl
  rw [snprintf, if_neg (Nat.lt_irrefl _), if_neg (by omega), hlen, htake, List.append_assoc]
  rfl

theorem Row.shown_of_clean {row : Row} (h : row ≠ none) (hnul : nul ∉ row.getD []) :
    row.shown = row.getD [] := by
  cases row with
  | none => exact absurd rfl h
  | some column => exact cstr_self hnul

/-- What is printed is the column, when it stands where the column should stand. -/
theorem Row.of_shown_prefix {row : Row} {c : Char} {rest : Text}
    (h : row.shown ++ ['\r', c] <+: row.getD [] ++ (crlf ++ rest)) :
    row ≠ none ∧ nul ∉ row.getD [] ∧ c = '\n' := by
  cases row with
  | none =>
      rw [shown, Option.getD_none, List.nil_append] at h
      have hhead := (List.cons_prefix_cons.mp h).1
      exact absurd hhead (by decide)
  | some column =>
      rw [shown, Option.getD_some] at h
      by_cases hnul : nul ∈ column
      · obtain ⟨s, t, rfl, hs⟩ := List.eq_append_cons_of_mem hnul
        rw [cstr_append hs, List.append_assoc, List.prefix_append_right_inj] at h
        exact absurd (List.cons_prefix_cons.mp h).1 (by decide)
      · rw [cstr_self hnul, List.prefix_append_right_inj] at h
        have hlast := (List.cons_prefix_cons.mp (List.cons_prefix_cons.mp h).2).1
        exact ⟨Option.some_ne_none _, hnul, hlast⟩

/-- A row is printed whole, or loses its last character, or is longer than the buffer. -/
theorem printRow_cases {b b' : Printing} {m : Int} {row : Row}
    (h : printRow b m row = some b') (hlen : b.sendbuf.length = b.sb_bytes) :
    (b'.sendbuf = b.sendbuf ++ (row.shown ++ ['\r', '\n']) ∧
        b.sb_bytes + row.printed.length < b'.buffer_length) ∨
      b'.sendbuf = b.sendbuf ++ (row.shown ++ ['\r', nul]) ∨
      (b'.sendbuf.length < b'.sb_bytes ∧ b'.buffer_length < b'.sb_bytes) := by
  obtain ⟨hroom, -, -, rfl⟩ := printRow_eq_some.mp h
  dsimp only
  obtain ⟨size, hsize⟩ := Int.eq_ofNat_of_zero_le hroom
  rw [hsize, Int.toNat_natCast]
  rcases Nat.lt_trichotomy row.printed.length size with hlt | heq | hgt
  · refine .inl ⟨?_, by omega⟩
    rw [snprintf_of_lt hlt, row.printed_eq]
    rfl
  · exact .inr (.inl (by rw [← heq, snprintf_self]))
  · refine .inr (.inr ⟨?_, by omega⟩)
    rw [List.length_append, length_snprintf_of_le (Nat.le_of_lt hgt)]
    omega

/-! ### All rows -/

theorem printRows_cons {b : Printing} {m : Int} {row : Row} {rows : List Row} {b' : Printing} :
    printRows b m (row :: rows) = some b' ↔
      ∃ b₁, printRow b m row = some b₁ ∧ printRows b₁ (m - 1) rows = some b' :=
  Option.bind_eq_some_iff

/-- What is written stays, and the two counters go up together and are `int`s. -/
theorem printRows_spec (rows : List Row) : ∀ {b b' : Printing} {m : Int},
    printRows b m rows = some b' →
      b.sendbuf <+: b'.sendbuf ∧
        b'.content_length - b.content_length = b'.sb_bytes - b.sb_bytes ∧
          (b.sb_bytes < 2 ^ 31 → b'.sb_bytes < 2 ^ 31) := by
  induction rows with
  | nil =>
      intro b b' m h
      obtain rfl := Option.some.inj h
      exact ⟨List.prefix_rfl, by omega, id⟩
  | cons row rows ih =>
      intro b b' m h
      obtain ⟨b₁, hrow, hrows⟩ := printRows_cons.mp h
      obtain ⟨hfront, hcount, hint⟩ := ih hrows
      obtain ⟨-, hsb, -, rfl⟩ := printRow_eq_some.mp hrow
      dsimp only at hfront hcount hint
      exact ⟨(List.prefix_append _ _).trans hfront, by omega, fun _ => hint hsb.2⟩

/-- Beyond the end of the buffer no row is printed. -/
theorem printRow_beyond {b : Printing} (h : b.buffer_length < b.sb_bytes) (m : Int) (row : Row) :
    printRow b m row = none := by
  have hgrown : ∀ n, grown b.buffer_length b.sb_bytes m n = b.buffer_length := by
    intro n
    rw [grown, if_neg (by omega)]
  simp only [printRow, hgrown, if_pos (show b.buffer_length - b.sb_bytes < 0 by omega)]

theorem body_cons (row : Row) (rows : List Row) :
    body (row :: rows) = row.getD [] ++ (crlf ++ body rows) := by
  rw [body, List.flatMap_cons, List.append_assoc]
  rfl

/-- A row that is printed as it is. -/
def Printing.add (b : Printing) (m : Int) (row : Row) : Printing where
  sendbuf := b.sendbuf ++ (row.getD [] ++ crlf)
  buffer_length := grown b.buffer_length b.sb_bytes m ((row.getD []).length + 2)
  sb_bytes := b.sb_bytes + ((row.getD []).length + 2 : Nat)
  content_length := b.content_length + ((row.getD []).length + 2 : Nat)

theorem Printing.length_add {b : Printing} (h : b.sendbuf.length = b.sb_bytes) (m : Int)
    (row : Row) : (b.add m row).sendbuf.length = (b.add m row).sb_bytes := by
  have hcrlf : crlf.length = 2 := rfl
  rw [add]
  dsimp only
  rw [List.length_append, List.length_append, hcrlf]
  omega

/-- A row for which there is room. -/
theorem printRow_of_fits {b : Printing} {m : Int} {row : Row} (hrow : row ≠ none)
    (hnul : nul ∉ row.getD []) (hb : b.buffer_length < 2 ^ 31)
    (hcount : 0 ≤ b.content_length ∧ b.content_length ≤ b.sb_bytes)
    (hroom : b.sb_bytes + ((row.getD []).length + 2 : Nat)
      < grown b.buffer_length b.sb_bytes m ((row.getD []).length + 2)) :
    printRow b m row = some (b.add m row) := by
  have hprinted : row.printed = row.getD [] ++ crlf := by
    rw [row.printed_eq, Row.shown_of_clean hrow hnul]
  have hlen : row.printed.length = (row.getD []).length + 2 := by
    rw [hprinted, List.length_append]
    rfl
  have hlt := grown_lt (S := b.sb_bytes) (m := m) (n := (row.getD []).length + 2) hb
  refine printRow_eq_some.mpr ⟨by omega, by omega, by omega, ?_⟩
  rw [hlen, snprintf_of_lt (by omega), hprinted]
  rfl

/-- The rows are printed as they are exactly when each leaves room for one byte more. -/
theorem printRows_iff (rows : List Row) : ∀ {b : Printing} {m : Int},
    b.sendbuf.length = b.sb_bytes → 0 ≤ b.content_length ∧ b.content_length ≤ b.sb_bytes →
    b.buffer_length < 2 ^ 31 →
    ((∃ b', printRows b m rows = some b' ∧ b'.sendbuf = b.sendbuf ++ body rows ∧
        b'.sendbuf.length = b'.sb_bytes) ↔
      RowsFit b.buffer_length b.sb_bytes m rows) := by
  induction rows with
  | nil =>
      intro b m hlen _ _
      exact iff_of_true ⟨b, rfl, (List.append_nil _).symm, hlen⟩ trivial
  | cons row rows ih =>
      intro b m hlen hcount hb
      have hnext := ih (b := b.add m row) (m := m - 1) (Printing.length_add hlen m row)
        (by dsimp only [Printing.add]; omega) (grown_lt hb)
      have hbody₁ : (b.add m row).sendbuf ++ body rows = b.sendbuf ++ body (row :: rows) := by
        rw [body_cons, ← List.append_assoc (row.getD []), ← List.append_assoc]
        rfl
      rw [hbody₁] at hnext
      rw [RowsFit]
      constructor
      · rintro ⟨b', hprint, hbody, hlen'⟩
        obtain ⟨b₁, hrow, hrows⟩ := printRows_cons.mp hprint
        have hfront := (printRows_spec rows hrows).1
        rw [hbody, body_cons] at hfront
        rcases printRow_cases hrow hlen with ⟨hwhole, hroom⟩ | hlost | ⟨hshort, hbeyond⟩
        · rw [hwhole, List.prefix_append_right_inj] at hfront
          obtain ⟨hnone, hnul, -⟩ := Row.of_shown_prefix hfront
          have hlen₁ : row.printed.length = (row.getD []).length + 2 := by
            rw [row.printed_eq, Row.shown_of_clean hnone hnul, List.length_append]
            rfl
          rw [hlen₁, (printRow_eq_some.mp hrow).2.2.2] at hroom
          rw [printRow_of_fits hnone hnul hb hcount hroom] at hrow
          rw [← Option.some.inj hrow] at hrows
          exact ⟨hnone, hnul, hroom, hnext.mp ⟨b', hrows, hbody, hlen'⟩⟩
        · rw [hlost, List.prefix_append_right_inj] at hfront
          exact absurd (Row.of_shown_prefix hfront).2.2 (by decide)
        · -- The buffer is over: it was the last row, and `sb_bytes` is beyond what is written.
          cases rows with
          | nil =>
              obtain rfl := Option.some.inj hrows
              omega
          | cons row' rows =>
              obtain ⟨b₂, hrow', -⟩ := printRows_cons.mp hrows
              rw [printRow_beyond hbeyond] at hrow'
              cases hrow'
      · rintro ⟨hnone, hnul, hroom, hrest⟩
        obtain ⟨b', hrows, hbody, hlen'⟩ := hnext.mpr hrest
        have hrow := printRow_of_fits hnone hnul hb hcount hroom
        exact ⟨b', printRows_cons.mpr ⟨_, hrow, hrows⟩, hbody, hlen'⟩

/-! ### The response -/

theorem length_digits {n : Nat} (h : n < 2 ^ 32) : (Nat.toDigits 10 n).length ≤ 10 :=
  (Nat.length_toDigits_le_iff (by decide) (by decide)).mpr (Nat.lt_trans h (by decide))

theorem Reply.length_headerWith (r : Reply) {n : Nat} (h : n < 2 ^ 32) :
    (r.headerWith n).length = r.header.length := by
  have := length_digits h
  rw [headerWith, header]
  simp only [List.length_append, List.length_replicate]
  omega

/-- The number takes the place of the twelve `$`. -/
theorem fillNumber_header (r : Reply) {n : Nat} (h : n < 2 ^ 31) (w : Text) :
    fillNumber (r.header ++ w) n = r.headerWith n ++ w := by
  have hdigits := length_digits (Nat.lt_trans h (by decide))
  have hmarks : List.replicate 12 '$' = '$' :: List.replicate 11 '$' := rfl
  have hheader : r.header ++ w = r.before ++ '$' :: (List.replicate 11 '$' ++ (r.behind ++ w)) := by
    rw [Reply.header, hmarks, List.append_assoc, List.append_assoc, List.cons_append]
  have hnumber : ((n : Int) % 2 ^ 32).toNat = n := by omega
  obtain ⟨c, hc, hdollar, hnul⟩ := r.behind_clean
  obtain ⟨t, ht⟩ := List.head?_eq_some_iff.mp hc
  have hmark : ∀ d ∈ (r.behind ++ w).head?, isMark d = false := by
    rw [ht, List.cons_append, List.head?_cons]
    rintro d ⟨⟩
    rw [isMark, Bool.or_eq_false_iff, beq_eq_false_iff_ne, beq_eq_false_iff_ne]
    exact ⟨hnul, hdollar⟩
  have hrun : ∀ k, (nul :: (List.replicate k '$' ++ (r.behind ++ w))).takeWhile isMark
        = nul :: List.replicate k '$' ∧
      (nul :: (List.replicate k '$' ++ (r.behind ++ w))).dropWhile isMark = r.behind ++ w := by
    intro k
    refine takeWhile_run (s := nul :: List.replicate k '$') (fun c hc => ?_) hmark
    rcases List.mem_cons.mp hc with rfl | hc
    · rfl
    · rw [List.eq_of_mem_replicate hc]
      rfl
  have hdrop : ('$' :: (List.replicate 11 '$' ++ (r.behind ++ w))).drop
      ((Nat.toDigits 10 n).length + 1)
        = List.replicate (11 - (Nat.toDigits 10 n).length) '$' ++ (r.behind ++ w) := by
    rw [List.drop_succ_cons, List.drop_append_of_le_length (by rw [List.length_replicate]; omega),
      List.drop_replicate]
  have hblanks : (nul :: List.replicate (11 - (Nat.toDigits 10 n).length) '$').map (fun _ => ' ')
      = List.replicate (12 - (Nat.toDigits 10 n).length) ' ' := by
    rw [List.map_const', List.length_cons, List.length_replicate]
    congr 1
    omega
  rw [fillNumber, hheader, takeWhile_ne_append r.before_clean, dropWhile_ne_append r.before_clean]
  simp only [hnumber, hdrop, (hrun _).1, (hrun _).2, hblanks]
  rw [Reply.headerWith, List.append_assoc, List.append_assoc, List.append_assoc]

theorem le_length_body (rows : List Row) : 2 * rows.length ≤ (body rows).length := by
  induction rows with
  | nil => exact Nat.le_refl _
  | cons row rows ih =>
      have hcrlf : crlf.length = 2 := rfl
      rw [body_cons, List.length_append, List.length_append, hcrlf, List.length_cons]
      omega

/-- A response that is defined. -/
theorem queryResult_eq_response {r : Reply} {rows : List Row} {s : Text} {n v : Int} :
    queryResult r (some rows) = .response s n v ↔
      1 ≤ int32 rows.length ∧ (256 + int32 rows.length * 80 < 2 ^ 31) ∧
        ∃ b, printRows ⟨r.header, 256 + int32 rows.length * 80, r.header.length, 0⟩
          (int32 rows.length) rows = some b ∧
            fillNumber b.sendbuf b.content_length = s ∧ b.sb_bytes = n ∧ r.ok = v := by
  simp only [queryResult]
  split
  next h => exact iff_of_false (by rintro ⟨⟩) (by omega)
  next h =>
    by_cases hint : 256 + int32 rows.length * 80 < 2 ^ 31
    · rw [checkedInt_of_range (by omega) hint, Option.bind_some]
      split
      next hnone => simp [hnone]
      next b hsome =>
        rw [hsome]
        simp only [Outcome.response.injEq, Option.some.injEq, exists_eq_left']
        exact ⟨fun heq => ⟨by omega, hint, heq⟩, fun heq => heq.2.2⟩
    · have hnone : checkedInt (256 + int32 rows.length * 80) = none := if_neg fun h => hint h.2
      rw [hnone, Option.bind_none]
      exact iff_of_false (by rintro ⟨⟩) fun h => hint h.2.1

/-- The response is right exactly when the estimate is an `int` and the rows fit. -/
theorem framed_iff (r : Reply) (rows : List Row) (hrows : rows ≠ []) :
    FramedExactly r (queryResult r) rows ↔
      256 + 80 * (rows.length : Int) < 2 ^ 31 ∧
        RowsFit (256 + 80 * rows.length) r.header.length rows.length rows := by
  have hpos := List.length_pos_iff.mpr hrows
  have hheader : r.header.length < 256 := by
    have hsmall := r.small
    rw [Reply.header, List.length_append, List.length_append, List.length_replicate]
    omega
  rw [FramedExactly, queryResult_eq_response]
  constructor
  · rintro ⟨-, hint, b, hprint, hfill, hbytes, -⟩
    obtain ⟨⟨w, hw⟩, hcount, hmax⟩ : r.header <+: b.sendbuf ∧
        b.content_length - 0 = b.sb_bytes - r.header.length ∧
          ((r.header.length : Int) < 2 ^ 31 → b.sb_bytes < 2 ^ 31) := printRows_spec rows hprint
    have hsb := hmax (by omega)
    rw [hbytes, List.length_append] at hsb
    -- As the response has an `int` of bytes, there are few rows.
    have hbody := le_length_body rows
    have hnum : int32 rows.length = rows.length := int32_of_range (by omega) (by omega)
    rw [hnum] at hprint hint
    have hhead := r.length_headerWith (n := (body rows).length) (by omega)
    have hcontent : b.content_length = (body rows).length := by
      rw [hbytes, List.length_append, hhead] at hcount
      omega
    rw [hcontent, ← hw, fillNumber_header r (by omega)] at hfill
    obtain rfl := List.append_cancel_left hfill
    refine ⟨by omega, ?_⟩
    rw [Int.mul_comm 80]
    refine (printRows_iff rows (b := ⟨_, _, _, _⟩) rfl ⟨Int.le_refl 0, Int.natCast_nonneg _⟩
      hint).mp ⟨b, hprint, hw.symm, ?_⟩
    rw [← hw, hbytes, List.length_append, List.length_append, hhead]
  · rintro ⟨hint, hfit⟩
    have hnum : int32 rows.length = rows.length := int32_of_range (by omega) (by omega)
    rw [Int.mul_comm 80] at hfit
    obtain ⟨b, hprint, hbuf, hlen⟩ :=
      (printRows_iff rows (b := ⟨r.header, _, _, 0⟩) rfl ⟨Int.le_refl 0, Int.natCast_nonneg _⟩
        (by dsimp only; omega)).mpr hfit
    obtain ⟨-, hcount, hmax⟩ : r.header <+: b.sendbuf ∧
        b.content_length - 0 = b.sb_bytes - r.header.length ∧
          ((r.header.length : Int) < 2 ^ 31 → b.sb_bytes < 2 ^ 31) := printRows_spec rows hprint
    have hbuf : b.sendbuf = r.header ++ body rows := hbuf
    have hsb := hmax (by omega)
    rw [hbuf, List.length_append] at hlen
    have hcontent : b.content_length = (body rows).length := by omega
    rw [hnum]
    refine ⟨by omega, by omega, b, hprint, ?_, ?_, rfl⟩
    · rw [hbuf, hcontent, fillNumber_header r (by omega)]
    · rw [← hlen, List.length_append, r.length_headerWith (by omega)]

/-- Both functions, for a result set that is not empty. -/
theorem query_framed_iff (row : Row) (rows : List Row) :
    (FramedExactly labelReply getQueryResult (row :: rows) ↔
        256 + 80 * ((row :: rows).length : Int) < 2 ^ 31 ∧
          RowsFit (256 + 80 * (row :: rows).length) labelReply.header.length (row :: rows).length
            (row :: rows)) ∧
      (FramedExactly DeliverHelp.helperReply DeliverHelp.queryContextResult (row :: rows) ↔
        256 + 80 * ((row :: rows).length : Int) < 2 ^ 31 ∧
          RowsFit (256 + 80 * (row :: rows).length) DeliverHelp.helperReply.header.length
            (row :: rows).length (row :: rows)) :=
  ⟨framed_iff labelReply _ (List.cons_ne_nil _ _),
    framed_iff DeliverHelp.helperReply _ (List.cons_ne_nil _ _)⟩

/-- One row of 216 bytes fills the buffer of the label manager, and loses its line feed. -/
theorem row_fills_buffer : ¬ ∀ (row : Row) (rows : List Row),
    FramedExactly labelReply getQueryResult (row :: rows) ∧
      FramedExactly DeliverHelp.helperReply DeliverHelp.queryContextResult (row :: rows) := by
  intro h
  have hfit := (framed_iff labelReply _ (List.cons_ne_nil _ _)).mp
    (h (some (List.replicate 216 'a')) []).1
  obtain ⟨-, -, -, hroom, -⟩ := hfit
  have hheader : labelReply.header.length = 118 := by decide +kernel
  have hrow : (Option.getD (some (List.replicate 216 'a')) []).length = 216 :=
    List.length_replicate
  rw [hheader, hrow] at hroom
  revert hroom
  decide

end Edm.LableManager
