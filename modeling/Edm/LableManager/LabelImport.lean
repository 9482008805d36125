import Edm.LableManager.ScanLog

/-!
# LableManager — LabelImport

What `insert_label_by_taskid` makes of a response of the scan log: one call of
`insert_label_by_email` for each valid row that it takes (`insertLabelByTaskid_spec`).

A row that is not valid makes no call, although it leaves the fields of the row before: `count` is
0 unless all of them were read (`Row.scanRow_line`).  But a line is taken with its LF only, so the
last one is waited for in vain when it has none; the lines and their number are limited; and so are
the fields and the number of a row (`Row.insertRow_iff`).  `imported_iff` says that nothing else is
lost.
-/

namespace Edm.LableManager.ScanLog
open Support

variable {lo hi : Nat} {P : Stream → Prop}

/-! ### What the scan log answers -/

/-- A row.  `count` begins with the number, and may go on. -/
structure Row where
  mailbox : Text
  date : Text
  time : Text
  count : Text
  no_comma : ',' ∉ mailbox ∧ ',' ∉ date ∧ ',' ∉ time
  no_lf : '\n' ∉ mailbox ++ date ++ time ++ count
  no_nul : nul ∉ mailbox ++ date ++ time ++ count

namespace Row

def line (r : Row) : Text :=
  r.mailbox ++ ',' :: (r.date ++ ',' :: (r.time ++ ',' :: r.count))

def number (r : Row) : Int := (strtol r.count).getD 0

/-- The mailbox passes `check_email`, and there are a date and a time in the form that is asked
for. -/
def Good (r : Row) : Prop :=
  checkEmail r.mailbox = 0 ∧ r.date ≠ [] ∧ r.time ≠ [] ∧ readsTime (quoted r.date r.time) = true

instance (r : Row) : Decidable r.Good := inferInstanceAs (Decidable (_ ∧ _ ∧ _ ∧ _))

def Valid (r : Row) : Prop := r.Good ∧ 0 < r.number

instance (r : Row) : Decidable r.Valid := inferInstanceAs (Decidable (_ ∧ _))

/-- The call that is to be made for a row. -/
def call (thrdt : ThreadData) (r : Row) : Insert :=
  ⟨r.mailbox, thrdt.lbset, thrdt.action, r.number, quoted r.date r.time⟩

/-- The calls that are to be made for a row. -/
def calls (thrdt : ThreadData) (r : Row) : List Insert := if r.Valid then [r.call thrdt] else []

/-- The fields that are read, up to one that is empty, have room in their arrays. -/
def Stored (r : Row) : Prop :=
  r.mailbox.length < 256 ∧
    (r.mailbox ≠ [] → r.date.length < 64 ∧ (r.date ≠ [] → r.time.length < 16))

/-- The number is one that an `int` holds, or is not positive there either. -/
def Counted (r : Row) : Prop :=
  int32 r.number = r.number ∨ r.number ≤ 0 ∧ int32 r.number ≤ 0

/-- What is read of a row has room. -/
def Fits (r : Row) : Prop := r.Stored ∧ (r.Good → r.Counted)

instance (r : Row) : Decidable r.Fits :=
  inferInstanceAs (Decidable ((_ ∧ (_ → _ ∧ (_ → _))) ∧ (_ → (_ ∨ _ ∧ _))))

end Row

/-- The calls that are to be made for some rows, whose numbers begin with `n`. -/
def callsFor (thrdt : ThreadData) (n : Nat) (rows : List Row) : List (Nat × Insert) :=
  (rows.zipIdx n).flatMap fun p => (p.1.calls thrdt).map (p.2, ·)

/-- Lines that end in LF, the last of them if it is `terminated`. -/
def bodyOf (terminated : Bool) : List Text → Text
  | [] => []
  | [l] => if terminated then l ++ ['\n'] else l
  | l :: ls => l ++ '\n' :: bodyOf terminated ls

/-- `Content-Length: n`. -/
def IsLength (n : Nat) (h : Text) : Prop :=
  ∃ name pad ds, stdTrim " \t\r".toList h = name ++ (pad ++ ds) ∧
    tolower name = tolower "Content-Length:".toList ∧ (∀ c ∈ pad, c = ' ' ∨ c = '\t') ∧
      ds ≠ [] ∧ (∀ c ∈ ds, c.isDigit = true) ∧ decimal ds = n

/-- A response: header lines, which give the length of the body, a blank line, a title and rows. -/
structure Response where
  headers : List Text
  blank : Text
  title : Text
  rows : List Row
  terminated : Bool
  header_line : ∀ h ∈ headers, '\n' ∉ h ∧ ∃ c ∈ h, c ∉ " \t\r".toList
  blank_line : ∀ c ∈ blank, c ∈ " \t\r".toList
  title_line : '\n' ∉ title
  has_length : ∃ h ∈ headers, IsLength (bodyOf terminated (title :: rows.map Row.line)).length h
  is_length : ∀ h ∈ headers,
    strncasecmpEq (stdTrim " \t\r".toList h) "Content-Length:".toList = true →
      IsLength (bodyOf terminated (title :: rows.map Row.line)).length h

namespace Response

def body (r : Response) : Text := bodyOf r.terminated (r.title :: r.rows.map Row.line)

def text (r : Response) : Text :=
  r.headers.flatMap (· ++ ['\n']) ++ (r.blank ++ '\n' :: r.body)

/-- However the response is cut, the calls are those for its rows, each made when its row is read,
if the peer is silent then. -/
def Imported (r : Response) : Prop :=
  ∀ (thrdt : ThreadData) (handle transfrred : Int) (v : Fields) (s : List Arrival),
    0 < handle → 0 < transfrred → AllData s → arriving s = r.text →
      insertLabelByTaskid thrdt handle transfrred v s = some (callsFor thrdt 1 r.rows)

/-- What stands in front of the rows is taken, if lines of less than `limit` bytes are: there are at
most 32 header lines, the title is not empty, and no line is longer. -/
structure HeadTaken (r : Response) (limit : Nat) : Prop where
  count : r.headers.length ≤ 32
  header : ∀ h ∈ r.headers, h.length < limit
  blank : r.blank.length < limit
  title_ne : r.title ≠ []
  title : r.title.length < limit

/-- A row is taken, if lines of less than `limit` bytes are: neither it nor a line in front of it is
longer, and it ends in LF. -/
def RowTaken (r : Response) (limit : Nat) (front : List Row) (row : Row) (back : List Row) : Prop :=
  r.HeadTaken limit ∧ (∀ row' ∈ front ++ [row], row'.line.length < limit) ∧
    (back = [] → r.terminated = true)

/-- The rows that may be taken have room. -/
def Fits (r : Response) : Prop :=
  ∀ front row back, r.rows = front ++ row :: back →
    r.RowTaken (2 * MAX_LENGTH) front row back → row.Fits

/-- Every row that is valid is taken, however the response is cut. -/
def Complete (r : Response) : Prop :=
  ∀ front row back, r.rows = front ++ row :: back → row.Valid →
    r.RowTaken (MAX_LENGTH + 1) front row back

end Response

/-! ### The length -/

theorem eraseFront_blanks {cls pad : Text} (h : ∀ c ∈ pad, c ∈ cls) : eraseFront cls pad = [] :=
  List.dropWhile_eq_nil_iff.mpr fun c hc => List.contains_iff_mem.mpr (h c hc)

theorem stdTrim_blanks {cls pad : Text} (h : ∀ c ∈ pad, c ∈ cls) : stdTrim cls pad = [] := by
  rw [stdTrim, eraseFront_blanks h]
  rfl

/-- What has another character does not become empty. -/
theorem stdTrim_ne_nil {cls s : Text} {c : Char} (hc : c ∈ s) (hcls : c ∉ cls) :
    stdTrim cls s ≠ [] := by
  have hfront : c ∈ eraseFront cls s := by
    have hsplit := List.takeWhile_append_dropWhile (p := (cls.contains ·)) (l := s)
    rw [← hsplit] at hc
    rcases List.mem_append.mp hc with hc | hc
    · exact absurd (List.contains_iff_mem.mp (List.mem_takeWhile_imp hc)) hcls
    · exact hc
  intro hnil
  rw [stdTrim, eraseBack, List.reverse_eq_nil_iff, List.dropWhile_eq_nil_iff] at hnil
  exact hcls (List.contains_iff_mem.mp (hnil c (List.mem_reverse.mpr hfront)))

/-- The number of a header line is read. -/
theorem readLength_isLength {n : Nat} {h : Text} (hn : IsLength n h) (hlt : n < 2 ^ 31)
    (length : Int) : strncasecmpEq (stdTrim " \t\r".toList h) "Content-Length:".toList = true ∧
      readLength length (stdTrim " \t\r".toList h) = n := by
  obtain ⟨name, pad, ds, htrim, hname, hpad, hne, hds, rfl⟩ := hn
  have hlen : name.length = 15 := by
    have h := congrArg List.length hname
    rwa [tolower, List.length_map] at h
  have hnul : nul ∉ name := by
    intro hmem
    have hlower : nul ∈ tolower name := List.mem_map.mpr ⟨nul, hmem, rfl⟩
    rw [hname] at hlower
    exact absurd hlower (by decide)
  have hkey : strncasecmpEq (name ++ (pad ++ ds)) "Content-Length:".toList = true := by
    rw [strncasecmpEq_append hlen hnul, hname]
    exact beq_self_eq_true _
  have hspace : ∀ c ∈ pad, isspace c = true := by
    intro c hc
    rcases hpad c hc with rfl | rfl <;> rfl
  have hpadnul : nul ∉ pad := by
    intro hmem
    rcases hpad nul hmem with h | h <;> exact absurd h (by decide)
  have hdsnul : nul ∉ ds := fun hmem => absurd (hds nul hmem) (by decide)
  have hread : sscanfInt (pad ++ ds) = sscanfInt ds := by
    rw [sscanfInt, sscanfInt, cstr_self hdsnul, cstr_self (by simp [hpadnul, hdsnul]), strtol,
      strtol, List.dropWhile_append_of_pos hspace]
  rw [htrim]
  refine ⟨hkey, ?_⟩
  rw [readLength, if_pos hkey, ← hlen, List.drop_left, hread, sscanfInt_digits hne hds hlt]
  rfl

/-- The header says the length, and no header line says another one. -/
theorem foldl_readLength {n : Nat} (hlt : n < 2 ^ 31) {hs : List Text}
    (hall : ∀ h ∈ hs, strncasecmpEq (stdTrim " \t\r".toList h) "Content-Length:".toList = true →
      IsLength n h) (length : Int) (hsaid : length = n ∨ ∃ h ∈ hs, IsLength n h) :
    hs.foldl (fun length h => readLength length (stdTrim " \t\r".toList h)) length = n := by
  induction hs generalizing length with
  | nil =>
    rcases hsaid with rfl | ⟨h, hh, -⟩
    · rfl
    · exact absurd hh List.not_mem_nil
  | cons h hs ih =>
    obtain ⟨hfirst, hrest⟩ := List.forall_mem_cons.mp hall
    rw [List.foldl_cons]
    refine ih hrest _ ?_
    by_cases hkey : strncasecmpEq (stdTrim " \t\r".toList h) "Content-Length:".toList = true
    · exact .inl (readLength_isLength (hfirst hkey) hlt length).2
    · rw [readLength, if_neg hkey]
      rcases hsaid with rfl | ⟨h', hmem, hn⟩
      · exact .inl rfl
      · rcases List.mem_cons.mp hmem with rfl | hmem
        · exact absurd (readLength_isLength hn hlt length).1 hkey
        · exact .inr ⟨h', hmem, hn⟩

/-- The header is taken if it has no more lines than it may have, and none is too long. -/
theorem headerLoop_spec (hP : Reading lo hi P) {blank body : Text}
    (hblank : ∀ c ∈ blank, c ∈ " \t\r".toList) {hs : List Text}
    (hhs : ∀ h ∈ hs, '\n' ∉ h ∧ ∃ c ∈ h, c ∉ " \t\r".toList) :
    ∀ {num_rows : Nat} {length : Int} {st : Stream}, P st →
      st.text = hs.flatMap (· ++ ['\n']) ++ (blank ++ '\n' :: body) →
      (∃ st', headerLoop num_rows length st
            = some (hs.foldl (fun length h => readLength length (stdTrim " \t\r".toList h)) length,
                st') ∧
          P st' ∧ st'.text = body ∧ hs.length ≤ num_rows ∧ (∀ h ∈ hs, h.length < hi) ∧
          blank.length < hi) ∨
        headerLoop num_rows length st = none ∧
          ¬ (hs.length ≤ num_rows ∧ (∀ h ∈ hs, h.length < lo) ∧ blank.length < lo) := by
  induction hs with
  | nil =>
    intro num_rows length st hst htext
    have hlf : '\n' ∉ blank := fun h => absurd (hblank _ h) (by decide)
    rw [headerLoop.eq_def]
    dsimp only
    rcases hP.line hst hlf htext with ⟨st', heq, hst', htext', hlt⟩ | ⟨heq, hlong⟩
    · refine .inl ⟨st', ?_, hst', htext', Nat.zero_le _, by simp, hlt⟩
      rw [heq, Option.bind_some, stdTrim_blanks hblank]
      rfl
    · exact .inr ⟨by rw [heq]; rfl, fun h => Nat.not_lt_of_le hlong h.2.2⟩
  | cons h hs ih =>
    intro num_rows length st hst htext
    obtain ⟨⟨hlf, c, hc, hcls⟩, hrest⟩ := List.forall_mem_cons.mp hhs
    rw [List.flatMap_cons, List.append_assoc, List.append_assoc] at htext
    rw [headerLoop.eq_def]
    dsimp only
    rcases hP.line hst hlf htext with ⟨st', heq, hst', htext', hlt⟩ | ⟨heq, hlong⟩
    · have hne : ¬ (stdTrim " \t\r".toList h).length < 1 := fun hlen =>
        stdTrim_ne_nil hc hcls (List.length_eq_zero_iff.mp (by omega))
      rw [heq, Option.bind_some, if_neg hne]
      cases num_rows with
      | zero => exact .inr ⟨rfl, fun h => by have := h.1; simp at this⟩
      | succ num_rows =>
        dsimp only
        rcases ih hrest hst' htext' with
          ⟨st'', heq', hst'', htext'', hcount, hall, hblank⟩ | ⟨heq', hnot⟩
        · exact .inl ⟨st'', heq', hst'', htext'', Nat.succ_le_succ hcount,
            List.forall_mem_cons.mpr ⟨hlt, hall⟩, hblank⟩
        · refine .inr ⟨heq', fun h => hnot ?_⟩
          exact ⟨Nat.le_of_succ_le_succ h.1, (List.forall_mem_cons.mp h.2.1).2, h.2.2⟩
    · refine .inr ⟨by rw [heq]; rfl, fun h => ?_⟩
      exact Nat.not_lt_of_le hlong (h.2.1 _ List.mem_cons_self)

/-! ### The rows -/

/-- A field that has room is stored, and what stands behind its comma is read on. -/
theorem scanSets_append {f : Text} (hf : ',' ∉ f) (hne : f ≠ []) {size : Nat}
    (hsize : f.length < size) (sizes : List Nat) (s : Text) :
    scanSets (size :: sizes) (f ++ ',' :: s)
      = (scanSets sizes s).map fun r => (f :: r.1, r.2) := by
  have htake : (f ++ ',' :: s).takeWhile (· != ',') = f := by
    rw [takeWhile_append_self, takeWhile_ne hf]
  have hdrop : (f ++ ',' :: s).dropWhile (· != ',') = ',' :: s := dropWhile_ne_append hf _
  rw [scanSets, htake, hdrop, if_neg hne, if_neg (Nat.not_le_of_lt hsize)]

/-- An empty field ends the reading. -/
theorem scanSets_empty (size : Nat) (sizes : List Nat) (s : Text) :
    scanSets (size :: sizes) (',' :: s) = some ([], none) := rfl

namespace Row

theorem not_mem_line (r : Row) : nul ∉ r.line ∧ '\n' ∉ r.line := by
  have hlf := r.no_lf
  have hnul := r.no_nul
  have hlfc : '\n' ≠ ',' := by decide
  have hnulc : nul ≠ ',' := by decide
  simp only [List.mem_append, not_or] at hlf hnul
  simp only [line, List.mem_append, List.mem_cons, not_or]
  exact ⟨⟨hnul.1.1.1, hnulc, hnul.1.1.2, hnulc, hnul.1.2, hnulc, hnul.2⟩,
    hlf.1.1.1, hlfc, hlf.1.1.2, hlfc, hlf.1.2, hlfc, hlf.2⟩

theorem line_ne_nil (r : Row) : r.line ≠ [] := by
  rw [line]
  simp

/-- What `sscanf` reads of a row: all of it, or no count. -/
theorem scanRow_line {r : Row} (hr : r.Stored) (v : Fields) : ∃ v' count,
    scanRow r.line v = some (v', count) ∧
      (r.mailbox ≠ [] ∧ r.date ≠ [] ∧ r.time ≠ [] ∧ v' = ⟨r.mailbox, r.date, r.time⟩ ∧
          count = int32 r.number ∨
        (r.mailbox = [] ∨ r.date = [] ∨ r.time = []) ∧ count = 0) := by
  obtain ⟨hmailbox, hr⟩ := hr
  have hcount : nul ∉ r.count := fun h => r.no_nul (List.mem_append_right _ h)
  rw [scanRow, cstr_self r.not_mem_line.1, line]
  by_cases hm : r.mailbox = []
  · rw [hm, List.nil_append, scanSets_empty]
    exact ⟨_, _, rfl, .inr ⟨.inl rfl, rfl⟩⟩
  · obtain ⟨hdate, hr⟩ := hr hm
    rw [scanSets_append r.no_comma.1 hm hmailbox]
    by_cases hd : r.date = []
    · rw [hd, List.nil_append, scanSets_empty]
      exact ⟨_, _, rfl, .inr ⟨.inr (.inl rfl), rfl⟩⟩
    · rw [scanSets_append r.no_comma.2.1 hd hdate]
      by_cases ht : r.time = []
      · rw [ht, List.nil_append, scanSets_empty]
        exact ⟨_, _, rfl, .inr ⟨.inr (.inr rfl), rfl⟩⟩
      · rw [scanSets_append r.no_comma.2.2 ht (hr hd)]
        refine ⟨_, _, rfl, .inl ⟨hm, hd, ht, rfl, ?_⟩⟩
        change (sscanfInt r.count).getD 0 = int32 r.number
        rw [number, sscanfInt, cstr_self hcount]
        cases strtol r.count with
        | none => rfl
        | some n => rfl

/-- A row makes its call if it is good, whatever the row before has left. -/
theorem insertRow_line {r : Row} (hr : r.Stored) (thrdt : ThreadData) (v : Fields) :
    ∃ v', insertRow thrdt r.line v = some (v', if r.Good ∧ 0 < int32 r.number
      then [{ r.call thrdt with count := int32 r.number }] else []) := by
  obtain ⟨v', count, hscan, hread⟩ := scanRow_line hr v
  rw [insertRow, hscan, Option.map_some]
  dsimp only
  rcases hread with ⟨hm, hd, ht, rfl, rfl⟩ | ⟨hempty, rfl⟩
  · have hiff : (checkEmail r.mailbox ≠ 0 ∨ readsTime (quoted r.date r.time) = false ∨
        int32 r.number < 1) ↔ ¬ (r.Good ∧ 0 < int32 r.number) := by
      rw [Good, not_and_or, not_and_or, not_and_or, not_and_or, Bool.not_eq_true, not_not, not_not,
        Int.not_lt, or_iff_right ht, or_iff_right hd, or_assoc]
      exact or_congr_right (or_congr_right (by omega))
    rw [if_congr hiff rfl rfl, ite_not]
    split <;> exact ⟨_, rfl⟩
  · have hbad : ¬ r.Good := by
      rintro ⟨hmail, hd, ht, -⟩
      rcases hempty with hm | h | h
      · rw [hm] at hmail
        exact absurd hmail (by decide)
      · exact hd h
      · exact ht h
    rw [if_pos (.inr (.inr (by decide))), if_neg fun h => hbad h.1]
    exact ⟨_, rfl⟩

/-- A field that is read has room. -/
theorem lt_of_scanSets {f : Text} (hf : ',' ∉ f) (hne : f ≠ []) {size : Nat} {sizes : List Nat}
    {s : Text} (h : (scanSets (size :: sizes) (f ++ ',' :: s)).isSome) :
    f.length < size ∧ (scanSets sizes s).isSome := by
  by_cases hsize : f.length < size
  · rw [scanSets_append hf hne hsize, Option.isSome_map] at h
    exact ⟨hsize, h⟩
  · rw [scanSets, takeWhile_append_self, takeWhile_ne hf, if_neg hne,
      if_pos (Nat.le_of_not_lt hsize)] at h
    cases h

/-- The call is the one that is to be made exactly when the row has room. -/
theorem insertRow_iff {r : Row} {thrdt : ThreadData} {v : Fields} :
    (∃ v', insertRow thrdt r.line v = some (v', r.calls thrdt)) ↔ r.Fits := by
  have hiff : (if r.Good ∧ 0 < int32 r.number
      then [{ r.call thrdt with count := int32 r.number }] else []) = r.calls thrdt ↔
        (r.Good → r.Counted) := by
    by_cases hgood : r.Good
    · have hvalid : r.Valid ↔ 0 < r.number := and_iff_right hgood
      rw [if_congr (and_iff_right hgood) rfl rfl, calls, if_congr hvalid rfl rfl,
        imp_iff_right hgood, Counted]
      split <;> split <;> simp [call] <;> omega
    · rw [if_neg fun h => hgood h.1, calls, if_neg fun h => hgood h.1]
      exact iff_of_true rfl fun h => absurd h hgood
  constructor
  · rintro ⟨v', h⟩
    have hstored : r.Stored := by
      have hsome := congrArg Option.isSome h
      rw [insertRow, scanRow, Option.isSome_map, Option.isSome_map, cstr_self r.not_mem_line.1,
        line] at hsome
      by_cases hm : r.mailbox = []
      · exact ⟨by rw [hm]; decide, fun h => absurd hm h⟩
      obtain ⟨hmailbox, hsome⟩ := lt_of_scanSets r.no_comma.1 hm hsome
      refine ⟨hmailbox, fun _ => ?_⟩
      by_cases hd : r.date = []
      · exact ⟨by rw [hd]; decide, fun h => absurd hd h⟩
      obtain ⟨hdate, hsome⟩ := lt_of_scanSets r.no_comma.2.1 hd hsome
      refine ⟨hdate, fun _ => ?_⟩
      by_cases ht : r.time = []
      · rw [ht]
        decide
      · exact (lt_of_scanSets r.no_comma.2.2 ht hsome).1
    obtain ⟨v'', h'⟩ := insertRow_line hstored thrdt v
    rw [h, Option.some.injEq, Prod.mk.injEq] at h'
    exact ⟨hstored, hiff.mp h'.2.symm⟩
  · rintro ⟨hstored, hcount⟩
    obtain ⟨v', h⟩ := insertRow_line hstored thrdt v
    exact ⟨v', hiff.mpr hcount ▸ h⟩

end Row

/-! ### The loop over the lines -/

theorem bodyOf_cons (terminated : Bool) {l : Text} {ls : List Text} (h : ls ≠ []) :
    bodyOf terminated (l :: ls) = l ++ '\n' :: bodyOf terminated ls := by
  obtain ⟨l', ls, rfl⟩ := List.exists_cons_of_ne_nil h
  rfl

/-- A line that ends in LF. -/
theorem bodyOf_line {terminated : Bool} {l : Text} {ls : List Text}
    (h : ls ≠ [] ∨ terminated = true) :
    bodyOf terminated (l :: ls) = l ++ '\n' :: bodyOf terminated ls := by
  by_cases hls : ls = []
  · obtain rfl := hls
    rcases h with h | rfl
    · exact absurd rfl h
    · rfl
  · exact bodyOf_cons terminated hls

theorem bodyOf_eq_nil {terminated : Bool} {rows : List Row} :
    bodyOf terminated (rows.map Row.line) = [] ↔ rows = [] := by
  constructor
  · intro h
    cases rows with
    | nil => rfl
    | cons row rows =>
      by_cases hls : rows.map Row.line ≠ [] ∨ terminated = true
      · rw [List.map_cons, bodyOf_line hls, List.append_eq_nil_iff] at h
        cases h.2
      · rw [not_or, not_not, Bool.not_eq_true] at hls
        obtain ⟨hls, rfl⟩ := hls
        rw [List.map_cons, hls] at h
        exact absurd h row.line_ne_nil
  · rintro rfl
    rfl

/-- One turn: a line is taken, and its call is made. -/
theorem rowLoop_taken {st st' : Stream} {line t : Text}
    (heq : recvLineFromCacheOrSocket st = some (line, st')) (hne : line ≠ []) {n : Nat}
    (hn : n < 2 ^ 31) (hlen : line.length + 1 + t.length ≤ n) (thrdt : ThreadData)
    (fuel row_total : Nat) (v : Fields) :
    rowLoop thrdt n (fuel + 1) row_total (n - (line.length + 1 + t.length : Nat) : Int) v st
      = (if row_total < 1 then some (v, []) else insertRow thrdt line v).bind fun r =>
          if t = [] then some (r.2.map (row_total, ·))
          else (rowLoop thrdt n fuel (row_total + 1) (n - t.length : Int) r.1 st').map
            (r.2.map (row_total, ·) ++ ·) := by
  rw [rowLoop, heq]
  dsimp only
  have hpos := List.length_pos_iff.mpr hne
  have hadd : int32 ((n - (line.length + 1 + t.length : Nat) : Int) + (line.length + 1))
      = n - t.length := by
    rw [int32_of_range (by omega) (by omega)]
    omega
  rw [if_neg (by omega), hadd]
  by_cases ht : t = []
  · -- The body ends here, and so does the line.
    have hlast : (0 : Int) < n ∧ (n : Int) ≤ n - t.length := by
      rw [ht] at hlen ⊢
      simp only [List.length_nil] at hlen ⊢
      omega
    have hextra : eraseExtra line (n - t.length - n : Int) = some line := if_pos (by omega)
    rw [decide_eq_true hlast, if_pos rfl, hextra, Option.bind_some]
    simp only [if_true, if_pos ht]
  · have hmore : ¬ ((0 : Int) < n ∧ (n : Int) ≤ n - t.length) := by
      have := List.length_pos_iff.mpr ht
      omega
    rw [decide_eq_false hmore, if_neg Bool.false_ne_true, Option.bind_some]
    simp only [if_neg Bool.false_ne_true, if_neg ht]

theorem callsFor_cons (thrdt : ThreadData) (n : Nat) (row : Row) (rows : List Row) :
    callsFor thrdt n (row :: rows)
      = (row.calls thrdt).map (n, ·) ++ callsFor thrdt (n + 1) rows := by
  rw [callsFor, List.zipIdx_cons, List.flatMap_cons]
  rfl

/-- The calls are made in the order of the rows. -/
theorem le_of_mem_rowLoop {thrdt : ThreadData} {length : Int} {fuel : Nat} :
    ∀ {k : Nat} {transfrred : Int} {v : Fields} {st : Stream} {calls : List (Nat × Insert)},
      rowLoop thrdt length fuel k transfrred v st = some calls → ∀ p ∈ calls, k ≤ p.1 := by
  have hmem : ∀ {k : Nat} {calls : List Insert}, ∀ p ∈ calls.map (k, ·), k ≤ p.1 := by
    intro k calls p hp
    obtain ⟨_, -, rfl⟩ := List.mem_map.mp hp
    exact Nat.le_refl k
  induction fuel with
  | zero =>
    rintro k _ _ _ _ ⟨⟩
    simp
  | succ fuel ih =>
    intro k transfrred v st calls h
    rw [rowLoop] at h
    split at h
    · cases h
      simp
    split at h
    · cases h
      simp
    obtain ⟨_, -, h⟩ := Option.bind_eq_some_iff.mp h
    obtain ⟨r, -, h⟩ := Option.bind_eq_some_iff.mp h
    dsimp only at h
    split at h
    · cases h
      exact hmem
    · obtain ⟨rest, hrest, rfl⟩ := Option.map_eq_some_iff.mp h
      exact List.forall_mem_append.mpr ⟨hmem, fun p hp => Nat.le_of_succ_le (ih hrest p hp)⟩

theorem le_of_mem_callsFor {thrdt : ThreadData} {rows : List Row} : ∀ {n : Nat},
    ∀ p ∈ callsFor thrdt n rows, n ≤ p.1 := by
  intro n p hp
  obtain ⟨⟨row, m⟩, hmem, hp⟩ := List.mem_flatMap.mp hp
  obtain ⟨_, -, rfl⟩ := List.mem_map.mp hp
  exact List.le_snd_of_mem_zipIdx hmem

/-- The calls of one row are those with its number. -/
theorem calls_inj {k : Nat} {calls calls' : List Insert} {l l' : List (Nat × Insert)}
    (hl : ∀ p ∈ l, k < p.1) (hl' : ∀ p ∈ l', k < p.1)
    (h : calls.map (k, ·) ++ l = calls'.map (k, ·) ++ l') : calls = calls' := by
  have hcalls : ∀ {calls : List Insert} {l : List (Nat × Insert)}, (∀ p ∈ l, k < p.1) →
      (calls.map (k, ·) ++ l).filterMap (fun p => if p.1 = k then some p.2 else none) = calls := by
    intro calls l hl
    rw [List.filterMap_append, List.filterMap_map, List.filterMap_eq_nil_iff.mpr
      fun p hp => if_neg (Nat.ne_of_gt (hl p hp)), List.append_nil]
    simp
  rw [← @hcalls calls l hl, h, hcalls hl']

/-- Why a row is not taken: it is too long, or the last one and without its LF. -/
def Untaken (lo : Nat) (terminated : Bool) (unread : List Row) : Prop :=
  ∃ row rows, unread = row :: rows ∧ (lo ≤ row.line.length ∨ rows = [] ∧ terminated = false)

/-- A row is taken that has no room. -/
def Unfit (hi : Nat) (terminated : Bool) (rows : List Row) : Prop :=
  ∃ front row back, rows = front ++ row :: back ∧
    (∀ row' ∈ front ++ [row], row'.line.length < hi) ∧ (back = [] → terminated = true) ∧ ¬ row.Fits

/-- The rows are taken up to one that cannot be; or one has no room, and the calls are others. -/
theorem rowLoop_spec (hP : Reading lo hi P) {terminated : Bool} {n : Nat} (hn : n < 2 ^ 31)
    (thrdt : ThreadData) {rows : List Row} : ∀ {fuel row_total : Nat} {v : Fields} {st : Stream},
      P st → rows.length ≤ fuel → 0 < row_total → rows ≠ [] →
      st.text = bodyOf terminated (rows.map Row.line) →
      (bodyOf terminated (rows.map Row.line)).length ≤ n →
      (∃ read unread, rows = read ++ unread ∧
        rowLoop thrdt n fuel row_total
            (n - (bodyOf terminated (rows.map Row.line)).length : Int) v st
          = some (callsFor thrdt row_total read) ∧
        (∀ row ∈ read, row.line.length < hi ∧ row.Fits) ∧
        (unread = [] ∧ terminated = true ∨ Untaken lo terminated unread)) ∨
      rowLoop thrdt n fuel row_total
          (n - (bodyOf terminated (rows.map Row.line)).length : Int) v st
        ≠ some (callsFor thrdt row_total rows) ∧ Unfit hi terminated rows := by
  induction rows with
  | nil => exact fun _ _ _ hne => absurd rfl hne
  | cons row rows ih =>
    intro fuel row_total v st hst hfuel htotal _ htext hlen
    obtain ⟨fuel, rfl⟩ := Nat.exists_eq_succ_of_ne_zero
      (by rw [List.length_cons] at hfuel; omega : fuel ≠ 0)
    by_cases hls : rows.map Row.line ≠ [] ∨ terminated = true
    · rw [List.map_cons, bodyOf_line hls] at htext hlen ⊢
      have hsum : (row.line ++ '\n' :: bodyOf terminated (rows.map Row.line)).length
          = row.line.length + 1 + (bodyOf terminated (rows.map Row.line)).length := by
        rw [List.length_append, List.length_cons]
        omega
      rw [hsum] at hlen ⊢
      rcases hP.line hst row.not_mem_line.2 htext
        with ⟨st', heq, hst', htext', hlt⟩ | ⟨heq, hlong⟩
      · rw [rowLoop_taken heq row.line_ne_nil hn hlen, if_neg (by omega)]
        by_cases hrow : row.Fits
        · obtain ⟨v', hinsert⟩ := (@Row.insertRow_iff row thrdt v).mpr hrow
          rw [hinsert, Option.bind_some]
          by_cases hrows : rows = []
          · obtain rfl := hrows
            refine .inl ⟨[row], [], rfl, ?_, List.forall_mem_singleton.mpr ⟨hlt, hrow⟩,
              .inl ⟨rfl, ?_⟩⟩
            · rw [callsFor_cons]
              exact (if_pos rfl).trans (congrArg _ (List.append_nil _).symm)
            · exact hls.resolve_left fun h => h rfl
          · rw [if_neg (mt bodyOf_eq_nil.mp hrows)]
            rcases @ih fuel (row_total + 1) v' st' hst' (Nat.le_of_succ_le_succ hfuel)
                (Nat.succ_pos _) hrows htext' (by omega)
              with ⟨read, unread, rfl, hcalls, hall, hend⟩ | ⟨hcalls, front, row', back, rfl, h⟩
            · refine .inl ⟨row :: read, unread, rfl, ?_,
                List.forall_mem_cons.mpr ⟨⟨hlt, hrow⟩, hall⟩, hend⟩
              rw [hcalls, callsFor_cons]
              rfl
            · refine .inr ⟨fun heq => ?_, row :: front, row', back, rfl,
                List.forall_mem_cons.mpr ⟨hlt, h.1⟩, h.2⟩
              rw [callsFor_cons] at heq
              obtain ⟨rest, hrest, heq⟩ := Option.map_eq_some_iff.mp heq
              rw [List.append_cancel_left heq] at hrest
              exact hcalls hrest
        · -- The calls of this row are none, or others.
          refine .inr ⟨fun heq => hrow ?_, [], row, rows, rfl, List.forall_mem_singleton.mpr hlt,
            fun h => hls.resolve_left fun hne => hne (List.map_eq_nil_iff.mpr h), hrow⟩
          obtain ⟨⟨v', calls⟩, hinsert, heq⟩ := Option.bind_eq_some_iff.mp heq
          rw [callsFor_cons] at heq
          have hnext : ∀ p ∈ callsFor thrdt (row_total + 1) rows, row_total < p.1 :=
            le_of_mem_callsFor
          suffices calls = row.calls thrdt from Row.insertRow_iff.mp ⟨v', this ▸ hinsert⟩
          dsimp only at heq
          split at heq
          · refine calls_inj (l := []) (by simp) hnext ?_
            rw [List.append_nil]
            exact Option.some.inj heq
          · obtain ⟨rest, hrest, heq⟩ := Option.map_eq_some_iff.mp heq
            exact calls_inj (fun p hp => le_of_mem_rowLoop hrest p hp) hnext heq
      · refine .inl ⟨[], row :: rows, rfl, ?_, by simp, .inr ⟨row, rows, rfl, .inl hlong⟩⟩
        rw [rowLoop, heq]
        rfl
    · -- The last row is waited for.
      rw [not_or, not_not, List.map_eq_nil_iff, Bool.not_eq_true] at hls
      obtain ⟨rfl, rfl⟩ := hls
      have hnone : recvLineFromCacheOrSocket st = none :=
        lineLoop_none (hP.allData hst) (by rw [htext]; exact row.not_mem_line.2)
      refine .inl ⟨[], [row], rfl, ?_, by simp, .inr ⟨row, [], rfl, .inr ⟨rfl, rfl⟩⟩⟩
      rw [rowLoop, hnone]
      rfl

/-! ### The response -/

namespace Response

variable {r : Response}

/-- The number of rows is at most that of their bytes. -/
theorem length_le_bodyOf (terminated : Bool) (rows : List Row) :
    rows.length ≤ (bodyOf terminated (rows.map Row.line)).length := by
  induction rows with
  | nil => exact Nat.zero_le _
  | cons row rows ih =>
    have hpos := List.length_pos_iff.mpr row.line_ne_nil
    by_cases hls : rows.map Row.line ≠ [] ∨ terminated = true
    · rw [List.map_cons, bodyOf_line hls, List.length_append, List.length_cons, List.length_cons]
      omega
    · rw [not_or, not_not, List.map_eq_nil_iff, Bool.not_eq_true] at hls
      obtain ⟨rfl, rfl⟩ := hls
      exact hpos

/-- The rows that are taken from a response, and why the next one is not. -/
structure Taken (r : Response) (lo hi : Nat) (read unread : List Row) : Prop where
  rows : r.rows = read ++ unread
  each : ∀ row ∈ read, row.line.length < hi ∧ row.Fits
  head : read ≠ [] → r.HeadTaken hi
  ended : unread = [] ∨ ¬ r.HeadTaken lo ∨ Untaken lo r.terminated unread
  last : unread = [] → read ≠ [] → r.terminated = true

/-- The calls are those for the rows that are taken, or one of these has no room. -/
theorem insertLabelByTaskid_spec (hP : Reading lo hi P) (hn : r.body.length < 2 ^ 31)
    (thrdt : ThreadData) (v : Fields) {handle transfrred : Int} {s : List Arrival}
    (hhandle : 0 < handle) (hsent : 0 < transfrred) (hs : P ⟨[], s⟩) (htext : arriving s = r.text) :
    (∃ read unread, r.Taken lo hi read unread ∧
      insertLabelByTaskid thrdt handle transfrred v s = some (callsFor thrdt 1 read)) ∨
    insertLabelByTaskid thrdt handle transfrred v s ≠ some (callsFor thrdt 1 r.rows) ∧
      ∃ front row back, r.rows = front ++ row :: back ∧ r.RowTaken hi front row back ∧
        ¬ row.Fits := by
  have hnothing : (¬ r.HeadTaken lo ∨ Untaken lo r.terminated r.rows ∨ r.rows = []) →
      r.Taken lo hi [] r.rows := fun hend =>
    { rows := rfl
      each := by simp
      head := fun h => absurd rfl h
      ended := by
        rcases hend with h | h | h
        · exact .inr (.inl h)
        · exact .inr (.inr h)
        · exact .inl h
      last := fun _ h => absurd rfl h }
  rw [insertLabelByTaskid, if_neg (by omega), if_neg (by omega), getHttpLengthAndRemoveHeader]
  rcases headerLoop_spec hP r.blank_line r.header_line hs htext
    with ⟨st, heq, hst, hbody, hcount, hmay, hblank⟩ | ⟨heq, hnot⟩
  · have hlength := foldl_readLength hn r.is_length 0 (.inr r.has_length)
    rw [heq]
    dsimp only
    rw [hlength, if_neg (by omega)]
    have hfuel : st.cache.length + (arriving st.socket).length = r.body.length := by
      rw [← hbody, Stream.text, List.length_append]
    rw [hfuel]
    by_cases hls : r.rows.map Row.line ≠ [] ∨ r.terminated = true
    · by_cases htitle : r.title = []
      · -- An empty title ends the import.
        refine .inl ⟨[], r.rows, hnothing (.inl fun h => h.title_ne htitle), ?_⟩
        rw [body, bodyOf_line hls, htitle] at hbody
        rw [rowLoop]
        rcases hP.line hst List.not_mem_nil hbody with ⟨st', heq', -⟩ | ⟨heq', -⟩
        · rw [heq']
          rfl
        · rw [heq']
          rfl
      · have hcut : r.body = r.title ++ '\n' :: bodyOf r.terminated (r.rows.map Row.line) :=
          bodyOf_line hls
        have hlen : r.title.length + 1 + (bodyOf r.terminated (r.rows.map Row.line)).length
            = r.body.length := by
          rw [hcut, List.length_append, List.length_cons]
          omega
        rcases hP.line hst r.title_line (hbody.trans hcut)
          with ⟨st', htaken, hst', htext', hlt⟩ | ⟨hnone, hlong⟩
        · have hhead : r.HeadTaken hi := ⟨hcount, hmay, hblank, htitle, hlt⟩
          have hloop := rowLoop_taken htaken htitle hn hlen.le thrdt r.body.length 0 v
          rw [hlen, Int.sub_self, if_pos (by decide), Option.bind_some] at hloop
          rw [hloop]
          by_cases hrows : r.rows = []
          · refine .inl ⟨[], r.rows, hnothing (.inr (.inr hrows)), ?_⟩
            rw [if_pos (bodyOf_eq_nil.mpr hrows)]
            rfl
          · have hsame : ∀ calls : Option (List (Nat × Insert)),
                calls.map ((([] : List Insert).map fun i => (0, i)) ++ ·) = calls :=
              fun _ => Option.map_id'
            rw [if_neg (mt bodyOf_eq_nil.mp hrows), hsame]
            rcases @rowLoop_spec lo hi P hP r.terminated r.body.length hn thrdt r.rows
                r.body.length 1 v st' hst'
                (by have := length_le_bodyOf r.terminated r.rows; omega) (by decide)
                hrows htext' (by omega)
              with ⟨read, unread, hsplit, hcalls, hall, hend⟩ |
                ⟨hcalls, front, row, back, hsplit, hall, hlast, hrow⟩
            · refine .inl ⟨read, unread, ⟨hsplit, hall, fun _ => hhead, ?_, ?_⟩, hcalls⟩
              · rcases hend with ⟨hnil, -⟩ | hend
                · exact .inl hnil
                · exact .inr (.inr hend)
              · rintro rfl -
                rcases hend with ⟨-, hterm⟩ | ⟨_, _, hcons, -⟩
                · exact hterm
                · cases hcons
            · exact .inr ⟨hcalls, front, row, back, hsplit, ⟨hhead, hall, hlast⟩, hrow⟩
        · refine .inl ⟨[], r.rows, hnothing (.inl fun h => Nat.not_lt_of_le hlong h.title), ?_⟩
          rw [rowLoop, hnone]
          rfl
    · -- The title is waited for, and there are no rows.
      rw [not_or, not_not, List.map_eq_nil_iff, Bool.not_eq_true] at hls
      refine .inl ⟨[], r.rows, hnothing (.inr (.inr hls.1)), ?_⟩
      have hnone : recvLineFromCacheOrSocket st = none := by
        refine lineLoop_none (hP.allData hst) ?_
        rw [hbody, body, hls.1, hls.2]
        exact r.title_line
      rw [rowLoop, hnone]
      rfl
  · refine .inl ⟨[], r.rows, hnothing (.inl fun h => hnot ⟨h.count, h.header, h.blank⟩), ?_⟩
    rw [heq]
    rfl

/-- A row is among those taken if it and what stands in front of it are short. -/
theorem Taken.reads {read unread : List Row} (h : r.Taken lo hi read unread) {front : List Row}
    {row : Row} {back : List Row} (hrows : r.rows = front ++ row :: back)
    (htaken : r.RowTaken lo front row back) : front ++ [row] <+: read := by
  have hsplit : front ++ [row] ++ back = read ++ unread := by rw [← h.rows, hrows]; simp
  obtain ⟨hhead, hshort, hlast⟩ := htaken
  rcases List.append_eq_append_iff.mp hsplit with ⟨u, rfl, -⟩ | ⟨u, hread, hunread⟩
  · exact List.prefix_append _ u
  · rcases h.ended with rfl | hnot | ⟨first, rows, hfirst, hlong | ⟨rfl, hterm⟩⟩
    · rw [List.append_eq_nil_iff.mp hunread.symm |>.1, List.append_nil] at hread
      exact hread ▸ List.prefix_rfl
    · exact absurd hhead hnot
    · cases u with
      | nil => exact (hread.trans (List.append_nil read)) ▸ List.prefix_rfl
      | cons first' u =>
        obtain ⟨rfl, -⟩ := List.cons.inj (hfirst.symm.trans hunread)
        exact absurd (hshort first (hread ▸ by simp)) (Nat.not_lt_of_le hlong)
    · cases u with
      | nil => exact (hread.trans (List.append_nil read)) ▸ List.prefix_rfl
      | cons first' u =>
        have hnil := (List.cons.inj (hfirst.symm.trans hunread)).2.symm
        rw [hlast (List.append_eq_nil_iff.mp hnil).2] at hterm
        cases hterm

theorem callsFor_append (thrdt : ThreadData) (n : Nat) (read unread : List Row) :
    callsFor thrdt n (read ++ unread)
      = callsFor thrdt n read ++ callsFor thrdt (n + read.length) unread := by
  rw [callsFor, callsFor, callsFor, List.zipIdx_append, List.flatMap_append]

theorem callsFor_eq_nil {thrdt : ThreadData} {n : Nat} {rows : List Row} :
    callsFor thrdt n rows = [] ↔ ∀ row ∈ rows, ¬ row.Valid := by
  induction rows generalizing n with
  | nil => exact iff_of_true rfl (by simp)
  | cons row rows ih =>
    rw [callsFor_cons, List.append_eq_nil_iff, List.map_eq_nil_iff, ih, List.forall_mem_cons,
      Row.calls]
    split <;> simp [*]

theorem imported_of_complete (hn : r.body.length < 2 ^ 31) (hr : r.Fits) (hc : r.Complete) :
    r.Imported := by
  intro thrdt handle transfrred v s hhandle hsent hs htext
  rcases insertLabelByTaskid_spec reading_clean hn thrdt v hhandle hsent ⟨hs, Nat.zero_le _⟩ htext
    with ⟨read, unread, htaken, heq⟩ | ⟨-, front, row, back, hrows, hrow, hunfit⟩
  · have hrest : callsFor thrdt (1 + read.length) unread = [] := by
      refine callsFor_eq_nil.mpr fun row hmem hvalid => ?_
      obtain ⟨front, back, rfl⟩ := List.append_of_mem hmem
      have hrows : r.rows = (read ++ front) ++ row :: back := by
        rw [htaken.rows, List.append_assoc]
      have hlen := (htaken.reads hrows (hc _ _ _ hrows hvalid)).length_le
      rw [List.length_append, List.length_append, List.length_singleton] at hlen
      omega
    rw [heq, htaken.rows, callsFor_append, hrest, List.append_nil]
  · exact absurd (hr front row back hrows hrow) hunfit

/-- The lines may come so that all are taken that can be. -/
theorem fits_of_imported (hn : r.body.length < 2 ^ 31) (h : r.Imported) : r.Fits := by
  intro front row back hrows hrow
  obtain ⟨s, hs, htext⟩ := exists_wide r.text
  have hcalls := h ⟨'1', []⟩ 1 1 ⟨[], [], []⟩ s (by decide) (by decide) (reading_wide.allData hs)
    htext
  rcases insertLabelByTaskid_spec reading_wide hn ⟨'1', []⟩ ⟨[], [], []⟩ Int.one_pos Int.one_pos
      hs htext with ⟨read, unread, htaken, -⟩ | ⟨hne, -⟩
  · exact (htaken.each row ((htaken.reads hrows hrow).subset (by simp))).2
  · exact absurd hcalls hne

/-- The bytes may come one by one. -/
theorem complete_of_imported (hn : r.body.length < 2 ^ 31) (h : r.Imported) : r.Complete := by
  have hslow : Stream.Slow ⟨[], oneByOne r.text⟩ := ⟨rfl, r.text, rfl⟩
  have hcalls := h ⟨'1', []⟩ 1 1 ⟨[], [], []⟩ (oneByOne r.text) (by decide) (by decide)
    (allData_oneByOne _) (arriving_oneByOne _)
  rcases insertLabelByTaskid_spec reading_slow hn ⟨'1', []⟩ ⟨[], [], []⟩ Int.one_pos Int.one_pos
      hslow (arriving_oneByOne r.text)
    with ⟨read, unread, htaken, heq⟩ | ⟨hne, -⟩
  · rw [heq, Option.some.injEq, htaken.rows, callsFor_append, List.self_eq_append_right] at hcalls
    have hnone := callsFor_eq_nil.mp hcalls
    intro front row back hrows hvalid
    rw [htaken.rows] at hrows
    rcases List.append_eq_append_iff.mp hrows with ⟨u, rfl, hunread⟩ | ⟨u, hread, hback⟩
    · exact absurd hvalid (hnone row (hunread ▸ List.mem_append_right _ List.mem_cons_self))
    · cases u with
      | nil => exact absurd hvalid (hnone row (by rw [← List.nil_append unread, ← hback]; simp))
      | cons row' u =>
        obtain ⟨rfl, rfl⟩ := List.cons.inj hback
        refine ⟨htaken.head (hread ▸ by simp), fun row' hmem => (htaken.each row' ?_).1,
          fun hnil => htaken.last (List.append_eq_nil_iff.mp hnil).2 (hread ▸ by simp)⟩
        rw [hread, ← List.singleton_append, ← List.append_assoc]
        exact List.mem_append_left _ hmem
  · exact absurd hcalls hne

/-- Each valid row of a response is imported once exactly when the rows that are read have room, and
the response is complete: its last line ends in LF, or is not valid, and no limit is exceeded in
front of a valid row. -/
theorem imported_iff (hn : r.body.length < 2 ^ 31) : r.Imported ↔ r.Fits ∧ r.Complete :=
  ⟨fun h => ⟨fits_of_imported hn h, complete_of_imported hn h⟩,
    fun h => imported_of_complete hn h.1 h.2⟩

/-- A response with a title and rows. -/
def answer (rows : List Row) (terminated : Bool) (ds : Text) (hlf : '\n' ∉ ds)
    (hn : IsLength (bodyOf terminated ("email,date,time,count".toList :: rows.map Row.line)).length
      ("Content-Length: ".toList ++ ds)) : Response where
  headers := ["Content-Length: ".toList ++ ds]
  blank := "\r".toList
  title := "email,date,time,count".toList
  rows := rows
  terminated := terminated
  header_line := List.forall_mem_singleton.mpr
    ⟨by simpa using hlf, 'C', List.mem_cons_self, by decide⟩
  blank_line := by decide
  title_line := by decide
  has_length := ⟨_, List.mem_cons_self, hn⟩
  is_length := List.forall_mem_singleton.mpr fun _ => hn

/-- An opening of a mail. -/
def opening : Row where
  mailbox := "a@b.cc".toList
  date := "2013-07-29".toList
  time := "11:49:02".toList
  count := "1".toList
  no_comma := by decide
  no_lf := by decide
  no_nul := by decide

/-- A row without a mailbox, behind which nothing is read. -/
def nobody : Row where
  mailbox := []
  date := List.replicate 100 '1'
  time := "11:49:02".toList
  count := "1".toList
  no_comma := by decide
  no_lf := by decide
  no_nul := by decide

/-- A valid row, one that is not, and the first again. -/
def threeRows : Response :=
  answer [opening, nobody, opening] true "193".toList (by decide)
    ⟨"Content-Length:".toList, [' '], "193".toList, by decide +kernel⟩

theorem imported_threeRows : threeRows.Imported := by
  have hall : ∀ row ∈ threeRows.rows, row.Fits ∧ row.line.length < MAX_LENGTH + 1 := by
    decide +kernel
  refine (imported_iff (by decide +kernel)).mpr ⟨fun front row back h _ => ?_,
    fun front row back h _ => ⟨⟨by decide, by decide, by decide, by decide, by decide⟩,
      fun row' hmem => ?_, fun _ => rfl⟩⟩
  · exact (hall row (h ▸ List.mem_append_right _ List.mem_cons_self)).1
  · rw [← List.singleton_append, ← List.append_assoc] at h
    exact (hall row' (h ▸ List.mem_append_left _ hmem)).2

/-- One row, which has no LF. -/
def unended : Response :=
  answer [opening] false "50".toList (by decide)
    ⟨"Content-Length:".toList, [' '], "50".toList, by decide⟩

/-- The last row has no LF, and is lost. -/
theorem row_without_lf : ¬ ∀ r : Response, r.Imported := by
  intro h
  cases (complete_of_imported (by decide) (h unended) [] opening [] rfl (by decide)).2.2 rfl

end Response

end Edm.LableManager.ScanLog
