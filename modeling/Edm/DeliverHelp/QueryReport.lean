import Mathlib
import Edm.DeliverHelp.Report
import Edm.Support.Lower

/-!
# DeliverHelp — QueryReport

Command 2002: the reports that were counted.  `bdb_query_report` is called with every record of
the Berkeley database.  It cuts the key apart with an offset and what remains behind it, compares
what it finds with the filters, and appends a line; `try2forget_2002` sends the lines.

`bdb_query_report_key`: a key that `insert_detail_records` has made is cut where it was put
together.  The bytes of the lines are counted in an `unsigned int`, and the buffer for them in an
`int`; `report_answered_iff` says that they are sent while these can count them.
-/

namespace Edm.DeliverHelp
open Support

/-! ### The code -/

/-- `bdb_param_t`: the filters, which are empty where they are not given, and what is found. -/
structure BdbParam where
  ip : Text
  from_ : Text
  rcpt : Text
  date : Text
  bytes : Nat
  linebuf : List Text

/-- `memchr(key + head, '|', n)`, as an index of the key. -/
def memchrBar (key : Text) (head n : Nat) : Option Nat :=
  let before := ((key.drop head).take n).takeWhile (· != '|')
  if before.length < ((key.drop head).take n).length then some (head + before.length) else none

/-- Where `bdb_query_report` is in the key, and the line. -/
structure Scan where
  offset : Nat
  head : Nat
  line : Text

/-- A field up to the next bar, which is compared with its filter. -/
def Scan.field (key filter : Text) (s : Scan) : Option Scan :=
  (memchrBar key s.head (key.length - s.offset)).bind fun tail =>
    if 0 < filter.length ∧
        (tail - s.head ≠ filter.length ∨ strncasecmpEq (key.drop s.head) filter = false) then none
    else some
      { offset := s.offset + (tail + 1 - s.head)
        head := tail + 1
        line := s.line ++ ((key.drop s.head).take (tail - s.head) ++ [',']) }

/-- `"%u,%u\r\n"`. -/
def Counts.printed (data : Counts) : Text :=
  Nat.toDigits 10 data.s ++ ',' :: (Nat.toDigits 10 data.f ++ ['\r', '\n'])

/-- The day, which is what remains of the key, and the counts. -/
def Scan.day (key filter : Text) (data : Counts) (s : Scan) : Option Text :=
  let length := min (key.length - s.offset) filter.length
  if 0 < filter.length ∧ strncasecmpEq (key.drop s.head) (filter.take length) = false then none
  else some (s.line ++ ((key.drop s.head).take (key.length - s.offset) ++ ',' :: data.printed))

/-- The line of a record, unless a filter is against it. -/
def BdbParam.line (param : BdbParam) (key : Text) (data : Counts) : Option Text :=
  if key.take 3 ≠ "T1|".toList then none
  else
    (Scan.field key param.ip ⟨3, 3, []⟩).bind fun s =>
      (s.field key param.from_).bind fun s =>
        (s.field key param.rcpt).bind fun s => s.day key param.date data

def bdbQueryReport (key : Text) (data : Counts) (param : BdbParam) : BdbParam :=
  match param.line key data with
  | none => param
  | some line =>
      { param with
        bytes := (param.bytes + line.length) % 2 ^ 32
        linebuf := param.linebuf ++ [line] }

/-- `cursor_traversal`, which holds the lock of the database. -/
def cursorTraversal (records : List (Text × Counts)) (param : BdbParam) : BdbParam :=
  records.foldl (fun param e => bdbQueryReport e.1 e.2 param) param

/-- What is sent, if it is defined. -/
inductive Response where
  | sent (message : Text)
  | undefined
  deriving DecidableEq

/-- `thread_http_process` answers where there is no data. -/
def emptyResponse (status : Text) : Text :=
  "HTTP/1.1 ".toList ++ (status ++ ("\r\nServer: Deliverhelper/1.0.1\r\n".toList
    ++ "Content-Length: 0\r\nConnection: close\r\n\r\n".toList))

def okLines : Text := "HTTP/1.1 200 OK\r\nServer: Deliverhelper/1.0.1\r\n".toList

def typeLine : Text := "Content-Type: text/plain\r\n".toList

def lengthField : Text := "Content-Length: ".toList

def lastLines : Text := "\r\nConnection: close\r\n\r\n".toList

def reportHeader (bytes : Nat) : Text :=
  okLines ++ (typeLine ++ (lengthField ++ (Nat.toDigits 10 bytes ++ lastLines)))

/-- The end of `try2forget_2002`.  There is no memory for a number of bytes that is negative as
an `int`; nothing is defined when the lines are copied beyond the buffer. -/
def BdbParam.respond (param : BdbParam) : Response :=
  if param.linebuf.length < 1 then .sent (emptyResponse "200 OK".toList)
  else
    let size : Nat := (param.bytes + 256) % 2 ^ 32
    let header := reportHeader param.bytes
    if int32 size < 0 then .sent (emptyResponse "503 Service Unavailable".toList)
    else if header.length < size ∧ header.length + param.linebuf.flatten.length ≤ size then
      .sent (header ++ param.linebuf.flatten)
    else .undefined

/-- The parameters of a request; `ip` is empty where it is not given. -/
structure ReportQuery where
  ip : Text
  from_ : Option Text
  rcpt : Option Text
  date : Option Text

def ReportQuery.param (q : ReportQuery) : BdbParam :=
  ⟨q.ip, q.from_.getD [], q.rcpt.getD [], q.date.getD [], 0, []⟩

def try2forget_2002 (beyond : Text) (records : List (Text × Counts)) (q : ReportQuery) : Response :=
  if 0 < q.ip.length ∧ checkInetAddr beyond q.ip = false then
    .sent (emptyResponse "400 Bad Request".toList)
  else if ∃ f ∈ q.from_, checkDomain f = false then .sent (emptyResponse "404 Not Found".toList)
  else if ∃ f ∈ q.rcpt, checkDomain f = false then .sent (emptyResponse "404 Not Found".toList)
  else if ∃ d ∈ q.date, 8 < d.length ∨ ∃ c ∈ d, c.isDigit = false then
    .sent (emptyResponse "400 Bad Request".toList)
  else (cursorTraversal records q.param).respond

/-! ### What is promised -/

/-- The filters that `try2forget_2002` takes. -/
structure ReportQuery.Accepted (beyond : Text) (q : ReportQuery) : Prop where
  ip : q.ip = [] ∨ checkInetAddr beyond q.ip = true
  from_ : ∀ f ∈ q.from_, checkDomain f = true
  rcpt : ∀ f ∈ q.rcpt, checkDomain f = true
  date : ∀ d ∈ q.date, d.length ≤ 8 ∧ ∀ c ∈ d, c.isDigit = true

/-- The filters that are given are those of the record, up to case, and its day begins with the
date. -/
structure ReportQuery.Matches (q : ReportQuery) (e : Place × Day) : Prop where
  ip : q.ip = [] ∨ tolower q.ip = tolower e.1.ip
  from_ : ∀ f ∈ q.from_, tolower f = tolower e.1.from_
  rcpt : ∀ f ∈ q.rcpt, tolower f = tolower e.1.rcpt
  date : ∀ d ∈ q.date, d <+: e.2.date

/-- The records that a query asks for, in some order. -/
structure ReportQuery.IsReport (q : ReportQuery) (store : Text → Option Counts)
    (days : List (Place × Day)) : Prop where
  nodup : days.Nodup
  mem : ∀ e : Place × Day, e ∈ days ↔ store (e.1.detailKey e.2) ≠ none ∧ q.Matches e

/-- `ip,from,rcpt,day,success,fail`. -/
def reportLine (e : Place × Day) (data : Counts) : Text :=
  e.1.ip ++ ',' :: (e.1.from_ ++ ',' :: (e.1.rcpt ++ ',' :: (e.2.date ++ ',' :: data.printed)))

/-- The lines of the records, with the counts that are stored. -/
def reportBody (store : Text → Option Counts) (days : List (Place × Day)) : Text :=
  days.flatMap fun e => reportLine e ((store (e.1.detailKey e.2)).getD ⟨0, 0⟩)

/-- A response with a body, and its length. -/
def okResponse (type body : Text) : Text :=
  okLines ++ (type ++ (lengthField ++ (Nat.toDigits 10 body.length ++ (lastLines ++ body))))

/-- Exactly the records that are asked for are sent, one line for each. -/
def ReportQuery.Answered (q : ReportQuery) (store : Text → Option Counts) (r : Response) : Prop :=
  ∃ (days : List (Place × Day)) (type : Text), q.IsReport store days ∧
    (type = [] ∨ type = typeLine) ∧
      r = .sent (okResponse type (reportBody store days))

/-- The cursor comes to each record once. -/
structure Traversal (store : Text → Option Counts) (records : List (Text × Counts)) : Prop where
  nodup : (records.map Prod.fst).Nodup
  mem : ∀ key data, (key, data) ∈ records ↔ store key = some data

/-! ### A record -/

/-- Both in the C locale: a field that has no NUL, up to a bar. -/
theorem Place.nul_not_mem (p : Place) : nul ∉ p.ip ∧ nul ∉ p.from_ ∧ nul ∉ p.rcpt := by
  have hdomain : ∀ {domain : Text}, checkDomain domain = true → nul ∉ domain := by
    intro domain h hmem
    rcases mem_mailbox h (List.mem_append_right _ hmem) with hc | hc <;>
      exact absurd hc (by decide)
  refine ⟨fun hmem => ?_, hdomain p.from_ok, hdomain p.rcpt_ok⟩
  rcases p.ip_ok _ hmem with hc | hc <;> exact absurd hc (by decide)

/-- Where `bdb_query_report` is behind a part of the key. -/
def Scan.behind (before line : Text) : Scan := ⟨before.length, before.length, line⟩

section Field
variable {key before f rest : Text} (hkey : key = before ++ (f ++ '|' :: rest)) (hbar : '|' ∉ f)
include hkey hbar

theorem memchrBar_append :
    memchrBar key before.length (key.length - before.length)
      = some (before.length + f.length) := by
  have hrest : (key.drop before.length).take (key.length - before.length) = f ++ '|' :: rest := by
    rw [hkey, List.drop_left, List.length_append, Nat.add_sub_cancel_left, List.take_length]
  simp only [memchrBar]
  rw [hrest, takeWhile_ne_append hbar, if_pos]
  rw [List.length_append, List.length_cons]
  omega

/-- A field is compared, and is appended where the filter is not against it. -/
theorem Scan.field_append (hnul : nul ∉ f) (filter line : Text) :
    (behind before line).field key filter
      = if filter = [] ∨ tolower filter = tolower f then
          some (behind (before ++ (f ++ ['|'])) (line ++ (f ++ [','])))
        else none := by
  have hend : before.length + f.length + 1 = (before ++ (f ++ ['|'])).length := by
    rw [List.length_append, List.length_append, List.length_singleton]
    omega
  have hoffset : before.length + ((before ++ (f ++ ['|'])).length - before.length)
      = (before ++ (f ++ ['|'])).length := by omega
  have hagainst : (0 < filter.length ∧ (f.length ≠ filter.length ∨
      strncasecmpEq (f ++ '|' :: rest) filter = false)) ↔
        ¬(filter = [] ∨ tolower filter = tolower f) := by
    rw [List.length_pos_iff, not_or]
    refine and_congr_right fun _ => ?_
    by_cases hlen : f.length = filter.length
    · rw [strncasecmpEq_append hlen hnul, beq_eq_false_iff_ne]
      exact ⟨fun h heq => h.elim (absurd hlen) fun hne => hne heq.symm,
        fun h => .inr fun heq => h heq.symm⟩
    · refine iff_of_true (.inl hlen) fun heq => hlen ?_
      have hmap := congrArg List.length heq
      rw [length_tolower, length_tolower] at hmap
      exact hmap.symm
  have hdrop : key.drop before.length = f ++ '|' :: rest := by rw [hkey, List.drop_left]
  rw [Scan.field, behind, memchrBar_append hkey hbar, Option.bind_some]
  simp only [hdrop, Nat.add_sub_cancel_left, List.take_left, hend, hoffset]
  split
  next h => rw [if_neg (hagainst.mp h)]
  next h =>
    rw [if_pos (not_not.mp (mt hagainst.mpr h))]
    rfl

end Field

theorem tolower_digits {s : Text} (h : ∀ c ∈ s, c.isDigit = true) : tolower s = s := by
  refine (List.map_congr_left fun c hc => ?_).trans (List.map_id s)
  have hrange := digit_range (h c hc)
  exact (toLower_eq_iff (d := c) (by omega)).mpr rfl

theorem Day.isDigit_of_mem_date {d : Day} {c : Char} (hc : c ∈ d.date) : c.isDigit = true := by
  rw [date, List.mem_append, List.mem_append] at hc
  rcases hc with hc | hc | hc <;> exact isDigit_of_mem_padded hc

theorem Day.le_length_date (d : Day) : 8 ≤ d.date.length := by
  rw [date, List.length_append, List.length_append, padded_length (w := 2) (by decide) d.month_lt,
    padded_length (w := 2) (by decide) d.day_lt, padded, List.length_leftpad]
  omega

/-- The day is compared up to the length of the filter, which is the shorter one. -/
theorem Day.date_against_iff (d : Day) {f : Text} (hlen : f.length ≤ 8)
    (hdigits : ∀ c ∈ f, c.isDigit = true) :
    strncasecmpEq d.date (f.take (min d.date.length f.length)) = true ↔ f <+: d.date := by
  have hle := d.le_length_date
  have hprefix : (d.date.take f.length).length = f.length := List.length_take_of_le (by omega)
  have hdate : ∀ c ∈ d.date.take f.length, c.isDigit = true :=
    fun c hc => isDigit_of_mem_date (List.mem_of_mem_take hc)
  have hnul : nul ∉ d.date.take f.length := fun h => absurd (hdate nul h) (by decide)
  rw [Nat.min_eq_right (by omega), List.take_length]
  conv_lhs => rw [← List.take_append_drop f.length d.date]
  rw [strncasecmpEq_append hprefix hnul, beq_iff_eq, tolower_digits hdate, tolower_digits hdigits,
    List.prefix_iff_eq_take]
  exact eq_comm

/-- A date that is given is compared, and the line ends. -/
theorem Scan.day_append {key before : Text} {d : Day} (hkey : key = before ++ d.date)
    {filter : Option Text} (hfilter : ∀ f ∈ filter, f.length ≤ 8 ∧ ∀ c ∈ f, c.isDigit = true)
    (data : Counts) (line : Text) :
    (behind before line).day key (filter.getD []) data
      = if ∀ f ∈ filter, f <+: d.date then some (line ++ (d.date ++ ',' :: data.printed))
        else none := by
  have hrest : key.drop before.length = d.date := by rw [hkey, List.drop_left]
  have hleft : key.length - before.length = d.date.length := by
    rw [hkey, List.length_append, Nat.add_sub_cancel_left]
  have hagainst : (0 < (filter.getD []).length ∧ strncasecmpEq d.date
      ((filter.getD []).take (min d.date.length (filter.getD []).length)) = false) ↔
        ¬ ∀ f ∈ filter, f <+: d.date := by
    cases filter with
    | none => simp
    | some f =>
        obtain ⟨hlen, hdigits⟩ := hfilter f rfl
        have hf := d.date_against_iff hlen hdigits
        rw [Option.getD_some, ← Bool.not_eq_true, hf]
        constructor
        · exact fun h hall => h.2 (hall f rfl)
        · intro h
          have hnot : ¬ f <+: d.date := fun hf => h fun g hg => Option.some.inj hg ▸ hf
          refine ⟨List.length_pos_iff.mpr ?_, hnot⟩
          rintro rfl
          exact hnot List.nil_prefix
  simp only [Scan.day, behind, hrest, hleft, List.take_length]
  split
  next h => rw [if_neg (hagainst.mp h)]
  next h => rw [if_pos (not_not.mp (mt hagainst.mpr h))]

/-- A domain that is given is a filter, and is not empty. -/
theorem filter_iff {filter : Option Text} (h : ∀ f ∈ filter, checkDomain f = true) (field : Text) :
    (filter.getD [] = [] ∨ tolower (filter.getD []) = tolower field) ↔
      ∀ f ∈ filter, tolower f = tolower field := by
  cases filter with
  | none => simp
  | some f =>
      have hne : f ≠ [] := by
        rintro rfl
        exact absurd (h [] rfl) (by decide)
      simp [hne]

instance (q : ReportQuery) (e : Place × Day) : Decidable (q.Matches e) :=
  decidable_of_iff ((q.ip = [] ∨ tolower q.ip = tolower e.1.ip) ∧
      (∀ f ∈ q.from_, tolower f = tolower e.1.from_) ∧
      (∀ f ∈ q.rcpt, tolower f = tolower e.1.rcpt) ∧ ∀ d ∈ q.date, d <+: e.2.date)
    ⟨fun h => ⟨h.1, h.2.1, h.2.2.1, h.2.2.2⟩, fun h => ⟨h.1, h.2, h.3, h.4⟩⟩

/-- The key is cut where it was put together, and each part is compared with its filter. -/
theorem bdb_query_report_key {beyond : Text} {q : ReportQuery} (hq : q.Accepted beyond)
    {param : BdbParam} (hip : param.ip = q.ip) (hfrom : param.from_ = q.from_.getD [])
    (hrcpt : param.rcpt = q.rcpt.getD []) (hdate : param.date = q.date.getD []) (e : Place × Day)
    (data : Counts) :
    param.line (e.1.detailKey e.2) data
      = if q.Matches e then some (reportLine e data) else none := by
  obtain ⟨hnul_ip, hnul_from, hnul_rcpt⟩ := e.1.nul_not_mem
  have htake : (e.1.detailKey e.2).take 3 = "T1|".toList := rfl
  have hkey₁ : e.1.detailKey e.2 = "T1|".toList ++ (e.1.ip ++ '|' :: (e.1.from_ ++ '|' ::
      (e.1.rcpt ++ '|' :: e.2.date))) := rfl
  have hkey₂ : e.1.detailKey e.2 = "T1|".toList ++ (e.1.ip ++ ['|']) ++
      (e.1.from_ ++ '|' :: (e.1.rcpt ++ '|' :: e.2.date)) := by simp [Place.detailKey]
  have hkey₃ : e.1.detailKey e.2 = "T1|".toList ++ (e.1.ip ++ ['|']) ++ (e.1.from_ ++ ['|']) ++
      (e.1.rcpt ++ '|' :: e.2.date) := by simp [Place.detailKey]
  have hkey₄ : e.1.detailKey e.2 = "T1|".toList ++ (e.1.ip ++ ['|']) ++ (e.1.from_ ++ ['|']) ++
      (e.1.rcpt ++ ['|']) ++ e.2.date := by simp [Place.detailKey]
  have h₁ := Scan.field_append hkey₁ e.1.bar_not_mem_ip hnul_ip param.ip []
  have h₂ := Scan.field_append hkey₂ (bar_not_mem_domain e.1.from_ok) hnul_from param.from_
    ([] ++ (e.1.ip ++ [',']))
  have h₃ := Scan.field_append hkey₃ (bar_not_mem_domain e.1.rcpt_ok) hnul_rcpt param.rcpt
    ([] ++ (e.1.ip ++ [',']) ++ (e.1.from_ ++ [',']))
  have h₄ := Scan.day_append hkey₄ hq.date data
    ([] ++ (e.1.ip ++ [',']) ++ (e.1.from_ ++ [',']) ++ (e.1.rcpt ++ [',']))
  have hline : [] ++ (e.1.ip ++ [',']) ++ (e.1.from_ ++ [',']) ++ (e.1.rcpt ++ [',']) ++
      (e.2.date ++ ',' :: data.printed) = reportLine e data := by simp [reportLine]
  rw [hip] at h₁
  simp only [hfrom, filter_iff hq.from_] at h₂
  simp only [hrcpt, filter_iff hq.rcpt] at h₃
  rw [hline] at h₄
  have hstart : (⟨3, 3, []⟩ : Scan) = .behind "T1|".toList [] := rfl
  rw [BdbParam.line, if_neg (not_not.mpr htake), hip, hfrom, hrcpt, hdate, hstart, h₁]
  by_cases hc₁ : q.ip = [] ∨ tolower q.ip = tolower e.1.ip
  · rw [if_pos hc₁, Option.bind_some, h₂]
    by_cases hc₂ : ∀ f ∈ q.from_, tolower f = tolower e.1.from_
    · rw [if_pos hc₂, Option.bind_some, h₃]
      by_cases hc₃ : ∀ f ∈ q.rcpt, tolower f = tolower e.1.rcpt
      · rw [if_pos hc₃, Option.bind_some, h₄]
        by_cases hc₄ : ∀ d ∈ q.date, d <+: e.2.date
        · rw [if_pos hc₄, if_pos ⟨hc₁, hc₂, hc₃, hc₄⟩]
        · rw [if_neg hc₄, if_neg fun h => hc₄ h.date]
      · rw [if_neg hc₃, if_neg fun h => hc₃ h.rcpt, Option.bind_none]
    · rw [if_neg hc₂, if_neg fun h => hc₂ h.from_, Option.bind_none]
  · rw [if_neg hc₁, if_neg fun h => hc₁ h.ip, Option.bind_none]

/-! ### All records -/

theorem cursorTraversal_cons (e : Text × Counts) (records : List (Text × Counts))
    (param : BdbParam) :
    cursorTraversal (e :: records) param
      = cursorTraversal records (bdbQueryReport e.1 e.2 param) := rfl

/-- The lines of all records, in their order. -/
def BdbParam.lines (param : BdbParam) : List (Text × Counts) → List Text
  | [] => []
  | e :: records => (param.line e.1 e.2).toList ++ param.lines records

/-- A line that is found changes no filter. -/
theorem BdbParam.lines_found (param : BdbParam) (bytes : Nat) (linebuf : List Text) :
    ∀ records : List (Text × Counts),
      { param with bytes := bytes, linebuf := linebuf : BdbParam }.lines records
        = param.lines records
  | [] => rfl
  | e :: records => congrArg ((param.line e.1 e.2).toList ++ ·) (lines_found param _ _ records)

/-- The bytes of the lines are counted in 32 bits. -/
theorem cursorTraversal_spec (records : List (Text × Counts)) : ∀ {param : BdbParam},
    param.bytes < 2 ^ 32 →
      (cursorTraversal records param).linebuf = param.linebuf ++ param.lines records ∧
      (cursorTraversal records param).bytes
        = (param.bytes + (param.lines records).flatten.length) % 2 ^ 32 := by
  induction records with
  | nil => exact fun hbytes => ⟨(List.append_nil _).symm, (Nat.mod_eq_of_lt hbytes).symm⟩
  | cons e records ih =>
      intro param hbytes
      rw [cursorTraversal_cons, bdbQueryReport, BdbParam.lines]
      split
      next hnone =>
        rw [hnone]
        exact ih hbytes
      next line hline =>
        obtain ⟨hlines, hcount⟩ := @ih { param with
          bytes := (param.bytes + line.length) % 2 ^ 32
          linebuf := param.linebuf ++ [line] } (Nat.mod_lt _ (by decide))
        rw [BdbParam.lines_found] at hlines hcount
        rw [hline, hlines, hcount]
        refine ⟨List.append_assoc _ _ _, ?_⟩
        rw [Option.toList_some, List.flatten_append, List.flatten_singleton, List.length_append,
          Nat.mod_add_mod, Nat.add_assoc]

/-- The key of a record. -/
def IsDetail (key : Text) : Prop := ∃ (p : Place) (d : Day), key = p.detailKey d

/-- What a query finds. -/
theorem cursorTraversal_param (q : ReportQuery) (records : List (Text × Counts)) :
    (cursorTraversal records q.param).linebuf = q.param.lines records ∧
      (cursorTraversal records q.param).bytes
        = (q.param.lines records).flatten.length % 2 ^ 32 := by
  have hzero : q.param.bytes = 0 := rfl
  obtain ⟨hlines, hbytes⟩ := @cursorTraversal_spec records q.param (by rw [hzero]; decide)
  rw [hzero, Nat.zero_add] at hbytes
  exact ⟨hlines, hbytes⟩

/-- The records with their places and days. -/
theorem exists_entries {records : List (Text × Counts)}
    (h : ∀ e ∈ records, IsDetail e.1) :
    ∃ entries : List ((Place × Day) × Counts),
      records = entries.map fun x => (x.1.1.detailKey x.1.2, x.2) := by
  induction records with
  | nil => exact ⟨[], rfl⟩
  | cons e records ih =>
      obtain ⟨⟨p, d, hkey⟩, hrest⟩ := List.forall_mem_cons.mp h
      obtain ⟨entries, rfl⟩ := ih hrest
      exact ⟨((p, d), e.2) :: entries, by rw [List.map_cons, ← hkey]⟩

theorem lines_entries {beyond : Text} {q : ReportQuery} (hq : q.Accepted beyond)
    (entries : List ((Place × Day) × Counts)) :
    q.param.lines (entries.map fun x => (x.1.1.detailKey x.1.2, x.2))
      = (entries.filter fun x => q.Matches x.1).map fun x => reportLine x.1 x.2 := by
  induction entries with
  | nil => rfl
  | cons x entries ih =>
      rw [List.map_cons, BdbParam.lines, ih, List.filter_cons,
        bdb_query_report_key hq rfl rfl rfl rfl x.1 x.2]
      by_cases hm : q.Matches x.1
      · rw [if_pos hm, if_pos (decide_eq_true hm), List.map_cons]
        rfl
      · rw [if_neg hm, if_neg (by simpa using hm)]
        rfl

/-! ### What is stored -/

namespace Helper
variable {T : Type*} [DecidableEq T] {s s' : Helper T}

/-- What a step does to the records of the days. -/
theorem step_report {a : T × Act} (h : s.step a = some s') :
    s'.bdb_report = s.bdb_report ∨
      (∃ (p : Place) (d : Day), s'.bdb_report = s.bdb_report.read a.1 (p.detailKey d)) ∨
      ∃ f, s'.bdb_report = s.bdb_report.write a.1 f := by
  rw [Helper.step] at h
  split at h
  next =>
    split at h <;> obtain rfl := Option.some.inj h
    · exact .inl rfl
    · exact .inl rfl
  next day r _ _ =>
    obtain rfl := Option.some.inj h
    exact .inr (.inl ⟨r.toPlace, day, rfl⟩)
  next =>
    obtain rfl := Option.some.inj h
    exact .inr (.inr ⟨_, rfl⟩)
  next =>
    split at h
    next =>
      obtain rfl := Option.some.inj h
      exact .inl rfl
    next => cases h
  next =>
    obtain rfl := Option.some.inj h
    exact .inl rfl
  next =>
    obtain rfl := Option.some.inj h
    exact .inl rfl
  next =>
    obtain rfl := Option.some.inj h
    refine .inl ?_
    rw [putQuantity]
    split <;> rfl
  next => cases h

/-- Only records of a place and a day are stored. -/
theorem keys_run {as : List (T × Act)} (hrun : Run Steps (init : Helper T) as s) :
    s.bdb_report.Keys IsDetail := by
  refine hrun.invariant (I := fun s => s.bdb_report.Keys IsDetail) (fun s a s' h hs => ?_)
    Shared.Keys.empty
  rcases step_report hs with heq | ⟨p, d, heq⟩ | ⟨f, heq⟩ <;> rw [heq]
  · exact h
  · exact h.read a.1 ⟨p, d, rfl⟩
  · exact h.write a.1 f

theorem finite_run {as : List (T × Act)} (hrun : Run Steps (init : Helper T) as s) :
    {key | s.bdb_report.store key ≠ none}.Finite := by
  refine hrun.invariant (I := fun s => {key | s.bdb_report.store key ≠ none}.Finite)
    (fun s a s' h hs => ?_) (Set.finite_empty.subset fun key hkey => hkey rfl)
  rcases step_report hs with heq | ⟨p, d, heq⟩ | ⟨f, heq⟩ <;> rw [heq]
  · exact h
  · exact h
  · exact Shared.finite_write h a.1 f

end Helper

/-! ### The response -/

theorem length_reportHeader {bytes : Nat} (h : bytes < 2 ^ 32) :
    (reportHeader bytes).length ≤ 121 := by
  have hdigits : (Nat.toDigits 10 bytes).length ≤ 10 :=
    (Nat.length_toDigits_le_iff (by decide) (by decide)).mpr (Nat.lt_trans h (by decide))
  have hlines : okLines.length = 46 := by decide +kernel
  have htype : typeLine.length = 26 := by decide +kernel
  have hfield : lengthField.length = 16 := by decide +kernel
  have hlast : lastLines.length = 23 := by decide +kernel
  rw [reportHeader, List.length_append, List.length_append, List.length_append, List.length_append,
    hlines, htype, hfield, hlast]
  omega

theorem int32_neg_iff {n : Nat} (h : n < 2 ^ 32) : int32 n < 0 ↔ 2 ^ 31 ≤ n := by
  rcases Nat.lt_or_ge n (2 ^ 31) with hn | hn
  · rw [int32_of_range (by omega) (by omega)]
    omega
  · have hshift : int32 n = int32 (n - 2 ^ 32) := by
      rw [int32, int32, show (n : Int) - 2 ^ 32 = n - (2 ^ 32 : Nat) from rfl, Int.sub_bmod_right]
    rw [hshift, int32_of_range (by omega) (by omega)]
    omega

/-- The responses differ in their status lines. -/
theorem okResponse_ne_503 (type body : Text) :
    emptyResponse "503 Service Unavailable".toList ≠ okResponse type body := by
  intro heq
  have hfive : (emptyResponse "503 Service Unavailable".toList)[9]? = some '5' := by
    decide +kernel
  have htwo : okLines[9]? = some '2' := by decide +kernel
  rw [heq, okResponse, List.getElem?_append_left (by decide +kernel), htwo] at hfive
  exact absurd hfive (by decide)

section Respond
variable {param : BdbParam} {lines : List Text} (hlines : param.linebuf = lines)
  (hbytes : param.bytes = lines.flatten.length % 2 ^ 32)
include hlines hbytes

/-- While an `int` can count the bytes, all of them are sent. -/
theorem respond_small (hsmall : lines.flatten.length + 256 < 2 ^ 31) :
    ∃ type : Text, (type = [] ∨ type = typeLine) ∧
      param.respond = .sent (okResponse type lines.flatten) := by
  have hmod : param.bytes = lines.flatten.length := by
    rw [hbytes, Nat.mod_eq_of_lt (by omega)]
  have hheader : (reportHeader lines.flatten.length).length ≤ 121 :=
    length_reportHeader (by omega)
  have hsize : (lines.flatten.length + 256) % 2 ^ 32 = lines.flatten.length + 256 :=
    Nat.mod_eq_of_lt (by omega)
  have hint := (int32_neg_iff (n := lines.flatten.length + 256) (by omega)).not.mpr (by omega)
  rcases Nat.eq_zero_or_pos lines.length with hzero | hpos
  · obtain rfl := List.length_eq_zero_iff.mp hzero
    refine ⟨[], .inl rfl, ?_⟩
    rw [BdbParam.respond, hlines, if_pos (by decide)]
    exact congrArg Response.sent (by decide +kernel)
  · refine ⟨typeLine, .inr rfl, ?_⟩
    simp only [BdbParam.respond, hlines, hmod, hsize]
    rw [if_neg (by omega), if_neg hint, if_pos ⟨by omega, by omega⟩]
    simp [reportHeader, okResponse]

/-- Beyond that there is no memory, or too little. -/
theorem respond_large (hlarge : 2 ^ 31 ≤ lines.flatten.length + 256) (type body : Text) :
    param.respond ≠ .sent (okResponse type body) := by
  have hsize : (param.bytes + 256) % 2 ^ 32 < 2 ^ 32 := Nat.mod_lt _ (by decide)
  have hcons : ¬ lines.length < 1 := by
    intro hzero
    obtain rfl := List.length_eq_zero_iff.mp (Nat.lt_one_iff.mp hzero)
    exact absurd hlarge (by decide)
  simp only [BdbParam.respond, hlines]
  rw [if_neg hcons]
  split
  next => exact fun heq => okResponse_ne_503 type body (Response.sent.inj heq)
  next hint =>
    -- The sum of `bytes` and 256 is less than 2^31, so one of them has wrapped.
    rw [int32_neg_iff hsize] at hint
    rw [if_neg (by omega)]
    rintro ⟨⟩

end Respond

/-- All lists of the records that a query asks for have the same lines. -/
theorem ReportQuery.IsReport.length_eq {q : ReportQuery} {store : Text → Option Counts}
    {days days' : List (Place × Day)} (h : q.IsReport store days) (h' : q.IsReport store days') :
    (reportBody store days).length = (reportBody store days').length := by
  have hperm : days.Perm days' := (List.perm_ext_iff_of_nodup h.nodup h'.nodup).mpr fun e =>
    (h.mem e).trans (h'.mem e).symm
  exact (hperm.flatMap_right _).length_eq

/-- What `try2forget_2002` has found for filters that it takes. -/
theorem try2forget_2002_eq {beyond : Text} {q : ReportQuery} (hq : q.Accepted beyond)
    (records : List (Text × Counts)) :
    try2forget_2002 beyond records q = (cursorTraversal records q.param).respond := by
  have hip : ¬(0 < q.ip.length ∧ checkInetAddr beyond q.ip = false) := by
    rintro ⟨hpos, hfalse⟩
    rcases hq.ip with hnil | htrue
    · rw [hnil] at hpos
      exact absurd hpos (by decide)
    · rw [htrue] at hfalse
      cases hfalse
  have hdomain : ∀ {filter : Option Text}, (∀ f ∈ filter, checkDomain f = true) →
      ¬∃ f ∈ filter, checkDomain f = false := by
    rintro filter h ⟨f, hf, hfalse⟩
    rw [h f hf] at hfalse
    cases hfalse
  have hdate : ¬∃ d ∈ q.date, 8 < d.length ∨ ∃ c ∈ d, c.isDigit = false := by
    rintro ⟨d, hd, hlong | ⟨c, hc, hfalse⟩⟩
    · exact Nat.not_lt.mpr (hq.date d hd).1 hlong
    · rw [(hq.date d hd).2 c hc] at hfalse
      cases hfalse
  rw [try2forget_2002, if_neg hip, if_neg (hdomain hq.from_), if_neg (hdomain hq.rcpt),
    if_neg hdate]

section Report
variable {T : Type*} [DecidableEq T] {as : List (T × Act)} {s : Helper T}
  (hrun : Run Helper.Steps Helper.init as s) {records : List (Text × Counts)}
  (hrecords : Traversal s.bdb_report.store records)
include hrun hrecords

/-- The records that the cursor finds are those that are asked for. -/
theorem exists_report {beyond : Text} {q : ReportQuery} (hq : q.Accepted beyond) :
    ∃ days, q.IsReport s.bdb_report.store days ∧
      (q.param.lines records).flatten = reportBody s.bdb_report.store days := by
  have hkeys : ∀ e ∈ records, IsDetail e.1 := by
    intro e he
    refine (Helper.keys_run hrun).store e.1 ?_
    rw [(hrecords.mem e.1 e.2).mp he]
    exact Option.some_ne_none _
  obtain ⟨entries, rfl⟩ := exists_entries hkeys
  have hmem : ∀ e data, (e, data) ∈ entries ↔
      s.bdb_report.store (e.1.detailKey e.2) = some data := by
    intro e data
    rw [← hrecords.mem, List.mem_map]
    constructor
    · exact fun he => ⟨(e, data), he, rfl⟩
    · rintro ⟨⟨e', data'⟩, he', heq⟩
      obtain ⟨hkey, rfl⟩ := Prod.mk.inj heq
      obtain ⟨hp, hd⟩ := Place.detailKey_inj hkey
      rwa [← Prod.ext hp hd]
  refine ⟨(entries.filter fun x => q.Matches x.1).map Prod.fst, ⟨?_, fun e => ?_⟩, ?_⟩
  · have hnodup := hrecords.nodup
    rw [List.map_map] at hnodup
    have hfst : (entries.map Prod.fst).Nodup := by
      refine List.Nodup.of_map (fun e : Place × Day => e.1.detailKey e.2) ?_
      rw [List.map_map]
      exact hnodup
    exact hfst.sublist (List.filter_sublist.map Prod.fst)
  · simp only [List.mem_map, List.mem_filter, decide_eq_true_iff]
    constructor
    · rintro ⟨⟨e', data⟩, ⟨he, hm⟩, rfl⟩
      refine ⟨?_, hm⟩
      rw [(hmem e' data).mp he]
      exact Option.some_ne_none _
    · rintro ⟨hstored, hm⟩
      obtain ⟨data, hdata⟩ := Option.ne_none_iff_exists'.mp hstored
      exact ⟨(e, data), ⟨(hmem e data).mpr hdata, hm⟩, rfl⟩
  · rw [lines_entries hq, ← List.flatMap_def, reportBody, List.flatMap_map]
    refine List.flatMap_congr fun x hx => ?_
    rw [(hmem x.1 x.2).mp (List.mem_of_mem_filter hx), Option.getD_some]

/-- The bytes that are sent are counted by an `int`. -/
theorem length_of_answered {beyond : Text} {q : ReportQuery} (hq : q.Accepted beyond)
    (hanswered : q.Answered s.bdb_report.store (try2forget_2002 beyond records q))
    {days : List (Place × Day)} (hdays : q.IsReport s.bdb_report.store days) :
    (reportBody s.bdb_report.store days).length + 256 < 2 ^ 31 := by
  obtain ⟨found, hfound, hbody⟩ := exists_report hrun hrecords hq
  obtain ⟨hlines, hbytes⟩ := cursorTraversal_param q records
  obtain ⟨days', type, -, -, hsent⟩ := hanswered
  rw [try2forget_2002_eq hq] at hsent
  by_contra hlarge
  refine respond_large hlines hbytes ?_ type _ hsent
  rw [hbody, hfound.length_eq hdays]
  omega

/-- The records that match are sent, with their counts, exactly when an `int` can count the bytes
of their lines. -/
theorem report_answered_iff {beyond : Text} {q : ReportQuery} (hq : q.Accepted beyond) :
    q.Answered s.bdb_report.store (try2forget_2002 beyond records q) ↔
      ∀ days, q.IsReport s.bdb_report.store days →
        (reportBody s.bdb_report.store days).length + 256 < 2 ^ 31 := by
  refine ⟨fun h days hdays => length_of_answered hrun hrecords hq h hdays, fun h => ?_⟩
  obtain ⟨days, hdays, hbody⟩ := exists_report hrun hrecords hq
  obtain ⟨hlines, hbytes⟩ := cursorTraversal_param q records
  have hsmall := h days hdays
  rw [← hbody] at hsmall
  obtain ⟨type, htype, hsent⟩ := respond_small hlines hbytes hsmall
  refine ⟨days, type, hdays, htype, ?_⟩
  rw [try2forget_2002_eq hq, hsent, hbody]

omit hrecords in
/-- There is a traversal. -/
theorem exists_traversal : ∃ records, Traversal s.bdb_report.store records := by
  have hfinite := Helper.finite_run hrun
  refine ⟨hfinite.toFinset.toList.map fun key =>
    (key, (s.bdb_report.store key).getD ⟨0, 0⟩), ⟨?_, fun key data => ?_⟩⟩
  · rw [List.map_map]
    exact (List.map_id _).symm ▸ Finset.nodup_toList _
  · simp only [List.mem_map, Finset.mem_toList, Set.Finite.mem_toFinset, Set.mem_ofPred_eq]
    constructor
    · rintro ⟨key', hstored, heq⟩
      obtain ⟨rfl, rfl⟩ := Prod.mk.inj heq
      obtain ⟨data, hdata⟩ := Option.ne_none_iff_exists'.mp hstored
      rw [hdata, Option.getD_some]
    · intro hdata
      refine ⟨key, ?_, by rw [hdata, Option.getD_some]⟩
      rw [hdata]
      exact Option.some_ne_none _

end Report

/-- The reports of a domain in 2013. -/
def reportsOfDomain : ReportQuery := ⟨[], some "A.CN".toList, none, some "2013".toList⟩

theorem reportsOfDomain_accepted : reportsOfDomain.Accepted [] where
  ip := .inl rfl
  from_ := by decide
  rcpt := by decide
  date := by decide

theorem report_answered_iff_inTurn : ∃ (s : Helper Bool) (records : List (Text × Counts)),
    s.reported.length = 2 ∧
      (reportsOfDomain.Answered s.bdb_report.store (try2forget_2002 [] records reportsOfDomain) ↔
        ∀ days, reportsOfDomain.IsReport s.bdb_report.store days →
          (reportBody s.bdb_report.store days).length + 256 < 2 ^ 31) := by
  have hrun : ((inTurn.foldlM (fun (s : Helper Bool) a => s.step a) Helper.init).any fun s =>
      s.reported.length == 2) = true := by decide +kernel
  obtain ⟨s, hs, hreported⟩ := (Option.any_eq_true _ _).mp hrun
  have hrun : Run Helper.Steps Helper.init inTurn s := Run.of_foldlM hs
  obtain ⟨records, hrecords⟩ := exists_traversal hrun
  exact ⟨s, records, beq_iff_eq.mp hreported,
    report_answered_iff hrun hrecords reportsOfDomain_accepted⟩

/-! ### Many records -/

theorem checkDomain_number (n : Nat) : checkDomain ('a' :: '.' :: Nat.toDigits 10 n) = true := by
  refine (checkMailbox_iff _).mpr ⟨"user".toList, [['a'], Nat.toDigits 10 n], by simp,
    ⟨by decide, by decide⟩, Nat.le_refl 2, ?_⟩
  rintro l hl
  rcases List.mem_cons.mp hl with rfl | hl
  · exact ⟨by decide, by decide⟩
  · obtain rfl := List.mem_singleton.mp hl
    refine ⟨toDigits_ne_nil n, fun c hc => ?_⟩
    rw [isLabel, Char.isAlphanum, isDigit_toDigits n c hc, Bool.or_true, Bool.true_or]

/-- Reports to domains with a number. -/
def numbered (n : Nat) : Report where
  ip := "10.0.0.1".toList
  from_ := "a.cn".toList
  rcpt := 'a' :: '.' :: Nat.toDigits 10 n
  ip_ok := by decide
  from_ok := by decide
  rcpt_ok := checkDomain_number n
  status := .s

def numberedDay (n : Nat) : Place × Day := ((numbered n).toPlace, october)

theorem numberedDay_inj {n m : Nat} (h : numberedDay n = numberedDay m) : n = m := by
  have hrcpt := congrArg (fun e : Place × Day => e.1.rcpt.drop 2) h
  rw [← decimal_toDigits n, ← decimal_toDigits m]
  exact congrArg decimal hrcpt

theorem try2forget_2001_numbered (n : Nat) :
    try2forget_2001 [] "10.0.0.1".toList "a.cn".toList ('a' :: '.' :: Nat.toDigits 10 n) ['s']
      = some (numbered n) := by
  rw [try2forget_2001, dif_pos (by decide), dif_pos (by decide), dif_pos (checkDomain_number n),
    if_pos rfl]
  rfl

namespace Helper
variable {T : Type*} [DecidableEq T] {s : Helper T}

/-- A report is counted, and no window with it; the records that were there stay. -/
theorem run_numbered {t : T} (h : s.threads t = .idle) (n : Nat) :
    ∃ (as : List (T × Act)) (s' : Helper T), Run Steps s as s' ∧ s'.threads t = .idle ∧
      s'.bdb_report.store ((numbered n).detailKey october) ≠ none ∧
        ∀ key, s.bdb_report.store key ≠ none → s'.bdb_report.store key ≠ none := by
  let s₁ := { s with taken := numbered n :: s.taken }.goto t (.detail (numbered n))
  let s₂ := { s₁ with bdb_report := s₁.bdb_report.read t ((numbered n).detailKey october) }.goto t
    (.detailRead (numbered n) october)
  let s₃ := (s₂.putDetail t (numbered n) october).goto t (.query (numbered n))
  let s₄ := s₃.goto t (.quantity (numbered n) [])
  have h₁ : s.step (t, .request [] "10.0.0.1".toList "a.cn".toList
      ('a' :: '.' :: Nat.toDigits 10 n) ['s']) = some s₁ := by
    simp only [step, h, try2forget_2001_numbered]
    rfl
  have hthread : ∀ (s : Helper T) (p : Phase), (s.goto t p).threads t = p :=
    fun s p => Function.update_self _ _ _
  have h₂ : s₁.step (t, .getDetail october) = some s₂ := by
    simp only [step, s₁, hthread]
    rfl
  have h₃ : s₂.step (t, .putDetail) = some s₃ := by
    simp only [step, s₂, hthread]
    rfl
  have h₄ : s₃.step (t, .query []) = some s₄ := by
    simp only [step, s₃, hthread]
    rfl
  have h₅ : s₄.step (t, .getQuantity) = some (s₄.goto t .idle) := by
    simp only [step, s₄, hthread]
  have hpending : s₂.bdb_report.pending t
      = some ((numbered n).detailKey october, s.bdb_report.store _) := Function.update_self _ _ _
  have hstore : (s₄.goto t .idle).bdb_report.store = Function.update s.bdb_report.store
      ((numbered n).detailKey october)
        (some (((s.bdb_report.store ((numbered n).detailKey october)).getD ⟨0, 0⟩).count .s)) := by
    change (s₂.bdb_report.write t _).store = _
    rw [Shared.write, hpending]
    rfl
  refine ⟨_, _, .more h₁ (.more h₂ (.more h₃ (.more h₄ (.one h₅)))), hthread _ _, ?_, ?_⟩
  · rw [hstore, Function.update_self]
    exact Option.some_ne_none _
  · intro key hkey
    rw [hstore]
    by_cases heq : key = (numbered n).detailKey october
    · rw [heq, Function.update_self]
      exact Option.some_ne_none _
    · rwa [Function.update_of_ne heq]

/-- As many reports as one likes, each to another domain. -/
theorem run_many (t : T) (n : Nat) :
    ∃ (as : List (T × Act)) (s : Helper T), Run Steps init as s ∧ s.threads t = .idle ∧
      ∀ k < n, s.bdb_report.store ((numbered k).detailKey october) ≠ none := by
  induction n with
  | zero => exact ⟨[], init, .refl _, rfl, fun k hk => absurd hk (Nat.not_lt_zero k)⟩
  | succ n ih =>
      obtain ⟨as, s, hrun, hidle, hstored⟩ := ih
      obtain ⟨as', s', hrun', hidle', hlast, hkeep⟩ := run_numbered hidle n
      refine ⟨as ++ as', s', hrun.trans hrun', hidle', fun k hk => ?_⟩
      rcases Nat.lt_succ_iff_lt_or_eq.mp hk with hk | rfl
      · exact hkeep _ (hstored k hk)
      · exact hlast

end Helper

theorem le_length_reportLine (e : Place × Day) (data : Counts) :
    8 ≤ (reportLine e data).length := by
  have hs := List.length_pos_iff.mpr (toDigits_ne_nil data.s)
  have hf := List.length_pos_iff.mpr (toDigits_ne_nil data.f)
  simp only [reportLine, Counts.printed, List.length_append, List.length_cons, List.length_nil]
  omega

theorem le_length_reportBody (store : Text → Option Counts) (days : List (Place × Day)) :
    8 * days.length ≤ (reportBody store days).length := by
  induction days with
  | nil => exact Nat.le_refl 0
  | cons e days ih =>
      have hline := le_length_reportLine e ((store (e.1.detailKey e.2)).getD ⟨0, 0⟩)
      rw [reportBody] at ih ⊢
      rw [List.flatMap_cons, List.length_append, List.length_cons]
      omega

/-- With `2^28` records the bytes of the lines are more than an `int` can count. -/
theorem report_too_long : ¬ ∀ (T : Type) [DecidableEq T] (as : List (T × Act)) (s : Helper T)
    (records : List (Text × Counts)) (beyond : Text) (q : ReportQuery),
    Run Helper.Steps Helper.init as s → Traversal s.bdb_report.store records →
      q.Accepted beyond → q.Answered s.bdb_report.store (try2forget_2002 beyond records q) := by
  intro h
  obtain ⟨as, s, hrun, -, hstored⟩ := Helper.run_many () (2 ^ 28)
  obtain ⟨records, hrecords⟩ := exists_traversal hrun
  have hq : (ReportQuery.mk [] none none none).Accepted [] :=
    ⟨.inl rfl, by simp, by simp, by simp⟩
  have hanswered := h Unit as s records [] _ hrun hrecords hq
  obtain ⟨days, hdays, -⟩ := exists_report hrun hrecords hq
  have hlength := length_of_answered hrun hrecords hq hanswered hdays
  have hsub : (List.range (2 ^ 28)).map numberedDay ⊆ days := by
    intro e he
    obtain ⟨k, hk, rfl⟩ := List.mem_map.mp he
    exact (hdays.mem _).mpr ⟨hstored k (List.mem_range.mp hk), .inl rfl, by simp, by simp, by simp⟩
  have hnodup : ((List.range (2 ^ 28)).map numberedDay).Nodup :=
    List.nodup_range.map fun _ _ => numberedDay_inj
  have hmany := (hnodup.subperm hsub).length_le
  rw [List.length_map, List.length_range] at hmany
  have hbody := le_length_reportBody s.bdb_report.store days
  omega

end Edm.DeliverHelp
