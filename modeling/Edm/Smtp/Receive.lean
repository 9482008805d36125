import Edm.Support.Framing
import Edm.Smtp.Relay

/-!
# Smtp — the lines of a client

The receive loop of `thread_service`.  `recv_n` gives the bytes of the client in pieces; what no
line end has come for is kept, and the search for the next line end begins two bytes before the
end of what is kept.  That offset is an `int`.

The loop is modelled over any `Handler`, what `handle_line` does with a line; `serverHandler` is
that of the server.

* `passed`: the lines that should go to `handle_line`, those of the whole stream up to the one
  after which the client has said QUIT, or has used up its refusals.
* **The pieces do not matter** as long as none of these lines has more than `2^31` bytes, and for a
  longer one they do (`threadService_lines_iff`).
-/

namespace Edm.Smtp.Receive
open Support

/-! ### The loop -/

/-- `handle_line`, the value it returns and what it makes of the session; the test
`command == QUIT`; and `list_history.clear()`. -/
structure Handler (σ : Type*) where
  handleLine : Text → σ → Int × σ
  quit : σ → Bool
  clearHistory : σ → σ

/-- A session, its refusals, and the lines it was given. -/
structure Served (σ : Type*) where
  pctx : σ
  retryCount : Int
  lines : List Text

variable {σ : Type*} (H : Handler σ) (nrecvTimeSum : Int)

/-- A line is handled. -/
def Served.handle (s : Served σ) (line : Text) : Served σ :=
  let r := H.handleLine line s.pctx
  let retryCount := if r.1 ≠ 0 then s.retryCount + 1 else 0
  ⟨if retryCount ≥ nrecvTimeSum then H.clearHistory r.2 else r.2, retryCount, s.lines ++ [line]⟩

/-- `data.find(SMTP_CRLF, pos_offset)`: a negative offset is one behind every end. -/
def findCrlf (data : Text) (posOffset : Int) : Option Nat :=
  if posOffset < 0 then none else findFrom smtpCrlf data posOffset.toNat

/-- The inner loop. -/
def lineLoop (data : Text) (s : Served σ) (posOffset : Int) : Text × Served σ :=
  if data.length > 0 ∧ H.quit s.pctx = false then
    match findCrlf data posOffset with
    | none => (data, s)
    | some posIndex =>
        let rest := data.drop (posIndex + smtpCrlf.length)
        let s := s.handle H nrecvTimeSum (data.take posIndex)
        if s.retryCount ≥ nrecvTimeSum then (rest, s) else lineLoop rest s 0
  else (data, s)
termination_by data.length
decreasing_by
  rename_i h _
  have hlen : smtpCrlf.length = 2 := by decide
  rw [List.length_drop, hlen]
  omega

/-- Where the search begins: `data.length()>1 ? data.length()-2:0`. -/
def searchFrom (data : Text) : Int :=
  if data.length > 1 then int32 (data.length - 2 : Nat) else 0

/-- The loop of `thread_service`, over the pieces `recv_n` gives. -/
def threadService : List Text → Text × Served σ → Text × Served σ
  | [], st => st
  | buffer :: pieces, (data, s) =>
      if s.retryCount < nrecvTimeSum ∧ H.quit s.pctx = false then
        if buffer.length < 1 then (data, s)
        else threadService pieces (lineLoop H nrecvTimeSum (data ++ buffer) s (searchFrom data))
      else (data, s)

/-! ### The lines of the stream -/

/-- The loop as a reader of lines. -/
def reader : LineReader (Served σ) where
  onLine s line := s.handle H nrecvTimeSum line
  stopped s := !(decide (s.retryCount < nrecvTimeSum) && !H.quit s.pctx)

/-- The lines a session is given, of those in turn. -/
def passed : List Text → Served σ → List Text
  | [], _ => []
  | l :: ls, s =>
      if s.retryCount < nrecvTimeSum ∧ H.quit s.pctx = false then
        l :: passed ls (s.handle H nrecvTimeSum l)
      else []

variable {H : Handler σ} {nrecvTimeSum : Int} {s : Served σ} {data : Text}

theorem stopped_iff : (reader H nrecvTimeSum).stopped s = true ↔
    ¬ (s.retryCount < nrecvTimeSum ∧ H.quit s.pctx = false) := by
  by_cases h : s.retryCount < nrecvTimeSum <;> cases hq : H.quit s.pctx <;> simp [reader, h, hq]

theorem not_stopped (h : s.retryCount < nrecvTimeSum ∧ H.quit s.pctx = false) :
    ¬ (reader H nrecvTimeSum).stopped s = true :=
  fun hs => stopped_iff.mp hs h

theorem passed_of_stopped (h : (reader H nrecvTimeSum).stopped s = true) (ls : List Text) :
    passed H nrecvTimeSum ls s = [] := by
  cases ls with
  | nil => rfl
  | cons l ls => exact if_neg (stopped_iff.mp h)

theorem passed_append (ls ls' : List Text) (s : Served σ) :
    passed H nrecvTimeSum (ls ++ ls') s = passed H nrecvTimeSum ls s ++
      passed H nrecvTimeSum ls' ((reader H nrecvTimeSum).run ls s) := by
  induction ls generalizing s with
  | nil => rfl
  | cons l ls ih =>
      rw [List.cons_append, passed, passed, LineReader.run]
      by_cases h : s.retryCount < nrecvTimeSum ∧ H.quit s.pctx = false
      · rw [if_pos h, if_pos h, if_neg (not_stopped h), ih]
        rfl
      · rw [if_neg h, if_neg h, if_pos (stopped_iff.mpr h), passed_of_stopped (stopped_iff.mpr h)]
        rfl

/-- A session keeps the lines it is given. -/
theorem run_lines (ls : List Text) (s : Served σ) :
    ((reader H nrecvTimeSum).run ls s).lines = s.lines ++ passed H nrecvTimeSum ls s := by
  induction ls generalizing s with
  | nil => exact (List.append_nil _).symm
  | cons l ls ih =>
      rw [passed, LineReader.run]
      by_cases h : s.retryCount < nrecvTimeSum ∧ H.quit s.pctx = false
      · rw [if_pos h, if_neg (not_stopped h), ih]
        exact List.append_assoc _ _ _
      · rw [if_neg h, if_pos (stopped_iff.mpr h), List.append_nil]

/-! ### The loop as a reader -/

/-- The search finds the first line end. -/
def Finds (data : Text) (posOffset : Int) : Prop :=
  findCrlf data posOffset = (breakAt crlf data).map (·.1.length)

theorem finds_zero (data : Text) : Finds data 0 := findFrom_zero crlf data

/-- The loop of a reader, where it can go on. -/
theorem drain_none (h : breakAt crlf data = none) :
    (reader H nrecvTimeSum).drain data s = (data, s) := by
  rw [LineReader.drain]
  split
  next => rfl
  next =>
    split
    next => rfl
    next h₁ => rw [h] at h₁; cases h₁

theorem drain_some {l r : Text} (hs : s.retryCount < nrecvTimeSum ∧ H.quit s.pctx = false)
    (h : breakAt crlf data = some (l, r)) : (reader H nrecvTimeSum).drain data s =
      (reader H nrecvTimeSum).drain r (s.handle H nrecvTimeSum l) := by
  rw [LineReader.drain, if_neg (not_stopped hs)]
  split
  next h₁ => rw [h] at h₁; cases h₁
  next h₁ => rw [h] at h₁; cases h₁; rfl

theorem breakAt_of_finds {posOffset : Int} {posIndex : Nat} (hfind : Finds data posOffset)
    (h : findCrlf data posOffset = some posIndex) : breakAt crlf data =
      some (data.take posIndex, data.drop (posIndex + smtpCrlf.length)) := by
  obtain ⟨⟨l, r⟩, hbreak, rfl⟩ := Option.map_eq_some_iff.mp (hfind.symm.trans h)
  have hdata := eq_of_breakAt hbreak
  rw [hbreak, hdata, List.take_left, ← List.drop_drop, List.drop_left]
  rfl

/-- The inner loop gives the session the complete lines. -/
theorem lineLoop_eq (hs : s.retryCount < nrecvTimeSum) {posOffset : Int}
    (hfind : Finds data posOffset) :
    lineLoop H nrecvTimeSum data s posOffset = (reader H nrecvTimeSum).drain data s := by
  fun_induction lineLoop H nrecvTimeSum data s posOffset with
  | case1 data s posOffset h hnone =>
      exact (drain_none (Option.map_eq_none_iff.mp (hfind.symm.trans hnone))).symm
  | case2 data s posOffset h posIndex hsome rest s' hretry =>
      have hstop : (reader H nrecvTimeSum).stopped s' = true :=
        stopped_iff.mpr fun hgo => absurd hgo.1 (by omega)
      rw [drain_some ⟨hs, h.2⟩ (breakAt_of_finds hfind hsome), LineReader.drain, if_pos hstop]
  | case3 data s posOffset h posIndex hsome rest s' hretry ih =>
      rw [drain_some ⟨hs, h.2⟩ (breakAt_of_finds hfind hsome)]
      exact ih (by omega) (finds_zero rest)
  | case4 data s posOffset h =>
      cases hq : H.quit s.pctx with
      | true =>
          have hstop : (reader H nrecvTimeSum).stopped s = true :=
            stopped_iff.mpr fun hgo => Bool.noConfusion (hq.symm.trans hgo.2)
          rw [LineReader.drain, if_pos hstop]
      | false =>
          have hnil : data = [] := by
            by_contra hne
            exact h ⟨List.length_pos_iff.mpr hne, hq⟩
          rw [hnil]
          exact (drain_none rfl).symm

/-! ### Where the search begins -/

/-- Behind what has no line end, the search that begins two bytes before the end finds the first
one, unless the offset is negative. -/
theorem finds_searchFrom (h : breakAt crlf data = none) (hpos : 0 ≤ searchFrom data)
    (buffer : Text) : Finds (data ++ buffer) (searchFrom data) := by
  have hle : (searchFrom data).toNat + 2 ≤ data.length ∨ searchFrom data = 0 := by
    rw [searchFrom] at hpos ⊢
    split
    next hlen =>
      rw [if_pos hlen] at hpos
      have := int32_le (z := ((data.length - 2 : Nat) : Int)) (by omega)
      omega
    next => exact .inr rfl
  rw [Finds, findCrlf, if_neg (by omega), ← findFrom_zero]
  rcases hle with hle | hzero
  · have hlen : crlf.length = 2 := rfl
    exact findFrom_append h buffer (by omega) (by omega)
  · rw [hzero]
    rfl

theorem searchFrom_nonneg (h : data.length ≤ 2 ^ 31 + 1) : 0 ≤ searchFrom data := by
  rw [searchFrom]
  split
  · rw [int32_of_range (by omega) (by omega)]
    omega
  · exact le_refl _

/-- A negative offset finds nothing. -/
theorem lineLoop_of_neg {posOffset : Int} (h : posOffset < 0) :
    lineLoop H nrecvTimeSum data s posOffset = (data, s) := by
  rw [lineLoop, findCrlf, if_pos h]
  split <;> rfl

/-! ### The pieces -/

section Pieces
variable {pieces : List Text}

/-- Where the lines to come are short, the loop is the reader. -/
theorem threadService_eq (hne : ∀ p ∈ pieces, p ≠ [])
    (hdata : (reader H nrecvTimeSum).stopped s = true ∨ breakAt crlf data = none)
    (hshort : ∀ l ∈ passed H nrecvTimeSum (crlfLines (data ++ pieces.flatten)).dropLast s,
      l.length ≤ 2 ^ 31) :
    threadService H nrecvTimeSum pieces (data, s)
      = (reader H nrecvTimeSum).feed pieces (data, s) := by
  induction pieces generalizing data s with
  | nil => rfl
  | cons p ps ih =>
      obtain ⟨hp, hps⟩ := List.forall_mem_cons.mp hne
      rw [threadService, LineReader.feed]
      by_cases hgo : s.retryCount < nrecvTimeSum ∧ H.quit s.pctx = false
      · have hnone : breakAt crlf data = none := hdata.resolve_left (not_stopped hgo)
        have hlen : ¬ p.length < 1 := by
          have := List.length_pos_iff.mpr hp
          omega
        have hloop : lineLoop H nrecvTimeSum (data ++ p) s (searchFrom data)
            = (reader H nrecvTimeSum).drain (data ++ p) s := by
          by_cases hpos : 0 ≤ searchFrom data
          · exact lineLoop_eq hgo.1 (finds_searchFrom hnone hpos p)
          -- a negative offset: what is kept is longer than any line to come
          · rw [lineLoop_of_neg (by omega)]
            cases hbreak : breakAt crlf (data ++ p) with
            | none => exact (drain_none hbreak).symm
            | some q =>
                obtain ⟨l, r⟩ := q
                have hlong : data.length ≤ l.length + 1 := by
                  by_contra hlt
                  refine breakAt_eq_none_iff.mp hnone ?_
                  have hfront : l ++ crlf <+: data := by
                    refine List.prefix_of_prefix_length_le ?_ (List.prefix_append data p) ?_
                    · rw [eq_of_breakAt hbreak, ← List.append_assoc]
                      exact List.prefix_append _ _
                    · have hcrlf : crlf.length = 2 := rfl
                      rw [List.length_append, hcrlf]
                      omega
                  exact (List.suffix_append l crlf).isInfix.trans hfront.isInfix
                have hnext : l ∈ passed H nrecvTimeSum
                    (crlfLines (data ++ (p :: ps).flatten)).dropLast s := by
                  rw [List.flatten_cons, ← List.append_assoc,
                    crlfLines_of_breakAt (breakAt_append_right crlf_ne_nil hbreak _),
                    List.dropLast_cons_of_ne_nil (crlfLines_ne_nil _), passed, if_pos hgo]
                  exact List.mem_cons_self
                have := hshort l hnext
                exact absurd (searchFrom_nonneg (by omega)) hpos
        rw [if_pos hgo, if_neg hlen, if_neg (not_stopped hgo), hloop]
        obtain ⟨hrun, hrest⟩ := LineReader.drain_eq (R := reader H nrecvTimeSum) (data ++ p) s
        rw [List.flatten_cons, ← List.append_assoc, dropLast_crlfLines_append, passed_append,
          ← hrun] at hshort
        generalize (reader H nrecvTimeSum).drain (data ++ p) s = st at hrest hshort ⊢
        obtain ⟨data', s'⟩ := st
        rcases hrest with hstop | hrest
        · refine ih hps (.inl hstop) fun l hl => ?_
          rw [passed_of_stopped hstop] at hl
          exact absurd hl List.not_mem_nil
        · obtain rfl : data' = lastLine (data ++ p) := hrest
          exact ih hps (.inr (breakAt_lastLine _)) fun l hl =>
            hshort l (List.mem_append_right _ hl)
      · rw [if_neg hgo, if_pos (stopped_iff.mpr hgo)]

/-- A line that is given to the session is given to it behind the lines before it. -/
theorem exists_of_mem_passed {ls : List Text} {l : Text} (h : l ∈ passed H nrecvTimeSum ls s) :
    ∃ pre more, ls = pre ++ l :: more ∧ ¬ (reader H nrecvTimeSum).stopped
      ((reader H nrecvTimeSum).run pre s) = true := by
  induction ls generalizing s with
  | nil => exact absurd h List.not_mem_nil
  | cons l₁ ls ih =>
      rw [passed] at h
      split at h
      next hgo =>
        rcases List.mem_cons.mp h with rfl | h
        · exact ⟨[], ls, rfl, not_stopped hgo⟩
        · obtain ⟨pre, more, rfl, hpre⟩ := ih h
          refine ⟨l₁ :: pre, more, rfl, ?_⟩
          rwa [LineReader.run, if_neg (not_stopped hgo)]
      next => exact absurd h List.not_mem_nil

/-- Lines without a line end in them, and the start of a long one, as one piece. -/
theorem drain_flatten {pre : List Text} {t : Text} (hpre : ∀ l ∈ pre, breakAt crlf l = none)
    (ht : breakAt crlf t = none)
    (hgo : ¬ (reader H nrecvTimeSum).stopped ((reader H nrecvTimeSum).run pre s) = true) :
    (reader H nrecvTimeSum).drain ((pre.map (· ++ crlf)).flatten ++ t) s
      = (t, (reader H nrecvTimeSum).run pre s) := by
  have hlines : crlfLines ((pre.map (· ++ crlf)).flatten ++ t) = pre ++ [t] := by
    rw [crlfLines_flatten hpre, crlfLines_of_none ht]
  have hlast : lastLine ((pre.map (· ++ crlf)).flatten ++ t) = t := by
    simp only [lastLine, hlines, List.getLast_append_of_ne_nil _ (List.cons_ne_nil t []),
      List.getLast_singleton]
  obtain ⟨hrun, hrest⟩ := LineReader.drain_eq (R := reader H nrecvTimeSum)
    ((pre.map (· ++ crlf)).flatten ++ t) s
  rw [hlines, List.dropLast_concat] at hrun
  rw [hlast, hrun] at hrest
  exact Prod.ext (hrest.resolve_left hgo) hrun

/-- The part of a long line that does not reach its end. -/
theorem breakAt_take {l : Text} (hl : breakAt crlf l = none) {n : Nat} (hn : n ≤ l.length + 1) :
    breakAt crlf ((l ++ crlf).take n) = none := by
  cases h : breakAt crlf ((l ++ crlf).take n) with
  | none => rfl
  | some q =>
      have hfirst := breakAt_append_right crlf_ne_nil h ((l ++ crlf).drop n)
      have hline := breakAt_line hl []
      rw [List.append_nil] at hline
      rw [List.take_append_drop, hline] at hfirst
      have heq := congrArg List.length (eq_of_breakAt h)
      rw [← (Prod.mk.inj (Option.some.inj hfirst)).1] at heq
      simp only [List.length_take, List.length_append, crlf, List.length_cons,
        List.length_nil] at heq
      omega

/-- A cut behind so many bytes of a line hides its end: the session gets the lines before it. -/
theorem threadService_hides {pre : List Text} {l : Text} (rest : Text)
    (hpre : ∀ l ∈ pre, breakAt crlf l = none) (hl : breakAt crlf l = none)
    (hlong : 2 ^ 31 < l.length)
    (hgo : ¬ (reader H nrecvTimeSum).stopped ((reader H nrecvTimeSum).run pre s) = true) :
    ∃ pieces : List Text, (∀ p ∈ pieces, p ≠ []) ∧
      pieces.flatten = (pre.map (· ++ crlf)).flatten ++ ((l ++ crlf) ++ rest) ∧
      (threadService H nrecvTimeSum pieces ([], s)).2 = (reader H nrecvTimeSum).run pre s := by
  obtain ⟨n, hn⟩ : ∃ n, n = 2 ^ 31 + 2 := ⟨_, rfl⟩
  have hcrlf : crlf.length = 2 := rfl
  have hs : s.retryCount < nrecvTimeSum ∧ H.quit s.pctx = false := by
    by_contra hstop
    rw [LineReader.run_of_stopped (stopped_iff.mpr hstop)] at hgo
    exact hgo (stopped_iff.mpr hstop)
  have htake : ((l ++ crlf).take n).length = n := by
    rw [List.length_take, List.length_append]
    omega
  have hdrop : ((l ++ crlf).drop n).length ≠ 0 := by
    rw [List.length_drop, List.length_append]
    omega
  refine ⟨[(pre.map (· ++ crlf)).flatten ++ (l ++ crlf).take n, (l ++ crlf).drop n ++ rest],
    ?_, ?_, ?_⟩
  · intro p hp h
    rcases List.mem_cons.mp hp with rfl | hp
    · rw [(List.append_eq_nil_iff.mp h).2, List.length_nil] at htake
      omega
    · rw [List.mem_singleton.mp hp] at h
      exact hdrop (by rw [(List.append_eq_nil_iff.mp h).1, List.length_nil])
  · rw [List.flatten_cons, List.flatten_singleton, List.append_assoc,
      ← List.append_assoc ((l ++ crlf).take n), List.take_append_drop]
  · have hfirst : ¬ ((pre.map (· ++ crlf)).flatten ++ (l ++ crlf).take n).length < 1 := by
      rw [List.length_append, htake]
      omega
    have hsecond : ¬ ((l ++ crlf).drop n ++ rest).length < 1 := by
      rw [List.length_append]
      omega
    have hneg : searchFrom ((l ++ crlf).take n) < 0 := by
      rw [searchFrom, htake, if_pos (by omega), hn]
      decide
    have hrun := not_not.mp fun h => hgo (stopped_iff.mpr h)
    have hzero : searchFrom [] = 0 := rfl
    rw [threadService, if_pos hs, if_neg hfirst, List.nil_append, hzero,
      lineLoop_eq hs.1 (finds_zero _), drain_flatten hpre (breakAt_take hl (by omega)) hgo,
      threadService, if_pos hrun, if_neg hsecond, lineLoop_of_neg hneg]
    rfl

end Pieces

/-- A session before its first line. -/
def Served.start (pctx : σ) : Served σ := ⟨pctx, 0, []⟩

/-- **Framing.**  However the stream is cut, `handle_line` gets its lines, as long as none of them
has more than `2^31` bytes. -/
theorem threadService_lines_iff (H : Handler σ) (nrecvTimeSum : Int) (pctx : σ) (stream : Text) :
    (∀ pieces : List Text, (∀ p ∈ pieces, p ≠ []) → pieces.flatten = stream →
        (threadService H nrecvTimeSum pieces ([], .start pctx)).2.lines
          = passed H nrecvTimeSum (crlfLines stream).dropLast (.start pctx)) ↔
      ∀ l ∈ passed H nrecvTimeSum (crlfLines stream).dropLast (.start pctx), l.length ≤ 2 ^ 31 := by
  constructor
  · intro h l hl
    by_contra hlong
    obtain ⟨pre, more, hsplit, hgo⟩ := exists_of_mem_passed hl
    have hnone : ∀ l' ∈ (crlfLines stream).dropLast, breakAt crlf l' = none := fun l' h' =>
      breakAt_of_mem_crlfLines (List.mem_of_mem_dropLast h')
    rw [hsplit] at hnone
    obtain ⟨pieces, hne, hflat, hend⟩ := threadService_hides
      ((more.map (· ++ crlf)).flatten ++ lastLine stream)
      (fun l' h' => hnone l' (List.mem_append_left _ h'))
      (hnone l (List.mem_append_right _ List.mem_cons_self)) (by omega) hgo
    have hstream := flatten_dropLast_crlfLines stream
    rw [hsplit] at hstream
    have hlines := h pieces hne (by rw [hflat]; simpa using hstream)
    rw [hend, run_lines, hsplit, passed_append, passed,
      if_pos (not_not.mp fun hn => hgo (stopped_iff.mpr hn))] at hlines
    have hlen := congrArg List.length hlines
    simp only [Served.start, List.nil_append, List.length_append, List.length_cons] at hlen
    omega
  · rintro hshort pieces hne rfl
    rw [threadService_eq hne (.inr rfl) hshort, LineReader.feed_eq _ (.inr rfl), run_lines]
    rfl

/-- Pieces without a line end are put one behind the other. -/
theorem threadService_keeps {pieces : List Text} (rest : List Text)
    (hs : s.retryCount < nrecvTimeSum ∧ H.quit s.pctx = false) (hne : ∀ p ∈ pieces, p ≠ [])
    (hnone : breakAt crlf (data ++ pieces.flatten) = none) :
    threadService H nrecvTimeSum (pieces ++ rest) (data, s)
      = threadService H nrecvTimeSum rest (data ++ pieces.flatten, s) := by
  induction pieces generalizing data with
  | nil => rw [List.flatten_nil, List.append_nil, List.nil_append]
  | cons p ps ih =>
      obtain ⟨hp, hps⟩ := List.forall_mem_cons.mp hne
      have hlen : ¬ p.length < 1 := by
        have := List.length_pos_iff.mpr hp
        omega
      have hfront : ∀ t u : Text, breakAt crlf (t ++ u) = none → breakAt crlf t = none := by
        intro t u h
        rw [breakAt_eq_none_iff] at h ⊢
        exact fun ht => h (ht.trans (List.prefix_append t u).isInfix)
      rw [List.flatten_cons, ← List.append_assoc] at hnone ⊢
      have hloop : lineLoop H nrecvTimeSum (data ++ p) s (searchFrom data) = (data ++ p, s) := by
        by_cases hpos : 0 ≤ searchFrom data
        · have hdata := hfront _ _ (hfront _ _ hnone)
          rw [lineLoop_eq hs.1 (finds_searchFrom hdata hpos p), drain_none (hfront _ _ hnone)]
        · exact lineLoop_of_neg (by omega)
      rw [List.cons_append, threadService, if_pos hs, if_neg hlen, hloop]
      exact ih hps hnone

/-! ### The server -/

/-- What the server does with the lines of a client.  Line `k` is handled at the moment `env k`
gives, and finds the tables it gives. -/
def serverHandler (svr : SmtpSvr) (env : Nat → Moment × Tables) : Handler (Dialogue × Nat) where
  handleLine line d :=
    let f : Feed := ⟨line, (env d.2).1, (env d.2).2⟩
    ((d.1.handle svr f).err, (d.1.step svr f, d.2 + 1))
  quit d := decide (d.1.ctx.command = .quit)
  clearHistory d := ({ d.1 with ctx := { d.1.ctx with listHistory := [] } }, d.2)

/-- The session is that of a connection. -/
def Served.Is (s : Served (Dialogue × Nat)) (service : Service) : Prop :=
  s.pctx.1 = service.dialogue ∧ s.retryCount = (service.retryCount : Int)

theorem handle_is {svr : SmtpSvr} {env : Nat → Moment × Tables} {conf : RelayConf}
    {s : Served (Dialogue × Nat)} {service : Service} (h : s.Is service) (l : Text) :
    (s.handle (serverHandler svr env) conf.gRecvRetry l).Is
      (service.step svr conf ⟨l, (env s.pctx.2).1, (env s.pctx.2).2⟩) := by
  obtain ⟨⟨d, k⟩, retryCount, lines⟩ := s
  obtain ⟨rfl, rfl⟩ : d = service.dialogue ∧ retryCount = (service.retryCount : Int) := h
  have hlimit : ∀ n : Nat, ((n : Int) ≥ conf.gRecvRetry) = (n ≥ conf.gRecvRetry) := fun n =>
    propext (by omega)
  by_cases herr : (Dialogue.handle svr service.dialogue ⟨l, (env k).1, (env k).2⟩).err = 0
  · have hzero := hlimit 0
    rw [Int.natCast_zero] at hzero
    simp only [Served.Is, Served.handle, serverHandler, Service.step, herr, ne_eq,
      not_true_eq_false, if_false, hzero]
    split <;> exact ⟨rfl, rfl⟩
  · have hsucc := hlimit (service.retryCount + 1)
    rw [Int.natCast_add, Int.natCast_one] at hsucc
    simp only [Served.Is, Served.handle, serverHandler, Service.step, herr, ne_eq,
      not_false_eq_true, if_true, hsucc]
    split <;> exact ⟨rfl, rfl⟩

/-- The lines the server is given are the labels of a run of its connection. -/
theorem exists_run_serviceStep {svr : SmtpSvr} {env : Nat → Moment × Tables} {conf : RelayConf}
    (ls : List Text) {s : Served (Dialogue × Nat)} {service : Service} (h : s.Is service) :
    ∃ feeds service', feeds.map Feed.line = passed (serverHandler svr env) conf.gRecvRetry ls s ∧
      Run (serviceStep svr conf) service feeds service' ∧
      ((reader (serverHandler svr env) conf.gRecvRetry).run ls s).Is service' := by
  induction ls generalizing s service with
  | nil => exact ⟨[], service, rfl, .refl _, h⟩
  | cons l ls ih =>
      rw [passed, LineReader.run]
      by_cases hgo : s.retryCount < (conf.gRecvRetry : Int) ∧
          (serverHandler svr env).quit s.pctx = false
      · have hnext : (s.handle (serverHandler svr env) conf.gRecvRetry l).Is
            (service.step svr conf ⟨l, (env s.pctx.2).1, (env s.pctx.2).2⟩) := handle_is h l
        obtain ⟨feeds, service', hlines, hrun, his⟩ := ih hnext
        rw [if_pos hgo, if_neg (not_stopped hgo)]
        refine ⟨⟨l, (env s.pctx.2).1, (env s.pctx.2).2⟩ :: feeds, service', ?_, .more ?_ hrun, his⟩
        · rw [List.map_cons, hlines]
        · have hquit := of_decide_eq_false hgo.2
          rw [h.1] at hquit
          exact ⟨by have := hgo.1; rw [h.2] at this; omega, hquit, rfl⟩
      · rw [if_neg hgo, if_pos (stopped_iff.mpr hgo)]
        exact ⟨[], service, rfl, .refl _, h⟩

/-- **The server is the connection.**  However the stream is cut, the session is left as by a run of
the connection whose labels are the lines of the stream. -/
theorem threadService_run {svr : SmtpSvr} {env : Nat → Moment × Tables} {conf : RelayConf}
    {pieces : List Text} {s : Served (Dialogue × Nat)} {service : Service} (h : s.Is service)
    (hne : ∀ p ∈ pieces, p ≠ [])
    (hshort : ∀ l ∈ passed (serverHandler svr env) conf.gRecvRetry
      (crlfLines pieces.flatten).dropLast s, l.length ≤ 2 ^ 31) :
    ∃ feeds service', feeds.map Feed.line
        = passed (serverHandler svr env) conf.gRecvRetry (crlfLines pieces.flatten).dropLast s ∧
      Run (serviceStep svr conf) service feeds service' ∧
      (threadService (serverHandler svr env) conf.gRecvRetry pieces ([], s)).2.Is service' := by
  rw [threadService_eq hne (.inr rfl) hshort, LineReader.feed_eq _ (.inr rfl)]
  exact exists_run_serviceStep _ h

/-- A greeting, a message without a sender, and the end, in pieces. -/
def quitPieces : List Text :=
  ["EHLO".toList, " x\r\nRCPT TO:<d@e.f>\r".toList, "\nQUIT\r\nRSET\r\n".toList]

theorem threadService_run_quitPieces : ∃ feeds service',
    feeds.map Feed.line = ["EHLO x".toList, "RCPT TO:<d@e.f>".toList, "QUIT".toList] ∧
      Run (serviceStep plainSvr plainConf) ⟨plainSession, 0⟩ feeds service' ∧
      (threadService (serverHandler plainSvr fun _ => ((feed none "").moment, (feed none "").tables))
        plainConf.gRecvRetry quitPieces ([], .start (plainSession, 0))).2.Is service' := by
  have hlines : passed (serverHandler plainSvr fun _ =>
        ((feed none "").moment, (feed none "").tables)) plainConf.gRecvRetry
      (crlfLines quitPieces.flatten).dropLast (.start (plainSession, 0))
        = ["EHLO x".toList, "RCPT TO:<d@e.f>".toList, "QUIT".toList] := by decide +kernel
  rw [← hlines]
  exact threadService_run ⟨rfl, rfl⟩ (by decide) (by rw [hlines]; decide)

/-- Letters have no line end in them. -/
theorem breakAt_letters (n : Nat) : breakAt crlf (List.replicate n 'A') = none := by
  rw [breakAt_eq_none_iff]
  intro hin
  exact absurd (List.eq_of_mem_replicate (hin.subset (List.mem_cons_self (a := '\r'))))
    (by decide)

/-- A line of letters but for its last byte, eight bytes at a time. -/
theorem exists_letters (n : Nat) : ∃ front : List Text, (∀ p ∈ front, p ≠ [] ∧ p.length ≤ 8) ∧
    front.flatten = List.replicate (n * 8 + 7) 'A' ++ ['\r'] := by
  refine ⟨List.replicate n (List.replicate 8 'A') ++ [List.replicate 7 'A' ++ ['\r']], ?_, ?_⟩
  · intro p hp
    rcases List.mem_append.mp hp with hp | hp
    · rw [List.eq_of_mem_replicate hp]
      decide
    · rw [List.mem_singleton.mp hp]
      decide
  · rw [List.flatten_append, List.flatten_replicate_replicate, List.flatten_singleton,
      ← List.append_assoc, List.replicate_append_replicate]

/-- A line of `2^31 + 7` letters, received eight bytes at a time: its last byte comes when the
offset is negative. -/
theorem threadService_letters {pctx : σ} (hgo : 0 < nrecvTimeSum ∧ H.quit pctx = false) :
    ∃ pieces : List Text, (∀ p ∈ pieces, p ≠ [] ∧ p.length ≤ 8) ∧
      (threadService H nrecvTimeSum pieces ([], .start pctx)).2.lines = [] ∧
      passed H nrecvTimeSum (crlfLines pieces.flatten).dropLast (.start pctx)
        = [List.replicate (2 ^ 31 + 7) 'A'] := by
  obtain ⟨n, hn⟩ : ∃ n, n = 2 ^ 28 := ⟨_, rfl⟩
  obtain ⟨m, hm⟩ : ∃ m, m = n * 8 + 7 := ⟨_, rfl⟩
  have hcr : (List.replicate m 'A' ++ ['\r']).length = m + 1 := by
    rw [List.length_append, List.length_replicate]
    rfl
  have hend : (List.replicate m 'A' ++ ['\r']) ++ ['\n']
      = List.replicate m 'A' ++ (crlf ++ []) := by
    rw [List.append_assoc]
    rfl
  have hnone : breakAt crlf (List.replicate m 'A' ++ ['\r']) = none := by
    have htake := breakAt_take (breakAt_letters m) (n := m + 1) (by rw [List.length_replicate])
    rwa [← List.append_nil crlf, ← hend, List.take_left' hcr] at htake
  have hstart : (Served.start pctx).retryCount < nrecvTimeSum ∧
      H.quit (Served.start pctx).pctx = false := hgo
  obtain ⟨front, hbytes, hflat⟩ := exists_letters n
  rw [← hm] at hflat
  have hneg : searchFrom (List.replicate m 'A' ++ ['\r']) < 0 := by
    rw [searchFrom, hcr, if_pos (by omega), hm, hn]
    decide
  refine ⟨front ++ [['\n']], ?_, ?_, ?_⟩
  · intro p hp
    rcases List.mem_append.mp hp with hp | hp
    · exact hbytes p hp
    · rw [List.mem_singleton.mp hp]
      decide
  · rw [threadService_keeps _ hstart (fun p hp => (hbytes p hp).1) (by rw [hflat]; exact hnone),
      List.nil_append, hflat, threadService, if_pos hstart, if_neg (by decide),
      lineLoop_of_neg hneg]
    rfl
  · rw [List.flatten_append, hflat, List.flatten_singleton, hend,
      crlfLines_of_breakAt (breakAt_line (breakAt_letters m) [])]
    have hm' : m = 2 ^ 31 + 7 := by omega
    rw [← hm']
    exact if_pos hgo

/-- A client of the server that says nothing else. -/
theorem long_line_lost : ¬ ∀ pieces : List Text, (∀ p ∈ pieces, p ≠ []) →
    (threadService (serverHandler plainSvr fun _ => ((feed none "").moment, (feed none "").tables))
        5 pieces ([], .start (plainSession, 0))).2.lines
      = passed (serverHandler plainSvr fun _ => ((feed none "").moment, (feed none "").tables))
        5 (crlfLines pieces.flatten).dropLast (.start (plainSession, 0)) := by
  intro h
  have hgo : (0 : Int) < 5 ∧
      (serverHandler plainSvr fun _ => ((feed none "").moment, (feed none "").tables)).quit
        (plainSession, 0) = false := by decide
  obtain ⟨pieces, hne, hlines, hpassed⟩ := threadService_letters hgo
  have hall := h pieces fun p hp => (hne p hp).1
  rw [hlines, hpassed] at hall
  cases hall

end Edm.Smtp.Receive
