import Edm.LableManager.Email
import Edm.Support.Arrivals
import Edm.Support.Decimal

/-!
# LableManager — ScanLog

`insert_label_by_taskid` asks the scan log for the openings or the clicks of a task, and has the
mailbox of each row labelled.  The response comes in pieces: lines are taken out of a cache, which
is filled when no line is in it.  `scanRow` is `none` where a field does not fit its array.

* `Reading`: the next line is taken, unless it is too long.  One of more than `MAX_LENGTH` bytes may
  be taken, as the cache is filled without a look at its size, and in some pieces it is
  (`reading_wide`); one twice as long is not.
* `lineLoop_none`: what has no LF is not a line, and is waited for.
-/

namespace Edm.LableManager.ScanLog
open Support

/-! ### The code -/

def MAX_LENGTH : Nat := 10240

/-- The loop of `recv_until_edge` with the timeout 0: what it returns, the text, and what is still
to arrive. -/
def recvLoop (length : Nat) : Nat → List Arrival → Text → Nat → Int × Text × List Arrival
  | 0, s, result, remaining => (length - remaining, result, s)
  | fuel + 1, s, result, remaining =>
      if remaining = 0 then (length - remaining, result, s)
      else match recv (min remaining 512) s with
        | (.eintr, s) => recvLoop length fuel s result remaining
        | (.eagain, s) => (length - remaining, result, s)
        | (.error, s) => (-1, result, s)
        | (.bytes [], s) =>
            (if remaining < length then (length : Int) - remaining else -1, result, s)
        | (.bytes (c :: t), s) =>
            recvLoop length fuel s (result ++ c :: t) (remaining - (c :: t).length)

def recvUntilEdge (s : List Arrival) (result : Text) (length : Nat) : Int × Text × List Arrival :=
  recvLoop length (callsOf s + 1) s result length

/-- The cache, and what is still to arrive. -/
structure Stream where
  cache : Text
  socket : List Arrival

/-- The loop of `recv_line_from_cache_or_socket`; `none` for -1. -/
def lineLoop : Nat → Stream → Option (Text × Stream)
  | 0, _ => none
  | fuel + 1, ⟨cache, s⟩ =>
      if '\n' ∈ cache then some ((cut '\n' cache).1, ⟨(cut '\n' cache).2, s⟩)
      else if MAX_LENGTH < cache.length then none
      else match recvUntilEdge s cache MAX_LENGTH with
        | (ret, cache, s) =>
            if ret = -1 then none
            else if ret = 0 ∧ selectRead s < 1 then none
            else lineLoop fuel ⟨cache, s⟩

def recvLineFromCacheOrSocket (st : Stream) : Option (Text × Stream) :=
  lineLoop (callsOf st.socket + 1) st

/-- `STD_TRIM(x, y)`. -/
def stdTrim (y x : Text) : Text := eraseBack y (eraseFront y x)

/-- `sscanf(line.data() + 15, "%d", &length)`, if the line begins with `Content-Length:`. -/
def readLength (length : Int) (line : Text) : Int :=
  if strncasecmpEq line "Content-Length:".toList then (sscanfInt (line.drop 15)).getD length
  else length

/-- The loop of `get_http_length_and_remove_header`; `none` for -1. -/
def headerLoop : Nat → Int → Stream → Option (Int × Stream)
  | num_rows, length, st =>
      (recvLineFromCacheOrSocket st).bind fun (line, st) =>
        let line := stdTrim " \t\r".toList line
        if line.length < 1 then some (length, st)
        else
          match num_rows with
          | 0 => none
          | num_rows + 1 => headerLoop num_rows (readLength length line) st

def getHttpLengthAndRemoveHeader (st : Stream) : Option (Int × Stream) := headerLoop 32 0 st

/-- `email`, `date` and `time`: what is in the arrays up to a NUL. -/
structure Fields where
  email : Text
  date : Text
  time : Text

/-- `"%[^,],"` into arrays of these sizes: what is stored, and what stands behind the last comma if
it is reached. -/
def scanSets : List Nat → Text → Option (List Text × Option Text)
  | [], s => some ([], some s)
  | size :: sizes, s =>
      let f := s.takeWhile (· != ',')
      if f = [] then some ([], none)
      else if size ≤ f.length then none
      else match s.dropWhile (· != ',') with
        | [] => some ([f], none)
        | _ :: s => (scanSets sizes s).map fun r => (f :: r.1, r.2)

/-- `sscanf(line, "%[^,],%[^,],%[^,],%d", email, date, time, &count)`, where `count` is 0 before. -/
def scanRow (line : Text) (v : Fields) : Option (Fields × Int) :=
  (scanSets [256, 64, 16] (cstr line)).map fun r =>
    (⟨(r.1)[0]?.getD v.email, (r.1)[1]?.getD v.date, (r.1)[2]?.getD v.time⟩,
      (r.2.bind sscanfInt).getD 0)

/-- `datetime`. -/
def quoted (date time : Text) : Text :=
  stdTrim " \t".toList (stdTrim " \t".toList ('\'' :: date) ++ ' ' :: time) ++ ['\'']

/-- `"%wd"`: what follows the number of at most `w` characters. -/
def scanWidth (w : Nat) (s : Text) : Option Text :=
  let s := s.dropWhile isspace
  let signed := (strtolSign s).2.length < s.length
  let digits := (strtolSign s).2
  let n := ((digits.take (if signed then w - 1 else w)).takeWhile Char.isDigit).length
  if n = 0 then none else some (digits.drop n)

/-- A character of a format that stands for itself. -/
def scanChar (c : Char) : Text → Option Text
  | [] => none
  | d :: s => if d = c then some s else none

/-- `sscanf` with `"'%4d-%2d-%2d %2d:%2d:%2d'"` returns 6. -/
def readsTime (s : Text) : Bool :=
  (do
    let s ← scanChar '\'' s
    let s ← scanWidth 4 s
    let s ← scanChar '-' s
    let s ← scanWidth 2 s
    let s ← scanChar '-' s
    let s ← scanWidth 2 s
    -- The blank of the format is any white space, which `%d` skips too.
    let s ← scanWidth 2 s
    let s ← scanChar ':' s
    let s ← scanWidth 2 s
    let s ← scanChar ':' s
    scanWidth 2 s).isSome

/-- What the thread is given: the labels, and whether they were opened or clicked. -/
structure ThreadData where
  action : Char
  lbset : List Text
  deriving DecidableEq

/-- A call of `insert_label_by_email`. -/
structure Insert where
  email : Text
  lbset : List Text
  action : Char
  count : Int
  up_time : Text
  deriving DecidableEq

/-- A row: the variables behind it, and the call that it makes. -/
def insertRow (thrdt : ThreadData) (line : Text) (v : Fields) : Option (Fields × List Insert) :=
  (scanRow line v).map fun (v, count) =>
    let datetime := quoted v.date v.time
    if checkEmail v.email ≠ 0 ∨ readsTime datetime = false ∨ count < 1 then (v, [])
    else (v, [⟨v.email, thrdt.lbset, thrdt.action, count, datetime⟩])

/-- `line.erase(line.length() - extra)`; an exception where that is behind the end. -/
def eraseExtra (line : Text) (extra : Int) : Option Text :=
  if extra ≤ 0 then some line
  else if extra ≤ line.length then some (line.take (line.length - extra.toNat)) else none

/-- The loop over the lines of the body; `row_total` counts them.  Each call is given with the
number of the row that it is made for. -/
def rowLoop (thrdt : ThreadData) (length : Int) :
    Nat → Nat → Int → Fields → Stream → Option (List (Nat × Insert))
  | 0, _, _, _, _ => some []
  | fuel + 1, row_total, transfrred, v, st =>
      match recvLineFromCacheOrSocket st with
      | none => some []
      | some (line, st) =>
          if line.length < 1 then some []
          else
            let transfrred := int32 (transfrred + (line.length + 1))
            let lastline := decide (0 < length ∧ length ≤ transfrred)
            (if lastline then eraseExtra line (transfrred - length) else some line).bind fun line =>
              (if row_total < 1 then some (v, []) else insertRow thrdt line v).bind fun r =>
                let calls := r.2.map (row_total, ·)
                if lastline then some calls
                else (rowLoop thrdt length fuel (row_total + 1) transfrred r.1 st).map (calls ++ ·)

/-- The calls of `insert_label_by_email`.  `handle` and `transfrred` are what `nb_connect` and
`send_until_edge` have returned; the arrays hold anything at first. -/
def insertLabelByTaskid (thrdt : ThreadData) (handle transfrred : Int) (v : Fields)
    (socket : List Arrival) : Option (List (Nat × Insert)) :=
  if handle < 1 then some []
  else if transfrred < 1 then some []
  else match getHttpLengthAndRemoveHeader ⟨[], socket⟩ with
    | none => some []
    | some (length, st) =>
        if length < 0 then some []
        else rowLoop thrdt length (st.cache.length + (arriving st.socket).length + 1) 0 0 v st

/-! ### Lines -/

/-- `recv_until_edge` takes what is there, and comes nearer to the end. -/
theorem recvLoop_spec {length fuel : Nat} : ∀ {s : List Arrival} {result : Text} {remaining : Nat},
    AllData s → callsOf s < fuel → ∃ got s',
      recvLoop length fuel s result remaining
          = ((length : Int) - remaining + got.length, result ++ got, s') ∧ got.length ≤ remaining ∧
        AllData s' ∧ arriving s = got ++ arriving s' ∧ callsOf s' ≤ callsOf s ∧
          (0 < remaining → s ≠ [] → callsOf s' < callsOf s) := by
  induction fuel with
  | zero => exact fun _ hfuel => absurd hfuel (Nat.not_lt_zero _)
  | succ fuel ih =>
    intro s result remaining hs hfuel
    have hstop : ((length : Int) - remaining, result, s)
        = ((length : Int) - remaining + ([] : Text).length, result ++ [], s) := by
      rw [List.append_nil]
      exact congrArg (·, result, s) (Int.add_zero _).symm
    rw [recvLoop]
    by_cases hzero : remaining = 0
    · exact ⟨[], s, by rw [if_pos hzero, hstop], Nat.zero_le _, hs, rfl, Nat.le_refl _,
        fun hpos => by omega⟩
    · rw [if_neg hzero]
      by_cases hne : s = []
      · subst hne
        exact ⟨[], [], hstop, Nat.zero_le _, hs, rfl, Nat.le_refl _, fun _ h => absurd rfl h⟩
      · obtain ⟨r, s', hrecv, hs', hcalls, hr⟩ :=
          recv_cases (by omega : 0 < min remaining 512) hs hne
        rw [hrecv]
        rcases hr with ⟨rfl | rfl, htext⟩ | ⟨c, t, rfl, hsize, htext⟩
        · obtain ⟨got, s'', heq, hgot, hs'', htext', hle, -⟩ := ih hs' (by omega)
          exact ⟨got, s'', heq, hgot, hs'', htext.trans htext', by omega, fun _ _ => by omega⟩
        · refine ⟨[], s', ?_, Nat.zero_le _, hs', htext, by omega, fun _ _ => hcalls⟩
          rw [List.append_nil]
          exact congrArg (·, result, s') (Int.add_zero _).symm
        · obtain ⟨got, s'', heq, hgot, hs'', htext', hle, -⟩ := ih hs' (by omega)
          refine ⟨c :: t ++ got, s'', ?_, ?_, hs'', ?_, by omega, fun _ _ => by omega⟩
          · refine heq.trans ?_
            rw [List.append_assoc, List.length_append]
            exact congrArg (·, result ++ (c :: t ++ got), s'') (by omega)
          · rw [List.length_append]
            omega
          · rw [htext, htext', List.append_assoc]

theorem recvUntilEdge_spec {s : List Arrival} (hs : AllData s) (cache : Text) : ∃ got s',
    recvUntilEdge s cache MAX_LENGTH = ((got.length : Int), cache ++ got, s') ∧
      got.length ≤ MAX_LENGTH ∧ AllData s' ∧ arriving s = got ++ arriving s' ∧
        (s ≠ [] → callsOf s' < callsOf s) := by
  obtain ⟨got, s', heq, hgot, hs', htext, -, hcalls⟩ :=
    @recvLoop_spec MAX_LENGTH _ s cache MAX_LENGTH hs (Nat.lt_succ_self (callsOf s))
  refine ⟨got, s', heq.trans ?_, hgot, hs', htext, hcalls (by decide)⟩
  exact congrArg (·, cache ++ got, s') (by omega)

theorem recvUntilEdge_oneByOne (c : Char) (cache : Text) (s : List Arrival) :
    recvUntilEdge (.piece [c] :: .drained :: s) cache MAX_LENGTH = (1, cache ++ [c], s) := by
  obtain ⟨fuel, hfuel⟩ : ∃ fuel, callsOf (.piece [c] :: .drained :: s) + 1 = fuel + 2 :=
    ⟨callsOf s + 2, by
      rw [callsOf_cons, callsOf_cons]
      simp only [Arrival.text, List.length_cons, List.length_nil]
      omega⟩
  rw [recvUntilEdge, hfuel]
  rfl

/-- A piece that fills what is asked for is taken in parts of 512 bytes. -/
theorem recvLoop_piece {length : Nat} {s : List Arrival} {fuel : Nat} : ∀ {p result : Text},
    p ≠ [] → p.length < fuel →
      recvLoop length fuel (.piece p :: s) result p.length = ((length : Int), result ++ p, s) := by
  have hdone : ∀ (fuel : Nat) (result : Text),
      recvLoop length fuel s result 0 = ((length : Int), result, s) := by
    intro fuel result
    cases fuel with
    | zero => exact congrArg (·, result, s) (Int.sub_zero _)
    | succ fuel => exact (if_pos rfl).trans (congrArg (·, result, s) (Int.sub_zero _))
  induction fuel with
  | zero => exact fun _ hfuel => absurd hfuel (Nat.not_lt_zero _)
  | succ fuel ih =>
    rintro (_ | ⟨c, t⟩) result hne hfuel
    · exact absurd rfl hne
    have hrecv : ∀ n, recv n (.piece (c :: t) :: s)
        = if (c :: t).length ≤ n then (.bytes (c :: t), s)
          else (.bytes ((c :: t).take n), .piece ((c :: t).drop n) :: s) := fun _ => rfl
    rw [recvLoop, if_neg (mt List.length_eq_zero_iff.mp hne), hrecv]
    by_cases hsize : (c :: t).length ≤ 512
    · rw [if_pos (by omega)]
      dsimp only
      rw [Nat.sub_self, hdone]
    · rw [if_neg (by omega), Nat.min_eq_right (by omega)]
      have hdrop : ((c :: t).drop 512).length = (c :: t).length - 512 := List.length_drop
      have htake : (c :: t).take 512 = c :: t.take 511 := rfl
      have hrest := @ih ((c :: t).drop 512) (result ++ (c :: t).take 512)
        (List.ne_nil_of_length_pos (by omega)) (by omega)
      rw [hdrop, List.append_assoc, List.take_append_drop, htake] at hrest
      rw [htake]
      dsimp only
      rw [← htake, List.length_take, Nat.min_eq_left (by omega), htake, hrest]

theorem recvUntilEdge_piece {p : Text} (hp : p.length = MAX_LENGTH) (cache : Text)
    (s : List Arrival) :
    recvUntilEdge (.piece p :: s) cache MAX_LENGTH = ((MAX_LENGTH : Int), cache ++ p, s) := by
  have hne : p ≠ [] := by
    rintro rfl
    exact absurd hp (by decide)
  rw [recvUntilEdge, ← hp]
  refine recvLoop_piece hne ?_
  rw [callsOf_cons, Arrival.text]
  omega

namespace Stream

/-- All that is to be read. -/
def text (st : Stream) : Text := st.cache ++ arriving st.socket

/-- Nothing but data is still to arrive, and the cache has what was put into one that was not too
long. -/
def Clean (st : Stream) : Prop := AllData st.socket ∧ st.cache.length ≤ 2 * MAX_LENGTH

end Stream

/-- The first line of a text is in its front part, or that has no line end. -/
theorem line_of_append {cache rest line t : Text} (hline : '\n' ∉ line)
    (h : cache ++ rest = line ++ '\n' :: t) :
    (∃ u, cache = line ++ '\n' :: u ∧ t = u ++ rest) ∨
      '\n' ∉ cache ∧ ∃ u, line = cache ++ u ∧ rest = u ++ '\n' :: t := by
  rcases List.append_eq_append_iff.mp h with ⟨u, hline', hrest⟩ | ⟨u, hcache, hrest⟩
  · exact .inr ⟨fun hc => hline (hline' ▸ List.mem_append_left _ hc), u, hline', hrest⟩
  · cases u with
    | nil =>
      rw [List.append_nil] at hcache
      exact .inr ⟨hcache ▸ hline, [], by rw [hcache, List.append_nil], hrest.symm⟩
    | cons c u =>
      obtain ⟨rfl, rfl⟩ := List.cons.inj hrest
      exact .inl ⟨u, hcache, rfl⟩

/-- A line is taken, or it is too long. -/
theorem lineLoop_line {line t : Text} (hline : '\n' ∉ line) {fuel : Nat} :
    ∀ {st : Stream}, st.Clean → callsOf st.socket < fuel → st.text = line ++ '\n' :: t →
      (∃ st', lineLoop fuel st = some (line, st') ∧ st'.Clean ∧ st'.text = t ∧
          line.length < 2 * MAX_LENGTH) ∨
        lineLoop fuel st = none ∧ MAX_LENGTH < line.length := by
  induction fuel with
  | zero => exact fun _ hfuel => absurd hfuel (Nat.not_lt_zero _)
  | succ fuel ih =>
    rintro ⟨cache, s⟩ ⟨hs, hcache⟩ hfuel htext
    rw [lineLoop]
    rcases line_of_append hline htext with ⟨u, rfl, rfl⟩ | ⟨hno, u, rfl, hrest⟩
    · dsimp only at hcache
      rw [List.length_append, List.length_cons] at hcache
      refine .inl ⟨⟨u, s⟩, ?_, ⟨hs, ?_⟩, rfl, by omega⟩
      · rw [if_pos (List.mem_append_right _ List.mem_cons_self), cut_append hline]
      · dsimp only
        omega
    · rw [if_neg hno]
      split
      next hlong =>
        refine .inr ⟨rfl, Nat.lt_of_lt_of_le hlong ?_⟩
        rw [List.length_append]
        exact Nat.le_add_right _ _
      next hroom =>
        have hlf : '\n' ∈ arriving s := hrest ▸ List.mem_append_right _ List.mem_cons_self
        obtain ⟨got, s', hrecv, hlen, hs', hgot, hcalls⟩ := recvUntilEdge_spec hs cache
        have hcalls := hcalls (ne_nil_of_mem_arriving hlf)
        rw [hrecv]
        dsimp only
        -- If nothing was there, the line end is still to come.
        have hwait : ¬ ((got.length : Int) = 0 ∧ selectRead s' < 1) := by
          rintro ⟨hempty, hselect⟩
          obtain rfl := List.length_eq_zero_iff.mp (Int.ofNat.inj hempty)
          rw [List.nil_append] at hgot
          rw [selectRead_of_ne (ne_nil_of_mem_arriving (hgot ▸ hlf))] at hselect
          exact absurd hselect (by decide)
        rw [if_neg (by omega), if_neg hwait]
        refine ih ⟨hs', ?_⟩ (Nat.lt_of_lt_of_le hcalls (Nat.le_of_lt_succ hfuel)) ?_
        · dsimp only
          rw [List.length_append]
          omega
        · rw [← htext, Stream.text, Stream.text, hgot, List.append_assoc]

/-- Without a line end the end is waited for. -/
theorem lineLoop_none {fuel : Nat} : ∀ {st : Stream}, AllData st.socket → '\n' ∉ st.text →
    lineLoop fuel st = none := by
  induction fuel with
  | zero => exact fun _ _ => rfl
  | succ fuel ih =>
    rintro ⟨cache, s⟩ hs hno
    have hcache : '\n' ∉ cache := fun h => hno (List.mem_append_left _ h)
    obtain ⟨got, s', hrecv, -, hs', hgot, -⟩ := recvUntilEdge_spec hs cache
    have hnext : '\n' ∉ (Stream.mk (cache ++ got) s').text := by
      rwa [Stream.text, List.append_assoc, ← hgot]
    rw [lineLoop, if_neg hcache, hrecv]
    dsimp only
    have hrest : lineLoop fuel ⟨cache ++ got, s'⟩ = none := @ih ⟨cache ++ got, s'⟩ hs' hnext
    rw [hrest, ite_self, ite_self, ite_self]

/-- Bytes that come one by one are added to the cache. -/
theorem lineLoop_oneByOne {fuel : Nat} {s : List Arrival} : ∀ {u cache : Text},
    '\n' ∉ cache ++ u → (cache ++ u).length ≤ MAX_LENGTH + 1 →
      lineLoop (fuel + u.length) ⟨cache, oneByOne u ++ s⟩ = lineLoop fuel ⟨cache ++ u, s⟩
  | [], cache, _, _ => by
    rw [List.append_nil]
    rfl
  | c :: u, cache, hno, hlen => by
    have hsplit : cache ++ c :: u = (cache ++ [c]) ++ u := by rw [List.append_assoc]; rfl
    rw [List.length_append, List.length_cons] at hlen
    rw [List.length_cons, ← Nat.add_assoc, lineLoop, if_neg fun h => hno (List.mem_append_left _ h),
      if_neg (by omega), oneByOne_cons, List.cons_append, List.cons_append, recvUntilEdge_oneByOne]
    dsimp only
    rw [if_neg (by decide), if_neg (fun h => absurd h.1 (by decide)), hsplit]
    refine lineLoop_oneByOne (hsplit ▸ hno) ?_
    rw [← hsplit, List.length_append, List.length_cons]
    omega

/-- A line that is in the cache is taken out. -/
theorem lineLoop_cached {line : Text} (hline : '\n' ∉ line) (fuel : Nat) (s : List Arrival) :
    lineLoop (fuel + 1) ⟨line ++ ['\n'], s⟩ = some (line, ⟨[], s⟩) := by
  rw [lineLoop, if_pos (List.mem_append_right _ List.mem_cons_self), cut_append hline]

theorem recvLine_oneByOne {line : Text} (s : List Arrival) {u : Text} (hu : u <+: line)
    (hline : '\n' ∉ line) (hlen : u.length ≤ MAX_LENGTH + 1) : ∃ fuel,
      callsOf s ≤ fuel ∧ recvLineFromCacheOrSocket ⟨[], oneByOne u ++ s⟩
        = lineLoop (fuel + 1) ⟨u, s⟩ := by
  have hcalls : callsOf (oneByOne u ++ s) + 1 = 2 * u.length + callsOf s + 1 + u.length := by
    rw [callsOf, List.map_append, List.sum_append, ← callsOf, ← callsOf, callsOf_oneByOne]
    omega
  refine ⟨2 * u.length + callsOf s, Nat.le_add_left _ _, ?_⟩
  rw [recvLineFromCacheOrSocket, hcalls]
  exact lineLoop_oneByOne (fun h => hline (hu.subset h)) hlen

/-- A line of which no byte is held back is taken, if it is not too long. -/
theorem recvLine_short {line : Text} (hline : '\n' ∉ line) (hlen : line.length ≤ MAX_LENGTH)
    (s : List Arrival) :
    recvLineFromCacheOrSocket ⟨[], oneByOne (line ++ ['\n']) ++ s⟩ = some (line, ⟨[], s⟩) := by
  have hsplit : oneByOne (line ++ ['\n']) ++ s
      = oneByOne line ++ .piece ['\n'] :: .drained :: s := by
    rw [oneByOne, List.flatMap_append, List.append_assoc]
    rfl
  obtain ⟨fuel, hfuel, heq⟩ := recvLine_oneByOne (.piece ['\n'] :: .drained :: s)
    List.prefix_rfl hline (Nat.le_succ_of_le hlen)
  obtain ⟨fuel, rfl⟩ := Nat.exists_eq_succ_of_ne_zero
    (by rw [callsOf_cons] at hfuel; omega : fuel ≠ 0)
  rw [hsplit, heq, lineLoop, if_neg hline, if_neg (Nat.not_lt_of_le hlen), recvUntilEdge_oneByOne]
  dsimp only
  rw [if_neg (by decide), if_neg (fun h => absurd h.1 (by decide))]
  exact lineLoop_cached hline fuel s

/-- Where the bytes come one by one, no line that is too long is taken. -/
theorem recvLine_slow {line t : Text} (hline : '\n' ∉ line) :
    recvLineFromCacheOrSocket ⟨[], oneByOne (line ++ '\n' :: t)⟩
      = if line.length ≤ MAX_LENGTH then some (line, ⟨[], oneByOne t⟩) else none := by
  split
  next hshort =>
    have hsplit : oneByOne (line ++ '\n' :: t) = oneByOne (line ++ ['\n']) ++ oneByOne t := by
      rw [oneByOne, oneByOne, oneByOne, ← List.flatMap_append, List.append_assoc]
      rfl
    rw [hsplit, recvLine_short hline hshort]
  next hlong =>
    have hcut : line ++ '\n' :: t
        = line.take (MAX_LENGTH + 1) ++ (line.drop (MAX_LENGTH + 1) ++ '\n' :: t) := by
      rw [← List.append_assoc, List.take_append_drop]
    have htake : (line.take (MAX_LENGTH + 1)).length = MAX_LENGTH + 1 := by
      rw [List.length_take]
      omega
    rw [hcut, oneByOne, List.flatMap_append, ← oneByOne, ← oneByOne]
    obtain ⟨fuel, -, heq⟩ := recvLine_oneByOne (oneByOne (line.drop (MAX_LENGTH + 1) ++ '\n' :: t))
      (List.take_prefix _ _) hline htake.le
    rw [heq, lineLoop, if_neg fun h => hline (List.mem_of_mem_take h), if_pos (by omega)]

/-- The bytes come one by one, but the last `MAX_LENGTH` of a longer line at once. -/
def wideLine (l : Text) : List Arrival :=
  if l.length ≤ MAX_LENGTH + 1 then oneByOne l
  else
    oneByOne (l.take (l.length - MAX_LENGTH)) ++ [.piece (l.drop (l.length - MAX_LENGTH))]

/-- Lines that come so, and a text. -/
def wide (ls : List Text) (t : Text) : List Arrival :=
  ls.flatMap (fun l => wideLine (l ++ ['\n'])) ++ oneByOne t

theorem arriving_wide {ls : List Text} {t : Text} :
    arriving (wide ls t) = ls.flatMap (· ++ ['\n']) ++ t := by
  have hline : ∀ l, arriving (wideLine l) = l := by
    intro l
    rw [wideLine]
    split
    · exact arriving_oneByOne l
    · rw [arriving, List.flatMap_append, ← arriving, arriving_oneByOne, List.flatMap_singleton,
        Arrival.text, List.take_append_drop]
  rw [wide, arriving, List.flatMap_append, ← arriving, ← arriving, arriving_oneByOne, arriving,
    List.flatMap_assoc]
  exact congrArg (· ++ t) (List.flatMap_congr fun l _ => hline _)

theorem allData_wide {ls : List Text} {t : Text} : AllData (wide ls t) := by
  intro a ha
  rcases List.mem_append.mp ha with ha | ha
  · obtain ⟨l, -, ha⟩ := List.mem_flatMap.mp ha
    rw [wideLine] at ha
    split at ha
    · exact allData_oneByOne _ a ha
    · rcases List.mem_append.mp ha with ha | ha
      · exact allData_oneByOne _ a ha
      · rw [List.mem_singleton.mp ha]
        exact List.ne_nil_of_length_pos (by rw [List.length_drop]; unfold MAX_LENGTH at *; omega)
  · exact allData_oneByOne t a ha

/-- All lines are taken that may be. -/
theorem recvLine_wide {line t : Text} {ls : List Text} (hline : '\n' ∉ line)
    (hlen : line.length < 2 * MAX_LENGTH) :
    recvLineFromCacheOrSocket ⟨[], wide (line :: ls) t⟩ = some (line, ⟨[], wide ls t⟩) := by
  rw [wide, List.flatMap_cons, List.append_assoc, ← wide, wideLine]
  have hsize : (line ++ ['\n']).length = line.length + 1 := List.length_append
  split
  next hshort => exact recvLine_short hline (by omega) _
  next hlong =>
    have hk : (line ++ ['\n']).length - MAX_LENGTH ≤ line.length := by
      unfold MAX_LENGTH
      omega
    generalize hkdef : (line ++ ['\n']).length - MAX_LENGTH = k at hk
    have hpiece : (line.drop k ++ ['\n']).length = MAX_LENGTH := by
      rw [List.length_append, List.length_drop, List.length_singleton]
      omega
    have htake : (line.take k).length ≤ MAX_LENGTH := by
      rw [List.length_take]
      omega
    rw [List.take_append_of_le_length hk, List.drop_append_of_le_length hk, List.append_assoc]
    obtain ⟨fuel, hfuel, heq⟩ := recvLine_oneByOne
      ([.piece (line.drop k ++ ['\n'])] ++ wide ls t) (List.take_prefix k line) hline
      (Nat.le_succ_of_le htake)
    rw [List.singleton_append, callsOf_cons] at hfuel
    obtain ⟨fuel, rfl⟩ := Nat.exists_eq_succ_of_ne_zero (by omega : fuel ≠ 0)
    rw [heq, lineLoop, if_neg fun h => hline (List.mem_of_mem_take h),
      if_neg (Nat.not_lt_of_le htake), List.singleton_append, recvUntilEdge_piece hpiece]
    dsimp only
    rw [if_neg (by decide), if_neg (fun h => absurd h.1 (by decide)), ← List.append_assoc,
      List.take_append_drop]
    exact lineLoop_cached hline fuel _

/-- Streams on which the bytes come in some way: a line of less than `lo` bytes is taken, and only
lines of less than `hi` bytes are. -/
structure Reading (lo hi : Nat) (P : Stream → Prop) : Prop where
  allData : ∀ {st : Stream}, P st → AllData st.socket
  line : ∀ {st : Stream} {line t : Text}, P st → '\n' ∉ line → st.text = line ++ '\n' :: t →
    (∃ st', recvLineFromCacheOrSocket st = some (line, st') ∧ P st' ∧ st'.text = t ∧
        line.length < hi) ∨
      recvLineFromCacheOrSocket st = none ∧ lo ≤ line.length

namespace Stream

/-- Nothing is in the cache, and the rest comes byte by byte. -/
def Slow (st : Stream) : Prop := st.cache = [] ∧ ∃ t, st.socket = oneByOne t

/-- Nothing is in the cache, and the rest comes as `wide`. -/
def Wide (st : Stream) : Prop :=
  st.cache = [] ∧ ∃ ls t, (∀ l ∈ ls, '\n' ∉ l) ∧ '\n' ∉ t ∧ st.socket = wide ls t

end Stream

theorem reading_clean : Reading (MAX_LENGTH + 1) (2 * MAX_LENGTH) Stream.Clean where
  allData := And.left
  line hst hline htext := lineLoop_line hline hst (Nat.lt_succ_self _) htext

theorem reading_slow : Reading (MAX_LENGTH + 1) (MAX_LENGTH + 1) Stream.Slow where
  allData := by
    rintro ⟨_, _⟩ ⟨rfl, t, rfl⟩
    exact allData_oneByOne t
  line := by
    rintro ⟨_, _⟩ line t ⟨rfl, u, rfl⟩ hline htext
    obtain rfl : u = line ++ '\n' :: t := by rw [← htext, Stream.text, arriving_oneByOne]; rfl
    rw [recvLine_slow hline]
    split
    next hshort =>
      exact .inl ⟨_, rfl, ⟨rfl, t, rfl⟩, arriving_oneByOne t, Nat.lt_succ_of_le hshort⟩
    next hlong => exact .inr ⟨rfl, Nat.lt_of_not_le hlong⟩

theorem reading_wide : Reading (2 * MAX_LENGTH) (2 * MAX_LENGTH) Stream.Wide where
  allData := by
    rintro ⟨_, _⟩ ⟨rfl, ls, t, -, -, rfl⟩
    exact allData_wide
  line := by
    rintro ⟨_, _⟩ line t ⟨rfl, ls, u, hls, hu, rfl⟩ hline htext
    have htaken := reading_clean.line ⟨allData_wide, Nat.zero_le _⟩ hline htext
    rw [Stream.text, arriving_wide, List.nil_append] at htext
    cases ls with
    | nil =>
      have hmem : '\n' ∈ line ++ '\n' :: t := List.mem_append_right _ List.mem_cons_self
      exact absurd (htext ▸ hmem : '\n' ∈ [] ++ u) hu
    | cons l ls =>
      obtain ⟨hl, hls⟩ := List.forall_mem_cons.mp hls
      rw [List.flatMap_cons, List.append_assoc, List.append_assoc] at htext
      have hcut := congrArg (cut '\n') htext
      rw [List.singleton_append, cut_append hl, cut_append hline, Prod.mk.injEq] at hcut
      obtain ⟨rfl, rfl⟩ := hcut
      by_cases hlt : l.length < 2 * MAX_LENGTH
      · exact .inl ⟨_, recvLine_wide hl hlt, ⟨rfl, ls, u, hls, hu, rfl⟩, arriving_wide, hlt⟩
      · rcases htaken with ⟨-, -, -, -, h⟩ | ⟨hnone, -⟩
        · exact absurd h hlt
        · exact .inr ⟨hnone, Nat.le_of_not_lt hlt⟩

/-- Every text may come so. -/
theorem exists_wide (t : Text) : ∃ s, Stream.Wide ⟨[], s⟩ ∧ arriving s = t := by
  suffices ∃ (ls : List Text) (u : Text), (∀ l ∈ ls, '\n' ∉ l) ∧ '\n' ∉ u ∧
      t = ls.flatMap (· ++ ['\n']) ++ u by
    obtain ⟨ls, u, hls, hu, rfl⟩ := this
    exact ⟨_, ⟨rfl, ls, u, hls, hu, rfl⟩, arriving_wide⟩
  induction t with
  | nil => exact ⟨[], [], by simp, by simp, rfl⟩
  | cons c t ih =>
    obtain ⟨ls, u, hls, hu, rfl⟩ := ih
    by_cases hc : c = '\n'
    · exact ⟨[] :: ls, u, List.forall_mem_cons.mpr ⟨by simp, hls⟩, hu, by rw [hc]; rfl⟩
    · cases ls with
      | nil => exact ⟨[], c :: u, by simp, by simp [Ne.symm hc, hu], rfl⟩
      | cons l ls =>
        refine ⟨(c :: l) :: ls, u, List.forall_mem_cons.mpr ⟨?_, ?_⟩, hu, rfl⟩
        · simp [Ne.symm hc, hls l List.mem_cons_self]
        · exact fun l' h => hls l' (List.mem_cons_of_mem _ h)

end Edm.LableManager.ScanLog
