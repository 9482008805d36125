import Edm.Support.Run
import Edm.Smtp.Context

/-!
# Smtp — RateControl

`SmtpSvr::check_HR_control`: a row of the table `smtp` gives a client's limits for a quarter of
an hour, an hour and a day, and keeps for each of the three a count and the time its window
started.  A DATA command is admitted when the three counts, with the new message, are within
their limits.

* `checkHRControl` is the function, over the rows of the table and the answers of the server.
* `HrLaw` says what the three windows mean: a window older than its period is counted afresh, the
  others go up by one, and the message is admitted when every count is within its limit.
* `checkHRControl_law_iff`: a call obeys the law unless it finds a window that has outlived its
  period but not yet the age the truncating divisions wait for (`Stale`), or a count that wraps.
* `hr_history_law_iff`: the same for every call of a history.
-/

namespace Edm.Smtp
open Support

/-! ### The table -/

/-- A row of the table `smtp`.  A `datetime` is a number of seconds. -/
structure SmtpRow where
  ip : Text
  size : Int
  quarter : Int
  hour : Int
  day : Int
  quarterCount : Option Int
  hourCount : Option Int
  dayCount : Option Int
  quarterTime : Option Int
  hourTime : Option Int
  dayTime : Option Int
  deriving DecidableEq

/-- `instr(concat(';', ip, ';'), ';host;') > 0`. -/
def SmtpRow.serves (host : Text) (row : SmtpRow) : Bool :=
  occursIn (';' :: host ++ [';']) (';' :: row.ip ++ [';'])

/-- `TIME_TO_SEC(TIMEDIFF(NOW(), t))`; a `TIME` ends at 838:59:59. -/
def timeToSec (now : Int) (t : Option Int) : Option Int :=
  t.map fun t => max (-3020399) (min 3020399 (now - t))

/-- What the MySQL server answers in one call: whether it is there, and whether the `select` and
the `update` go through. -/
structure Mysql where
  connect : Bool
  select : Bool
  update : Bool

/-- A server that answers. -/
def Mysql.up : Mysql := ⟨true, true, true⟩

/-! ### `check_HR_control` -/

/-- A count after the call: 1 when its window has expired, else one more. -/
def hrCount (count : Option Int) (expired : Bool) : Int :=
  if expired then 1 else int32 (count.getD 0 + 1)

/-- `quarter_count`, with `quarter_time / 60 > 15`. -/
def SmtpRow.newQuarter (row : SmtpRow) (now : Int) : Int :=
  hrCount row.quarterCount (((timeToSec now row.quarterTime).getD 0).tdiv 60 > 15)

/-- `hour_count`, with `hour_time / 60 / 60 > 1`. -/
def SmtpRow.newHour (row : SmtpRow) (now : Int) : Int :=
  hrCount row.hourCount ((((timeToSec now row.hourTime).getD 0).tdiv 60).tdiv 60 > 1)

/-- `day_count`, with `day_time / 60 / 60 / 24 > 1`. -/
def SmtpRow.newDay (row : SmtpRow) (now : Int) : Int :=
  hrCount row.dayCount (((((timeToSec now row.dayTime).getD 0).tdiv 60).tdiv 60).tdiv 24 > 1)

/-- The `update`: the three counts, and the time of each that is 1. -/
def SmtpRow.store (quarter hour day now : Int) (row : SmtpRow) : SmtpRow :=
  { row with
    quarterCount := some quarter
    hourCount := some hour
    dayCount := some day
    dayTime := if day = 1 then some now else row.dayTime
    hourTime := if hour = 1 then some now else row.hourTime
    quarterTime := if quarter = 1 then some now else row.quarterTime }

/-- `check_HR_control`.  Its test of the connection is read as `if (!(mydb = MysqlConnect(mydb)))`:
the line as it stands repeats `if (!(` and does not parse. -/
def checkHRControl (db : Mysql) (now : Int) (table : List SmtpRow) (ctx : SmtpContext) :
    Int × List SmtpRow × SmtpContext :=
  if !db.connect then (0, table, ctx)
  else if !db.select then (0, table, ctx)
  else match table.find? (SmtpRow.serves ctx.clientHost) with
    -- no row: the client is not limited
    | none => (0, table, ctx)
    | some row =>
        let ctx := { ctx with abSize := int32 (row.size * 1024) }
        let quarter := row.newQuarter now
        let hour := row.newHour now
        let day := row.newDay now
        if row.quarter < quarter ∨ row.hour < hour ∨ row.day < day then (-1, table, ctx)
        else if !db.update then (0, table, ctx)
        else (0, table.map (fun r =>
          if r.serves ctx.clientHost then r.store quarter hour day now else r), ctx)

/-! ### The three windows -/

/-- The three windows of a row. -/
inductive HrUnit where
  | quarter | hour | day
  deriving DecidableEq

/-- The length of a window, in seconds. -/
def HrUnit.period : HrUnit → Int
  | .quarter => 15 * 60
  | .hour => 60 * 60
  | .day => 24 * 60 * 60

/-- The age from which the divisions of `check_HR_control` find a window expired. -/
def HrUnit.threshold : HrUnit → Int
  | .quarter => 16 * 60
  | .hour => 2 * 60 * 60
  | .day => 2 * 24 * 60 * 60

namespace SmtpRow

def limit (row : SmtpRow) : HrUnit → Int
  | .quarter => row.quarter
  | .hour => row.hour
  | .day => row.day

def count (row : SmtpRow) : HrUnit → Int
  | .quarter => row.quarterCount.getD 0
  | .hour => row.hourCount.getD 0
  | .day => row.dayCount.getD 0

def start (row : SmtpRow) : HrUnit → Option Int
  | .quarter => row.quarterTime
  | .hour => row.hourTime
  | .day => row.dayTime

/-- The count `check_HR_control` gives a window. -/
def newCount (row : SmtpRow) (now : Int) : HrUnit → Int
  | .quarter => row.newQuarter now
  | .hour => row.newHour now
  | .day => row.newDay now

/-- The window started more than `age` seconds ago. -/
def Older (row : SmtpRow) (now age : Int) (u : HrUnit) : Prop :=
  ∃ t, row.start u = some t ∧ age < now - t

instance (row : SmtpRow) (now age : Int) (u : HrUnit) : Decidable (row.Older now age u) :=
  match h : row.start u with
  | none => isFalse fun ⟨t, ht, _⟩ => by rw [h] at ht; cases ht
  | some t => decidable_of_iff (age < now - t)
      ⟨fun hlt => ⟨t, h, hlt⟩, fun ⟨t', ht, hlt⟩ => by rw [h] at ht; cases ht; exact hlt⟩

/-- The count the window means: a window older than its period starts again at 1. -/
def lawCount (row : SmtpRow) (now : Int) (u : HrUnit) : Int :=
  if row.Older now u.period u then 1 else row.count u + 1

/-- The window has outlived its period, with messages counted in it, but is younger than the age
the divisions wait for. -/
def Stale (row : SmtpRow) (now : Int) (u : HrUnit) : Prop :=
  row.Older now u.period u ∧ ¬ row.Older now (u.threshold - 1) u ∧ row.count u ≠ 0

/-- The count of a window that starts again only at the age the divisions wait for. -/
def lateCount (row : SmtpRow) (now : Int) (u : HrUnit) : Int :=
  if row.Older now (u.threshold - 1) u then 1 else row.count u + 1

/-- The divisions let the window go on, and its count is the last `int`. -/
def Wraps (row : SmtpRow) (now : Int) (u : HrUnit) : Prop :=
  ¬ row.Older now (u.threshold - 1) u ∧ row.count u = 2 ^ 31 - 1

/-- The message is over a limit as the windows mean it. -/
def Over (row : SmtpRow) (now : Int) : Prop := ∃ u, row.limit u < row.lawCount now u

/-- The message is over a limit also when the windows start again late, whatever wraps. -/
def LateOver (row : SmtpRow) (now : Int) : Prop :=
  ∃ u, ¬ row.Wraps now u ∧ row.limit u < row.lateCount now u

/-- The columns are of the type `int`. -/
def Ints (row : SmtpRow) : Prop :=
  ∀ u, (-2 ^ 31 ≤ row.count u ∧ row.count u < 2 ^ 31) ∧ -2 ^ 31 ≤ row.limit u

end SmtpRow

/-- What the three windows mean for a client whose row is `row`: the message is admitted (`ret` is
0) exactly when each count, restarted at 1 or raised by one, is within its limit; an admitted
message stores these counts, and the present as the start of a window whose count is 1; a refused
one stores nothing. -/
def HrLaw (host : Text) (row : SmtpRow) (now : Int) (table : List SmtpRow) (ret : Int)
    (table' : List SmtpRow) : Prop :=
  (ret = 0 ↔ ∀ u, row.lawCount now u ≤ row.limit u) ∧
  (ret = 0 → ∃ row', table'.find? (SmtpRow.serves host) = some row' ∧
    (∀ u, row'.count u = row.lawCount now u) ∧
    ∀ u, row'.start u = if row.lawCount now u = 1 then some now else row.start u) ∧
  (ret ≠ 0 → table' = table)

/-! ### One call -/

/-- The divisions find a window expired from its threshold on. -/
theorem newCount_eq (row : SmtpRow) (now : Int) (u : HrUnit) :
    row.newCount now u =
      if row.Older now (u.threshold - 1) u then 1 else int32 (row.count u + 1) := by
  have key : ∀ (c : Option Int) (t : Option Int) (p : Int → Prop) [DecidablePred p] (a : Int),
      (∀ d, p (max (-3020399) (min 3020399 d)) ↔ a < d) → ¬ p 0 →
      hrCount c (p ((timeToSec now t).getD 0)) =
        if ∃ s, t = some s ∧ a < now - s then 1 else int32 (c.getD 0 + 1) := by
    intro c t p _ a hp h₀
    cases t with
    | none => simp [hrCount, timeToSec, h₀]
    | some s => simp [hrCount, timeToSec, hp]
  cases u with
  | quarter =>
      exact (key _ _ (fun d => d.tdiv 60 > 15) 959
        (fun d => (lt_tdiv_iff (by decide) (by decide)).trans (by omega)) (by decide)).trans
        (if_congr Iff.rfl rfl rfl)
  | hour =>
      exact (key _ _ (fun d => (d.tdiv 60).tdiv 60 > 1) 7199
        (fun d => (lt_tdiv_iff (by decide) (by decide)).trans
          ((lt_tdiv_iff (k := 119) (by decide) (by decide)).trans (by omega))) (by decide)).trans
        (if_congr Iff.rfl rfl rfl)
  | day =>
      exact (key _ _ (fun d => ((d.tdiv 60).tdiv 60).tdiv 24 > 1) 172799
        (fun d => (lt_tdiv_iff (by decide) (by decide)).trans
          ((lt_tdiv_iff (k := 47) (by decide) (by decide)).trans
            ((lt_tdiv_iff (k := 2879) (by decide) (by decide)).trans (by omega))))
        (by decide)).trans (if_congr Iff.rfl rfl rfl)

theorem HrUnit.period_lt_threshold (u : HrUnit) : u.period < u.threshold := by
  cases u <;> decide

theorem Older.mono {row : SmtpRow} {now a b : Int} {u : HrUnit} (h : row.Older now b u)
    (hab : a ≤ b) : row.Older now a u := by
  obtain ⟨t, ht, hlt⟩ := h
  exact ⟨t, ht, by omega⟩

/-- The function counts a window late, or wraps its count. -/
theorem newCount_cases {row : SmtpRow} (hi : row.Ints) (now : Int) (u : HrUnit) :
    (¬ row.Wraps now u ∧ row.newCount now u = row.lateCount now u) ∨
      (row.Wraps now u ∧ row.newCount now u = -2 ^ 31) := by
  obtain ⟨⟨hlo, hhi⟩, -⟩ := hi u
  rw [newCount_eq, SmtpRow.lateCount]
  by_cases ht : row.Older now (u.threshold - 1) u
  · exact .inl ⟨fun hw => hw.1 ht, by rw [if_pos ht, if_pos ht]⟩
  · rw [if_neg ht, if_neg ht]
    by_cases hw : row.count u = 2 ^ 31 - 1
    · exact .inr ⟨⟨ht, hw⟩, by rw [hw]; decide⟩
    · exact .inl ⟨fun h => hw h.2, int32_of_range (by omega) (by omega)⟩

/-- A window that starts again late is counted as it means, unless it is stale. -/
theorem lateCount_eq_iff (row : SmtpRow) (now : Int) (u : HrUnit) :
    row.lateCount now u = row.lawCount now u ↔ ¬ row.Stale now u := by
  have hpt := u.period_lt_threshold
  rw [SmtpRow.lateCount, SmtpRow.lawCount, SmtpRow.Stale]
  by_cases ht : row.Older now (u.threshold - 1) u
  · rw [if_pos ht, if_pos (Older.mono ht (by omega))]
    exact iff_of_true rfl fun h => h.2.1 ht
  · rw [if_neg ht]
    by_cases hp : row.Older now u.period u
    · rw [if_pos hp]
      refine ⟨fun h hs => hs.2.2 (by omega), fun h => ?_⟩
      by_contra hne
      exact h ⟨hp, ht, fun h₀ => hne (by omega)⟩
    · rw [if_neg hp]
      exact iff_of_true rfl fun h => hp h.1

/-- The function counts a window as it means exactly when it is neither stale nor wraps. -/
theorem newCount_eq_lawCount_iff {row : SmtpRow} (hi : row.Ints) (now : Int) (u : HrUnit) :
    row.newCount now u = row.lawCount now u ↔ ¬ row.Stale now u ∧ ¬ row.Wraps now u := by
  rcases newCount_cases hi now u with ⟨hw, hn⟩ | ⟨hw, hn⟩
  · rw [hn, lateCount_eq_iff]
    exact (and_iff_left hw).symm
  · refine iff_of_false (fun h => ?_) fun h => h.2 hw
    rw [hn, SmtpRow.lawCount, hw.2] at h
    split at h <;> omega

/-- The function refuses the message exactly when it is over a limit late. -/
theorem over_newCount_iff_lateOver {row : SmtpRow} (hi : row.Ints) (now : Int) :
    (∃ u, row.limit u < row.newCount now u) ↔ row.LateOver now := by
  refine exists_congr fun u => ?_
  rcases newCount_cases hi now u with ⟨hw, hn⟩ | ⟨hw, hn⟩
  · rw [hn]
    exact (and_iff_right hw).symm
  · rw [hn]
    exact iff_of_false (Int.not_lt.mpr (hi u).2) fun h => h.1 hw

theorem store_serves (host : Text) (q h d now : Int) (row : SmtpRow) :
    (row.store q h d now).serves host = row.serves host := rfl

theorem count_store (row : SmtpRow) (q h d now : Int) (u : HrUnit) :
    (row.store q h d now).count u = match u with
      | .quarter => q
      | .hour => h
      | .day => d := by
  cases u <;> rfl

theorem limit_store (row : SmtpRow) (q h d now : Int) (u : HrUnit) :
    (row.store q h d now).limit u = row.limit u := by
  cases u <;> rfl

theorem start_store (row : SmtpRow) (now : Int) (u : HrUnit) :
    (row.store (row.newQuarter now) (row.newHour now) (row.newDay now) now).start u =
      if row.newCount now u = 1 then some now else row.start u := by
  cases u <;> rfl

/-- The client's row after the `update`. -/
theorem find_map_store {host : Text} {table : List SmtpRow} {row : SmtpRow} (q h d now : Int)
    (hrow : table.find? (SmtpRow.serves host) = some row) :
    (table.map fun r => if r.serves host then r.store q h d now else r).find?
      (SmtpRow.serves host) = some (row.store q h d now) := by
  have hp : (SmtpRow.serves host ∘ fun r : SmtpRow =>
      if r.serves host then r.store q h d now else r) = SmtpRow.serves host := by
    funext r
    simp only [Function.comp]
    split
    · rw [store_serves]
    · rfl
  rw [List.find?_map, hp, hrow, Option.map_some, if_pos (List.find?_some hrow)]

/-- The message is over a limit as the function counts. -/
theorem over_newCount_iff (row : SmtpRow) (now : Int) :
    (row.quarter < row.newQuarter now ∨ row.hour < row.newHour now ∨ row.day < row.newDay now) ↔
      ∃ u, row.limit u < row.newCount now u := by
  constructor
  · rintro (h | h | h)
    · exact ⟨.quarter, h⟩
    · exact ⟨.hour, h⟩
    · exact ⟨.day, h⟩
  · rintro ⟨u, h⟩
    cases u with
    | quarter => exact .inl h
    | hour => exact .inr (.inl h)
    | day => exact .inr (.inr h)

/-- With its row over a limit, the client is refused and nothing is stored. -/
theorem checkHRControl_refused {now : Int} {table : List SmtpRow} {ctx : SmtpContext}
    {row : SmtpRow} (hrow : table.find? (SmtpRow.serves ctx.clientHost) = some row)
    (h : ∃ u, row.limit u < row.newCount now u) :
    (checkHRControl .up now table ctx).1 = -1 ∧ (checkHRControl .up now table ctx).2.1 = table := by
  have h' := (over_newCount_iff row now).mpr h
  simp only [checkHRControl, Mysql.up, hrow, Bool.not_true, Bool.false_eq_true, if_false, if_pos h',
    and_self]

/-- With its row within the limits, the client is admitted and the counts are stored. -/
theorem checkHRControl_admitted {now : Int} {table : List SmtpRow} {ctx : SmtpContext}
    {row : SmtpRow} (hrow : table.find? (SmtpRow.serves ctx.clientHost) = some row)
    (h : ¬ ∃ u, row.limit u < row.newCount now u) :
    (checkHRControl .up now table ctx).1 = 0 ∧
      (checkHRControl .up now table ctx).2.1.find? (SmtpRow.serves ctx.clientHost) =
        some (row.store (row.newQuarter now) (row.newHour now) (row.newDay now) now) := by
  have h' := mt (over_newCount_iff row now).mp h
  simp only [checkHRControl, Mysql.up, hrow, Bool.not_true, Bool.false_eq_true, if_false, if_neg h',
    true_and]
  exact find_map_store _ _ _ _ hrow

/-- The database is there, and the client's row is over a limit as the function counts. -/
def HrRefuses (db : Mysql) (now : Int) (table : List SmtpRow) (host : Text) : Prop :=
  db.connect = true ∧ db.select = true ∧ ∃ row, table.find? (SmtpRow.serves host) = some row ∧
    ∃ u, row.limit u < row.newCount now u

/-- The function refuses, and leaves the table, exactly then.  Of the session it writes the limit
of the size. -/
theorem checkHRControl_cases (db : Mysql) (now : Int) (table : List SmtpRow) (ctx : SmtpContext) :
    (HrRefuses db now table ctx.clientHost ∧ ∃ a, checkHRControl db now table ctx =
      (-1, table, { ctx with abSize := a })) ∨
    (¬ HrRefuses db now table ctx.clientHost ∧ ∃ table' a, checkHRControl db now table ctx =
      (0, table', { ctx with abSize := a })) := by
  unfold checkHRControl
  by_cases hc : db.connect = true
  swap
  · exact .inr ⟨fun h => hc h.1, table, ctx.abSize, by rw [if_pos (by simpa using hc)]⟩
  rw [if_neg (by simp [hc])]
  by_cases hs : db.select = true
  swap
  · exact .inr ⟨fun h => hs h.2.1, table, ctx.abSize, by rw [if_pos (by simpa using hs)]⟩
  rw [if_neg (by simp [hs])]
  cases hrow : table.find? (SmtpRow.serves ctx.clientHost) with
  | none =>
      refine .inr ⟨fun h => ?_, table, ctx.abSize, rfl⟩
      obtain ⟨-, -, row, h, -⟩ := h
      rw [hrow] at h
      cases h
  | some row =>
      by_cases hover : ∃ u, row.limit u < row.newCount now u
      · exact .inl ⟨⟨hc, hs, row, hrow, hover⟩, _, if_pos ((over_newCount_iff row now).mpr hover)⟩
      · refine .inr ⟨fun h => ?_, ?_⟩
        · obtain ⟨-, -, row', h, hover'⟩ := h
          cases hrow.symm.trans h
          exact hover hover'
        · simp only [if_neg (mt (over_newCount_iff row now).mp hover)]
          cases db.update
          · exact ⟨_, _, rfl⟩
          · exact ⟨_, _, rfl⟩

/-- A call obeys the law exactly when it counts every window as the window means, or both refuse the
message. -/
theorem hrLaw_iff {now : Int} {table : List SmtpRow} {ctx : SmtpContext} {row : SmtpRow}
    (hrow : table.find? (SmtpRow.serves ctx.clientHost) = some row) :
    HrLaw ctx.clientHost row now table (checkHRControl .up now table ctx).1
        (checkHRControl .up now table ctx).2.1 ↔
      (∀ u, row.newCount now u = row.lawCount now u) ∨
        row.Over now ∧ ∃ u, row.limit u < row.newCount now u := by
  have hover : row.Over now ↔ ¬ ∀ u, row.lawCount now u ≤ row.limit u := by
    simp only [SmtpRow.Over, not_forall, Int.not_le]
  by_cases hn : ∃ u, row.limit u < row.newCount now u
  · -- refused
    obtain ⟨hret, htab⟩ := checkHRControl_refused hrow hn
    rw [hret, htab]
    constructor
    · rintro ⟨hiff, -, -⟩
      exact .inr ⟨hover.mpr fun h => absurd (hiff.mpr h) (by decide), hn⟩
    · intro h
      have hlaw : row.Over now := h.elim (fun heq => hn.imp fun u hu => by rwa [← heq u]) (·.1)
      exact ⟨iff_of_false (by decide) (hover.mp hlaw), fun h => absurd h (by decide), fun _ => rfl⟩
  · -- admitted
    obtain ⟨hret, hrow'⟩ := checkHRControl_admitted hrow hn
    rw [hret]
    have hcount : ∀ u,
        (row.store (row.newQuarter now) (row.newHour now) (row.newDay now) now).count u =
          row.newCount now u := fun u => by
      rw [count_store]
      cases u <;> rfl
    constructor
    · rintro ⟨-, hst, -⟩
      obtain ⟨row', hf, hlaw, -⟩ := hst rfl
      cases hrow'.symm.trans hf
      exact .inl fun u => (hcount u).symm.trans (hlaw u)
    · intro h
      have heq := h.resolve_right fun h => hn h.2
      refine ⟨⟨fun _ u => ?_, fun _ => rfl⟩, fun _ => ⟨_, hrow', fun u => ?_, fun u => ?_⟩,
        fun h => absurd rfl h⟩
      · rw [← heq u]
        exact Int.not_lt.mp fun hu => hn ⟨u, hu⟩
      · rw [hcount, heq u]
      · rw [start_store, heq u]

/-- **One call obeys the law** exactly when no window is stale or wraps, or the message is over a
limit anyway. -/
theorem checkHRControl_law_iff {now : Int} {table : List SmtpRow} {ctx : SmtpContext}
    {row : SmtpRow} (hrow : table.find? (SmtpRow.serves ctx.clientHost) = some row)
    (hi : row.Ints) :
    HrLaw ctx.clientHost row now table (checkHRControl .up now table ctx).1
        (checkHRControl .up now table ctx).2.1 ↔
      (∀ u, ¬ row.Stale now u ∧ ¬ row.Wraps now u) ∨ row.Over now ∧ row.LateOver now := by
  rw [hrLaw_iff hrow, over_newCount_iff_lateOver hi]
  exact or_congr_left (forall_congr' (newCount_eq_lawCount_iff hi now))

/-! ### A client's history -/

/-- The table after a DATA command, made at a time by a session. -/
def hrStep (table : List SmtpRow) (call : Int × SmtpContext) : List SmtpRow :=
  (checkHRControl .up call.1 table call.2).2.1

/-- The call, made at this state of the table, obeys the law of the client's row. -/
def HrCallLaw (table : List SmtpRow) (call : Int × SmtpContext) : Prop :=
  ∀ row, table.find? (SmtpRow.serves call.2.clientHost) = some row →
    HrLaw call.2.clientHost row call.1 table (checkHRControl .up call.1 table call.2).1
      (hrStep table call)

/-- The client's row, at the time of the call, has no window that is stale or wraps, or is over a
limit. -/
def HrCallFresh (table : List SmtpRow) (call : Int × SmtpContext) : Prop :=
  ∀ row, table.find? (SmtpRow.serves call.2.clientHost) = some row →
    (∀ u, ¬ row.Stale call.1 u ∧ ¬ row.Wraps call.1 u) ∨ row.Over call.1 ∧ row.LateOver call.1

theorem ints_store (row : SmtpRow) {r : SmtpRow} (hr : r.Ints) (now : Int) :
    (r.store (row.newQuarter now) (row.newHour now) (row.newDay now) now).Ints := by
  intro u
  have hrange : -2 ^ 31 ≤ row.newCount now u ∧ row.newCount now u < 2 ^ 31 := by
    rw [newCount_eq]
    split
    · decide
    · exact ⟨int32_lower _, int32_upper _⟩
  refine ⟨?_, ?_⟩
  · rw [count_store]
    cases u <;> exact hrange
  · rw [limit_store]
    exact (hr u).2

/-- The columns stay of the type `int`. -/
theorem hrStep_ints {table : List SmtpRow} (hi : ∀ row ∈ table, row.Ints)
    (call : Int × SmtpContext) : ∀ row ∈ hrStep table call, row.Ints := by
  unfold hrStep checkHRControl
  rw [if_neg (by decide), if_neg (by decide)]
  cases hrow : table.find? (SmtpRow.serves call.2.clientHost) with
  | none => exact hi
  | some row =>
      dsimp only
      split
      · exact hi
      · rw [if_neg (by decide)]
        intro r' hr'
        obtain ⟨r, hr, rfl⟩ := List.mem_map.mp hr'
        split
        · exact ints_store row (hi r hr) _
        · exact hi r hr

/-- **The windows over a history.**  In a history of DATA commands every call obeys the law exactly
when every call finds no window that is stale or wraps, or is over a limit. -/
theorem hr_history_law_iff {table : List SmtpRow} (hi : ∀ row ∈ table, row.Ints)
    (calls : List (Int × SmtpContext)) :
    (∀ p ∈ visits hrStep table calls, HrCallLaw p.1 p.2) ↔
      ∀ p ∈ visits hrStep table calls, HrCallFresh p.1 p.2 := by
  refine forall_visits_iff_of_invariant (I := fun table => ∀ row ∈ table, SmtpRow.Ints row)
    (fun table call hi => ?_) (fun table call hi _ => hrStep_ints hi call) hi
  refine forall₂_congr fun row hrow => ?_
  exact checkHRControl_law_iff hrow (hi row (List.mem_of_find?_eq_some hrow))

/-- A client limited to 10 messages a quarter of an hour, 1 an hour and 10 a day. -/
def hourlyRow : SmtpRow where
  ip := "10.0.0.1".toList
  size := 0
  quarter := 10
  hour := 1
  day := 10
  quarterCount := some 1
  hourCount := some 1
  dayCount := some 1
  quarterTime := some 0
  hourTime := some 0
  dayTime := some 0

/-- A session of that client. -/
def hourlyClient : SmtpContext := .accepted "10.0.0.1".toList 2525 0 0

/-- The client's one message of the hour is 3700 seconds old, and its next one is refused. -/
theorem hr_history_stale_hour : ¬ ∀ p ∈ visits hrStep [hourlyRow] [(3700, hourlyClient)],
    HrCallLaw p.1 p.2 := by
  intro h
  have hlaw := h _ List.mem_cons_self hourlyRow (by decide)
  have hret := hlaw.1.mpr fun u => by cases u <;> decide
  exact absurd hret (by decide)

/-- At 7200 seconds the divisions, too, find the hour expired, and the message is admitted. -/
theorem hr_history_two_hours : (∀ p ∈ visits hrStep [hourlyRow] [(7200, hourlyClient)],
    HrCallLaw p.1 p.2) ↔ ∀ p ∈ visits hrStep [hourlyRow] [(7200, hourlyClient)],
      HrCallFresh p.1 p.2 :=
  hr_history_law_iff (fun row hrow => by
    rw [List.mem_singleton] at hrow
    subst hrow
    intro u
    cases u <;> decide) _

end Edm.Smtp
