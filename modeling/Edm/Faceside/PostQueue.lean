import Edm.Support.Run
import Edm.Support.StdMap
import Edm.Support.Decimal
import Edm.Support.Split
import Edm.Faceside.SmtpPost

/-!
# Faceside — PostQueue

`post_email_queue` takes the trigger mails off the queue.  A mail that `smtp_post` asks to retry
waits in the map `retry`; any other is reported and moved to the backup or the fail folder, and so
is one that was retried often enough.  A round takes at most one mail and goes through the map.

A mail may have no fate at all: the first `SMTP_RETRY` drops it where no retries are wanted
(`dropped`), and `fput_report_file` reads a file that it cannot open without end.  `fate_run` says
that each mail waits or has exactly one fate in a run whose rounds avoid that.
-/

namespace Edm.Faceside
open Support

/-! ### The report -/

/-- The ids in the name of a file: `"-%d.%d.%d"` from the last minus on. -/
def reportIds (source : Text) : Option (Int × Int × Int) :=
  if '-' ∈ source then
    match scanInt (source.reverse.takeWhile (· != '-')).reverse with
    | some (corp_id, '.' :: sub) =>
        match scanInt sub with
        | some (task_id, '.' :: sub) => (scanInt sub).map fun e => (corp_id, task_id, e.1)
        | _ => none
    | _ => none
  else none

/-- The recipient that a mail file names. -/
def fileRcpt (content : Text) : Text :=
  match (content.splitOn '\n').find? (strncasecmpEq · "RCPT TO:".toList) with
  | none => []
  | some rcpt => eraseBack "\t <>\r\n".toList (eraseFront "\t <>\r\n".toList (rcpt.drop 8))

/-- `SMTP_ERR_MSG`. -/
def smtpErrMsg (x : Int) : Text :=
  if x = SMTP_OK then "ok".toList
  else if x = SMTP_DNS_FAIL then "domain not exist".toList
  else if x = SMTP_SPAM then "spam".toList
  else if x = SMTP_NONE_EXIST then "not found".toList
  else if x = SMTP_RETRY then "retry".toList
  else "fail".toList

/-- `"%d.%d.%d|%s|%s\n"`. -/
def reportLine (ids : Int × Int × Int) (rcpt : Text) (flag : Int) : Text :=
  showInt ids.1 ++ '.' :: (showInt ids.2.1 ++ '.' :: (showInt ids.2.2 ++ '|' :: (rcpt ++ '|' ::
    (smtpErrMsg flag ++ ['\n']))))

/-! ### The queue -/

/-- The configuration; both are `unsigned int`. -/
structure RetryConfig where
  smtp_fail_retry : Nat
  smtp_retry_interval : Nat
  fail_lt : smtp_fail_retry < 2 ^ 32
  interval_lt : smtp_retry_interval < 2 ^ 32

namespace RetryConfig
variable (cfg : RetryConfig)

def retrycnt : Int := int32 cfg.smtp_fail_retry
def interval : Int := int32 cfg.smtp_retry_interval

variable {cfg} in
theorem retrycnt_eq (h : 1 ≤ cfg.retrycnt) :
    cfg.retrycnt = cfg.smtp_fail_retry ∧ cfg.smtp_fail_retry < 2 ^ 31 := by
  have hlt := cfg.fail_lt
  by_cases hsmall : cfg.smtp_fail_retry < 2 ^ 31
  · exact ⟨int32_of_range (by omega) (by omega), hsmall⟩
  · -- The `int` is negative.
    have hneg : cfg.retrycnt = cfg.smtp_fail_retry - 2 ^ 32 := by
      rw [retrycnt, int32, ← Int.sub_bmod_right]
      exact int32_of_range (by omega) (by omega)
    omega

theorem interval_eq (h : cfg.smtp_retry_interval < 2 ^ 31) :
    cfg.interval = cfg.smtp_retry_interval :=
  int32_of_range (by omega) (by omega)

end RetryConfig

/-- `retries_t`. -/
structure Retries where
  n : Int
  t : Int
  deriving DecidableEq

/-- An `smtp_post`: when it begins, and what it returns. -/
structure Attempt where
  start : Int
  flag : Int
  deriving DecidableEq

/-- A call of `fput_report_file`: whether the report file is open, and what is written to it. -/
structure Reported where
  opened : Bool
  line : Option Text
  deriving DecidableEq

/-- The state of the thread.  `hung` says that it never leaves a loop.  The rest only remembers:
which mails were taken, and for each its attempts and reports, and whether it was moved to the
backup. -/
structure PostQueue where
  retry : StdMap Text Retries
  hung : Bool
  mails : List Text
  attempts : Text → List Attempt
  reports : Text → List Reported
  moves : Text → List Bool

/-- A round.  `got` is the mail from the queue, if one comes in time; `opened` is what
`FILE_pointer_take` makes of the report file, and `content` the files that can be read.  `after`
is the time behind the first attempt and `end_` the one that the retries are measured by. -/
structure Round where
  got : Option Text
  opened : Bool
  content : Text → Option Text
  first : Attempt
  after : Int
  end_ : Int
  again : Text → Attempt
  first_le : first.start ≤ after
  end_le : ∀ k, end_ ≤ (again k).start

namespace PostQueue
variable (cfg : RetryConfig) (r : Round) (s : PostQueue)

def init : PostQueue := ⟨.empty, false, [], fun _ => [], fun _ => [], fun _ => []⟩

/-- `fput_report_file`; without a line where the name has no ids, and without end where the file
cannot be read. -/
def fputReportFile (flag : Int) (k : Text) : PostQueue :=
  match reportIds k, r.content k with
  | none, _ => { s with reports := Function.update s.reports k (⟨r.opened, none⟩ :: s.reports k) }
  | some _, none => { s with hung := true }
  | some ids, some content =>
      let line := if r.opened then some (reportLine ids (fileRcpt content) flag) else none
      { s with reports := Function.update s.reports k (⟨r.opened, line⟩ :: s.reports k) }

/-- `dw_smart_move`. -/
def dwSmartMove (flag : Int) (k : Text) : PostQueue :=
  { s with moves := Function.update s.moves k (decide (flag = SMTP_OK) :: s.moves k) }

/-- A mail is reported and moved. -/
def settle (flag : Int) (k : Text) : PostQueue :=
  let s := s.fputReportFile r flag k
  if s.hung then s else s.dwSmartMove flag k

def attempt (a : Attempt) (k : Text) : PostQueue :=
  { s with attempts := Function.update s.attempts k (a :: s.attempts k) }

/-- The mail from the queue. -/
def take (src : Text) : PostQueue :=
  let s := { s with mails := src :: s.mails }.attempt r.first src
  if r.first.flag ≠ SMTP_RETRY then s.settle r r.first.flag src
  else if 0 < cfg.smtp_fail_retry then { s with retry := s.retry.set src ⟨1, r.after⟩ }
  else s

/-- A mail leaves the map. -/
def leave (k : Text) : PostQueue :=
  if s.hung then s else { s with retry := s.retry.keep fun k' => k' ≠ k }

/-- The body of the loop over the map. -/
def visit (k : Text) : PostQueue :=
  if s.hung then s
  else match s.retry.find k with
    | none => s
    | some i =>
        if cfg.retrycnt < i.n then (s.settle r SMTP_NRETRY k).leave k
        else if cfg.interval < r.end_ - i.t then
          let s := s.attempt (r.again k) k
          if (r.again k).flag ≠ SMTP_RETRY then (s.settle r (r.again k).flag k).leave k
          else { s with retry := s.retry.set k ⟨int32 (i.n + 1), r.end_⟩ }
        else s

/-- The names in the map. -/
def waiting : List Text := s.retry.entries.map Prod.fst


/-- The mail that a round takes. -/
def arrives : List Text := r.got.toList.filter fun src => !src.isEmpty

/-- A round of `post_email_queue`. -/
def step : PostQueue :=
  if s.hung then s
  else
    let s := (arrives r).foldl (take cfg r) s
    s.waiting.foldl (visit cfg r) s

/-- A round that loses no mail. -/
def careful : Bool :=
  -- A new mail, and retries if it asks for them.
  ((arrives r).all fun src => decide (src ∉ s.mails) &&
    (r.first.flag != SMTP_RETRY || decide (0 < cfg.smtp_fail_retry))) &&
  -- The mails can be read, and their names have ids.
  ((arrives r ++ s.waiting).all fun k => (reportIds k).isSome && (r.content k).isSome) &&
  -- The retries begin in the second they are measured by.
  ((arrives r ++ s.waiting).all fun k => (r.again k).start == r.end_) &&
  decide (cfg.smtp_retry_interval < 2 ^ 31) && decide (cfg.smtp_fail_retry ≠ 2 ^ 31 - 1)

end PostQueue

/-! ### The fate of a mail -/

/-- What is known of a mail. -/
structure MailView where
  retry : Option Retries
  attempts : List Attempt
  reports : List Reported
  moves : List Bool

namespace PostQueue

def view (s : PostQueue) (k : Text) : MailView :=
    ⟨s.retry.find k, s.attempts k, s.reports k, s.moves k⟩

end PostQueue

namespace MailView
variable (cfg : RetryConfig) (v : MailView)

/-- Attempts, the last one first, that are more than the interval apart. -/
def Spaced (attempts : List Attempt) : Prop :=
  attempts.IsChain fun a b => (cfg.smtp_retry_interval : Int) < a.start - b.start

/-- It waits for another attempt. -/
structure Waits : Prop where
  retry : v.retry.isSome = true
  attempts : v.attempts.length ≤ cfg.smtp_fail_retry + 1
  spaced : Spaced cfg v.attempts
  reports : v.reports = []
  moves : v.moves = []

/-- It was reported once, and moved once, to the backup if the last attempt succeeded. -/
structure Settled : Prop where
  retry : v.retry = none
  reported : ∃ report, v.reports = [report] ∧ (report.opened = true → report.line.isSome = true)
  moved : ∃ backup, v.moves = [backup] ∧
    (backup = true ↔ v.attempts.head?.map Attempt.flag = some SMTP_OK)

/-- What a mail in the map is known by. -/
structure Counted (i : Retries) : Prop where
  retry : v.retry = some i
  n : i.n = v.attempts.length
  attempts : v.attempts.length ≤ cfg.smtp_fail_retry + 1
  spaced : Spaced cfg v.attempts
  last : ∃ a, v.attempts.head? = some a ∧ a.start ≤ i.t ∧ a.flag = SMTP_RETRY
  reports : v.reports = []
  moves : v.moves = []

variable {cfg v}

theorem Counted.waits {i : Retries} (h : v.Counted cfg i) : v.Waits cfg :=
  ⟨by rw [h.retry]; rfl, h.attempts, h.spaced, h.reports, h.moves⟩

end MailView

namespace PostQueue

/-- What every round keeps. -/
structure Law (cfg : RetryConfig) (s : PostQueue) : Prop where
  runs : s.hung = false
  others : ∀ k, k ∉ s.mails → s.view k = ⟨none, [], [], []⟩
  fate : ∀ k ∈ s.mails, (∃ i, (s.view k).Counted cfg i) ∨ (s.view k).Settled

/-- A step that concerns one mail. -/
structure Only (k : Text) (s s' : PostQueue) : Prop where
  runs : s'.hung = false
  mails : ∀ k', k' ∈ s'.mails ↔ k' = k ∨ k' ∈ s.mails
  others : ∀ k', k' ≠ k → s'.view k' = s.view k'

variable {cfg : RetryConfig} {r : Round} {s s' : PostQueue} {k : Text}

theorem Law.only (h : s.Law cfg) (hs : Only k s s')
    (hk : (∃ i, (s'.view k).Counted cfg i) ∨ (s'.view k).Settled) : s'.Law cfg where
  runs := hs.runs
  others k' hk' := by
    have hne : k' ≠ k := fun he => hk' ((hs.mails k').mpr (.inl he))
    rw [hs.others k' hne]
    exact h.others k' fun hmem => hk' ((hs.mails k').mpr (.inr hmem))
  fate k' hk' := by
    by_cases hne : k' = k
    · rw [hne]
      exact hk
    · rw [hs.others k' hne]
      exact h.fate k' (((hs.mails k').mp hk').resolve_left hne)

/-- A report of a mail that can be read, and its move. -/
theorem settle_view (hruns : s.hung = false) (hids : (reportIds k).isSome = true)
    (hcontent : (r.content k).isSome = true) (flag : Int) :
    (s.settle r flag k).hung = false ∧ (s.settle r flag k).mails = s.mails ∧
      (s.settle r flag k).retry = s.retry ∧ (s.settle r flag k).attempts = s.attempts ∧
      (∀ k', k' ≠ k → (s.settle r flag k).reports k' = s.reports k' ∧
        (s.settle r flag k).moves k' = s.moves k') ∧
      (∃ report, (s.settle r flag k).reports k = report :: s.reports k ∧
        (report.opened = true → report.line.isSome = true)) ∧
      (s.settle r flag k).moves k = decide (flag = SMTP_OK) :: s.moves k := by
  obtain ⟨ids, hids⟩ := Option.isSome_iff_exists.mp hids
  obtain ⟨content, hcontent⟩ := Option.isSome_iff_exists.mp hcontent
  let report : Reported :=
    ⟨r.opened, if r.opened then some (reportLine ids (fileRcpt content) flag) else none⟩
  have hput : s.fputReportFile r flag k =
      { s with reports := Function.update s.reports k (report :: s.reports k) } := by
    rw [fputReportFile, hids, hcontent]
  have hsettle : s.settle r flag k = (s.fputReportFile r flag k).dwSmartMove flag k := by
    rw [settle, if_neg]
    rw [hput, hruns]
    exact Bool.false_ne_true
  rw [hsettle, hput]
  refine ⟨hruns, rfl, rfl, rfl, fun k' hk' => ⟨Function.update_of_ne hk' _ _,
    Function.update_of_ne hk' _ _⟩, ⟨report, Function.update_self _ _ _, fun hopen => ?_⟩,
    Function.update_self _ _ _⟩
  have hopen : r.opened = true := hopen
  simp only [report, hopen, if_true, Option.isSome_some]

theorem Only.trans {s₁ : PostQueue} (h : Only k s s₁) (h' : Only k s₁ s') : Only k s s' where
  runs := h'.runs
  mails k' := by
    rw [h'.mails, h.mails]
    tauto
  others k' hk' := (h'.others k' hk').trans (h.others k' hk')

theorem attempt_only (hruns : s.hung = false) (hk : k ∈ s.mails) (a : Attempt) :
    Only k s (s.attempt a k) where
  runs := hruns
  mails k' := ⟨.inr, fun h => h.elim (fun he => he ▸ hk) id⟩
  others k' hk' := by
    simp only [view, attempt, Function.update_of_ne hk']

theorem settle_only (hruns : s.hung = false) (hk : k ∈ s.mails) (hids : (reportIds k).isSome = true)
    (hcontent : (r.content k).isSome = true) (flag : Int) : Only k s (s.settle r flag k) := by
  obtain ⟨hrun, hmails, hretry, hattempts, hothers, -, -⟩ := settle_view hruns hids hcontent flag
  refine ⟨hrun, fun k' => ?_, fun k' hk' => ?_⟩
  · rw [hmails]
    exact ⟨.inr, fun h => h.elim (fun he => he ▸ hk) id⟩
  · rw [view, view, hretry, hattempts, (hothers k' hk').1, (hothers k' hk').2]

theorem leave_eq (hruns : s.hung = false) :
    s.leave k = { s with retry := s.retry.keep fun k' => k' ≠ k } := by
  rw [leave, if_neg]
  rw [hruns]
  exact Bool.false_ne_true

theorem leave_only (hruns : s.hung = false) (hk : k ∈ s.mails) : Only k s (s.leave k) := by
  rw [leave_eq hruns]
  refine ⟨hruns, fun k' => ⟨.inr, fun h => h.elim (fun he => he ▸ hk) id⟩, fun k' hk' => ?_⟩
  rw [view, view, StdMap.find_keep, if_pos (decide_eq_true hk')]

/-- A mail stays in the map. -/
theorem map_only (hruns : s.hung = false) (hk : k ∈ s.mails) (i : Retries) :
    Only k s { s with retry := s.retry.set k i } where
  runs := hruns
  mails k' := ⟨.inr, fun h => h.elim (fun he => he ▸ hk) id⟩
  others k' hk' := by
    rw [view, view, StdMap.find_set, if_neg hk']

/-- What is left of a mail that leaves the map. -/
theorem view_leave (hruns : s.hung = false) : (s.leave k).view k
    = { s.view k with retry := none } := by
  rw [leave_eq hruns, view, StdMap.find_keep, if_neg (by simp)]
  rfl

/-- A mail is settled as its last attempt says. -/
theorem settle_settled (hruns : s.hung = false) (hids : (reportIds k).isSome = true)
    (hcontent : (r.content k).isSome = true) (flag : Int) (hreports : s.reports k = [])
    (hmoves : s.moves k = [])
    (hflag : flag = SMTP_OK ↔ (s.attempts k).head?.map Attempt.flag = some SMTP_OK) :
    ({ (s.settle r flag k).view k with retry := none } : MailView).Settled := by
  obtain ⟨-, -, -, hattempts, -, ⟨report, hreport, hopened⟩, hmove⟩ :=
    settle_view hruns hids hcontent flag
  rw [hreports] at hreport
  rw [hmoves] at hmove
  refine ⟨rfl, ⟨report, hreport, hopened⟩, ⟨_, hmove, ?_⟩⟩
  rw [decide_eq_true_iff, hflag, view, hattempts]

/-- A mail in the map is settled, and leaves it. -/
theorem Law.give_up (h : s.Law cfg) (hids : (reportIds k).isSome = true)
    (hcontent : (r.content k).isSome = true) {flag : Int} {s₁ : PostQueue} (hs : Only k s s₁)
    (hreports : s₁.reports k = []) (hmoves : s₁.moves k = [])
    (hflag : flag = SMTP_OK ↔ (s₁.attempts k).head?.map Attempt.flag = some SMTP_OK) :
    ((s₁.settle r flag k).leave k).Law cfg := by
  have hmem : k ∈ s₁.mails := (hs.mails k).mpr (.inl rfl)
  have hsettle := settle_only hs.runs hmem hids hcontent flag
  have hleave := leave_only hsettle.runs ((hsettle.mails k).mpr (.inl rfl))
  refine h.only ((hs.trans hsettle).trans hleave) (.inr ?_)
  rw [view_leave hsettle.runs]
  exact settle_settled hs.runs hids hcontent _ hreports hmoves hflag

theorem Law.visit (h : s.Law cfg) (hids : (reportIds k).isSome = true)
    (hcontent : (r.content k).isSome = true) (hstart : (r.again k).start = r.end_)
    (hinterval : cfg.smtp_retry_interval < 2 ^ 31) (hretry : cfg.smtp_fail_retry ≠ 2 ^ 31 - 1) :
    (s.visit cfg r k).Law cfg := by
  rw [PostQueue.visit, if_neg (by rw [h.runs]; exact Bool.false_ne_true)]
  cases hfind : s.retry.find k with
  | none => exact h
  | some i =>
    have hk : k ∈ s.mails := by
      by_contra hk
      have hnone : s.retry.find k = none := congrArg MailView.retry (h.others k hk)
      rw [hfind] at hnone
      cases hnone
    obtain ⟨i', hi⟩ : ∃ i, (s.view k).Counted cfg i := by
      refine (h.fate k hk).resolve_right fun hsettled => ?_
      have hnone : s.retry.find k = none := hsettled.retry
      rw [hfind] at hnone
      cases hnone
    obtain rfl : i' = i := Option.some.inj (hi.retry.symm.trans hfind)
    obtain ⟨a, hlast, hbefore, hflag⟩ := hi.last
    dsimp only
    split
    next =>
      have hrefused : ¬ (s.attempts k).head?.map Attempt.flag = some SMTP_OK := by
        have hhead : (s.attempts k).head? = some a := hlast
        rw [hhead, Option.map_some, hflag]
        decide
      exact h.give_up hids hcontent
        ⟨h.runs, fun k' => ⟨.inr, fun h => h.elim (fun he => he ▸ hk) id⟩,
        fun _ _ => rfl⟩ hi.reports hi.moves (iff_of_false (by decide) hrefused)
    next hmore =>
      split
      next hdue =>
        have hattempt := attempt_only h.runs hk (r.again k)
        have hattempts : (s.attempt (r.again k) k).attempts k = r.again k :: s.attempts k :=
          Function.update_self _ _ _
        split
        next hflag' =>
          refine h.give_up hids hcontent hattempt hi.reports hi.moves ?_
          rw [hattempts, List.head?_cons, Option.map_some, Option.some.injEq]
        next hflag' =>
          have hn : i'.n = (s.attempts k).length := hi.n
          have hpos : 0 < (s.attempts k).length := List.length_pos_of_mem (List.mem_of_head? hlast)
          obtain ⟨hcnt, hlimit⟩ := RetryConfig.retrycnt_eq (by omega : 1 ≤ cfg.retrycnt)
          have hcount : int32 (i'.n + 1) = (s.attempts k).length + 1 := by
            rw [int32_of_range] <;> omega
          refine h.only (hattempt.trans
            (map_only hattempt.runs ((hattempt.mails k).mpr (.inl rfl)) _))
            (.inl ⟨⟨int32 (i'.n + 1), r.end_⟩, ?_⟩)
          refine ⟨StdMap.find_upsert_self _ _ _, ?_, ?_, ?_,
            ⟨r.again k, ?_, hstart.le, ?_⟩, hi.reports,
            hi.moves⟩
          · show int32 (i'.n + 1) = (((s.attempt (r.again k) k).attempts k).length : Int)
            rw [hattempts, hcount]
            rfl
          · show ((s.attempt (r.again k) k).attempts k).length ≤ cfg.smtp_fail_retry + 1
            rw [hattempts, List.length_cons]
            omega
          · show MailView.Spaced cfg ((s.attempt (r.again k) k).attempts k)
            obtain ⟨rest, hrest⟩ :=
                List.head?_eq_some_iff.mp (show (s.attempts k).head? = some a from hlast)
            have hspaced : MailView.Spaced cfg (s.attempts k) := hi.spaced
            rw [hrest] at hspaced
            rw [hattempts, hrest]
            rw [cfg.interval_eq hinterval] at hdue
            exact List.isChain_cons_cons.mpr ⟨by omega, hspaced⟩
          · show ((s.attempt (r.again k) k).attempts k).head? = some (r.again k)
            rw [hattempts]
            rfl
          · exact not_not.mp hflag'
      next => exact h

/-- A mail that is taken, after its first attempt. -/
theorem start_only (hruns : s.hung = false) :
    Only k s ({ s with mails := k :: s.mails }.attempt r.first k) := by
  refine ⟨hruns, fun k' => List.mem_cons, fun k' hk' => ?_⟩
  simp only [view, attempt, Function.update_of_ne hk']

theorem take_only (hruns : s.hung = false)
    (hretry : r.first.flag = SMTP_RETRY → 0 < cfg.smtp_fail_retry)
    (hids : (reportIds k).isSome = true) (hcontent : (r.content k).isSome = true) :
    Only k s (s.take cfg r k) := by
  have hstart := start_only (r := r) (k := k) hruns
  have hmem := (hstart.mails k).mpr (.inl rfl)
  unfold PostQueue.take
  split
  next => exact hstart.trans (settle_only hstart.runs hmem hids hcontent _)
  next hflag =>
    rw [if_pos (hretry (not_not.mp hflag))]
    exact hstart.trans (map_only hstart.runs hmem _)

theorem Law.take (h : s.Law cfg) (hnew : k ∉ s.mails)
    (hretry : r.first.flag = SMTP_RETRY → 0 < cfg.smtp_fail_retry)
    (hids : (reportIds k).isSome = true) (hcontent : (r.content k).isSome = true) :
    (s.take cfg r k).Law cfg := by
  refine h.only (take_only h.runs hretry hids hcontent) ?_
  have hview := h.others k hnew
  have hnone : s.retry.find k = none := congrArg MailView.retry hview
  have hattempts : s.attempts k = [] := congrArg MailView.attempts hview
  have hreports : s.reports k = [] := congrArg MailView.reports hview
  have hmoves : s.moves k = [] := congrArg MailView.moves hview
  have hstart := start_only (r := r) (k := k) h.runs
  have hfirst : ({ s with mails := k :: s.mails }.attempt r.first k).attempts k = [r.first] := by
    rw [← hattempts]
    exact Function.update_self _ _ _
  unfold PostQueue.take
  split
  next =>
    have hsettled := settle_settled hstart.runs hids hcontent r.first.flag hreports hmoves (by
      rw [hfirst, List.head?_cons, Option.map_some, Option.some.injEq])
    obtain ⟨-, -, hmap, -⟩ := settle_view hstart.runs hids hcontent r.first.flag
    exact .inr ⟨(congrArg (StdMap.find · k) hmap).trans hnone, hsettled.reported, hsettled.moved⟩
  next hflag =>
    rw [if_pos (hretry (not_not.mp hflag))]
    refine .inl ⟨⟨1, r.after⟩, StdMap.find_upsert_self _ _ _, ?_, ?_, ?_,
      ⟨r.first, ?_, r.first_le, not_not.mp hflag⟩, hreports, hmoves⟩
    · exact (congrArg (fun l => (l.length : Int)) hfirst).symm
    · exact (congrArg List.length hfirst).trans_le (Nat.le_add_left _ _)
    · have hspaced : MailView.Spaced cfg
          (({ s with mails := k :: s.mails }.attempt r.first k).attempts k) := by
        rw [hfirst]
        exact .singleton _
      exact hspaced
    · exact congrArg List.head? hfirst

theorem mem_waiting : k ∈ s.waiting ↔ ∃ i, s.retry.find k = some i := by
  rw [waiting, List.mem_map]
  constructor
  · rintro ⟨⟨k, i⟩, hmem, rfl⟩
    exact ⟨i, StdMap.find_eq_some_iff.mpr hmem⟩
  · rintro ⟨i, hi⟩
    exact ⟨(k, i), StdMap.find_eq_some_iff.mp hi, rfl⟩

/-- The loop over the map. -/
theorem Law.visits (hinterval : cfg.smtp_retry_interval < 2 ^ 31)
    (hretry : cfg.smtp_fail_retry ≠ 2 ^ 31 - 1) {ks : List Text}
    (hks : ∀ k ∈ ks, ((reportIds k).isSome = true ∧ (r.content k).isSome = true) ∧
      (r.again k).start = r.end_) (h : s.Law cfg) :
      (ks.foldl (PostQueue.visit cfg r) s).Law cfg := by
  induction ks generalizing s with
  | nil => exact h
  | cons k ks ih =>
    obtain ⟨⟨⟨hids, hcontent⟩, hstart⟩, hks⟩ := List.forall_mem_cons.mp hks
    exact ih hks (h.visit hids hcontent hstart hinterval hretry)

/-- A round that is careful. -/
theorem Law.step (h : s.Law cfg) (hr : s.careful cfg r = true) : (s.step cfg r).Law cfg := by
  simp only [careful, Bool.and_eq_true, decide_eq_true_eq, List.all_eq_true, Bool.or_eq_true,
    bne_iff_ne, beq_iff_eq] at hr
  obtain ⟨⟨⟨⟨hnew, hread⟩, hstart⟩, hinterval⟩, hretry⟩ := hr
  have hgood : ∀ k ∈ arrives r ++ s.waiting, ((reportIds k).isSome = true ∧
      (r.content k).isSome = true) ∧ (r.again k).start = r.end_ :=
    fun k hk => ⟨hread k hk, hstart k hk⟩
  rw [PostQueue.step, if_neg (by rw [h.runs]; exact Bool.false_ne_true)]
  have hone : arrives r = [] ∨ ∃ src, arrives r = [src] := by
    rw [arrives]
    cases r.got with
    | none => exact .inl rfl
    | some src =>
      rw [Option.toList_some, List.filter_singleton]
      cases !src.isEmpty with
      | true => exact .inr ⟨src, rfl⟩
      | false => exact .inl rfl
  rcases hone with hnone | ⟨src, hsrc⟩
  · rw [hnone, List.foldl_nil]
    exact h.visits hinterval hretry fun k hk => hgood k (List.mem_append_right _ hk)
  · rw [hsrc] at hnew hgood ⊢
    obtain ⟨hnew, hwants⟩ := hnew src List.mem_cons_self
    have hwants : r.first.flag = SMTP_RETRY → 0 < cfg.smtp_fail_retry := fun hflag =>
      hwants.resolve_left fun hne => hne hflag
    obtain ⟨⟨hids, hcontent⟩, -⟩ := hgood src List.mem_cons_self
    have htake := take_only h.runs hwants hids hcontent
    rw [List.foldl_cons, List.foldl_nil]
    refine (h.take hnew hwants hids hcontent).visits hinterval hretry fun k hk => hgood k ?_
    by_cases hne : k = src
    · exact hne ▸ List.mem_cons_self
    · obtain ⟨i, hi⟩ := mem_waiting.mp hk
      have hsame := congrArg MailView.retry (htake.others k hne)
      exact List.mem_cons_of_mem _ (mem_waiting.mpr ⟨i, hsame.symm.trans hi⟩)

/-- The rounds, one behind the other. -/
def Rounds (cfg : RetryConfig) (s : PostQueue) (r : Round) (s' : PostQueue) : Prop :=
    s' = s.step cfg r

/-- Each mail waits, or was reported and moved once, after rounds that are careful. -/
theorem fate_run {cfg : RetryConfig} {rs : List Round} {s : PostQueue}
    (h : Run (Guarded (fun s r => s.careful cfg r = true) (Rounds cfg)) init rs s) :
    ∀ k ∈ s.mails, (s.view k).Waits cfg ∨ (s.view k).Settled := by
  have hlaw : s.Law cfg := h.invariant
    (fun s r s' (hs : s.Law cfg) hstep => by
      rw [hstep.2]
      exact hs.step hstep.1)
    ⟨rfl, fun _ _ => rfl, fun _ hk => absurd hk List.not_mem_nil⟩
  exact fun k hk => (hlaw.fate k hk).imp_left fun ⟨_, hi⟩ => hi.waits

end PostQueue

/-! ### Two configurations -/

/-- Three retries, two minutes apart. -/
def threeRetries : RetryConfig := ⟨3, 120, by decide, by decide⟩

def mailName : Text := "/task/1381100000-7-1.200000000.3".toList

def mailContent : Text := "RCPT TO: <c@d.cn>\r\nDATA\r\n".toList

/-- The rounds of one mail: the server asks for a retry, then is not asked, then takes the mail. -/
def retriedOnce : List Round :=
  let round (got : Option Text) (flag t : Int) : Round :=
    ⟨got, true, fun _ => some mailContent, ⟨t, flag⟩, t, t, fun _ => ⟨t, flag⟩, le_rfl,
      fun _ => le_rfl⟩
  [round (some mailName) SMTP_RETRY 100, round none SMTP_OK 200, round none SMTP_OK 300]

theorem fate_run_retried : ∃ s : PostQueue, s.mails = [mailName] ∧ s.moves mailName = [true] ∧
    ∀ k ∈ s.mails, (s.view k).Waits threeRetries ∨ (s.view k).Settled := by
  have hrun : ((retriedOnce.foldlM (fun (s : PostQueue) r =>
      if s.careful threeRetries r then some (s.step threeRetries r) else none)
        PostQueue.init).any fun s =>
        s.mails == [mailName] && s.moves mailName == [true]) = true := by decide +kernel
  obtain ⟨s, hs, hend⟩ := (Option.any_eq_true _ _).mp hrun
  obtain ⟨hmails, hmoves⟩ := (Bool.and_eq_true _ _).mp hend
  have hrounds : Run (Guarded (fun s r => s.careful threeRetries r = true)
      (PostQueue.Rounds threeRetries)) PostQueue.init retriedOnce s :=
    (Run.of_checked (fun _ _ h => h) hs).mono fun _ _ _ h => ⟨h.1, (Option.some.inj h.2).symm⟩
  exact ⟨s, beq_iff_eq.mp hmails, beq_iff_eq.mp hmoves, PostQueue.fate_run hrounds⟩

/-- A mail is lost where no retries are wanted. -/
theorem dropped : ¬ ∀ (cfg : RetryConfig) (rs : List Round) (s : PostQueue),
    Run (PostQueue.Rounds cfg) PostQueue.init rs s →
      ∀ k ∈ s.mails, (s.view k).Waits cfg ∨ (s.view k).Settled := by
  intro h
  let round : Round := ⟨some mailName, true, fun _ => some mailContent, ⟨100, SMTP_RETRY⟩, 100, 100,
    fun _ => ⟨100, SMTP_OK⟩, le_rfl, fun _ => le_rfl⟩
  let cfg : RetryConfig := ⟨0, 120, by decide, by decide⟩
  have hmails : mailName ∈ (PostQueue.init.step cfg round).mails := by decide +kernel
  rcases h cfg [round] _ (.one rfl) mailName hmails with hwaits | hsettled
  · have hgone : ((PostQueue.init.step cfg round).view mailName).retry.isSome = false :=
      by decide +kernel
    exact Bool.false_ne_true (hgone.symm.trans hwaits.retry)
  · obtain ⟨report, hreport, -⟩ := hsettled.reported
    have hnone : ((PostQueue.init.step cfg round).view mailName).reports = [] := by decide +kernel
    rw [hnone] at hreport
    cases hreport

/-- A mail that cannot be read any more is reported without end. -/
example : (PostQueue.init.step threeRetries ⟨some mailName, true, fun _ => none,
    ⟨100, SMTP_FAIL⟩, 100, 100, fun _ => ⟨100, SMTP_OK⟩, le_rfl, fun _ => le_rfl⟩).hung = true := by
  decide +kernel

end Edm.Faceside
