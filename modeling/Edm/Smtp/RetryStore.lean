import Edm.Support.Path
import Edm.Smtp.Context

/-!
# Smtp — the files of the retry queue

A message that was not relayed is kept in a file below `g_mail_save_dir`, one directory a day.
`saveRetryTask` names the file after the second it was saved in, the process and a number
(`taskPath`), and writes what the retry needs of the session; `loadTaskFromFile` reads it back.

A scan spells the path of a file with a slash more than the save did, since `g_mail_save_dir` ends
with one, so files are compared by what the paths name (`resolvePath`).

* `resolvePath_taskPath_inj`: the second and the number determine the file.
-/

namespace Edm.Smtp
open Support

/-- What the retry queue reads of its configuration and of its process. -/
structure RetryConf where
  gMailSaveDir : Text
  /-- `onInit` puts the slash there. -/
  slash : ∃ d, gMailSaveDir = d ++ ['/']
  pid : Nat
  gQueueLimitSize : Nat
  gMaxFailCount : Int

/-! ### Naming a file -/

/-- The fields of `struct tm` a name is made of, `tm_year + 1900` and `tm_mon + 1` as printed. -/
structure LocalTime where
  year : Nat
  mon : Nat
  mday : Nat
  hour : Nat
  min : Nat
  sec : Nat
  mon_le : mon ≤ 12
  mday_le : mday ≤ 31
  hour_lt : hour < 24
  min_lt : min < 60
  sec_le : sec ≤ 60
  deriving DecidableEq

namespace LocalTime

/-- `"%04d%02d%02d"`. -/
def date (t : LocalTime) : Text := padded 4 t.year ++ (padded 2 t.mon ++ padded 2 t.mday)

/-- `"%02d%02d%02d"`. -/
def clock (t : LocalTime) : Text := padded 2 t.hour ++ (padded 2 t.min ++ padded 2 t.sec)

end LocalTime

/-- The directory of the day, as far as `char path[256]` holds it. -/
def taskDir (conf : RetryConf) (t : LocalTime) : Text :=
  (conf.gMailSaveDir ++ (t.date ++ ['/'])).take 255

/-- The name of the file in it. -/
def taskName (conf : RetryConf) (t : LocalTime) (sequeue : Nat) : Text :=
  "H".toList ++
    (t.clock ++ (".P".toList ++ (padded 5 conf.pid ++ (".S".toList ++ padded 6 sequeue))))

/-- The `file_path` of a task saved at `t` with the number `sequeue`. -/
def taskPath (conf : RetryConf) (t : LocalTime) (sequeue : Nat) : Text :=
  taskDir conf t ++ taskName conf t sequeue

/-- `path` holds the directory of the day. -/
def RetryConf.Fits (conf : RetryConf) (t : LocalTime) : Prop :=
  (conf.gMailSaveDir ++ (t.date ++ ['/'])).length ≤ 255

/-- The path a scan finds an entry under, as far as `snprintf(file_path, 511, ..)` writes it.  The
entry is spelled from `g_mail_save_dir` on. -/
def scanPath (conf : RetryConf) (entry : Text) : Text :=
  (conf.gMailSaveDir ++ ('/' :: entry)).take 510

/-! ### A saved session -/

/-- What `saveRetryTask` writes of a session. -/
structure TaskFile where
  curRetryCount : Int
  nextSendTime : Int
  bytesTotal : Int
  abSize : Int
  point : Int
  smtpHelo : Text
  smtpMail : Text
  smtpRcpt : Text
  smtpUser : Text
  smtpPswd : Text
  realSender : Text
  msgHeader : Text
  rcptDomain : Text
  xMid : Text
  mailData : Text
  deriving DecidableEq

/-- The lines of the buffer are written one behind the other. -/
def TaskFile.ofContext (ctx : SmtpContext) : TaskFile where
  curRetryCount := ctx.curRetryCount
  nextSendTime := ctx.nextSendTime
  bytesTotal := ctx.bytesTotal
  abSize := ctx.abSize
  point := ctx.point
  smtpHelo := ctx.smtpHelo
  smtpMail := ctx.smtpMail
  smtpRcpt := ctx.smtpRcpt
  smtpUser := ctx.smtpUser
  smtpPswd := ctx.smtpPswd
  realSender := ctx.realSender
  msgHeader := ctx.msgHeader
  rcptDomain := ctx.rcptDomain
  xMid := ctx.xMid
  mailData := ctx.sendbuffer.flatten

/-- `loadTaskFromFile`, for a file that can be read, at the time `now`. -/
def loadTaskFromFile (filePath : Text) (now : Int) (f : TaskFile) : SmtpContext where
  command := .zero
  nextSteps := []
  clientHost := []
  clientPort := 0
  remoteHandle := -1
  remotePort := 0
  remoteHost := []
  smtpHelo := f.smtpHelo
  smtpMail := f.smtpMail
  smtpRcpt := f.smtpRcpt
  smtpData := []
  smtpUser := f.smtpUser
  smtpPswd := f.smtpPswd
  realSender := f.realSender
  msgHeader := f.msgHeader
  rcptDomain := f.rcptDomain
  replyText := []
  xMid := f.xMid
  bytesTotal := f.bytesTotal
  point := f.point
  abSize := f.abSize
  sendbuffer := [f.mailData]
  listHistory := []
  filePath := filePath
  curRetryCount := f.curRetryCount
  nextSendTime := if f.nextSendTime < now then now else f.nextSendTime

/-! ### The name determines what it is made of -/

theorem padded_two_append_inj {m m' : Nat} {s s' : Text} (hm : m < 100) (hm' : m' < 100)
    (h : padded 2 m ++ s = padded 2 m' ++ s') : m = m' ∧ s = s' := by
  have hl : ∀ n, n < 100 → (padded 2 n).length = 2 := fun n hn => padded_length (by decide) hn
  obtain ⟨h₁, h₂⟩ := List.append_inj h (by rw [hl m hm, hl m' hm'])
  exact ⟨padded_inj h₁, h₂⟩

namespace LocalTime
variable {t t' : LocalTime}

theorem mon_lt (t : LocalTime) : t.mon < 100 := Nat.lt_of_le_of_lt t.mon_le (by decide)
theorem mday_lt (t : LocalTime) : t.mday < 100 := Nat.lt_of_le_of_lt t.mday_le (by decide)
theorem sec_lt (t : LocalTime) : t.sec < 100 := Nat.lt_of_le_of_lt t.sec_le (by decide)

theorem length_monthDay (t : LocalTime) : (padded 2 t.mon ++ padded 2 t.mday).length = 4 := by
  rw [List.length_append, padded_length (by decide) t.mon_lt, padded_length (by decide) t.mday_lt]

theorem length_clock (t : LocalTime) : t.clock.length = 6 := by
  rw [clock, List.length_append, List.length_append,
    padded_length (by decide) (Nat.lt_trans t.hour_lt (by decide)),
    padded_length (by decide) (Nat.lt_trans t.min_lt (by decide)),
    padded_length (by decide) t.sec_lt]

/-- A year of five digits only makes the date longer. -/
theorem date_inj (h : t.date = t'.date) : t.year = t'.year ∧ t.mon = t'.mon ∧ t.mday = t'.mday := by
  obtain ⟨hy, hmd⟩ := List.append_inj' h (by rw [length_monthDay, length_monthDay])
  obtain ⟨hm, hd⟩ := padded_two_append_inj t.mon_lt t'.mon_lt hmd
  exact ⟨padded_inj hy, hm, padded_inj hd⟩

theorem clock_inj (h : t.clock = t'.clock) :
    t.hour = t'.hour ∧ t.min = t'.min ∧ t.sec = t'.sec := by
  obtain ⟨hh, hms⟩ := padded_two_append_inj (Nat.lt_trans t.hour_lt (by decide))
    (Nat.lt_trans t'.hour_lt (by decide)) h
  obtain ⟨hm, hs⟩ := padded_two_append_inj (Nat.lt_trans t.min_lt (by decide))
    (Nat.lt_trans t'.min_lt (by decide)) hms
  exact ⟨hh, hm, padded_inj hs⟩

theorem ext_of (hd : t.date = t'.date) (hc : t.clock = t'.clock) : t = t' := by
  obtain ⟨h₁, h₂, h₃⟩ := date_inj hd
  obtain ⟨h₄, h₅, h₆⟩ := clock_inj hc
  cases t
  cases t'
  cases h₁
  cases h₂
  cases h₃
  cases h₄
  cases h₅
  cases h₆
  rfl

end LocalTime

section Name
variable {conf : RetryConf} {t t' : LocalTime} {n n' : Nat}

theorem slash_notMem_padded (w m : Nat) : '/' ∉ padded w m := fun h =>
  absurd (isDigit_of_mem_padded h) (by decide)

theorem slash_notMem_date (t : LocalTime) : '/' ∉ t.date := by
  simp only [LocalTime.date, List.mem_append, not_or]
  exact ⟨slash_notMem_padded _ _, slash_notMem_padded _ _, slash_notMem_padded _ _⟩

theorem slash_notMem_taskName (conf : RetryConf) (t : LocalTime) (n : Nat) :
    '/' ∉ taskName conf t n := by
  simp only [taskName, LocalTime.clock, List.mem_append, not_or]
  exact ⟨by decide, ⟨slash_notMem_padded _ _, slash_notMem_padded _ _, slash_notMem_padded _ _⟩,
    by decide, slash_notMem_padded _ _, by decide, slash_notMem_padded _ _⟩

theorem taskName_ne_nil (conf : RetryConf) (t : LocalTime) (n : Nat) : taskName conf t n ≠ [] :=
  List.append_ne_nil_of_left_ne_nil (by decide) _

theorem date_ne_nil (t : LocalTime) : t.date ≠ [] := fun h => by
  have := t.length_monthDay
  rw [(List.append_eq_nil_iff.mp h).2] at this
  cases this

theorem taskName_inj (h : taskName conf t n = taskName conf t' n') :
    t.clock = t'.clock ∧ n = n' := by
  obtain ⟨hc, hrest⟩ := List.append_inj (List.append_cancel_left h)
    (by rw [t.length_clock, t'.length_clock])
  have hn := List.append_cancel_left (List.append_cancel_left (List.append_cancel_left hrest))
  exact ⟨hc, padded_inj hn⟩

/-- The file of a task: below the save directory, the day and the name. -/
theorem resolvePath_taskPath (hf : conf.Fits t) : ∃ d, conf.gMailSaveDir = d ++ ['/'] ∧
    resolvePath (taskPath conf t n) =
      resolvePath (d ++ '/' :: (t.date ++ '/' :: taskName conf t n)) := by
  obtain ⟨d, hd⟩ := conf.slash
  refine ⟨d, hd, ?_⟩
  rw [taskPath, taskDir, List.take_of_length_le hf, hd]
  simp only [List.append_assoc, List.cons_append, List.nil_append]

/-- **The file of a task determines the second and the number it was named after.** -/
theorem resolvePath_taskPath_inj (hf : conf.Fits t) (hf' : conf.Fits t')
    (h : resolvePath (taskPath conf t n) = resolvePath (taskPath conf t' n')) :
    t = t' ∧ n = n' := by
  obtain ⟨d, hd, hp⟩ := resolvePath_taskPath (n := n) hf
  obtain ⟨d', hd', hp'⟩ := resolvePath_taskPath (n := n') hf'
  obtain rfl : d = d' := List.append_cancel_right (hd.symm.trans hd')
  have hname : ∀ (t : LocalTime) (n : Nat), components (t.date ++ '/' :: taskName conf t n) =
      [t.date, taskName conf t n] := fun t n => by
    rw [components_append, components_name (date_ne_nil t) (slash_notMem_date t),
      components_name (taskName_ne_nil conf t n) (slash_notMem_taskName conf t n)]
    rfl
  have hc := resolvePath_inj.mp (hp.symm.trans (h.trans hp'))
  rw [hname, hname, List.cons.injEq, List.cons.injEq] at hc
  obtain ⟨hclock, hn⟩ := taskName_inj hc.2.1
  exact ⟨LocalTime.ext_of hc.1 hclock, hn⟩

/-- A scan opens the file of the entry it found. -/
theorem resolvePath_scanPath {entry : Text}
    (hf : (conf.gMailSaveDir ++ '/' :: entry).length ≤ 510) :
    resolvePath (scanPath conf entry) = resolvePath (conf.gMailSaveDir ++ entry) := by
  obtain ⟨d, hd⟩ := conf.slash
  rw [scanPath, List.take_of_length_le hf, hd]
  simp only [List.append_assoc, List.cons_append, List.nil_append]
  exact resolvePath_slash d entry

/-- Two entries of the save directory are two files. -/
theorem entry_inj {a b : Text} (ha : Entry a) (hb : Entry b)
    (h : resolvePath (conf.gMailSaveDir ++ a) = resolvePath (conf.gMailSaveDir ++ b)) : a = b := by
  obtain ⟨d, hd⟩ := conf.slash
  rw [hd] at h
  simp only [List.append_assoc, List.cons_append, List.nil_append] at h
  exact ha.eq_of_components hb (resolvePath_inj.mp h)

end Name

end Edm.Smtp
