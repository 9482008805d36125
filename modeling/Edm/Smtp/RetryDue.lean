import Edm.Smtp.RetryQueue

/-!
# Smtp — the tasks that are due

What `getRetryTasks` takes off the queue.  It looks from the front up to the first task that is not
due; on a long queue `std::advance` is given a negative distance.

* `iterate_stepBack`: a list is a ring with the end in it, and so many steps back lead to the
  iterator behind the first `g_queue_limit_size + 1` tasks.
* `getRetryTasks_steps`: the two lock sections of the retry thread, whatever is appended between
  them.
* `taken_iff`: the tasks taken are the right ones exactly if no task that is due is behind one that
  is not, and a long queue has at most `2 * g_queue_limit_size + 1` tasks.
-/

namespace Edm.Smtp
open Support

/-! ### Going back from the first task -/

/-- `--it` on a list of `size` elements, where the end is the element `size`. -/
def stepBack (size : Nat) : Nat → Nat
  | 0 => size
  | i + 1 => i

theorem iterate_stepBack {size n : Nat} (h : n ≤ size) : (stepBack size)^[n + 1] 0 = size - n := by
  induction n with
  | zero => rfl
  | succ n ih =>
      obtain ⟨i, hi⟩ := Nat.exists_eq_succ_of_ne_zero (n := size - n) (by omega)
      rw [Function.iterate_succ_apply', ih (by omega), hi, stepBack]
      omega

/-- `std::advance(task_it, (g_queue_limit_size - cur_queue_size))`. -/
theorem dueTasks_long {conf : RetryConf} {queue : List SmtpContext}
    (h : conf.gQueueLimitSize < queue.length) (now : Int) :
    dueTasks conf now queue
      = (stepBack queue.length)^[queue.length - conf.gQueueLimitSize] 0 := by
  obtain ⟨n, hn⟩ := Nat.exists_eq_succ_of_ne_zero (n := queue.length - conf.gQueueLimitSize)
    (by omega)
  rw [dueTasks, if_pos h, hn, iterate_stepBack (by omega)]
  omega

/-! ### What is taken -/

/-- `task.next_send_time <= now`. -/
def SmtpContext.due (now : Int) (task : SmtpContext) : Bool := decide (task.nextSendTime ≤ now)

/-- `getRetryTasks`: the tasks it takes, and those it leaves. -/
def getRetryTasks (conf : RetryConf) (now : Int) (queue : List SmtpContext) :
    List SmtpContext × List SmtpContext :=
  (queue.take (dueTasks conf now queue), queue.drop (dueTasks conf now queue))

theorem dueTasks_le (conf : RetryConf) (now : Int) (queue : List SmtpContext) :
    dueTasks conf now queue ≤ queue.length := by
  rw [dueTasks]
  split
  · omega
  · exact (List.takeWhile_prefix _).length_le

/-- What the count says is taken later.  Of what was put at the end meanwhile nothing is taken, or
all, if everything was to be taken. -/
theorem getRetryTasks_steps {svr : SmtpSvr} {relay : RelayConf} {conf : RetryConf}
    {s s₁ s₂ : RetryState} {now now₁ : Int} {more : List SmtpContext} {task_it : Option Nat}
    (hcount : retryAct svr relay conf s (.count now) = some s₁) (hpc : s₁.pc = .splicing task_it)
    (hsplice : retryAct svr relay conf
      { s₁ with keepRetryQueue := s₁.keepRetryQueue ++ more } (.splice now₁) = some s₂) :
    ∃ late left, late ++ left = more ∧
      (late = [] ∨ (getRetryTasks conf now s.keepRetryQueue).2 = []) ∧
      s₂.pc = .sending now₁ [] ((getRetryTasks conf now s.keepRetryQueue).1 ++ late) ∧
      s₂.keepRetryQueue = (getRetryTasks conf now s.keepRetryQueue).2 ++ left := by
  obtain ⟨hqueue, hit⟩ : s₁.keepRetryQueue = s.keepRetryQueue ∧
      task_it = taskIt conf now s.keepRetryQueue := by
    unfold retryAct at hcount
    dsimp only at hcount
    split at hcount
    · obtain rfl := Option.some.inj hcount
      refine ⟨rfl, ?_⟩
      dsimp only at hpc
      split at hpc
      · cases hpc
      · exact (RetryPc.splicing.inj hpc).symm
    · cases hcount
  have hle := dueTasks_le conf now s.keepRetryQueue
  rw [retryAct, hpc, hit] at hsplice
  obtain rfl := Option.some.inj hsplice
  dsimp only
  rw [hqueue, getRetryTasks, taskIt]
  split
  next hlt =>
    refine ⟨[], more, rfl, .inl rfl, ?_, ?_⟩
    · rw [Option.getD_some, List.take_append_of_le_length hle, List.append_nil]
    · rw [Option.getD_some, List.drop_append_of_le_length hle]
  next hend =>
    have hall := List.drop_eq_nil_of_le (Nat.le_of_not_lt hend)
    refine ⟨more, [], List.append_nil more, .inr hall, ?_, ?_⟩
    · rw [Option.getD_none, List.take_length, List.take_of_length_le (Nat.le_of_not_lt hend)]
    · rw [Option.getD_none, List.drop_length, hall, List.append_nil]

/-- The tasks that are due, and the others in their order; or, of a long queue, enough from its
front. -/
def Taken (conf : RetryConf) (now : Int) (queue : List SmtpContext)
    (r : List SmtpContext × List SmtpContext) : Prop :=
  if queue.length ≤ conf.gQueueLimitSize then
    r.1 = queue.filter (·.due now) ∧ r.2 = queue.filter fun task => !task.due now
  else r.1 ++ r.2 = queue ∧ r.2.length ≤ conf.gQueueLimitSize

/-- No task that is due is behind one that is not. -/
def DueFirst (now : Int) (queue : List SmtpContext) : Prop :=
  queue.Pairwise fun a b => b.due now = true → a.due now = true

theorem takeWhile_eq_filter_iff (now : Int) (queue : List SmtpContext) :
    queue.takeWhile (·.due now) = queue.filter (·.due now) ∧
        queue.dropWhile (·.due now) = (queue.filter fun task => !task.due now) ↔
      DueFirst now queue := by
  induction queue with
  | nil => simp [DueFirst]
  | cons task queue ih =>
      rw [DueFirst, List.pairwise_cons, ← DueFirst, ← ih]
      by_cases hdue : task.due now = true
      · simp [hdue]
      · -- the first task is not due, so that no other may be
        have hnone : (∀ b ∈ queue, b.due now = true → task.due now = true) ↔
            ∀ b ∈ queue, ¬ b.due now = true :=
          forall₂_congr fun b _ => ⟨fun h hb => hdue (h hb), fun h hb => absurd hb h⟩
        rw [hnone, List.takeWhile_cons_of_neg hdue, List.dropWhile_cons_of_neg hdue,
          List.filter_cons_of_neg hdue, List.filter_cons_of_pos (by simpa using hdue),
          eq_comm, List.filter_eq_nil_iff, List.cons_inj_right, eq_comm, List.filter_eq_self]
        refine ⟨fun h => ⟨h.1, ?_⟩, fun h => ⟨h.1, fun b hb => by simpa using h.1 b hb⟩⟩
        have hnot : ∀ b ∈ queue, (!b.due now) = true := fun b hb => by simpa using h.1 b hb
        rw [List.filter_eq_nil_iff.mpr h.1, List.filter_eq_self.mpr hnot]
        cases queue with
        | nil => exact ⟨rfl, rfl⟩
        | cons b queue =>
            have hb := h.1 b List.mem_cons_self
            exact ⟨List.takeWhile_cons_of_neg hb, List.dropWhile_cons_of_neg hb⟩

/-- `getRetryTasks` takes the right tasks. -/
theorem taken_iff (conf : RetryConf) (now : Int) (queue : List SmtpContext) :
    Taken conf now queue (getRetryTasks conf now queue) ↔
      if queue.length ≤ conf.gQueueLimitSize then DueFirst now queue
      else queue.length ≤ 2 * conf.gQueueLimitSize + 1 := by
  have hwhole : (getRetryTasks conf now queue).1 ++ (getRetryTasks conf now queue).2 = queue :=
    List.take_append_drop _ _
  rw [Taken]
  split
  next hle =>
    have hdue : dueTasks conf now queue = (queue.takeWhile (·.due now)).length := by
      rw [dueTasks, if_neg (Nat.not_lt.mpr hle)]
      rfl
    have htake : (getRetryTasks conf now queue).1 = queue.takeWhile (·.due now) := by
      rw [getRetryTasks, hdue]
      exact (List.prefix_iff_eq_take.mp (List.takeWhile_prefix _)).symm
    have hdrop : (getRetryTasks conf now queue).2 = queue.dropWhile (·.due now) := by
      have hsplit := hwhole.trans (List.takeWhile_append_dropWhile (p := (·.due now))).symm
      rw [htake] at hsplit
      exact List.append_cancel_left hsplit
    rw [htake, hdrop, takeWhile_eq_filter_iff]
  next hlt =>
    have hlen : (getRetryTasks conf now queue).2.length
        = queue.length - (conf.gQueueLimitSize + 1) := by
      rw [getRetryTasks, List.length_drop, dueTasks, if_pos (Nat.lt_of_not_le hlt)]
    rw [hlen]
    exact ⟨fun h => by omega, fun h => ⟨hwhole, by omega⟩⟩

/-- A task put back for later, and then one that is read from its file and due at once. -/
theorem due_not_taken : ¬ ∀ (conf : RetryConf) (now : Int) (queue : List SmtpContext),
    Taken conf now queue (getRetryTasks conf now queue) := by
  intro h
  have htaken := h plainRetry 0 [{ plainTask with nextSendTime := 300 }, plainTask]
  rw [Taken, if_pos (by decide)] at htaken
  have hlen := congrArg List.length htaken.1
  exact absurd hlen (by decide)

end Edm.Smtp
