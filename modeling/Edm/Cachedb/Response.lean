import Edm.Cachedb.ParseTask
import Edm.Support.Run

/-!
# Cachedb — Response

What `ParseRequest::Response` answers.  It goes by the member `m_ctype`, and there is one object
for all messages: the member is set by the tasks of a report and by a url event, and by nothing
else, so that the other messages are answered after the last of these.

`answered_iff`: each message of a sequence is answered by itself unless a domain report comes, or a
message that does not set the member where the answer left over is not its own.
-/

namespace Edm.Cachedb.Response

open Support

/-! ### The functions -/

/-- `m_ctype` behind `ParseMessage`.  Each task of a report sets it once more. -/
def ctypeAfter (m_ctype : Nat) (req : Text) : Nat :=
  let nCmd := word req 0
  if nCmd = 4 ∨ nCmd = 9 then (fun _ => 4)^[ofBe16 (req.drop 12)] m_ctype
  else if nCmd = 5 then 5
  else m_ctype

/-- `res`, with its length in front. -/
def message (ncmd : Int) : Text := be32 8 ++ be32 ncmd ++ List.replicate 4 nul

/-- What `Response` sends. -/
def response (m_ctype : Nat) : Text :=
  if m_ctype = 4 then message 4 else if m_ctype = 6 then message 6 else []

/-! ### What it is for -/

/-- The answer to a message by itself. -/
def answer (req : Text) : Text :=
  let nCmd := word req 0
  if nCmd = 4 ∨ nCmd = 9 then message 4
  else if nCmd = 6 ∨ nCmd = 7 ∨ nCmd = 8 then message 6
  else []

/-- Each message of a sequence, handled by a new object, is answered by itself. -/
def Answered (reqs : List Text) : Prop :=
  ∀ p ∈ visits ctypeAfter 0 reqs, response (ctypeAfter p.1 p.2) = answer p.2

instance (reqs : List Text) : Decidable (Answered reqs) :=
  inferInstanceAs (Decidable (∀ p ∈ visits ctypeAfter 0 reqs, _ = _))

/-- A report that has tasks, or comes while `m_ctype` is that of a task; a url event; and a message
of another kind while it is not. -/
def Apart (m_ctype : Nat) (req : Text) : Prop :=
  let nCmd := word req 0
  if nCmd = 4 ∨ nCmd = 9 then ofBe16 (req.drop 12) ≠ 0 ∨ m_ctype = 4
  else if nCmd = 5 then True
  else ¬ (nCmd = 6 ∨ nCmd = 7 ∨ nCmd = 8) ∧ m_ctype ≠ 4

/-! ### One message -/

variable {m_ctype : Nat} {req : Text}

theorem iterate_const {A : Type*} (a x : A) (n : Nat) :
    (fun _ : A => a)^[n] x = if n = 0 then x else a := by
  cases n with
  | zero => rfl
  | succ n => rw [Function.iterate_succ_apply', if_neg (by simp)]

theorem ctypeAfter_task (h : word req 0 = 4 ∨ word req 0 = 9) :
    ctypeAfter m_ctype req = if ofBe16 (req.drop 12) = 0 then m_ctype else 4 := by
  simp [ctypeAfter, h, iterate_const]

/-- No message sets the member to that of the domains. -/
theorem ctypeAfter_ne (h : m_ctype ≠ 6) : ctypeAfter m_ctype req ≠ 6 := by
  simp only [ctypeAfter, iterate_const]
  repeat' split
  all_goals simp [h]

theorem message_inj : message 4 ≠ message 6 ∧ message 4 ≠ [] ∧ message 6 ≠ [] := by decide

theorem response_eq_iff (h : m_ctype ≠ 6) :
    (response m_ctype = message 4 ↔ m_ctype = 4) ∧ response m_ctype ≠ message 6 ∧
      (response m_ctype = [] ↔ m_ctype ≠ 4) := by
  obtain ⟨hapart, htask, hdomain⟩ := message_inj
  by_cases h4 : m_ctype = 4
  · simp [response, h4, hapart, htask]
  · simp [response, h4, h, htask.symm, hdomain.symm]

/-- One message is answered by itself exactly when it is told apart. -/
theorem response_iff_apart (h : m_ctype ≠ 6) :
    response (ctypeAfter m_ctype req) = answer req ↔ Apart m_ctype req := by
  obtain ⟨htask, hdomain, hnone⟩ := response_eq_iff (ctypeAfter_ne h : ctypeAfter m_ctype req ≠ 6)
  simp only [answer, Apart]
  by_cases hcmd : word req 0 = 4 ∨ word req 0 = 9
  · rw [if_pos hcmd, if_pos hcmd, htask, ctypeAfter_task hcmd]
    split
    next hnum => simp [hnum]
    next hnum => simp [hnum]
  rw [if_neg hcmd, if_neg hcmd]
  by_cases hurl : word req 0 = 5
  · have hset : ctypeAfter m_ctype req = 5 := by simp [ctypeAfter, hurl]
    simpa [hurl] using hnone.mpr (by simp [hset])
  rw [if_neg hurl]
  have hkept : ctypeAfter m_ctype req = m_ctype := by simp [ctypeAfter, hcmd, hurl]
  by_cases hdom : word req 0 = 6 ∨ word req 0 = 7 ∨ word req 0 = 8
  · simp [hdom, hdomain]
  · rw [if_neg hdom, hnone, hkept]
    simp [hdom]

/-! ### All messages -/

/-- Along a sequence of messages each is answered by itself exactly when each is told apart. -/
theorem answered_iff (reqs : List Text) :
    Answered reqs ↔ ∀ p ∈ visits ctypeAfter 0 reqs, Apart p.1 p.2 :=
  forall_visits_iff_of_invariant (I := fun m_ctype => m_ctype ≠ 6)
    (P := fun m_ctype req => response (ctypeAfter m_ctype req) = answer req) (Q := Apart)
    (fun _ _ h => response_iff_apart h) (fun _ _ h _ => ctypeAfter_ne h) (by decide)

/-- A report of one task. -/
def taskReport : Text := be32 4 ++ List.replicate 8 nul ++ be16 1 ++ List.replicate 25 nul

/-- A report of a task that has sent nothing to any domain. -/
def domainReport : Text := be32 8 ++ List.replicate 16 nul

/-- The domain report gets the answer of the task report before it. -/
theorem domainReport_answered : ¬ Answered [taskReport, domainReport] ∧
    response (ctypeAfter (ctypeAfter 0 taskReport) domainReport) = message 4 := by
  decide +kernel

end Edm.Cachedb.Response
