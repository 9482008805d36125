import Edm.Support.Crlf
import Edm.Support.Split

/-!
# Deliver — Body

The message on the wire (`EmlSender::Send2Domain`, behind the 354 reply).  The client writes the
text as it is, and a line end, a dot and a line end behind it.  A receiver takes the first line
that is a dot for the end, and takes a leading dot from every line before; the client adds none.

`transparent_iff`: the receiver has the text again, and nothing more, exactly when no line of the
text starts with a dot.
-/

namespace Edm.Deliver
open Support

/-- `snprintf(pMsg, len+16, "%s%s", mail_text, "\r\n.\r\n")`; `len` is the size of the text. -/
def pMsg (mail_text : Text) : Text :=
  (cstr mail_text ++ "\r\n.\r\n".toList).take (mail_text.length + 15)

/-! ### The receiver -/

/-- A line without the dot in front. -/
def undot : Text → Text
  | '.' :: l => l
  | l => l

/-- Lines up to a line that is a dot: the text they are, and the text behind. -/
def receiveLines : List Text → Option (Text × Text)
  | [] => none
  | [_] => none
  | l :: l' :: ls =>
      if l = ['.'] then some ([], List.intercalate crlf (l' :: ls))
      else (receiveLines (l' :: ls)).map fun r => (undot l ++ (crlf ++ r.1), r.2)

/-- What a receiver makes of the bytes it reads: the message, and what is left over.  It is `none`
as long as the message has not ended. -/
def receive (s : Text) : Option (Text × Text) := receiveLines (crlfLines s)

example : receive "a\r\n..b\r\n.\r\nQUIT\r\n".toList
    = some ("a\r\n.b\r\n".toList, "QUIT\r\n".toList) := by
  decide

/-! ### The end of the message -/

theorem pMsg_eq (mail_text : Text) :
    pMsg mail_text = cstr mail_text ++ (crlf ++ ('.' :: crlf)) := by
  refine List.take_of_length_le ?_
  have hle : (cstr mail_text).length ≤ mail_text.length := (List.takeWhile_sublist _).length_le
  have h5 : ("\r\n.\r\n".toList).length = 5 := rfl
  rw [List.length_append, h5]
  omega

theorem crlfLines_pMsg (mail_text : Text) :
    crlfLines (pMsg mail_text) = crlfLines (cstr mail_text) ++ [['.'], []] := by
  rw [pMsg_eq, crlfLines_append]
  rfl

theorem length_undot_le (l : Text) : (undot l).length ≤ l.length := by
  rw [undot.eq_def]
  split
  · exact Nat.le_succ _
  · exact Nat.le_refl _

theorem receiveLines_cons {l : Text} {ls : List Text} (h : ls ≠ []) : receiveLines (l :: ls)
    = if l = ['.'] then some ([], List.intercalate crlf ls)
      else (receiveLines ls).map fun r => (undot l ++ (crlf ++ r.1), r.2) := by
  obtain ⟨l', ls, rfl⟩ := List.exists_cons_of_ne_nil h
  rfl

/-- No line comes out longer than it is. -/
theorem length_receiveLines {ls : List Text} {r : Text × Text}
    (h : receiveLines (ls ++ [['.'], []]) = some r) :
    r.1.length ≤ (ls.map (· ++ crlf)).flatten.length := by
  induction ls generalizing r with
  | nil =>
      cases h
      exact Nat.le_refl _
  | cons l ls ih =>
      rw [List.cons_append, receiveLines_cons (by simp)] at h
      split at h
      · cases h
        exact Nat.zero_le _
      · obtain ⟨r', hr', rfl⟩ := Option.map_eq_some_iff.mp h
        have h₁ := ih hr'
        have h₂ := length_undot_le l
        simp only [List.map_cons, List.flatten_cons, List.length_append] at h₁ ⊢
        omega

/-- The lines before the last dot come out as they are, and nothing is left, exactly when none of
them starts with a dot. -/
theorem receiveLines_iff (ls : List Text) :
    receiveLines (ls ++ [['.'], []]) = some ((ls.map (· ++ crlf)).flatten, []) ↔
      ∀ l ∈ ls, l.head? ≠ some '.' := by
  induction ls with
  | nil => exact iff_of_true rfl fun _ h => nomatch h
  | cons l ls ih =>
      rw [List.cons_append, receiveLines_cons (by simp), List.map_cons, List.flatten_cons,
        List.forall_mem_cons]
      by_cases hl : l.head? = some '.'
      · obtain ⟨l', rfl⟩ := List.head?_eq_some_iff.mp hl
        refine iff_of_false (fun h => ?_) fun h => h.1 hl
        split at h
        · exact nomatch h
        · obtain ⟨r, hr, h⟩ := Option.map_eq_some_iff.mp h
          have h₁ := length_receiveLines hr
          have h₂ := congrArg (fun r => r.1.length) h
          simp only [undot, List.length_append, List.length_cons] at h₂
          omega
      · have hne : l ≠ ['.'] := by
          rintro rfl
          exact hl rfl
        have hun : undot l = l := by
          rw [undot.eq_def]
          split
          · exact absurd rfl hl
          · rfl
        rw [if_neg hne, and_iff_right hl, ← ih, hun, List.append_assoc, Option.map_eq_some_iff]
        constructor
        · rintro ⟨⟨c, s⟩, hr, h⟩
          obtain ⟨hc, rfl⟩ := Prod.mk.inj h
          obtain rfl := List.append_cancel_left (List.append_cancel_left hc)
          exact hr
        · intro h
          exact ⟨_, h, rfl⟩

/-- The receiver has the text and a line end, and nothing is left over, exactly when the text has
no NUL and no line of it starts with a dot. -/
theorem transparent_iff (mail_text : Text) :
    receive (pMsg mail_text) = some (mail_text ++ crlf, []) ↔
      nul ∉ mail_text ∧ ∀ l ∈ crlfLines mail_text, l.head? ≠ some '.' := by
  rw [receive, crlfLines_pMsg]
  by_cases hnul : nul ∈ mail_text
  · refine iff_of_false (fun h => ?_) fun h => h.1 hnul
    -- What is written ends before the NUL, and nothing comes out longer than it was written.
    have h₁ := length_receiveLines h
    rw [flatten_crlfLines, List.length_append, List.length_append] at h₁
    obtain ⟨a, b, hs, ha⟩ := List.eq_append_cons_of_mem hnul
    have h₂ : cstr mail_text = a := by rw [hs, cstr_append ha]
    rw [h₂, hs, List.length_append, List.length_cons] at h₁
    omega
  · rw [cstr_self hnul, ← flatten_crlfLines, receiveLines_iff, and_iff_right hnul]

/-- A line `.b` comes out as `b`. -/
theorem leading_dot_lost :
    receive (pMsg "a\r\n.b".toList) ≠ some ("a\r\n.b".toList ++ crlf, []) := by
  decide

end Edm.Deliver
