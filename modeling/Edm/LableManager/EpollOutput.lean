import Mathlib
import Edm.Support.CString

/-!
# LableManager — EpollOutput

`epoll_output` gives the response to `send`, piece by piece, on a socket that does not block.  The
label manager and `deliver_help` have a copy each.  They differ where the socket is full: the copy
of `deliver_help` returns and is called again, the one of the label manager leaves its loop and
closes the connection.

* `sendLoop_of_meets`, `sendLoop_stops`: where the loop is left before the whole response is sent.
* `closesWhole_iff`: the label manager closes a connection rightly when its socket is never full;
  `deliver_help` always does.
-/

namespace Edm.LableManager
open Support

/-! ### The code -/

/-- What `send` does: the socket takes bytes as long as it has room, or -1 is returned. -/
inductive Sent where
  | takes (room : Nat)
  | fails (errno : Nat)
  deriving DecidableEq

def EINTR : Nat := 4

/-- `EWOULDBLOCK` is the same number. -/
def EAGAIN : Nat := 11

/-- How the loop is left; `waits` is a loop whose next `send` is still to come. -/
inductive Left where
  | waits | whole | full | failed
  deriving DecidableEq

/-- The bytes that were taken, `sb_transfrred` of them, and what `send` did. -/
structure Output where
  sent : Text
  seen : List Sent
  left : Left
  deriving DecidableEq

def Output.see (o : Output) (r : Sent) : Output := { o with seen := r :: o.seen }

/-- The loop, over the `sb_bytes` bytes of the response. -/
def sendLoop (sendbuf sent : Text) : List Sent → Output
  | [] => ⟨sent, [], if sent.length < sendbuf.length then .waits else .whole⟩
  | r :: results =>
      if sent.length < sendbuf.length then
        match r with
        | .fails errno =>
            if errno = EINTR then (sendLoop sendbuf sent results).see r
            else if errno = EAGAIN then ⟨sent, [r], .full⟩
            else ⟨sent, [r], .failed⟩
        | .takes room =>
            let bytes := min room (sendbuf.length - sent.length)
            -- `case 0` is reached from above by the errors, and is left in the same way.
            if bytes = 0 then ⟨sent, [r], .failed⟩
            else (sendLoop sendbuf (sent ++ (sendbuf.drop sent.length).take bytes) results).see r
      else ⟨sent, [], .whole⟩

/-- How often `cleanup_task_context` is called, which closes the connection: an error calls it in
the loop and once more behind it. -/
def cleanups : Left → Nat
  | .waits => 0
  | .whole | .full => 1
  | .failed => 2

/-- `epoll_output`: the calls of `cleanup_task_context`. -/
def epollOutput (sendbuf : Option Text) (sent : Text) (results : List Sent) : Nat :=
  match sendbuf with
  | none => 1
  | some sendbuf => cleanups (sendLoop sendbuf sent results).left

end Edm.LableManager

namespace Edm.DeliverHelp
open Support LableManager

/-- The copy of `deliver_help` returns where the socket is full, and after an error. -/
def cleanups : Left → Nat
  | .waits | .full => 0
  | .whole | .failed => 1

/-- `epoll_output`: the calls of `cleanup_task_context`. -/
def epollOutput (sendbuf : Option Text) (sent : Text) (results : List Sent) : Nat :=
  match sendbuf with
  | none => 1
  | some sendbuf => cleanups (sendLoop sendbuf sent results).left

end Edm.DeliverHelp

namespace Edm.LableManager
open Support

/-! ### What is promised -/

/-- An error that ends a connection. -/
def Sent.Broken (r : Sent) : Prop := ∃ errno, r = .fails errno ∧ errno ≠ EINTR ∧ errno ≠ EAGAIN

/-- A copy closes a connection only when the whole response is sent, or the connection broken;
`t` bytes were sent before it was called. -/
def ClosesWhole (epoll_output : Option Text → Text → List Sent → Nat) (sendbuf : Text) (t : Nat)
    (results : List Sent) : Prop :=
  0 < epoll_output (some sendbuf) (sendbuf.take t) results →
    (sendLoop sendbuf (sendbuf.take t) results).sent = sendbuf ∨
      ∃ r ∈ (sendLoop sendbuf (sendbuf.take t) results).seen, r.Broken

/-- After such a `send` there is another one. -/
def Sent.GoesOn : Sent → Prop
  | .takes room => 0 < room
  | .fails errno => errno = EINTR

/-- The bytes that a socket takes. -/
def Sent.taken : Sent → Nat
  | .takes room => room
  | .fails _ => 0

/-- `send` does `r` before `length` bytes are taken. -/
def Meets (r : Sent) (length : Nat) (results : List Sent) : Prop :=
  ∃ before after, results = before ++ r :: after ∧ (∀ b ∈ before, b.GoesOn) ∧
    (before.map Sent.taken).sum < length

/-! ### Where the loop is left -/

theorem Meets.cons_iff {r b : Sent} {length : Nat} {results : List Sent} :
    Meets r length (b :: results) ↔
      0 < length ∧ (b = r ∨ b.GoesOn ∧ Meets r (length - b.taken) results) := by
  constructor
  · rintro ⟨_ | ⟨b', before⟩, after, hsplit, hbefore, hsum⟩
    · exact ⟨hsum, .inl (List.cons.inj hsplit).1⟩
    · rw [List.cons_append, List.cons.injEq] at hsplit
      obtain ⟨rfl, hsplit⟩ := hsplit
      obtain ⟨hb, hbefore⟩ := List.forall_mem_cons.mp hbefore
      rw [List.map_cons, List.sum_cons] at hsum
      exact ⟨by omega, .inr ⟨hb, before, after, hsplit, hbefore, by omega⟩⟩
  · rintro ⟨hpos, rfl | ⟨hb, before, after, rfl, hbefore, hsum⟩⟩
    · exact ⟨[], results, rfl, by simp, hpos⟩
    · refine ⟨b :: before, after, rfl, List.forall_mem_cons.mpr ⟨hb, hbefore⟩, ?_⟩
      rw [List.map_cons, List.sum_cons]
      omega

theorem not_meets_nil {r : Sent} {length : Nat} : ¬ Meets r length [] := by
  rintro ⟨before, after, hsplit, -⟩
  simp at hsplit

/-- The loop is at its end. -/
theorem sendLoop_whole (sent : Text) (results : List Sent) :
    sendLoop sent sent results = ⟨sent, [], .whole⟩ := by
  cases results with
  | nil => rw [sendLoop, if_neg (Nat.lt_irrefl _)]
  | cons r results => cases r <;> rw [sendLoop, if_neg (Nat.lt_irrefl _)]

/-- A `send` that lets the loop go on; `rest` is still to be sent. -/
theorem sendLoop_cons {sent rest : Text} {r : Sent} (hr : r.GoesOn) (hrest : rest ≠ [])
    (results : List Sent) :
    sendLoop (sent ++ rest) sent (r :: results)
      = (sendLoop (sent ++ rest) (sent ++ rest.take r.taken) results).see r := by
  have hpos := List.length_pos_iff.mpr hrest
  have hlt : sent.length < (sent ++ rest).length := by
    rw [List.length_append]
    omega
  cases r with
  | fails errno =>
      have herrno : errno = EINTR := hr
      rw [sendLoop, if_pos hlt, if_pos herrno, Sent.taken, List.take_zero, List.append_nil]
  | takes room =>
      have hroom : 0 < room := hr
      have hlen : (sent ++ rest).length - sent.length = rest.length := by
        rw [List.length_append, Nat.add_sub_cancel_left]
      rw [sendLoop, if_pos hlt, hlen]
      dsimp only
      rw [if_neg (by omega), List.drop_left, Sent.taken, ← List.take_eq_take_min]

/-- A `send` that ends it. -/
theorem sendLoop_end {sent rest : Text} {r : Sent} (hr : ¬ r.GoesOn) (hrest : rest ≠ [])
    (results : List Sent) :
    sendLoop (sent ++ rest) sent (r :: results)
      = ⟨sent, [r], if r = .fails EAGAIN then .full else .failed⟩ := by
  have hpos := List.length_pos_iff.mpr hrest
  have hlt : sent.length < (sent ++ rest).length := by
    rw [List.length_append]
    omega
  cases r with
  | fails errno =>
      have herrno : errno ≠ EINTR := hr
      rw [sendLoop, if_pos hlt, if_neg herrno]
      by_cases hfull : errno = EAGAIN
      · rw [if_pos hfull, if_pos (by rw [hfull])]
      · rw [if_neg hfull, if_neg (by rintro ⟨⟩; exact hfull rfl)]
  | takes room =>
      have hroom : room = 0 := Nat.eq_zero_of_not_pos hr
      rw [sendLoop, if_pos hlt]
      dsimp only
      rw [if_pos (by omega), if_neg (by rintro ⟨⟩)]

/-- What ends the loop is what it meets first. -/
theorem sendLoop_of_meets {r : Sent} (hr : ¬ r.GoesOn) {results : List Sent} :
    ∀ {sent rest : Text}, Meets r rest.length results →
      let o := sendLoop (sent ++ rest) sent results
      o.left = (if r = .fails EAGAIN then .full else .failed) ∧ o.sent ≠ sent ++ rest ∧
        r ∈ o.seen ∧ ∀ b ∈ o.seen, b = r ∨ b.GoesOn := by
  induction results with
  | nil => exact fun h => absurd h not_meets_nil
  | cons b results ih =>
      intro sent rest h
      obtain ⟨hpos, hfirst⟩ := Meets.cons_iff.mp h
      have hrest : rest ≠ [] := List.length_pos_iff.mp hpos
      dsimp only
      rcases hfirst with rfl | ⟨hb, hlater⟩
      · rw [sendLoop_end hr hrest]
        refine ⟨rfl, fun hsent => hrest ?_, List.mem_singleton_self _,
          fun c hc => .inl (List.mem_singleton.mp hc)⟩
        exact List.append_cancel_left ((List.append_nil sent).trans hsent).symm
      · -- The rest of the loop has the rest of the response to send.
        rw [← List.length_drop] at hlater
        have hstep := @ih (sent ++ rest.take b.taken) _ hlater
        rw [List.append_assoc, List.take_append_drop] at hstep
        rw [sendLoop_cons hb hrest]
        obtain ⟨hleft, hsent, hmem, hall⟩ := hstep
        refine ⟨hleft, hsent, List.mem_cons_of_mem _ hmem, fun c hc => ?_⟩
        rcases List.mem_cons.mp hc with rfl | hc
        · exact .inr hb
        · exact hall c hc

/-- The loop sends the whole response, or meets what ends it, or is still at it. -/
theorem sendLoop_stops (results : List Sent) : ∀ (sent rest : Text),
    let o := sendLoop (sent ++ rest) sent results
    o.left = .waits ∨ o.left = .whole ∧ o.sent = sent ++ rest ∨
      ∃ r : Sent, ¬ r.GoesOn ∧ Meets r rest.length results := by
  induction results with
  | nil =>
      intro sent rest
      cases rest with
      | nil =>
          rw [List.append_nil, sendLoop_whole]
          exact .inr (.inl ⟨rfl, rfl⟩)
      | cons c rest =>
          refine .inl ?_
          rw [sendLoop, if_pos]
          rw [List.length_append, List.length_cons]
          omega
  | cons b results ih =>
      intro sent rest
      by_cases hrest : rest = []
      · rw [hrest, List.append_nil, sendLoop_whole]
        exact .inr (.inl ⟨rfl, rfl⟩)
      · have hpos := List.length_pos_iff.mpr hrest
        by_cases hb : b.GoesOn
        · have hstep := ih (sent ++ rest.take b.taken) (rest.drop b.taken)
          rw [List.append_assoc, List.take_append_drop, List.length_drop] at hstep
          rw [sendLoop_cons hb hrest]
          refine hstep.imp id (Or.imp id ?_)
          rintro ⟨r, hr, hmeets⟩
          exact ⟨r, hr, Meets.cons_iff.mpr ⟨hpos, .inr ⟨hb, hmeets⟩⟩⟩
        · exact .inr (.inr ⟨b, hb, Meets.cons_iff.mpr ⟨hpos, .inl rfl⟩⟩)

/-! ### When a connection is closed -/

/-- What ends the loop is a full socket, nothing taken, or a broken connection. -/
theorem Sent.goesOn_cases (r : Sent) :
    r.GoesOn ∨ r = .fails EAGAIN ∨ r = .takes 0 ∨ r.Broken := by
  cases r with
  | takes room =>
      cases room with
      | zero => exact .inr (.inr (.inl rfl))
      | succ room => exact .inl (Nat.succ_pos room)
  | fails errno =>
      by_cases hintr : errno = EINTR
      · exact .inl hintr
      · by_cases hagain : errno = EAGAIN
        · exact .inr (.inl (by rw [hagain]))
        · exact .inr (.inr (.inr ⟨errno, rfl, hintr, hagain⟩))

/-- A copy of `epoll_output` that calls the cleanup `closes` times. -/
theorem closesWhole_iff_of_closes {epoll_output : Option Text → Text → List Sent → Nat}
    {closes : Left → Nat}
    (hcopy : ∀ sendbuf sent results,
      epoll_output (some sendbuf) sent results = closes (sendLoop sendbuf sent results).left)
    (hwaits : closes .waits = 0) (hfailed : 0 < closes .failed)
    (sendbuf : Text) (t : Nat) (results : List Sent) :
    ClosesWhole epoll_output sendbuf t results ↔
      (0 < closes .full → ¬ Meets (.fails EAGAIN) (sendbuf.length - t) results) ∧
        ¬ Meets (.takes 0) (sendbuf.length - t) results := by
  have hsplit := List.take_append_drop t sendbuf
  have hlen : (sendbuf.drop t).length = sendbuf.length - t := List.length_drop
  -- What ends the loop and is no error closes a connection wrongly.
  have hwrong : ∀ r : Sent, ¬ r.GoesOn → ¬ r.Broken → Meets r (sendbuf.length - t) results →
      0 < closes (if r = .fails EAGAIN then .full else .failed) →
      ¬ ClosesWhole epoll_output sendbuf t results := by
    intro r hr hbroken hmeets hcloses h
    rw [← hlen] at hmeets
    have hloop := @sendLoop_of_meets r hr results (sendbuf.take t) _ hmeets
    rw [hsplit] at hloop
    obtain ⟨hleft, hsent, -, hall⟩ := hloop
    rw [← hleft, ← hcopy] at hcloses
    rcases h hcloses with hwhole | ⟨b, hb, errno, rfl, hintr, hagain⟩
    · exact hsent hwhole
    · rcases hall _ hb with heq | hgoes
      · exact hbroken ⟨errno, heq.symm, hintr, hagain⟩
      · exact hintr hgoes
  constructor
  · intro h
    refine ⟨fun hfull hmeets => ?_, fun hmeets => ?_⟩
    · have hends : ¬ (Sent.fails EAGAIN).GoesOn := show EAGAIN ≠ EINTR by decide
      refine hwrong _ hends ?_ hmeets (by rwa [if_pos rfl]) h
      rintro ⟨errno, heq, -, hagain⟩
      exact hagain (Sent.fails.inj heq).symm
    · have hends : ¬ (Sent.takes 0).GoesOn := Nat.lt_irrefl 0
      refine hwrong _ hends ?_ hmeets (by rwa [if_neg (by rintro ⟨⟩)]) h
      rintro ⟨errno, heq, -⟩
      cases heq
  · rintro ⟨hfull, hzero⟩ hcloses
    have hstops := sendLoop_stops results (sendbuf.take t) (sendbuf.drop t)
    rw [hsplit] at hstops
    rw [hcopy] at hcloses
    rcases hstops with hwait | ⟨-, hwhole⟩ | ⟨r, hr, hmeets⟩
    · rw [hwait, hwaits] at hcloses
      exact absurd hcloses (Nat.lt_irrefl 0)
    · exact .inl hwhole
    · have hloop := @sendLoop_of_meets r hr results (sendbuf.take t) _ hmeets
      rw [hsplit] at hloop
      rw [hlen] at hmeets
      rcases r.goesOn_cases with hgoes | rfl | rfl | hbroken
      · exact absurd hgoes hr
      · rw [hloop.1, if_pos rfl] at hcloses
        exact absurd hmeets (hfull hcloses)
      · exact absurd hmeets hzero
      · exact .inr ⟨r, hloop.2.2.1, hbroken⟩

/-- The label manager closes a connection rightly exactly when its socket is not full before the
whole response is taken; the copy of `deliver_help`, called again or not, always does.  Neither
expects a `send` that takes nothing. -/
theorem closesWhole_iff (sendbuf : Text) (t : Nat) (results : List Sent) :
    (ClosesWhole epollOutput sendbuf t results ↔
        ¬ Meets (.fails EAGAIN) (sendbuf.length - t) results ∧
          ¬ Meets (.takes 0) (sendbuf.length - t) results) ∧
      (ClosesWhole DeliverHelp.epollOutput sendbuf t results ↔
        ¬ Meets (.takes 0) (sendbuf.length - t) results) := by
  constructor
  · have hcopy := @closesWhole_iff_of_closes epollOutput cleanups
      (fun _ _ _ => rfl) rfl (by decide) sendbuf t results
    exact hcopy.trans (and_congr_left' ⟨fun h => h (by decide), fun h _ => h⟩)
  · have hcopy := @closesWhole_iff_of_closes DeliverHelp.epollOutput DeliverHelp.cleanups
      (fun _ _ _ => rfl) rfl (by decide) sendbuf t results
    exact hcopy.trans ⟨fun h => h.2, fun h => ⟨fun hfull => absurd hfull (by decide), h⟩⟩

/-- One of two bytes is taken, the socket is full, and the connection is closed. -/
theorem closed_when_full :
    ¬ ∀ (sendbuf : Text) (results : List Sent), ClosesWhole epollOutput sendbuf 0 results := by
  intro h
  rcases h "ab".toList [.takes 1, .fails EAGAIN] (by decide) with hwhole | ⟨r, hr, hbroken⟩
  · revert hwhole
    decide
  · obtain ⟨errno, rfl, hintr, hagain⟩ := hbroken
    have hseen : Sent.fails errno ∈ [Sent.takes 1, .fails EAGAIN] := hr
    simp only [List.mem_cons, reduceCtorEq, Sent.fails.injEq, false_or, List.not_mem_nil,
      or_false] at hseen
    exact hagain hseen

end Edm.LableManager
