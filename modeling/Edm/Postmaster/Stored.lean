import Edm.Postmaster.Input

/-!
# Postmaster — Stored

What a client sends is what is handled, answered and stored.  The lines that the client has sent
and the server has not handled yet are a queue (`Queued`), whose bytes are those in the buffer and
on their way; only the last of them asks for a response (`Awaits`).  One line is handled by
`handle_queued`, the lines of a pass by `handleLines_queued`.

A line of a message is stored as it was sent, with its second dot (`dot_kept`).  `recv_n` forgets
what it has received when the client closes behind it, and what stands behind a blank line is
dropped with it; `stored_run` is about the runs without that (`Gentle`).
-/

namespace Edm.Postmaster
open Support

/-! ### Lines on their way -/

/-- A line that was sent and not handled yet; `owes`: it asks for a response. -/
structure Queued where
  body : Text
  data : Bool
  owes : Bool

namespace Queued

def text (l : Queued) : Text := l.body ++ ['\n']

def noted (l : Queued) : Text × Bool := (l.body, l.data)

end Queued

/-- The line without its line feed, and whether it was read as data. -/
def Exchange.noted (e : Exchange) : Text × Bool := (e.line.dropLast, e.reading == .data)

/-- A line of a message that does not end it. -/
structure Queued.Plain (l : Queued) : Prop where
  data : l.data = true
  owes : l.owes = false
  ne : l.text ≠ ".\n".toList ∧ l.text ≠ ".\r\n".toList

/-- The end of a message. -/
def endLine : Queued := ⟨".\r".toList, true, true⟩

/-- What a session may still be sent: in a message its lines and its end, or else blank lines and
then at most one that asks for a response. -/
inductive Awaits (ctx : Context) : List Queued → Prop where
  | none (h : ctx.forword = fwData) : Awaits ctx []
  | message (h : ctx.forword = fwData) {ls : List Queued} (hls : ∀ l ∈ ls, l.Plain) :
      Awaits ctx (ls ++ [endLine])
  | quiet (h : ctx.forword ≠ fwData) {ls : List Queued}
      (hls : ∀ l ∈ ls, l.data = false ∧ l.owes = false ∧ blank l.text = true ∧
        ctx.reading = .command) :
      Awaits ctx ls
  | asks (h : ctx.forword ≠ fwData) {ls : List Queued} {l : Queued}
      (hls : ∀ l ∈ ls, l.data = false ∧ l.owes = false ∧ blank l.text = true ∧
        ctx.reading = .command)
      (hdata : l.data = false) (howes : l.owes = true)
      (hl : blank l.text = false ∨ ctx.reading ≠ .command) :
      Awaits ctx (ls ++ [l])

/-- What is awaited depends on the mask. -/
theorem Awaits.congr {ctx ctx' : Context} {q : List Queued} (h : Awaits ctx q)
    (hf : ctx'.forword = ctx.forword) : Awaits ctx' q := by
  have hreading : ctx'.reading = ctx.reading := by
    rw [Context.reading, hf]
    rfl
  cases h with
  | none h => exact .none (hf.trans h)
  | message h hls => exact .message (hf.trans h) hls
  | quiet h hls =>
    rw [← hf] at h
    rw [← hreading] at hls
    exact .quiet h hls
  | asks h hls hdata howes hl =>
    rw [← hf] at h
    rw [← hreading] at hls hl
    exact .asks h hls hdata howes hl

/-- The first line of a queue. -/
inductive First (ctx : Context) (l : Queued) (q : List Queued) : Prop where
  | plain (hf : ctx.forword = fwData) (hl : l.Plain)
      (hq : ∃ ls, q = ls ++ [endLine] ∧ ∀ l ∈ ls, l.Plain)
  | finish (hf : ctx.forword = fwData) (hl : l = endLine) (hq : q = [])
  | blank (hr : ctx.reading = .command) (hl : l.data = false ∧ l.owes = false ∧ blank l.text = true)
      (hq : Awaits ctx q)
  | asks (hf : ctx.forword ≠ fwData) (hdata : l.data = false) (howes : l.owes = true)
      (hl : Postmaster.blank l.text = false ∨ ctx.reading ≠ .command) (hq : q = [])

theorem Awaits.first {ctx : Context} {l : Queued} {q : List Queued} (h : Awaits ctx (l :: q)) :
    First ctx l q := by
  generalize hq : l :: q = all at h
  cases h with
  | none hf => cases hq
  | @message hf ls hls =>
    cases ls with
    | nil =>
      obtain ⟨rfl, rfl⟩ := List.cons.inj hq
      exact .finish hf rfl rfl
    | cons l' ls =>
      obtain ⟨rfl, rfl⟩ := List.cons.inj hq
      exact .plain hf (hls l List.mem_cons_self)
        ⟨ls, rfl, fun l' hl' => hls l' (List.mem_cons_of_mem _ hl')⟩
  | quiet hf hls =>
    subst hq
    obtain ⟨hdata, howes, hblank, hr⟩ := hls l List.mem_cons_self
    exact .blank hr ⟨hdata, howes, hblank⟩
      (.quiet hf fun l' hl' => hls l' (List.mem_cons_of_mem _ hl'))
  | @asks hf ls last hls hdata howes hlast =>
    cases ls with
    | nil =>
      obtain ⟨rfl, rfl⟩ := List.cons.inj hq
      exact .asks hf hdata howes hlast rfl
    | cons l' ls =>
      obtain ⟨rfl, rfl⟩ := List.cons.inj hq
      obtain ⟨hdata', howes', hblank, hr⟩ := hls l List.mem_cons_self
      exact .blank hr ⟨hdata', howes', hblank⟩
        (.asks hf (fun l' hl' => hls l' (List.mem_cons_of_mem _ hl')) hdata howes hlast)

/-- The responses to lines. -/
def responses : List Text :=
  [esmtp221, esmtp235, esmtp250, esmtpU334, esmtpP334, esmtp354, esmtp501, esmtpH501, esmtpM501,
    esmtpR501, esmtp502, esmtp503]

/-- Each response is one line. -/
theorem response_line : ∀ r ∈ responses, r ≠ [] ∧ r.count '\n' = 1 ∧ endsLine r = true := by decide

/-! ### One line -/

section
variable {s : Storage} {now : Moment} {x x' : Session} {line : Text}

/-- A line is handled with its effect, and noted. -/
theorem handle_eq_some (hexit : x.ctx.forword ≠ fwExit) : ∃ x', x.handle s now line = some x' := by
  unfold Session.handle handleLine
  rw [if_neg hexit]
  split
  · exact ⟨_, rfl⟩
  · exact ⟨_, rfl⟩

theorem replies_of_handle (h : x.handle s now line = some x') :
    x'.log.flatMap Exchange.reply = x.log.flatMap Exchange.reply ++ x'.ctx.wtbuf := by
  obtain ⟨ctx', -, rfl⟩ := Option.map_eq_some_iff.mp h
  rw [List.flatMap_append, List.flatMap_singleton]

theorem step_of_handle (hempty : x.ctx.wtbuf = []) (h : x.handle s now line = some x') :
    x.step s (now, line) = some x' := by
  obtain ⟨⟨forword, follow, address, fdev, stored, wtbuf, cmds⟩, log⟩ := x
  obtain rfl : wtbuf = [] := hempty
  exact h

/-- A blank line does nothing. -/
theorem handle_blank (hr : x.ctx.reading = .command) (hb : blank line = true)
    (hempty : x.ctx.wtbuf = []) (h : x.handle s now line = some x') :
    x'.ctx = x.ctx ∧ x'.log = x.log ++ [⟨x.ctx.reading, line, []⟩] := by
  obtain ⟨hauth, hpass, hdata⟩ := reading_command_iff.mp hr
  obtain ⟨ctx', hline, rfl⟩ := Option.map_eq_some_iff.mp h
  have hlen : (skipBlanks (trimLine line)).length < 1 := by
    rw [blank, List.isEmpty_iff] at hb
    rw [hb]
    exact Nat.zero_lt_one
  unfold handleLine at hline
  rw [if_neg hdata, handlerRequestCommand, if_neg hauth, if_neg hpass, if_pos hlen] at hline
  split at hline
  · cases hline
  · obtain rfl := Option.some.inj hline
    exact ⟨rfl, by rw [hempty]⟩

/-- A line of a message is written as it came. -/
theorem handle_plain (hf : x.ctx.forword = fwData) (hfollow : x.ctx.follow ≠ .finish)
    (hne : line ≠ ".\n".toList ∧ line ≠ ".\r\n".toList) (h : x.handle s now line = some x') :
    ∃ follow, follow ≠ .finish ∧ x'.ctx =
        { x.ctx with follow := follow, fdev := x.ctx.fdev.map (· ++ line) } ∧
      x'.log = x.log ++ [⟨.data, line, x.ctx.wtbuf⟩] := by
  have hreading : x.ctx.reading = .data := reading_data_iff.mpr hf
  obtain ⟨ctx', hline, rfl⟩ := Option.map_eq_some_iff.mp h
  unfold handleLine at hline
  rw [if_neg (by rw [hf]; decide), if_pos hf] at hline
  obtain rfl := Option.some.inj hline
  rw [hreading]
  have hflags : lineFlags x.ctx.follow line ≠ .finish := by
    unfold lineFlags
    rw [if_neg (not_or.mpr hne)]
    split
    · decide
    · exact hfollow
  unfold handlerRequestData
  split
  next hover => exact absurd hover hflags
  next flags _ =>
    refine ⟨_, ?_, rfl, rfl⟩
    split
    · decide
    · exact hfollow

/-- The end of a message: the file is renamed. -/
theorem handle_over (hf : x.ctx.forword = fwData) (hend : line = ".\r\n".toList)
    (h : x.handle s now line = some x') :
    x'.ctx = { x.ctx with
        stored := x.ctx.stored ++
          (x.ctx.fdev.map fun file => (x.ctx.cmds.emlpath ++ "ml".toList, file)).toList
        fdev := none
        follow := .finish
        forword := maskEnd
        wtbuf := esmtp250 } ∧
      x'.log = x.log ++ [⟨.data, line, esmtp250⟩] := by
  have hreading : x.ctx.reading = .data := reading_data_iff.mpr hf
  obtain ⟨ctx', hline, rfl⟩ := Option.map_eq_some_iff.mp h
  unfold handleLine at hline
  rw [if_neg (by rw [hf]; decide), if_pos hf] at hline
  obtain rfl := Option.some.inj hline
  rw [hreading]
  unfold handlerRequestData lineFlags
  rw [if_pos (.inr hend)]
  exact ⟨rfl, rfl⟩

/-- Another line is answered once, and it stores nothing; DATA opens a file with the header. -/
theorem handle_asks (hf : x.ctx.forword ≠ fwData)
    (hl : blank line = false ∨ x.ctx.reading ≠ .command)
    (hempty : x.ctx.wtbuf = []) (h : x.handle s now line = some x') :
    x'.ctx.wtbuf ∈ responses ∧ x'.log = x.log ++ [⟨x.ctx.reading, line, x'.ctx.wtbuf⟩] ∧
      x'.ctx.stored = x.ctx.stored ∧
      (x'.ctx.forword = fwData → x'.ctx.follow = .header ∧ ∀ file, x'.ctx.fdev = some file →
        ∃ date, '\n' ∉ date ∧ file = receivedHeader x'.ctx.address x'.ctx.cmds.helo x'.ctx.cmds.mail
          x'.ctx.cmds.rcpt date) := by
  obtain ⟨hexit, heffect, hlog⟩ := step_cases (step_of_handle hempty h)
  obtain ⟨ctx', log'⟩ := x'
  dsimp only at heffect hlog ⊢
  have hnever : ∀ {fw : Nat}, fw ≠ fwData → fw = fwData → ctx'.follow = .header ∧ ∀ file,
      ctx'.fdev = some file → ∃ date, '\n' ∉ date ∧ file
        = receivedHeader ctx'.address ctx'.cmds.helo
        ctx'.cmds.mail ctx'.cmds.rcpt date := fun hne heq => absurd heq hne
  suffices hmain : ctx'.wtbuf ∈ responses ∧ ctx'.stored = x.ctx.stored ∧
      (ctx'.forword = fwData → ctx'.follow = .header ∧ ∀ file, ctx'.fdev = some file →
        ∃ date, '\n' ∉ date ∧ file = receivedHeader ctx'.address ctx'.cmds.helo ctx'.cmds.mail
          ctx'.cmds.rcpt date) from
    ⟨hmain.1, hlog, hmain.2.1, hmain.2.2⟩
  cases heffect with
  | user => exact ⟨show esmtpP334 ∈ responses by simp [responses], rfl, @hnever fwPass (by decide)⟩
  | pass => exact ⟨show esmtp235 ∈ responses by simp [responses], rfl, @hnever maskHelo (by decide)⟩
  | text hd => exact absurd hd hf
  | finish hd => exact absurd hd hf
  | command hr hc =>
    cases hc with
    | blank hb =>
      rcases hl with hl | hl
      · rw [blank, List.isEmpty_eq_false_iff, ← List.length_pos_iff] at hl
        omega
      · exact absurd hr hl
    | refused msg hmsg =>
      have hsub : [esmtp501, esmtpH501, esmtp502, esmtp503] ⊆ responses := by simp [responses]
      exact ⟨hsub hmsg, rfl, hnever hf⟩
    | helo =>
        exact ⟨show esmtp250 ∈ responses by simp [responses], rfl, @hnever maskHelo (by decide)⟩
    | auth =>
        exact ⟨show esmtpU334 ∈ responses by simp [responses], rfl, @hnever fwAuth (by decide)⟩
    | mail =>
        exact ⟨show esmtp250 ∈ responses by simp [responses], rfl, @hnever maskMail (by decide)⟩
    | badMail => exact ⟨show esmtpM501 ∈ responses by simp [responses], rfl, hnever hf⟩
    | rcpt =>
        exact ⟨show esmtp250 ∈ responses by simp [responses], rfl, @hnever maskRcpt (by decide)⟩
    | badRcpt => exact ⟨show esmtpR501 ∈ responses by simp [responses], rfl, hnever hf⟩
    | data =>
      obtain ⟨emlpath, fdev, heq, hheader⟩ := startStorage_eq s now { x.ctx with wtbuf := [] }
      refine ⟨show esmtp354 ∈ responses by simp [responses], ?_, fun _ =>
        ⟨rfl, fun file hfile => ⟨now.date, now.date_line, ?_⟩⟩⟩
      · rw [doData, heq]
        rfl
      · rw [doData, heq] at hfile ⊢
        exact hheader file hfile
    | rset =>
        exact ⟨show esmtp250 ∈ responses by simp [responses], rfl, @hnever maskHelo (by decide)⟩
    | noop => exact ⟨show esmtp250 ∈ responses by simp [responses], rfl, hnever hf⟩
    | quit => exact ⟨show esmtp221 ∈ responses by simp [responses], rfl, @hnever fwExit (by decide)⟩

end

/-! ### A session and what it may still be sent -/

/-- What was sent so far of the message that is being read is in its file, behind the header. -/
structure Writes (sent : List Piece) (ctx : Context) (q : List Queued)
    (done : List Text) : Prop where
  follow : ctx.follow ≠ .finish
  file : ∀ file, ctx.fdev = some file → ∃ date, '\n' ∉ date ∧ file =
    receivedHeader ctx.address ctx.cmds.helo ctx.cmds.mail ctx.cmds.rcpt date ++ done.flatten
  none : q = [] → done = []
  message : q ≠ [] → ∃ ls, sent.getLast? = some (.message ls) ∧
    (Piece.message ls).lines.map (fun l => l.1 ++ ['\n']) = done ++ q.map Queued.text

/-- The law of a session of which `n` responses are expected. -/
structure Law (sent : List Piece) (n : Nat) (x : Session) (q : List Queued) : Prop where
  polite : Polite x
  lines : sent.flatMap Piece.lines = x.log.map Exchange.noted ++ q.map Queued.noted
  response : ∀ e ∈ x.log, e.reply = [] ∨ e.reply ∈ responses
  answered : ∀ e ∈ x.log, e.reading ≠ .data → blank e.line = false → e.reply ∈ responses
  expects : n = 1 + (x.log.countP fun e => !e.reply.isEmpty) + q.countP Queued.owes
  heard : x.told <:+ esmtp220 ++ x.log.flatMap Exchange.reply
  awaits : Awaits x.ctx q
  message : x.ctx.forword = fwData → ∃ done, Writes sent x.ctx q done

/-- What handling lines does to the files: a message that is accepted is stored, if its file was
opened, and nothing else is. -/
structure Kept (sent : List Piece) (ctx ctx' : Context) : Prop where
  other : ¬ (ctx.forword = fwData ∧ ctx'.forword ≠ fwData) → ctx'.stored = ctx.stored
  accepted : ctx.forword = fwData → ctx'.forword ≠ fwData → ctx'.wtbuf = esmtp250 ∧
    ∃ ls date, sent.getLast? = some (.message ls) ∧ '\n' ∉ date ∧
      ctx'.stored = ctx.stored ++ (ctx.fdev.map fun _ => (ctx.cmds.emlpath ++ "ml".toList,
        receivedHeader ctx.address ctx.cmds.helo ctx.cmds.mail ctx.cmds.rcpt date ++
          ls.flatMap fun l => stuff l ++ crlf)).toList

theorem Kept.refl (sent : List Piece) (ctx : Context) : Kept sent ctx ctx :=
  ⟨fun _ => rfl, fun h h' => absurd h h'⟩

/-- The parts of the law that a line adds to. -/
theorem Law.note {sent : List Piece} {n : Nat} {x x' : Session} {l : Queued} {q : List Queued}
    (h : Law sent n x (l :: q)) {e : Exchange} (hlog : x'.log = x.log ++ [e]) (hpolite : Polite x')
    (hnoted : e.noted = l.noted) (hreply : if l.owes then e.reply ∈ responses else e.reply = [])
    (hanswered : e.reading ≠ .data → blank e.line = false → e.reply ∈ responses)
    (hawaits : Awaits x'.ctx q)
    (hmessage : x'.ctx.forword = fwData → ∃ done, Writes sent x'.ctx q done) : Law sent n x' q := by
  have hsome : ∀ msg ∈ responses, msg.isEmpty = false := fun msg hmsg =>
    List.isEmpty_eq_false_iff.mpr (response_line msg hmsg).1
  have hcases : (l.owes = false ∧ e.reply = []) ∨ (l.owes = true ∧ e.reply ∈ responses) := by
    cases howes : l.owes with
    | false =>
      rw [howes] at hreply
      exact .inl ⟨rfl, hreply⟩
    | true =>
      rw [howes] at hreply
      exact .inr ⟨rfl, hreply⟩
  refine ⟨hpolite, ?_, ?_, ?_, ?_, ?_, hawaits, hmessage⟩
  · rw [h.lines, hlog, List.map_append, List.map_singleton, hnoted, List.map_cons,
      List.append_assoc,
      List.singleton_append]
  · rw [hlog]
    intro d hd
    rcases List.mem_append.mp hd with hd | hd
    · exact h.response d hd
    · obtain rfl := List.mem_singleton.mp hd
      exact hcases.imp And.right And.right
  · rw [hlog]
    intro d hd
    rcases List.mem_append.mp hd with hd | hd
    · exact h.answered d hd
    · obtain rfl := List.mem_singleton.mp hd
      exact hanswered
  · rw [h.expects, hlog, List.countP_append, List.countP_cons, List.countP_singleton]
    rcases hcases with ⟨howes, hr⟩ | ⟨howes, hr⟩
    · rw [howes, hr]
      simp
    · rw [howes, hsome _ hr]
      simp
      omega
  · obtain ⟨ctx', log'⟩ := x'
    obtain rfl : log' = x.log ++ [e] := hlog
    rw [told_concat, List.flatMap_append, List.flatMap_singleton]
    rcases hcases with ⟨-, hr⟩ | ⟨-, hr⟩
    · rw [hr, List.append_nil]
      exact h.heard
    · rw [hsome _ hr, ← List.append_assoc]
      exact List.suffix_append _ _

section
variable {s : Storage} {now : Moment} {sent : List Piece} {n : Nat} {x x' : Session} {l : Queued}
  {q : List Queued}

theorem Law.plain (h : Law sent n x (l :: q)) (hf : x.ctx.forword = fwData) (hl : l.Plain)
    (hq : ∃ ls, q = ls ++ [endLine] ∧ ∀ l ∈ ls, l.Plain) (hempty : x.ctx.wtbuf = [])
    (hx : x.handle s now l.text = some x') : Law sent n x' q ∧ ∃ follow,
      x'.ctx = { x.ctx with follow := follow, fdev := x.ctx.fdev.map (· ++ l.text) } := by
  obtain ⟨done, hw⟩ := h.message hf
  obtain ⟨follow, hfollow, hctx, hlog⟩ := handle_plain hf hw.follow hl.ne hx
  obtain ⟨ls, rfl, hls⟩ := hq
  obtain ⟨ps, hlast, hlines⟩ := hw.message (List.cons_ne_nil _ _)
  have hf' : x'.ctx.forword = fwData := by
    rw [hctx]
    exact hf
  have hawaits : Awaits x'.ctx (ls ++ [endLine]) := .message hf' hls
  have hnoted : Exchange.noted ⟨.data, l.text, x.ctx.wtbuf⟩ = l.noted := by
    rw [Exchange.noted, Queued.noted, hl.data, Queued.text, List.dropLast_concat]
    rfl
  have hreply : if l.owes = true then x.ctx.wtbuf ∈ responses else x.ctx.wtbuf = [] := by
    rw [hl.owes, if_neg Bool.false_ne_true]
    exact hempty
  refine ⟨h.note hlog (h.polite.step (step_of_handle hempty hx)) hnoted hreply
    (fun hne => absurd rfl hne) hawaits fun _ => ⟨done ++ [l.text], ?_, ?_, ?_, ?_⟩, follow, hctx⟩
  · rw [hctx]
    exact hfollow
  · intro file hfile
    rw [hctx] at hfile ⊢
    obtain ⟨old, hold, rfl⟩ := Option.map_eq_some_iff.mp hfile
    obtain ⟨date, hdate, rfl⟩ := hw.file old hold
    refine ⟨date, hdate, ?_⟩
    rw [List.flatten_append, List.flatten_singleton, List.append_assoc]
  · intro hnil
    exact absurd hnil (List.append_ne_nil_of_right_ne_nil _ (List.cons_ne_nil _ _))
  · intro _
    refine ⟨ps, hlast, ?_⟩
    rw [hlines, List.map_cons, List.append_assoc, List.singleton_append]

theorem Law.finish (h : Law sent n x [endLine]) (hf : x.ctx.forword = fwData)
    (hempty : x.ctx.wtbuf = [])
    (hx : x.handle s now endLine.text = some x') :
    Law sent n x' [] ∧ Kept sent x.ctx x'.ctx ∧ x'.ctx.wtbuf ∈ responses := by
  obtain ⟨done, hw⟩ := h.message hf
  obtain ⟨hctx, hlog⟩ := handle_over hf rfl hx
  obtain ⟨ls, hlast, hlines⟩ := hw.message (List.cons_ne_nil _ _)
  have hf' : x'.ctx.forword = maskEnd := by rw [hctx]
  have hnotdata : x'.ctx.forword ≠ fwData := by
    rw [hf']
    decide
  have hlaw : Law sent n x' [] := by
    refine h.note hlog (h.polite.step (step_of_handle hempty hx)) (by decide) ?_
      (fun hne => absurd rfl hne)
      (.quiet hnotdata fun l hl => absurd hl List.not_mem_nil) fun hdata => absurd hdata hnotdata
    exact show esmtp250 ∈ responses by simp [responses]
  refine ⟨hlaw, ⟨fun hno => absurd ⟨hf, hnotdata⟩ hno, fun _ _ => ⟨by rw [hctx], ?_⟩⟩, ?_⟩
  · -- What was written is the message without its last line.
    have hdone : done.flatten = ls.flatMap fun l => stuff l ++ crlf := by
      rw [Piece.lines, List.map_append, List.map_singleton, List.map_singleton] at hlines
      rw [← List.append_inj_left' hlines rfl, List.map_map, List.flatMap_def]
      refine congrArg List.flatten (List.map_congr_left fun l _ => ?_)
      exact List.append_assoc _ _ _
    cases hfdev : x.ctx.fdev with
    | none => exact ⟨ls, [], hlast, List.not_mem_nil, by rw [hctx, hfdev]; rfl⟩
    | some file =>
      obtain ⟨date, hdate, rfl⟩ := hw.file file hfdev
      refine ⟨ls, date, hlast, hdate, ?_⟩
      rw [hctx, hfdev, hdone]
      rfl
  · rw [hctx]
    exact show esmtp250 ∈ responses by simp [responses]

theorem Law.blank (h : Law sent n x (l :: q)) (hr : x.ctx.reading = .command)
    (hl : l.data = false ∧ l.owes = false ∧ blank l.text = true) (hq : Awaits x.ctx q)
    (hempty : x.ctx.wtbuf = []) (hx : x.handle s now l.text = some x') :
    Law sent n x' q ∧ x'.ctx = x.ctx := by
  obtain ⟨hdata, howes, hblank⟩ := hl
  obtain ⟨hctx, hlog⟩ := handle_blank hr hblank hempty hx
  have hnoted : Exchange.noted ⟨x.ctx.reading, l.text, []⟩ = l.noted := by
    rw [Exchange.noted, Queued.noted, hdata, Queued.text, List.dropLast_concat, hr]
    rfl
  have hreply : if l.owes = true then ([] : Text) ∈ responses else ([] : Text) = [] := by
    rw [howes, if_neg Bool.false_ne_true]
  have hf := (reading_command_iff.mp hr).2.2
  refine ⟨h.note hlog (h.polite.step (step_of_handle hempty hx)) hnoted hreply ?_ ?_ ?_, hctx⟩
  · intro _ hno
    rw [hblank] at hno
    cases hno
  · rw [hctx]
    exact hq
  · rw [hctx]
    exact fun hdata => absurd hdata hf

theorem Law.asks (h : Law sent n x [l]) (hf : x.ctx.forword ≠ fwData) (hdata : l.data = false)
    (howes : l.owes = true) (hl : Postmaster.blank l.text = false ∨ x.ctx.reading ≠ .command)
    (hempty : x.ctx.wtbuf = []) (hx : x.handle s now l.text = some x') :
    Law sent n x' [] ∧ Kept sent x.ctx x'.ctx ∧ x'.ctx.wtbuf ∈ responses := by
  obtain ⟨hresponse, hlog, hstored, hopened⟩ := handle_asks hf hl hempty hx
  have hreading : x.ctx.reading ≠ .data := mt reading_data_iff.mp hf
  have hnoted : Exchange.noted ⟨x.ctx.reading, l.text, x'.ctx.wtbuf⟩ = l.noted := by
    rw [Exchange.noted, Queued.noted, hdata, Queued.text, List.dropLast_concat,
      beq_eq_false_iff_ne.mpr hreading]
  have hreply : if l.owes = true then x'.ctx.wtbuf ∈ responses else x'.ctx.wtbuf = [] := by
    rw [howes, if_pos rfl]
    exact hresponse
  refine ⟨h.note hlog (h.polite.step (step_of_handle hempty hx)) hnoted hreply
    (fun _ _ => hresponse) ?_ ?_,
    ⟨fun _ => hstored, fun hdata' => absurd hdata' hf⟩, hresponse⟩
  · by_cases hf' : x'.ctx.forword = fwData
    · exact .none hf'
    · exact .quiet hf' fun l hl => absurd hl List.not_mem_nil
  · intro hf'
    obtain ⟨hfollow, hheader⟩ := hopened hf'
    refine ⟨[], ?_, ?_, fun _ => rfl, fun hne => absurd rfl hne⟩
    · rw [hfollow]
      decide
    · intro file hfile
      obtain ⟨date, hdate, heq⟩ := hheader file hfile
      exact ⟨date, hdate, heq.trans (List.append_nil _).symm⟩

end

/-! ### One pass -/

/-- What the lines of a pass have done; `atEnd`: nothing stands behind them in the buffer. -/
structure Passed (sent : List Piece) (n : Nat) (x : Session) (q : List Queued) (atEnd : Prop)
    (x' : Session) (reset : Bool) : Prop where
  law : Law sent n x' q
  kept : Kept sent x.ctx x'.ctx
  replies : x'.log.flatMap Exchange.reply = x.log.flatMap Exchange.reply ++ x'.ctx.wtbuf
  silent : reset = false → x'.ctx.wtbuf = []
  atEnd : reset = true → atEnd
  response : x'.ctx.wtbuf = [] ∨ x'.ctx.wtbuf ∈ responses
  quit : x'.ctx.forword = fwExit → x'.ctx.wtbuf ≠ []

theorem handleLines_queued {s : Storage} {now : Moment} {sent : List Piece} {n : Nat} {atEnd : Prop}
    {q' : List Queued} (hend : q' = [] → atEnd) : ∀ {q : List Queued} {x : Session},
    Law sent n x (q ++ q') → x.ctx.wtbuf = [] → x.ctx.forword ≠ fwExit →
    (∀ l ls, q = l :: ls → x.ctx.reading = .command → blank l.text = true → ls = [] ∧ atEnd) →
    ∃ x' reset, handleLines s now (q.map Queued.text) x = some (x', reset) ∧
      Passed sent n x q' atEnd x' reset := by
  intro q
  induction q with
  | nil =>
    intro x h hempty hexit _
    refine ⟨x, false, rfl, h, Kept.refl _ _, ?_, fun _ => hempty, fun h =>
      Bool.noConfusion h, .inl hempty,
      fun hquit => absurd hquit hexit⟩
    rw [hempty, List.append_nil]
  | cons l q ih =>
    intro x h hempty hexit hblank
    obtain ⟨x', hx⟩ : ∃ x', _ = some x' := @handle_eq_some s now _ l.text hexit
    have hsome : ∀ msg ∈ responses, msg ≠ [] := fun msg hmsg => (response_line msg hmsg).1
    have hreplies := replies_of_handle hx
    have hstop : ∀ (hno : ¬ (x.ctx.forword = fwData ∧ x'.ctx.forword = fwData)),
        handleLines s now ((l :: q).map Queued.text) x = some (x', true) := by
      intro hno
      rw [List.map_cons, handleLines, hx]
      exact if_neg hno
    cases h.awaits.first with
    | plain hf hl hq =>
      obtain ⟨hlaw, follow, hctx⟩ := h.plain hf hl hq hempty hx
      have hf' : x'.ctx.forword = fwData := by
        rw [hctx]
        exact hf
      have hempty' : x'.ctx.wtbuf = [] := by
        rw [hctx]
        exact hempty
      have hnotexit : x'.ctx.forword ≠ fwExit := by
        rw [hf']
        decide
      have hnotcommand : x'.ctx.reading ≠ .command := by
        rw [reading_data_iff.mpr hf']
        decide
      obtain ⟨x'', reset, hrun, hp⟩ := ih hlaw hempty' hnotexit fun _ _ _ hr =>
          absurd hr hnotcommand
      refine ⟨x'', reset, ?_, hp.law, ?_, ?_, hp.silent, hp.atEnd, hp.response, hp.quit⟩
      · rw [List.map_cons, handleLines, hx]
        exact (if_pos ⟨hf, hf'⟩).trans hrun
      · -- The line has changed the open file alone.
        have hkept := hp.kept
        rw [hctx] at hkept
        refine ⟨hkept.other, fun h₀ h₁ => ?_⟩
        obtain ⟨hreply, ls, date, hlast, hdate, hstored⟩ := hkept.accepted h₀ h₁
        refine ⟨hreply, ls, date, hlast, hdate, hstored.trans ?_⟩
        rw [Option.map_map]
        rfl
      · rw [hp.replies, hreplies, hempty', List.append_nil]
    | finish hf hl hq =>
      subst hl
      obtain ⟨rfl, rfl⟩ := List.append_eq_nil_iff.mp hq
      obtain ⟨hlaw, hkept, hresponse⟩ := h.finish hf hempty hx
      have hno : ¬ (x.ctx.forword = fwData ∧ x'.ctx.forword = fwData) := by
        rintro ⟨-, hf'⟩
        rw [(handle_over hf rfl hx).1] at hf'
        exact absurd hf' (show maskEnd ≠ fwData by decide)
      exact ⟨x', true, hstop hno, hlaw, hkept, hreplies, fun h => Bool.noConfusion h,
        fun _ => hend rfl,
        .inr hresponse, fun _ => hsome _ hresponse⟩
    | blank hr hl hq =>
      obtain ⟨rfl, hat⟩ := hblank l q rfl hr hl.2.2
      obtain ⟨hlaw, hctx⟩ := h.blank hr hl hq hempty hx
      have hno : ¬ (x.ctx.forword = fwData ∧ x'.ctx.forword = fwData) :=
        fun hboth => (reading_command_iff.mp hr).2.2 hboth.1
      refine ⟨x', true, hstop hno, hlaw, ?_, hreplies, fun h => Bool.noConfusion h,
        fun _ => hat, ?_, ?_⟩
      · rw [hctx]
        exact Kept.refl _ _
      · rw [hctx]
        exact .inl hempty
      · rw [hctx]
        exact fun hquit => absurd hquit hexit
    | asks hf hdata howes hl hq =>
      obtain ⟨rfl, rfl⟩ := List.append_eq_nil_iff.mp hq
      obtain ⟨hlaw, hkept, hresponse⟩ := h.asks hf hdata howes hl hempty hx
      have hno : ¬ (x.ctx.forword = fwData ∧ x'.ctx.forword = fwData) := fun hboth => hf hboth.1
      exact ⟨x', true, hstop hno, hlaw, hkept, hreplies, fun h => Bool.noConfusion h,
        fun _ => hend rfl,
        .inr hresponse, fun _ => hsome _ hresponse⟩

/-! ### A connection -/

/-- What is known of an open connection: the lines on their way are what is in the buffer and
pending, and what the client was told, with what it is still to be told, are the responses to the
lines before. -/
structure Flow (c : Connection) (q : List Queued) : Prop where
  law : Law c.sent c.expects c.session q
  stream : c.rdbuf ++ c.pending = q.flatMap Queued.text
  short : ∀ l ∈ q, '\n' ∉ l.body ∧ l.body.length < rwbufSize
  part : '\n' ∉ c.rdbuf
  replies : c.told ++ c.session.ctx.wtbuf = esmtp220 ++ c.session.log.flatMap Exchange.reply
  ends : endsLine c.session.ctx.wtbuf = true
  quit : c.session.ctx.forword = fwExit → c.session.ctx.wtbuf ≠ []

/-- Every line that was handled is the next one the client has sent, read as what the client meant
it to be; on an open connection the bytes in the buffer and on their way are the lines behind
these.  The client was told, or will be, the responses to them in order, and each command has one.
-/
structure Meant (c : Connection) : Prop where
  lines : c.session.log.map Exchange.noted <+: c.sent.flatMap Piece.lines
  waiting : c.opened = true → ∃ rest, '\n' ∉ c.rdbuf ∧
    c.sent.flatMap Piece.lines = c.session.log.map Exchange.noted ++ rest ∧
      c.rdbuf ++ c.pending = rest.flatMap fun l => l.1 ++ ['\n']
  replies : c.told ++ c.session.ctx.wtbuf = esmtp220 ++ c.session.log.flatMap Exchange.reply
  answered : ∀ e ∈ c.session.log, e.reading ≠ .data → blank e.line = false → e.reply ∈ responses

theorem Flow.meant {c : Connection} {q : List Queued} (h : Flow c q) : Meant c where
  lines := by
    rw [h.law.lines]
    exact List.prefix_append _ _
  waiting _ := by
    refine ⟨q.map Queued.noted, h.part, h.law.lines, ?_⟩
    rw [h.stream, List.flatMap_map]
    rfl
  replies := h.replies
  answered := h.law.answered

theorem flow_accepted (address : BitVec 32) : Flow (.accepted address) [] where
  law :=
    { polite := polite_accepted address
      lines := rfl
      response := fun e he => absurd he List.not_mem_nil
      answered := fun e he => absurd he List.not_mem_nil
      expects := rfl
      heard := List.suffix_rfl
      awaits := .quiet (show maskNew ≠ fwData by decide) fun l hl => absurd hl List.not_mem_nil
      message := fun h => absurd h (show maskNew ≠ fwData by decide) }
  stream := rfl
  short l hl := absurd hl List.not_mem_nil
  part := List.not_mem_nil
  replies := rfl
  ends := show endsLine esmtp220 = true by decide
  quit _ := show esmtp220 ≠ [] by decide

/-! ### The client's side -/

/-- The responses are counted by their line feeds. -/
theorem count_replies {log : List Exchange} (h : ∀ e ∈ log, e.reply = [] ∨ e.reply ∈ responses) :
    (log.flatMap Exchange.reply).count '\n' = log.countP fun e => !e.reply.isEmpty := by
  induction log with
  | nil => rfl
  | cons e log ih =>
    have ih := ih fun d hd => h d (List.mem_cons_of_mem _ hd)
    rw [List.flatMap_cons, List.count_append, ih, List.countP_cons]
    rcases h e List.mem_cons_self with hr | hr
    · rw [hr]
      simp
    · obtain ⟨hne, hc, -⟩ := response_line _ hr
      rw [hc, List.isEmpty_eq_false_iff.mpr hne]
      simp
      omega

/-- A client that may send has been told everything, and nothing on its way asks for a response. -/
theorem Flow.idle {c : Connection} {q : List Queued} {p : Piece} (h : Flow c q) (hp : c.MaySend p) :
    c.session.ctx.wtbuf = [] ∧ ∀ l ∈ q, l.owes = false := by
  have hgreeting : esmtp220.count '\n' = 1 := by decide
  have hcount := congrArg (List.count '\n') h.replies
  rw [List.count_append, List.count_append, hgreeting, count_replies h.law.response, hp.2.1,
    h.law.expects] at hcount
  constructor
  · by_contra hne
    have hends := h.ends
    rw [endsLine, List.getLast?_eq_some_getLast hne, Option.all_some, beq_iff_eq] at hends
    have hmem : '\n' ∈ c.session.ctx.wtbuf := hends ▸ List.getLast_mem hne
    have := List.count_pos_iff.mpr hmem
    omega
  · intro l hl
    by_contra howes
    have hpos : 0 < q.countP Queued.owes := List.countP_pos_iff.mpr ⟨l, hl, by simpa using howes⟩
    omega

theorem told_mem {x : Session} (h : ∀ e ∈ x.log, e.reply = [] ∨ e.reply ∈ responses) :
    x.told ∈ esmtp220 :: responses := by
  have hlast : x.told ∈ esmtp220 :: (x.log.map Exchange.reply).filter fun r => !r.isEmpty :=
    List.getLastD_mem_cons
  rcases List.mem_cons.mp hlast with hfirst | hmem
  · rw [hfirst]
    exact List.mem_cons_self
  · obtain ⟨hmap, hne⟩ := List.mem_filter.mp hmem
    obtain ⟨e, he, hreply⟩ := List.mem_map.mp hmap
    rcases h e he with hnil | hr
    · rw [← hreply, hnil] at hne
      cases hne
    · rw [← hreply]
      exact List.mem_cons_of_mem _ hr

/-- The client knows the last response by how what it was told ends. -/
theorem Flow.suffix_iff {c : Connection} {q : List Queued} (h : Flow c q)
    (hempty : c.session.ctx.wtbuf = [])
    {r : Text} (hr : r ∈ [esmtp354, esmtpU334, esmtpP334]) : r <:+ c.told ↔ c.session.told = r := by
  have hall : ∀ r ∈ [esmtp354, esmtpU334, esmtpP334], ∀ r' ∈ esmtp220 :: responses,
      r <:+ r' ∨ r' <:+ r → r' = r := by decide
  have hheard : c.session.told <:+ c.told := by
    have := h.replies
    rw [hempty, List.append_nil] at this
    rw [this]
    exact h.law.heard
  constructor
  · intro hs
    exact hall r hr _ (told_mem h.law.response) (List.suffix_or_suffix_of_suffix hs hheard)
  · rintro rfl
    exact hheard

/-- The lines of a message, as they are queued. -/
def queueMessage (ls : List Text) : List Queued :=
  ls.map (fun l => ⟨stuff l ++ ['\r'], true, false⟩) ++ [endLine]

theorem plain_stuff (l : Text) : Queued.Plain ⟨stuff l ++ ['\r'], true, false⟩ := by
  refine ⟨rfl, rfl, ?_⟩
  have htext : Queued.text ⟨stuff l ++ ['\r'], true, false⟩ = stuff l ++ crlf :=
    List.append_assoc _ _ _
  rw [htext, stuff]
  cases l with
  | nil => exact ⟨by decide, by decide⟩
  | cons a l =>
    -- What starts with a dot starts with two.
    by_cases ha : a = '.'
    · subst ha
      rw [if_pos (show ('.' :: l).head? = some '.' from rfl)]
      constructor <;> intro h <;> have h := (List.cons.inj (List.cons.inj h).2).1 <;> cases h
    · rw [if_neg (by simpa using ha)]
      constructor <;> intro h <;> exact ha (List.cons.inj h).1

theorem map_noted_queueMessage (ls : List Text) :
    (queueMessage ls).map Queued.noted = (Piece.message ls).lines := by
  rw [queueMessage, Piece.lines, List.map_append, List.map_map]
  rfl

/-- A line is sent. -/
theorem Flow.sendLine {c : Connection} {q : List Queued} {text : Text} (h : Flow c q)
    (hp : c.MaySend (.line text)) (hfits : (Piece.line text).Fits) :
    Flow { c with
      pending := c.pending ++ (Piece.line text).text
      sent := c.sent ++ [.line text]
      expects := c.expects + c.asks (.line text) }
      (q ++ [⟨text ++ ['\r'], false, decide (c.Asked ∨ blank (text ++ crlf) = false)⟩]) := by
  obtain ⟨hempty, hquiet⟩ := h.idle hp
  have hf : c.session.ctx.forword ≠ fwData := by
    intro hf
    exact hp.2.2 ((h.suffix_iff hempty (by decide)).mpr (h.law.polite.data.mpr hf))
  have hasked : c.Asked ↔ c.session.ctx.reading ≠ .command := by
    rw [Connection.Asked, h.suffix_iff hempty (by decide), h.suffix_iff hempty (by decide),
      h.law.polite.user, h.law.polite.pass, ne_eq, reading_command_iff]
    have := hf
    tauto
  have htext : ∀ owes, Queued.text ⟨text ++ ['\r'], false, owes⟩ = text ++ crlf :=
    fun _ => List.append_assoc _ _ _
  have hawaits : ∀ l ∈ q, l.data = false ∧ l.owes = false ∧ blank l.text = true ∧
      c.session.ctx.reading = .command := by
    have hq := h.law.awaits
    cases hq with
    | none hf' => exact fun l hl => absurd hl List.not_mem_nil
    | message hf' => exact absurd hf' hf
    | quiet _ hls => exact hls
    | @asks _ ls l _ _ howes _ =>
      have := hquiet l (List.mem_append_right _ List.mem_cons_self)
      rw [howes] at this
      cases this
  refine ⟨⟨h.law.polite, ?_, h.law.response, h.law.answered, ?_, h.law.heard, ?_, fun hf' =>
    absurd hf' hf⟩, ?_,
    ?_, h.part, h.replies, h.ends, h.quit⟩
  · rw [List.flatMap_append, h.law.lines, List.map_append, List.append_assoc]
    rfl
  · rw [List.countP_append, ← Nat.add_assoc, ← h.law.expects, List.countP_singleton,
      Connection.asks]
    simp only [decide_eq_true_eq]
  · by_cases howes : c.Asked ∨ blank (text ++ crlf) = false
    · rw [decide_eq_true howes]
      refine .asks hf hawaits rfl rfl ?_
      rw [htext, ← hasked]
      exact howes.symm
    · rw [decide_eq_false howes]
      obtain ⟨hno, hblank⟩ := not_or.mp howes
      refine .quiet hf fun l hl => ?_
      rcases List.mem_append.mp hl with hl | hl
      · exact hawaits l hl
      · obtain rfl := List.mem_singleton.mp hl
        refine ⟨rfl, rfl, ?_, by_contra fun hr => hno (hasked.mpr hr)⟩
        rw [htext]
        simpa using hblank
  · rw [← List.append_assoc, h.stream, List.flatMap_append, List.flatMap_singleton, Piece.text,
      Piece.lines, List.flatMap_singleton]
    rfl
  · intro l hl
    rcases List.mem_append.mp hl with hl | hl
    · exact h.short l hl
    · obtain rfl := List.mem_singleton.mp hl
      exact hfits _ List.mem_cons_self

/-- A message is sent. -/
theorem Flow.sendMessage {c : Connection} {q : List Queued} {ls : List Text} (h : Flow c q)
    (hp : c.MaySend (.message ls)) (hfits : (Piece.message ls).Fits) :
    Flow { c with
      pending := c.pending ++ (Piece.message ls).text
      sent := c.sent ++ [.message ls]
      expects := c.expects + c.asks (.message ls) } (queueMessage ls) := by
  obtain ⟨hempty, hquiet⟩ := h.idle hp
  have hf : c.session.ctx.forword = fwData :=
    h.law.polite.data.mp ((h.suffix_iff hempty (by decide)).mp hp.2.2)
  have hnil : q = [] := by
    have hq := h.law.awaits
    cases hq with
    | none => rfl
    | message =>
      have := hquiet endLine (List.mem_append_right _ List.mem_cons_self)
      cases this
    | quiet hf' => exact absurd hf hf'
    | asks hf' => exact absurd hf hf'
  subst hnil
  obtain ⟨done, hw⟩ := h.law.message hf
  obtain rfl := hw.none rfl
  have hlines := map_noted_queueMessage ls
  refine ⟨⟨h.law.polite, ?_, h.law.response, h.law.answered, ?_, h.law.heard, ?_,
    fun _ => ⟨[], hw.follow,
    hw.file, ?_, ?_⟩⟩, ?_, ?_, h.part, h.replies, h.ends, h.quit⟩
  · rw [List.flatMap_append, h.law.lines, List.flatMap_singleton, ← hlines, List.map_nil,
      List.append_nil]
  · have hcount : (queueMessage ls).countP Queued.owes = 1 := by
      rw [queueMessage, List.countP_append, List.countP_singleton, List.countP_eq_zero.mpr]
      · rfl
      · intro l hl
        obtain ⟨t, -, rfl⟩ := List.mem_map.mp hl
        exact Bool.false_ne_true
    have hexpects := h.law.expects
    rw [hcount, Connection.asks]
    rw [List.countP_nil] at hexpects
    dsimp only
    omega
  · refine .message hf fun l hl => ?_
    obtain ⟨t, -, rfl⟩ := List.mem_map.mp hl
    exact plain_stuff t
  · intro hno
    exact absurd hno (List.append_ne_nil_of_right_ne_nil _ (List.cons_ne_nil _ _))
  · intro _
    refine ⟨ls, List.getLast?_concat, ?_⟩
    rw [← hlines, List.map_map]
    rfl
  · rw [← List.append_assoc, h.stream, List.flatMap_nil, List.nil_append, Piece.text, ← hlines,
      List.flatMap_map]
    rfl
  · intro l hl
    have hmem : l.noted ∈ (Piece.message ls).lines := by
      rw [← hlines]
      exact List.mem_map_of_mem hl
    exact hfits _ hmem

/-! ### Runs -/

/-- The steps of a connection. -/
def Steps (s : Storage) (c : Connection) (act : Act) (c' : Connection) : Prop :=
    c.step s act = some c'

/-- No close or error is found by a call of `recv_n` that has received something, and nothing is
in the buffer behind a blank command line. -/
def Gentle (c : Connection) : Act → Prop
  | .input _ recvs _ =>
      let r := c.received recvs
      (r.ended = .closed ∨ r.ended = .error → r.got = []) ∧
        (c.session.ctx.reading = .command → ∀ line ∈ (completeLines (c.rdbuf ++ r.got)).head?,
          blank (line ++ ['\n']) = true → c.rdbuf ++ r.got = line ++ ['\n'])
  | _ => True

instance (c : Connection) (act : Act) : Decidable (Gentle c act) := by
  cases act <;> delta Gentle <;> infer_instance

/-- A part of a line fits the buffer. -/
theorem Flow.room {c : Connection} {q : List Queued} (h : Flow c q) :
    c.rdbuf.length < rwbufSize := by
  have hstream := h.stream
  cases q with
  | nil =>
    rw [(List.append_eq_nil_iff.mp hstream).1]
    decide
  | cons l q =>
    obtain ⟨hbody, hlen⟩ := h.short l List.mem_cons_self
    by_contra hroom
    rw [List.flatMap_cons, Queued.text, List.append_assoc, List.singleton_append] at hstream
    -- The line feed of the first line would be in the buffer.
    have hstart : l.body ++ ['\n'] <+: c.rdbuf := by
      refine List.prefix_of_prefix_length_le ?_ (List.prefix_append c.rdbuf c.pending) ?_
      · rw [hstream]
        exact ⟨q.flatMap Queued.text, by rw [List.append_assoc, List.singleton_append]⟩
      · rw [List.length_append, List.length_singleton]
        omega
    exact h.part (hstart.subset (List.mem_append_right _ List.mem_cons_self))

/-- **One pass of `epoll_input`** handles the lines that are complete, and closes the connection
only where `recv` reports a close or an error. -/
theorem Flow.input {s : Storage} {now : Moment} {recvs : List Recv} {stale : Bool} {c : Connection}
    {q : List Queued} (h : Flow c q) (hempty : c.session.ctx.wtbuf = [])
    (hgentle : Gentle c (.input now recvs stale)) :
    Meant (c.input s now recvs stale) ∧
      ((c.input s now recvs stale).opened = true → ∃ q', Flow (c.input s now recvs stale) q') ∧
      Kept c.sent c.session.ctx (c.input s now recvs stale).session.ctx ∧
      ((c.input s now recvs stale).opened = false → c.opened = true →
        (c.received recvs).ended = .closed ∨ (c.received recvs).ended = .error) := by
  obtain ⟨hdropped, hblank⟩ := hgentle
  have hexit : c.session.ctx.forword ≠ fwExit := fun hf => h.quit hf hempty
  have hpending := got_append_rest c.closed recvs (rwbufSize - c.rdbuf.length) c.pending
  change (c.received recvs).got ++ (c.received recvs).rest = c.pending at hpending
  have hroom := h.room
  by_cases hret : (c.received recvs).retval < 1
  · have hinput : c.input s now recvs stale = { c with
        pending := (c.received recvs).rest
        opened := (c.received recvs).eagain stale && decide (c.session.ctx.forword ≠ fwExit) } := by
      rw [Connection.input, if_neg (Nat.not_le_of_lt hroom)]
      exact if_pos hret
    have hnothing : (c.received recvs).got = [] ∧ ((c.received recvs).ended = .again ∨
        (c.received recvs).ended = .closed ∨ (c.received recvs).ended = .error) := by
      have hfull := room_le_got c.closed recvs (rwbufSize - c.rdbuf.length) c.pending
      change (c.received recvs).ended = .full → _ ≤ (c.received recvs).got.length at hfull
      unfold Received.retval at hret
      cases hended : (c.received recvs).ended with
      | full =>
        have := hfull hended
        rw [hended] at hret
        dsimp only at hret
        omega
      | again =>
        rw [hended] at hret
        exact ⟨List.length_eq_zero_iff.mp (by dsimp only at hret; omega), .inl rfl⟩
      | error => exact ⟨hdropped (.inr hended), .inr (.inr rfl)⟩
      | closed => exact ⟨hdropped (.inl hended), .inr (.inl rfl)⟩
    obtain ⟨hgot, hended⟩ := hnothing
    rw [hgot, List.nil_append] at hpending
    have hflow :
        ∀ opened, Flow { c with pending := (c.received recvs).rest, opened := opened } q := by
      intro opened
      rw [hpending]
      exact ⟨h.law, h.stream, h.short, h.part, h.replies, h.ends, h.quit⟩
    rw [hinput]
    refine ⟨(hflow _).meant, fun _ => ⟨q, hflow _⟩, Kept.refl _ _, fun hclosed _ => ?_⟩
    rcases hended with hagain | hended
    · -- Nothing more to be received: the connection is kept.
      dsimp only at hclosed
      rw [Received.eagain, hagain, decide_eq_true hexit] at hclosed
      cases hclosed
    · exact hended
  · have hstream : c.rdbuf ++ (c.received recvs).got ++ (c.received recvs).rest
        = (q.map Queued.body).flatMap (· ++ ['\n']) := by
      rw [List.append_assoc, hpending, h.stream, List.flatMap_map]
      rfl
    obtain ⟨ls', hls, hrest⟩ := lines_of_prefix hstream (by
      intro body hbody
      obtain ⟨l, hl, rfl⟩ := List.mem_map.mp hbody
      exact (h.short l hl).1)
    generalize hbuffer : c.rdbuf ++ (c.received recvs).got = buffer at *
    obtain ⟨q₁, q₂, rfl, hq₁, rfl⟩ := List.map_eq_append_iff.mp hls
    have hend : q₂ = [] → lastPart buffer = [] := by
      rintro rfl
      exact (List.append_eq_nil_iff.mp hrest).1
    obtain ⟨x', reset, hrun, hp⟩ := @handleLines_queued s now _ _ _ _ hend _ _ h.law
        hempty hexit (by
      rintro l ls rfl hr hb
      have hhead : (completeLines buffer).head? = some l.body := by rw [← hq₁]; rfl
      have hone := hblank hr l.body hhead hb
      have hbody : '\n' ∉ l.body := (h.short l (List.mem_append_left _ List.mem_cons_self)).1
      have hline : completeLines buffer = [l.body] := by
        rw [hone, completeLines_more hbody]
        rfl
      have hpart : lastPart buffer = [] := by
        rw [hone, lastPart_more hbody]
        rfl
      rw [hline] at hq₁
      exact ⟨List.map_eq_nil_iff.mp (List.cons.inj hq₁).2, hpart⟩)
    have hlines : (completeLines buffer).map (· ++ ['\n']) = q₁.map Queued.text := by
      rw [← hq₁, List.map_map]
      rfl
    have hrdbuf :
        (if reset = true then [] else if x'.ctx.wtbuf ≠ [] then buffer else lastPart buffer)
        = lastPart buffer := by
      cases reset with
      | true => exact (hp.atEnd rfl).symm
      | false =>
        rw [if_neg Bool.false_ne_true, if_neg]
        exact fun hne => hne (hp.silent rfl)
    have hinput : c.input s now recvs stale = { c with
        session := x'
        pending := (c.received recvs).rest
        rdbuf := lastPart buffer } := by
      rw [Connection.input, if_neg (Nat.not_le_of_lt hroom)]
      refine (if_neg hret).trans ?_
      dsimp only
      rw [hbuffer, hlines, hrun]
      dsimp only
      rw [hrdbuf]
    have hends : endsLine x'.ctx.wtbuf = true := by
      rcases hp.response with hr | hr
      · rw [hr]
        rfl
      · exact (response_line _ hr).2.2
    have hreplies : c.told ++ x'.ctx.wtbuf = esmtp220 ++ x'.log.flatMap Exchange.reply := by
      have hold := h.replies
      rw [hempty, List.append_nil] at hold
      rw [hp.replies, hold, List.append_assoc]
    have hflow : Flow { c with
        session := x'
        rdbuf := lastPart buffer
        pending := (c.received recvs).rest } q₂ := by
      refine ⟨hp.law, ?_, fun l hl => h.short l (List.mem_append_right _ hl),
        not_mem_lastPart buffer, hreplies,
        hends, hp.quit⟩
      rw [hrest, List.flatMap_map]
      rfl
    rw [hinput]
    refine ⟨hflow.meant, fun _ => ⟨q₂, hflow⟩, hp.kept, fun hclosed hopen => ?_⟩
    rw [hopen] at hclosed
    cases hclosed

/-- The law of every connection. -/
structure Inv (c : Connection) : Prop where
  meant : Meant c
  flow : c.opened = true → ∃ q, Flow c q

/-- A client that sends to a connection that is closed changes nothing that is known of it. -/
theorem Meant.send {c : Connection} (h : Meant c) (hclosed : c.opened = false)
    (p : Piece) (n : Nat) :
    Meant { c with pending := c.pending ++ p.text, sent := c.sent ++ [p], expects := n } where
  lines := by
    rw [List.flatMap_append]
    exact h.lines.trans (List.prefix_append _ _)
  waiting hopen := by
    rw [hclosed] at hopen
    cases hopen
  replies := h.replies
  answered := h.answered

/-- What is known of a connection stays so when it is closed. -/
theorem Meant.drop {c : Connection} (h : Meant c) : Meant { c with opened := false } where
  lines := h.lines
  waiting hopen := by cases hopen
  replies := h.replies
  answered := h.answered

/-- A part of the response is sent. -/
theorem Flow.output {c : Connection} {q : List Queued} (h : Flow c q) (sends : List Send)
    (hopen : (c.output sends).opened = true) : Flow (c.output sends) q := by
  have hstart := Connection.sendLoop_prefix sends c.session.ctx.wtbuf
  have hall := List.prefix_iff_eq_append.mp hstart
  obtain ⟨law, stream, short, part, replies, ends, quit⟩ := h
  refine ⟨⟨⟨law.polite.stage, law.polite.user, law.polite.pass, law.polite.data⟩,
    law.lines, law.response,
    law.answered, law.expects, law.heard, law.awaits.congr rfl, fun hf => ?_⟩, stream,
      short, part, ?_, ?_,
    ?_⟩
  · obtain ⟨done, hw⟩ := law.message hf
    exact ⟨done, hw.follow, hw.file, hw.none, hw.message⟩
  · refine Eq.trans ?_ replies
    exact (List.append_assoc _ _ _).trans (congrArg (c.told ++ ·) hall)
  · change endsLine (c.session.ctx.wtbuf.drop _) = true
    rw [← hall] at ends
    cases hrest : c.session.ctx.wtbuf.drop
      (Connection.sendLoop sends c.session.ctx.wtbuf).1.length with
    | nil => rfl
    | cons a rest =>
      rw [hrest, endsLine_append (List.cons_ne_nil _ _)] at ends
      exact ends
  · intro hf
    obtain ⟨-, hkeep⟩ := (Bool.and_eq_true _ _).mp hopen
    exact (of_decide_eq_true hkeep).resolve_right fun hne => hne hf

theorem Meant.output {c : Connection} (h : Meant c) (hopen : c.opened = true) (sends : List Send) :
    Meant (c.output sends) where
  lines := h.lines
  waiting _ := h.waiting hopen
  replies := by
    have hall := List.prefix_iff_eq_append.mp (Connection.sendLoop_prefix sends c.session.ctx.wtbuf)
    refine Eq.trans ?_ h.replies
    exact (List.append_assoc _ _ _).trans (congrArg (c.told ++ ·) hall)
  answered := h.answered

theorem inv_accepted (address : BitVec 32) : Inv (.accepted address) :=
  ⟨(flow_accepted address).meant, fun _ => ⟨[], flow_accepted address⟩⟩

theorem Inv.step {s : Storage} {c c' : Connection} {act : Act} (h : Inv c) (hgentle : Gentle c act)
    (hstep : Steps s c act c') : Inv c' := by
  cases act with
  | send p =>
    obtain ⟨⟨hp, hfits⟩, hc⟩ := Option.ite_none_right_eq_some.mp hstep
    obtain rfl := Option.some.inj hc
    rcases Bool.eq_false_or_eq_true c.opened with hopened | hopened
    · obtain ⟨q, hflow⟩ := h.flow hopened
      cases p with
      | line text =>
        have hflow' := hflow.sendLine hp hfits
        exact ⟨hflow'.meant, fun _ => ⟨_, hflow'⟩⟩
      | message ls =>
        have hflow' := hflow.sendMessage hp hfits
        exact ⟨hflow'.meant, fun _ => ⟨_, hflow'⟩⟩
    · refine ⟨h.meant.send hopened p _, fun hopen => ?_⟩
      exact Bool.noConfusion (hopened.symm.trans hopen)
  | close =>
    obtain rfl := Option.some.inj hstep
    obtain ⟨⟨hlines, hwaiting, hreplies, hanswered⟩, hflow⟩ := h
    refine ⟨⟨hlines, hwaiting, hreplies, hanswered⟩, fun hopen => ?_⟩
    obtain ⟨q, law, stream, short, part, replies, ends, quit⟩ := hflow hopen
    exact ⟨q, law, stream, short, part, replies, ends, quit⟩
  | input now recvs stale =>
    obtain ⟨hopen, hc⟩ := Option.ite_none_right_eq_some.mp hstep
    obtain rfl := Option.some.inj hc
    obtain ⟨hopen, hempty⟩ := (Bool.and_eq_true _ _).mp hopen
    obtain ⟨q, hflow⟩ := h.flow hopen
    obtain ⟨hmeant, hflow', -⟩ := hflow.input (List.isEmpty_iff.mp hempty) hgentle
    exact ⟨hmeant, hflow'⟩
  | output sends =>
    obtain ⟨hopen, hc⟩ := Option.ite_none_right_eq_some.mp hstep
    obtain rfl := Option.some.inj hc
    obtain ⟨hopen, -⟩ := (Bool.and_eq_true _ _).mp hopen
    obtain ⟨q, hflow⟩ := h.flow hopen
    exact ⟨h.meant.output hopen sends, fun hopen' => ⟨q, hflow.output sends hopen'⟩⟩
  | drop =>
    obtain rfl := Option.some.inj hstep
    exact ⟨h.meant.drop, fun hopen => Bool.noConfusion hopen⟩

/-- A step stores the message that it accepts, and closes the connection only for a reason. -/
theorem Inv.kept {s : Storage} {c c' : Connection} {act : Act} (h : Inv c) (hgentle : Gentle c act)
    (hstep : Steps s c act c') : Kept c'.sent c.session.ctx c'.session.ctx ∧
      ∀ now recvs stale, act = .input now recvs stale → c'.opened = false →
        (c.received recvs).ended = .closed ∨ (c.received recvs).ended = .error := by
  cases act with
  | send p =>
    obtain ⟨-, hc⟩ := Option.ite_none_right_eq_some.mp hstep
    obtain rfl := Option.some.inj hc
    exact ⟨Kept.refl _ _, fun _ _ _ hact => by cases hact⟩
  | close | drop =>
    obtain rfl := Option.some.inj hstep
    exact ⟨Kept.refl _ _, fun _ _ _ hact => by cases hact⟩
  | input now recvs stale =>
    obtain ⟨hopen, hc⟩ := Option.ite_none_right_eq_some.mp hstep
    obtain rfl := Option.some.inj hc
    obtain ⟨hopen, hempty⟩ := (Bool.and_eq_true _ _).mp hopen
    obtain ⟨q, hflow⟩ := h.flow hopen
    obtain ⟨-, -, hkept, hreason⟩ := hflow.input (s := s) (List.isEmpty_iff.mp hempty) hgentle
    have hsent : (c.input s now recvs stale).sent = c.sent := by
      unfold Connection.input
      split
      · rfl
      · dsimp only
        split
        · rfl
        · split <;> rfl
    rw [hsent]
    refine ⟨hkept, fun now' recvs' stale' hact hclosed => ?_⟩
    obtain ⟨-, rfl, -⟩ := Act.input.inj hact
    exact hreason hclosed hopen
  | output sends =>
    obtain ⟨-, hc⟩ := Option.ite_none_right_eq_some.mp hstep
    obtain rfl := Option.some.inj hc
    exact ⟨⟨fun _ => rfl, fun hf hf' => absurd hf hf'⟩, fun _ _ _ hact => by cases hact⟩

/-- **Each line is handled as what the client sent it for and answered once, and an accepted
message is stored as it was sent**, in every run without a close behind bytes that were just
received and without anything behind a blank command line.  The server hangs up on its own only
where it is told so. -/
theorem stored_run {s : Storage} {address : BitVec 32} {acts : List Act} {c : Connection}
    (h : Run (Guarded Gentle (Steps s)) (.accepted address) acts c) : Meant c ∧
      ∀ act c', Guarded Gentle (Steps s) c act c' → Kept c'.sent c.session.ctx c'.session.ctx ∧
        ∀ now recvs stale, act = .input now recvs stale → c'.opened = false →
          (c.received recvs).ended = .closed ∨ (c.received recvs).ended = .error := by
  have hinv :
      Inv c := h.invariant (fun _ _ _ hc hstep => hc.step hstep.1 hstep.2) (inv_accepted address)
  exact ⟨hinv.meant, fun act c' hstep => hinv.kept hstep.1 hstep.2⟩

/-- A piece is sent, received in two parts, and answered. -/
def talk (p : Piece) : List Act :=
  [.send p, .input aMoment [.bytes 1] false, .input aMoment [.eintr, .bytes 4095] false,
    .output [.bytes 100]]

/-- A message is sent, and its first two bytes are received. -/
def dialogue (lines : List Text) : List Act :=
  .output [.bytes 100] :: (["EHLO a", "MAIL FROM:<a@b.c>", "RCPT TO:<d@e.f>", "DATA"].flatMap
    fun l => talk (.line l.toList)) ++ [.send (.message lines), .input aMoment [.bytes 1] false]

/-- The rest of it is received. -/
def lastInput : Act := .input aMoment [.bytes 4095] false

theorem stored_run_message : ∃ c c' : Connection, Steps backupOnly c lastInput c' ∧
    c.session.ctx.forword = fwData ∧ c'.session.ctx.forword ≠ fwData ∧
      c'.session.ctx.stored.length = 1 ∧ Meant c ∧ Kept c'.sent c.session.ctx c'.session.ctx := by
  have hrun : (((dialogue ["Subject: x".toList, [], "y".toList]).foldlM (fun (c : Connection) act =>
      if decide (Gentle c act) then c.step backupOnly act else none) (.accepted 0)).any fun c =>
        decide (Gentle c lastInput) && decide (c.session.ctx.forword = fwData) &&
          (c.step backupOnly lastInput).any fun c' => decide (c'.session.ctx.forword ≠ fwData) &&
            decide (c'.session.ctx.stored.length = 1)) = true := by
    decide +kernel
  obtain ⟨c, hc, hnext⟩ := (Option.any_eq_true _ _).mp hrun
  obtain ⟨hnow, hnext⟩ := (Bool.and_eq_true _ _).mp hnext
  obtain ⟨hgentle, hdata⟩ := (Bool.and_eq_true _ _).mp hnow
  obtain ⟨c', hstep, hend⟩ := (Option.any_eq_true _ _).mp hnext
  obtain ⟨hover, hstored⟩ := (Bool.and_eq_true _ _).mp hend
  have hcalm : Run (Guarded Gentle (Steps backupOnly)) (.accepted 0) _ c :=
    Run.of_checked (fun _ _ h => of_decide_eq_true h) hc
  obtain ⟨hmeant, hkept⟩ := stored_run hcalm
  exact ⟨c, c', hstep, of_decide_eq_true hdata, of_decide_eq_true hover,
    of_decide_eq_true hstored, hmeant,
    (hkept _ _ ⟨of_decide_eq_true hgentle, hstep⟩).1⟩

/-- A line that starts with a dot is stored with the dot that the client has put before it. -/
theorem dot_kept :
    ¬ ∀ (s : Storage) (address : BitVec 32) (acts : List Act) (c c' : Connection) (act : Act)
    (ls : List Text), Run (Steps s) (.accepted address) acts c → Steps s c act c' →
      c.session.ctx.forword = fwData → c'.session.ctx.forword ≠ fwData →
      c'.sent.getLast? = some (.message ls) → ∀ file ∈ c.session.ctx.fdev, ∃ date, '\n' ∉ date ∧
        (c.session.ctx.cmds.emlpath ++ "ml".toList, receivedHeader c.session.ctx.address
          c.session.ctx.cmds.helo c.session.ctx.cmds.mail c.session.ctx.cmds.rcpt date ++
            ls.flatMap fun l => l ++ crlf) ∈ c'.session.ctx.stored := by
  intro h
  let ls : List Text := [".x".toList]
  have hrun : (((dialogue ls).foldlM (fun (c : Connection) act => c.step backupOnly act)
      (.accepted 0)).any fun c =>
        decide (c.session.ctx.forword = fwData ∧ c.session.ctx.fdev.isSome = true) &&
          (c.step backupOnly lastInput).any fun c' => decide (c'.session.ctx.forword ≠ fwData ∧
            c'.sent.getLast? = some (.message ls) ∧
              c'.session.ctx.stored = [(c.session.ctx.cmds.emlpath ++ "ml".toList,
                receivedHeader c.session.ctx.address c.session.ctx.cmds.helo c.session.ctx.cmds.mail
                  c.session.ctx.cmds.rcpt aMoment.date ++ "..x\r\n".toList)])) = true := by
    decide +kernel
  obtain ⟨c, hc, hnext⟩ := (Option.any_eq_true _ _).mp hrun
  obtain ⟨hbefore, hnext⟩ := (Bool.and_eq_true _ _).mp hnext
  obtain ⟨hdata, hopened⟩ := of_decide_eq_true hbefore
  obtain ⟨c', hstep, hafter⟩ := (Option.any_eq_true _ _).mp hnext
  obtain ⟨hover, hsent, hstored⟩ := of_decide_eq_true hafter
  obtain ⟨file, hfile⟩ := Option.isSome_iff_exists.mp hopened
  obtain ⟨date, hdate, hmem⟩ := h backupOnly 0 _ c c' lastInput ls (Run.of_foldlM hc) hstep
      hdata hover hsent
    file hfile
  rw [hstored] at hmem
  -- The header is the same, and the message is not.
  have hmessage := receivedHeader_inj hdate aMoment.date_line
    (Prod.mk.inj (List.mem_singleton.mp hmem)).2
  exact absurd hmessage (by decide)

/-- A client that closes behind QUIT has no answer to it. -/
example : (([.output [.bytes 100], .send (.line "QUIT".toList), .close,
    .input aMoment [.bytes 4095, .bytes 4095] false]).foldlM (fun (c : Connection) act =>
      c.step backupOnly act) (.accepted 0)).any (fun c => !c.opened && c.pending.isEmpty &&
        c.session.log.isEmpty) = true := by
  decide +kernel

end Edm.Postmaster
