import Mathlib
import Edm.Faceside.SmtpPost

/-!
# Faceside — Getline

`smtp_getline` for a buffer of any size, on a reply that `recv` gives in pieces, cut anywhere.

When a piece ends within a line, that line is to be moved to the front of the buffer, but `memmove`
takes the bytes that stand behind what was received.  So the reply is read as it was sent if and
only if the bytes it took last, with the rest of the reply behind them, read as a reply with the
same last line (`read_iff`).
-/

namespace Edm.Faceside
open Support

/-! ### The loop -/

/-- What a piece leaves: an error, the last line, an unfinished line in `b_offset` bytes at the
front of the buffer, or nothing to go on with. -/
inductive Turn where
  | bad (buffer : Text)
  | line (L : Nat) (buffer : Text)
  | unfinished (buffer : Text) (b_offset : Nat)
  | finished (buffer : Text)

/-- A piece is received behind the first `b_offset` bytes of the buffer. -/
def takePiece (beyond buffer : Text) (b_offset : Nat) (piece : Text) : Turn :=
  let end_ := b_offset + piece.length
  let filled := overlay buffer b_offset piece
  match scanReply (completeLines (filled.take end_)) 0 with
  | .bad => .bad filled
  | .line p L => .line L (moveFront beyond (filled.set (p + L) nul) p (L + 1))
  | .more p =>
      if p < end_ then .unfinished (moveFront beyond filled end_ (end_ - p)) (end_ - p)
      else .finished filled

/-- `while (b_offset < len)`, with `len` already decremented. -/
def replyLoop (len : Nat) (beyond : Text) : Text → Nat → List RecvResult → Int × Text
  | buffer, _, [] => (-1, buffer)
  | buffer, b_offset, r :: rs =>
      if len ≤ b_offset then (-1, buffer)
      else match r with
        | .eintr => replyLoop len beyond buffer b_offset rs
        | .eagain ready =>
            if ready then replyLoop len beyond buffer b_offset rs else (-1, buffer)
        | .error | .closed => (-1, buffer)
        | .piece c t =>
            match takePiece beyond buffer b_offset ((c :: t).take (len - b_offset)) with
            | .bad buffer => (-1, buffer)
            | .line L buffer => (L, buffer)
            | .unfinished buffer b_offset => replyLoop len beyond buffer b_offset rs
            | .finished buffer => replyLoop len beyond buffer 0 rs

/-- `smtp_getline(sock, buffer, len, timeout)`: what it returns, and the buffer. -/
def getReply (len : Nat) (beyond buffer : Text) (rs : List RecvResult) : Int × Text :=
  if len = 0 then (-1, buffer)
  else replyLoop (len - 1) beyond ((buffer.set 0 nul).set (len - 1) nul) 0 rs

/-- The loop in `smtp_post`, whose buffer has 256 bytes. -/
theorem replyLoop_getlineLoop (beyond : Text) (rs : List RecvResult) :
    ∀ (buffer : Text) (b_offset : Nat) (received : Text),
      replyLoop 255 beyond buffer b_offset rs =
        ((getlineLoop beyond buffer b_offset received rs).1,
          (getlineLoop beyond buffer b_offset received rs).2.1) := by
  induction rs with
  | nil => exact fun _ _ _ => rfl
  | cons r rs ih =>
      intro buffer b_offset received
      unfold replyLoop getlineLoop
      split
      next => rfl
      next =>
        cases r with
        | eintr => exact ih _ _ _
        | eagain ready =>
            cases ready with
            | true => exact ih _ _ _
            | false => rfl
        | error => rfl
        | closed => rfl
        | piece c t =>
            dsimp only [takePiece]
            cases scanReply _ 0 with
            | bad => rfl
            | line p L => rfl
            | more p =>
                dsimp only
                by_cases hp : p < b_offset + ((c :: t).take (255 - b_offset)).length
                · rw [if_pos hp, if_pos hp]
                  exact ih _ _ _
                · rw [if_neg hp, if_neg hp]
                  exact ih _ _ _

/-- Called by `smtp_post`. -/
theorem getReply_smtpGetline (beyond buffer : Text) (rs : List RecvResult) :
    getReply 256 beyond buffer rs =
      ((smtpGetline beyond buffer rs).1, (smtpGetline beyond buffer rs).2.1) :=
  replyLoop_getlineLoop beyond rs _ 0 []

/-! ### Replies in pieces -/

/-- A reply: lines that go on, and one that does not. -/
structure Reply where
  lines : List Text
  last : Text
  hlines : ∀ l ∈ lines, '\n' ∉ l ∧ behindCode l = .goesOn
  hlast : '\n' ∉ last ∧ behindCode last = .last

def Reply.text (reply : Reply) : Text := (reply.lines ++ [reply.last]).flatMap (· ++ ['\n'])

namespace RecvResult

/-- The bytes that are received. -/
def text : RecvResult → Text
  | piece c t => c :: t
  | _ => []

/-- `recv` is called again. -/
def goesOn : RecvResult → Bool
  | piece _ _ | eintr => true
  | eagain ready => ready
  | error | closed => false

end RecvResult

/-- A reply that fits into a buffer of `len` bytes, and the results of `recv` that give it. -/
structure Delivery where
  len : Nat
  buffer : Text
  beyond : Text
  reply : Reply
  rs : List RecvResult
  length_buffer : buffer.length = len
  fits : reply.text.length < len
  goesOn : ∀ r ∈ rs, r.goesOn = true
  text_rs : rs.flatMap RecvResult.text = reply.text

/-- What is returned is the length of the line, and the buffer begins with it and a NUL. -/
def ReadsAs (last : Text) (result : Int × Text) : Prop :=
  result.1 = last.length + 1 ∧ result.2.take (last.length + 2) = last ++ ['\n', nul]

/-- The reply is read as it was sent. -/
def Delivery.Read (d : Delivery) : Prop :=
  ReadsAs d.reply.last (getReply d.len d.beyond d.buffer d.rs)

/-- The bytes in the place of the line that was left unfinished last, and what is still to come. -/
def lastKept (beyond : Text) : Text → Nat → List RecvResult → Option Text
  | _, _, [] => none
  | buffer, b_offset, .piece c t :: rs =>
      match takePiece beyond buffer b_offset (c :: t) with
      | .unfinished buffer b_offset =>
          (lastKept beyond buffer b_offset rs).or
            (some (buffer.take b_offset ++ rs.flatMap RecvResult.text))
      | .finished buffer => lastKept beyond buffer 0 rs
      | .bad _ | .line _ _ => none
  | buffer, b_offset, _ :: rs => lastKept beyond buffer b_offset rs

/-- `lastKept` from the first call on. -/
def Delivery.lastKept (d : Delivery) : Option Text :=
  Faceside.lastKept d.beyond ((d.buffer.set 0 nul).set (d.len - 1) nul) 0 d.rs

/-! ### Reading on -/

theorem replyLine_append_some {line : Text} : ∀ {ls : List Text}, replyLine ls = some line →
    ∀ ls', replyLine (ls ++ ls') = some line
  | [], h, _ => by cases h
  | l :: ls, h, ls' => by
      rw [replyLine] at h
      rw [List.cons_append, replyLine]
      split at h
      next => exact replyLine_append_some h ls'
      next => exact h
      next => cases h

theorem replyLine_of_bad : ∀ {ls : List Text} {p : Nat}, scanReply ls p = .bad →
    ∀ ls', replyLine (ls ++ ls') = none
  | [], _, h, _ => by cases h
  | l :: ls, p, h, ls' => by
      rw [scanReply] at h
      rw [List.cons_append, replyLine]
      split at h
      next => exact replyLine_of_bad h ls'
      next => cases h
      next => rfl

/-- The complete lines of a text: those of its first part, and those from the unfinished line on. -/
theorem completeLines_lastPart (s t : Text) :
    completeLines (s ++ t) = completeLines s ++ completeLines (lastPart s ++ t) := by
  induction s using split_induction '\n' with
  | last s h => rw [completeLines_last h, lastPart_last h, List.nil_append]
  | more s r h ih =>
      rw [List.append_assoc, List.cons_append, completeLines_more h, completeLines_more h,
        lastPart_more h, ih, List.cons_append]

theorem lastPart_eq {s : Text} : s = (completeLines s).flatMap (· ++ ['\n']) ++ lastPart s := by
  induction s using split_induction '\n' with
  | last s h => rw [completeLines_last h, lastPart_last h, List.flatMap_nil, List.nil_append]
  | more s r h ih =>
      rw [completeLines_more h, lastPart_more h, List.flatMap_cons, List.append_assoc,
        List.append_assoc, ← ih, List.singleton_append]

theorem lastPart_of_endsLine {s : Text} (h : endsLine s = true) : lastPart s = [] :=
  endsLine_rest (lastPart_eq (s := s) ▸ h) (not_mem_lastPart s)

/-- A line in the buffer is moved to its front, with a NUL behind it. -/
theorem moveFront_line_nul (beyond pre line : Text) (c : Char) (post : Text) :
    (moveFront beyond
      ((pre ++ (line ++ '\n' :: c :: post)).set (pre.length + (line.length + 1)) nul) pre.length
      (line.length + 1 + 1)).take (line.length + 2) = line ++ ['\n', nul] := by
  have hset : (pre ++ (line ++ '\n' :: c :: post)).set (pre.length + (line.length + 1)) nul =
      pre ++ (line ++ '\n' :: nul :: post) := by
    rw [List.set_append_right _ _ (by omega), Nat.add_sub_cancel_left,
      List.set_append_right _ _ (by omega), Nat.add_sub_cancel_left]
    rfl
  have hmoved : ((pre ++ (line ++ '\n' :: nul :: post) ++ beyond).drop pre.length).take
      (line.length + 1 + 1) = line ++ ['\n', nul] := by
    have hlen : line.length + 1 + 1 = (line ++ ['\n', nul]).length := by
      rw [List.length_append]
      rfl
    rw [List.append_assoc, List.drop_left, hlen]
    have hassoc : line ++ '\n' :: nul :: post ++ beyond =
        (line ++ ['\n', nul]) ++ (post ++ beyond) := by
      simp
    rw [hassoc, List.take_left]
  have hlen : line.length + 2 = (line ++ ['\n', nul]).length := by
    rw [List.length_append]
    rfl
  rw [hset, moveFront, hmoved, overlay, List.take_zero, List.nil_append, hlen, List.take_left]

theorem length_moveFront {beyond buffer : Text} {p n : Nat} (h : n ≤ buffer.length) :
    (moveFront beyond buffer p n).length = buffer.length := by
  rw [moveFront, length_overlay]
  rw [List.length_take]
  omega

/-- What a piece does to a buffer in which it leaves one byte at least. -/
theorem takePiece_cases (beyond buffer : Text) (b_offset : Nat) (piece : Text)
    (h : b_offset + piece.length < buffer.length) :
    (∃ b, takePiece beyond buffer b_offset piece = .bad b ∧
      ∀ ls, replyLine (completeLines (buffer.take b_offset ++ piece) ++ ls) = none) ∨
    (∃ line L b, takePiece beyond buffer b_offset piece = .line L b ∧
      L = line.length + 1 ∧ b.take (line.length + 2) = line ++ ['\n', nul] ∧
      replyLine (completeLines (buffer.take b_offset ++ piece)) = some line) ∨
    ((∀ ls, replyLine (completeLines (buffer.take b_offset ++ piece) ++ ls) = replyLine ls) ∧
      ∃ b, b.length = buffer.length ∧
        (lastPart (buffer.take b_offset ++ piece) = [] ∧
          takePiece beyond buffer b_offset piece = .finished b ∨
        lastPart (buffer.take b_offset ++ piece) ≠ [] ∧
          takePiece beyond buffer b_offset piece =
            .unfinished b (lastPart (buffer.take b_offset ++ piece)).length)) := by
  have hfilled := take_overlay (Nat.le_of_lt (Nat.lt_of_le_of_lt (Nat.le_add_right _ _) h)) piece
  have hlength := length_overlay (Nat.le_of_lt h)
  have hx : (buffer.take b_offset ++ piece).length = b_offset + piece.length := by
    rw [List.length_append, List.length_take]
    omega
  have hwhole : overlay buffer b_offset piece = (buffer.take b_offset ++ piece) ++
      (overlay buffer b_offset piece).drop (b_offset + piece.length) := by
    rw [← hfilled, List.take_append_drop]
  have hrest : ((overlay buffer b_offset piece).drop (b_offset + piece.length)).length ≠ 0 := by
    rw [List.length_drop]
    omega
  rw [takePiece, hfilled]
  generalize (overlay buffer b_offset piece).drop (b_offset + piece.length) = rest at hwhole hrest
  generalize buffer.take b_offset ++ piece = x at hwhole hx
  generalize overlay buffer b_offset piece = filled at hwhole hlength
  cases hscan : scanReply (completeLines x) 0 with
  | bad => exact .inl ⟨filled, rfl, replyLine_of_bad hscan⟩
  | line p L =>
      obtain ⟨pre, line, post, hlines, hp, rfl, -, hreply⟩ := scanReply_line hscan
      refine .inr (.inl ⟨line, _, _, rfl, rfl, ?_, hreply⟩)
      rw [Nat.zero_add] at hp
      obtain ⟨c, more, hmore⟩ : ∃ c more,
          post.flatMap (· ++ ['\n']) ++ lastPart x ++ rest = c :: more := by
        cases hcons : post.flatMap (· ++ ['\n']) ++ lastPart x ++ rest with
        | nil => exact absurd (by simp_all) hrest
        | cons c more => exact ⟨c, more, rfl⟩
      have hbuffer : filled = pre.flatMap (· ++ ['\n']) ++ (line ++ '\n' :: c :: more) := by
        rw [hwhole, ← hmore]
        conv_lhs => rw [lastPart_eq (s := x), hlines]
        simp
      rw [hbuffer, hp]
      exact moveFront_line_nul beyond _ line c more
  | more p =>
      obtain ⟨hp, hmore⟩ := scanReply_more hscan
      rw [Nat.zero_add] at hp
      have hlen : b_offset + piece.length = p + (lastPart x).length := by
        rw [← hx, hp]
        conv_lhs => rw [lastPart_eq (s := x)]
        rw [List.length_append]
      refine .inr (.inr ⟨hmore, ?_⟩)
      dsimp only
      rw [hlen, Nat.add_sub_cancel_left]
      cases hlast : lastPart x with
      | nil => exact ⟨filled, hlength, .inl ⟨rfl, if_neg (by simp)⟩⟩
      | cons c u =>
          refine ⟨_, ?_, .inr ⟨List.cons_ne_nil c u, if_pos (by simp)⟩⟩
          rw [length_moveFront, hlength]
          rw [hlast] at hlen
          omega

/-- Without a byte nothing is read. -/
theorem replyLoop_empty (beyond : Text) (len : Nat) {rs : List RecvResult}
    (h : rs.flatMap RecvResult.text = []) (buffer : Text) (b_offset : Nat) :
    (replyLoop len beyond buffer b_offset rs).1 = -1 ∧
      lastKept beyond buffer b_offset rs = none := by
  induction rs with
  | nil => exact ⟨rfl, rfl⟩
  | cons r rs ih =>
      obtain ⟨hr, hrs⟩ := List.append_eq_nil_iff.mp h
      unfold replyLoop
      cases r with
      | piece c t => cases hr
      | eintr => exact ⟨by split; exacts [rfl, (ih hrs).1], (ih hrs).2⟩
      | eagain ready =>
          refine ⟨?_, (ih hrs).2⟩
          cases ready with
          | true => split; exacts [rfl, (ih hrs).1]
          | false => split <;> rfl
      | error => exact ⟨by split <;> rfl, (ih hrs).2⟩
      | closed => exact ⟨by split <;> rfl, (ih hrs).2⟩

/-- From any state on: the bytes that are moved last decide. -/
theorem replyLoop_iff (beyond : Text) {len : Nat} (last : Text) {rs : List RecvResult} :
    ∀ {buffer : Text} (b_offset : Nat), (∀ r ∈ rs, r.goesOn = true) →
      buffer.length = len + 1 → b_offset + (rs.flatMap RecvResult.text).length ≤ len →
      endsLine (rs.flatMap RecvResult.text) = true →
      (rs.flatMap RecvResult.text = [] → b_offset = 0) →
      (ReadsAs last (replyLoop len beyond buffer b_offset rs) ↔
        replyLine (completeLines ((lastKept beyond buffer b_offset rs).getD
          (buffer.take b_offset ++ rs.flatMap RecvResult.text))) = some last) := by
  induction rs with
  | nil =>
      intro buffer b_offset _ _ _ _ hoff
      obtain rfl := hoff rfl
      refine iff_of_false (fun h => ?_) nofun
      have hcode : (-1 : Int) = last.length + 1 := h.1
      omega
  | cons r rs ih =>
      intro buffer b_offset hall hlen hfits hends hoff
      obtain ⟨hr, hgoes⟩ := List.forall_mem_cons.mp hall
      by_cases hempty : (r :: rs).flatMap RecvResult.text = []
      · obtain ⟨hcode, hkept⟩ := replyLoop_empty beyond len hempty buffer b_offset
        rw [hkept, hempty]
        obtain rfl := hoff hempty
        refine iff_of_false (fun h => ?_) nofun
        have hline := hcode.symm.trans h.1
        omega
      · have hroom : ¬ len ≤ b_offset := by
          have hpos := List.length_pos_iff.mpr hempty
          omega
        rw [List.flatMap_cons] at hfits hends hoff ⊢
        unfold replyLoop
        rw [if_neg hroom]
        cases r with
        | eintr => exact ih b_offset hgoes hlen hfits hends hoff
        | eagain ready =>
            obtain rfl : ready = true := hr
            exact ih b_offset hgoes hlen hfits hends hoff
        | error => cases hr
        | closed => cases hr
        | piece c t =>
            rw [RecvResult.text, List.length_append] at hfits
            rw [RecvResult.text] at hends ⊢
            have htake : (c :: t).take (len - b_offset) = c :: t :=
              List.take_of_length_le (by omega)
            have hlast : rs.flatMap RecvResult.text = [] →
                lastPart (buffer.take b_offset ++ (c :: t)) = [] := by
              intro hnil
              rw [hnil, List.append_nil] at hends
              refine lastPart_of_endsLine ?_
              rw [endsLine_append (List.cons_ne_nil c t)]
              exact hends
            have hends' : endsLine (rs.flatMap RecvResult.text) = true := by
              by_cases hnil : rs.flatMap RecvResult.text = []
              · rw [hnil]
                rfl
              · rwa [endsLine_append hnil] at hends
            have hcases := takePiece_cases beyond buffer b_offset (c :: t) (by omega)
            have hsplit := completeLines_lastPart (buffer.take b_offset ++ (c :: t))
              (rs.flatMap RecvResult.text)
            dsimp only
            rw [htake, lastKept, ← List.append_assoc]
            have hpart : (lastPart (buffer.take b_offset ++ (c :: t))).length ≤
                b_offset + (c :: t).length := by
              have hsum := congrArg List.length
                (lastPart_eq (s := buffer.take b_offset ++ (c :: t)))
              rw [List.length_append, List.length_append, List.length_take] at hsum
              omega
            generalize buffer.take b_offset ++ (c :: t) = x at hcases hlast hsplit hpart ⊢
            obtain ⟨b, hturn, hbad⟩ | ⟨line, L, b, hturn, hL, hb, hline⟩ |
              ⟨hmore, b, hb, ⟨hnil, hturn⟩ | ⟨hne, hturn⟩⟩ := hcases
            · rw [hturn]
              dsimp only
              rw [Option.getD_none, hsplit, hbad]
              refine iff_of_false (fun h => ?_) nofun
              have hcode : (-1 : Int) = last.length + 1 := h.1
              omega
            · rw [hturn]
              dsimp only
              rw [Option.getD_none, hsplit, replyLine_append_some hline]
              constructor
              · rintro ⟨hcode, hbuffer⟩
                have hlength : line.length = last.length := by
                  rw [hL] at hcode
                  exact Nat.succ_inj.mp (Int.ofNat_inj.mp hcode)
                rw [← hlength] at hbuffer
                exact congrArg some (List.append_cancel_right (hb.symm.trans hbuffer))
              · rintro h
                obtain rfl := Option.some.inj h
                exact ⟨by rw [hL]; rfl, hb⟩
            · rw [hturn]
              dsimp only
              rw [ih _ hgoes (hb.trans hlen) (by omega) hends' fun _ => rfl]
              cases lastKept beyond b 0 rs with
              | none => rw [Option.getD_none, Option.getD_none, hsplit, hmore, hnil, List.take_zero]
              | some kept => exact Iff.rfl
            · rw [hturn]
              dsimp only
              rw [ih _ hgoes (hb.trans hlen) (by omega) hends' fun h => absurd (hlast h) hne]
              cases lastKept beyond b (lastPart x).length rs with
              | none => exact Iff.rfl
              | some kept => exact Iff.rfl

/-! ### The reply as it was sent -/

theorem completeLines_lines : ∀ {ls : List Text}, (∀ l ∈ ls, '\n' ∉ l) →
    completeLines (ls.flatMap (· ++ ['\n'])) = ls
  | [], _ => rfl
  | l :: ls, h => by
      obtain ⟨hl, hls⟩ := List.forall_mem_cons.mp h
      rw [List.flatMap_cons, List.append_assoc, List.singleton_append, completeLines_more hl,
        completeLines_lines hls]

namespace Reply

theorem replyLine_lines (last : Text) : ∀ {lines : List Text},
    (∀ l ∈ lines, behindCode l = .goesOn) → replyLine (lines ++ [last]) = replyLine [last]
  | [], _ => rfl
  | l :: lines, h => by
      obtain ⟨hl, hlines⟩ := List.forall_mem_cons.mp h
      rw [List.cons_append, replyLine, hl]
      exact replyLine_lines last hlines

theorem replyLine_text (reply : Reply) :
    replyLine (completeLines reply.text) = some reply.last := by
  have hlines : ∀ l ∈ reply.lines ++ [reply.last], '\n' ∉ l := by
    intro l hl
    rw [List.mem_append, List.mem_singleton] at hl
    obtain hl | rfl := hl
    · exact (reply.hlines l hl).1
    · exact reply.hlast.1
  rw [text, completeLines_lines hlines, replyLine_lines _ fun l hl => (reply.hlines l hl).2,
    replyLine, reply.hlast.2]

theorem text_eq (reply : Reply) :
    reply.text = reply.lines.flatMap (· ++ ['\n']) ++ reply.last ++ ['\n'] := by
  simp [text]

theorem endsLine_text (reply : Reply) : endsLine reply.text = true := by
  rw [text_eq, endsLine_append (by simp)]
  rfl

end Reply

namespace Delivery

theorem read_iff_getD (d : Delivery) : d.Read ↔
    replyLine (completeLines (d.lastKept.getD d.reply.text)) = some d.reply.last := by
  obtain ⟨len, hlen⟩ := Nat.exists_eq_add_one_of_ne_zero (Nat.ne_zero_of_lt d.fits)
  have hfits := d.fits
  have hbuffer : ((d.buffer.set 0 nul).set (d.len - 1) nul).length = len + 1 := by
    rw [List.length_set, List.length_set, d.length_buffer, hlen]
  have hloop := replyLoop_iff d.beyond d.reply.last 0 d.goesOn hbuffer
    (by rw [d.text_rs]; omega) (by rw [d.text_rs]; exact d.reply.endsLine_text) fun _ => rfl
  rw [List.take_zero, List.nil_append, d.text_rs] at hloop
  rw [Read, getReply, if_neg (Nat.ne_zero_of_lt d.fits), Delivery.lastKept, hlen,
    Nat.add_sub_cancel]
  rw [hlen, Nat.add_sub_cancel] at hloop
  exact hloop

/-- The reply is read as it was sent if and only if the bytes that were moved last into the place
of an unfinished line, and the rest of the reply, read as one with the same last line. -/
theorem read_iff (d : Delivery) :
    d.Read ↔ ∀ text ∈ d.lastKept, replyLine (completeLines text) = some d.reply.last := by
  rw [read_iff_getD]
  cases d.lastKept with
  | none => exact iff_of_true d.reply.replyLine_text nofun
  | some text =>
      constructor
      · intro h text' htext
        obtain rfl := Option.some.inj htext
        exact h
      · exact fun h => h text rfl

end Delivery

theorem length_cutBuffer : (List.replicate 256 nul).length = 256 := List.length_replicate

/-- `250 ok`, cut behind the first digit. -/
def cutReply : Delivery where
  len := 256
  buffer := List.replicate 256 nul
  beyond := []
  reply := ⟨[], "250 ok\r".toList, nofun, by decide, rfl⟩
  rs := [.piece '2' [], .piece '5' "0 ok\r\n".toList]
  length_buffer := length_cutBuffer
  fits := by decide
  goesOn := by decide
  text_rs := by decide

/-- The reply is lost: `smtp_getline` returns -1. -/
theorem not_read_cutReply : ¬ cutReply.Read := by
  intro h
  have hcode : (getReply 256 [] (List.replicate 256 nul) cutReply.rs).1 = -1 := by decide
  exact absurd (hcode.symm.trans h.1) (by decide)

end Edm.Faceside
