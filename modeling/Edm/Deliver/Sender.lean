import Edm.Support.Crlf
import Edm.Support.Socket
import Edm.Support.Split

/-!
# Deliver — Sender

The dialogue of the delivery engine with a mail exchanger (`EmlSender::Send2Domain`).  At each step
the client writes a command and reads the reply, with `SocketReadLine` or `SocketReadSmtp`; it
tests the first digit of what it read.  `SocketReadLine` returns as soon as a piece ends in a line
end, so of a reply of several lines it may read the first alone.  The rest is then read in place
of the next reply.

The exchanger is a `Server`: the reply to each step, and how its bytes are cut into pieces.  Every
byte carries the step it answers.  The connection stands, commands are written whole, and a reply
is there before the client stops waiting for it.

`matched_iff`: each digit tested belongs to the reply to that very step, and the result follows the
replies, exactly when the replies come in step with the reads (`Server.InStep`).
-/

namespace Edm.Deliver
open Support

/-! ### Replies -/

/-- The steps of a dialogue at which the client waits for a reply. -/
inductive Step where
  | greeting | helo | auth | usr | pwd | mailfrom | rcpt | data | mailtext
  deriving DecidableEq

/-- A reply: lines `ddd-…` and a last line `ddd …`, all under one code. -/
structure Reply where
  code : Text
  more : List Text
  last : Text
  code_length : code.length = 3
  code_digit : ∀ c ∈ code, c.isDigit
  clean : ∀ t ∈ last :: more, ∀ c ∈ t, c ≠ nul ∧ c ≠ '\n'

namespace Reply
variable (r : Reply)

def lastLine : Text := r.code ++ ' ' :: r.last

def text : Text := (r.more.map fun t => r.code ++ '-' :: t ++ crlf).flatten ++ r.lastLine ++ crlf

/-- The first digit of the last line. -/
def digit : Char := r.lastLine.headD nul

end Reply

/-- The reply of the filter of an exchanger, which is taken for a final refusal. -/
def filterBlocked : Text := "452 filter blocked".toList

/-- The reply lets the dialogue go on. -/
def Step.positive : Step → Reply → Bool
  | .auth, r | .usr, r => r.code == "334".toList
  | .pwd, r => r.code == "235".toList
  | .data, r => r.digit == '3'
  | _, r => r.digit == '2'

/-- What a refusal is worth. -/
def Step.refusal : Step → Reply → Nat
  | .mailtext, r => if r.digit == '4' && !occursIn filterBlocked r.text then 4 else 5
  | _, r => if r.digit == '4' then 4 else 5

/-- A mail exchanger, with the address of the recipient and the way to log in.  `cuts` says how the
bytes arrive at each step, and `again` how they arrive in the second reading of a greeting. -/
structure Server where
  m_to : Text
  is_auth : Text
  reply : Step → Reply
  cuts : Step → List Nat
  again : List Nat

/-- The bytes of a reply. -/
def Server.bytes (s : Server) (t : Step) : List (Step × Char) := (s.reply t).text.map (t, ·)

/-! ### The dialogue -/

/-- `SocketReadLine` returns when the last byte is a line end. -/
def endsLine (sMsg : Text) : Bool := sMsg.getLast? == some '\n'

/-- Three digits and a blank. -/
def isLast : Text → Bool
  | a :: b :: c :: d :: _ => a.isDigit && b.isDigit && c.isDigit && d == ' '
  | _ => false

/-- `SocketReadSmtp` looks at the last line as well. -/
def endsReply (sMsg : Text) : Bool :=
  endsLine sMsg && isLast ((cstr sMsg.dropLast).reverse.takeWhile (· != '\n')).reverse

/-- A step of the dialogue: the reader and the size of its buffer, which replies the client
accepts, and `s_flag` and `err` if it reads nothing and if it does not accept. -/
structure Command where
  step : Step
  done : Text → Bool
  room : Nat
  accepts : Text → Bool
  noReply : Nat × Text
  refused : (Text → Nat) × Text

/-- `sMsg[0] == '4'` is a soft refusal. -/
def softDigit (sMsg : Text) : Nat := if sMsg.headD nul == '4' then 4 else 5

def helo : Command :=
  ⟨.helo, endsReply, 1023, (·.headD nul == '2'), (4, "step 4-->heloread:".toList),
    (softDigit, "step 3-->heloresp:".toList)⟩

/-- A step of `SendAuth2DP`.  Its buffer is smaller, and whatever goes wrong is a hard refusal. -/
def authStep (t : Step) (code noReply refused : Text) : Command :=
  ⟨t, endsLine, 127, (·.take 3 == code), (5, noReply), (fun _ => 5, refused)⟩

/-- A step of the transaction. -/
def lineStep (t : Step) (c : Char) (noReply refused : Text) : Command :=
  ⟨t, endsLine, 1023, (·.headD nul == c), (4, noReply), (softDigit, refused)⟩

/-- `SendAuth2DP`. -/
def auth2DP : List Command :=
  [authStep .auth "334".toList "step 5.2-->".toList "step 5.3-->".toList,
    authStep .usr "334".toList "step 5.5-->".toList "step 5.6-->".toList,
    authStep .pwd "235".toList "step 5.8-->".toList "step 5.9-->".toList]

/-- The last step: a filter may have blocked the message. -/
def mailtext : Command :=
  ⟨.mailtext, endsLine, 1023, (·.headD nul == '2'), (4, "step 16-->mailtextread:".toList),
    (fun sMsg => if sMsg.headD nul == '4' && !occursIn filterBlocked (cstr sMsg) then 4 else 5,
      "step 17-->mailtextresp:".toList)⟩

def mailing : List Command :=
  [lineStep .mailfrom '2' "step 7-->mailfromwrite:".toList "step 8-->mailfromresp:".toList,
    lineStep .rcpt '2' "step 10-->rcptread:".toList "step 11-->rcptresp:".toList,
    lineStep .data '3' "step 13-->dataread:".toList "step 14-->dataresp:".toList,
    mailtext]

/-- The steps behind the greeting. -/
def Server.commands (s : Server) : List Command :=
  helo :: ((if cstr s.is_auth == "true".toList && occursIn "@139.com".toList (cstr s.m_to) then
    auth2DP else []) ++ mailing)

/-- `s_flag`, `err`, and what was read where a reply was tested. -/
structure Outcome where
  s_flag : Nat
  err : Text
  tests : List (Step × List (Step × Char))

/-- `snprintf(err, 256, "%s%s", …)`. -/
def errText (step sMsg : Text) : Text := (step ++ cstr sMsg).take 255

/-- One command after another; `pending` is what was not read before.  The reply to the `QUIT`
behind the last of them is not looked at. -/
def Server.converse (s : Server) : List Command → List (Step × Char) → Outcome
  | [], _ => ⟨1, "ok".toList, []⟩
  | c :: cs, pending =>
      let (sMsg, rest) := socketRead c.done (s.cuts c.step) c.room [] (pending ++ s.bytes c.step)
      if sMsg = [] then ⟨c.noReply.1, c.noReply.2, []⟩
      else if c.accepts (textOf sMsg) then
        let o := s.converse cs rest
        ⟨o.s_flag, o.err, (c.step, sMsg) :: o.tests⟩
      else ⟨c.refused.1 (textOf sMsg), errText c.refused.2 (textOf sMsg), [(c.step, sMsg)]⟩

/-- `Send2Domain`.  The greeting is not tested; for `@sohu.com` it is read a second time unless
`220 sohu` is in it. -/
def send2Domain (s : Server) : Outcome :=
  let (sMsg, rest) := socketRead endsLine (s.cuts .greeting) 1023 [] (s.bytes .greeting)
  if sMsg = [] then ⟨4, "step 2-->connectread:".toList, []⟩
  else if occursIn "@sohu.com".toList (cstr s.m_to) &&
      !occursIn "220 sohu".toList (cstr (textOf sMsg)) then
    let (sMsg, rest) := socketRead endsLine s.again 1023 [] rest
    if sMsg = [] then ⟨4, "step 2-->sohu connectread:".toList, []⟩
    else s.converse s.commands rest
  else s.converse s.commands rest

/-! ### What should come out -/

/-- The first refusal decides; without one the mail is sent. -/
def Server.verdictOf (s : Server) : List Step → Nat
  | [] => 1
  | t :: ts => if t.positive (s.reply t) then s.verdictOf ts else t.refusal (s.reply t)

def Server.verdict (s : Server) : Nat := s.verdictOf (.greeting :: s.commands.map Command.step)

/-- A test reads a reply right if the byte it looks at is the first digit of the reply to its own
step. -/
def Server.Reads (s : Server) (t : Step × List (Step × Char)) : Prop :=
  t.2.head? = some (t.1, (s.reply t.1).digit)

/-- Replies and commands are matched. -/
structure Server.Matched (s : Server) : Prop where
  tests : ∀ t ∈ (send2Domain s).tests, s.Reads t
  s_flag : (send2Domain s).s_flag = s.verdict

/-! ### In step -/

/-- The reply is read whole: it fits the buffer, and no piece before its end makes the reader
stop. -/
def Server.Whole (s : Server) (c : Command) : Prop :=
  (s.reply c.step).text.length ≤ c.room ∧
    stopAt c.done (s.cuts c.step) (s.reply c.step).text = (s.reply c.step).text.length

/-- What a refusal is taken for: a refused login is hard, and the filter is known by its text in
what was read. -/
def Step.taken (t : Step) (r : Reply) (sMsg : Text) : Nat :=
  match t with
  | .auth | .usr | .pwd => 5
  | .mailtext => if r.digit == '4' && !occursIn filterBlocked sMsg then 4 else 5
  | _ => if r.digit == '4' then 4 else 5

/-- How far a reply is read when nothing was left over before. -/
def Server.readTo (s : Server) (c : Command) : Nat :=
  Support.readTo c.done (s.cuts c.step) c.room (s.reply c.step).text

/-- The replies behind the greeting, where the result should be `v`: each that lets the dialogue go
on is read whole, if a command follows, and the first that does not is taken for `v`. -/
def Server.InStepFrom (s : Server) (v : Nat) : List Command → Prop
  | [] => v = 1
  | c :: cs =>
      if c.step.positive (s.reply c.step) then (cs ≠ [] → s.Whole c) ∧ s.InStepFrom v cs
      else c.step.taken (s.reply c.step) ((s.reply c.step).text.take (s.readTo c)) = v

/-- How far the greeting is read at first. -/
def Server.greeted (s : Server) : Nat :=
  Support.readTo endsLine (s.cuts .greeting) 1023 (s.reply .greeting).text

/-- What is left of the greeting then. -/
def Server.left (s : Server) : Text := (s.reply .greeting).text.drop s.greeted

/-- A second reading of the greeting follows. -/
def Server.readsOn (s : Server) : Bool :=
  occursIn "@sohu.com".toList (cstr s.m_to) &&
    !occursIn "220 sohu".toList ((s.reply .greeting).text.take s.greeted)

/-- The greeting is read whole, be it in two readings, and the replies behind it are in step.  A
second reading that finds nothing ends the dialogue with a soft refusal. -/
def Server.InStep (s : Server) : Prop :=
  if s.readsOn = true then
    if s.left = [] then s.verdict = 4
    else s.left.length ≤ 1023 ∧ stopAt endsLine s.again s.left = s.left.length ∧
      s.InStepFrom s.verdict s.commands
  else s.left = [] ∧ s.InStepFrom s.verdict s.commands

/-! ### Replies and their code -/

namespace Reply
variable (r : Reply)

theorem text_eq : ∃ rest, r.text = r.code ++ rest ∧ 3 ≤ rest.length := by
  rw [text]
  cases r.more with
  | nil =>
      refine ⟨' ' :: r.last ++ crlf, ?_, ?_⟩
      · rw [List.map_nil, List.flatten_nil, List.nil_append, lastLine, List.append_assoc]
      · simp [crlf]
  | cons t ts =>
      refine ⟨'-' :: t ++ crlf ++ ((ts.map fun t => r.code ++ '-' :: t ++ crlf).flatten ++
        (r.lastLine ++ crlf)), ?_, ?_⟩
      · simp only [List.map_cons, List.flatten_cons, List.append_assoc]
      · simp only [List.length_append, List.length_cons, crlf]
        omega

theorem length_text : 6 ≤ r.text.length := by
  obtain ⟨rest, h, hr⟩ := r.text_eq
  rw [h, List.length_append, r.code_length]
  omega

theorem text_ne_nil : r.text ≠ [] := by
  have := r.length_text
  exact List.length_pos_iff.mp (by omega)

/-- What is read of a reply begins with its code. -/
theorem take_three {k : Nat} (hk : 3 ≤ k) : (r.text.take k).take 3 = r.code := by
  obtain ⟨rest, h, -⟩ := r.text_eq
  rw [List.take_take, Nat.min_eq_left hk, h, ← r.code_length, List.take_left]

theorem head_text : r.text.headD nul = r.digit := by
  obtain ⟨rest, h, -⟩ := r.text_eq
  rw [h, digit, lastLine]
  cases hc : r.code with
  | nil =>
      have := r.code_length
      rw [hc] at this
      exact nomatch this
  | cons c cs => rfl

theorem head_take {k : Nat} (hk : 0 < k) : (r.text.take k).headD nul = r.digit := by
  rw [← r.head_text]
  obtain ⟨k, rfl⟩ := Nat.exists_eq_succ_of_ne_zero (Nat.ne_of_gt hk)
  cases r.text with
  | nil => rfl
  | cons c cs => rfl

theorem nul_not_mem_text : nul ∉ r.text := by
  have hcode : nul ∉ r.code := fun h => absurd (r.code_digit _ h) (by decide)
  have hclean : ∀ t ∈ r.last :: r.more, nul ∉ t := fun t ht h => (r.clean t ht _ h).1 rfl
  have hsep : nul ≠ '-' ∧ nul ≠ ' ' ∧ nul ∉ crlf := by decide
  intro h
  rw [text, List.append_assoc] at h
  rcases List.mem_append.mp h with h | h
  · obtain ⟨l, hl, h⟩ := List.mem_flatten.mp h
    obtain ⟨t, ht, rfl⟩ := List.mem_map.mp hl
    simp only [List.mem_append, List.mem_cons] at h
    exact h.elim (·.elim hcode (·.elim hsep.1 (hclean t (List.mem_cons_of_mem _ ht)))) hsep.2.2
  · simp only [lastLine, List.mem_append, List.mem_cons] at h
    exact h.elim (·.elim hcode (·.elim hsep.2.1 (hclean _ List.mem_cons_self))) hsep.2.2

/-- There is no line end among the three digits. -/
theorem endsLine_code {k : Nat} (hk : k ≤ 3) : endsLine (r.text.take k) = false := by
  obtain ⟨rest, h, -⟩ := r.text_eq
  refine Bool.eq_false_iff.mpr fun hend => ?_
  have hl := List.mem_of_getLast? (beq_iff_eq.mp hend)
  rw [h, List.take_append_of_le_length (by rw [r.code_length]; omega)] at hl
  exact absurd (r.code_digit _ (List.mem_of_mem_take hl)) (by decide)

theorem stopAt_text {done : Text → Bool} (hd : ∀ t, done t = true → endsLine t = true)
    (cuts : List Nat) : 4 ≤ stopAt done cuts r.text := by
  by_contra hlt
  have hlen := r.length_text
  have hearly : stopAt done cuts r.text < r.text.length := by omega
  have hend := hd _ (done_of_stopAt_lt hearly)
  rw [r.endsLine_code (by omega)] at hend
  exact absurd hend Bool.false_ne_true

end Reply

/-! ### One command -/

theorem textOf_bytes (s : Server) (t : Step) : textOf (s.bytes t) = (s.reply t).text := by
  rw [textOf, Server.bytes, List.map_map]
  exact List.map_id _

/-- What is used of a command: its reader looks for a line end, it accepts what lets the dialogue
go on, and it takes a refusal for what it says above. -/
structure Command.Fits (c : Command) : Prop where
  room : 127 ≤ c.room
  done : ∀ t, c.done t = true → endsLine t = true
  accepts : ∀ (r : Reply) (k : Nat), 4 ≤ k → c.accepts (r.text.take k) = c.step.positive r
  refused : ∀ (r : Reply) (k : Nat), 4 ≤ k →
    c.refused.1 (r.text.take k) = c.step.taken r (r.text.take k)

theorem softDigit_take (r : Reply) {k : Nat} (hk : 4 ≤ k) :
    softDigit (r.text.take k) = if r.digit == '4' then 4 else 5 := by
  rw [softDigit, r.head_take (by omega)]

theorem helo_fits : helo.Fits where
  room := by decide
  done _ h := (Bool.and_eq_true_iff.mp h).1
  accepts r k hk := congrArg (· == '2') (r.head_take (by omega))
  refused r k hk := softDigit_take r hk

theorem lineStep_fits {t : Step} {c : Char} (hp : ∀ r, t.positive r = (r.digit == c))
    (ht : ∀ r m, t.taken r m = if r.digit == '4' then 4 else 5) (n w : Text) :
    (lineStep t c n w).Fits where
  room := Nat.le_of_ble_eq_true rfl
  done _ h := h
  accepts r k hk := (congrArg (· == c) (r.head_take (by omega))).trans (hp r).symm
  refused r k hk := (softDigit_take r hk).trans (ht r _).symm

theorem authStep_fits {t : Step} {code : Text} (hp : ∀ r, t.positive r = (r.code == code))
    (ht : ∀ r m, t.taken r m = 5) (n w : Text) : (authStep t code n w).Fits where
  room := Nat.le_of_ble_eq_true rfl
  done _ h := h
  accepts r k hk := (congrArg (· == code) (r.take_three (by omega))).trans (hp r).symm
  refused r k _ := (ht r _).symm

theorem cstr_take (r : Reply) (k : Nat) : cstr (r.text.take k) = r.text.take k :=
  cstr_self fun h => r.nul_not_mem_text (List.mem_of_mem_take h)

theorem mailtext_fits : mailtext.Fits where
  room := Nat.le_of_ble_eq_true rfl
  done _ h := h
  accepts r k hk := congrArg (· == '2') (r.head_take (by omega))
  refused r k hk := by
    simp only [mailtext, cstr_take, r.head_take (show 0 < k by omega), Step.taken]

theorem commands_fit (s : Server) : ∀ c ∈ s.commands, c.Fits := by
  have hauth : ∀ c ∈ auth2DP, c.Fits := by
    simp only [auth2DP, List.forall_mem_cons]
    exact ⟨authStep_fits (fun _ => rfl) (fun _ _ => rfl) _ _,
      authStep_fits (fun _ => rfl) (fun _ _ => rfl) _ _,
      authStep_fits (fun _ => rfl) (fun _ _ => rfl) _ _, fun _ h => nomatch h⟩
  have hmail : ∀ c ∈ mailing, c.Fits := by
    simp only [mailing, List.forall_mem_cons]
    exact ⟨lineStep_fits (fun _ => rfl) (fun _ _ => rfl) _ _,
      lineStep_fits (fun _ => rfl) (fun _ _ => rfl) _ _,
      lineStep_fits (fun _ => rfl) (fun _ _ => rfl) _ _, mailtext_fits, fun _ h => nomatch h⟩
  intro c hc
  rcases List.mem_cons.mp hc with rfl | hc
  · exact helo_fits
  · rcases List.mem_append.mp hc with hc | hc
    · split at hc
      · exact hauth c hc
      · exact nomatch hc
    · exact hmail c hc

/-- No two commands are at one step, and none is at the greeting. -/
theorem commands_steps (s : Server) :
    s.commands.Pairwise (fun c c' => c.step ≠ c'.step) ∧ ∀ c ∈ s.commands, c.step ≠ .greeting := by
  rw [Server.commands]
  split
  · decide
  · decide

/-! ### The dialogue in step -/

/-- What a command reads when nothing was left over. -/
theorem socketRead_bytes (s : Server) (c : Command) :
    socketRead c.done (s.cuts c.step) c.room [] ([] ++ s.bytes c.step)
      = ((s.bytes c.step).take (s.readTo c), (s.bytes c.step).drop (s.readTo c)) := by
  rw [List.nil_append, socketRead_nil, textOf_bytes]
  rfl

theorem length_bytes (s : Server) (t : Step) : (s.bytes t).length = (s.reply t).text.length := by
  rw [← textOf_bytes, length_textOf]

theorem whole_iff (s : Server) (c : Command) :
    s.Whole c ↔ (s.bytes c.step).drop (s.readTo c) = [] := by
  rw [List.drop_eq_nil_iff, length_bytes]
  exact (length_le_readTo c.done (s.cuts c.step) c.room _).symm

theorem reads_take (s : Server) (t : Step) {k : Nat} (hk : 0 < k) :
    s.Reads (t, (s.bytes t).take k) := by
  obtain ⟨k, rfl⟩ := Nat.exists_eq_succ_of_ne_zero (Nat.ne_of_gt hk)
  obtain ⟨c, cs, h⟩ := List.exists_cons_of_ne_nil (s.reply t).text_ne_nil
  have hd : (s.reply t).digit = c := by rw [← (s.reply t).head_text, h, List.headD_cons]
  rw [Server.Reads, Server.bytes, h, List.map_cons, List.take_succ_cons, List.head?_cons, hd]

/-- One command that reads something. -/
theorem converse_cons (s : Server) (c : Command) (cs : List Command) {pending sMsg rest}
    (h : socketRead c.done (s.cuts c.step) c.room [] (pending ++ s.bytes c.step) = (sMsg, rest))
    (hne : sMsg ≠ []) : s.converse (c :: cs) pending
      = if c.accepts (textOf sMsg) then
          ⟨(s.converse cs rest).s_flag, (s.converse cs rest).err,
            (c.step, sMsg) :: (s.converse cs rest).tests⟩
        else ⟨c.refused.1 (textOf sMsg), errText c.refused.2 (textOf sMsg), [(c.step, sMsg)]⟩ := by
  rw [Server.converse, h]
  exact if_neg hne

/-- A byte left over from another step is tested in place of the reply. -/
theorem left_over (s : Server) {c : Command} (hc : c.Fits) (cs : List Command) {b : Step × Char}
    (hb : b.1 ≠ c.step) (pending : List (Step × Char)) :
    ∃ t ∈ (s.converse (c :: cs) (b :: pending)).tests, ¬ s.Reads t := by
  have hhead := head_socketRead c.done (s.cuts c.step) (Nat.lt_of_lt_of_le (by decide) hc.room) b
    (pending ++ s.bytes c.step)
  cases hread : socketRead c.done (s.cuts c.step) c.room [] (b :: (pending ++ s.bytes c.step)) with
  | mk sMsg rest =>
      rw [hread] at hhead
      have hne : sMsg ≠ [] := by
        rintro rfl
        exact nomatch hhead
      refine ⟨(c.step, sMsg), ?_, fun h => hb ?_⟩
      · rw [converse_cons s c cs hread hne]
        split
        · exact List.mem_cons_self
        · exact List.mem_cons_self
      · exact congrArg Prod.fst (Option.some.inj (hhead.symm.trans h))

/-- From a dialogue in step: all tests read right and the result is `v` exactly when the replies
that follow come in step. -/
theorem converse_iff (s : Server) (v : Nat) {cs : List Command} (hf : ∀ c ∈ cs, c.Fits)
    (hs : cs.Pairwise fun c c' => c.step ≠ c'.step) :
    ((∀ t ∈ (s.converse cs []).tests, s.Reads t) ∧ (s.converse cs []).s_flag = v) ↔
      s.InStepFrom v cs := by
  induction cs with
  | nil => exact (and_iff_right fun _ h => nomatch h).trans eq_comm
  | cons c cs ih =>
      obtain ⟨hc, hf⟩ := List.forall_mem_cons.mp hf
      obtain ⟨hcs, hs⟩ := List.pairwise_cons.mp hs
      have hk : 4 ≤ s.readTo c := Nat.le_min.mpr
        ⟨Nat.le_trans (by decide) hc.room, (s.reply c.step).stopAt_text hc.done _⟩
      have hread := reads_take s c.step (k := s.readTo c) (by omega)
      have hne : (s.bytes c.step).take (s.readTo c) ≠ [] := fun h => by
        rw [h] at hread
        exact nomatch hread
      rw [converse_cons s c cs (socketRead_bytes s c) hne, textOf_take, textOf_bytes,
        hc.accepts _ _ hk, Server.InStepFrom]
      by_cases hp : c.step.positive (s.reply c.step) = true
      · rw [if_pos hp, if_pos hp, whole_iff]
        dsimp only
        rw [List.forall_mem_cons, and_iff_right hread]
        cases cs with
        | nil =>
            rw [and_iff_right fun h => absurd rfl h]
            exact (and_iff_right fun _ h => nomatch h).trans eq_comm
        | cons c' cs =>
            cases hrest : (s.bytes c.step).drop (s.readTo c) with
            | nil => rw [ih hf hs]; exact (and_iff_right fun _ => rfl).symm
            | cons b rest =>
                refine iff_of_false (fun h => ?_) fun h => nomatch h.1 (List.cons_ne_nil _ _)
                have hb : b.1 = c.step := by
                  have hmem : b ∈ s.bytes c.step :=
                    List.mem_of_mem_drop (hrest ▸ List.mem_cons_self)
                  obtain ⟨_, -, rfl⟩ := List.mem_map.mp hmem
                  rfl
                obtain ⟨t, ht, hbad⟩ := left_over s (hf c' List.mem_cons_self) cs
                  (hb ▸ hcs c' List.mem_cons_self) rest
                exact hbad (h.1 t ht)
      · rw [if_neg hp, if_neg hp, ← hc.refused _ _ hk]
        dsimp only
        rw [List.forall_mem_cons, and_iff_right hread]
        exact and_iff_right fun _ h => nomatch h

/-- Behind the greeting: all is well exactly when nothing of it is left and the replies come in
step. -/
theorem commands_iff (s : Server) (v : Nat) {pending : List (Step × Char)}
    (hp : ∀ b ∈ pending, b.1 = .greeting) :
    ((∀ t ∈ (s.converse s.commands pending).tests, s.Reads t) ∧
        (s.converse s.commands pending).s_flag = v) ↔
      pending = [] ∧ s.InStepFrom v s.commands := by
  cases pending with
  | nil => rw [converse_iff s v (commands_fit s) (commands_steps s).1, and_iff_right rfl]
  | cons b pending =>
      refine iff_of_false (fun h => ?_) fun h => nomatch h.1
      have hmem : helo ∈ s.commands := List.mem_cons_self
      obtain ⟨t, ht, hbad⟩ := left_over s (commands_fit s helo hmem) s.commands.tail
        (hp b List.mem_cons_self ▸ ((commands_steps s).2 helo hmem).symm) pending
      exact hbad (h.1 t ht)

/-- Every digit tested is that of the reply to its own step, and the result follows the replies,
exactly when the replies come in step with the reads. -/
theorem matched_iff (s : Server) : s.Matched ↔ s.InStep := by
  have hmatched : s.Matched ↔ (∀ t ∈ (send2Domain s).tests, s.Reads t) ∧
      (send2Domain s).s_flag = s.verdict := ⟨fun h => ⟨h.tests, h.s_flag⟩, fun h => ⟨h.1, h.2⟩⟩
  have hk : 4 ≤ s.greeted := Nat.le_min.mpr
    ⟨by decide, (s.reply .greeting).stopAt_text (fun _ h => h) _⟩
  have hread := reads_take s .greeting (k := s.greeted) (by omega)
  have hne : (s.bytes .greeting).take s.greeted ≠ [] := fun h => by
    rw [h] at hread
    exact nomatch hread
  have hsocket : socketRead endsLine (s.cuts .greeting) 1023 [] (s.bytes .greeting)
      = ((s.bytes .greeting).take s.greeted, (s.bytes .greeting).drop s.greeted) := by
    rw [socketRead_nil, textOf_bytes]
    rfl
  have hleft : textOf ((s.bytes .greeting).drop s.greeted) = s.left := by
    rw [textOf_drop, textOf_bytes, Server.left]
  have hnil : (s.bytes .greeting).drop s.greeted = [] ↔ s.left = [] := by
    rw [← hleft]
    exact List.map_eq_nil_iff.symm
  have htag : ∀ b ∈ (s.bytes .greeting).drop s.greeted, b.1 = Step.greeting := fun b hb => by
    obtain ⟨_, -, rfl⟩ := List.mem_map.mp (List.mem_of_mem_drop hb)
    rfl
  have hcond : (occursIn "@sohu.com".toList (cstr s.m_to) && !occursIn "220 sohu".toList
      (cstr (textOf ((s.bytes .greeting).take s.greeted)))) = s.readsOn := by
    rw [textOf_take, textOf_bytes, cstr_take, Server.readsOn]
  rw [hmatched, send2Domain, hsocket]
  dsimp only
  rw [if_neg hne, hcond, Server.InStep]
  split
  · -- The greeting is read again.
    generalize (s.bytes .greeting).drop s.greeted = rest at hleft hnil htag ⊢
    cases rest with
    | nil =>
        have hnone : socketRead endsLine s.again 1023 [] ([] : List (Step × Char)) = ([], []) := by
          rw [socketRead_nil, List.take_nil, List.drop_nil]
        rw [hnone, if_pos rfl, if_pos (hnil.mp rfl)]
        exact (and_iff_right fun _ h => nomatch h).trans eq_comm
    | cons b rest =>
        have hhead := head_socketRead endsLine s.again (show 0 < 1023 by decide) b rest
        have hne' : (socketRead endsLine s.again 1023 [] (b :: rest)).1 ≠ [] := fun h => by
          rw [h] at hhead
          exact nomatch hhead
        have htag' :
            ∀ d ∈ (socketRead endsLine s.again 1023 [] (b :: rest)).2, d.1 = Step.greeting := by
          intro d hd
          rw [socketRead_nil] at hd
          exact htag d (List.mem_of_mem_drop hd)
        have hagain : (socketRead endsLine s.again 1023 [] (b :: rest)).2 = [] ↔
            s.left.length ≤ 1023 ∧ stopAt endsLine s.again s.left = s.left.length := by
          rw [socketRead_nil, List.drop_eq_nil_iff, hleft, ← length_textOf, hleft]
          exact length_le_readTo _ _ _ _
        have hl : s.left ≠ [] := fun h => nomatch hnil.mpr h
        rw [if_neg hne', if_neg hl, commands_iff s s.verdict htag', hagain, and_assoc]
  · rw [commands_iff s s.verdict htag, hnil]

/-! ### A reply in two pieces -/

/-- All replies are positive.  That to `MAIL FROM` has two lines, each in a piece of its own. -/
def pieces : Server where
  m_to := "a@b.c".toList
  is_auth := []
  reply
    | .mailfrom => ⟨"250".toList, ["sender".toList], "ok".toList, rfl, by simp, by simp [nul]⟩
    | .data => ⟨"354".toList, [], "go".toList, rfl, by simp, by simp [nul]⟩
    | _ => ⟨"250".toList, [], "ok".toList, rfl, by simp, by simp [nul]⟩
  cuts
    | .mailfrom => [11]
    | .rcpt | .data => [7]
    | _ => []
  again := []

/-- `DATA` finds the reply to `RCPT TO`, and the mail is given up as refused. -/
theorem reply_shifted : ¬ pieces.Matched := fun h => by
  have hflag : (send2Domain pieces).s_flag = 5 := by decide
  have hverdict : pieces.verdict = 1 := by decide
  rw [h.s_flag, hverdict] at hflag
  exact absurd hflag (by decide)

end Edm.Deliver
