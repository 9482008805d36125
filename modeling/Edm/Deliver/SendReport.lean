import Edm.Deliver.Report

/-!
# Deliver — SendReport

A report from the engine's map to the daemon's records, with the numbers that both sides count.
`SendReport` adds up the lengths of the texts and fifteen bytes for each record, writes the sum in
front of its buffer, and sends as much of it, in pieces.  The daemon steps over a record by the
lengths of its texts.

* `sendReport_eq`: what is sent is the report, and no byte of the buffer behind it.
* `reportLoop_records`: the loop of the daemon ends behind the last record.
* `session_report`: the daemon reads the records of the map, if the report has no more than the
  1024000 bytes that `ReceivePackage` takes.
-/

namespace Edm.Deliver
open Support

/-! ### The engine -/

/-- What stands in the buffer from `p` on, and the numbers that are counted with it. -/
structure Written where
  p : Text
  maillen : Nat
  suc : Nat
  fai : Nat
  vec : List Nat

/-- One round of the loop over the map. -/
def Written.add (w : Written) (iter : Nat × Mail) : Written :=
  match iter.2.code with
  | none => w
  | some stat =>
      let mail := cstr iter.2.node.mail
      let errstr := cstr iter.2.node.errstr
      { p := w.p ++ (iter.2.node.taskId.bytes ++ stat :: (mail ++ nul :: (errstr ++ [nul])))
        maillen := w.maillen + mail.length + errstr.length
        suc := if stat = 's' then w.suc + 1 else w.suc
        fai := if stat = 's' then w.fai else w.fai + 1
        vec := w.vec ++ [iter.1] }

def Written.totallen (w : Written) : Nat := w.maillen + 15 * (w.suc + w.fai) + 16

/-- What the calls of `send` are given: `length` bytes of the buffer, 1024 at a time. -/
def sendPieces (head : Text) (length : Nat) : List Text :=
  let i := length / 1024
  (List.range i).map (fun j => (head.drop (1024 * j)).take 1024) ++
    [(head.drop (1024 * i)).take (length - i * 1024)]

/-- The buffer is zero where nothing was written. -/
def reqSize : Nat := 1024 * 1024 * 8

/-- `SendReport`: what it sends, and the mails that the engine erases for it.  There is none when it
writes beyond its buffer. -/
def sendReport (mails : StdMap Nat Mail) : Option (List Text × List Nat) :=
  let w := mails.entries.foldl Written.add ⟨[], 0, 0, 0, []⟩
  if 20 + w.p.length ≤ reqSize then
    let head := be32 w.totallen ++ (installHead 3 ++ (be32 (w.suc + w.fai : Nat) ++
      (w.p ++ List.replicate (reqSize - (20 + w.p.length)) nul)))
    some (sendPieces head (w.totallen + 4), w.vec)
  else none

/-! ### The daemon -/

/-- `ReceivePackage`: the message in the bytes that come, and its length, unless it is an error.
The words it looks for first (`JAVA`, `STOP` and others) are lengths above the bound. -/
def receivePackage (stream : Text) : Option (Text × Nat) :=
  let nLeng := ofBe32 stream
  if stream.length < 4 then none
  else if nLeng ≤ 0 ∨ nLeng > 1024000 then none
  else if (stream.drop 4).length < nLeng.toNat then none
  else some ((stream.drop 4).take nLeng.toNat, nLeng.toNat)

/-- The loop of command 3: the records it reads, and `i` and `nOffset` where it ends. -/
def reportLoop (sMsg : Text) (nMsgLeng : Nat) (nNumber : Int) (i nOffset : Nat) :
    List Record × Nat × Nat :=
  if (i : Int) < nNumber ∧ nOffset < nMsgLeng then
    let nOffset' := nOffset + ((cstr (sMsg.drop (nOffset + 12))).length + 13)
    let nOffset'' := nOffset' + (cstr (sMsg.drop nOffset')).length + 1
    let rest := reportLoop sMsg nMsgLeng nNumber (i + 1) nOffset''
    (readRecord (sMsg.drop nOffset) :: rest.1, rest.2)
  else ([], i, nOffset)
termination_by (nNumber - i).toNat

/-- A session of command 3.  `ReceivePackage` puts two NULs behind the message, and `beyond` is what
its memory holds there. -/
def session (beyond stream : Text) : Option (List Record × Nat × Nat) :=
  (receivePackage stream).bind fun msg =>
    let sMsg := msg.1 ++ nul :: nul :: beyond
    if ofLe32 (sMsg.drop 8) = 3 ∨ ofBe32 (sMsg.drop 8) = 3 then
      some (reportLoop sMsg msg.2 (ofBe32 (sMsg.drop 12)) 0 16)
    else none

/-! ### What is sent -/

theorem Record.length_bytes {r : Record} (h : r.id.length = 12) :
    r.bytes.length = r.mail.length + r.text.length + 15 := by
  rw [Record.bytes, List.length_append, List.length_cons, List.length_append, List.length_cons,
    List.length_append, List.length_singleton, h]
  omega

theorem Written.add_none {w : Written} {iter : Nat × Mail} (h : iter.2.record = none) :
    w.add iter = w := by
  rw [Mail.record, Option.map_eq_none_iff] at h
  rw [add, h]

theorem Written.add_some {w : Written} {iter : Nat × Mail} {r : Record}
    (h : iter.2.record = some r) :
    (w.add iter).p = w.p ++ r.bytes ∧
      (w.add iter).maillen = w.maillen + r.mail.length + r.text.length ∧
      (w.add iter).suc + (w.add iter).fai = w.suc + w.fai + 1 ∧
      (w.add iter).vec = w.vec ++ [iter.1] := by
  obtain ⟨stat, hstat, rfl⟩ := Option.map_eq_some_iff.mp h
  rw [add, hstat]
  refine ⟨rfl, rfl, ?_, rfl⟩
  dsimp only
  split <;> omega

/-- The loop over the map: it writes the records, and counts their bytes. -/
theorem Written.foldl_add (entries : List (Nat × Mail)) : ∀ w : Written,
    let w' := entries.foldl Written.add w
    let written := entries.filterMap fun e => e.2.record
    w'.p = w.p ++ written.flatMap Record.bytes ∧ w'.suc + w'.fai = w.suc + w.fai + written.length ∧
      w'.maillen + 15 * (w'.suc + w'.fai)
        = w.maillen + 15 * (w.suc + w.fai) + (written.flatMap Record.bytes).length ∧
      w'.vec = w.vec ++ entries.filterMap fun e => e.2.record.map fun _ => e.1 := by
  induction entries with
  | nil => exact fun w => by simp
  | cons iter entries ih =>
      intro w
      cases hr : iter.2.record with
      | none =>
          simp only [List.foldl_cons, Written.add_none hr, List.filterMap_cons, hr, Option.map_none]
          exact ih w
      | some r =>
          obtain ⟨hp, hlen, hnum, hvec⟩ := Written.add_some (w := w) hr
          have hid : r.id.length = 12 := (Mail.record_clean hr).id
          have hbytes := Record.length_bytes hid
          obtain ⟨hp', hnum', hlen', hvec'⟩ := ih (w.add iter)
          simp only [List.foldl_cons, List.filterMap_cons, hr, Option.map_some, List.flatMap_cons,
            List.length_cons, List.length_append]
          refine ⟨?_, by omega, by omega, ?_⟩
          · rw [hp', hp, List.append_assoc]
          · rw [hvec', hvec, List.append_assoc, List.singleton_append]

/-- The pieces are the bytes, in order. -/
theorem sendPieces_flatten (head : Text) (length : Nat) :
    (sendPieces head length).flatten = head.take length := by
  have hpieces : ∀ i, ((List.range i).map fun j => (head.drop (1024 * j)).take 1024).flatten
      = head.take (1024 * i) := by
    intro i
    induction i with
    | zero => rfl
    | succ i ih =>
        rw [List.range_succ, List.map_append, List.flatten_append, ih, Nat.mul_succ, List.take_add]
        simp
  have hsplit : 1024 * (length / 1024) + (length - length / 1024 * 1024) = length := by omega
  rw [sendPieces, List.flatten_append, hpieces, List.flatten_singleton, ← List.take_add, hsplit]

theorem length_reportBody (rs : List Record) :
    (reportBody rs).length = 16 + (rs.flatMap Record.bytes).length := by
  rw [reportBody, List.length_append, List.length_append, length_be32]
  rfl

/-- `totallen` is the length of what stands behind it. -/
theorem sendReport_eq {mails : StdMap Nat Mail}
    (hfits : 20 + ((records mails).flatMap Record.bytes).length ≤ reqSize) :
    ∃ pieces, sendReport mails =
        some (pieces, mails.entries.filterMap fun e => e.2.record.map fun _ => e.1) ∧
      pieces.flatten = be32 (reportBody (records mails)).length ++ reportBody (records mails) := by
  obtain ⟨hp, hnum, hlen, hvec⟩ := Written.foldl_add mails.entries ⟨[], 0, 0, 0, []⟩
  have hrecords : (mails.entries.filterMap fun e => e.2.record) = records mails := rfl
  rw [hrecords, List.nil_append] at hp
  rw [hrecords, Nat.zero_add, Nat.zero_add] at hnum
  rw [hrecords, Nat.add_zero, Nat.mul_zero, Nat.zero_add] at hlen
  rw [List.nil_append] at hvec
  have hbody := length_reportBody (records mails)
  simp only [sendReport, hp, if_pos hfits, hvec]
  refine ⟨_, rfl, ?_⟩
  have htotal : (mails.entries.foldl Written.add ⟨[], 0, 0, 0, []⟩).totallen
      = (reportBody (records mails)).length := by
    rw [Written.totallen, hlen, hbody]
    omega
  rw [sendPieces_flatten, htotal, hnum, ← List.append_assoc (be32 ((records mails).length : Nat)),
    ← List.append_assoc (installHead 3), ← List.append_assoc (be32 _)]
  refine List.take_left' ?_
  rw [List.length_append, length_be32, hbody]
  simp only [List.length_append, length_be32]
  have : (installHead 3).length = 12 := rfl
  omega

/-! ### What is read -/

/-- The offset steps to the next record. -/
theorem reportLoop_cons {pre rest beyond : Text} {r : Record} (hr : r.Clean) {nMsgLeng i : Nat}
    {nNumber : Int} (hi : (i : Int) < nNumber) (hlen : pre.length < nMsgLeng) :
    reportLoop (pre ++ (r.bytes ++ rest) ++ beyond) nMsgLeng nNumber i pre.length
      = (r :: (reportLoop (pre ++ r.bytes ++ rest ++ beyond) nMsgLeng nNumber (i + 1)
            (pre ++ r.bytes).length).1,
          (reportLoop (pre ++ r.bytes ++ rest ++ beyond) nMsgLeng nNumber (i + 1)
            (pre ++ r.bytes).length).2) := by
  have hmem : (pre ++ (r.bytes ++ rest) ++ beyond).drop pre.length
      = r.bytes ++ (rest ++ beyond) := by
    rw [List.append_assoc, List.drop_left, List.append_assoc]
  have hfirst : (cstr ((pre ++ (r.bytes ++ rest) ++ beyond).drop (pre.length + 12))).length
      = r.mail.length + 1 := by
    rw [← List.drop_drop, hmem, hr.drop_twelve, cstr_append hr.nul_not_mem, List.length_cons]
  have hsecond : (cstr ((pre ++ (r.bytes ++ rest) ++ beyond).drop
      (pre.length + (r.mail.length + 1 + 13)))).length = r.text.length := by
    rw [← List.drop_drop, hmem, hr.drop_mail, cstr_append hr.text]
  have hnext : pre.length + (r.mail.length + 1 + 13) + r.text.length + 1
      = (pre ++ r.bytes).length := by
    rw [List.length_append, Record.length_bytes hr.id]
    omega
  rw [reportLoop, if_pos ⟨hi, hlen⟩]
  dsimp only
  rw [hfirst, hsecond, hmem, hr.read, hnext, List.append_assoc pre r.bytes rest]

/-- The loop reads the records that stand there, and ends behind the last. -/
theorem reportLoop_records {written : List Record} : (∀ r ∈ written, r.Clean) →
    ∀ (pre beyond : Text) (i : Nat),
      reportLoop (pre ++ written.flatMap Record.bytes ++ beyond)
          (pre.length + (written.flatMap Record.bytes).length) ((i + written.length : Nat) : Int) i
          pre.length
        = (written, i + written.length, pre.length + (written.flatMap Record.bytes).length) := by
  induction written with
  | nil =>
      intro _ pre beyond i
      rw [reportLoop, if_neg]
      · rfl
      · exact fun h => absurd h.1 (by simp)
  | cons r written ih =>
      intro h pre beyond i
      obtain ⟨hr, hwritten⟩ := List.forall_mem_cons.mp h
      have hpos : 0 < r.bytes.length := by
        rw [Record.length_bytes hr.id]
        omega
      rw [List.flatMap_cons, List.length_append, List.length_cons,
        reportLoop_cons hr (by omega) (by omega)]
      have hrest := ih hwritten (pre ++ r.bytes) beyond (i + 1)
      have hlen : pre.length + (r.bytes.length + (written.flatMap Record.bytes).length)
          = (pre ++ r.bytes).length + (written.flatMap Record.bytes).length := by
        rw [List.length_append, Nat.add_assoc]
      have hnum : i + (written.length + 1) = i + 1 + written.length := by omega
      rw [hlen, hnum, hrest]

/-- A message with its length in front. -/
theorem receivePackage_be32 {msg : Text} (hpos : 0 < msg.length) (hlt : msg.length < 2 ^ 31) :
    receivePackage (be32 msg.length ++ msg)
      = if msg.length ≤ 1024000 then some (msg, msg.length) else none := by
  have hleng : ofBe32 (be32 msg.length ++ msg) = msg.length :=
    (ofBe32_append _ _).trans (int32_of_range (by omega) (by omega))
  have hdrop : (be32 msg.length ++ msg).drop 4 = msg := rfl
  rw [receivePackage, hleng, hdrop, if_neg (by rw [List.length_append, length_be32]; omega)]
  by_cases hfits : msg.length ≤ 1024000
  · rw [if_neg (by omega), if_neg (by simp), if_pos hfits, Int.toNat_natCast, List.take_length]
  · rw [if_pos (by omega), if_neg hfits]

/-- A map whose report fits the buffer of the engine: what `SendReport` sends is read by the loop
of command 3 as the records of the map, and the loop ends behind the last one.  `ReceivePackage`
gives the loop a message of up to 1024000 bytes, and refuses a longer one. -/
theorem session_report {mails : StdMap Nat Mail}
    (hfits : 20 + ((records mails).flatMap Record.bytes).length ≤ reqSize) (beyond : Text) :
    ∃ pieces vec, sendReport mails = some (pieces, vec) ∧
      let sMsg := pieces.flatten.drop 4
      let read := reportLoop (sMsg ++ beyond) sMsg.length (ofBe32 (sMsg.drop 12)) 0 16
      read = (records mails, (records mails).length, sMsg.length) ∧
        session beyond pieces.flatten = if sMsg.length ≤ 1024000 then some read else none := by
  obtain ⟨pieces, hsend, hflat⟩ := sendReport_eq hfits
  refine ⟨pieces, _, hsend, ?_⟩
  have hsize : reqSize = 8388608 := rfl
  have hbody := length_reportBody (records mails)
  have hnumber : ∀ t : Text, ofBe32 ((reportBody (records mails) ++ t).drop 12)
      = (records mails).length := by
    intro t
    have hle := length_le_reportBody (records mails)
    rw [reportBody, List.append_assoc, List.append_assoc]
    exact (ofBe32_append _ _).trans (int32_of_range (by omega) (by omega))
  have hloop : ∀ t : Text, reportLoop (reportBody (records mails) ++ t)
      (reportBody (records mails)).length (records mails).length 0 16
        = (records mails, (records mails).length, (reportBody (records mails)).length) := by
    intro t
    have hread := reportLoop_records (@clean_of_mem_records mails)
      (installHead 3 ++ be32 (records mails).length) t 0
    have hpre : (installHead 3 ++ be32 (records mails).length).length = 16 := rfl
    rw [hpre, Nat.zero_add] at hread
    rw [hbody]
    exact hread
  have hdrop : pieces.flatten.drop 4 = reportBody (records mails) := by
    rw [hflat]
    rfl
  rw [hdrop]
  have hnumber' := hnumber []
  rw [List.append_nil] at hnumber'
  dsimp only
  rw [hnumber', hloop]
  refine ⟨rfl, ?_⟩
  have hcommand : ∀ t : Text, ofBe32 ((reportBody (records mails) ++ t).drop 8) = 3 := by
    intro t
    rw [reportBody, List.append_assoc, List.append_assoc]
    exact (ofBe32_append 3 _).trans (by decide)
  rw [session, hflat, receivePackage_be32 (by omega) (by omega)]
  split
  · rw [Option.bind_some]
    dsimp only
    rw [if_pos (.inr (hcommand _)), hnumber, hloop]
  · rfl

/-! ### A report that is refused -/

/-- A mail that was sent. -/
def sentMail (errstr : Text) : Mail where
  node := ⟨.sent, 0, "b.cn".toList, "a@b.cn".toList, errstr, 0, ⟨1, 2, 3⟩, .empty⟩
  life := .new

/-- A map with so many of them. -/
def crowd (n : Nat) (errstr : Text) : StdMap Nat Mail where
  entries := (List.range n).map fun k => (k, sentMail errstr)
  sorted := List.pairwise_map.mpr List.pairwise_lt_range

/-- A mail of another status. -/
def answeredMail (status : Status) (failtimes : Nat) (errstr : Text) : Mail where
  node := { (sentMail errstr).node with status := status, failtimes := failtimes }
  life := .new

/-- Two mails that are reported, and one between them that will be tried again. -/
def threeMails : StdMap Nat Mail :=
  ((StdMap.empty.set 0 (sentMail "250 ok".toList)).set 1
    (answeredMail .soft 1 "450 busy".toList)).set 2 (answeredMail .hard 0 "550 no".toList)

theorem session_report_three : ∃ pieces vec, sendReport threeMails = some (pieces, vec) ∧
    let sMsg := pieces.flatten.drop 4
    let read := reportLoop (sMsg ++ []) sMsg.length (ofBe32 (sMsg.drop 12)) 0 16
    read = (records threeMails, (records threeMails).length, sMsg.length) ∧
      session [] pieces.flatten = if sMsg.length ≤ 1024000 then some read else none :=
  session_report (by decide) []

theorem records_crowd (n : Nat) {errstr : Text} (h : nul ∉ errstr) :
    records (crowd n errstr)
      = List.replicate n ⟨(TaskId.mk 1 2 3).bytes, 's', "a@b.cn".toList, errstr⟩ := by
  have hrecord : (sentMail errstr).record
      = some ⟨(TaskId.mk 1 2 3).bytes, 's', "a@b.cn".toList, cstr errstr⟩ := rfl
  rw [records, crowd, List.filterMap_map]
  simp only [Function.comp_def, hrecord, cstr_self h]
  rw [List.filterMap_eq_map', List.map_const', List.length_range]

/-- Four thousand mails, each with an answer of 255 bytes. -/
theorem long_report_refused :
    ¬ ∀ (mails : StdMap Nat Mail) (beyond : Text),
      20 + ((records mails).flatMap Record.bytes).length ≤ reqSize →
      ∃ pieces vec, sendReport mails = some (pieces, vec) ∧
        (session beyond pieces.flatten).map (·.1) = some (records mails) := by
  intro h
  have hnul : nul ∉ List.replicate 255 'e' := fun hm =>
    absurd (List.eq_of_mem_replicate hm) (by decide)
  have hlen : ((records (crowd 4000 (List.replicate 255 'e'))).flatMap Record.bytes).length
      = 4000 * 276 := by
    rw [records_crowd 4000 hnul, List.length_flatMap, List.map_replicate, List.sum_replicate_nat,
      Record.length_bytes rfl, List.length_replicate]
    rfl
  have hsize : reqSize = 8388608 := rfl
  obtain ⟨pieces, vec, hsend, hread⟩ := h (crowd 4000 (List.replicate 255 'e')) [] (by omega)
  obtain ⟨pieces', hsend', hflat⟩ :=
    @sendReport_eq (crowd 4000 (List.replicate 255 'e')) (by omega)
  obtain ⟨rfl, -⟩ := Prod.mk.inj (Option.some.inj (hsend.symm.trans hsend'))
  have hbody : (reportBody (records (crowd 4000 (List.replicate 255 'e')))).length
      = 16 + 4000 * 276 := by
    rw [length_reportBody, hlen]
  rw [session, hflat, receivePackage_be32 (by omega) (by omega), if_neg (by omega)] at hread
  cases hread

end Edm.Deliver
