import Edm.Deliver.Engine
import Edm.Support.Split

/-!
# Deliver — Report

The report of the delivery engine on the wire: `RequestMail::SendReport` writes it, and the list
daemon reads it when it handles command 3.

A record is twelve bytes of task number, a letter, the mailbox and the text of the answer, each
with its NUL.  The daemon finds the records by the NULs alone; `readReport_body` says that it finds
those that were written.
-/

namespace Edm.Deliver
open Support

/-- A record of a report. -/
structure Record where
  id : Text
  letter : Char
  mail : Text
  text : Text
  deriving DecidableEq

/-- The twelve bytes of a task number. -/
def TaskId.bytes (t : TaskId) : Text := be32 t.time ++ be32 t.mId ++ be32 t.pId

/-- The record of a mail, if it is reported. -/
def Mail.record (m : Mail) : Option Record :=
  m.code.map fun c => ⟨m.node.taskId.bytes, c, cstr m.node.mail, cstr m.node.errstr⟩

/-- A record on the wire. -/
def Record.bytes (r : Record) : Text :=
  r.id ++ r.letter :: (r.mail ++ nul :: (r.text ++ [nul]))

/-- `InstallHead`, behind the length. -/
def installHead (nCmd : Int) : Text :=
  [Char.ofNat 255, Char.ofNat 254, nul, Char.ofNat 1, nul, Char.ofNat 1, nul, Char.ofNat 1]
    ++ be32 nCmd

/-- The report of `SendReport` behind its length. -/
def reportBody (records : List Record) : Text :=
  installHead 3 ++ be32 records.length ++ records.flatMap Record.bytes

/-- The records of a report. -/
def records (mails : StdMap Nat Mail) : List Record := mails.entries.filterMap fun e => e.2.record

/-- The message of `SendReport`, if it fits the eight megabytes that are taken for it. -/
def report (mails : StdMap Nat Mail) : Option Text :=
  let body := reportBody (records mails)
  if 4 + body.length ≤ 1024 * 1024 * 8 then some (be32 body.length ++ body) else none

/-! ### The daemon -/

/-- The record at the start of a memory. -/
def readRecord (mem : Text) : Record where
  id := mem.take 12
  letter := mem.getD 12 nul
  mail := cstr (mem.drop 13)
  text := cstr (mem.drop (14 + (cstr (mem.drop 13)).length))

/-- `nOffset += strlen(sMsg+nOffset+12)+13; nOffset = nOffset+strlen(sMsg+nOffset)+1`. -/
def nextRecord (mem : Text) : Text :=
  let mem' := mem.drop ((cstr (mem.drop 12)).length + 13)
  mem'.drop ((cstr mem').length + 1)

/-- The loop over the records: `nNumber` of them, or as many as the message holds. -/
def readRecords : Nat → Text → List Record
  | 0, _ => []
  | nNumber + 1, mem =>
      if mem.isEmpty then [] else readRecord mem :: readRecords nNumber (nextRecord mem)

/-- The records of a report that the daemon has received. -/
def readReport (sMsg : Text) : List Record :=
  readRecords (ofBe32 (sMsg.drop 12)).toNat (sMsg.drop 16)

/-! ### What is written is read -/

/-- A record as `SendReport` makes it. -/
structure Record.Clean (r : Record) : Prop where
  id : r.id.length = 12
  letter : r.letter ≠ nul
  mail : nul ∉ r.mail
  text : nul ∉ r.text

theorem Mail.code_ne_nul {m : Mail} {c : Char} (h : m.code = some c) : c ≠ nul := by
  rintro rfl
  rw [code] at h
  split at h
  · exact absurd h (by decide)
  · exact absurd h (by decide)
  · exact absurd h (by decide)
  · split at h
    · exact absurd h (by decide)
    · cases h
  · cases h

theorem Mail.record_clean {m : Mail} {r : Record} (h : m.record = some r) : r.Clean := by
  obtain ⟨c, hc, rfl⟩ := Option.map_eq_some_iff.mp h
  exact ⟨rfl, code_ne_nul hc, nul_not_mem_cstr _, nul_not_mem_cstr _⟩

theorem clean_of_mem_records {mails : StdMap Nat Mail} : ∀ r ∈ records mails, r.Clean := by
  intro r hr
  obtain ⟨e, -, he⟩ := List.mem_filterMap.mp hr
  exact Mail.record_clean he

section
variable {r : Record} (h : r.Clean) (mem : Text)
include h

theorem Record.Clean.drop_thirteen :
    (r.bytes ++ mem).drop 13 = r.mail ++ nul :: (r.text ++ nul :: mem) := by
  have h13 : 13 = r.id.length + 1 := by rw [h.id]
  rw [Record.bytes, List.append_assoc, h13, List.drop_append, List.drop_eq_nil_of_le (by omega)]
  simp

theorem Record.Clean.read : readRecord (r.bytes ++ mem) = r := by
  have hmail : cstr ((r.bytes ++ mem).drop 13) = r.mail := by
    rw [h.drop_thirteen, cstr_append h.mail]
  have htext : cstr ((r.bytes ++ mem).drop (14 + r.mail.length)) = r.text := by
    have hsplit : 14 + r.mail.length = 13 + (r.mail.length + 1) := by omega
    rw [hsplit, ← List.drop_drop, h.drop_thirteen, List.drop_append,
      List.drop_eq_nil_of_le (by omega), List.nil_append, Nat.add_sub_cancel_left,
      List.drop_succ_cons, List.drop_zero, cstr_append h.text]
  have hid : (r.bytes ++ mem).take 12 = r.id := by
    rw [Record.bytes, List.append_assoc, ← h.id, List.take_left]
  have hletter : (r.bytes ++ mem).getD 12 nul = r.letter := by
    rw [Record.bytes, List.append_assoc, List.getD_eq_getElem?_getD,
      List.getElem?_append_right h.id.le, h.id]
    rfl
  rw [readRecord, hmail, htext, hid, hletter]

theorem Record.Clean.drop_twelve :
    (r.bytes ++ mem).drop 12 = (r.letter :: r.mail) ++ nul :: (r.text ++ nul :: mem) := by
  rw [Record.bytes, List.append_assoc, ← h.id, List.drop_left]
  simp

omit mem in
theorem Record.Clean.nul_not_mem : nul ∉ r.letter :: r.mail := fun hm =>
  (List.mem_cons.mp hm).elim (fun he => h.letter he.symm) h.mail

theorem Record.Clean.drop_mail :
    (r.bytes ++ mem).drop (r.mail.length + 1 + 13) = r.text ++ nul :: mem := by
  rw [Nat.add_comm, ← List.drop_drop, h.drop_thirteen, List.drop_append,
    List.drop_eq_nil_of_le (by omega), List.nil_append, Nat.add_sub_cancel_left,
    List.drop_succ_cons, List.drop_zero]

theorem Record.Clean.next : nextRecord (r.bytes ++ mem) = mem := by
  have hfirst : (cstr ((r.bytes ++ mem).drop 12)).length = r.mail.length + 1 := by
    rw [h.drop_twelve, cstr_append h.nul_not_mem, List.length_cons]
  simp only [nextRecord, hfirst, h.drop_mail]
  rw [cstr_append h.text, List.drop_append, List.drop_eq_nil_of_le (by omega), List.nil_append,
    Nat.add_sub_cancel_left, List.drop_succ_cons, List.drop_zero]

end

theorem readRecords_bytes : ∀ {records : List Record}, (∀ r ∈ records, r.Clean) →
    readRecords records.length (records.flatMap Record.bytes) = records
  | [], _ => rfl
  | r :: records, h => by
      obtain ⟨hr, hrest⟩ := List.forall_mem_cons.mp h
      have hne : (r.bytes ++ records.flatMap Record.bytes).isEmpty = false := by
        rw [Record.bytes]
        simp
      rw [List.length_cons, List.flatMap_cons, readRecords, hne, if_neg Bool.false_ne_true,
        hr.read, hr.next, readRecords_bytes hrest]

/-- The daemon finds the records that were written. -/
theorem readReport_body {records : List Record} (h : ∀ r ∈ records, r.Clean)
    (hn : records.length < 2 ^ 31) : readReport (reportBody records) = records := by
  have hnumber : ofBe32 ((reportBody records).drop 12) = records.length := by
    rw [reportBody, List.append_assoc]
    exact (ofBe32_append _ _).trans (int32_of_range (by omega) (by omega))
  have hrecords : (reportBody records).drop 16 = records.flatMap Record.bytes := rfl
  rw [readReport, hnumber, hrecords, Int.toNat_natCast, readRecords_bytes h]

theorem length_le_reportBody (records : List Record) :
    records.length ≤ (reportBody records).length := by
  have hmem : ∀ l : List Record, l.length ≤ (l.flatMap Record.bytes).length := by
    intro l
    induction l with
    | nil => exact Nat.le_refl _
    | cons r l ih =>
        rw [List.flatMap_cons, List.length_append, List.length_cons]
        have : 1 ≤ r.bytes.length := by
          rw [Record.bytes, List.length_append, List.length_cons]
          omega
        omega
  have := hmem records
  rw [reportBody, List.length_append]
  omega

/-- The daemon finds the records of the message. -/
theorem readReport_report {mails : StdMap Nat Mail} {msg : Text} (h : report mails = some msg) :
    readReport (msg.drop 4) = records mails := by
  simp only [report] at h
  split at h
  next hfits =>
    obtain rfl := Option.some.inj h
    have hdrop : (be32 (reportBody (records mails)).length ++ reportBody (records mails)).drop 4
        = reportBody (records mails) := rfl
    have := length_le_reportBody (records mails)
    rw [hdrop, readReport_body clean_of_mem_records (by omega)]
  next => cases h

end Edm.Deliver
