import Edm.Maillist.Task
import Edm.Support.Bytes
import Edm.Support.Split
import Mathlib.Logic.Function.Basic

/-!
# Maillist — TaskFile

`ReadTaskFileWithLevel`: a task file becomes the mail lists of a task.

The file has sections.  `<$ID>` is followed by the three numbers of the task, `<$MAILLIST>` by a
line of column names and one line for each subscriber, mailbox first.  The lines are taken in
batches of 512 MB.  For each batch the check server is asked about all its mailboxes; its answer
names, in the same order, mailboxes with a score, and a line's score gives it its level, or
rejects it.  A line the list already has at its level is passed over.

The answers are a parameter: `answers` holds, for each batch, what `ReceiveReply` read, and the
empty text when the server was not reached.  A match against an answer line without a comma
makes the daemon read through a null pointer; the loader is `none` there.

The block of a list begins with 10240000 bytes and counts as one of 10240.  It is given 10240 bytes
more than it counts for when less than 2048 seem to be left, however long the next record is: a long
record may run over it, or make the next growth cut it off.  The loader is `none` there as well.
-/

namespace Edm.Maillist
open Support

/-! ### Lines -/

/-- `EndLine`. -/
def endLine (sLine : Text) : Text :=
  if (cstr sLine).contains '\r' then (cut '\r' (cstr sLine)).1 else (cut '\n' (cstr sLine)).1

/-- `n` times: the text up to the next comma, and on behind it. -/
def cutCommas : Nat → Text → List Text
  | 0, s => [s]
  | n + 1, s => if s.contains ',' then (cut ',' s).1 :: cutCommas n (cut ',' s).2 else [s]

/-- `nParamName`: the names of the columns, of which the array holds 256. -/
def paramNames (sParamLine : Text) : List Text := cutCommas 255 (endLine sParamLine)

/-- `sParamLine + nParamName[i]`; the entries behind the last name are zero. -/
def paramName (names : List Text) (i : Nat) : Text := names.getD i (names.headD [])

/-! ### Records -/

/-- The fields of a subscriber line.  The loop over them ends at an empty rest. -/
def recordFields (s : Text) : List Text :=
  if (s.splitOn ',').getLast? = some [] then (s.splitOn ',').dropLast else s.splitOn ','

/-- What field `i` adds to the record. -/
def fieldText (names : List Text) (f : Text) (i : Nat) : Text :=
  (if i ≠ 0 ∧ i < 256 then '$' :: paramName names i ++ ['$'] else []) ++ f ++ [nul]

/-- The record of a line `s`, which starts with its level byte. -/
def recordText (names : List Text) (s : Text) : Text :=
  ((recordFields s).zipIdx.map fun f => fieldText names f.1 f.2).flatten

/-- The record behind its length, which leaves the level byte out. -/
def record (names : List Text) (s : Text) : Text :=
  le32 ((recordText names s).length - 1) ++ recordText names s

/-- The block of a list: how long the loader takes it for, how long it is, and how much of it is in
use. -/
structure MailBlock where
  nMailboxListSize : Nat
  allocated : Nat
  nMailboxListUsed : Nat

namespace MailBlock

/-- `realloc`, when less than 2048 bytes seem to be left. -/
def grow (b : MailBlock) : MailBlock :=
  if b.nMailboxListSize < b.nMailboxListUsed + 2048 then
    ⟨b.nMailboxListSize + 10240, b.nMailboxListSize + 10240, b.nMailboxListUsed⟩
  else b

/-- `n` more bytes lie in the block, and its size is an `int`. -/
def Holds (b : MailBlock) (n : Nat) : Prop :=
  b.nMailboxListUsed + n ≤ b.grow.allocated ∧ b.grow.nMailboxListSize < 2 ^ 31

instance (b : MailBlock) (n : Nat) : Decidable (b.Holds n) := inferInstanceAs (Decidable (_ ∧ _))

/-- `n` bytes are written. -/
def put (b : MailBlock) (n : Nat) : MailBlock :=
  { b.grow with nMailboxListUsed := b.nMailboxListUsed + n }

/-- The block of a list no line has been read into. -/
def start : MailBlock := ⟨10240, 10240000, 0⟩

/-- Records of these lengths lie in the block one after another. -/
def HoldsAll : MailBlock → List Nat → Prop
  | _, [] => True
  | b, n :: ns => b.Holds n ∧ (b.put n).HoldsAll ns

instance decidableHoldsAll : ∀ (ns : List Nat) (b : MailBlock), Decidable (b.HoldsAll ns)
  | [], _ => isTrue trivial
  | n :: ns, b =>
      have := decidableHoldsAll ns (b.put n)
      inferInstanceAs (Decidable (_ ∧ _))

theorem holdsAll_concat {n : Nat} : ∀ {ns : List Nat} {b : MailBlock},
    b.HoldsAll (ns ++ [n]) ↔ b.HoldsAll ns ∧ (ns.foldl put b).Holds n
  | [], b => and_comm
  | m :: ns, b => by
      rw [List.cons_append, HoldsAll, HoldsAll, List.foldl_cons, holdsAll_concat, and_assoc]

theorem holdsAll_of_append {ms : List Nat} : ∀ {ns : List Nat} {b : MailBlock},
    b.HoldsAll (ns ++ ms) → b.HoldsAll ns
  | [], _, _ => trivial
  | _ :: _, _, h => ⟨h.1, holdsAll_of_append h.2⟩

end MailBlock

def MailList.mailBlock (p : MailList) : MailBlock :=
  ⟨p.nMailboxListSize, p.allocated, p.sMailboxList.length⟩

/-- A line `s` with its level byte goes into a list. -/
def MailList.addRecord (p : MailList) (names : List Text) (level : Nat) (body : Text) :
    MailList :=
  let bytes := record names (Char.ofNat level :: body)
  let q := { p with
    sMailboxList := p.sMailboxList ++ bytes
    sHeap := p.sHeap.drop bytes.length
    nMailboxListSize := p.mailBlock.grow.nMailboxListSize
    allocated := p.mailBlock.grow.allocated }
  { q with
    sOffsetList := q.keepOrderFast2 p.sMailboxList.length p.sMailboxList.length
    nCount := p.nCount + 1
    nSum := p.nSum + 1
    nActive := if level = 5 then p.nActive + 1 else p.nActive
    nNormal := if level = 10 then p.nNormal + 1 else p.nNormal
    nSilent := if level = 15 then p.nSilent + 1 else p.nSilent }

/-- Adding a record uses up its bytes of the block. -/
theorem MailList.mailBlock_addRecord (p : MailList) (names : List Text) (level : Nat) (body : Text) :
    (p.addRecord names level body).mailBlock
      = p.mailBlock.put (record names (Char.ofNat level :: body)).length := by
  simp only [mailBlock, addRecord, MailBlock.put, List.length_append]

/-- A record goes into a list; `none` when it runs over the block. -/
def MailList.writeRecord (p : MailList) (names : List Text) (level : Nat) (body : Text) :
    Option MailList :=
  if p.mailBlock.Holds (record names (Char.ofNat level :: body)).length then
    some (p.addRecord names level body)
  else none

/-- A line goes into a list that has no record of its mailbox at its level.  `tail` is the memory
behind the line. -/
def MailList.addBox (p : MailList) (names : List Text) (level : Nat) (body tail : Text) :
    Option MailList :=
  let box := Char.ofNat level :: (cut ',' body).1 ++ nul :: (cut ',' body).2 ++ tail
  if (p.search box).isSome then some p else p.writeRecord names level body

/-- A mailbox the check server rejects. -/
def MailList.reject (p : MailList) : MailList :=
  { p with nNotFound := p.nNotFound + 1, nCount := p.nCount + 1, nSum := p.nSum + 1 }

/-! ### The answer of the check server -/

/-- The next line with an `@`, or what follows the last line. -/
def nextAnswer : List Text → List Text
  | _ :: l :: r => if r.isEmpty || l.contains '@' then l :: r else nextAnswer (l :: r)
  | ls => ls

/-- `sB2` and what follows it, before the first subscriber line. -/
def firstAnswer (sReturn : Text) : List Text := nextAnswer ((cstr sReturn).splitOn '\n')

/-- The level byte of a score; `0` rejects the mailbox. -/
def scoreLevel (nActiveScore nScore : Int) : Nat :=
  if nScore = 0 then 15
  else if nActiveScore ≤ nScore then 5
  else if nScore < 0 then 0
  else 10

/-- The score of a mailbox, and the answers for the lines behind it. -/
def takeScore (sB1 : Text) (sB2 : List Text) : Option (Int × List Text) :=
  if !sB1.isEmpty && strcasecmpEq sB1 (cut ',' (sB2.headD [])).1 then
    if (sB2.headD []).contains ',' then
      some (atoi (cut ',' (sB2.headD [])).2, nextAnswer sB2)
    else none
  else some (0, sB2)

/-! ### Subscriber lines -/

section
variable {pAlias : DomainAlias} (nActiveScore : Int) (names : List Text)

/-- The mail lists while the file is read. -/
abbrev Lists (pAlias : DomainAlias) := Fin (pAlias.nDomainNum + 1) → MailList

/-- One line of the batch, without its line end; `tail` is the memory behind it. -/
def readLine (body tail : Text) (sB2 : List Text) (pMail : Lists pAlias) :
    Option (List Text × Lists pAlias) :=
  let sB1 := (cut ',' body).1
  if !sB1.contains '@' then some (sB2, pMail)
  else
    (takeScore sB1 sB2).bind fun (nScore, sB2) =>
      if !body.contains ',' then some (sB2, pMail)
      else
        let nWhich := pAlias.which (cut '@' sB1).2
        let level := scoreLevel nActiveScore nScore
        if level ≠ 0 then
          ((pMail nWhich).addBox names level body tail).map fun p =>
            (sB2, Function.update pMail nWhich p)
        else some (sB2, Function.update pMail nWhich (pMail nWhich).reject)

/-- The lines of the batch; what follows the last line end is not one. -/
def readLines : List Text → List Text → Lists pAlias → Option (List Text × Lists pAlias)
  | l :: next :: rest, sB2, pMail =>
      let body := if l.getLast? = some '\r' then l.dropLast else l
      let tail := (if l.getLast? = some '\r' then [nul] else []) ++
        nul :: ['\n'].intercalate (next :: rest)
      (readLine nActiveScore names body tail sB2 pMail).bind fun r =>
        readLines (next :: rest) r.1 r.2
  | _, sB2, pMail => some (sB2, pMail)

end

/-! ### The file -/

/-- The lines of one batch, what the file holds behind them, and `nFinish`. -/
def gather : Nat → Text → Text → Text × Text × Bool
  | 0, sList, pIn => (sList, pIn, true)
  | fuel + 1, sList, pIn =>
      if sList.length < 512000000 then
        match fgets 5242880 pIn with
        | none => (sList, pIn, true)
        | some (line, pIn) =>
            if strncmpEq line "</$MAILLIST>".toList then (sList ++ cstr line, pIn, true)
            else if (cstr line).contains '@' then gather fuel (sList ++ cstr line) pIn
            else gather fuel sList pIn
      else (sList, pIn, false)

/-- The subscriber lines behind the column names, batch by batch; what the file holds behind
them, and the answers left. -/
def readBatches {pAlias : DomainAlias} (nActiveScore : Int) (names : List Text) :
    Nat → Text → List Text → Lists pAlias → Option (Text × List Text × Lists pAlias)
  | 0, pIn, answers, pMail => some (pIn, answers, pMail)
  | fuel + 1, pIn, answers, pMail =>
      let batch := gather (pIn.length + 1) [] pIn
      (readLines nActiveScore names ((batch.1 ++ "\r\n\r\n".toList).splitOn '\n')
        (firstAnswer (answers.headD [])) pMail).bind fun r =>
          if batch.2.2 then some (batch.2.1, answers.tail, r.2)
          else readBatches nActiveScore names fuel batch.2.1 answers.tail r.2

/-- `sscanf(sLine, "%d.%d.%d", …)`: a number it does not reach keeps its value. -/
def scanID (n : Int × Int × Int) (sLine : Text) : Int × Int × Int :=
  match scanInt (cstr sLine) with
  | some (n₀, '.' :: s) =>
      match scanInt s with
      | some (n₁, '.' :: s) =>
          match scanInt s with
          | some (n₂, _) => (n₀, n₁, n₂)
          | none => (n₀, n₁, n.2.2)
      | some (n₁, _) => (n₀, n₁, n.2.2)
      | none => (n₀, n.2)
  | some (n₀, _) => (n₀, n.2)
  | none => n

/-- The twelve bytes of a task's number. -/
def idBytes (n : Int × Int × Int) : Text := be32 n.1 ++ be32 n.2.1 ++ be32 n.2.2

/-- Lines are read until one starts with `mark`. -/
def skipSection (mark : Text) : Nat → Text → Text
  | 0, pIn => pIn
  | fuel + 1, pIn =>
      match fgets 1023 pIn with
      | none => pIn
      | some (line, pIn) => if strncmpEq line mark then pIn else skipSection mark fuel pIn

/-- What the loader fills in: `sID` and the lists. -/
structure Loaded (pAlias : DomainAlias) where
  sID : Text
  answers : List Text
  pMail : Lists pAlias

/-- The sections of a task file; `n` is what the array of the task's numbers held before. -/
def readSections {pAlias : DomainAlias} (nActiveScore : Int) (n : Int × Int × Int) :
    Nat → Text → Loaded pAlias → Option (Loaded pAlias)
  | 0, _, r => some r
  | fuel + 1, pIn, r =>
      match fgets 1023 pIn with
      | none => some r
      | some (sLine, pIn) =>
          if strncmpEq sLine "<$ID>".toList then
            let (idLine, pIn) := (fgets 1000 pIn).getD (sLine, [])
            readSections nActiveScore n fuel (skipSection "</$ID>".toList (pIn.length + 1) pIn)
              { r with sID := idBytes (scanID n idLine) }
          else if strncmpEq sLine "<$MODULA>".toList then
            readSections nActiveScore n fuel
              (skipSection "</$MODULA>".toList (pIn.length + 1) pIn) r
          else if strncmpEq sLine "<$MAILLIST>".toList then
            let (sParamLine, pIn) := (fgets 4194303 pIn).getD ([], [])
            (readBatches nActiveScore (paramNames sParamLine) (pIn.length + 1) pIn r.answers
              r.pMail).bind fun (pIn, answers, pMail) =>
                readSections nActiveScore n fuel pIn { r with answers, pMail }
          else readSections nActiveScore n fuel pIn r

/-- `ReadTaskFileWithLevel`.  `sID` and `heap` are what the memory it fills in held before. -/
def readTaskFileWithLevel (nActiveScore : Int) (answers : List Text) (n : Int × Int × Int)
    (sID : Text) (pAlias : DomainAlias) (heap : Fin (pAlias.nDomainNum + 1) → Text)
    (pIn : Text) : Option (Text × Lists pAlias) :=
  (readSections nActiveScore n (pIn.length + 1) pIn
    ⟨sID, answers, fun i => MailList.empty (heap i)⟩).map fun r =>
      (r.sID, fun i => { r.pMail i with nFail := (r.pMail i).nNotFound })

/-- The task is as `ReadTaskFileWithLevel` made it. -/
def TaskQueue.IsLoaded (t : TaskQueue) : Prop :=
  ∃ (nActiveScore : Int) (answers : List Text) (n : Int × Int × Int) (sID : Text)
    (heap : Fin (t.pAlias.nDomainNum + 1) → Text) (pIn : Text),
    readTaskFileWithLevel nActiveScore answers n sID t.pAlias heap pIn = some (t.sID, t.pMailList)

/-! ### A small task -/

def sampleAlias : DomainAlias := ⟨1, [("b.c".toList, 0)]⟩

def sampleFile : Text :=
  "<$ID>\n1.2.3\n</$ID>\n<$MAILLIST>\nmail,name\na1234@b.c,x\n</$MAILLIST>\n".toList

def sampleLoad : Option (Text × Lists sampleAlias) :=
  readTaskFileWithLevel 50 [] (0, 0, 0) [] sampleAlias (fun _ => []) sampleFile

theorem isSome_sampleLoad : sampleLoad.isSome = true := by decide +kernel

/-- The task of one subscriber. -/
def sampleTask : TaskQueue :=
  ⟨(sampleLoad.get isSome_sampleLoad).1, sampleAlias, (sampleLoad.get isSome_sampleLoad).2, 0, 0⟩

theorem isLoaded_sampleTask : sampleTask.IsLoaded :=
  ⟨50, [], (0, 0, 0), [], fun _ => [], sampleFile, (Option.some_get isSome_sampleLoad).symm⟩

example : (sampleTask.pMailList 0).sOffsetList = [⟨0, none⟩] := by decide +kernel

/-! ### What holds of every list of a file -/

section
variable {pAlias : DomainAlias} {nActiveScore : Int} {I : MailList → Prop}

/-- Adding records keeps `I`, and so does rejecting mailboxes. -/
structure KeptByLines (I : MailList → Prop) : Prop where
  addRecord : ∀ p names level body, I p → I (p.addRecord names level body)
  reject : ∀ p, I p → I p.reject

/-- In each list, look-up and insertion of a line that belongs to it keep `I`, and so does
rejecting mailboxes. -/
structure KeptByBoxes (I : Fin (pAlias.nDomainNum + 1) → MailList → Prop) : Prop where
  addBox : ∀ i p p' names level body tail, level = 5 ∨ level = 10 ∨ level = 15 → nul ∉ body →
    '@' ∈ (cut ',' body).1 → pAlias.which (cut '@' (cut ',' body).1).2 = i → I i p →
      p.addBox names level body tail = some p' → I i p'
  reject : ∀ i p, I i p → I i p.reject

theorem KeptByLines.boxes (hI : KeptByLines I) :
    KeptByBoxes fun _ : Fin (pAlias.nDomainNum + 1) => I where
  addBox _ p p' names level body tail _ _ _ _ h hadd := by
    rw [MailList.addBox, MailList.writeRecord] at hadd
    split_ifs at hadd
    · exact Option.some.inj hadd ▸ h
    · exact Option.some.inj hadd ▸ hI.addRecord p names level body h
  reject _ p h := hI.reject p h

/-- One list is replaced, the others stay. -/
theorem forall_update {pMail : Lists pAlias} {J : Fin (pAlias.nDomainNum + 1) → MailList → Prop}
    {i : Fin (pAlias.nDomainNum + 1)} {p : MailList} (h : ∀ j, J j (pMail j)) (hp : J i p) :
    ∀ j, J j (Function.update pMail i p j) :=
  (Function.forall_update_iff pMail J).mpr ⟨hp, fun j _ => h j⟩

theorem scoreLevel_mem (nScore : Int) : scoreLevel nActiveScore nScore = 0 ∨
    scoreLevel nActiveScore nScore = 5 ∨ scoreLevel nActiveScore nScore = 10 ∨
    scoreLevel nActiveScore nScore = 15 := by
  rw [scoreLevel]
  split
  · simp
  · split
    · simp
    · split <;> simp

variable {J : Fin (pAlias.nDomainNum + 1) → MailList → Prop}

theorem readLine_kept (hJ : KeptByBoxes J) {names : List Text} {body tail : Text}
    (hnul : nul ∉ body)
    {sB2 : List Text} {pMail : Lists pAlias} {r : List Text × Lists pAlias}
    (h : readLine nActiveScore names body tail sB2 pMail = some r) (h₀ : ∀ j, J j (pMail j)) :
    ∀ j, J j (r.2 j) := by
  simp only [readLine] at h
  split at h
  · cases h
    exact h₀
  · rename_i hat
    have hat : '@' ∈ (cut ',' body).1 := by simpa using hat
    obtain ⟨⟨nScore, sB2'⟩, -, h⟩ := Option.bind_eq_some_iff.mp h
    dsimp only at h
    split at h
    · cases h
      exact h₀
    · split at h
      · rename_i hlevel
        obtain ⟨p, hadd, rfl⟩ := Option.map_eq_some_iff.mp h
        exact forall_update h₀ (hJ.addBox _ _ _ _ _ _ _
          ((scoreLevel_mem nScore).resolve_left hlevel) hnul hat rfl (h₀ _) hadd)
      · cases h
        exact forall_update h₀ (hJ.reject _ _ (h₀ _))

theorem readLines_kept (hJ : KeptByBoxes J) {names : List Text} : ∀ {lines sB2 : List Text}
    {pMail : Lists pAlias} {r : List Text × Lists pAlias}, (∀ l ∈ lines, nul ∉ l) →
    readLines nActiveScore names lines sB2 pMail = some r → (∀ j, J j (pMail j)) →
      ∀ j, J j (r.2 j)
  | l :: next :: rest, sB2, pMail, r, hnul, h, h₀ => by
      rw [readLines] at h
      obtain ⟨r₁, h₁, h⟩ := Option.bind_eq_some_iff.mp h
      have hbody : nul ∉ (if l.getLast? = some '\r' then l.dropLast else l) := by
        intro hm
        refine hnul l List.mem_cons_self ?_
        split at hm
        · exact (List.dropLast_sublist l).subset hm
        · exact hm
      exact readLines_kept hJ (fun l' hl => hnul l' (List.mem_cons_of_mem _ hl)) h
        (readLine_kept hJ hbody h₁ h₀)
  | [], _, _, _, _, h, h₀ => by cases h; exact h₀
  | [_], _, _, _, _, h, h₀ => by cases h; exact h₀

theorem nul_not_mem_gather : ∀ {fuel : Nat} {sList pIn : Text}, nul ∉ sList →
    nul ∉ (gather fuel sList pIn).1
  | 0, _, _, h => h
  | fuel + 1, sList, pIn, h => by
      have hline : ∀ line : Text, nul ∉ sList ++ cstr line := fun line hm =>
        (List.mem_append.mp hm).elim h (nul_not_mem_cstr line)
      rw [gather]
      split
      · split
        · exact h
        · split
          · exact hline _
          · split
            · exact nul_not_mem_gather (hline _)
            · exact nul_not_mem_gather h
      · exact h

/-- The lines of a batch hold no NUL. -/
theorem nul_not_mem_batch (fuel : Nat) (pIn : Text) :
    ∀ l ∈ ((gather fuel [] pIn).1 ++ "\r\n\r\n".toList).splitOn '\n', nul ∉ l := by
  intro l hl hm
  rcases List.mem_append.mp (mem_of_mem_splitOn hl hm) with h | h
  · exact nul_not_mem_gather List.not_mem_nil h
  · exact absurd h (by decide)

theorem readBatches_kept (hJ : KeptByBoxes J) {names : List Text} : ∀ {fuel : Nat} {pIn : Text}
    {answers : List Text} {pMail : Lists pAlias} {r : Text × List Text × Lists pAlias},
    readBatches nActiveScore names fuel pIn answers pMail = some r → (∀ j, J j (pMail j)) →
      ∀ j, J j (r.2.2 j)
  | 0, _, _, _, _, h, h₀ => by cases h; exact h₀
  | fuel + 1, pIn, answers, pMail, r, h, h₀ => by
      rw [readBatches] at h
      obtain ⟨r₁, h₁, h⟩ := Option.bind_eq_some_iff.mp h
      have hr := readLines_kept hJ (nul_not_mem_batch _ pIn) h₁ h₀
      split at h
      · cases h; exact hr
      · exact readBatches_kept hJ h hr

theorem readSections_kept (hJ : KeptByBoxes J) {n : Int × Int × Int} : ∀ {fuel : Nat} {pIn : Text}
    {r r' : Loaded pAlias}, readSections nActiveScore n fuel pIn r = some r' →
      (∀ j, J j (r.pMail j)) → ∀ j, J j (r'.pMail j)
  | 0, _, _, _, h, h₀ => by cases h; exact h₀
  | fuel + 1, pIn, r, r', h, h₀ => by
      rw [readSections] at h
      split at h
      · cases h; exact h₀
      · split_ifs at h
        · exact readSections_kept hJ h h₀
        · exact readSections_kept hJ h h₀
        · obtain ⟨r₁, h₁, h⟩ := Option.bind_eq_some_iff.mp h
          exact readSections_kept hJ h (readBatches_kept hJ h₁ h₀)
        · exact readSections_kept hJ h h₀

/-- What an empty list has, and its lines keep, each list of a task file has. -/
theorem readTaskFileWithLevel_boxes (hJ : KeptByBoxes J) (hE : ∀ i heap, J i (MailList.empty heap))
    {answers : List Text} {n : Int × Int × Int} {sID : Text}
    {heap : Fin (pAlias.nDomainNum + 1) → Text} {pIn : Text} {r : Text × Lists pAlias}
    (h : readTaskFileWithLevel nActiveScore answers n sID pAlias heap pIn = some r)
    (j : Fin (pAlias.nDomainNum + 1)) :
    ∃ p, J j p ∧ r.2 j = { p with nFail := p.nNotFound } := by
  obtain ⟨r', h', rfl⟩ := Option.map_eq_some_iff.mp h
  exact ⟨r'.pMail j, readSections_kept hJ h' (fun i => hE i (heap i)) j, rfl⟩

end

end Edm.Maillist
