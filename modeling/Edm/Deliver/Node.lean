import Edm.Support.Bytes
import Edm.Support.StdMap

/-!
# Deliver — Node

A mail in the delivery engine (`struct mail_node`), and how a list of mails is read from a
message of the list daemon (`RequestMail::MakeMailList`, `RequestMail::SplitVariable`).

A mail is four bytes of length, twelve of task number, the mailbox, and one string
`$name$value` for each variable; every string ends in a NUL.  The strings are copied into buffers
on the stack and in the node.  Where one does not fit the readers are `none`.
-/

namespace Edm.Deliver
open Support

/-- `struct Task_Id`. -/
structure TaskId where
  time : Nat
  mId : Nat
  pId : Nat
  deriving DecidableEq

/-- The values of `status`. -/
inductive Status where
  | unsent | sent | sending | soft | hard | stopped
  deriving DecidableEq, Repr

/-- `struct mail_node`. -/
structure MailNode where
  status : Status
  failtimes : Nat
  domain : Text
  mail : Text
  errstr : Text
  stime : Int
  taskId : TaskId
  mapVariable : StdMap Text Text

/-- The value of an `unsigned int`. -/
def toUnsigned (z : Int) : Nat := (z % 2 ^ 32).toNat

theorem toUnsigned_int32 (z : Int) : toUnsigned (int32 z) = toUnsigned z :=
  congrArg Int.toNat (Int.bmod_emod (x := z) (m := 2 ^ 32))

/-- The task number at the start of a memory. -/
def readTaskId (s : Text) : TaskId :=
  ⟨toUnsigned (ofBe32 s), toUnsigned (ofBe32 (s.drop 4)), toUnsigned (ofBe32 (s.drop 8))⟩

/-- `sscanf(mail, "%[^@]@%[^@]", usrname, domain)`, and the domain without blanks. -/
def mailDomain (mail : Text) : Text :=
  if (cut '@' mail).1.isEmpty then []
  else (cut '@' (cut '@' mail).2).1.filter fun c => !(c == ' ' || c == '\t')

/-- `sscanf(tmp, "%[$]%[^$]$%[^$]", s, key, value)`: a conversion that is not reached leaves the
empty text.  `s` has 4 bytes, `key` 128. -/
def scanVariable (tmp : Text) : Option (Text × Text) :=
  let s := tmp.takeWhile (· == '$')
  let key := (tmp.dropWhile (· == '$')).takeWhile (· != '$')
  let value := (((tmp.dropWhile (· == '$')).dropWhile (· != '$')).drop 1).takeWhile (· != '$')
  if s.isEmpty then some ([], [])
  else if 3 < s.length ∨ 127 < key.length then none
  else some (key, value)

/-- The loop of `SplitVariable` at the last `n` bytes of `mem`; `p` is where the string that
ends next starts, and `seen` says that the mailbox is over. -/
def splitLoop : Nat → Text → Text → Bool → StdMap Text Text → Option (StdMap Text Text)
  | 0, _, _, _, vars => some vars
  | n + 1, mem, p, seen, vars =>
      if mem.headD nul = nul then
        if 4194303 < (cstr p).length then none
        else if seen then
          (scanVariable (cstr p)).bind fun kv =>
            splitLoop n mem.tail mem.tail true (vars.set kv.1 kv.2)
        else splitLoop n mem.tail mem.tail true vars
      else splitLoop n mem.tail p seen vars

/-- `SplitVariable`. -/
def splitVariable (mem : Text) (mailLength : Int) : Option (StdMap Text Text) :=
  if mailLength < 12 then none
  else splitLoop (mailLength - 12).toNat mem mem false StdMap.empty

/-- One mail of the list. -/
def makeMail (mail : Text) : Option MailNode :=
  if 127 < (cstr (mail.drop 16)).length then none
  else
    (splitVariable (mail.drop 16) (ofBe32 mail)).map fun vars =>
      { status := .unsent
        failtimes := 0
        domain := mailDomain (cstr (mail.drop 16))
        mail := cstr (mail.drop 16)
        errstr := []
        stime := 0
        taskId := readTaskId (mail.drop 4)
        mapVariable := vars }

/-- `MakeMailList`: the mails of a message, in order.  A mail of length zero, or of a task whose
first number is above 3000000, takes a sequence number but is not added: it is `none`. -/
def makeMailList : Nat → Text → Option (List (Option MailNode))
  | 0, _ => some []
  | mailnum + 1, mail =>
      if ofBe32 mail = 0 then (makeMailList mailnum mail).map (none :: ·)
      else
        (makeMail mail).bind fun node =>
          (makeMailList mailnum (mail.drop (4 + (ofBe32 mail).toNat))).map fun nodes =>
            (if 3000000 < node.taskId.time then none else some node) :: nodes

/-- A message with one mail, to `a@b.c`, of the task `0.0.0`. -/
def oneMail : Text :=
  List.replicate 3 nul ++ Char.ofNat 18 :: List.replicate 12 nul ++ "a@b.c".toList ++ [nul]

end Edm.Deliver
