import Edm.Support.CString
import Edm.Support.Search

/-!
# Maillist — Task

The data of a mailing task in the list daemon (`maillist7.h`), and how an entry of it is found.

A `MailList` holds the subscribers of one domain.  Their records lie one behind the other in
`sMailboxList`: the length of the record, its level byte, the mailbox, and the other columns,
each ended by a NUL.  `sOffsetList` holds, in the order of `compareMailbox`, where each record
starts and the status last reported for it.  A task has one list for every domain of its alias
table and one for all others.

* `findAliasDomain` finds the list of a domain.
* `MailList.findBox` finds the entry of a mailbox: a binary search at each of the three levels.
* `keepOrderFast2` is the place a new record takes among the old ones.
-/

namespace Edm.Maillist
open Support

/-- The values `D_MailList_…` of the status byte of an entry; `0`, nothing reported yet, is
`none`. -/
inductive MailStat where
  | fail | success | delay | notFound | dns | spam
  deriving DecidableEq, Repr

/-- Five bytes of `sOffsetList`: where the record starts, and its status. -/
structure Entry where
  nPos : Nat
  stat : Option MailStat
  deriving DecidableEq, Inhabited

/-- `struct MailList`.  `sMailboxList` is the part of the block in use, `sHeap` what lies behind it;
`allocated` is how long the block is, `nMailboxListSize` how long the loader takes it for; `nNowPos`
counts entries. -/
structure MailList where
  sMailboxList : Text
  sHeap : Text
  nMailboxListSize : Nat
  allocated : Nat
  sOffsetList : List Entry
  nCount : Int
  nSum : Int
  nSend : Int
  nSuccess : Int
  nFail : Int
  nDelay : Int
  nNotFound : Int
  nActive : Int
  nNormal : Int
  nSilent : Int
  nFailNotFound : Int
  nFailDns : Int
  nFailSpam : Int
  nRound : Int
  nNowPos : Nat
  nTime : Int
  deriving DecidableEq

/-- A list no line has been read into, over a block that holds `sHeap`. -/
def MailList.empty (sHeap : Text) : MailList where
  sMailboxList := []
  sHeap := sHeap
  nMailboxListSize := 10240
  allocated := 10240000
  sOffsetList := []
  nCount := 0
  nSum := 0
  nSend := 0
  nSuccess := 0
  nFail := 0
  nDelay := 0
  nNotFound := 0
  nActive := 0
  nNormal := 0
  nSilent := 0
  nFailNotFound := 0
  nFailDns := 0
  nFailSpam := 0
  nRound := 0
  nNowPos := 0
  nTime := 0

/-- The alias table: each alias with the number of its domain, in the order of `strcmp`. -/
structure DomainAlias where
  nDomainNum : Nat
  sAlias : List (Text × Fin nDomainNum)

/-- `struct TaskQueue`, one task of the queue. -/
structure TaskQueue where
  sID : Text
  pAlias : DomainAlias
  pMailList : Fin (pAlias.nDomainNum + 1) → MailList
  tFinishTime : Int
  tPauseTime : Int

/-! ### Domains -/

/-- `FindAliasDomain`; `none` is `-1`. -/
def findAliasDomain (sAlias : Text) (p : DomainAlias) : Option (Fin p.nDomainNum) :=
  (bsearch (fun nM => strcmp ((p.sAlias.map Prod.fst).getD nM []) sAlias) p.sAlias.length).bind
    fun nM => (p.sAlias[nM]?).map Prod.snd

/-- The list of a domain: its own, or the last one, which takes all unknown domains. -/
def DomainAlias.which (p : DomainAlias) (sAlias : Text) : Fin (p.nDomainNum + 1) :=
  match findAliasDomain sAlias p with
  | some i => i.castSucc
  | none => Fin.last p.nDomainNum

/-! ### Mailboxes -/

/-- `CompareMailbox`, on two mailboxes behind their level bytes.  It reads up to the fifth byte
of a mailbox also when the mailbox is shorter. -/
def compareMailbox (sMailbox1 sMailbox2 : Text) : Int :=
  if charAt sMailbox1 0 ≠ charAt sMailbox2 0 then charAt sMailbox1 0 - charAt sMailbox2 0
  else if charAt sMailbox1 2 + charAt sMailbox1 5 ≠ charAt sMailbox2 2 + charAt sMailbox2 5 then
    charAt sMailbox1 2 + charAt sMailbox1 5 - (charAt sMailbox2 2 + charAt sMailbox2 5)
  else if charAt sMailbox1 4 ≠ charAt sMailbox2 4 then charAt sMailbox1 4 - charAt sMailbox2 4
  else strcmp sMailbox1 sMailbox2

/-- The memory at `sMailboxList + nPos`. -/
def MailList.at (p : MailList) (nPos : Nat) : Text := (p.sMailboxList ++ p.sHeap).drop nPos

/-- Where the record of entry `nM` starts. -/
def MailList.offset (p : MailList) (nM : Nat) : Nat := (p.sOffsetList.getD nM default).nPos

/-- Entry `nM` against the mailbox at `ss`. -/
def MailList.compareAt (p : MailList) (ss : Text) (nM : Nat) : Int :=
  compareMailbox (p.at (p.offset nM + 4)) ss

/-- The binary search of a list for the mailbox at `ss`. -/
def MailList.search (p : MailList) (ss : Text) : Option Nat :=
  bsearch (p.compareAt ss) p.sOffsetList.length

/-- The buffer `ss` of `ChangeMailboxStatWithLevel`; `stack` is what it holds behind the NUL
`snprintf` writes. -/
def levelBox (stack sMailbox : Text) (iii : Nat) : Text :=
  Char.ofNat (iii * 5) :: ((cstr sMailbox).take 89 ++ nul :: stack)

/-- The entry of a mailbox, at the first level that has one. -/
def MailList.findBox (p : MailList) (stack sMailbox : Text) : Option Nat :=
  [1, 2, 3].findSome? fun iii => p.search (levelBox stack sMailbox iii)

theorem MailList.findBox_lt {p : MailList} {stack sMailbox : Text} {nM : Nat}
    (h : p.findBox stack sMailbox = some nM) : nM < p.sOffsetList.length := by
  obtain ⟨_, _, h⟩ := List.exists_of_findSome?_eq_some h
  exact bsearch_lt h

/-! ### The order of the records -/

/-- The loop of `KeepOrderFast2`; `far m` says that entry `m` starts beyond `nMax`, and `none`
is its `-1`. -/
def keepOrderLoop (cmp : Nat → Int) (far : Nat → Bool) : Nat → Nat → Nat → Option Nat
  | 0, _, _ => none
  | fuel + 1, nB, nE =>
      if nB < nE then
        if far ((nB + nE) / 2) then none
        else if cmp ((nB + nE) / 2) < 0 then
          if 0 < cmp ((nB + nE) / 2 + 1) then some ((nB + nE) / 2 + 1)
          else keepOrderLoop cmp far fuel ((nB + nE) / 2 + 1) nE
        else if 0 < cmp ((nB + nE) / 2) then
          if far ((nB + nE) / 2 - 1) then none
          else if cmp ((nB + nE) / 2 - 1) < 0 then some ((nB + nE) / 2)
          else keepOrderLoop cmp far fuel nB ((nB + nE) / 2 - 1)
        else none
      else none

/-- The place of a new record among `n` old ones; `cmp m` is old record `m` against the new
one, and at `none` the new record stays behind all others. -/
def keepOrderPlace (cmp : Nat → Int) (far : Nat → Bool) (n : Nat) : Option Nat :=
  if n = 0 then none
  else if far (n - 1) then none
  else if cmp (n - 1) < 0 then none
  else if 0 < cmp 0 then some 0
  else if n = 2 then some 1
  else keepOrderLoop cmp far n 0 (n - 1)

/-- `KeepOrderFast2`: the new record, at `nPosAdd`, takes its place with status zero. -/
def MailList.keepOrderFast2 (p : MailList) (nPosAdd nMax : Nat) : List Entry :=
  let place := (keepOrderPlace (p.compareAt (p.at (nPosAdd + 4)))
    (fun nM => nMax < p.offset nM) p.sOffsetList.length).getD p.sOffsetList.length
  p.sOffsetList.take place ++ ⟨nPosAdd, none⟩ :: p.sOffsetList.drop place

theorem MailList.length_keepOrderFast2 (p : MailList) (nPosAdd nMax : Nat) :
    (p.keepOrderFast2 nPosAdd nMax).length = p.sOffsetList.length + 1 := by
  simp only [keepOrderFast2, List.length_append, List.length_cons, List.length_take,
    List.length_drop]
  omega

theorem MailList.mem_keepOrderFast2 {p : MailList} {nPosAdd nMax : Nat} {e : Entry} :
    e ∈ p.keepOrderFast2 nPosAdd nMax ↔ e ∈ p.sOffsetList ∨ e = ⟨nPosAdd, none⟩ := by
  simp only [keepOrderFast2, List.mem_append, List.mem_cons]
  rw [or_left_comm, ← List.mem_append, List.take_append_drop, or_comm]

end Edm.Maillist
