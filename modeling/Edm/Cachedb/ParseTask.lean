import Edm.Deliver.Node
import Edm.Support.Pack
import Edm.Support.Split

/-!
# Cachedb — ParseTask

How `ParseRequest::ParseMessage` reads the reports of the list daemon: the tasks of a message with
command 4 or 9, and the domains of one task with command 6, 7 or 8.  What it reads goes to
`list_task` and `list_task_domain`.

A message is a block of memory with a NUL behind it.  Where `ParseMessage` reads beyond that, or
where a domain does not fit the 64 bytes of its node, the reader is `none`.
-/

namespace Edm.Cachedb
open Support Deliver

/-- `struct tinfo_node`. -/
structure TinfoNode where
  send_flag : Nat
  suc_send : Nat
  total : Nat
  send : Nat
  template_id : Nat
  corp_id : Nat
  task_id : Nat
  hard_bounce_count : Nat
  soft_bounce_count : Nat
  none_exist_count : Nat
  none_exist_count1 : Nat
  dns_fail_count : Nat
  spam_garbage_count : Nat
  deriving DecidableEq

/-- `struct domain_node`. -/
structure TdomainNode where
  suc_send : Nat
  total : Nat
  send : Nat
  template_id : Nat
  corp_id : Nat
  task_id : Nat
  hard_bounce_count : Nat
  soft_bounce_count : Nat
  none_exist_count : Nat
  none_exist_count1 : Nat
  dns_fail_count : Nat
  spam_garbage_count : Nat
  domain : Text
  deriving DecidableEq

/-- What a message adds to the two lists. -/
structure Pushed where
  list_task : List TinfoNode
  list_task_domain : List TdomainNode
  deriving DecidableEq

/-- `ntohl` of the `unsigned int` at `req + i`. -/
def word (req : Text) (i : Nat) : Nat := toUnsigned (ofBe32 (req.drop i))

/-- One task; `COMMOND_REQ_TASK_MORE` has six counters more. -/
def readTask (nCmd : Nat) (req : Text) : Option (TinfoNode × Text) :=
  let more := nCmd == 9
  let size := if more then 49 else 25
  let count := fun i => if more then word req i else 0
  if req.length + 1 < size then none
  else some (
    { send_flag := (req.getD (size - 1) nul).toNat
      suc_send := word req 16
      total := word req 12
      send := word req 20
      template_id := word req 8
      corp_id := word req 0
      task_id := word req 4
      hard_bounce_count := count 24
      soft_bounce_count := count 28
      none_exist_count := count 32
      none_exist_count1 := count 36
      dns_fail_count := count 40
      spam_garbage_count := count 44 }, req.drop size)

/-- The number of counters of a domain. -/
def domainWords (nCmd : Nat) : Nat := if nCmd = 8 then 9 else if nCmd = 7 then 6 else 5

/-- One domain of the task at `req`. -/
def readDomain (nCmd : Nat) (req p : Text) : Option (TdomainNode × Text) :=
  let size := 4 * domainWords nCmd
  let count := fun i => if i < domainWords nCmd then word p (4 * i) else 0
  let domain := cstr (p.drop size)
  if p.length < size ∨ 63 < domain.length then none
  else some (
    { suc_send := word p 8
      total := word p 0
      send := word p 4
      template_id := word req 16
      corp_id := word req 8
      task_id := word req 12
      hard_bounce_count := word p 16
      soft_bounce_count := word p 12
      none_exist_count := count 5
      none_exist_count1 := count 6
      dns_fail_count := count 7
      spam_garbage_count := count 8
      domain := domain }, p.drop (size + domain.length + 1))

/-- `ParseMessage`, for the commands of the list daemon.  Domains without subscribers are left
out. -/
def parseMessage (req : Text) : Option Pushed :=
  let nCmd := word req 0
  if req.length + 1 < 4 then none
  else if nCmd = 4 ∨ nCmd = 9 then
    if req.length + 1 < 14 then none
    else (readItems (readTask nCmd) (ofBe16 (req.drop 12)) (req.drop 14)).map fun r => ⟨r.1, []⟩
  else if nCmd = 6 ∨ nCmd = 7 ∨ nCmd = 8 then
    if req.length + 1 < 20 then none
    else (readItems (readDomain nCmd req) (word req 4) (req.drop 20)).map fun r =>
      ⟨[], r.1.filter fun node => node.total != 0⟩
  else some ⟨[], []⟩

/-! ### What was written -/

/-- A number of an id of twelve bytes in front. -/
theorem word_id {sID : Text} (hid : sID.length = 12) {i : Nat} (hi : i ≤ 8) (tail : Text) :
    word (sID ++ tail) i = word sID i := by
  rw [word, word, List.drop_append_of_le_length (by omega), ofBe32_append_left]
  rw [List.length_drop]
  omega

theorem word_pack {l : List Int} {i : Nat} {z : Int} (h : l[i]? = some z) (tail : Text) :
    word (pack l ++ tail) (4 * i) = toUnsigned z := by
  rw [word, ofBe32_drop_pack h, toUnsigned_int32]

/-- A counter behind an id. -/
theorem word_counter {sID : Text} (hid : sID.length = 12) {l : List Int} {i : Nat} {z : Int}
    (h : l[i]? = some z) (tail : Text) :
    word (sID ++ (pack l ++ tail)) (12 + 4 * i) = toUnsigned z := by
  rw [← word_pack h tail, word, word, ← List.drop_drop, List.drop_left' hid]

/-- The 49 bytes of a task are read as they were written. -/
theorem readTask_pack {sID : Text} (hid : sID.length = 12) (flag : Char) (rest : Text)
    (total suc_send send hard soft none_exist none_exist1 dns spam : Int) :
    readTask 9 (sID ++ (pack [total, suc_send, send, hard, soft, none_exist, none_exist1, dns, spam]
        ++ [flag]) ++ rest)
      = some (
        { send_flag := flag.toNat
          suc_send := toUnsigned suc_send
          total := toUnsigned total
          send := toUnsigned send
          template_id := word sID 8
          corp_id := word sID 0
          task_id := word sID 4
          hard_bounce_count := toUnsigned hard
          soft_bounce_count := toUnsigned soft
          none_exist_count := toUnsigned none_exist
          none_exist_count1 := toUnsigned none_exist1
          dns_fail_count := toUnsigned dns
          spam_garbage_count := toUnsigned spam }, rest) := by
  have hassoc : ∀ l, sID ++ (pack l ++ [flag]) ++ rest = sID ++ (pack l ++ (flag :: rest)) := by
    intro l
    simp only [List.append_assoc, List.singleton_append]
  have hbehind : ∀ l : List Int, l.length = 9 →
      (sID ++ (pack l ++ (flag :: rest))).drop 48 = flag :: rest := by
    intro l hl
    have hpack : (pack l).length = 36 := by rw [length_pack, hl]
    rw [← List.drop_drop (i := 36) (j := 12), List.drop_left' hid, List.drop_left' hpack]
  have hbehind :=
      hbehind [total, suc_send, send, hard, soft, none_exist, none_exist1, dns, spam] rfl
  have hcounter := fun {i : Nat} {z : Int} h =>
    word_counter (i := i) (z := z) hid (l := [total, suc_send, send, hard, soft, none_exist,
      none_exist1, dns, spam]) h (flag :: rest)
  have hid' := fun {i : Nat} (hi : i ≤ 8) =>
      word_id hid hi (pack [total, suc_send, send, hard, soft,
      none_exist, none_exist1, dns, spam] ++ (flag :: rest))
  rw [hassoc]
  generalize sID ++ (pack [total, suc_send, send, hard, soft, none_exist, none_exist1, dns, spam]
    ++ (flag :: rest)) = req at hbehind hcounter hid' ⊢
  have hlength : ¬ req.length + 1 < 49 := by
    have := congrArg List.length hbehind
    rw [List.length_drop, List.length_cons] at this
    omega
  have hflag : req.getD 48 nul = flag := by
    rw [List.getD_eq_getElem?_getD, ← List.head?_drop, hbehind]
    rfl
  have hdrop : req.drop 49 = rest := by
    rw [← List.drop_drop (i := 1) (j := 48), hbehind]
    rfl
  have hmore : ∀ {A : Type} (a b : A), (if (9 == 9 : Bool) then a else b) = a := fun _ _ => rfl
  unfold readTask
  simp only [hmore, hflag, hdrop]
  rw [if_neg hlength, hid' (i := 0) (by decide), hid' (i := 4) (by decide),
    hid' (i := 8) (by decide),
    hcounter (i := 0) rfl, hcounter (i := 1) rfl, hcounter (i := 2) rfl, hcounter (i := 3) rfl,
    hcounter (i := 4) rfl, hcounter (i := 5) rfl, hcounter (i := 6) rfl, hcounter (i := 7) rfl,
    hcounter (i := 8) rfl]

/-- The bytes of a domain are read as they were written. -/
theorem readDomain_pack {name : Text} (hname : nul ∉ name) (hfits : name.length ≤ 63)
    (req rest : Text) (total send suc_send soft hard none_exist none_exist1 dns spam : Int) :
    readDomain 8 req (pack [total, send, suc_send, soft, hard, none_exist, none_exist1, dns, spam]
        ++ (name ++ [nul]) ++ rest)
      = some (
        { suc_send := toUnsigned suc_send
          total := toUnsigned total
          send := toUnsigned send
          template_id := word req 16
          corp_id := word req 8
          task_id := word req 12
          hard_bounce_count := toUnsigned hard
          soft_bounce_count := toUnsigned soft
          none_exist_count := toUnsigned none_exist
          none_exist_count1 := toUnsigned none_exist1
          dns_fail_count := toUnsigned dns
          spam_garbage_count := toUnsigned spam
          domain := name }, rest) := by
  have hassoc : ∀ l, pack l ++ (name ++ [nul]) ++ rest = pack l ++ (name ++ nul :: rest) := by
    intro l
    simp only [List.append_assoc, List.singleton_append]
  have hbehind : ∀ l : List Int, l.length = 9 →
      (pack l ++ (name ++ nul :: rest)).drop 36 = name ++ nul :: rest := by
    intro l hl
    rw [List.drop_left' (by rw [length_pack, hl])]
  have hbehind :=
      hbehind [total, send, suc_send, soft, hard, none_exist, none_exist1, dns, spam] rfl
  have hcounter := fun {i : Nat} {z : Int} h =>
    word_pack (i := i) (z := z) (l := [total, send, suc_send, soft, hard, none_exist, none_exist1,
      dns, spam]) h (name ++ nul :: rest)
  rw [hassoc]
  generalize pack [total, send, suc_send, soft, hard, none_exist, none_exist1, dns, spam]
    ++ (name ++ nul :: rest) = p at hbehind hcounter ⊢
  have hcstr : cstr (p.drop 36) = name := by
    rw [hbehind]
    exact cstr_append hname rest
  have hlength : ¬ (p.length < 36 ∨ 63 < name.length) := by
    have := congrArg List.length hbehind
    rw [List.length_drop, List.length_append, List.length_cons] at this
    omega
  have hdrop : p.drop (36 + name.length + 1) = rest := by
    rw [Nat.add_assoc, ← List.drop_drop, hbehind, ← List.drop_drop, List.drop_left]
    rfl
  have hsize : 4 * domainWords 8 = 36 := rfl
  have hmore : ∀ i, i < 9 → (if i < domainWords 8 then word p (4 * i) else 0) = word p (4 * i) :=
    fun i hi => if_pos hi
  unfold readDomain
  simp only [hsize, hcstr, hdrop]
  rw [if_neg hlength, hmore 5 (by decide), hmore 6 (by decide), hmore 7 (by decide),
    hmore 8 (by decide), hcounter (i := 0) rfl, hcounter (i := 1) rfl, hcounter (i := 2) rfl,
    hcounter (i := 3) rfl, hcounter (i := 4) rfl, hcounter (i := 5) rfl, hcounter (i := 6) rfl,
    hcounter (i := 7) rfl, hcounter (i := 8) rfl]

end Edm.Cachedb
