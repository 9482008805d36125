import Edm.Deliver.Wire
import Edm.Support.Overwrite
import Edm.Support.Pack

/-!
# Deliver — ListRsp

A response with a list of mails, byte by byte (`ParseMailListRsp`, `MakeMailList`,
`SplitVariable`).

Here a reader is `none` where a byte behind the message is read, or one behind a buffer is written:
`mail`, `domain`, `usrname` and `key` with 128 bytes, `s` with 4, `tmp` and `value` with 4 MB.  Each
turn of a loop reads, so that one that does not end leaves the message.

* `Readable`: what a mail must be like.  Its length counts the task number, a NUL ends the mailbox
  in time, and the names of its variables are short.
* `Mails`: so many mails one after another; a mail of length zero is read again and again.
* `parseMailListRsp_isSome_iff`: a response is read within its bytes and the buffers exactly when
  its mails are `Mails`.
* `makeMailList_eq`: what is read then is what `Deliver.makeMailList` gives.
-/

namespace Edm.Deliver.ListRsp
open Support

/-! ### The readers -/

/-- `memcpy` of four bytes of the message, and `ntohl`. -/
def readInt (mem : Text) : Option Int := if mem.length < 4 then none else some (ofBe32 mem)

/-- `strlen`, and the string itself: the NUL must be in the message. -/
def readString (mem : Text) : Option Text := if nul ∈ mem then some (cstr mem) else none

/-- The loop of `SplitVariable`: `variable` are the bytes from `variable+i` on, and `p` those from
`p` on.  The string at `p` ends at the NUL at `i`; `seen` is `j != 0`. -/
def splitLoop (mail_length : Int) :
    Int → Text → Text → Bool → StdMap Text Text → Option (StdMap Text Text)
  | i, [], _, _, vars => if i = mail_length then some vars else none
  | i, c :: rest, p, seen, vars =>
      if i = mail_length then some vars
      else if c = nul then
        ((readString p).bind (put 4194304)).bind fun tmp =>
          if seen then
            (scanVariable tmp).bind fun kv =>
              splitLoop mail_length (i + 1) rest rest true (vars.set kv.1 kv.2)
          else splitLoop mail_length (i + 1) rest rest true vars
      else splitLoop mail_length (i + 1) rest p seen vars

/-- `SplitVariable`. -/
def splitVariable (mem : Text) (mail_length : Int) : Option (StdMap Text Text) :=
  splitLoop (int32 (mail_length - 12)) 0 mem mem false .empty

/-- `sscanf(p_node->mail, "%[^@]@%[^@]", usrname, p_node->domain)`. -/
def scanMail (mail : Text) : Option Text :=
  (put 128 (cut '@' mail).1).bind fun _ =>
    (put 128 (cut '@' (cut '@' mail).2).1).map fun _ => mailDomain mail

/-- One mail of the list, with the length that was read. -/
def makeMail (mail : Text) (mail_length : Int) : Option MailNode :=
  (readInt (mail.drop 4)).bind fun time =>
  (readInt (mail.drop 8)).bind fun m_id =>
  (readInt (mail.drop 12)).bind fun p_id =>
  ((readString (mail.drop 16)).bind (put 128)).bind fun box =>
  (scanMail box).bind fun domain =>
  (splitVariable (mail.drop 16) mail_length).map fun vars =>
    { status := .unsent
      failtimes := 0
      domain := domain
      mail := box
      errstr := []
      stime := 0
      taskId := ⟨toUnsigned time, toUnsigned m_id, toUnsigned p_id⟩
      mapVariable := vars }

/-- `MakeMailList`; `mail` are the bytes from `mail` on. -/
def makeMailList : Nat → Text → Option (List (Option MailNode))
  | 0, _ => some []
  | mailnum + 1, mail =>
      (readInt mail).bind fun mail_length =>
        if mail_length = 0 then (makeMailList mailnum mail).map (none :: ·)
        else
          (makeMail mail mail_length).bind fun node =>
            (makeMailList mailnum (mail.drop (4 + mail_length.toNat))).map fun nodes =>
              (if 3000000 < node.taskId.time then none else some node) :: nodes

/-- `ParseMailListRsp`.  The length of the description is added without a sign. -/
def parseMailListRsp (rsp_msg : Text) : Option (List (Option MailNode)) :=
  (readInt rsp_msg).bind fun command_id =>
  (readInt (rsp_msg.drop 4)).bind fun info_lengh =>
    if command_id ≠ 1 then some []
    else
      (readInt (rsp_msg.drop (toUnsigned (info_lengh + 8)))).bind fun mailnum =>
        makeMailList mailnum.toNat (rsp_msg.drop (toUnsigned (info_lengh + 8) + 4))

/-! ### Responses that can be read -/

/-- The strings that end in a memory. -/
def strings (s : Text) : List Text := (s.splitOn nul).dropLast

/-- A variable whose name fits: at most three `$` before it, and at most 127 bytes in it. -/
def Narrow (s : Text) : Prop :=
  s.head? ≠ some '$' ∨ (s.takeWhile (· == '$')).length ≤ 3 ∧
    ((s.dropWhile (· == '$')).takeWhile (· != '$')).length ≤ 127

instance (s : Text) : Decidable (Narrow s) :=
  inferInstanceAs (Decidable (s.head? ≠ some '$' ∨ _ ∧ _))

/-- The bytes of a mail behind its task number, as its length counts them, and what follows. -/
structure Readable (body rest : Text) : Prop where
  box : nul ∈ body ++ rest
  narrow : (cstr (body ++ rest)).length ≤ 127
  names : ∀ s ∈ (strings body).tail, Narrow s

/-- Where so many mails can be read. -/
inductive Mails : Nat → Text → Prop
  | done {mail : Text} : Mails 0 mail
  | zero {n : Nat} {len mail : Text} (hlen : len.length = 4) (h : ofBe32 len = 0) :
      Mails (n + 1) (len ++ mail)
  | mail {n : Nat} {len task body rest : Text} (hlen : len.length = 4) (htask : task.length = 12)
      (h : ofBe32 len = body.length + 12) (hbody : Readable body rest) (hrest : Mails n rest) :
      Mails (n + 1) (len ++ (task ++ (body ++ rest)))

/-- A response whose mails can be read. -/
inductive Response : Text → Prop
  | mk {head num mails : Text} (h : 8 ≤ (head ++ (num ++ mails)).length)
      (hhead : head.length = toUnsigned (ofBe32 ((head ++ (num ++ mails)).drop 4) + 8))
      (hnum : num.length = 4) (hmails : Mails (ofBe32 num).toNat mails) :
      Response (head ++ (num ++ mails))

theorem strings_last {s : Text} (h : nul ∉ s) : strings s = [] := by
  rw [strings, List.splitOn_eq_singleton h]
  rfl

theorem strings_more {s : Text} (h : nul ∉ s) (t : Text) :
    strings (s ++ nul :: t) = s :: strings t := by
  rw [strings, splitOn_more h, List.dropLast_cons_of_ne_nil (List.splitOn_ne_nil _ _)]
  rfl

theorem scanVariable_isSome_iff (s : Text) : (scanVariable s).isSome = true ↔ Narrow s := by
  rw [scanVariable, Narrow]
  cases s with
  | nil => simp
  | cons c s =>
      by_cases hc : c = '$'
      · subst hc
        by_cases hfit : 3 < (('$' :: s).takeWhile (· == '$')).length ∨
            127 < ((('$' :: s).dropWhile (· == '$')).takeWhile (· != '$')).length
        · rw [if_neg (by simp), if_pos hfit]
          simp only [Option.isSome_none, Bool.false_eq_true, false_iff, List.head?_cons,
            ne_eq, not_true_eq_false, false_or]
          omega
        · rw [if_neg (by simp), if_neg hfit]
          exact iff_of_true rfl (.inr (by omega))
      · simp [hc]

/-! ### The loop of SplitVariable -/

/-- Behind its end the loop does not end in the message. -/
theorem splitLoop_of_lt {len i : Int} (h : len < i) (mem p : Text) (seen : Bool)
    (vars : StdMap Text Text) : splitLoop len i mem p seen vars = none := by
  induction mem generalizing i p seen vars with
  | nil => rw [splitLoop, if_neg (by omega)]
  | cons c rest ih =>
      rw [splitLoop, if_neg (by omega)]
      split
      · refine Option.bind_eq_none_iff.mpr fun tmp _ => ?_
        split
        · exact Option.bind_eq_none_iff.mpr fun kv _ => ih (by omega) _ _ _
        · exact ih (by omega) _ _ _
      · exact ih (by omega) _ _ _

theorem readString_append {s : Text} (h : nul ∉ s) (t : Text) :
    readString (s ++ nul :: t) = some s := by
  rw [readString, if_pos (by simp), cstr_append h]

/-- The loop reads `n` more bytes, and each string but the mailbox that ends in them. -/
theorem splitLoop_isSome_iff {len i : Int} {n : Nat} (hn : i + n = len) {s mem : Text}
    (hs : nul ∉ s) (hsize : (s ++ mem).length < 4194304) (seen : Bool) (vars : StdMap Text Text) :
    (splitLoop len i mem (s ++ mem) seen vars).isSome = true ↔ n ≤ mem.length ∧
      ∀ t ∈ if seen then strings (s ++ mem.take n) else (strings (s ++ mem.take n)).tail,
        Narrow t := by
  induction mem generalizing i n s seen vars with
  | nil =>
      rw [splitLoop]
      by_cases hi : i = len
      · obtain rfl : n = 0 := by omega
        simp [hi, strings_last hs]
      · rw [if_neg hi]
        refine iff_of_false Bool.false_ne_true fun h => ?_
        have := h.1
        rw [List.length_nil] at this
        omega
  | cons c rest ih =>
      rw [splitLoop]
      by_cases hi : i = len
      · obtain rfl : n = 0 := by omega
        simp [hi, strings_last hs]
      · obtain ⟨n, rfl⟩ : ∃ k, n = k + 1 := Nat.exists_eq_succ_of_ne_zero (by omega)
        rw [if_neg hi, List.take_succ_cons, List.length_cons, Nat.add_le_add_iff_right]
        by_cases hc : c = nul
        · -- the string at `p` ends here
          subst hc
          have hput : put 4194304 s = some s := by
            rw [List.length_append] at hsize
            rw [put, if_pos (by omega)]
          rw [if_pos rfl, readString_append hs, Option.bind_some, hput, Option.bind_some,
            strings_more hs]
          have hsize₁ : ([] ++ rest).length < 4194304 := by
            rw [List.length_append, List.length_cons] at hsize
            rw [List.nil_append]
            omega
          have hnext := fun vars => ih (i := i + 1) (n := n) (by omega) (List.not_mem_nil) hsize₁
            true vars
          rw [List.nil_append, List.nil_append, if_pos rfl] at hnext
          cases seen with
          | false =>
              rw [if_neg Bool.false_ne_true, if_neg Bool.false_ne_true, List.tail_cons]
              exact hnext vars
          | true =>
              rw [if_pos rfl, if_pos rfl, List.forall_mem_cons, ← scanVariable_isSome_iff]
              cases scanVariable s with
              | none => simp
              | some kv =>
                  rw [Option.bind_some, hnext]
                  simp
        · rw [if_neg hc]
          have happend : s ++ c :: rest = (s ++ [c]) ++ rest := by simp
          have htake : s ++ c :: rest.take n = (s ++ [c]) ++ rest.take n := by simp
          have hs₁ : nul ∉ s ++ [c] := by simp [hs, Ne.symm hc]
          rw [happend] at hsize ⊢
          rw [htake]
          exact ih (by omega) hs₁ hsize seen vars

/-- `SplitVariable` needs a length that counts the task number, and short names. -/
theorem splitVariable_isSome_iff {mem : Text} (hmem : mem.length < 2 ^ 20) (len : Text) :
    (splitVariable mem (ofBe32 len)).isSome = true ↔ ∃ body rest, mem = body ++ rest ∧
      ofBe32 len = body.length + 12 ∧ ∀ s ∈ (strings body).tail, Narrow s := by
  have hmin : -2 ^ 31 ≤ ofBe32 len := int32_lower _
  have hmax : ofBe32 len < 2 ^ 31 := int32_upper _
  generalize ofBe32 len = mail_length at hmin hmax ⊢
  rw [splitVariable]
  have hpow : (2 ^ 20 : Nat) = 1048576 := by decide
  have hpow₁ : (2 ^ 31 : Int) = 2147483648 := by decide
  by_cases hsmall : mail_length < 12
  · -- the loop starts behind its end, or its end is behind all messages
    refine iff_of_false ?_ fun ⟨body, rest, _, hlen, _⟩ => by omega
    rw [Option.isSome_iff_ne_none, not_not]
    have hmod : int32 (mail_length - 12) % 2 ^ 32 = (mail_length - 12) % 2 ^ 32 := Int.bmod_emod
    have hupper := int32_upper (mail_length - 12)
    generalize int32 (mail_length - 12) = len at hmod hupper ⊢
    by_cases hneg : len < 0
    · exact splitLoop_of_lt hneg mem mem false .empty
    · obtain ⟨n, hn⟩ := Int.eq_ofNat_of_zero_le (a := len) (by omega)
      have hsize : ([] ++ mem).length < 4194304 := by rw [List.nil_append]; omega
      have hloop := splitLoop_isSome_iff (by omega : (0 : Int) + n = len) List.not_mem_nil hsize
        false .empty
      rw [List.nil_append] at hloop
      rw [← Option.not_isSome_iff_eq_none, hloop]
      rintro ⟨hle, -⟩
      omega
  · have hint : int32 (mail_length - 12) = mail_length - 12 :=
      int32_of_range (by omega) (by omega)
    obtain ⟨n, hn⟩ := Int.eq_ofNat_of_zero_le (a := mail_length - 12) (by omega)
    have hsize : ([] ++ mem).length < 4194304 := by rw [List.nil_append]; omega
    have hloop := splitLoop_isSome_iff (by omega : (0 : Int) + n = mail_length - 12)
      List.not_mem_nil hsize false .empty
    rw [List.nil_append, List.nil_append, if_neg Bool.false_ne_true] at hloop
    rw [hint, hloop]
    constructor
    · rintro ⟨hle, hnames⟩
      refine ⟨mem.take n, mem.drop n, (List.take_append_drop n mem).symm, ?_, hnames⟩
      rw [List.length_take_of_le hle]
      omega
    · rintro ⟨body, rest, rfl, hlen, hnames⟩
      obtain rfl : body.length = n := by omega
      rw [List.take_left]
      exact ⟨by simp, hnames⟩

/-! ### Mails -/

theorem readInt_isSome_iff (mem : Text) : (readInt mem).isSome = true ↔ 4 ≤ mem.length := by
  rw [readInt]
  split <;> simp <;> omega

theorem readInt_append {s : Text} (h : s.length = 4) (t : Text) :
    readInt (s ++ t) = some (ofBe32 s) := by
  rw [readInt, if_neg (by rw [List.length_append]; omega), ofBe32_append_left (by omega)]

/-- The parts of a mailbox that fits its buffer fit theirs. -/
theorem scanMail_eq {box : Text} (h : box.length ≤ 127) : scanMail box = some (mailDomain box) := by
  have huser : (cut '@' box).1.length ≤ box.length := (List.takeWhile_prefix _).length_le
  have hdomain : (cut '@' (cut '@' box).2).1.length ≤ box.length :=
    (List.takeWhile_prefix _).length_le.trans (cut_suffix '@' box).length_le
  rw [scanMail, put, if_pos (by omega), Option.bind_some, put, if_pos (by omega)]
  rfl

theorem readBox_isSome_iff (mem : Text) :
    ((readString mem).bind (put 128)).isSome = true ↔ nul ∈ mem ∧ (cstr mem).length ≤ 127 := by
  rw [readString]
  by_cases h : nul ∈ mem
  · rw [if_pos h, Option.bind_some, put]
    by_cases hlen : (cstr mem).length < 128
    · rw [if_pos hlen]
      exact iff_of_true rfl ⟨h, by omega⟩
    · rw [if_neg hlen]
      exact iff_of_false Bool.false_ne_true fun hbox => by omega
  · rw [if_neg h]
    exact iff_of_false Bool.false_ne_true fun hbox => h hbox.1

/-- A string that is read into a buffer. -/
theorem readPut_eq_some {mem s : Text} {size : Nat}
    (h : (readString mem).bind (put size) = some s) :
    s = cstr mem ∧ s.length < size := by
  obtain ⟨t, ht, hput⟩ := Option.bind_eq_some_iff.mp h
  rw [readString] at ht
  rw [put] at hput
  split at hput
  next hlen =>
    obtain rfl := Option.some.inj hput
    split at ht
    · exact ⟨(Option.some.inj ht).symm, hlen⟩
    · cases ht
  next => cases hput

theorem readInt_eq_some {mem : Text} {z : Int} (h : readInt mem = some z) : z = ofBe32 mem := by
  rw [readInt] at h
  split at h
  · cases h
  · exact (Option.some.inj h).symm

/-- One mail is read within the message and the buffers. -/
theorem makeMail_isSome_iff {len mem : Text} (hlen : len.length = 4)
    (hmem : (len ++ mem).length < 2 ^ 20) :
    (makeMail (len ++ mem) (ofBe32 len)).isSome = true ↔ ∃ task body rest,
      mem = task ++ (body ++ rest) ∧ task.length = 12 ∧ ofBe32 len = body.length + 12 ∧
        Readable body rest := by
  have hdrop : ∀ n, (len ++ mem).drop (4 + n) = mem.drop n := by
    intro n
    rw [← hlen, List.drop_length_add_append]
  rw [makeMail, hdrop 0, hdrop 4, hdrop 8, hdrop 12]
  by_cases hshort : mem.length < 12
  · -- the task number is not in the message
    have hnone : readInt (mem.drop 8) = none := by
      rw [readInt, if_pos (by rw [List.length_drop]; omega)]
    refine iff_of_false ?_ ?_
    · rw [hnone]
      cases readInt (mem.drop 0) <;> cases readInt (mem.drop 4) <;> exact Bool.false_ne_true
    · rintro ⟨task, body, rest, rfl, htask, -, -⟩
      rw [List.length_append] at hshort
      omega
  · have hint : ∀ n ≤ 8, ∃ z, readInt (mem.drop n) = some z := fun n hn =>
      Option.isSome_iff_exists.mp ((readInt_isSome_iff _).mpr (by rw [List.length_drop]; omega))
    obtain ⟨time, htime⟩ := hint 0 (by omega)
    obtain ⟨m_id, hm_id⟩ := hint 4 (by omega)
    obtain ⟨p_id, hp_id⟩ := hint 8 (by omega)
    have hsize : (mem.drop 12).length < 2 ^ 20 := by
      rw [List.length_append] at hmem
      rw [List.length_drop]
      omega
    rw [htime, hm_id, hp_id, Option.bind_some, Option.bind_some, Option.bind_some]
    constructor
    · intro h
      obtain ⟨node, hnode⟩ := Option.isSome_iff_exists.mp h
      obtain ⟨box, hbox, hnode⟩ := Option.bind_eq_some_iff.mp hnode
      obtain ⟨domain, -, hnode⟩ := Option.bind_eq_some_iff.mp hnode
      obtain ⟨vars, hvars, -⟩ := Option.map_eq_some_iff.mp hnode
      obtain ⟨hnul, hnarrow⟩ := (readBox_isSome_iff _).mp (Option.isSome_of_eq_some hbox)
      obtain ⟨body, rest, hmem₁, hl, hnames⟩ :=
        (splitVariable_isSome_iff hsize len).mp (Option.isSome_of_eq_some hvars)
      rw [hmem₁] at hnul hnarrow
      refine ⟨mem.take 12, body, rest, ?_, ?_, hl, hnul, hnarrow, hnames⟩
      · rw [← hmem₁, List.take_append_drop]
      · rw [List.length_take]
        omega
    · rintro ⟨task, body, rest, rfl, htask, hl, hread⟩
      have hmem₁ : (task ++ (body ++ rest)).drop 12 = body ++ rest := List.drop_left' htask
      obtain ⟨box, hbox⟩ := Option.isSome_iff_exists.mp
        ((readBox_isSome_iff _).mpr ⟨hread.box, hread.narrow⟩)
      obtain ⟨vars, hvars⟩ := Option.isSome_iff_exists.mp
        ((splitVariable_isSome_iff (hmem₁ ▸ hsize) len).mpr ⟨body, rest, rfl, hl, hread.names⟩)
      rw [hmem₁, hbox, Option.bind_some, scanMail_eq (Nat.le_of_lt_succ (readPut_eq_some hbox).2),
        Option.bind_some,
        hvars]
      rfl

/-- A mail of length zero is read again until the count is over. -/
theorem makeMailList_zero {mail : Text} (h : readInt mail = some 0) (n : Nat) :
    (makeMailList n mail).isSome = true := by
  induction n with
  | zero => rfl
  | succ n ih =>
      rw [makeMailList, h, Option.bind_some, if_pos rfl, Option.isSome_map]
      exact ih

/-- Behind a mail the next one follows. -/
theorem drop_mail {len task body rest : Text} (hlen : len.length = 4) (htask : task.length = 12)
    (h : ofBe32 len = body.length + 12) :
    (len ++ (task ++ (body ++ rest))).drop (4 + (ofBe32 len).toNat) = rest := by
  have hn : 4 + (ofBe32 len).toNat = (len ++ (task ++ body)).length := by
    simp only [List.length_append]
    omega
  have happend : len ++ (task ++ (body ++ rest)) = (len ++ (task ++ body)) ++ rest := by simp
  rw [happend, hn, List.drop_left]

/-- The mails are read within the message and the buffers. -/
theorem makeMailList_isSome_iff {n : Nat} {mail : Text} (hmail : mail.length < 2 ^ 20) :
    (makeMailList n mail).isSome = true ↔ Mails n mail := by
  induction n generalizing mail with
  | zero => exact iff_of_true rfl .done
  | succ n ih =>
      by_cases hshort : mail.length < 4
      · rw [makeMailList, readInt, if_pos hshort]
        refine iff_of_false Bool.false_ne_true fun h => ?_
        cases h with
        | zero hlen => rw [List.length_append] at hshort; omega
        | mail hlen => rw [List.length_append] at hshort; omega
      · obtain ⟨len, mem, rfl, hlen⟩ : ∃ len mem, mail = len ++ mem ∧ len.length = 4 :=
          ⟨mail.take 4, mail.drop 4, (List.take_append_drop 4 mail).symm,
            List.length_take_of_le (by omega)⟩
        by_cases hzero : ofBe32 len = 0
        · have hread : readInt (len ++ mem) = some 0 := by rw [readInt_append hlen, hzero]
          exact iff_of_true (makeMailList_zero hread _) (.zero hlen hzero)
        · rw [makeMailList, readInt_append hlen, Option.bind_some, if_neg hzero]
          constructor
          · intro h
            obtain ⟨nodes, hnodes⟩ := Option.isSome_iff_exists.mp h
            obtain ⟨node, hnode, hnodes⟩ := Option.bind_eq_some_iff.mp hnodes
            obtain ⟨nodes, hnodes, -⟩ := Option.map_eq_some_iff.mp hnodes
            obtain ⟨task, body, rest, rfl, htask, hl, hread⟩ :=
              (makeMail_isSome_iff hlen hmail).mp (Option.isSome_of_eq_some hnode)
            rw [drop_mail hlen htask hl] at hnodes
            simp only [List.length_append] at hmail
            exact .mail hlen htask hl hread
              ((ih (by omega)).mp (Option.isSome_of_eq_some hnodes))
          · intro h
            generalize hm : len ++ mem = mail at h
            cases h with
            | zero hlen₁ h₁ =>
                obtain ⟨rfl, -⟩ := List.append_inj hm (hlen.trans hlen₁.symm)
                exact absurd h₁ hzero
            | mail hlen₁ htask hl hread hrest =>
                obtain ⟨rfl, rfl⟩ := List.append_inj hm (hlen.trans hlen₁.symm)
                obtain ⟨node, hnode⟩ := Option.isSome_iff_exists.mp
                  ((makeMail_isSome_iff hlen hmail).mpr ⟨_, _, _, rfl, htask, hl, hread⟩)
                rw [hnode, Option.bind_some, drop_mail hlen htask hl, Option.isSome_map]
                simp only [List.length_append] at hmail
                exact (ih (by omega)).mpr hrest

/-! ### Responses -/

/-- A response with a list of mails is read within its bytes and the buffers exactly when its mails
are there, each with a length that counts its task number, a mailbox that ends in time, and
variables with short names. -/
theorem parseMailListRsp_isSome_iff {rsp_msg : Text} (hmsg : rsp_msg.length < 2 ^ 20)
    (hcommand : readInt rsp_msg = some 1) :
    (parseMailListRsp rsp_msg).isSome = true ↔ Response rsp_msg := by
  rw [parseMailListRsp, hcommand, Option.bind_some]
  by_cases hshort : (rsp_msg.drop 4).length < 4
  · rw [readInt, if_pos hshort]
    refine iff_of_false Bool.false_ne_true fun h => ?_
    cases h with
    | mk h =>
        rw [List.length_drop] at hshort
        omega
  · rw [readInt, if_neg hshort, Option.bind_some, if_neg (by simp)]
    constructor
    · intro h
      obtain ⟨nodes, hnodes⟩ := Option.isSome_iff_exists.mp h
      obtain ⟨mailnum, hnum, hnodes⟩ := Option.bind_eq_some_iff.mp hnodes
      have hlen := (readInt_isSome_iff _).mp (Option.isSome_of_eq_some hnum)
      obtain ⟨head, num, mails, hmails, hhead, hnum₁⟩ : ∃ head num mails,
          rsp_msg = head ++ (num ++ mails) ∧
            head.length = toUnsigned (ofBe32 (rsp_msg.drop 4) + 8) ∧ num.length = 4 := by
        generalize toUnsigned (ofBe32 (rsp_msg.drop 4) + 8) = off at hlen
        rw [List.length_drop] at hlen
        refine ⟨rsp_msg.take off, (rsp_msg.drop off).take 4, (rsp_msg.drop off).drop 4, ?_, ?_, ?_⟩
        · rw [List.take_append_drop, List.take_append_drop]
        · exact List.length_take_of_le (by omega)
        · exact List.length_take_of_le (by rw [List.length_drop]; omega)
      rw [← hhead] at hnum hnodes
      rw [hmails] at hhead hnum hnodes hshort ⊢
      rw [List.drop_left, readInt_append hnum₁] at hnum
      obtain rfl := Option.some.inj hnum
      rw [← hnum₁, List.drop_length_add_append, List.drop_left] at hnodes
      rw [hmails, List.length_append, List.length_append] at hmsg
      rw [List.length_drop] at hshort
      exact .mk (by omega) hhead hnum₁ ((makeMailList_isSome_iff (by omega)).mp
        (Option.isSome_of_eq_some hnodes))
    · intro h
      cases h with
      | @mk head num mails h hhead hnum hmails =>
          rw [List.length_append, List.length_append] at hmsg
          rw [← hhead, List.drop_left, readInt_append hnum, Option.bind_some, ← hnum,
            List.drop_length_add_append, List.drop_left]
          exact (makeMailList_isSome_iff (by omega)).mpr hmails

/-! ### What is read -/

theorem splitLoop_eq {len i : Int} {mem p : Text} {seen : Bool} {vars vars₁ : StdMap Text Text}
    (h : splitLoop len i mem p seen vars = some vars₁) :
    i ≤ len ∧ Deliver.splitLoop (len - i).toNat mem p seen vars = some vars₁ := by
  have hle : i ≤ len := by
    by_contra hlt
    rw [splitLoop_of_lt (by omega)] at h
    cases h
  refine ⟨hle, ?_⟩
  induction mem generalizing i p seen vars with
  | nil =>
      rw [splitLoop] at h
      split at h
      next hi => rw [hi, Int.sub_self]; exact h
      next => cases h
  | cons c rest ih =>
      rw [splitLoop] at h
      split at h
      next hi => rw [hi, Int.sub_self]; exact h
      next hi =>
        obtain ⟨n, hn⟩ : ∃ n, (len - i).toNat = n + 1 :=
          Nat.exists_eq_succ_of_ne_zero (by omega)
        have hnext : (len - (i + 1)).toNat = n := by omega
        have hle₁ : i + 1 ≤ len := by omega
        rw [hn, Deliver.splitLoop, List.headD_cons, List.tail_cons]
        split at h
        next hc =>
          obtain ⟨tmp, htmp, h⟩ := Option.bind_eq_some_iff.mp h
          obtain ⟨rfl, hfit⟩ := readPut_eq_some htmp
          rw [if_pos hc, if_neg (by omega)]
          cases seen with
          | false =>
              rw [if_neg Bool.false_ne_true] at h ⊢
              exact hnext ▸ ih h hle₁
          | true =>
              rw [if_pos rfl] at h ⊢
              obtain ⟨kv, hkv, h⟩ := Option.bind_eq_some_iff.mp h
              rw [hkv, Option.bind_some]
              exact hnext ▸ ih h hle₁
        next hc =>
          rw [if_neg hc]
          exact hnext ▸ ih h hle₁

theorem makeMail_eq {mail : Text} (hmail : mail.length < 2 ^ 20) {node : MailNode}
    (h : makeMail mail (ofBe32 mail) = some node) : Deliver.makeMail mail = some node := by
  obtain ⟨time, htime, h⟩ := Option.bind_eq_some_iff.mp h
  obtain ⟨m_id, hm_id, h⟩ := Option.bind_eq_some_iff.mp h
  obtain ⟨p_id, hp_id, h⟩ := Option.bind_eq_some_iff.mp h
  obtain ⟨box, hbox, h⟩ := Option.bind_eq_some_iff.mp h
  obtain ⟨domain, hdomain, h⟩ := Option.bind_eq_some_iff.mp h
  obtain ⟨vars, hvars, rfl⟩ := Option.map_eq_some_iff.mp h
  obtain ⟨rfl, hfit⟩ := readPut_eq_some hbox
  rw [scanMail_eq (Nat.le_of_lt_succ hfit)] at hdomain
  obtain rfl := Option.some.inj hdomain
  have hsize : (mail.drop 16).length < 2 ^ 20 := by
    rw [List.length_drop]
    omega
  obtain ⟨body, rest, -, hl, -⟩ :=
    (splitVariable_isSome_iff hsize mail).mp (Option.isSome_of_eq_some hvars)
  have hint : int32 (ofBe32 mail - 12) = ofBe32 mail - 12 := by
    have hmax : ofBe32 mail < 2 ^ 31 := int32_upper _
    exact int32_of_range (by omega) (by omega)
  have hsplit : Deliver.splitVariable (mail.drop 16) (ofBe32 mail) = some vars := by
    rw [splitVariable, hint] at hvars
    rw [Deliver.splitVariable, if_neg (by omega)]
    simpa using (splitLoop_eq hvars).2
  rw [Deliver.makeMail, if_neg (by omega), hsplit, readTaskId, List.drop_drop, List.drop_drop,
    readInt_eq_some htime, readInt_eq_some hm_id, readInt_eq_some hp_id]
  rfl

/-- What is read is the list of mails that the engine works with. -/
theorem makeMailList_eq {n : Nat} {mail : Text} (hmail : mail.length < 2 ^ 20)
    {nodes : List (Option MailNode)} (h : makeMailList n mail = some nodes) :
    Deliver.makeMailList n mail = some nodes := by
  induction n generalizing mail nodes with
  | zero => exact h
  | succ n ih =>
      obtain ⟨len, hlen, h⟩ := Option.bind_eq_some_iff.mp h
      rw [readInt_eq_some hlen] at h
      rw [Deliver.makeMailList]
      split at h
      next hzero =>
        obtain ⟨nodes, hnodes, rfl⟩ := Option.map_eq_some_iff.mp h
        rw [if_pos hzero, ih hmail hnodes]
        rfl
      next hzero =>
        obtain ⟨node, hnode, h⟩ := Option.bind_eq_some_iff.mp h
        obtain ⟨nodes, hnodes, rfl⟩ := Option.map_eq_some_iff.mp h
        rw [if_neg hzero, makeMail_eq hmail hnode, Option.bind_some,
          ih (by rw [List.length_drop]; omega) hnodes]
        rfl

/-- The step of the engine that takes a list takes this one. -/
theorem parseMailListRsp_eq {rsp_msg : Text} (hmsg : rsp_msg.length < 2 ^ 20)
    (hcommand : readInt rsp_msg = some 1) {nodes : List (Option MailNode)}
    (h : parseMailListRsp rsp_msg = some nodes) :
    ∃ mailnum mail, mail <:+ rsp_msg ∧ Deliver.makeMailList mailnum mail = some nodes := by
  rw [parseMailListRsp, hcommand, Option.bind_some] at h
  obtain ⟨info, -, h⟩ := Option.bind_eq_some_iff.mp h
  rw [if_neg (by simp)] at h
  obtain ⟨mailnum, -, h⟩ := Option.bind_eq_some_iff.mp h
  refine ⟨_, _, List.drop_suffix _ _, makeMailList_eq ?_ h⟩
  rw [List.length_drop]
  omega

/-- A response with one mail, of the task `0.0.0`, with one variable. -/
def oneMailRsp (box vars : Text) : Text :=
  be32 1 ++ be32 0 ++ be32 1 ++ be32 (12 + box.length + 1 + vars.length + 1)
    ++ be32 0 ++ be32 0 ++ be32 0 ++ box ++ [nul] ++ vars ++ [nul]

theorem response_ann : Response (oneMailRsp "a@b.c".toList "$name$Ann".toList) := by
  have hread : Readable ("a@b.c".toList ++ [nul] ++ "$name$Ann".toList ++ [nul]) [] :=
    ⟨by decide, by decide, by decide⟩
  have hmails : Mails 1 (be32 28 ++ (pack [0, 0, 0] ++
      (("a@b.c".toList ++ [nul] ++ "$name$Ann".toList ++ [nul]) ++ []))) :=
    .mail rfl rfl (by decide +kernel) hread .done
  have hnum : (ofBe32 (be32 1)).toNat = 1 := by decide +kernel
  rw [← hnum] at hmails
  exact @Response.mk (be32 1 ++ be32 0) (be32 1) _ (by decide) (by decide +kernel) rfl hmails

/-- A value for Ann is read. -/
theorem parse_ann : (parseMailListRsp
    (oneMailRsp "a@b.c".toList "$name$Ann".toList)).isSome = true :=
  (parseMailListRsp_isSome_iff (by decide) (by decide)).mpr response_ann

/-- Four `$` before a name are written into `s[4]`, and a NUL behind them. -/
theorem not_parsed_dollars : ¬ ∀ rsp_msg : Text, rsp_msg.length < 2 ^ 20 →
    readInt rsp_msg = some 1 → (parseMailListRsp rsp_msg).isSome = true := by
  intro h
  have hparse := h (oneMailRsp "a@b.c".toList "$$$$name$Ann".toList) (by decide) (by decide)
  exact absurd hparse (by decide +kernel)

end Edm.Deliver.ListRsp
