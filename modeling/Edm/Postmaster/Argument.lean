import Edm.Postmaster.Command
import Edm.Support.Mailbox

/-!
# Postmaster — Argument

`where_mailbox` on the bytes of an argument: `ptr` and `len` go through it side by side, and no
byte behind the NUL is read (`whereMailboxAt_eq`).

`Argument sep` is the form of an argument, with `sep` behind the keyword.  The test
`len<1 && *ptr!=':'` refuses only an argument that has ended, so anything but a blank is taken for
the colon (`assigned_iff`); `understood_iff` says for which arguments that makes no difference.
-/

namespace Edm.Postmaster
open Support

/-! ### The bytes that are read -/

/-- `ptr` and `len`. -/
structure Cursor where
  ptr : Nat
  len : Int

namespace Cursor
variable (text : Text) (c : Cursor)

/-- `ptr++; len--;` -/
def next : Cursor := ⟨c.ptr + 1, c.len - 1⟩

/-- `*ptr`; behind the NUL there is nothing to read. -/
def byte : Option Char := (text ++ [nul])[c.ptr]?

/-- `while(len>0 && isblank(*ptr))`, for `n` bytes at most. -/
def skipFrom : Nat → Cursor → Option Cursor
  | 0, c => some c
  | n + 1, c => (c.byte text).bind fun b => if isblank b then skipFrom n c.next else some c

def skip : Option Cursor := skipFrom text c.len.toNat c

/-- The blanks and the `<` in front of the address. -/
def address : Option Cursor :=
  (c.skip text).bind fun c => (c.byte text).bind fun b =>
    if b = '<' then c.next.skip text else some c

/-- `mailbox.assign(ptr, len)`. -/
def assign : Option Text :=
  if c.ptr + c.len.toNat ≤ text.length + 1 then
    some (((text ++ [nul]).drop c.ptr).take c.len.toNat)
  else none

/-- `strncasecmp(ptr, keyword, keylen) == 0`. -/
def keyword : Cursor → Text → Option Bool
  | _, [] => some true
  | c, k :: key =>
      (c.byte text).bind fun b =>
        if b.toLower ≠ k.toLower then some false
        else if b = nul then some true
        else keyword c.next key

end Cursor

/-- `where_mailbox`, for a text and its length; `none`: a byte behind the NUL is read. -/
def whereMailboxAt (key text mailbox : Text) : Option (Int × Text) := do
  let c : Cursor := ⟨0, text.length⟩
  if c.len < key.length then return (-1, mailbox)
  if !(← c.keyword text key) then return (-1, mailbox)
  let c ← Cursor.skip text ⟨c.ptr + key.length, c.len - key.length⟩
  let refused ← if c.len < 1 then (c.byte text).map (· != ':') else pure false
  if refused then return (-1, mailbox)
  let c ← c.next.address text
  if c.len < 1 then return (-1, mailbox)
  let mailbox := eraseBack " \t>".toList (← c.assign text)
  return (if checkMailbox (cstr mailbox) then 0 else -1, mailbox)

namespace Cursor
variable {text rest : Text} {c : Cursor}

/-- What is still to be read. -/
def On (text : Text) (c : Cursor) (rest : Text) : Prop :=
  ∃ read, text = read ++ rest ∧ c = ⟨read.length, rest.length⟩

theorem on_start (text : Text) : On text ⟨0, text.length⟩ text := ⟨[], rfl, rfl⟩

/-- At the end it is the NUL that is read. -/
theorem On.byte (h : On text c rest) : c.byte text = some (rest.headD nul) := by
  obtain ⟨read, rfl, rfl⟩ := h
  rw [Cursor.byte, List.append_assoc, List.getElem?_append_right le_rfl, Nat.sub_self]
  cases rest <;> rfl

theorem On.drop (h : On text c rest) {n : Nat} (hn : n ≤ rest.length) :
    On text ⟨c.ptr + n, c.len - n⟩ (rest.drop n) := by
  obtain ⟨read, rfl, rfl⟩ := h
  refine ⟨read ++ rest.take n, by rw [List.append_assoc, List.take_append_drop], ?_⟩
  rw [List.length_append, List.length_take, Nat.min_eq_left hn, List.length_drop, Cursor.mk.injEq]
  exact ⟨rfl, (Int.ofNat_sub hn).symm⟩

theorem On.next {b : Char} (h : On text c (b :: rest)) : On text c.next rest :=
  h.drop (n := 1) (by simp)

theorem On.len (h : On text c rest) : c.len = rest.length := by
  obtain ⟨read, -, rfl⟩ := h
  rfl

theorem On.skip (h : On text c rest) :
    ∃ c', c.skip text = some c' ∧ On text c' (skipBlanks rest) := by
  rw [Cursor.skip, h.len, Int.toNat_natCast]
  induction rest generalizing c with
  | nil => exact ⟨c, rfl, h⟩
  | cons b rest ih =>
      rw [List.length_cons, skipFrom, h.byte, Option.bind_some, List.headD_cons]
      cases hb : isblank b with
      | true =>
          obtain ⟨c', hc', hon⟩ := ih h.next
          refine ⟨c', hc', ?_⟩
          have hskip : skipBlanks (b :: rest) = skipBlanks rest := List.dropWhile_cons_of_pos hb
          rwa [hskip]
      | false =>
          refine ⟨c, rfl, ?_⟩
          have hstay : skipBlanks (b :: rest) = b :: rest :=
            List.dropWhile_cons_of_neg (ne_true_of_eq_false hb)
          rwa [hstay]

theorem On.assign (h : On text c rest) : c.assign text = some rest := by
  obtain ⟨read, rfl, rfl⟩ := h
  rw [Cursor.assign, if_pos (by simp), List.append_assoc, List.drop_left,
    Int.toNat_natCast, List.take_left]

/-- The keyword is compared with as many bytes of the text. -/
theorem On.keyword {key : Text} (h : On text c rest) (hnul : nul ∉ rest)
    (hlen : key.length ≤ rest.length) :
    c.keyword text key = some (strncasecmpEq rest key) := by
  rw [strncasecmpEq, cstr_self hnul]
  induction key generalizing c rest with
  | nil => rfl
  | cons k key ih =>
      cases rest with
      | nil => simp at hlen
      | cons b rest =>
          obtain ⟨hb, hnul⟩ := not_or.mp (mt List.mem_cons.mpr hnul)
          have hne : ¬ b = nul := fun heq => hb heq.symm
          rw [Cursor.keyword, h.byte, Option.bind_some, List.headD_cons, if_neg hne]
          rw [List.length_cons, List.length_cons] at hlen
          rw [ih h.next hnul (by omega)]
          by_cases hbk : b.toLower = k.toLower <;> simp [tolower, hbk]

end Cursor

/-- What comes behind the blanks and the `<`. -/
def opened (p : Text) : Text :=
  match skipBlanks p with
  | '<' :: p => skipBlanks p
  | p => p

theorem assigned_eq (key text : Text) : assigned key text =
    if strncasecmpEq text key then
      match skipBlanks (text.drop key.length) with
      | [] => none
      | _ :: p => if (opened p).isEmpty then none else some (eraseBack " \t>".toList (opened p))
    else none := rfl

theorem opened_cons (p : Text) : opened p =
    if (skipBlanks p).headD nul = '<' then skipBlanks ((skipBlanks p).drop 1)
    else skipBlanks p := by
  rw [opened]
  split
  next hp => rw [hp]; rfl
  next hp =>
    rw [if_neg]
    intro hhead
    cases hq : skipBlanks p with
    | nil => rw [hq] at hhead; exact absurd hhead (by decide)
    | cons b q => rw [hq] at hhead; exact hp q (by rw [hq, ← hhead]; rfl)

theorem Cursor.On.address {text p : Text} {c : Cursor} (h : On text c p) :
    ∃ c', c.address text = some c' ∧ On text c' (opened p) := by
  obtain ⟨c₁, hc₁, hon₁⟩ := h.skip
  rw [Cursor.address, hc₁, Option.bind_some, hon₁.byte, Option.bind_some, opened_cons]
  split
  next hhead =>
    cases hq : skipBlanks p with
    | nil => rw [hq] at hhead; exact absurd hhead (by decide)
    | cons b q =>
      rw [hq] at hon₁
      exact hon₁.next.skip
  next => exact ⟨c₁, rfl, hon₁⟩

/-- No byte behind the NUL is read, and what is read gives what `whereMailbox` says. -/
theorem whereMailboxAt_eq (key mailbox : Text) {text : Text} (h : nul ∉ text) :
    whereMailboxAt key text mailbox =
      some (if (whereMailbox key text mailbox).1 then 0 else -1,
        (whereMailbox key text mailbox).2) := by
  have hstart := Cursor.on_start text
  rw [whereMailboxAt, whereMailbox, assigned_eq]
  dsimp only
  by_cases hlen : text.length < key.length
  · have hshort : strncasecmpEq text key = false := by
      have hne : (tolower ((cstr text).take key.length)).length ≠ (tolower key).length := by
        rw [cstr_self h, length_tolower, length_tolower, List.length_take]
        omega
      exact beq_eq_false_iff_ne.mpr fun heq => hne (congrArg List.length heq)
    rw [if_pos (by omega), hshort]
    rfl
  · have hle : key.length ≤ text.length := Nat.not_lt.mp hlen
    rw [if_neg (by omega), hstart.keyword h hle]
    cases hkey : strncasecmpEq text key with
    | false => rfl
    | true =>
      obtain ⟨c₁, hc₁, hon₁⟩ := (hstart.drop hle).skip
      simp only [pure, bind, Option.bind_some, Bool.not_true, Bool.false_eq_true, if_false, hc₁,
        if_true]
      cases hrest : skipBlanks (text.drop key.length) with
      | nil =>
        rw [hrest] at hon₁
        rw [if_pos (by rw [hon₁.len]; decide), hon₁.byte]
        rfl
      | cons b p =>
        rw [hrest] at hon₁
        rw [if_neg (by rw [hon₁.len, List.length_cons]; omega)]
        obtain ⟨c₂, hc₂, hon₂⟩ := hon₁.next.address
        simp only [Option.bind_some, hc₂, hon₂.assign]
        have hempty : c₂.len < 1 ↔ (opened p).isEmpty = true := by
          rw [hon₂.len, List.isEmpty_iff_length_eq_zero]
          omega
        by_cases hp : (opened p).isEmpty = true
        · rw [if_pos (hempty.mpr hp)]
          simp only [if_pos hp]
          rfl
        · rw [if_neg (mt hempty.mp hp)]
          simp only [if_neg hp]

/-! ### The form of an argument -/

/-- A `<` with blanks behind it, or nothing. -/
def Bracket (bracket : Text) : Prop :=
  bracket = [] ∨ ∃ b₃, bracket = '<' :: b₃ ∧ ∀ c ∈ b₃, isblank c = true

/-- The keyword in any case, `sep` between blanks, perhaps a `<`, the mailbox, and blanks and `>`
behind it. -/
def Argument (sep : Char) (key text mailbox : Text) : Prop :=
  ∃ k b₁ b₂ bracket tail : Text,
    text = k ++ (b₁ ++ sep :: (b₂ ++ (bracket ++ (mailbox ++ tail)))) ∧
    tolower k = tolower key ∧ (∀ c ∈ b₁, isblank c = true) ∧ (∀ c ∈ b₂, isblank c = true) ∧
    Bracket bracket ∧ checkMailbox mailbox = true ∧ ∀ c ∈ tail, c ∈ " \t>".toList

/-- A run of blanks ends where something else comes. -/
theorem skipBlanks_run {b s : Text} (hb : ∀ c ∈ b, isblank c = true)
    (hs : ∀ c ∈ s.head?, isblank c = false) : skipBlanks (b ++ s) = s := (takeWhile_run hb hs).2

theorem exists_blanks (s : Text) : ∃ b, s = b ++ skipBlanks s ∧ (∀ c ∈ b, isblank c = true) ∧
    ∀ c ∈ (skipBlanks s).head?, isblank c = false :=
  ⟨s.takeWhile isblank, (List.takeWhile_append_dropWhile (p := isblank)).symm,
    (takeWhile_spec isblank s).1, (takeWhile_spec isblank s).2⟩

theorem exists_eraseBack (cls s : Text) :
    ∃ tail, s = eraseBack cls s ++ tail ∧ ∀ c ∈ tail, c ∈ cls := by
  refine ⟨(s.reverse.takeWhile (cls.contains ·)).reverse, ?_, fun c hc => ?_⟩
  · rw [eraseBack, ← List.reverse_append, List.takeWhile_append_dropWhile, List.reverse_reverse]
  · exact List.contains_iff_mem.mp (List.mem_takeWhile_imp (List.mem_reverse.mp hc))

/-- The characters of an address are neither blanks nor brackets. -/
theorem not_mem_of_mailbox {mailbox : Text} (h : checkMailbox mailbox = true) {c : Char}
    (hc : c ∈ mailbox) : c ∉ " \t<>".toList ∧ c ≠ nul := by
  rcases mem_mailbox h hc with hlocal | rfl
  · refine ⟨fun hin => ?_, ?_⟩
    · have hno : ∀ c ∈ " \t<>".toList, isLocal c = false := by decide
      rw [hno c hin] at hlocal
      cases hlocal
    · rintro rfl
      exact absurd hlocal (by decide)
  · decide

theorem exists_opened (p : Text) : ∃ b₂ bracket : Text, p = b₂ ++ (bracket ++ opened p) ∧
    (∀ c ∈ b₂, isblank c = true) ∧ Bracket bracket := by
  obtain ⟨b₂, hp, hb₂, -⟩ := exists_blanks p
  cases hq : skipBlanks p with
  | nil => exact ⟨b₂, [], by rw [opened, hq]; rwa [hq] at hp, hb₂, .inl rfl⟩
  | cons b q =>
    by_cases hb : b = '<'
    · subst hb
      obtain ⟨b₃, hq', hb₃, -⟩ := exists_blanks q
      refine ⟨b₂, '<' :: b₃, ?_, hb₂, .inr ⟨b₃, rfl, hb₃⟩⟩
      have hopened : opened p = skipBlanks q := by rw [opened_cons, hq]; exact if_pos rfl
      rw [hopened, List.cons_append, ← hq', ← hq, ← hp]
    · refine ⟨b₂, [], ?_, hb₂, .inl rfl⟩
      have hopened : opened p = skipBlanks p := by rw [opened_cons, hq]; exact if_neg hb
      rw [hopened, List.nil_append, ← hp]

theorem opened_run {b₂ bracket s : Text} (hb₂ : ∀ c ∈ b₂, isblank c = true)
    (hbracket : Bracket bracket) (hs : ∀ c ∈ s.head?, isblank c = false ∧ c ≠ '<') :
    opened (b₂ ++ (bracket ++ s)) = s := by
  have hblank : ∀ c ∈ s.head?, isblank c = false := fun c hc => (hs c hc).1
  rcases hbracket with rfl | ⟨b₃, rfl, hb₃⟩
  · rw [List.nil_append, opened_cons, skipBlanks_run hb₂ hblank, if_neg]
    cases s with
    | nil => decide
    | cons c s => exact (hs c rfl).2
  · rw [opened_cons, List.cons_append, skipBlanks_run hb₂ (by simp; decide)]
    exact (if_pos rfl).trans (skipBlanks_run hb₃ hblank)

/-- What the parser finds in an argument. -/
theorem Argument.parts {sep : Char} {key text mailbox : Text} (h : Argument sep key text mailbox)
    (hnul : nul ∉ text) (hsep : isblank sep = false) :
    strncasecmpEq text key = true ∧ ∃ p, skipBlanks (text.drop key.length) = sep :: p ∧
      ∃ tail, opened p = mailbox ++ tail ∧ (∀ c ∈ tail, c ∈ " \t>".toList) ∧
        checkMailbox mailbox = true := by
  obtain ⟨k, b₁, b₂, bracket, tail, rfl, hkey, hb₁, hb₂, hbracket, hmailbox, hcls⟩ := h
  have hlen : k.length = key.length := by simpa using congrArg List.length hkey
  have hk : nul ∉ k := fun hin => hnul (by simp [hin])
  refine ⟨by rw [strncasecmpEq_append hlen hk, hkey, beq_self_eq_true],
    b₂ ++ (bracket ++ (mailbox ++ tail)), ?_, tail, ?_, hcls, hmailbox⟩
  · rw [List.drop_left' hlen, skipBlanks_run hb₁]
    simpa using hsep
  · refine opened_run hb₂ hbracket fun c hc => ?_
    cases mailbox with
    | nil => exact absurd hmailbox (by decide)
    | cons d m =>
      obtain rfl : d = c := by simpa using hc
      have hd := (not_mem_of_mailbox hmailbox List.mem_cons_self).1
      simp only [isblank, Bool.or_eq_false_iff, beq_eq_false_iff_ne]
      refine ⟨⟨?_, ?_⟩, ?_⟩ <;> rintro rfl <;> exact hd (by decide)

/-- What is assigned and accepted has the form, whatever stands for the colon. -/
theorem assigned_iff {key text mailbox : Text} (h : nul ∉ text) :
    (assigned key text = some mailbox ∧ checkMailbox (cstr mailbox) = true) ↔
      ∃ sep, isblank sep = false ∧ Argument sep key text mailbox := by
  rw [assigned_eq]
  constructor
  · rintro ⟨hassigned, hmailbox⟩
    obtain ⟨hkey, hassigned⟩ := Option.ite_none_right_eq_some.mp hassigned
    obtain ⟨b₁, hrest, hb₁, hsep⟩ := exists_blanks (text.drop key.length)
    cases hq : skipBlanks (text.drop key.length) with
    | nil => rw [hq] at hassigned; cases hassigned
    | cons sep p =>
      rw [hq] at hassigned hrest hsep
      obtain rfl := Option.some.inj (Option.ite_none_left_eq_some.mp hassigned).2
      obtain ⟨b₂, bracket, hp, hb₂, hbracket⟩ := exists_opened p
      obtain ⟨tail, htail, hcls⟩ := exists_eraseBack " \t>".toList (opened p)
      have htext : text = text.take key.length ++ (b₁ ++ sep :: (b₂ ++ (bracket ++
          (eraseBack " \t>".toList (opened p) ++ tail)))) := by
        rw [← htail, ← hp, ← hrest, List.take_append_drop]
      rw [strncasecmpEq, cstr_self h] at hkey
      have hnul : nul ∉ eraseBack " \t>".toList (opened p) := by
        intro hin
        rw [htext] at h
        exact h (by simp only [List.mem_append, List.mem_cons, hin, true_or, or_true])
      rw [cstr_self hnul] at hmailbox
      exact ⟨sep, hsep sep rfl, _, b₁, b₂, bracket, tail, htext, beq_iff_eq.mp hkey, hb₁, hb₂,
        hbracket, hmailbox, hcls⟩
  · rintro ⟨sep, hsep, harg⟩
    obtain ⟨hkey, p, hp, tail, hopened, hcls, hmailbox⟩ := harg.parts h hsep
    have hlast : ∀ c ∈ mailbox.getLast?, c ∉ " \t>".toList := by
      intro c hc hin
      have hsub : ∀ c ∈ " \t>".toList, c ∈ " \t<>".toList := by decide
      exact (not_mem_of_mailbox hmailbox (List.mem_of_getLast? hc)).1 (hsub c hin)
    have hne : opened p ≠ [] := by
      rw [hopened]
      rintro hnil
      rw [(List.append_eq_nil_iff.mp hnil).1] at hmailbox
      exact absurd hmailbox (by decide)
    have hnul : nul ∉ mailbox := fun hin => (not_mem_of_mailbox hmailbox hin).2 rfl
    rw [if_pos hkey, hp]
    dsimp only
    rw [if_neg (by simpa using hne), hopened, eraseBack_append hlast hcls, cstr_self hnul]
    exact ⟨rfl, hmailbox⟩

/-! ### The colon -/

/-- An argument is read as its form says. -/
def Understood (key text : Text) : Prop :=
  ∀ old, ∃ ret mailbox, whereMailboxAt key text old = some (ret, mailbox) ∧
    (ret = 0 ↔ ∃ address, Argument ':' key text address) ∧
    ∀ address, Argument ':' key text address → mailbox = address

/-- What is returned and stored. -/
theorem whereMailbox_fst_iff {key text : Text} (h : nul ∉ text) (old : Text) :
    (whereMailbox key text old).1 = true ↔
      ∃ sep, isblank sep = false ∧ Argument sep key text (whereMailbox key text old).2 := by
  rw [← assigned_iff h, whereMailbox]
  cases assigned key text with
  | none => simp
  | some mailbox => simp

theorem whereMailbox_of_argument {key text address : Text} (h : nul ∉ text) {sep : Char}
    (hsep : isblank sep = false) (harg : Argument sep key text address) (old : Text) :
    whereMailbox key text old = (true, address) := by
  obtain ⟨hassigned, haddress⟩ := (assigned_iff h).mpr ⟨sep, hsep, harg⟩
  rw [whereMailbox, hassigned]
  exact congrArg (·, address) haddress

/-- An argument is read as its form says, unless something else stands where the colon belongs. -/
theorem understood_iff {key text : Text} (h : nul ∉ text) :
    Understood key text ↔
      ∀ sep address, isblank sep = false → Argument sep key text address → sep = ':' := by
  constructor
  · intro hunderstood sep address hsep harg
    obtain ⟨ret, mailbox, hret, hiff, -⟩ := hunderstood []
    rw [whereMailboxAt_eq key [] h, whereMailbox_of_argument h hsep harg] at hret
    obtain ⟨rfl, rfl⟩ := Prod.mk.inj (Option.some.inj hret)
    obtain ⟨address', harg'⟩ := hiff.mp rfl
    obtain ⟨-, p, hp, -⟩ := harg.parts h hsep
    obtain ⟨-, p', hp', -⟩ := harg'.parts h (by decide)
    exact (List.cons.inj (hp.symm.trans hp')).1
  · intro hcolon old
    refine ⟨_, _, whereMailboxAt_eq key old h, ?_, fun address harg => ?_⟩
    · have hread : (whereMailbox key text old).1 = true ↔
          ∃ address, Argument ':' key text address := by
        rw [whereMailbox_fst_iff h]
        constructor
        · rintro ⟨sep, hsep, harg⟩
          rw [hcolon sep _ hsep harg] at harg
          exact ⟨_, harg⟩
        · rintro ⟨address, harg⟩
          rw [whereMailbox_of_argument h (by decide) harg]
          exact ⟨':', by decide, harg⟩
      rw [← hread]
      cases (whereMailbox key text old).1 <;> simp
    · rw [whereMailbox_of_argument h (by decide) harg]

theorem understood_from_bracket : Understood "FROM".toList "FROM:<a@b.c>".toList := by
  refine (understood_iff (by decide)).mpr fun sep address hsep harg => ?_
  obtain ⟨-, p, hp, -⟩ := harg.parts (by decide) hsep
  exact (List.cons.inj hp).1.symm

/-- The first letter of the address is taken for the colon. -/
theorem not_understood_from_user : ¬ Understood "FROM".toList "FROM user@a.b".toList := by
  intro hunderstood
  obtain ⟨ret, mailbox, hret, hiff, -⟩ := hunderstood []
  have hrun : whereMailboxAt "FROM".toList "FROM user@a.b".toList [] =
      some (0, "ser@a.b".toList) := by rfl
  rw [hrun] at hret
  obtain ⟨rfl, rfl⟩ := Prod.mk.inj (Option.some.inj hret)
  obtain ⟨address, harg⟩ := hiff.mp rfl
  obtain ⟨-, p, hp, -⟩ := harg.parts (by decide) (by decide)
  exact absurd (List.cons.inj hp).1 (by decide)

end Edm.Postmaster
