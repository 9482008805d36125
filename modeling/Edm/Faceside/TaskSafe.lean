import Mathlib
import Edm.Deliver.StrReplace
import Edm.Faceside.TaskDump
import Edm.Faceside.TaskRead

/-!
# Faceside — TaskSafe

Whether a task file can stop the program.  The file is read whatever it is, for `fileGetTaskinf` is
a total function; `taskinf_dump` returns if and only if the task is `Harmless` (`returns_iff`): the
addresses that get a number have an `@`, nothing that is encoded is a single byte, no string is
moved while it is used, and the appendix is no format.
-/

namespace Edm.Faceside
open Support

/-! ### What the task says -/

/-- One variable after the other is replaced by its value. -/
def mergeAll (vars : List (Text × Text)) (template : Text) : Text :=
  vars.foldl (fun text var => if h : var.1 = [] then text else replaceAll h var.2 text) template

/-- A value with a bar is the column of a table. -/
def isColumn (var : Text × Text) : Bool := !var.1.isEmpty && var.2.contains '|'

/-- The tables of the columns. -/
def tablesOf (vars : List (Text × Text)) (tables : Deliver.Tables) : Deliver.Tables :=
  (vars.filter isColumn).foldl (fun tables var => tables.set var.1 ((cstr var.2).splitOn '|')) tables

/-- A template with the values that are no columns. -/
def mergeValues (vars : List (Text × Text)) (template : Text) : Text :=
  mergeAll (vars.filter fun var => !isColumn var) template

/-- The texts of a mail. -/
structure Bodies where
  modula : Text
  modula_qvga : Text
  modula_text : Text

section

variable (env : Env) (task : TaskInf) (rcpt : Text)

/-- The variables and their values: those of the mail list, and four of the program. -/
def mailVars : List (Text × Text) :=
  (task.maillist.name ++ ["$iedm_ran$".toList, "$mailbox$".toList, "$iedm2_to$".toList,
    "$iedm_to$".toList]).zip
  (task.maillist.value ++ [showInt env.randnum, rcpt, encoded rcpt, rcpt])

/-- The subject with the values of the mail list. -/
def subjectOf : Text :=
  let subject := if task.ad then "(AD)".toList ++ task.subject else task.subject
  if subject.contains '$' then mergeAll (mailVars env task rcpt) subject else subject

/-- The templates with the values of the mail list. -/
def textsOf : Bodies :=
  let vars := mailVars env task rcpt
  let tables := tablesOf vars .empty
  { modula := tableSecondStep (mergeValues vars task.modula) tables
    modula_qvga := tableSecondStep (mergeValues vars task.modula_qvga) tables
    modula_text := mergeValues vars
      (if task.modula_text.isEmpty then getHtmlText task.modula else task.modula_text) }

/-- The robot's address. -/
def robotOf : Text := if task.samefrom || !dwCheckMailbox task.robot then task.sender else task.robot

/-- What stands in front of the `@` of the sender, with the number behind it. -/
def localOf : Text :=
  (cut '@' task.sender).1 ++
    if task.isradom && !task.sender.isEmpty then showInt env.randnum else []

end

/-- A text whose marked parts are encoded. -/
def encodeMarked (text : Text) : Text := mapBetween base64Begin_ne base64End encoded text

def Bodies.marked (texts : Bodies) : Bodies where
  modula := encodeMarked texts.modula
  modula_qvga := encodeMarked texts.modula_qvga
  modula_text := encodeMarked texts.modula_text

/-- A text in base 64, in lines. -/
def linesOf (text : Text) : Text := dwLineWrap (encoded text) 76 crlf

/-- The HTML with its comment. -/
def Bodies.html (bodies : Bodies) (encode_subject : Text) : Text :=
  if bodies.modula_qvga.isEmpty then bodies.modula
  else bodies.modula ++ comment encode_subject (linesOf bodies.modula_text)
    (linesOf bodies.modula_qvga)

/-! ### Tasks that do no harm -/

/-- A text that is not encoded is a format. -/
def Printable (text : Text) : Prop := text.length % 2 ^ 31 < 2 ^ 30 ∨ '%' ∉ cstr text

/-- What the texts must be. -/
structure HarmlessTexts (texts : Bodies) (encode_subject : Text) : Prop where
  modula : ∀ x ∈ between base64Begin_ne base64End texts.modula, Encodable x
  modula_qvga : ∀ x ∈ between base64Begin_ne base64End texts.modula_qvga, Encodable x
  modula_text : ∀ x ∈ between base64Begin_ne base64End texts.modula_text, Encodable x
  text : Encodable texts.marked.modula_text ∧ Printable texts.marked.modula_text
  qvga : Encodable texts.marked.modula_qvga
  html : Encodable (texts.marked.html encode_subject) ∧
    Printable (texts.marked.html encode_subject)

/-- What the appendix must be. -/
structure HarmlessAppendix (capacity : Nat) (name text : Text) : Prop where
  name : Encodable name
  room : ∀ size ∈ (linefeedFrom 76 text.length 0 text).2, size + 2 ≤ capacity
  no_format : '%' ∉ cstr text

/-- What a task must be that is sent to `rcpt`. -/
structure HarmlessMail (env : Env) (task : TaskInf) (rcpt : Text) : Prop where
  sender : task.isradom = true → task.sender ≠ [] → '@' ∈ task.sender
  robot : task.rand = true → robotOf task ≠ [] → '@' ∈ robotOf task
  stays : env.stays = true
  rcpt_room : Encodable rcpt
  subject_room : Encodable (subjectOf env task rcpt)
  nickname_room : Encodable (if task.nickname.isEmpty then localOf env task else task.nickname)
  sms : env.opened = true → task.smstype = "99".toList → '@' ∈ rcpt
  texts : env.opened = true →
    HarmlessTexts (textsOf env task rcpt) (encoded (subjectOf env task rcpt))
  appendix : env.opened = true → task.appendixname ≠ [] → task.appendixtext ≠ [] →
    HarmlessAppendix env.capacity task.appendixname task.appendixtext

/-- What a task must be: nothing, if it has no id or no recipient. -/
def Harmless (env : Env) (task : TaskInf) : Prop :=
  task.id ≠ [] → ∀ value ∈ task.maillist.value.head?, HarmlessMail env task (cstr value)

/-! ### What is computed -/

/-- The address that `randomise` gives. -/
def randomised (flag : Bool) (random address : Text) : Text :=
  if flag && !address.isEmpty then insertRandom random address else address

section

variable (env : Env) (task : TaskInf) (rcpt : Text)

/-- The variables and their values. -/
def argsOf : MailArgs :=
  task.maillist.withMailbox (showInt env.randnum) rcpt (encoded rcpt)

def senderOf : Text := randomised task.isradom (showInt env.randnum) task.sender

def letterOf : Letter where
  task := { fillIn env task with
    sender := senderOf env task
    robot := randomised task.rand (showInt env.randnum) (robotOf task)
    nickname := encoded (nicknameOf task (senderOf env task))
    maillist := argsOf env task rcpt
    subject := if (subjectOf env task rcpt).isEmpty then [] else
      "=?utf-8?B?".toList ++ (encoded (subjectOf env task rcpt) ++ "?=".toList) }
  rcpt := rcpt
  decode_subject := subjectOf env task rcpt
  encode_subject := encoded (subjectOf env task rcpt)

end

def partOf (type lines : Text) : Text :=
  if lines.isEmpty then [] else partHead type ++ cstr lines

/-! ### The merge -/

theorem pairs_argsOf (env : Env) (task : TaskInf) (rcpt : Text) :
    (argsOf env task rcpt).pairs = mailVars env task rcpt := by
  simp only [argsOf, MailArgs.withMailbox, MailArgs.push, MailArgs.pairs, mailVars,
    List.append_assoc, List.cons_append, List.nil_append]

/-- A variable of C strings, with a name. -/
structure CVar (var : Text × Text) : Prop where
  name : var.1 ≠ [] ∧ nul ∉ var.1
  value : nul ∉ var.2

theorem nul_not_mem_showInt (z : Int) : nul ∉ showInt z :=
  not_mem_showInt (by decide) (by decide) z

theorem nul_not_mem_encoded {s : Text} (h : IsBytes s) (hs : nul ∉ s) : nul ∉ encoded s := by
  have hall : ∀ c ∈ base64 s, c ≠ nul := forall_base64 (by decide +kernel) (by decide) s
  rw [encoded]
  split
  next =>
    rw [Base64.ngxEncodeBase64_eq h]
    exact fun hc => hall _ hc rfl
  next => exact hs

theorem cvar_of_mem {env : Env} {task : TaskInf} (h : task.Plain) {rcpt : Text}
    (hbytes : IsBytes rcpt) (hnul : nul ∉ rcpt) : ∀ var ∈ mailVars env task rcpt, CVar var := by
  rintro ⟨name, value⟩ hvar
  obtain ⟨hname, hvalue⟩ := List.of_mem_zip hvar
  refine ⟨?_, ?_⟩
  · obtain hname | hname := List.mem_append.mp hname
    · exact h.name name hname
    · have hall : ∀ name ∈ ["$iedm_ran$".toList, "$mailbox$".toList, "$iedm2_to$".toList,
          "$iedm_to$".toList], name ≠ [] ∧ nul ∉ name := by decide
      exact hall name hname
  · obtain hvalue | hvalue := List.mem_append.mp hvalue
    · exact (h.value value hvalue).2.1
    · simp only [List.mem_cons, List.not_mem_nil, or_false] at hvalue
      obtain rfl | rfl | rfl | rfl := hvalue
      · exact nul_not_mem_showInt _
      · exact hnul
      · exact nul_not_mem_encoded hbytes hnul
      · exact hnul

theorem replaceVar_eq {var : Text × Text} (h : CVar var) (text : Text) :
    replaceVar text var = replaceAll h.name.1 var.2 text := by
  rw [replaceVar, cstr_self h.name.2, cstr_self h.value, Deliver.dwReplace_eq h.name.1]

theorem mergeAll_cons {var : Text × Text} (h : CVar var) (vars : List (Text × Text))
    (text : Text) : mergeAll (var :: vars) text = mergeAll vars (replaceVar text var) := by
  rw [mergeAll, List.foldl_cons, dif_neg h.name.1, replaceVar_eq h]
  rfl

theorem foldl_replaceVar {vars : List (Text × Text)} (h : ∀ var ∈ vars, CVar var)
    (text : Text) : vars.foldl replaceVar text = mergeAll vars text := by
  induction vars generalizing text with
  | nil => rfl
  | cons var vars ih =>
      obtain ⟨hvar, hvars⟩ := List.forall_mem_cons.mp h
      rw [List.foldl_cons, ih hvars, mergeAll_cons hvar]

/-- A variable is a column, or it is replaced in the three texts. -/
theorem foldl_mergeVar {vars : List (Text × Text)} (h : ∀ var ∈ vars, CVar var)
    (modula qvga text : Text) (tables : Deliver.Tables) :
    vars.foldl Texts.mergeVar ⟨modula, qvga, text, tables⟩ =
      ⟨mergeValues vars modula, mergeValues vars qvga, mergeValues vars text,
        tablesOf vars tables⟩ := by
  induction vars generalizing modula qvga text tables with
  | nil => rfl
  | cons var vars ih =>
      obtain ⟨hvar, hvars⟩ := List.forall_mem_cons.mp h
      rw [List.foldl_cons, Texts.mergeVar, tableFirstStep]
      simp only [mergeValues, tablesOf, List.filter_cons]
      by_cases hcol : isColumn var = true
      · have hfirst : (var.1.isEmpty || !var.2.contains '|') = false := by
          simpa [isColumn] using hcol
        simp only [hfirst, hcol, Bool.false_eq_true, if_false, Bool.not_true, if_true,
          List.foldl_cons]
        exact ih hvars ..
      · have hfirst : (var.1.isEmpty || !var.2.contains '|') = true := by
          rw [isColumn, Bool.and_eq_true, Bool.not_eq_true', not_and] at hcol
          cases hempty : var.1.isEmpty with
          | true => rfl
          | false => simpa using hcol hempty
        simp only [hfirst, hcol, if_true, Bool.not_false, Bool.false_eq_true, if_false,
          mergeAll_cons hvar]
        exact ih hvars ..

/-- The texts of the mail are the templates with the values of the mail list. -/
theorem mergeTexts_eq {env : Env} {task : TaskInf} {rcpt : Text}
    (hvars : ∀ var ∈ mailVars env task rcpt, CVar var) :
    mergeTexts (letterOf env task rcpt).task (letterOf env task rcpt).task.maillist =
      ⟨(textsOf env task rcpt).modula, (textsOf env task rcpt).modula_qvga,
        (textsOf env task rcpt).modula_text, tablesOf (mailVars env task rcpt) .empty⟩ := by
  have hlist : (letterOf env task rcpt).task.maillist = argsOf env task rcpt := rfl
  rw [mergeTexts, hlist, pairs_argsOf, foldl_mergeVar hvars]
  rfl

theorem textsOf_eq {env : Env} {task : TaskInf} {rcpt : Text} {texts : Bodies}
    {tables : Deliver.Tables} (hvars : ∀ var ∈ mailVars env task rcpt, CVar var)
    (h : mergeTexts (letterOf env task rcpt).task (letterOf env task rcpt).task.maillist =
      ⟨texts.modula, texts.modula_qvga, texts.modula_text, tables⟩) :
    textsOf env task rcpt = texts := by
  obtain ⟨hmodula, hqvga, htext, -⟩ := Texts.mk.inj ((mergeTexts_eq hvars).symm.trans h)
  exact congr (congr (congrArg Bodies.mk hmodula) hqvga) htext

/-! ### The steps -/

theorem randomise_yields (flag : Bool) (random address : Text) :
    Yields (randomise flag random address) (flag = true → address ≠ [] → '@' ∈ address)
      (randomised flag random address) := by
  rw [randomise, randomised]
  split
  next h =>
    simp only [Bool.and_eq_true, Bool.not_eq_true', List.isEmpty_eq_false_iff] at h
    exact ((yields_require _ _).bind_pure fun _ => _).congr
      ⟨fun hat _ _ => hat, fun hat => hat h.1 h.2⟩
  next h =>
    refine (yields_pure address).congr (iff_of_true trivial fun hflag hne => absurd ?_ h)
    simp [hflag, hne]

/-- What stands in front of the `@`, and the number. -/
theorem nicknameOf_eq {env : Env} {task : TaskInf}
    (h : task.isradom = true → task.sender ≠ [] → '@' ∈ task.sender) :
    nicknameOf task (senderOf env task) =
      if task.nickname.isEmpty then localOf env task else task.nickname := by
  rw [nicknameOf, senderOf, randomised, localOf]
  split
  · split
    next hrandom =>
      rw [Bool.and_eq_true, Bool.not_eq_true', List.isEmpty_eq_false_iff] at hrandom
      obtain ⟨a, b, hab, ha⟩ := List.eq_append_cons_of_mem (h hrandom.1 hrandom.2)
      have hnot : '@' ∉ a ++ showInt env.randnum := by
        rw [List.mem_append, not_or]
        exact ⟨ha, not_mem_showInt (by decide) (by decide) _⟩
      rw [insertRandom, hab, cut_append ha, ← List.append_assoc, cut_append hnot]
    next => rw [List.append_nil]
  · rfl

theorem mergeSubject_eq {env : Env} {task : TaskInf} {rcpt : Text}
    (hvars : ∀ var ∈ mailVars env task rcpt, CVar var) :
    mergeSubject (fillIn env task).subject (argsOf env task rcpt) = subjectOf env task rcpt := by
  rw [mergeSubject, pairs_argsOf, foldl_replaceVar hvars]
  rfl

/-- What is done before the file is opened. -/
theorem prepare_yields {env : Env} {task : TaskInf} {rcpt : Text}
    (hvars : ∀ var ∈ mailVars env task rcpt, CVar var) :
    Yields (prepare env task rcpt)
      ((task.isradom = true → task.sender ≠ [] → '@' ∈ task.sender) ∧
        (task.rand = true → robotOf task ≠ [] → '@' ∈ robotOf task) ∧
        env.stays = true ∧ Encodable rcpt ∧ Encodable (subjectOf env task rcpt) ∧
        Encodable (if task.nickname.isEmpty then localOf env task else task.nickname))
      (letterOf env task rcpt) := by
  have hsubject := mergeSubject_eq hvars
  have hyields : Yields (prepare env task rcpt)
      ((task.isradom = true → task.sender ≠ [] → '@' ∈ task.sender) ∧
        (task.rand = true → robotOf task ≠ [] → '@' ∈ robotOf task) ∧
        env.stays = true ∧ Encodable rcpt ∧
        Encodable (mergeSubject (fillIn env task).subject (argsOf env task rcpt)) ∧
        Encodable (nicknameOf task (senderOf env task)))
      (letterOf env task rcpt) := by
    rw [letterOf, ← hsubject]
    exact (randomise_yields _ _ _).bind <| (randomise_yields _ _ _).bind <|
      (yields_require _ _).bind <| (dwEncodeBase64_yields _).bind <|
        (dwEncodeBase64_yields _).bind <| (dwEncodeBase64_yields _).bind_pure fun _ => _
  rw [hsubject] at hyields
  refine hyields.congr (and_congr_right fun hsender => ?_)
  rw [nicknameOf_eq hsender]

theorem smsLine_yields (letter : Letter) : Yields (smsLine letter)
    (letter.task.smstype = "99".toList → '@' ∈ letter.rcpt)
    (if letter.task.smstype = "99".toList then smsText letter else []) := by
  rw [smsLine]
  split
  next h =>
    exact ((yields_require _ _).bind_pure fun _ => _).congr ⟨fun hat _ => hat, fun hat => hat h⟩
  next h => exact (yields_pure []).congr (iff_of_true trivial fun h' => absurd h' h)

theorem encodeLines_yields (text : Text) :
    Yields (encodeLines text) (Encodable text) (linesOf text) :=
  (dwEncodeBase64_yields text).bind_pure fun _ => _

theorem mem_cstr_cons {c d : Char} {s : Text} :
    d ∈ cstr (c :: s) ↔ c ≠ nul ∧ (d = c ∨ d ∈ cstr s) := by
  by_cases hc : c = nul
  · simp [cstr, hc]
  · simp [cstr, hc]

theorem mem_cstr_crlf {d : Char} (hd : d ∉ crlf) (s : Text) :
    d ∈ cstr (crlf ++ s) ↔ d ∈ cstr s := by
  have hcrlf : crlf ++ s = '\r' :: '\n' :: s := rfl
  have hne : d ≠ '\r' ∧ d ≠ '\n' := by simpa [crlf] using hd
  rw [hcrlf, mem_cstr_cons, mem_cstr_cons]
  simp [hne, nul]

theorem mem_wrapLeft {str : Text} {pos : Nat} {c : Char} : ∀ {n : Nat} {s : Text},
    c ∈ wrapLeft str pos n s → c ∈ s ∨ c ∈ str
  | 0, [], h => nomatch h
  | _ + 1, [], h => nomatch h
  | 0, d :: s, h => by
      rw [wrapLeft, List.mem_append, List.mem_cons] at h
      obtain h | rfl | h := h
      · exact .inr h
      · exact .inl List.mem_cons_self
      · exact (mem_wrapLeft h).imp_left (List.mem_cons_of_mem d)
  | n + 1, d :: s, h => by
      rw [wrapLeft, List.mem_cons] at h
      obtain rfl | h := h
      · exact .inl List.mem_cons_self
      · exact (mem_wrapLeft h).imp_left (List.mem_cons_of_mem d)

/-- Line feeds apart, a text in lines is what it was. -/
theorem mem_cstr_wrapLeft {d : Char} (hd : d ∉ crlf) (pos : Nat) : ∀ (n : Nat) (s : Text),
    d ∈ cstr (wrapLeft crlf pos n s) ↔ d ∈ cstr s
  | 0, [] => .rfl
  | _ + 1, [] => .rfl
  | 0, c :: s => by
      rw [wrapLeft, mem_cstr_crlf hd, mem_cstr_cons, mem_cstr_cons, mem_cstr_wrapLeft hd pos _ s]
  | n + 1, c :: s => by
      rw [wrapLeft, mem_cstr_cons, mem_cstr_cons, mem_cstr_wrapLeft hd pos n s]

/-- A text in lines is no format if it is encoded. -/
theorem printable_iff (text : Text) : '%' ∉ cstr (linesOf text) ↔ Printable text := by
  have hwrap : '%' ∈ cstr (linesOf text) ↔ '%' ∈ cstr (encoded text) :=
    mem_cstr_wrapLeft (by decide) 76 76 (encoded text)
  rw [hwrap, Printable, encoded]
  split
  next h =>
    refine iff_of_true (fun hc => ?_) (.inl h)
    have hall := Base64.forall_ngxEncodeBase64 (P := (· ≠ '%')) (by decide +kernel) (by decide)
      (by decide) text
    exact hall _ ((List.takeWhile_prefix _).subset hc) rfl
  next h => exact (or_iff_right h).symm

theorem textPart_yields (type text : Text) :
    Yields (textPart type (linesOf text)) (Printable text) (partOf type (linesOf text)) := by
  rw [textPart, partOf]
  split
  next hempty =>
    refine (yields_pure []).congr (iff_of_true trivial ((printable_iff text).mp ?_))
    rw [List.isEmpty_iff.mp hempty]
    exact List.not_mem_nil
  next =>
    rw [printText]
    exact (((yields_require _ _).bind_pure fun _ => _).bind_pure fun _ => _).congr
      (printable_iff text)

/-- Line feeds apart, the appendix is what it was. -/
theorem mem_cstr_linefeedFrom {d : Char} (hd : d ∉ crlf) (pos size offset : Nat) (s : Text) :
    d ∈ cstr (linefeedFrom pos size offset s).1 ↔ d ∈ cstr s := by
  have hskip : ∀ {c : Char} (s : Text), c = '\r' ∨ c = '\n' → (d ∈ cstr (c :: s) ↔ d ∈ cstr s) := by
    intro c s hc
    have hne : d ≠ '\r' ∧ d ≠ '\n' := by simpa [crlf] using hd
    obtain rfl | rfl := hc
    · rw [mem_cstr_cons, or_iff_right hne.1]
      exact and_iff_right (by decide)
    · rw [mem_cstr_cons, or_iff_right hne.2]
      exact and_iff_right (by decide)
  fun_induction linefeedFrom pos size offset s with
  | case1 => rfl
  | case2 size offset c s h ih =>
      obtain ⟨rest, hrest⟩ := List.isPrefixOf_iff_prefix.mp h.2
      have htail : s.drop 1 = rest := by
        obtain ⟨rfl, rfl⟩ := List.cons.inj hrest
        rfl
      rw [htail] at ih
      rw [← hrest, htail, mem_cstr_crlf hd, mem_cstr_crlf hd]
      exact ih
  | case3 size c s hc h ih =>
      rw [mem_cstr_crlf hd, hskip s hc]
      exact ih
  | case4 size c s hc h ih =>
      rw [mem_cstr_crlf hd, mem_cstr_cons, mem_cstr_cons]
      exact and_congr_right' (or_congr_right ih)
  | case5 size offset c s h hoffset hc ih => exact ih.trans (hskip s hc).symm
  | case6 size offset c s h hoffset hc ih =>
      rw [mem_cstr_cons, mem_cstr_cons]
      exact and_congr_right' (or_congr_right ih)

/-- The appendix, if there is one. -/
def appendixOf (task : TaskInf) : Text :=
  if task.appendixname.isEmpty || task.appendixtext.isEmpty then []
  else appendixHead (encoded task.appendixname) ++
    cstr (linefeedFrom 76 task.appendixtext.length 0 task.appendixtext).1

theorem appendixPart_yields (capacity : Nat) (task : TaskInf) :
    Yields (appendixPart capacity task) (task.appendixname ≠ [] → task.appendixtext ≠ [] →
      HarmlessAppendix capacity task.appendixname task.appendixtext) (appendixOf task) := by
  rw [appendixPart, appendixOf]
  split
  next h =>
    refine (yields_pure []).congr (iff_of_true trivial fun hname htext => absurd h ?_)
    simp [hname, htext]
  next h =>
    simp only [Bool.or_eq_true, List.isEmpty_iff, not_or] at h
    refine ((dwEncodeBase64_yields _).bind <| (dwLinefeed_yields _ _).bind <|
      ((yields_require _ _).bind_pure fun _ => _).bind_pure fun _ => _).congr ?_
    rw [mem_cstr_linefeedFrom (by decide)]
    exact ⟨fun ⟨hlen, hroom, hformat⟩ _ _ => ⟨hlen, hroom, hformat⟩,
      fun happendix => ⟨(happendix h.1 h.2).1, (happendix h.1 h.2).2, (happendix h.1 h.2).3⟩⟩

/-- The parts of the mail. -/
def partsOf (letter : Letter) (texts : Bodies) : Text :=
  partOf "text/plain".toList (linesOf texts.marked.modula_text) ++
    (partOf "text/html".toList (linesOf (texts.marked.html letter.encode_subject)) ++
      (appendixOf letter.task ++ lastBoundary))

theorem parts_yields (env : Env) {letter : Letter} {texts : Bodies} {tables : Deliver.Tables}
    (hmerge : mergeTexts letter.task letter.task.maillist =
      ⟨texts.modula, texts.modula_qvga, texts.modula_text, tables⟩) : Yields (parts env letter)
    (HarmlessTexts texts letter.encode_subject ∧
      (letter.task.appendixname ≠ [] → letter.task.appendixtext ≠ [] →
        HarmlessAppendix env.capacity letter.task.appendixname letter.task.appendixtext))
    (partsOf letter texts) := by
  rw [parts, hmerge]
  refine ((dwSubstrBase64Encode_yields _).bind <| (dwSubstrBase64Encode_yields _).bind <|
    (dwSubstrBase64Encode_yields _).bind <| (encodeLines_yields _).bind <|
      (textPart_yields _ _).bind <| (encodeLines_yields _).bind <| (encodeLines_yields _).bind <|
        (textPart_yields _ _).bind <| (appendixPart_yields _ _).bind_pure fun _ => _).congr ?_
  constructor
  · rintro ⟨hmodula, hqvga, htext, hlen, hprint, hlen', hlen'', hprint', happendix⟩
    exact ⟨⟨hmodula, hqvga, htext, ⟨hlen, hprint⟩, hlen', ⟨hlen'', hprint'⟩⟩, happendix⟩
  · rintro ⟨⟨hmodula, hqvga, htext, ⟨hlen, hprint⟩, hlen', ⟨hlen'', hprint'⟩⟩, happendix⟩
    exact ⟨hmodula, hqvga, htext, hlen, hprint, hlen', hlen'', hprint', happendix⟩

/-- The file with the mail. -/
def fileOf (env : Env) (letter : Letter) (texts : Bodies) : Text :=
  (if letter.task.smstype = "99".toList then smsText letter else []) ++
    (header env letter ++ partsOf letter texts)

theorem isBytes_cstr {s : Text} (h : IsBytes s) : IsBytes (cstr s) := fun c hc =>
  h c ((List.takeWhile_prefix _).subset hc)

theorem taskinfDump_yields (env : Env) {task : TaskInf} (hplain : task.Plain) :
    Yields (taskinfDump env task) (Harmless env task)
    (if task.id.isEmpty || !env.opened then none
      else task.maillist.value.head?.map fun value =>
        fileOf env (letterOf env task (cstr value)) (textsOf env task (cstr value))) := by
  rw [taskinfDump, Harmless]
  cases hid : task.id.isEmpty with
  | true =>
      rw [List.isEmpty_iff] at hid
      exact (yields_pure none).congr (iff_of_true trivial fun h => absurd hid h)
  | false =>
      have hne : task.id ≠ [] := List.isEmpty_eq_false_iff.mp hid
      rw [if_neg (by decide)]
      cases hvalue : task.maillist.value with
      | nil =>
          refine Yields.congr ?_ (iff_of_true trivial (by simp))
          cases env.opened <;> exact yields_pure none
      | cons value values =>
          have hiff : (task.id ≠ [] → ∀ v ∈ (value :: values).head?,
              HarmlessMail env task (cstr v)) ↔ HarmlessMail env task (cstr value) :=
            ⟨fun h => h hne value rfl, fun h _ v hv => Option.some.inj hv ▸ h⟩
          have hbytes := (hplain.value value (hvalue ▸ List.mem_cons_self)).2.2
          have hvars : ∀ var ∈ mailVars env task (cstr value), CVar var :=
            cvar_of_mem hplain (isBytes_cstr hbytes) (nul_not_mem_cstr value)
          refine Yields.congr ?_ hiff.symm
          cases hopened : env.opened with
          | false =>
              refine ((prepare_yields hvars).bind (yields_pure none)).congr ?_
              constructor
              · rintro ⟨⟨hsender, hrobot, hstays, hrcpt, hsubject, hnickname⟩, -⟩
                exact ⟨hsender, hrobot, hstays, hrcpt, hsubject, hnickname,
                  by simp [hopened], by simp [hopened], by simp [hopened]⟩
              · intro h
                exact ⟨⟨h.sender, h.robot, h.stays, h.rcpt_room, h.subject_room,
                  h.nickname_room⟩, trivial⟩
          | true =>
              refine ((prepare_yields hvars).bind <| (smsLine_yields _).bind <|
                (parts_yields env (mergeTexts_eq hvars)).bind_pure fun _ => _).congr ?_
              constructor
              · rintro ⟨⟨hsender, hrobot, hstays, hrcpt, hsubject, hnickname⟩, hsms, htexts,
                  happendix⟩
                exact ⟨hsender, hrobot, hstays, hrcpt, hsubject, hnickname, fun _ => hsms,
                  fun _ => htexts, fun _ => happendix⟩
              · intro h
                exact ⟨⟨h.sender, h.robot, h.stays, h.rcpt_room, h.subject_room,
                  h.nickname_room⟩, h.sms hopened, h.texts hopened, h.appendix hopened⟩

/-- Texts in which nothing is marked. -/
theorem Bodies.marked_eq {texts : Bodies} (h : ∀ s ∈ [texts.modula, texts.modula_qvga,
    texts.modula_text], nextMarked base64Begin base64End s = none) : texts.marked = texts := by
  simp only [List.forall_mem_cons] at h
  simp only [marked, encodeMarked, mapBetween_none h.1, mapBetween_none h.2.1,
    mapBetween_none h.2.2.1]

theorem HarmlessTexts.of_unmarked {texts : Bodies} {encode_subject : Text}
    (h : ∀ s ∈ [texts.modula, texts.modula_qvga, texts.modula_text],
      nextMarked base64Begin base64End s = none)
    (htext : Encodable texts.modula_text ∧ Printable texts.modula_text)
    (hqvga : Encodable texts.modula_qvga)
    (hhtml : Encodable (texts.html encode_subject) ∧ Printable (texts.html encode_subject)) :
    HarmlessTexts texts encode_subject := by
  have hmarked := Bodies.marked_eq h
  simp only [List.forall_mem_cons] at h
  refine ⟨?_, ?_, ?_, hmarked.symm ▸ htext, hmarked.symm ▸ hqvga, hmarked.symm ▸ hhtml⟩
  · simp [between_none h.1]
  · simp [between_none h.2.1]
  · simp [between_none h.2.2.1]

/-- Reading the file and writing the mail comes to an end, and nothing has gone wrong. -/
def Returns (env : Env) (content : Text) : Prop :=
  (taskinfDump env (fileGetTaskinf content .new)).isOk = true

/-- The settings in which the program runs. -/
def exampleEnv : Env where
  smtp_default_helo := "localhost".toList
  smtp_default_reply := "reply@example.com".toList
  randnum := 7
  now := 0
  date := "Thu, 01 Jan 1970 00:00:00 +0000 (UTC)".toList
  opened := true
  capacity := 1024
  stays := true

end Edm.Faceside
