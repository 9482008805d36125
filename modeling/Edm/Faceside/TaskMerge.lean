import Mathlib
import Edm.Faceside.TaskSafe

/-!
# Faceside — TaskMerge

The texts of a mail with the values of its mail list.  Each variable in its turn is replaced by its
value, wherever it stands (`mergeAll`), and the marked parts are encoded.

The texts that `taskinf_dump` encodes are the merged templates (`marked_textsOf`), if no value is
the column of a table and none of them is too long for the encoder (`Short`).
-/

namespace Edm.Faceside
open Support

/-- A template with the values of the mail list, its marked parts in base 64. -/
def mergedText (vars : List (Text × Text)) (template : Text) : Text :=
  mapBetween base64Begin_ne base64End base64 (mergeAll vars template)

/-- A text in base 64, in lines. -/
def codeLines (text : Text) : Text := dwLineWrap (base64 text) 76 crlf

section

variable (env : Env) (task : TaskInf) (rcpt : Text)

/-- The template of the text: what is read in the HTML, if there is no other. -/
def plainTemplate : Text :=
  if task.modula_text.isEmpty then getHtmlText task.modula else task.modula_text

/-- The templates with the values of the mail list. -/
def mergedOf : Bodies where
  modula := mergedText (mailVars env task rcpt) task.modula
  modula_qvga := mergedText (mailVars env task rcpt) task.modula_qvga
  modula_text := mergedText (mailVars env task rcpt) (plainTemplate task)

/-- The merged HTML, with the comment for the QVGA text. -/
def htmlOf : Text :=
  let bodies := mergedOf env task rcpt
  if bodies.modula_qvga.isEmpty then bodies.modula
  else bodies.modula ++ comment (encoded (subjectOf env task rcpt))
    (codeLines bodies.modula_text) (codeLines bodies.modula_qvga)

/-- What is encoded has a doubled length that an `int` holds. -/
structure Short : Prop where
  marked : ∀ template ∈ [task.modula, task.modula_qvga, plainTemplate task],
    ∀ x ∈ between base64Begin_ne base64End (mergeAll (mailVars env task rcpt) template),
      x.length < 2 ^ 30
  subject : (subjectOf env task rcpt).length < 2 ^ 30
  text : (mergedOf env task rcpt).modula_text.length < 2 ^ 30
  qvga : (mergedOf env task rcpt).modula_qvga.length < 2 ^ 30
  html : (htmlOf env task rcpt).length < 2 ^ 30

end

/-! ### What is encoded -/

theorem encoded_eq {s : Text} (h : IsBytes s) (hlen : s.length < 2 ^ 30) : encoded s = base64 s := by
  rw [encoded, if_pos (by omega), Base64.ngxEncodeBase64_eq h]

theorem linesOf_eq {s : Text} (h : IsBytes s) (hlen : s.length < 2 ^ 30) :
    linesOf s = codeLines s := by
  rw [linesOf, encoded_eq h hlen, codeLines]

/-- The characters of an encoded text. -/
theorem mem_codeLines {text : Text} {c : Char} (h : c ∈ codeLines text) :
    c ∈ digits64 ∨ c = '=' ∨ c ∈ crlf := by
  have hwrap : c ∈ base64 text ∨ c ∈ crlf := mem_wrapLeft h
  obtain hbase | hcrlf := hwrap
  · exact (forall_base64 (P := fun c => c ∈ digits64 ∨ c = '=') (fun c hc => .inl hc) (.inr rfl)
      text c hbase).imp_right .inl
  · exact .inr (.inr hcrlf)

theorem not_mem_codeLines {c : Char} (h : c ∉ digits64 ∧ c ≠ '=' ∧ c ∉ crlf) (text : Text) :
    c ∉ codeLines text := by
  intro hc
  obtain hc | hc | hc := mem_codeLines hc
  · exact h.1 hc
  · exact h.2.1 hc
  · exact h.2.2 hc

theorem lf_not_mem_encoded {s : Text} (h : '\n' ∉ s) : '\n' ∉ encoded s := by
  have hall := Base64.forall_ngxEncodeBase64 (P := (· ≠ '\n')) (by decide +kernel) (by decide)
    (by decide) s
  rw [encoded]
  split
  next => exact fun hc => hall _ hc rfl
  next => exact h

theorem isBytes_encoded {s : Text} (hlen : s.length < 2 ^ 30) : IsBytes (encoded s) := by
  rw [encoded, if_pos (by omega)]
  exact Base64.forall_ngxEncodeBase64 (by decide +kernel) (by decide) (by decide) s

/-! ### The merge -/

/-- A value that stands in a line and is no column of a table. -/
structure PlainValue (value : Text) : Prop where
  lf : '\n' ∉ value
  nul : nul ∉ value
  bar : '|' ∉ value
  bytes : IsBytes value

/-- A variable with such a value. -/
structure PlainVar (var : Text × Text) : Prop where
  name : var.1 ≠ [] ∧ nul ∉ var.1
  value : PlainValue var.2

theorem PlainVar.cvar {var : Text × Text} (h : PlainVar var) : CVar var := ⟨h.name, h.value.nul⟩

theorem isColumn_of_plain {vars : List (Text × Text)} (h : ∀ var ∈ vars, PlainVar var) :
    ∀ var ∈ vars, isColumn var = false := by
  intro var hvar
  simp [isColumn, (h var hvar).value.bar]

theorem mergeValues_eq {vars : List (Text × Text)} (h : ∀ var ∈ vars, PlainVar var)
    (template : Text) : mergeValues vars template = mergeAll vars template := by
  rw [mergeValues, List.filter_eq_self.mpr fun var hvar => by rw [isColumn_of_plain h var hvar]; rfl]

theorem tablesOf_eq {vars : List (Text × Text)} (h : ∀ var ∈ vars, PlainVar var)
    (tables : Deliver.Tables) : tablesOf vars tables = tables := by
  rw [tablesOf, List.filter_eq_nil_iff.mpr fun var hvar => by
    rw [isColumn_of_plain h var hvar]; exact Bool.false_ne_true]
  rfl

theorem tableSecondStep_empty (html : Text) : tableSecondStep html .empty = html := by
  have hpre : cstr html ++ html.drop (cstr html).length = html :=
    (List.prefix_iff_eq_append.mp (List.takeWhile_prefix _))
  rw [tableSecondStep, Deliver.tableSecondStep, if_pos (by simp [StdMap.empty])]
  exact hpre

/-- A property of the letters of the templates and of the values holds for the merged texts. -/
theorem mergeAll_forall {P : Char → Prop} {vars : List (Text × Text)}
    (hvars : ∀ var ∈ vars, ∀ c ∈ var.2, P c) {text : Text} (htext : ∀ c ∈ text, P c) :
    ∀ c ∈ mergeAll vars text, P c := by
  induction vars generalizing text with
  | nil => exact htext
  | cons var vars ih =>
      obtain ⟨hvar, hvars⟩ := List.forall_mem_cons.mp hvars
      rw [mergeAll, List.foldl_cons]
      refine ih hvars ?_
      split
      next => exact htext
      next hne => exact fun c hc => (mem_replaceAll hne hc).elim (htext c) (hvar c)

section

variable {env : Env} {task : TaskInf} {rcpt : Text}

theorem plainValue_showInt (z : Int) : PlainValue (showInt z) where
  lf := not_mem_showInt (by decide) (by decide) z
  nul := not_mem_showInt (by decide) (by decide) z
  bar := not_mem_showInt (by decide) (by decide) z
  bytes c hc := by
    obtain hc | rfl := showInt_mem hc
    · have hrange := digit_range hc
      omega
    · decide

theorem plainValue_base64 (s : Text) : PlainValue (base64 s) := by
  have hall : ∀ c ∈ base64 s, c ≠ '\n' ∧ c ≠ nul ∧ c ≠ '|' ∧ c.toNat < 256 :=
    forall_base64 (by decide +kernel) (by decide) s
  exact ⟨fun hc => (hall _ hc).1 rfl, fun hc => (hall _ hc).2.1 rfl,
    fun hc => (hall _ hc).2.2.1 rfl, fun c hc => (hall c hc).2.2.2⟩

theorem plainValue_encoded {s : Text} (h : PlainValue s) : PlainValue (encoded s) := by
  rw [encoded]
  split
  next =>
    rw [Base64.ngxEncodeBase64_eq h.bytes]
    exact plainValue_base64 s
  next => exact h

/-- The variables of the mail list, and those of the program. -/
theorem plainVar_of_mem (h : task.Plain) (hvalues : ∀ value ∈ task.maillist.value, PlainValue value)
    (hrcpt : PlainValue rcpt) : ∀ var ∈ mailVars env task rcpt, PlainVar var := by
  rintro ⟨name, value⟩ hvar
  refine ⟨(cvar_of_mem h hrcpt.bytes hrcpt.nul _ hvar).name, ?_⟩
  obtain hvalue | hvalue := List.mem_append.mp (List.of_mem_zip hvar).2
  · exact hvalues value hvalue
  · simp only [List.mem_cons, List.not_mem_nil, or_false] at hvalue
    obtain rfl | rfl | rfl | rfl := hvalue
    · exact plainValue_showInt env.randnum
    · exact hrcpt
    · exact plainValue_encoded hrcpt
    · exact hrcpt

theorem lf_not_mem_subjectOf (h : task.Plain)
    (hvars : ∀ var ∈ mailVars env task rcpt, PlainVar var) : '\n' ∉ subjectOf env task rcpt := by
  have hsubject : '\n' ∉ (if task.ad then "(AD)".toList ++ task.subject else task.subject) := by
    split
    next => simp [show '\n' ∉ task.subject from h.string .subject]
    next => exact h.string .subject
  rw [subjectOf]
  generalize (if task.ad then "(AD)".toList ++ task.subject else task.subject) = subject
    at hsubject ⊢
  split
  next =>
    have hall := mergeAll_forall (P := (· ≠ '\n'))
      (fun var hvar c hc heq => (hvars var hvar).value.lf (heq ▸ hc))
      (fun c hc heq => hsubject (heq ▸ hc))
    exact fun hc => hall _ hc rfl
  next => exact hsubject

/-! ### The merged texts are bytes -/

theorem mem_htmlText {fuel : Nat} {html : Text} {c : Char} (h : c ∈ htmlText fuel html) :
    c ∈ html ∨ c ∈ crlf := by
  induction fuel generalizing html with
  | zero => cases h
  | succ fuel ih =>
      rw [htmlText] at h
      split at h
      next =>
        have hp : ∀ d ∈ skipBlanks (cut '>' html).2, d ∈ html := fun d hd =>
          mem_of_mem_cut (.inr ((List.dropWhile_suffix _).subset hd))
        dsimp only at h
        split at h
        next =>
          rw [List.mem_append, List.mem_append] at h
          obtain h | h | h := h
          · exact .inl (hp c (mem_of_mem_cut (.inl h)))
          · split at h
            next => exact .inr h
            next => cases h
          · exact (ih h).imp_left fun hc => hp c (mem_of_mem_cut (.inr hc))
        next => cases h
      next => cases h

theorem mem_getHtmlText {html : Text} {c : Char} (h : c ∈ getHtmlText html) :
    c ∈ html ∨ c ∈ crlf := by
  refine (mem_htmlText h).imp_left fun hc => ?_
  cases hbody : Deliver.strcasestr "<body>".toList (cstr html) with
  | none =>
      rw [hbody] at hc
      exact hc
  | some b =>
      rw [hbody] at hc
      exact List.mem_of_mem_drop hc

theorem isBytes_append {s t : Text} (hs : IsBytes s) (ht : IsBytes t) : IsBytes (s ++ t) :=
  fun c hc => (List.mem_append.mp hc).elim (hs c) (ht c)

theorem isBytes_codeLines (s : Text) : IsBytes (codeLines s) := by
  have hall : ∀ c ∈ digits64, c.toNat < 256 := by decide +kernel
  have hcrlf : ∀ c ∈ crlf, c.toNat < 256 := by decide
  intro c hc
  obtain hc | rfl | hc := mem_codeLines hc
  · exact hall c hc
  · decide
  · exact hcrlf c hc

theorem isBytes_comment {encode_subject : Text} (h : IsBytes encode_subject) (text qvga : Text) :
    IsBytes (comment encode_subject (codeLines text) (codeLines qvga)) := by
  have hlit : ∀ s ∈ ["\r\n<!--\r\n<RICHINFO>\r\n<NOTI TYPE=\"SMS\">".toList,
      "</NOTI>\r\n<NOTI TYPE=\"LONGSMS\">".toList, "</NOTI>\r\n<WEB TYPE=\"QVGA\">".toList,
      "</WEB>\r\n</RICHINFO>\r\n-->".toList], IsBytes s := by decide
  simp only [List.forall_mem_cons] at hlit
  exact isBytes_append hlit.1 <| isBytes_append h <| isBytes_append hlit.2.1 <|
    isBytes_append (isBytes_codeLines text) <| isBytes_append hlit.2.2.1 <|
      isBytes_append (isBytes_codeLines qvga) hlit.2.2.2.1

theorem isBytes_plainTemplate (h : task.Plain) : IsBytes (plainTemplate task) := by
  have hmodula : IsBytes task.modula := h.text .modula
  have hcrlf : ∀ c ∈ crlf, c.toNat < 256 := by decide
  rw [plainTemplate]
  split
  next => exact fun c hc => (mem_getHtmlText hc).elim (hmodula c) (hcrlf c)
  next => exact h.text .modulaText

theorem isBytes_mergeAll {vars : List (Text × Text)} (hvars : ∀ var ∈ vars, PlainVar var)
    {template : Text} (h : IsBytes template) : IsBytes (mergeAll vars template) :=
  mergeAll_forall (fun var hvar => (hvars var hvar).value.bytes) h

theorem isBytes_mergedText {vars : List (Text × Text)} (hvars : ∀ var ∈ vars, PlainVar var)
    {template : Text} (h : IsBytes template) : IsBytes (mergedText vars template) := by
  intro c hc
  obtain hc | ⟨x, hc⟩ := mem_mapBetween hc
  · exact isBytes_mergeAll hvars h c hc
  · exact (plainValue_base64 x).bytes c hc

/-- The merged texts are bytes. -/
theorem isBytes_htmlOf (h : task.Plain) (hvars : ∀ var ∈ mailVars env task rcpt, PlainVar var)
    (hsubject : (subjectOf env task rcpt).length < 2 ^ 30) : IsBytes (htmlOf env task rcpt) := by
  have hmodula := isBytes_mergedText hvars (h.text .modula : IsBytes task.modula)
  rw [htmlOf]
  split
  next => exact hmodula
  next => exact isBytes_append hmodula (isBytes_comment (isBytes_encoded hsubject) _ _)

/-! ### The texts of the mail -/

/-- The marked parts of a merged template are in base 64. -/
theorem encodeMarked_mergeAll {vars : List (Text × Text)} (hvars : ∀ var ∈ vars, PlainVar var)
    {template : Text} (h : IsBytes template)
    (hshort : ∀ x ∈ between base64Begin_ne base64End (mergeAll vars template),
      x.length < 2 ^ 30) : encodeMarked (mergeAll vars template) = mergedText vars template :=
  mapBetween_congr fun x hx => encoded_eq
    (fun c hc => isBytes_mergeAll hvars h c (mem_of_mem_between hx hc)) (hshort x hx)

theorem textsOf_plain (hvars : ∀ var ∈ mailVars env task rcpt, PlainVar var) :
    textsOf env task rcpt = ⟨mergeAll (mailVars env task rcpt) task.modula,
      mergeAll (mailVars env task rcpt) task.modula_qvga,
      mergeAll (mailVars env task rcpt) (plainTemplate task)⟩ := by
  rw [textsOf, tablesOf_eq hvars, tableSecondStep_empty, tableSecondStep_empty,
    mergeValues_eq hvars, mergeValues_eq hvars, mergeValues_eq hvars]
  rfl

/-- The texts of the mail are the merged templates. -/
theorem marked_textsOf (h : task.Plain) (hvars : ∀ var ∈ mailVars env task rcpt, PlainVar var)
    (hshort : Short env task rcpt) : (textsOf env task rcpt).marked = mergedOf env task rcpt := by
  obtain ⟨hmodula, hqvga, htext, -⟩ : _ ∧ _ ∧ _ ∧ True := by
    simpa only [List.forall_mem_cons, List.not_mem_nil, false_imp_iff, implies_true]
      using hshort.marked
  have hbytes : IsBytes task.modula ∧ IsBytes task.modula_qvga :=
    ⟨h.text .modula, h.text .modulaQvga⟩
  rw [Bodies.marked, textsOf_plain hvars]
  dsimp only
  rw [encodeMarked_mergeAll hvars hbytes.1 hmodula, encodeMarked_mergeAll hvars hbytes.2 hqvga,
    encodeMarked_mergeAll hvars (isBytes_plainTemplate h) htext]
  rfl

/-- Texts in which nothing is marked, and no QVGA text. -/
theorem Short.of_unmarked {modula text : Text}
    (hvars : ∀ var ∈ mailVars env task rcpt, PlainVar var)
    (htexts : textsOf env task rcpt = ⟨modula, [], text⟩)
    (hnone : ∀ s ∈ [modula, [], text], nextMarked base64Begin base64End s = none)
    (hsubject : (subjectOf env task rcpt).length < 2 ^ 30)
    (hlen : modula.length < 2 ^ 30 ∧ text.length < 2 ^ 30) :
    Short env task rcpt ∧ htmlOf env task rcpt = modula := by
  rw [textsOf_plain hvars] at htexts
  obtain ⟨hmodula, hqvga, htext⟩ := Bodies.mk.inj htexts
  simp only [List.forall_mem_cons] at hnone
  have hmerged : mergedOf env task rcpt = ⟨modula, [], text⟩ := by
    simp only [mergedOf, mergedText, hmodula, hqvga, htext, mapBetween_none hnone.1,
      mapBetween_none hnone.2.1, mapBetween_none hnone.2.2.1]
  have hhtml : htmlOf env task rcpt = modula := by
    rw [htmlOf, hmerged]
    rfl
  refine ⟨⟨?_, hsubject, hmerged ▸ hlen.2, ?_, hhtml ▸ hlen.1⟩, hhtml⟩
  · simp only [List.forall_mem_cons, hmodula, hqvga, htext, between_none hnone.1,
      between_none hnone.2.1, between_none hnone.2.2.1]
    simp
  · rw [hmerged]
    exact Nat.two_pow_pos 30

/-- The HTML is the merged HTML, with its comment. -/
theorem html_mergedOf (h : task.Plain) (hvars : ∀ var ∈ mailVars env task rcpt, PlainVar var)
    (hshort : Short env task rcpt) :
    (mergedOf env task rcpt).html (encoded (subjectOf env task rcpt)) = htmlOf env task rcpt := by
  have htext : IsBytes (mergedOf env task rcpt).modula_text :=
    isBytes_mergedText hvars (isBytes_plainTemplate h)
  have hqvga : IsBytes (mergedOf env task rcpt).modula_qvga :=
    isBytes_mergedText hvars (h.text .modulaQvga)
  rw [Bodies.html, htmlOf, linesOf_eq htext hshort.text, linesOf_eq hqvga hshort.qvga]

end

end Edm.Faceside
