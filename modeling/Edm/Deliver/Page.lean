import Edm.Deliver.Merge
import Edm.Support.Lower

/-!
# Deliver — Page

What `table_second_step` takes for a row to repeat.

A page is plain text, other `<tr ` tags, and rows `<tr class="__many__" …> … </tr>` (`Page`).  The
letters of the words may be large, blanks may stand before `class=`, and a row ends with the first
`</tr>`.  What stands in the quotes behind `class=` is passed over, and a row that is not closed
ends the search.

* `exists_page`: each text is a page.
* `Page.text`: the parts of a page are its text.
* `Page.tokens`: with fuel for its length, `rowsFrom` finds the rows of the page, and the text
  between them.
-/

namespace Edm.Deliver
open Support

/-! ### The words of a tag -/

/-- The text begins with `key`, whatever the case of its letters. -/
def Starts (key s : Text) : Prop := ∃ t r, s = t ++ r ∧ tolower t = tolower key

def isBlank (c : Char) : Bool := c == ' ' || c == '\t'

/-- The text begins with a character of the kind `p`. -/
def Begins (p : Char → Bool) (s : Text) : Prop := ∃ c r, s = c :: r ∧ p c = true

theorem not_begins_nil (p : Char → Bool) : ¬ Begins p [] := fun ⟨_, _, h, _⟩ => nomatch h

theorem begins_cons {p : Char → Bool} {c : Char} {s : Text} : Begins p (c :: s) ↔ p c = true := by
  constructor
  · rintro ⟨_, _, h, hc⟩
    cases h
    exact hc
  · exact fun h => ⟨c, s, rfl, h⟩

/-- Behind a `<tr `, up to where the search goes on, and what follows: no `class=`, or no quote
behind it, or another class in the quotes. -/
inductive Other : Text → Text → Prop
  | noClass {bl s : Text} (hbl : ∀ c ∈ bl, isBlank c = true) (hs : ¬ Begins isBlank s)
      (h : ¬ Starts "class=".toList s) : Other bl s
  | noQuote {bl cls s : Text} (hbl : ∀ c ∈ bl, isBlank c = true)
      (hcls : tolower cls = "class=".toList) (h : ¬ Begins isQuote s) : Other (bl ++ cls) s
  | name {bl cls name s : Text} {q : Char} (hbl : ∀ c ∈ bl, isBlank c = true)
      (hcls : tolower cls = "class=".toList) (hq : isQuote q = true)
      (hname : ∀ c ∈ name, isQuote c = false) (hs : s = [] ∨ Begins isQuote s)
      (h : name ≠ "__many__".toList) : Other (bl ++ (cls ++ q :: name)) s

/-- `class="__many__`, and what follows. -/
inductive Many : Text → Text → Prop
  | mk {bl cls s : Text} {q : Char} (hbl : ∀ c ∈ bl, isBlank c = true)
      (hcls : tolower cls = "class=".toList) (hq : isQuote q = true)
      (hs : s = [] ∨ Begins isQuote s) : Many (bl ++ (cls ++ q :: "__many__".toList)) s

/-- Behind a `<tr `, up to the first `</tr>`, and what follows. -/
inductive Row : Text → Text → Prop
  | mk {t attrs body close s : Text} (h : Many t (attrs ++ '>' :: (body ++ (close ++ s))))
      (hattrs : '>' ∉ attrs) (hclose : tolower close = "</tr>".toList)
      (hfirst : ∀ y, y <:+ body → y ≠ [] → ¬ Starts "</tr>".toList (y ++ (close ++ s))) :
      Row (t ++ (attrs ++ '>' :: (body ++ close))) s

/-- Behind a `<tr `, a row that is not closed. -/
inductive Unclosed : Text → Prop
  | tag {t s : Text} (h : Many t s) (hs : '>' ∉ s) : Unclosed (t ++ s)
  | row {t attrs body : Text} (h : Many t (attrs ++ '>' :: body)) (hattrs : '>' ∉ attrs)
      (hbody : ∀ y, y <:+ body → ¬ Starts "</tr>".toList y) : Unclosed (t ++ (attrs ++ '>' :: body))

/-- The parts of a page; the rows to repeat are marked `true`. -/
inductive Page : Text → List (Bool × Text) → Prop
  | nil : Page [] []
  | char {c : Char} {s : Text} {l : List (Bool × Text)} (h : ¬ Starts "<tr ".toList (c :: s))
      (hs : Page s l) : Page (c :: s) ((false, [c]) :: l)
  | other {o t s : Text} {l : List (Bool × Text)} (ho : tolower o = "<tr ".toList)
      (h : Other t s) (hs : Page s l) : Page (o ++ (t ++ s)) ((false, o ++ t) :: l)
  | row {o t s : Text} {l : List (Bool × Text)} (ho : tolower o = "<tr ".toList) (h : Row t s)
      (hs : Page s l) : Page (o ++ (t ++ s)) ((true, o ++ t) :: l)
  | unclosed {o s : Text} (ho : tolower o = "<tr ".toList) (h : Unclosed s) :
      Page (o ++ s) [(false, o ++ s)]

theorem Page.text {s : Text} {l : List (Bool × Text)} (h : Page s l) :
    l.flatMap Prod.snd = s := by
  induction h with
  | nil => rfl
  | char _ _ ih => rw [List.flatMap_cons, ih]; rfl
  | other _ _ _ ih => rw [List.flatMap_cons, ih, List.append_assoc]
  | row _ _ _ ih => rw [List.flatMap_cons, ih, List.append_assoc]
  | unclosed => exact List.append_nil _

/-! ### What the functions of the C library see -/

/-- `strncasecmp(s, key, strlen(key)) == 0`. -/
theorem strncasecmpEq_iff {key : Text} (hkey : nul ∉ key) (s : Text) :
    strncasecmpEq s key = true ↔ Starts key s := by
  rw [strncasecmpEq, beq_iff_eq]
  constructor
  · intro h
    obtain ⟨r, hr⟩ := (List.take_prefix key.length (cstr s)).trans (List.takeWhile_prefix _)
    exact ⟨_, r, hr.symm, h⟩
  · rintro ⟨t, r, rfl, h⟩
    have hlen : t.length = key.length := by
      rw [← length_tolower t, h, length_tolower]
    have hnul : ∀ c ∈ t, (c != nul) = true := by
      intro c hc
      rw [bne_iff_ne]
      rintro rfl
      have hmem : nul.toLower ∈ tolower key := h ▸ List.mem_map_of_mem hc
      obtain ⟨d, hd, hdl⟩ := List.mem_map.mp hmem
      have : d = nul := (toLower_eq_iff (by decide)).mp (hdl.trans (by decide))
      exact hkey (this ▸ hd)
    have hcstr : cstr (t ++ r) = t ++ cstr r := by
      rw [cstr, List.takeWhile_append_of_pos hnul]
      rfl
    rw [hcstr, ← hlen, List.take_left, h]

theorem strcasestr_of_starts {key s : Text} (hkey : nul ∉ key) (hne : s ≠ [])
    (h : Starts key s) : strcasestr key s = some s := by
  obtain ⟨c, r, rfl⟩ := List.exists_cons_of_ne_nil hne
  rw [strcasestr, if_pos ((strncasecmpEq_iff hkey _).mpr h)]

theorem strcasestr_cons {key s : Text} {c : Char} (hkey : nul ∉ key) (h : ¬ Starts key (c :: s)) :
    strcasestr key (c :: s) = strcasestr key s := by
  rw [strcasestr, if_neg (mt (strncasecmpEq_iff hkey _).mp h)]

theorem strcasestr_eq_none_iff {key : Text} (hkey : nul ∉ key) (hne : key ≠ []) {s : Text} :
    strcasestr key s = none ↔ ∀ y, y <:+ s → ¬ Starts key y := by
  induction s with
  | nil =>
      have hnil : strcasestr key [] = none := by
        rw [strcasestr, if_neg (by simpa using hne)]
      refine iff_of_true hnil fun y hy hstart => ?_
      obtain rfl := List.suffix_nil.mp hy
      obtain ⟨t, r, ht, hlow⟩ := hstart
      obtain ⟨rfl, rfl⟩ := List.append_eq_nil_iff.mp ht.symm
      exact hne (List.map_eq_nil_iff.mp hlow.symm)
  | cons c s ih =>
      rw [strcasestr]
      by_cases h : Starts key (c :: s)
      · rw [if_pos ((strncasecmpEq_iff hkey _).mpr h)]
        exact iff_of_false (Option.some_ne_none _) fun hall => hall _ List.suffix_rfl h
      · rw [if_neg (mt (strncasecmpEq_iff hkey _).mp h), ih]
        constructor
        · intro hall y hy
          rcases List.suffix_cons_iff.mp hy with rfl | hy
          · exact h
          · exact hall y hy
        · exact fun hall y hy => hall y (hy.trans (List.suffix_cons c s))

/-- The first `key` is behind all texts that do not begin with it. -/
theorem strcasestr_append {key : Text} (hkey : nul ∉ key) {s r : Text} : ∀ {a : Text},
    (∀ y, y <:+ a → y ≠ [] → ¬ Starts key (y ++ s)) → strcasestr key s = some r →
      strcasestr key (a ++ s) = some r
  | [], _, h => h
  | c :: a, ha, h => by
      have hnot : ¬ Starts key (c :: (a ++ s)) := ha _ List.suffix_rfl (List.cons_ne_nil c a)
      rw [List.cons_append, strcasestr_cons hkey hnot]
      exact strcasestr_append hkey (fun y hy => ha y (hy.trans (List.suffix_cons c a))) h

/-- What `strcasestr` finds, and what it has passed. -/
theorem exists_of_strcasestr {key : Text} (hkey : nul ∉ key) (hne : key ≠ []) {s r : Text}
    (h : strcasestr key s = some r) : ∃ a, s = a ++ r ∧ Starts key r ∧
      ∀ y, y <:+ a → y ≠ [] → ¬ Starts key (y ++ r) := by
  induction s with
  | nil =>
      rw [strcasestr, if_neg (by simpa using hne)] at h
      cases h
  | cons c s ih =>
      by_cases hstart : Starts key (c :: s)
      · rw [strcasestr_of_starts hkey (List.cons_ne_nil c s) hstart] at h
        obtain rfl := Option.some.inj h
        exact ⟨[], rfl, hstart, fun y hy hy₁ => absurd (List.suffix_nil.mp hy) hy₁⟩
      · rw [strcasestr_cons hkey hstart] at h
        obtain ⟨a, rfl, hr, ha⟩ := ih h
        refine ⟨c :: a, rfl, hr, fun y hy hy₁ => ?_⟩
        rcases List.suffix_cons_iff.mp hy with rfl | hy
        · exact hstart
        · exact ha y hy hy₁

/-! ### The tag of a row -/

theorem skipBlanks_append {bl s : Text} (hbl : ∀ c ∈ bl, isBlank c = true)
    (hs : ¬ Begins isBlank s) : skipBlanks (bl ++ s) = s := by
  have hdrop : skipBlanks (bl ++ s) = s.dropWhile isBlank := List.dropWhile_append_of_pos hbl
  rw [hdrop]
  cases s with
  | nil => rfl
  | cons c s => exact List.dropWhile_cons_of_neg fun hc => hs (begins_cons.mpr hc)

theorem isQuote_headD {s : Text} : isQuote (s.headD nul) = true ↔ Begins isQuote s := by
  cases s with
  | nil => exact iff_of_false (by decide) (not_begins_nil isQuote)
  | cons c s => exact begins_cons.symm

/-- `class=` begins with no blank. -/
theorem not_begins_class {cls s : Text} (hcls : tolower cls = "class=".toList) :
    ¬ Begins isBlank (cls ++ s) := by
  cases cls with
  | nil => cases hcls
  | cons c cls =>
      rw [List.cons_append, begins_cons]
      intro hc
      have hlow : c.toLower = 'c' := (List.cons.inj hcls).1
      rw [isBlank, Bool.or_eq_true, beq_iff_eq, beq_iff_eq] at hc
      rcases hc with rfl | rfl <;> exact absurd hlow (by decide)

section Class

variable {bl cls s : Text} (hbl : ∀ c ∈ bl, isBlank c = true)
  (hcls : tolower cls = "class=".toList)

include hbl hcls

/-- Behind `class=`. -/
theorem rowTag_class : rowTag (bl ++ (cls ++ s)) =
    if !isQuote (s.headD nul) then some (false, (bl ++ cls).length)
    else
      let name := (s.drop 1).takeWhile fun c => !isQuote c
      let b := (s.drop 1).drop name.length
      if name ≠ "__many__".toList then some (false, (bl ++ (cls ++ s)).length - b.length)
      else
        (strchr '>' b).bind fun b =>
          (strcasestr "</tr>".toList (skipBlanks (b.drop 1))).map fun endtr =>
            (true, (bl ++ (cls ++ s)).length - (endtr.length - 5)) := by
  have hskip : skipBlanks (bl ++ (cls ++ s)) = cls ++ s :=
    skipBlanks_append hbl (not_begins_class hcls)
  have hlen : cls.length = 6 := by
    rw [← length_tolower cls, hcls]
    rfl
  have hstart : strncasecmpEq (cls ++ s) "class=".toList = true :=
    (strncasecmpEq_iff (by decide) _).mpr ⟨cls, s, rfl, hcls⟩
  have hdrop : (cls ++ s).drop 6 = s := List.drop_left' hlen
  have hsub : (bl ++ (cls ++ s)).length - s.length = (bl ++ cls).length := by
    simp only [List.length_append]
    omega
  rw [rowTag, hskip]
  dsimp only
  rw [hstart, hdrop, hsub]
  rfl

/-- Behind the name of the class. -/
theorem rowTag_name {q : Char} {name : Text} (hq : isQuote q = true)
    (hname : ∀ c ∈ name, isQuote c = false) (hs : s = [] ∨ Begins isQuote s) :
    rowTag (bl ++ (cls ++ q :: (name ++ s))) =
      if name ≠ "__many__".toList then some (false, (bl ++ (cls ++ q :: name)).length)
      else
        (strchr '>' s).bind fun b =>
          (strcasestr "</tr>".toList (skipBlanks (b.drop 1))).map fun endtr =>
            (true, (bl ++ (cls ++ q :: (name ++ s))).length - (endtr.length - 5)) := by
  have htake : (name ++ s).takeWhile (fun c => !isQuote c) = name := by
    rw [List.takeWhile_append_of_pos fun c hc => by rw [hname c hc]; rfl]
    rcases hs with rfl | ⟨c, r, rfl, hc⟩
    · exact List.append_nil name
    · rw [List.takeWhile_cons_of_neg (by simp [hc]), List.append_nil]
  have hsub : (bl ++ (cls ++ q :: (name ++ s))).length - s.length
      = (bl ++ (cls ++ q :: name)).length := by
    simp only [List.length_append, List.length_cons]
    omega
  have hdrop : (q :: (name ++ s)).drop 1 = name ++ s := rfl
  have hhead : isQuote ((q :: (name ++ s)).headD nul) = true := hq
  rw [rowTag_class hbl hcls, hhead, hdrop]
  dsimp only
  rw [htake, List.drop_left, hsub]
  rfl

end Class

theorem rowTag_other {t s : Text} (h : Other t s) : rowTag (t ++ s) = some (false, t.length) := by
  cases h with
  | noClass hbl hs h =>
      have hnot : strncasecmpEq s "class=".toList = false :=
        Bool.eq_false_iff.mpr (mt (strncasecmpEq_iff (by decide) _).mp h)
      rw [rowTag, skipBlanks_append hbl hs]
      dsimp only
      rw [hnot]
      simp
  | noQuote hbl hcls h =>
      have hnot : isQuote (s.headD nul) = false := Bool.eq_false_iff.mpr (mt isQuote_headD.mp h)
      rw [List.append_assoc, rowTag_class hbl hcls, hnot]
      rfl
  | name hbl hcls hq hname hs h =>
      rw [List.append_assoc, List.append_assoc, List.cons_append, rowTag_name hbl hcls hq hname hs,
        if_pos h]

theorem rowTag_many {t s : Text} (h : Many t s) : rowTag (t ++ s) =
    (strchr '>' s).bind fun b =>
      (strcasestr "</tr>".toList (skipBlanks (b.drop 1))).map fun endtr =>
        (true, (t ++ s).length - (endtr.length - 5)) := by
  cases h with
  | @mk bl cls _ q hbl hcls hq hs =>
      have hname : ∀ c ∈ "__many__".toList, isQuote c = false := by simp [isQuote]
      have h := rowTag_name hbl hcls hq hname hs
      rw [if_neg (by simp)] at h
      rw [List.append_assoc, List.append_assoc, List.cons_append]
      exact h

theorem strchr_append {c : Char} {a s : Text} (ha : c ∉ a) :
    strchr c (a ++ c :: s) = some (c :: s) := by
  have hmem : (a ++ c :: s).contains c = true := List.contains_iff_mem.mpr (by simp)
  rw [strchr, if_pos hmem, List.dropWhile_append_of_pos fun d hd => ?_, List.dropWhile_cons_of_neg]
  · simp
  · rw [bne_iff_ne]
    rintro rfl
    exact ha hd

/-- No `</tr>` begins with a blank. -/
theorem strcasestr_skipBlanks (s : Text) :
    strcasestr "</tr>".toList (skipBlanks s) = strcasestr "</tr>".toList s := by
  induction s with
  | nil => rfl
  | cons c s ih =>
      by_cases hc : isBlank c = true
      · have hskip : skipBlanks (c :: s) = skipBlanks s := List.dropWhile_cons_of_pos hc
        have hnot : ¬ Starts "</tr>".toList (c :: s) := by
          rintro ⟨t, r, ht, hlow⟩
          cases t with
          | nil => cases hlow
          | cons d t =>
              obtain ⟨rfl, -⟩ := List.cons.inj ht
              have hd : c.toLower = '<' := (List.cons.inj hlow).1
              rw [isBlank, Bool.or_eq_true, beq_iff_eq, beq_iff_eq] at hc
              rcases hc with rfl | rfl <;> exact absurd hd (by decide)
        rw [hskip, ih, strcasestr_cons (by decide) hnot]
      · have hskip : skipBlanks (c :: s) = c :: s := List.dropWhile_cons_of_neg hc
        rw [hskip]

theorem rowTag_row {t s : Text} (h : Row t s) : rowTag (t ++ s) = some (true, t.length) := by
  cases h with
  | @mk t attrs body close _ h hattrs hclose hfirst =>
      have hlen : close.length = 5 := by
        rw [← length_tolower close, hclose]
        rfl
      have hne : close ++ s ≠ [] := by
        intro hnil
        rw [(List.append_eq_nil_iff.mp hnil).1] at hlen
        cases hlen
      have hfind : strcasestr "</tr>".toList (body ++ (close ++ s)) = some (close ++ s) :=
        strcasestr_append (by decide) hfirst
          (strcasestr_of_starts (by decide) hne ⟨close, s, rfl, hclose⟩)
      have htext : t ++ (attrs ++ '>' :: (body ++ close)) ++ s
          = t ++ (attrs ++ '>' :: (body ++ (close ++ s))) := by simp
      rw [htext, rowTag_many h, strchr_append hattrs, Option.bind_some, List.drop_one,
        List.tail_cons, strcasestr_skipBlanks, hfind, Option.map_some]
      simp only [List.length_append, List.length_cons, hlen]
      congr 2
      omega

theorem rowTag_unclosed {s : Text} (h : Unclosed s) : rowTag s = none := by
  cases h with
  | tag h hs =>
      have hnone : strchr '>' _ = none := if_neg (mt List.contains_iff_mem.mp hs)
      rw [rowTag_many h, hnone]
      rfl
  | row h hattrs hbody =>
      rw [rowTag_many h, strchr_append hattrs, Option.bind_some, List.drop_one, List.tail_cons,
        strcasestr_skipBlanks, (strcasestr_eq_none_iff (by decide) (by decide)).mpr hbody]
      rfl

/-! ### The rows of a page -/

/-- A text is one of the kind `p`, and then one that does not begin so. -/
theorem exists_span (p : Char → Bool) (u : Text) :
    ∃ a b, u = a ++ b ∧ (∀ c ∈ a, p c = true) ∧ ¬ Begins p b := by
  induction u with
  | nil => exact ⟨[], [], rfl, by simp, not_begins_nil p⟩
  | cons c u ih =>
      by_cases hc : p c = true
      · obtain ⟨a, b, rfl, ha, hb⟩ := ih
        exact ⟨c :: a, b, rfl, List.forall_mem_cons.mpr ⟨hc, ha⟩, hb⟩
      · exact ⟨[], c :: u, rfl, by simp, mt begins_cons.mp hc⟩

/-- Behind the name of the class of a row, the row is closed or not. -/
theorem many_cases {t w : Text} (h : Many t w) :
    (∃ t₁ s, t ++ w = t₁ ++ s ∧ Row t₁ s) ∨ Unclosed (t ++ w) := by
  by_cases hgt : '>' ∈ w
  · obtain ⟨attrs, body, rfl, hattrs⟩ := List.eq_append_cons_of_mem hgt
    cases hfind : strcasestr "</tr>".toList body with
    | none =>
        exact .inr (.row h hattrs ((strcasestr_eq_none_iff (by decide) (by decide)).mp hfind))
    | some r =>
        obtain ⟨a, rfl, ⟨close, s, rfl, hclose⟩, hfirst⟩ :=
          exists_of_strcasestr (by decide) (by decide) hfind
        exact .inl ⟨_, s, by simp, .mk h hattrs hclose hfirst⟩
  · exact .inr (.tag h hgt)

/-- Behind a `<tr ` there is another tag, a row, or a row that is not closed. -/
theorem tag_cases (u : Text) :
    (∃ t s, u = t ++ s ∧ Other t s) ∨ (∃ t s, u = t ++ s ∧ Row t s) ∨ Unclosed u := by
  obtain ⟨bl, v, rfl, hbl, hblank⟩ := exists_span isBlank u
  by_cases hclass : Starts "class=".toList v
  · obtain ⟨cls, w, rfl, hcls⟩ := hclass
    by_cases hquote : Begins isQuote w
    · obtain ⟨q, r, rfl, hq⟩ := hquote
      obtain ⟨name, s, rfl, hname, hs⟩ := exists_span (fun c => !isQuote c) r
      have hname : ∀ c ∈ name, isQuote c = false := by simpa using hname
      have hend : s = [] ∨ Begins isQuote s := by
        cases s with
        | nil => exact .inl rfl
        | cons c s => exact .inr (begins_cons.mpr (by simpa [begins_cons] using hs))
      by_cases hmany : name = "__many__".toList
      · subst hmany
        have hm : Many (bl ++ (cls ++ q :: "__many__".toList)) s := .mk hbl hcls hq hend
        have htext : bl ++ (cls ++ q :: ("__many__".toList ++ s))
            = (bl ++ (cls ++ q :: "__many__".toList)) ++ s := by simp
        exact .inr (htext ▸ many_cases hm)
      · exact .inl ⟨_, s, by simp, .name hbl hcls hq hname hend hmany⟩
    · exact .inl ⟨bl ++ cls, w, by simp, .noQuote hbl hcls hquote⟩
  · exact .inl ⟨bl, v, rfl, .noClass hbl hblank hclass⟩

theorem length_tr {o : Text} (ho : tolower o = "<tr ".toList) : o.length = 4 := by
  rw [← length_tolower o, ho]
  rfl

theorem take_tr {o : Text} (ho : tolower o = "<tr ".toList) (t s : Text) :
    (o ++ (t ++ s)).take (4 + t.length) = o ++ t := by
  rw [← length_tr ho, ← List.append_assoc, ← List.length_append, List.take_left]

/-- Each text is a page. -/
theorem exists_page (s : Text) : ∃ l, Page s l := by
  induction hn : s.length using Nat.strong_induction_on generalizing s with
  | _ n ih =>
      cases s with
      | nil => exact ⟨[], .nil⟩
      | cons c s =>
          by_cases h : Starts "<tr ".toList (c :: s)
          · obtain ⟨o, u, hou, ho⟩ := h
            have hlen := congrArg List.length hou
            rw [List.length_append, length_tr ho] at hlen
            rw [hou]
            rcases tag_cases u with ⟨t, r, rfl, hother⟩ | ⟨t, r, rfl, hrow⟩ | hopen
            · rw [List.length_append] at hlen
              obtain ⟨l, hl⟩ := ih r.length (by omega) r rfl
              exact ⟨_, .other ho hother hl⟩
            · rw [List.length_append] at hlen
              obtain ⟨l, hl⟩ := ih r.length (by omega) r rfl
              exact ⟨_, .row ho hrow hl⟩
            · exact ⟨_, .unclosed ho hopen⟩
          · obtain ⟨l, hl⟩ := ih s.length (by simp [← hn]) s rfl
            exact ⟨_, .char h hl⟩

/-- The characters of the text between the rows, and the rows. -/
def tokens (l : List (Bool × Text)) : List (Char ⊕ Text) :=
  l.flatMap fun p => if p.1 then [.inr p.2] else p.2.map .inl

theorem tokens_rowsFrom (fuel : Nat) (before s : Text) :
    tokens (rowsFrom fuel before s) = before.map .inl ++ tokens (rowsFrom fuel [] s) := by
  induction fuel generalizing before s with
  | zero => simp [rowsFrom, tokens]
  | succ fuel ih =>
      rw [rowsFrom, rowsFrom]
      cases strcasestr "<tr ".toList s with
      | none => simp [tokens]
      | some b =>
          dsimp only
          cases rowTag (b.drop 4) with
          | none => simp [tokens]
          | some r =>
              obtain ⟨isRow, n⟩ := r
              cases isRow with
              | false =>
                  dsimp only
                  rw [ih, ih ([] ++ _), List.nil_append, List.map_append, List.append_assoc]
              | true => simp [tokens]

/-- A character before the search. -/
theorem tokens_rowsFrom_char {c : Char} {s : Text} (h : ¬ Starts "<tr ".toList (c :: s))
    (fuel : Nat) : tokens (rowsFrom (fuel + 1) [] (c :: s))
      = .inl c :: tokens (rowsFrom (fuel + 1) [] s) := by
  rw [rowsFrom, rowsFrom, strcasestr_cons (by decide) h]
  cases hb : strcasestr "<tr ".toList s with
  | none => simp [tokens]
  | some b =>
      have hle : b.length ≤ s.length := (strcasestr_suffix hb).length_le
      have hlen : (c :: s).length - b.length = (s.length - b.length) + 1 := by
        rw [List.length_cons]
        omega
      dsimp only
      rw [hlen]
      cases rowTag (b.drop 4) with
      | none => simp [tokens]
      | some r =>
          obtain ⟨isRow, n⟩ := r
          cases isRow with
          | false =>
              dsimp only
              rw [Nat.add_right_comm, List.take_succ_cons, tokens_rowsFrom,
                tokens_rowsFrom fuel ([] ++ s.take _)]
              rfl
          | true => simp [tokens]

/-- A `<tr ` at the place of the search. -/
theorem rowsFrom_tag {o u : Text} (ho : tolower o = "<tr ".toList) (fuel : Nat) :
    rowsFrom (fuel + 1) [] (o ++ u) = match rowTag u with
      | none => [(false, o ++ u)]
      | some (false, n) => rowsFrom fuel ((o ++ u).take (4 + n)) (u.drop n)
      | some (true, n) =>
          (false, []) :: (true, (o ++ u).take (4 + n)) :: rowsFrom fuel [] (u.drop n) := by
  have hne : o ++ u ≠ [] := by
    intro hnil
    have := length_tr ho
    rw [(List.append_eq_nil_iff.mp hnil).1] at this
    cases this
  have hdrop : ∀ n, (o ++ u).drop (4 + n) = u.drop n := by
    intro n
    rw [← length_tr ho, List.drop_length_add_append]
  have hzero : (o ++ u).drop 4 = u := hdrop 0
  have hstart : Starts "<tr ".toList (o ++ u) := ⟨o, u, rfl, ho.trans (by decide)⟩
  rw [rowsFrom, strcasestr_of_starts (by decide) hne hstart]
  dsimp only
  rw [hzero, Nat.sub_self]
  cases rowTag u with
  | none => rfl
  | some r =>
      obtain ⟨isRow, n⟩ := r
      cases isRow with
      | false =>
          dsimp only
          rw [hdrop, Nat.zero_add]
          rfl
      | true =>
          dsimp only
          rw [hdrop]
          rfl

/-- The search finds the rows of the page, and the text between them. -/
theorem Page.tokens {s : Text} {l : List (Bool × Text)} (h : Page s l) :
    ∀ fuel, s.length ≤ fuel →
      Deliver.tokens (rowsFrom fuel [] s) = Deliver.tokens l := by
  induction h with
  | nil =>
      intro fuel _
      cases fuel <;> rfl
  | @char c s l h _ ih =>
      intro fuel hfuel
      rw [List.length_cons] at hfuel
      obtain ⟨n, rfl⟩ := Nat.exists_eq_succ_of_ne_zero (n := fuel) (by omega)
      rw [tokens_rowsFrom_char h, ih (n + 1) (Nat.le_of_succ_le hfuel)]
      rfl
  | @other o t s l ho h _ ih =>
      intro fuel hfuel
      rw [List.length_append, List.length_append, length_tr ho] at hfuel
      obtain ⟨n, rfl⟩ := Nat.exists_eq_succ_of_ne_zero (n := fuel) (by omega)
      rw [rowsFrom_tag ho, rowTag_other h]
      dsimp only
      rw [take_tr ho, List.drop_left, tokens_rowsFrom, ih n (by omega)]
      rfl
  | @row o t s l ho h _ ih =>
      intro fuel hfuel
      rw [List.length_append, List.length_append, length_tr ho] at hfuel
      obtain ⟨n, rfl⟩ := Nat.exists_eq_succ_of_ne_zero (n := fuel) (by omega)
      have hs := ih n (by omega)
      rw [rowsFrom_tag ho, rowTag_row h]
      dsimp only
      rw [take_tr ho, List.drop_left]
      exact congrArg (Sum.inr (o ++ t) :: ·) hs
  | @unclosed o s ho h =>
      intro fuel hfuel
      rw [List.length_append, length_tr ho] at hfuel
      obtain ⟨n, rfl⟩ := Nat.exists_eq_succ_of_ne_zero (n := fuel) (by omega)
      rw [rowsFrom_tag ho, rowTag_unclosed h]

/-- A row stands among the tokens. -/
theorem mem_tokens {l : List (Bool × Text)} {row : Text} :
    .inr row ∈ tokens l ↔ (true, row) ∈ l := by
  rw [tokens, List.mem_flatMap]
  constructor
  · rintro ⟨⟨isRow, s⟩, hp, h⟩
    cases isRow with
    | false => simp at h
    | true =>
        obtain rfl : row = s := by simpa using h
        exact hp
  · exact fun h => ⟨_, h, by simp⟩

/-- The text of the parts, with `f` in the place of a row. -/
theorem flatMap_tokens (f : Text → Text) (l : List (Bool × Text)) :
    ((tokens l).flatMap fun t => t.elim (fun c => [c]) f)
      = l.flatMap fun p => if p.1 then f p.2 else p.2 := by
  rw [tokens, List.flatMap_assoc]
  refine List.flatMap_congr fun p _ => ?_
  cases p.1 with
  | false => simp [List.flatMap_map]
  | true => simp


end Edm.Deliver
