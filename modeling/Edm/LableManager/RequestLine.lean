import Edm.Postmaster.Argument

/-!
# LableManager — RequestLine

The label manager, `deliver_help` and `faceside` each have a copy of the parser of the first line of
a request, over the text that has come so far.  It takes a method, a URL and a version with blanks
between them, and looks for the end of the URL in all of the text.

`request_line_iff`: what it accepts is what has the form of a request line, and it takes the parts
of the form.
-/

namespace Edm.LableManager
open Support Postmaster

/-! ### The code -/

def HTTP_NULL : Nat := 0
def HTTP_GET : Nat := 1
def HTTP_POST : Nat := 2
def HTTP_CLOSE : Nat := 4

structure HttpRequest where
  method : Nat
  url : Text
  version : Text
  deriving DecidableEq

/-- `strchr`: what stands before the character, and the text from it on. -/
def strchr (c : Char) (s : Text) : Option (Text × Text) :=
  if c ∈ s then some (s.takeWhile (· != c), s.dropWhile (· != c)) else none

/-- The method, and what follows it. -/
def methodOf (line : Text) : Option (Nat × Text) :=
  if strncasecmpEq line "GET".toList then some (HTTP_GET, line.drop 3)
  else if strncasecmpEq line "POST".toList then some (HTTP_POST, line.drop 4)
  else none

/-- `HTTP/`, a digit, a dot and a digit, and blanks up to the end of the line. -/
def checkVersion (version : Text) : Bool :=
  strncasecmpEq version "HTTP/".toList && (version.getD 5 nul).isDigit &&
    version.getD 6 nul == '.' && (version.getD 7 nul).isDigit &&
    ((version.drop 8).takeWhile fun c => c != '\r' && c != '\n').all isblank

/-- The parser, on a text without NUL; `none` for -1. -/
def requestLine (line : Text) : Option HttpRequest :=
  (methodOf line).bind fun (method, url) =>
    if url.head?.any isblank then
      let url := skipBlanks url
      ((strchr ' ' url).or (strchr '\t' url)).bind fun (url, version) =>
        let version := skipBlanks version
        if checkVersion version then some ⟨method, url, version.take 8⟩ else none
    else none

def parseRequestLine (line : Text) : Option HttpRequest := requestLine (cstr line)

end Edm.LableManager

namespace Edm.DeliverHelp
open Support LableManager

def parseHttpRequestLine (line : Text) : Option HttpRequest := requestLine (cstr line)

end Edm.DeliverHelp

namespace Edm.Faceside
open Support LableManager

def parseHttpRequestLine (line : Text) : Option HttpRequest := requestLine (cstr line)

end Edm.Faceside

namespace Edm.LableManager
open Support Postmaster

/-! ### The form -/

def Blanks (b : Text) : Prop := ∀ c ∈ b, isblank c = true

/-- A method in any case. -/
def IsMethod (m : Text) (method : Nat) : Prop :=
  (tolower m = "get".toList ∧ method = HTTP_GET) ∨ (tolower m = "post".toList ∧ method = HTTP_POST)

def IsVersion (version : Text) : Prop :=
  ∃ h d e, version = h ++ [d, '.', e] ∧ tolower h = "http/".toList ∧ d.isDigit = true ∧
    e.isDigit = true

/-- Blanks that end a URL: a space, or a tab when there is no space in the text. -/
def EndsUrl (url b rest : Text) : Prop :=
  Blanks b ∧ ((' ' ∉ url ∧ b.head? = some ' ') ∨
    (' ' ∉ url ++ (b ++ rest) ∧ '\t' ∉ url ∧ b.head? = some '\t'))

/-- A method, a URL and a version, with blanks between them and behind the last, up to the end of
the line. -/
def RequestForm (line : Text) (req : HttpRequest) : Prop :=
  ∃ m b₁ b₂ b₃ rest, line = m ++ (b₁ ++ (req.url ++ (b₂ ++ (req.version ++ (b₃ ++ rest))))) ∧
    IsMethod m req.method ∧ Blanks b₁ ∧ b₁ ≠ [] ∧
    (∃ c, req.url.head? = some c ∧ isblank c = false) ∧
    EndsUrl req.url b₂ (req.version ++ (b₃ ++ rest)) ∧ IsVersion req.version ∧ Blanks b₃ ∧
    ∀ c ∈ rest.head?, c = '\r' ∨ c = '\n'

/-! ### The parts -/

/-- The word that a text without NUL begins with. -/
theorem strncasecmpEq_iff {s key : Text} (hnul : nul ∉ s) :
    strncasecmpEq s key = true ↔ tolower (s.take key.length) = tolower key := by
  rw [strncasecmpEq, cstr_self hnul, beq_iff_eq]

theorem length_of_tolower {m key : Text} (h : tolower m = key) : m.length = key.length := by
  rw [← length_tolower, h]

theorem methodOf_iff {line : Text} (hnul : nul ∉ line) {method : Nat} {rest : Text} :
    methodOf line = some (method, rest) ↔ ∃ m, line = m ++ rest ∧ IsMethod m method := by
  unfold methodOf
  constructor
  · intro h
    split_ifs at h with h₁ h₂
    · cases h
      exact ⟨line.take 3, (List.take_append_drop 3 line).symm,
        .inl ⟨(strncasecmpEq_iff hnul).mp h₁, rfl⟩⟩
    · cases h
      exact ⟨line.take 4, (List.take_append_drop 4 line).symm,
        .inr ⟨(strncasecmpEq_iff hnul).mp h₂, rfl⟩⟩
  · rintro ⟨m, rfl, ⟨hm, rfl⟩ | ⟨hm, rfl⟩⟩
    · have hlen : m.length = 3 := length_of_tolower hm
      have hget : strncasecmpEq (m ++ rest) "GET".toList = true := by
        rw [strncasecmpEq_append hlen (mt (List.mem_append_left _) hnul), hm]
        rfl
      rw [if_pos hget, List.drop_left' hlen]
    · have hlen : m.length = 4 := length_of_tolower hm
      have hpost : strncasecmpEq (m ++ rest) "POST".toList = true := by
        rw [strncasecmpEq_append hlen (mt (List.mem_append_left _) hnul), hm]
        rfl
      have hget : ¬ strncasecmpEq (m ++ rest) "GET".toList = true := by
        rw [strncasecmpEq_iff hnul, List.take_append_of_le_length (by rw [hlen]; decide), tolower,
          List.map_take, ← tolower, hm]
        decide
      rw [if_neg hget, if_pos hpost, List.drop_left' hlen]

theorem strchr_eq_some {c : Char} {s t u : Text} :
    strchr c s = some (t, u) ↔ s = t ++ u ∧ c ∉ t ∧ u.head? = some c := by
  unfold strchr
  constructor
  · intro h
    split_ifs at h with hc
    cases h
    refine ⟨List.takeWhile_append_dropWhile.symm, not_mem_takeWhile c s, ?_⟩
    cases hdrop : s.dropWhile (· != c) with
    | nil =>
        rw [List.dropWhile_eq_nil_iff] at hdrop
        simpa using hdrop c hc
    | cons d u =>
        have hd := (takeWhile_spec (· != c) s).2 d (by rw [hdrop]; rfl)
        rw [List.head?_cons, Option.some_inj]
        simpa using hd
  · rintro ⟨rfl, hnot, hu⟩
    obtain ⟨u, rfl⟩ := List.head?_eq_some_iff.mp hu
    rw [if_pos (by simp), takeWhile_ne_append hnot, dropWhile_ne_append hnot]

/-- The characters behind the word, read one by one. -/
theorem exists_digits {t : Text} (hd : (t.getD 0 nul).isDigit = true) (hdot : t.getD 1 nul = '.')
    (he : (t.getD 2 nul).isDigit = true) : ∃ d e tail, t = d :: '.' :: e :: tail ∧
      d.isDigit = true ∧ e.isDigit = true := by
  rcases t with _ | ⟨d, _ | ⟨dot, _ | ⟨e, tail⟩⟩⟩
  · cases hd
  · cases hdot
  · cases he
  · obtain rfl : dot = '.' := hdot
    exact ⟨d, e, tail, rfl, hd, he⟩

theorem tail_iff {tail : Text} :
    (tail.takeWhile fun c => c != '\r' && c != '\n').all isblank = true ↔
      ∃ b rest, tail = b ++ rest ∧ Blanks b ∧ ∀ c ∈ rest.head?, c = '\r' ∨ c = '\n' := by
  constructor
  · intro h
    refine ⟨_, _, List.takeWhile_append_dropWhile.symm, List.all_eq_true.mp h, fun c hc => ?_⟩
    have hstop := (takeWhile_spec _ tail).2 c hc
    rw [Bool.and_eq_false_iff] at hstop
    exact hstop.imp (by simp) (by simp)
  · rintro ⟨b, rest, rfl, hb, hrest⟩
    have hrun : ∀ c ∈ b, (c != '\r' && c != '\n') = true := by
      intro c hc
      have hblank := hb c hc
      by_contra hline
      rw [Bool.not_eq_true, Bool.and_eq_false_iff] at hline
      rcases hline with hline | hline
      · obtain rfl : c = '\r' := by simpa using hline
        cases hblank
      · obtain rfl : c = '\n' := by simpa using hline
        cases hblank
    rw [(takeWhile_run hrun ?_).1]
    · exact List.all_eq_true.mpr hb
    · intro c hc
      rcases hrest c hc with rfl | rfl <;> rfl

theorem IsVersion.length {version : Text} (h : IsVersion version) : version.length = 8 := by
  obtain ⟨h, d, e, rfl, hword, -⟩ := h
  rw [List.length_append, length_of_tolower hword]
  rfl

theorem checkVersion_iff {v : Text} (hnul : nul ∉ v) : checkVersion v = true ↔
    ∃ version b rest, v = version ++ (b ++ rest) ∧ IsVersion version ∧ Blanks b ∧
      ∀ c ∈ rest.head?, c = '\r' ∨ c = '\n' := by
  have hget : ∀ i, v.getD (5 + i) nul = (v.drop 5).getD i nul := by
    intro i
    rw [List.getD_eq_getElem?_getD, List.getD_eq_getElem?_getD, List.getElem?_drop]
  have hdrop8 : v.drop 8 = (v.drop 5).drop 3 := by rw [List.drop_drop]
  rw [checkVersion, hget 0, hget 1, hget 2, hdrop8]
  simp only [Bool.and_eq_true, beq_iff_eq, tail_iff]
  rw [strncasecmpEq_iff hnul]
  constructor
  · rintro ⟨⟨⟨⟨hword, hd⟩, hdot⟩, he⟩, b, rest, htail, hb, hrest⟩
    obtain ⟨d, e, tail, hdrop, hd, he⟩ := exists_digits hd hdot he
    rw [hdrop] at htail
    refine ⟨v.take 5 ++ [d, '.', e], b, rest, ?_, ⟨_, d, e, rfl, hword, hd, he⟩, hb, hrest⟩
    rw [← htail, List.append_assoc]
    exact (List.take_append_drop 5 v).symm.trans (by rw [hdrop]; rfl)
  · rintro ⟨_, b, rest, rfl, ⟨h, d, e, rfl, hword, hd, he⟩, hb, hrest⟩
    have hlen : h.length = 5 := length_of_tolower hword
    rw [List.append_assoc, List.drop_left' hlen]
    refine ⟨⟨⟨⟨?_, hd⟩, rfl⟩, he⟩, b, rest, rfl, hb, hrest⟩
    exact (congrArg tolower (List.take_left' hlen)).trans hword

/-- The end of the URL is a space, or a tab when there is no space. -/
theorem url_iff {u url rest : Text} :
    (strchr ' ' u).or (strchr '\t' u) = some (url, rest) ↔
      u = url ++ rest ∧ ((' ' ∉ url ∧ rest.head? = some ' ') ∨
        (' ' ∉ url ++ rest ∧ '\t' ∉ url ∧ rest.head? = some '\t')) := by
  have hnone : strchr ' ' u = none ↔ ' ' ∉ u := by
    unfold strchr
    split_ifs with h <;> simp [h]
  rw [Option.or_eq_some_iff, hnone, strchr_eq_some, strchr_eq_some]
  constructor
  · rintro (⟨rfl, hnot, hhead⟩ | ⟨hspace, rfl, hnot, hhead⟩)
    · exact ⟨rfl, .inl ⟨hnot, hhead⟩⟩
    · exact ⟨rfl, .inr ⟨hspace, hnot, hhead⟩⟩
  · rintro ⟨rfl, ⟨hnot, hhead⟩ | ⟨hspace, hnot, hhead⟩⟩
    · exact .inl ⟨rfl, hnot, hhead⟩
    · exact .inr ⟨hspace, rfl, hnot, hhead⟩

/-- A run of blanks that is not empty. -/
theorem exists_run {s : Text} {c : Char} (hs : s.head? = some c) (hc : isblank c = true) :
    ∃ b, s = b ++ skipBlanks s ∧ Blanks b ∧ b.head? = some c ∧
      ∀ d ∈ (skipBlanks s).head?, isblank d = false := by
  obtain ⟨b, hb, hblanks, hrest⟩ := exists_blanks s
  refine ⟨b, hb, hblanks, ?_, hrest⟩
  cases b with
  | nil =>
      rw [List.nil_append] at hb
      have hnot := hrest c (by rw [← hb]; exact hs)
      rw [hc] at hnot
      cases hnot
  | cons d b =>
      rw [hb] at hs
      exact hs

theorem IsVersion.head {version : Text} (h : IsVersion version) (t : Text) :
    ∀ c ∈ (version ++ t).head?, isblank c = false := by
  obtain ⟨h, d, e, rfl, hword, -⟩ := h
  cases h with
  | nil => cases hword
  | cons a h =>
      have ha : a.toLower = 'h' := (List.cons.inj hword).1
      intro c hc
      obtain rfl : a = c := Option.some.inj hc
      by_contra hblank
      rw [Bool.not_eq_false, isblank, Bool.or_eq_true, beq_iff_eq, beq_iff_eq] at hblank
      rcases hblank with rfl | rfl
      · exact absurd ha (by decide)
      · exact absurd ha (by decide)

/-- The parser takes the parts of the form, and nothing else. -/
theorem requestLine_iff {line : Text} (hnul : nul ∉ line) (req : HttpRequest) :
    requestLine line = some req ↔ RequestForm line req := by
  unfold requestLine
  simp only [Option.bind_eq_some_iff, Prod.exists, Option.ite_none_right_eq_some]
  constructor
  · rintro ⟨method, after, hmethod, hblank, url, rest, hurl, hversion, hreq⟩
    obtain ⟨m, rfl, hm⟩ := (methodOf_iff hnul).mp hmethod
    obtain ⟨c, hc, hblank⟩ := (Option.any_eq_true _ _).mp hblank
    obtain ⟨b₁, hafter, hb₁, hhead₁, hurl₁⟩ := exists_run hc hblank
    obtain ⟨hsplit, hend⟩ := url_iff.mp hurl
    obtain ⟨d, hd, hdblank⟩ : ∃ d, rest.head? = some d ∧ isblank d = true := by
      rcases hend with ⟨-, hd⟩ | ⟨-, -, hd⟩
      · exact ⟨' ', hd, rfl⟩
      · exact ⟨'\t', hd, rfl⟩
    obtain ⟨b₂, hrest, hb₂, hhead₂, -⟩ := exists_run hd hdblank
    have hnul' : nul ∉ skipBlanks rest := by
      intro hin
      apply hnul
      rw [hafter, hsplit, hrest]
      simp [hin]
    obtain ⟨version, b₃, tail, hv, hform, hb₃, htail⟩ := (checkVersion_iff hnul').mp hversion
    have htake : (skipBlanks rest).take 8 = version := by rw [hv, List.take_left' hform.length]
    rw [htake] at hreq
    obtain rfl := Option.some.inj hreq
    refine ⟨m, b₁, b₂, b₃, tail, ?_, hm, hb₁, ?_, ?_, ⟨hb₂, ?_⟩, hform, hb₃, htail⟩
    · rw [← hv, ← hrest, ← hsplit, ← hafter]
    · rintro rfl
      cases hhead₁
    · cases url with
      | nil =>
          have hnot := hurl₁ d (by rw [hsplit]; exact hd)
          rw [hdblank] at hnot
          cases hnot
      | cons e url => exact ⟨e, rfl, hurl₁ e (by rw [hsplit]; rfl)⟩
    · rw [← hv, ← hrest, hhead₂, ← hd]
      exact hend
  · rintro ⟨m, b₁, b₂, b₃, rest, rfl, hm, hb₁, hne, ⟨c, hc, hcblank⟩, ⟨hb₂, hend⟩, hform, hb₃,
      htail⟩
    have hskip₁ : skipBlanks (b₁ ++ (req.url ++ (b₂ ++ (req.version ++ (b₃ ++ rest)))))
        = req.url ++ (b₂ ++ (req.version ++ (b₃ ++ rest))) := by
      refine skipBlanks_run hb₁ fun d hd => ?_
      rw [List.head?_append, hc, Option.some_or] at hd
      obtain rfl := Option.some.inj hd
      exact hcblank
    have hskip₂ : skipBlanks (b₂ ++ (req.version ++ (b₃ ++ rest))) = req.version ++ (b₃ ++ rest) :=
      skipBlanks_run hb₂ (hform.head _)
    refine ⟨req.method, _, (methodOf_iff hnul).mpr ⟨m, rfl, hm⟩, ?_, req.url,
      b₂ ++ (req.version ++ (b₃ ++ rest)), ?_, ?_, ?_⟩
    · obtain ⟨e, b₁, rfl⟩ := List.exists_cons_of_ne_nil hne
      exact hb₁ e List.mem_cons_self
    · rw [hskip₁, url_iff]
      refine ⟨rfl, hend.imp ?_ ?_⟩
      · rintro ⟨hnot, hhead⟩
        exact ⟨hnot, by rw [List.head?_append, hhead, Option.some_or]⟩
      · rintro ⟨hnot, htab, hhead⟩
        exact ⟨hnot, htab, by rw [List.head?_append, hhead, Option.some_or]⟩
    · rw [hskip₂]
      refine (checkVersion_iff ?_).mpr ⟨req.version, b₃, rest, rfl, hform, hb₃, htail⟩
      exact fun hin => hnul (by simp only [List.mem_append] at hin ⊢; simp [hin])
    · rw [hskip₂, List.take_left' hform.length]

/-- **What is accepted is a request line**, in all three services, and the parts that are taken are
those of its form. -/
theorem request_line_iff (line : Text) (req : HttpRequest) :
    (parseRequestLine line = some req ↔ RequestForm (cstr line) req) ∧
      (DeliverHelp.parseHttpRequestLine line = some req ↔ RequestForm (cstr line) req) ∧
      (Faceside.parseHttpRequestLine line = some req ↔ RequestForm (cstr line) req) :=
  have h := requestLine_iff (nul_not_mem_cstr line) req
  ⟨h, h, h⟩

end Edm.LableManager
