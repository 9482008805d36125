import Edm.Support.Mailbox

/-!
# Base — StringTokenizer

`StringTokenizer::getNext` with a list of delimiters (`cpplib/base/stringtokenizer.h`).  `strchr`
finds the NUL behind the delimiters too, so a NUL is one of them.  The tokens are the parts between
delimiters that are not empty (`tokens_eq`).
-/

namespace Edm.Base
open Support

/-- `strchr(lpszDelimiter, ch) != NULL`. -/
def isDelimiter (delimiter : Text) (ch : Char) : Bool := delimiter.contains ch || ch == nul

/-! ### Parts -/

section Parts
variable {p q : Char → Bool} {s t : Text} {c : Char}

theorem splitOnP_congr (h : ∀ c ∈ s, p c = q c) : s.splitOnP p = s.splitOnP q := by
  induction s with
  | nil => rfl
  | cons c s ih =>
      obtain ⟨hc, hs⟩ := List.forall_mem_cons.mp h
      rw [List.splitOnP_cons_eq_if_modifyHead, List.splitOnP_cons_eq_if_modifyHead, hc, ih hs]

/-- What is no delimiter is in a part, and a part has what the text has. -/
theorem mem_splitOnP (h : c ∈ s) (hc : p c = false) : ∃ t ∈ s.splitOnP p, c ∈ t := by
  induction s with
  | nil => cases h
  | cons d s ih =>
      rw [List.splitOnP_cons_eq_if_modifyHead]
      obtain ⟨t, ts, hts⟩ := List.exists_cons_of_ne_nil (List.splitOnP_ne_nil p s)
      rw [hts] at ih ⊢
      rcases List.mem_cons.mp h with rfl | h
      · rw [hc]
        exact ⟨c :: t, List.mem_cons_self, List.mem_cons_self⟩
      · obtain ⟨u, hu, hcu⟩ := ih h
        split
        next => exact ⟨u, List.mem_cons_of_mem _ hu, hcu⟩
        next =>
          rcases List.mem_cons.mp hu with rfl | hu
          · exact ⟨d :: u, List.mem_cons_self, List.mem_cons_of_mem _ hcu⟩
          · exact ⟨u, List.mem_cons_of_mem _ hu, hcu⟩

theorem mem_of_mem_splitOnP (h : t ∈ s.splitOnP p) (hc : c ∈ t) : c ∈ s := by
  induction s generalizing t with
  | nil =>
      obtain rfl := List.mem_singleton.mp h
      exact hc
  | cons d s ih =>
      rw [List.splitOnP_cons_eq_if_modifyHead] at h
      obtain ⟨u, us, hus⟩ := List.exists_cons_of_ne_nil (List.splitOnP_ne_nil p s)
      rw [hus] at ih h
      split at h
      next =>
        rcases List.mem_cons.mp h with rfl | h
        · cases hc
        · exact List.mem_cons_of_mem _ (ih h hc)
      next =>
        rcases List.mem_cons.mp h with rfl | h
        · rcases List.mem_cons.mp hc with rfl | hc
          · exact List.mem_cons_self
          · exact List.mem_cons_of_mem _ (ih List.mem_cons_self hc)
        · exact List.mem_cons_of_mem _ (ih (List.mem_cons_of_mem _ h) hc)

end Parts

/-! ### Tokens -/

variable (delimiter : Text)

/-- `getNext`: the token, and where `m_lpszSrc` is then. -/
def getNext (src : Text) : Option (Text × Text) :=
  let src := src.dropWhile (isDelimiter delimiter)
  let strToken := src.takeWhile (!isDelimiter delimiter ·)
  if strToken.isEmpty then none else some (strToken, src.dropWhile (!isDelimiter delimiter ·))

/-- What a token is: what stands between delimiters. -/
theorem getNext_spec {src strToken rest : Text}
    (h : getNext delimiter src = some (strToken, rest)) :
    src.dropWhile (isDelimiter delimiter) = strToken ++ rest ∧ strToken ≠ [] ∧
      (∀ c ∈ strToken, isDelimiter delimiter c = false) ∧
      ∀ c ∈ rest.head?, isDelimiter delimiter c = true := by
  obtain ⟨hne, h⟩ := Option.ite_none_left_eq_some.mp h
  obtain ⟨rfl, rfl⟩ := Prod.mk.inj (Option.some.inj h)
  obtain ⟨hall, hhead⟩ := takeWhile_spec (!isDelimiter delimiter ·)
    (src.dropWhile (isDelimiter delimiter))
  refine ⟨List.takeWhile_append_dropWhile.symm, mt List.isEmpty_iff.mpr hne, ?_, ?_⟩
  · exact fun c hc => by simpa using hall c hc
  · exact fun c hc => by simpa using hhead c hc

theorem getNext_eq_none {src : Text} (h : getNext delimiter src = none) :
    src.dropWhile (isDelimiter delimiter) = [] := by
  have hhead := (takeWhile_spec (isDelimiter delimiter) src).2
  have hempty : ((src.dropWhile (isDelimiter delimiter)).takeWhile
      (!isDelimiter delimiter ·)).isEmpty = true := by
    by_contra hne
    rw [getNext] at h
    rw [if_neg hne] at h
    cases h
  cases hsrc : src.dropWhile (isDelimiter delimiter) with
  | nil => rfl
  | cons c s =>
      rw [hsrc] at hhead hempty
      rw [List.takeWhile_cons_of_pos (by simpa using hhead c rfl)] at hempty
      cases hempty

theorem getNext_length {src strToken rest : Text}
    (h : getNext delimiter src = some (strToken, rest)) : rest.length < src.length := by
  obtain ⟨hsrc, hne, -, -⟩ := getNext_spec delimiter h
  have hdrop := (List.dropWhile_sublist (isDelimiter delimiter) (l := src)).length_le
  rw [hsrc, List.length_append] at hdrop
  have hpos := List.length_pos_of_ne_nil hne
  omega

/-- `while ( getNext(strToken, lpszDelimiter) )`. -/
def tokens (src : Text) : List Text :=
  match _h : getNext delimiter src with
  | none => []
  | some (strToken, rest) => strToken :: tokens rest
  termination_by src.length
  decreasing_by exact getNext_length delimiter _h

/-- Delimiters in front make no token. -/
theorem filter_splitOnP_dropWhile {p : Char → Bool} (s : Text) :
    ((s.dropWhile p).splitOnP p).filter (!·.isEmpty) = (s.splitOnP p).filter (!·.isEmpty) := by
  induction s with
  | nil => rfl
  | cons c s ih =>
      cases hc : p c with
      | false => rw [List.dropWhile_cons_of_neg (ne_true_of_eq_false hc)]
      | true =>
          rw [List.dropWhile_cons_of_pos hc, ih, List.splitOnP_cons_eq_if_modifyHead, if_pos hc]
          rfl

theorem tokens_eq (src : Text) :
    tokens delimiter src = (src.splitOnP (isDelimiter delimiter)).filter (!·.isEmpty) := by
  induction src using tokens.induct delimiter with
  | case1 src h =>
      rw [tokens, ← filter_splitOnP_dropWhile, getNext_eq_none delimiter h]
      split
      next => rfl
      next h' => rw [h] at h'; cases h'
  | case2 src strToken rest h ih =>
      obtain ⟨hsrc, hne, hall, hrest⟩ := getNext_spec delimiter h
      have htoken : strToken.isEmpty = false := by simpa using hne
      rw [tokens, ← filter_splitOnP_dropWhile, hsrc]
      split
      next h' => rw [h] at h'; cases h'
      next t r h' =>
        rw [h] at h'
        obtain ⟨rfl, rfl⟩ := Prod.mk.inj (Option.some.inj h')
        rw [ih]
        cases rest with
        | nil =>
            rw [List.append_nil, List.splitOnP_eq_singleton hall]
            simp [htoken]
        | cons d rest =>
            rw [List.splitOnP_append_cons_of_forall_mem hall d (hrest d rfl),
              List.splitOnP_cons_eq_if_modifyHead, if_pos (hrest d rfl)]
            simp [htoken]

end Edm.Base
