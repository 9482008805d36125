import Edm.Maillist.Rounds
import Edm.Support.Split

/-!
# Maillist — Record

What the daemon keeps of a subscriber line, and what it sends of it.

A `Line` is a subscriber line with the column names of its file, as the two `fgets` read them.
Its record is the level byte, the mailbox, and a segment `$name$value` for each further field, a
last empty field left out (`recordText_line`).  A list keeps the record of each of its entries as
it was written (`Stored`), and a response carries it without the level byte (`Stored.response`).
-/

namespace Edm.Maillist
open Support

/-! ### Lines -/

/-- A subscriber line with a mailbox and at most as many fields as there are columns.  The bounds
are those of the buffers the column names and the line are read into. -/
structure Line where
  header : Text
  body : Text
  level : Nat
  header_length : header.length < 4194303
  body_length : body.length < 5242880
  header_clean : ∀ c ∈ header, c ≠ nul ∧ c ≠ '\r' ∧ c ≠ '\n'
  body_clean : ∀ c ∈ body, c ≠ nul ∧ c ≠ '\r' ∧ c ≠ '\n'
  mailbox : '@' ∈ (cut ',' body).1
  comma : ',' ∈ body
  fields_le : (body.splitOn ',').length ≤ (header.splitOn ',').length
  level_mem : level = 5 ∨ level = 10 ∨ level = 15

namespace Line
variable (l : Line)

/-- The names of the columns. -/
def columns : List Text := l.header.splitOn ','

/-- The fields of the line, the mailbox first. -/
def fields : List Text := l.body.splitOn ','

/-- The line behind its level byte. -/
def text : Text := Char.ofNat l.level :: l.body

def box : Text := (cut ',' l.body).1

/-- The fields behind the mailbox that are stored: all but a last empty one. -/
def kept : List Text :=
  if l.fields.tail.getLast? = some [] then l.fields.tail.dropLast else l.fields.tail

/-- Field `i` with its column name; fields from the 256th on have none. -/
def segment (f : Text) (i : Nat) : Text :=
  (if i < 256 then '$' :: paramName (paramNames l.header) i ++ ['$'] else []) ++ f

/-- The segments of the stored fields. -/
def segments : List Text := (l.kept.zipIdx 1).map fun f => l.segment f.1 f.2

theorem body_eq : ∃ rest, l.body = l.box ++ ',' :: rest ∧ ',' ∉ l.box := by
  obtain ⟨a, b, hs, ha⟩ := List.eq_append_cons_of_mem l.comma
  refine ⟨b, ?_⟩
  rw [box, hs, cut_append ha]
  exact ⟨rfl, ha⟩

theorem fields_eq : l.fields = l.box :: l.fields.tail := by
  obtain ⟨rest, hb, hm⟩ := l.body_eq
  rw [fields, hb, splitOn_more hm, List.tail_cons]

theorem tail_ne_nil : l.fields.tail ≠ [] := by
  obtain ⟨rest, hb, hm⟩ := l.body_eq
  rw [fields, hb, splitOn_more hm, List.tail_cons]
  exact List.splitOn_ne_nil ',' rest

theorem level_ne (c : Char) (h : 44 ≤ c.toNat ∨ c = nul) : Char.ofNat l.level ≠ c := by
  rcases l.level_mem with hl | hl | hl <;> rw [hl] <;> rintro rfl <;> revert h <;> decide

/-- The fields of the line with its level byte. -/
theorem recordFields_text : recordFields l.text = (Char.ofNat l.level :: l.box) :: l.kept := by
  have hsplit : l.text.splitOn ',' = (Char.ofNat l.level :: l.box) :: l.fields.tail := by
    obtain ⟨rest, hb, hm⟩ := l.body_eq
    have hm' : ',' ∉ Char.ofNat l.level :: l.box := fun h =>
      (List.mem_cons.mp h).elim (fun h => l.level_ne ',' (by decide) h.symm) hm
    rw [fields, hb, splitOn_more hm, List.tail_cons, text, hb]
    exact splitOn_more hm' rest
  have hne := l.tail_ne_nil
  have hlast : ((Char.ofNat l.level :: l.box) :: l.fields.tail).getLast?
      = l.fields.tail.getLast? := by
    obtain ⟨f, fs, hf⟩ := List.exists_cons_of_ne_nil hne
    rw [hf, List.getLast?_cons_cons]
  rw [recordFields, hsplit, hlast, List.dropLast_cons_of_ne_nil hne, kept]
  split <;> rfl

/-- The record of a line: its level byte, the mailbox, and the segments. -/
theorem recordText_line : recordText (paramNames l.header) l.text
    = Char.ofNat l.level :: (l.box ++ nul :: (l.segments.map (· ++ [nul])).flatten) := by
  have hseg : ∀ (fs : List Text) (k : Nat),
      (fs.zipIdx (k + 1)).map (fun f => fieldText (paramNames l.header) f.1 f.2)
        = ((fs.zipIdx (k + 1)).map fun f => l.segment f.1 f.2).map (· ++ [nul]) := by
    intro fs
    induction fs with
    | nil => intro k; rfl
    | cons f fs ih =>
        intro k
        rw [List.zipIdx_cons, List.map_cons, List.map_cons, List.map_cons, ih (k + 1)]
        simp only [fieldText, segment, ne_eq, Nat.succ_ne_zero, not_false_eq_true, true_and]
  rw [recordText, l.recordFields_text, List.zipIdx_cons, List.map_cons, List.flatten_cons, hseg,
    segments]
  simp [fieldText]

/-! ### The columns -/

theorem endLine_clean {s : Text} (h : ∀ c ∈ s, c ≠ nul ∧ c ≠ '\r' ∧ c ≠ '\n') :
    endLine s = s := by
  have hc : cstr s = s := takeWhile_ne fun hm => (h _ hm).1 rfl
  have hr : s.contains '\r' = false := by
    rw [List.contains_eq_any_beq, List.any_eq_false]
    intro c hm hc
    exact (h c hm).2.1 (beq_iff_eq.mp hc).symm
  rw [endLine, hc, hr]
  exact takeWhile_ne fun hm => (h _ hm).2.2 rfl

/-- The first `n` parts of a text are its first `n` parts. -/
theorem getElem?_cutCommas_lt : ∀ {n : Nat} {s : Text} {i : Nat}, i < n →
    (cutCommas n s)[i]? = (s.splitOn ',')[i]?
  | n + 1, s, i, hi => by
      rw [cutCommas]
      by_cases h : ',' ∈ s
      · obtain ⟨a, b, rfl, ha⟩ := List.eq_append_cons_of_mem h
        rw [if_pos (by simp), cut_append ha, splitOn_more ha]
        cases i with
        | zero => rfl
        | succ i =>
            rw [List.getElem?_cons_succ, List.getElem?_cons_succ]
            exact getElem?_cutCommas_lt (Nat.lt_of_succ_lt_succ hi)
      · rw [if_neg (by simpa using h), List.splitOn_eq_singleton h]

/-- The part behind the first `n` is the rest of the text. -/
theorem getElem?_cutCommas_self : ∀ {n : Nat} {s t : Text}, (s.splitOn ',')[n]? = some t →
    ∃ r, (cutCommas n s)[n]? = some (t ++ r) ∧ ((s.splitOn ',').length ≤ n + 1 → r = []) ∧
      (n + 1 < (s.splitOn ',').length → ∃ r', r = ',' :: r')
  | 0, s, t, h => by
      rw [cutCommas]
      by_cases hs : ',' ∈ s
      · obtain ⟨a, b, rfl, ha⟩ := List.eq_append_cons_of_mem hs
        rw [splitOn_more ha] at h ⊢
        cases h
        have := List.length_pos_iff.mpr (List.splitOn_ne_nil ',' b)
        refine ⟨',' :: b, rfl, fun hle => ?_, fun _ => ⟨b, rfl⟩⟩
        rw [List.length_cons] at hle
        omega
      · rw [List.splitOn_eq_singleton hs] at h ⊢
        cases h
        exact ⟨[], by simp, fun _ => rfl, fun hlt => absurd hlt (Nat.lt_irrefl _)⟩
  | n + 1, s, t, h => by
      rw [cutCommas]
      by_cases hs : ',' ∈ s
      · obtain ⟨a, b, rfl, ha⟩ := List.eq_append_cons_of_mem hs
        rw [splitOn_more ha, List.getElem?_cons_succ] at h
        obtain ⟨r, h₁, h₂, h₃⟩ := getElem?_cutCommas_self h
        rw [if_pos (by simp), cut_append ha, splitOn_more ha, List.length_cons]
        exact ⟨r, h₁, fun hle => h₂ (by omega), fun hlt => h₃ (by omega)⟩
      · rw [List.splitOn_eq_singleton hs] at h
        exact nomatch h

/-- Up to the 256th field, the name a field is stored under is that of its column; only behind the
last name the array holds stands the rest of the column names. -/
theorem paramName_eq {i : Nat} {c : Text} (hi : i < 256) (hc : l.columns[i]? = some c) :
    ∃ r, paramName (paramNames l.header) i = c ++ r ∧
      (i < 255 ∨ l.columns.length ≤ 256 → r = []) ∧
      (i = 255 → 256 < l.columns.length → ∃ r', r = ',' :: r') := by
  rw [columns] at hc ⊢
  rw [paramName, paramNames, endLine_clean l.header_clean, List.getD_eq_getElem?_getD]
  rcases Nat.lt_or_ge i 255 with h | h
  · rw [getElem?_cutCommas_lt h, hc, Option.getD_some]
    exact ⟨[], (List.append_nil c).symm, fun _ => rfl, fun h' => absurd h' (by omega)⟩
  · obtain rfl : i = 255 := by omega
    obtain ⟨r, h₁, h₂, h₃⟩ := getElem?_cutCommas_self hc
    rw [h₁, Option.getD_some]
    exact ⟨r, rfl, fun h' => h₂ (by omega), fun _ => h₃⟩

/-! ### No NUL inside -/

theorem mem_of_mem_cutCommas {c : Char} :
    ∀ {n : Nat} {s t : Text}, t ∈ cutCommas n s → c ∈ t → c ∈ s
  | 0, s, t, h, hc => List.mem_singleton.mp h ▸ hc
  | n + 1, s, t, h, hc => by
      rw [cutCommas] at h
      by_cases hs : ',' ∈ s
      · obtain ⟨a, b, rfl, ha⟩ := List.eq_append_cons_of_mem hs
        rw [if_pos (by simp), cut_append ha] at h
        rcases List.mem_cons.mp h with rfl | h
        · exact List.mem_append_left _ hc
        · exact List.mem_append_right _ (List.mem_cons_of_mem _ (mem_of_mem_cutCommas h hc))
      · rw [if_neg (by simpa using hs), List.mem_singleton] at h
        exact h ▸ hc

theorem paramName_mem (names : List Text) (i : Nat) :
    paramName names i ∈ names ∨ paramName names i = [] := by
  rw [paramName, List.getD_eq_getElem?_getD]
  cases hi : names[i]? with
  | some t => exact Or.inl (List.mem_of_getElem? hi)
  | none =>
      cases names with
      | nil => exact Or.inr rfl
      | cons t ts => exact Or.inl List.mem_cons_self

theorem kept_sublist : l.kept.Sublist l.fields := by
  rw [kept]
  split
  · exact (List.dropLast_sublist _).trans (List.tail_sublist _)
  · exact List.tail_sublist _

theorem nul_not_mem_box : nul ∉ l.box := by
  obtain ⟨rest, hb, -⟩ := l.body_eq
  intro h
  exact (l.body_clean nul (hb ▸ List.mem_append_left _ h)).1 rfl

theorem nul_not_mem_segment {s : Text} (hs : s ∈ l.segments) : nul ∉ s := by
  obtain ⟨⟨f, i⟩, hf, rfl⟩ := List.mem_map.mp hs
  have hf : f ∈ l.fields := l.kept_sublist.subset (List.fst_mem_of_mem_zipIdx hf)
  have hfield : nul ∉ f := fun h => (l.body_clean nul (mem_of_mem_splitOn hf h)).1 rfl
  have hname : nul ∉ paramName (paramNames l.header) i := by
    rcases paramName_mem (paramNames l.header) i with hm | hm
    · intro h
      rw [paramNames, endLine_clean l.header_clean] at hm
      exact (l.header_clean nul (mem_of_mem_cutCommas hm (by
        rwa [paramNames, endLine_clean l.header_clean] at h))).1 rfl
    · rw [hm]
      exact List.not_mem_nil
  have hdollar : nul ≠ '$' := by decide
  rw [segment]
  split
  · simp only [List.cons_append, List.mem_cons, List.mem_append, List.append_assoc,
      List.not_mem_nil, not_or]
    exact ⟨hdollar, hname, hdollar, not_false, hfield⟩
  · exact hfield

/-! ### How long a record is -/

theorem length_of_mem_cutCommas : ∀ {n : Nat} {s t : Text}, t ∈ cutCommas n s → t.length ≤ s.length
  | 0, s, t, h => by rw [List.mem_singleton.mp h]
  | n + 1, s, t, h => by
      rw [cutCommas] at h
      by_cases hs : ',' ∈ s
      · obtain ⟨a, b, rfl, ha⟩ := List.eq_append_cons_of_mem hs
        rw [if_pos (by simp), cut_append ha] at h
        rw [List.length_append, List.length_cons]
        rcases List.mem_cons.mp h with rfl | h
        · omega
        · have : t.length ≤ b.length := length_of_mem_cutCommas h
          omega
      · rw [if_neg (by simpa using hs), List.mem_singleton] at h
        rw [h]

theorem length_paramName (names : List Text) {n : Nat} (h : ∀ t ∈ names, t.length ≤ n) (i : Nat) :
    (paramName names i).length ≤ n := by
  rcases paramName_mem names i with hm | hm
  · exact h _ hm
  · rw [hm]
    exact Nat.zero_le n

/-- Each segment adds its field and its NUL, and the first 255 a name of at most 4 MB. -/
theorem length_segments_le (fs : List Text) (k : Nat) :
    (((fs.zipIdx k).map fun f => l.segment f.1 f.2).map (· ++ [nul])).flatten.length
      ≤ (256 - k) * 4194304 + (fs.map fun f => f.length + 1).sum := by
  induction fs generalizing k with
  | nil => exact Nat.zero_le _
  | cons f fs ih =>
      have hn : (paramName (paramNames l.header) k).length ≤ 4194302 :=
        length_paramName _ (fun t ht => by
          have h₁ := length_of_mem_cutCommas ht
          rw [endLine_clean l.header_clean] at h₁
          have h₂ := l.header_length
          omega) k
      have ih := ih (k + 1)
      rw [List.zipIdx_cons, List.map_cons, List.map_cons, List.flatten_cons, List.length_append,
        List.map_cons, List.sum_cons, List.length_append, segment]
      split
      · simp only [List.length_append, List.length_cons, List.length_nil]
        omega
      · simp only [List.length_append, List.length_cons, List.length_nil]
        omega

/-- The length of a record is an `int`. -/
theorem length_record : (recordText (paramNames l.header) l.text).length + 11 < 2 ^ 31 := by
  have hs := l.length_segments_le l.kept 1
  have hsum :
      (l.kept.map fun f => f.length + 1).sum ≤ (l.fields.tail.map fun f => f.length + 1).sum := by
    rw [kept]
    split
    · conv => rhs; rw [← List.dropLast_concat_getLast l.tail_ne_nil]
      rw [List.map_append, List.sum_append]
      exact Nat.le_add_right _ _
    · exact Nat.le_refl _
  have hall : (l.fields.map fun f => f.length + 1).sum = l.body.length + 1 := sum_splitOn ',' l.body
  rw [l.fields_eq, List.map_cons, List.sum_cons] at hall
  have hb := l.body_length
  rw [recordText_line, segments]
  simp only [List.length_cons, List.length_append]
  omega

end Line

/-! ### Records in a list -/

/-- The record of `s` lies at entry `e`. -/
def Stored (p : MailList) (e : Entry) (names : List Text) (s : Text) : Prop :=
  ∃ before after, p.sMailboxList = before ++ record names s ++ after ∧ e.nPos = before.length

/-- A new record lies where its entry says. -/
theorem stored_addRecord (p : MailList) (names : List Text) (level : Nat) (body : Text) :
    Stored (p.addRecord names level body) ⟨p.sMailboxList.length, none⟩ names
      (Char.ofNat level :: body) :=
  ⟨p.sMailboxList, [], (List.append_nil _).symm, rfl⟩

/-- Records are only added behind the old ones. -/
theorem Stored.addRecord {p : MailList} {e : Entry} {names : List Text} {s : Text}
    (h : Stored p e names s) (names' : List Text) (level : Nat) (body : Text) :
    Stored (p.addRecord names' level body) e names s := by
  obtain ⟨before, after, hp, he⟩ := h
  refine ⟨before, after ++ record names' (Char.ofNat level :: body), ?_, he⟩
  rw [← List.append_assoc, ← hp]
  rfl

/-- Records are written one after another exactly if all of them fit. -/
theorem foldlM_writeRecord_eq_some_iff {q : MailList} : ∀ {rs : List (List Text × Nat × Text)}
    {p : MailList}, rs.foldlM (fun p r => p.writeRecord r.1 r.2.1 r.2.2) p = some q ↔
      p.mailBlock.HoldsAll (rs.map fun r => (record r.1 (Char.ofNat r.2.1 :: r.2.2)).length) ∧
        rs.foldl (fun p r => p.addRecord r.1 r.2.1 r.2.2) p = q
  | [], p => by
      rw [List.foldlM_nil]
      exact ⟨fun h => ⟨trivial, Option.some.inj h⟩, fun h => congrArg some h.2⟩
  | r :: rs, p => by
      have ih := @foldlM_writeRecord_eq_some_iff q rs (p.addRecord r.1 r.2.1 r.2.2)
      rw [p.mailBlock_addRecord] at ih
      rw [List.foldlM_cons, List.map_cons, MailBlock.HoldsAll, List.foldl_cons, and_assoc, ← ih,
        MailList.writeRecord]
      split
      next hroom => exact (and_iff_right hroom).symm
      next hroom => exact iff_of_false (fun h => by cases h) fun h => hroom h.1

/-- A record stays where it is, whatever is written behind it. -/
theorem Stored.foldl {e : Entry} {names : List Text} {s : Text} :
    ∀ (rs : List (List Text × Nat × Text)) {p : MailList}, Stored p e names s →
      Stored (rs.foldl (fun p r => p.addRecord r.1 r.2.1 r.2.2) p) e names s
  | [], _, h => h
  | r :: rs, _, h => Stored.foldl rs (h.addRecord r.1 r.2.1 r.2.2)

/-- The bytes of a line in a response to the task `sID`. -/
def Line.wire (l : Line) (sID : Text) : Text :=
  be32 (((recordText (paramNames l.header) l.text).length - 1 : Int) + 12) ++ sID.take 12
    ++ (recordText (paramNames l.header) l.text).drop 1

/-- A response carries the record as it is stored, without the level byte. -/
theorem Stored.response {p : MailList} {e : Entry} {l : Line}
    (h : Stored p e (paramNames l.header) l.text) (sID : Text) : p.response sID e = l.wire sID := by
  obtain ⟨before, after, hp, he⟩ := h
  have hlen := l.length_record
  have hat : p.at e.nPos = le32 ((recordText (paramNames l.header) l.text).length - 1)
      ++ (recordText (paramNames l.header) l.text ++ (after ++ p.sHeap)) := by
    rw [MailList.at, hp, he, record]
    simp only [List.append_assoc]
    rw [List.drop_left]
  have hle : ofLe32 (p.at e.nPos) = (recordText (paramNames l.header) l.text).length - 1 := by
    rw [hat, ofLe32_append, int32_of_range] <;> omega
  have hdrop : p.at (e.nPos + 5)
      = (recordText (paramNames l.header) l.text).drop 1 ++ (after ++ p.sHeap) := by
    have : p.at (e.nPos + 5) = ((p.at e.nPos).drop 4).drop 1 := by
      simp only [MailList.at, List.drop_drop]
    have hpos : 1 ≤ (recordText (paramNames l.header) l.text).length := by
      rw [l.recordText_line]
      exact Nat.succ_pos _
    rw [this, hat, List.drop_left' (length_le32 _), List.drop_append_of_le_length hpos]
  have htake : (((recordText (paramNames l.header) l.text).length : Int) - 1).toNat
      = ((recordText (paramNames l.header) l.text).drop 1).length := by
    rw [List.length_drop]
    omega
  rw [MailList.response, hle, hdrop, htake, List.take_left, Line.wire]

end Edm.Maillist
