import Edm.Deliver.Wire
import Edm.Maillist.Triger
import Edm.Support.Overwrite

/-!
# Maillist — PostPackage

A trigger mail from its POST text to the delivery engine.  `Thread_Session` looks for three
sections in the text, `<$ID>`, `<$MODULA>` and `<$MAILLIST>`, and makes a record of them: ten
bytes of state, the length of the strings, the mailbox and `$name$value` for every variable, each
with a NUL, then the length of the template and the template.  A request for mails copies the
strings, a request for the template what stands behind them.

The lines are cut up in place, by NULs in the message.  `Post.Sound` says when all of it comes out
as it was submitted (`survives_iff`).
-/

namespace Edm.Maillist
open Support Deliver

/-! ### The sections -/

/-- The text behind the line of the first `tag`. -/
def behind (tag s : Text) : Option Text :=
  (strstr tag s).bind fun s => if s.contains '\n' then some (cut '\n' s).2 else none

/-- A line without the `\r` at its end. -/
def stripCr (line : Text) : Text := if line.getLast? = some '\r' then line.dropLast else line

/-- Where the sections of a message are; each text is the rest of the message. -/
structure Sections where
  sID : Text
  sModular : Text
  sModularEnd : Text
  sParam : Text
  sMail : Text

/-- The sections, when the message has them all, with both lines of the last. -/
def sections (sMsg : Text) : Option Sections :=
  (behind "<$ID>".toList sMsg).bind fun sID =>
    (behind "<$MODULA>".toList sMsg).bind fun sModular =>
      (strstr "</$MODULA>".toList sModular).bind fun sModularEnd =>
        (behind "<$MAILLIST>".toList sMsg).bind fun sParam =>
          if sParam.contains '\n' ∧ (cut '\n' sParam).2.contains '\n' then
            some ⟨sID, sModular, sModularEnd, sParam, (cut '\n' sParam).2⟩
          else none

namespace Sections
variable (c : Sections)

/-- The text of the template. -/
def modula : Text := c.sModular.take (c.sModular.length - c.sModularEnd.length)

/-- The names of the variables; the first column is the mailbox. -/
def names : List Text := ((stripCr (cut '\n' c.sParam).1).splitOn ',').tail

def box : Text := (cut ',' (stripCr (cut '\n' c.sMail).1)).1

def values : List Text := ((stripCr (cut '\n' c.sMail).1).splitOn ',').tail

/-- The variables that are submitted. -/
def pairs : List (Text × Text) := c.names.zip c.values

end Sections

/-! ### The record -/

/-- Where each field of a line ends. -/
def fieldEnds : Nat → List Text → List Nat
  | _, [] => []
  | pos, f :: fields => (pos + f.length) :: fieldEnds (pos + f.length + 1) fields

/-- The offsets in the message where a NUL is written: at the ends of the template and of the two
lines, and for the commas the loop over the variables has come to. -/
def nulled (sMsg : Text) (c : Sections) : List Nat :=
  let pos := fun s : Text => sMsg.length - s.length
  let params := (cut '\n' c.sParam).1
  let mail := stripCr (cut '\n' c.sMail).1
  let rounds := min ((params.splitOn ',').length - 1) ((mail.splitOn ',').length - 1)
  [pos c.sModularEnd, pos c.sParam + params.length, pos c.sMail + mail.length,
      pos c.sMail + (cut '\n' c.sMail).1.length]
    ++ (((fieldEnds (pos c.sParam) (params.splitOn ',')).tail.take rounds)
      ++ (fieldEnds (pos c.sMail) (mail.splitOn ',')).take (rounds + 1))

/-- `snprintf(s + 14, 100, "%s", sMail)`, and what the block holds up to where `nOffset` is then. -/
def boxPart (heap : Nat → Char) (box : Text) : Text :=
  if box.length ≤ 99 then box ++ [nul]
  else box.take 99 ++ nul :: (List.range (box.length - 99)).map fun i => heap (114 + i)

/-- A variable in the record. -/
def named (e : Text × Text) : Text := '$' :: e.1 ++ ['$'] ++ e.2

/-- The loop over the variables, in a block of `nMsgSize` bytes. -/
def storePairs (nMsgSize : Nat) : Nat → List Text → List Text → Option Text
  | nOffset, name :: names, value :: values =>
      -- a text that is cut off moves `nOffset` beyond the block, where the next one is written
      if nMsgSize < nOffset + (named (name, value)).length + 1 then none
      else (storePairs nMsgSize (nOffset + (named (name, value)).length + 1) names values).map
        (named (name, value) ++ nul :: ·)
  | _, _, _ => some []

/-- The eight bytes of a `time_t` in memory. -/
def le64 (t : Int) : Text := le32 t ++ le32 (t / 2 ^ 32)

/-- What a record holds behind its state. -/
def recordTail (strings modula : Text) : Text :=
  le32 strings.length ++ (strings ++ (le32 (modula.length + 1) ++ (modula ++ [nul])))

/-- The record, in a block of `nMsgSize` bytes that holds `heap` before. -/
def buildRecord (heap : Nat → Char) (nMsgSize : Nat) (tTime : Int) (box : Text)
    (names values : List Text) (modula : Text) : Option Text :=
  if nMsgSize < 14 + min box.length 99 + 1 then none
  else (storePairs nMsgSize (14 + box.length + 1) names values).bind fun pairs =>
    let strings := boxPart heap box ++ pairs
    if nMsgSize < 14 + strings.length + 4 + modula.length + 1 then none
    else some (nul :: nul :: le64 tTime ++ recordTail strings modula)

/-- The branch `D_PostPackage`: the key and the record to put, `some none` if there is none; `g`
is what the numbers held before.  A key that is taken keeps its record. -/
def postPackage (heap : Nat → Char) (tTime : Int) (g : Int × Int) (text : Text) :
    Option (Option (Text × Text)) :=
  let sMsg := if 10240000 < text.length then [] else cstr text
  let nMsgSize := max 4000 (text.length + 10)
  let n := ((behind "<$ID>".toList sMsg).map (scanID (0, g))).getD (0, g)
  match behind "<$MAILLIST>".toList sMsg with
  | none => some none
  | some sParam =>
      -- `sParamEnd[-1]` and `sMailEnd[-1]` are read also when the line does not end
      if !sParam.contains '\n' then none
      -- a NUL in place of the `\r` hides the end of the line
      else if (cut '\n' sParam).1.getLast? = some '\r' then some none
      else if !(cut '\n' sParam).2.contains '\n' then none
      else
        match behind "<$MODULA>".toList sMsg with
        | none => some none
        | some sModular =>
            match strstr "</$MODULA>".toList sModular with
            | none => some none
            | some sModularEnd =>
                if n.1 = 0 then some none
                else
                  let sMail := (cut '\n' sParam).2
                  let params := (cut '\n' sParam).1
                  let mail := stripCr (cut '\n' sMail).1
                  let mem := setNuls (nulled sMsg ⟨[], sModular, sModularEnd, sParam, sMail⟩) sMsg
                  (buildRecord heap nMsgSize tTime (cut ',' mail).1 (params.splitOn ',').tail
                    (mail.splitOn ',').tail (cstr (mem.drop (sMsg.length - sModular.length)))).map
                      fun data => some (postKey n, data)

/-! ### The readers of a record -/

/-- The block of an answer of `nResultLeng` bytes, when a record is put behind them. -/
def answerSize (nResultSize nResultLeng : Nat) : Nat :=
  if nResultSize - nResultLeng < 1024 then nResultSize + 2048 else nResultSize

/-- Command 1: a record is copied into the answer. -/
def handOut (nResultSize nResultLeng : Nat) (key data : Text) : Option Text :=
  let n := ofLe32 (data.drop 10)
  if answerSize nResultSize nResultLeng < nResultLeng + 16 + n.toNat then none
  else some (be32 (n + 12) ++ (key ++ (data.drop 14).take n.toNat))

/-- Command 2: the template under a number; `queue` are the templates of the tasks. -/
def templateContent (queue : Text → Option Text) (key data : Text) : Text :=
  if secondNumber key < 1000000000 then (queue key).getD [nul]
  else if 14 < data.length then
    let k1 := (ofLe32 (data.drop 10)).toNat
    if 18 + k1 < data.length then
      (data.drop (18 + k1)).take (ofLe32 (data.drop (14 + k1))).toNat
    else [nul]
  else [nul]

/-! ### What the record holds -/

/-- The variables in the record, one after another. -/
def pairStrings (pairs : List (Text × Text)) : Text :=
  ((pairs.map named).map (· ++ [nul])).flatten

theorem length_boxPart (heap : Nat → Char) (box : Text) :
    (boxPart heap box).length = box.length + 1 := by
  unfold boxPart
  split
  · rw [List.length_append, List.length_singleton]
  · rw [List.length_append, List.length_cons, List.length_map, List.length_range, List.length_take]
    omega

/-- A mailbox of up to 99 bytes is stored whole. -/
theorem boxPart_short (heap : Nat → Char) {box : Text} (h : box.length ≤ 99) (rest : Text) :
    boxPart heap box ++ rest = box ++ nul :: rest := by
  rw [boxPart, if_pos h, List.append_assoc, List.singleton_append]

/-- Of a longer one a reader sees 99 bytes. -/
theorem cstr_boxPart (heap : Nat → Char) {box : Text} (hnul : nul ∉ box) (h : 99 < box.length)
    (rest : Text) : cstr (boxPart heap box ++ rest) = box.take 99 := by
  rw [boxPart, if_neg (by omega), List.append_assoc, List.cons_append, cstr_append]
  exact fun hm => hnul (List.mem_of_mem_take hm)

theorem storePairs_eq {nMsgSize : Nat} : ∀ {names values : List Text} {nOffset : Nat},
    nOffset + (pairStrings (names.zip values)).length ≤ nMsgSize →
      storePairs nMsgSize nOffset names values = some (pairStrings (names.zip values))
  | [], _, _, _ => rfl
  | _ :: _, [], _, _ => rfl
  | name :: names, value :: values, nOffset, h => by
      have hcons : pairStrings ((name :: names).zip (value :: values))
          = named (name, value) ++ nul :: pairStrings (names.zip values) := by
        simp [pairStrings]
      rw [hcons, List.length_append, List.length_cons] at h
      rw [storePairs, if_neg (by omega), storePairs_eq (by omega), hcons]
      rfl

/-- Nothing but the variables is written. -/
theorem eq_of_storePairs {nMsgSize : Nat} : ∀ {names values : List Text} {nOffset : Nat}
    {pairs : Text}, storePairs nMsgSize nOffset names values = some pairs →
      pairs = pairStrings (names.zip values)
  | [], _, _, _, h => by
      cases h
      rfl
  | _ :: _, [], _, _, h => by
      cases h
      rfl
  | name :: names, value :: values, nOffset, _, h => by
      rw [storePairs] at h
      split at h
      next => cases h
      next =>
        obtain ⟨rest, hrest, rfl⟩ := Option.map_eq_some_iff.mp h
        rw [eq_of_storePairs hrest]
        simp [pairStrings]

/-- The record is built exactly when it fits its block as a whole. -/
theorem buildRecord_eq_some_iff {heap : Nat → Char} {nMsgSize : Nat} {tTime : Int} {box : Text}
    {names values : List Text} {modula data : Text} :
    buildRecord heap nMsgSize tTime box names values modula = some data ↔
      box.length + (pairStrings (names.zip values)).length + modula.length + 20 ≤ nMsgSize ∧
        data = nul :: nul :: le64 tTime
          ++ recordTail (boxPart heap box ++ pairStrings (names.zip values)) modula := by
  have hlength := length_boxPart heap box
  unfold buildRecord
  constructor
  · intro h
    split at h
    next => cases h
    next =>
      obtain ⟨pairs, hpairs, h⟩ := Option.bind_eq_some_iff.mp h
      obtain rfl := eq_of_storePairs hpairs
      dsimp only at h
      split at h
      next => cases h
      next hfits =>
        rw [List.length_append] at hfits
        exact ⟨by omega, (Option.some.inj h).symm⟩
  · rintro ⟨hfits, rfl⟩
    rw [if_neg (by omega), storePairs_eq (by omega), Option.bind_some]
    dsimp only
    rw [if_neg]
    rw [List.length_append]
    omega

section
variable {state strings modula : Text}

theorem recordTail_length (hstate : state.length = 10) (hshort : strings.length < 2 ^ 31) :
    ofLe32 ((state ++ recordTail strings modula).drop 10) = strings.length := by
  rw [List.drop_left' hstate, recordTail, ofLe32_append]
  exact int32_of_range (by omega) (by omega)

theorem recordTail_strings (hstate : state.length = 10) :
    (state ++ recordTail strings modula).drop 14
      = strings ++ (le32 (modula.length + 1) ++ (modula ++ [nul])) := by
  rw [← List.drop_drop (i := 4) (j := 10), List.drop_left' hstate, recordTail,
    List.drop_left' (length_le32 _)]

/-- The answer has room for the record. -/
theorem handOut_eq_some_iff {nResultSize nResultLeng : Nat} {key wire : Text}
    (hstate : state.length = 10) (hshort : strings.length < 2 ^ 31) :
    handOut nResultSize nResultLeng key (state ++ recordTail strings modula) = some wire ↔
      nResultLeng + 16 + strings.length ≤ answerSize nResultSize nResultLeng ∧
        wire = be32 (strings.length + 12) ++ (key ++ strings) := by
  unfold handOut
  rw [recordTail_length hstate hshort, recordTail_strings hstate]
  dsimp only
  rw [Int.toNat_natCast, List.take_left]
  split
  next hlong =>
    refine iff_of_false ?_ fun h => Nat.not_le_of_lt hlong h.1
    intro h
    cases h
  next hfits =>
    rw [Option.some.injEq]
    exact ⟨fun h => ⟨Nat.not_lt.mp hfits, h.symm⟩, fun h => h.2.symm⟩

/-- Under a number of its own a request gets the template of the record. -/
theorem templateContent_eq {queue : Text → Option Text} {key : Text} (hstate : state.length = 10)
    (hshort : strings.length < 2 ^ 31) (hmodula : modula.length + 1 < 2 ^ 31)
    (hkey : ¬ secondNumber key < 1000000000) :
    templateContent queue key (state ++ recordTail strings modula) = modula ++ [nul] := by
  have hlength : (state ++ recordTail strings modula).length
      = 18 + strings.length + (modula.length + 1) := by
    simp only [recordTail, List.length_append, length_le32, List.length_singleton, hstate]
    omega
  have hbehind : (state ++ recordTail strings modula).drop (14 + strings.length)
      = le32 (modula.length + 1) ++ (modula ++ [nul]) := by
    rw [← List.drop_drop, recordTail_strings hstate, List.drop_left]
  have hcontent : (state ++ recordTail strings modula).drop (18 + strings.length)
      = modula ++ [nul] := by
    have hoffset : 18 + strings.length = 14 + strings.length + 4 := by omega
    rw [hoffset, ← List.drop_drop, hbehind, List.drop_left' (length_le32 _)]
  have hsize : ofLe32 (le32 (modula.length + 1) ++ (modula ++ [nul])) = modula.length + 1 := by
    rw [ofLe32_append]
    exact int32_of_range (by omega) (by omega)
  unfold templateContent
  rw [if_neg hkey, if_pos (by omega), recordTail_length hstate hshort]
  dsimp only
  rw [Int.toNat_natCast, if_pos (by omega), hcontent, hbehind, hsize]
  refine List.take_of_length_le ?_
  rw [List.length_append, List.length_singleton]
  omega

end

/-! ### What the engine reads -/

/-- The variables are read as they were submitted. -/
def ReadAs (node : MailNode) (pairs : List (Text × Text)) : Prop :=
  ∀ k v, node.mapVariable.find k = some v ↔ (k, v) ∈ pairs

/-- The map the engine makes of the variables. -/
def readPairs (pairs : List (Text × Text)) : StdMap Text Text :=
  ((pairs.map named).map variableOf).foldl (fun m e => m.set e.1 e.2) .empty

/-- Variables that come through: plain texts that fit the buffers, and no name with two values. -/
structure Readable (pairs : List (Text × Text)) : Prop where
  plain : ∀ e ∈ pairs, (named e).length ≤ 4194303 ∧ e.1.length ≤ 127 ∧ Line.Plain e.1 e.2
  agree : ∀ e ∈ pairs, ∀ f ∈ pairs, e.1 = f.1 → e.2 = f.2

theorem fits_named_iff {e : Text × Text} (h : Line.Plain e.1 e.2) :
    Fits (named e) ↔ (named e).length ≤ 4194303 ∧ e.1.length ≤ 127 := by
  obtain ⟨hn, hv, hnil⟩ := h
  refine and_congr_right fun _ => ?_
  by_cases hne : e.1 = []
  · rw [named, hne, hnil hne]
    decide
  · have hhead : e.1.head? ≠ some '$' := fun h => hn (List.mem_of_mem_head? h)
    rw [named, scanVariable_segment hne hhead, takeWhile_ne hn]
    split
    next hlong => exact iff_of_false Bool.false_ne_true (by omega)
    next hshort => exact iff_of_true rfl (by omega)

theorem variableOf_pair {e : Text × Text} (h : Line.Plain e.1 e.2) (hlen : e.1.length ≤ 127) :
    variableOf (named e) = e := by
  obtain ⟨hn, hv, hnil⟩ := h
  by_cases hne : e.1 = []
  · have he : e = ([], []) := Prod.ext hne (hnil hne)
    rw [he]
    decide
  · exact variableOf_named hne hn hv hlen

theorem readable_iff (pairs : List (Text × Text)) : Readable pairs ↔
    (∀ s ∈ pairs.map named, Fits s) ∧
      ∀ k v, (readPairs pairs).find k = some v ↔ (k, v) ∈ pairs := by
  constructor
  · rintro ⟨hplain, hagree⟩
    have hread : (pairs.map named).map variableOf = pairs := by
      rw [List.map_map]
      refine (List.map_congr_left fun e he => ?_).trans (List.map_id pairs)
      exact variableOf_pair (hplain e he).2.2 (hplain e he).2.1
    constructor
    · intro s hs
      obtain ⟨e, he, rfl⟩ := List.mem_map.mp hs
      obtain ⟨hlong, hname, hp⟩ := hplain e he
      exact (fits_named_iff hp).mpr ⟨hlong, hname⟩
    · intro k v
      rw [readPairs, hread]
      constructor
      · intro hfind
        refine (StdMap.mem_of_find_foldl_set hfind).resolve_right fun h => ?_
        cases h
      · intro hmem
        exact StdMap.find_foldl_set_of_agree (fun f hf hk => hagree f hf (k, v) hmem hk) (.inl hmem)
  · rintro ⟨hfits, hfind⟩
    have hplain : ∀ e ∈ pairs, Line.Plain e.1 e.2 := by
      intro e he
      have hvar := (StdMap.mem_of_find_foldl_set ((hfind e.1 e.2).mpr he)).resolve_right
        fun h => by cases h
      obtain ⟨s, -, hs⟩ := List.mem_map.mp hvar
      have hspec := variableOf_spec s
      rwa [hs] at hspec
    refine ⟨fun e he => ?_, fun e he f hf hk => ?_⟩
    · obtain ⟨hlong, hname⟩ := (fits_named_iff (hplain e he)).mp
        (hfits _ (List.mem_map_of_mem he))
      exact ⟨hlong, hname, hplain e he⟩
    · have hf' := (hfind f.1 f.2).mpr hf
      rw [← hk, (hfind e.1 e.2).mpr he] at hf'
      exact Option.some.inj hf'

/-- The mail of a record. -/
def recordNode (n : Int × Int × Int) (box : Text) (pairs : List (Text × Text)) : MailNode where
  status := .unsent
  failtimes := 0
  domain := mailDomain box
  mail := box
  errstr := []
  stime := 0
  taskId := ⟨toUnsigned n.1, toUnsigned n.2.1, toUnsigned n.2.2⟩
  mapVariable := readPairs pairs

/-- A record with a whole mailbox is read as its mail, or a string does not fit. -/
theorem makeMailList_record {n : Int × Int × Int} {box : Text} {pairs : List (Text × Text)}
    (hbox : nul ∉ box) (hfits : box.length ≤ 127) (hpairs : ∀ s ∈ pairs.map named, nul ∉ s)
    (hshort : (box ++ nul :: pairStrings pairs).length < 2 ^ 31 - 12) (rest : Text)
    (nodes : List (Option MailNode)) :
    makeMailList 1 (be32 ((box ++ nul :: pairStrings pairs).length + 12) ++ (idBytes n
        ++ (box ++ nul :: pairStrings pairs)) ++ rest) = some nodes ↔
      (∀ s ∈ pairs.map named, Fits s) ∧
        nodes = [if 3000000 < toUnsigned n.1 then none else some (recordNode n box pairs)] := by
  generalize hmail : be32 ((box ++ nul :: pairStrings pairs).length + 12) ++ (idBytes n
    ++ (box ++ nul :: pairStrings pairs)) ++ rest = mail
  have hlength : (box ++ nul :: pairStrings pairs).length
      = box.length + 1 + (pairStrings pairs).length := by
    rw [List.length_append, List.length_cons]
    omega
  have hsize : ofBe32 mail = (box.length + 1 + (pairStrings pairs).length : Nat) + 12 := by
    rw [← hmail, List.append_assoc, ofBe32_append, hlength]
    exact int32_of_range (by omega) (by omega)
  have hid : readTaskId (mail.drop 4) = ⟨toUnsigned n.1, toUnsigned n.2.1, toUnsigned n.2.2⟩ := by
    rw [← hmail, List.append_assoc, List.drop_left' (length_be32 _), List.append_assoc]
    exact readTaskId_idBytes n _
  have hstrings : mail.drop 16 = box ++ nul :: (pairStrings pairs ++ rest) := by
    have hid' : (idBytes n).length = 12 := rfl
    rw [← hmail, List.append_assoc, ← List.drop_drop (i := 12) (j := 4),
      List.drop_left' (length_be32 _), List.append_assoc, List.drop_left' hid', List.append_assoc,
      List.cons_append]
  have hsplit := splitVariable_eq_some_iff hbox hfits hpairs rest
  rw [makeMailList, if_neg (by omega), makeMail, hstrings, cstr_append hbox, if_neg (by omega), hid,
    hsize]
  constructor
  · intro h
    obtain ⟨node, hnode, h⟩ := Option.bind_eq_some_iff.mp h
    obtain ⟨vars, hvars, rfl⟩ := Option.map_eq_some_iff.mp hnode
    obtain ⟨hfit, rfl⟩ := (hsplit vars).mp hvars
    exact ⟨hfit, (Option.some.inj h).symm⟩
  · rintro ⟨hfit, rfl⟩
    rw [pairStrings, (hsplit _).mpr ⟨hfit, rfl⟩]
    rfl

/-! ### A submitted mail -/

/-- A POST text with all sections, and the three numbers on the line of its id. -/
structure Post where
  text : Text
  n : Int × Int × Int
  c : Sections
  fits : text.length ≤ 10240000
  found : sections (cstr text) = some c
  number : ∀ g, scanID g c.sID = n

/-- The offset of a part of the message. -/
def Post.pos (p : Post) (s : Text) : Nat := (cstr p.text).length - s.length

/-- The mail comes through: its record is built, whatever its state becomes; the engine reads the
mailbox and the variables from an answer, and gets the template. -/
def Post.Survives (p : Post) (heap : Nat → Char) (tTime : Int) (g : Int × Int)
    (nResultSize nResultLeng : Nat) : Prop :=
  ∃ data, postPackage heap tTime g p.text = some (some (postKey p.n, data)) ∧
    ∀ state : Text, state.length = 10 →
      (∃ wire, handOut nResultSize nResultLeng (postKey p.n) (state ++ data.drop 10) = some wire ∧
        ∀ rest, ∃ node, makeMailList 1 (wire ++ rest) = some [some node] ∧
          node.mail = p.c.box ∧
          node.taskId = ⟨toUnsigned p.n.1, toUnsigned (p.n.2.1 + 1000000000), toUnsigned p.n.2.2⟩ ∧
          ReadAs node p.c.pairs) ∧
      ∀ queue, templateContent queue (postKey p.n) (state ++ data.drop 10) = p.c.modula ++ [nul]

/-- When a mail comes through. -/
structure Post.Sound (p : Post) (nResultSize nResultLeng : Nat) : Prop where
  lineFeed : (cut '\n' p.c.sParam).1.getLast? ≠ some '\r'
  number : p.n.1 ≠ 0 ∧ toUnsigned p.n.1 ≤ 3000000 ∧
    1000000000 ≤ toUnsigned (p.n.2.1 + 1000000000)
  apart : ∀ q ∈ nulled (cstr p.text) p.c, ¬ (p.pos p.c.sModular ≤ q ∧ q < p.pos p.c.sModularEnd)
  block : p.c.box.length + (pairStrings p.c.pairs).length + p.c.modula.length + 20
    ≤ max 4000 (p.text.length + 10)
  box : p.c.box.length ≤ 99
  readable : Readable p.c.pairs
  answer : nResultLeng + 16 + (p.c.box.length + 1 + (pairStrings p.c.pairs).length)
    ≤ answerSize nResultSize nResultLeng

/-! ### The sections of a post -/

theorem behind_suffix {tag s u : Text} (h : behind tag s = some u) : u <:+ s := by
  obtain ⟨v, hv, h⟩ := Option.bind_eq_some_iff.mp h
  split at h
  next =>
    obtain rfl := Option.some.inj h
    exact (cut_suffix '\n' v).trans (strstr_eq_some hv).1
  next => cases h

theorem mem_of_mem_stripCr {c : Char} {line : Text} (h : c ∈ stripCr line) : c ∈ line := by
  unfold stripCr at h
  split at h
  · exact (List.dropLast_sublist _).subset h
  · exact h

/-- What `sections` found. -/
structure Found (sMsg : Text) (c : Sections) : Prop where
  sID : behind "<$ID>".toList sMsg = some c.sID
  sModular : behind "<$MODULA>".toList sMsg = some c.sModular
  sModularEnd : strstr "</$MODULA>".toList c.sModular = some c.sModularEnd
  sParam : behind "<$MAILLIST>".toList sMsg = some c.sParam
  lines : c.sParam.contains '\n' = true ∧ (cut '\n' c.sParam).2.contains '\n' = true
  sMail : c.sMail = (cut '\n' c.sParam).2

theorem found_of_sections {sMsg : Text} {c : Sections} (h : sections sMsg = some c) :
    Found sMsg c := by
  obtain ⟨sID, hID, h⟩ := Option.bind_eq_some_iff.mp h
  obtain ⟨sModular, hModular, h⟩ := Option.bind_eq_some_iff.mp h
  obtain ⟨sModularEnd, hEnd, h⟩ := Option.bind_eq_some_iff.mp h
  obtain ⟨sParam, hParam, h⟩ := Option.bind_eq_some_iff.mp h
  split at h
  next hlines =>
    obtain rfl := Option.some.inj h
    exact ⟨hID, hModular, hEnd, hParam, hlines, rfl⟩
  next => cases h

namespace Post
variable (p : Post)

/-- The template that is stored: up to the first NUL in its place. -/
def stored : Text :=
  cstr ((setNuls (nulled (cstr p.text) p.c) (cstr p.text)).drop (p.pos p.c.sModular))

theorem postPackage_eq (heap : Nat → Char) (tTime : Int) (g : Int × Int) :
    postPackage heap tTime g p.text
      = if (cut '\n' p.c.sParam).1.getLast? = some '\r' ∨ p.n.1 = 0 then some none
        else (buildRecord heap (max 4000 (p.text.length + 10)) tTime p.c.box p.c.names p.c.values
          p.stored).map fun data => some (postKey p.n, data) := by
  have hf := found_of_sections p.found
  have hid : ((behind "<$ID>".toList (cstr p.text)).map (scanID (0, g))).getD (0, g) = p.n := by
    rw [hf.sID, Option.map_some, Option.getD_some, p.number]
  unfold postPackage
  simp only [if_neg (Nat.not_lt.mpr p.fits), hid, hf.sModular, hf.sModularEnd, hf.sParam,
    hf.lines.1, hf.lines.2, Bool.not_true, Bool.false_eq_true, if_false]
  by_cases hcr : (cut '\n' p.c.sParam).1.getLast? = some '\r'
  · rw [if_pos hcr, if_pos (.inl hcr)]
  · by_cases hzero : p.n.1 = 0
    · rw [if_neg hcr, if_pos hzero, if_pos (.inr hzero)]
    · have hnames : p.c.names = ((cut '\n' p.c.sParam).1.splitOn ',').tail := by
        rw [Sections.names, stripCr, if_neg hcr]
      have hnulled : nulled (cstr p.text) p.c = nulled (cstr p.text)
          ⟨[], p.c.sModular, p.c.sModularEnd, p.c.sParam, (cut '\n' p.c.sParam).2⟩ := by
        simp only [nulled, hf.sMail]
      rw [if_neg hcr, if_neg hzero, if_neg (not_or.mpr ⟨hcr, hzero⟩), hnames, Sections.box,
        Sections.values, stored, hnulled, hf.sMail]
      rfl

theorem modula_suffix : p.c.sModular <:+ cstr p.text ∧ p.c.sModularEnd <:+ p.c.sModular ∧
    p.c.sModularEnd ≠ [] := by
  have hf := found_of_sections p.found
  obtain ⟨hsuffix, hstart⟩ := strstr_eq_some hf.sModularEnd
  refine ⟨behind_suffix hf.sModular, hsuffix, ?_⟩
  rintro hnil
  rw [hnil] at hstart
  exact absurd (List.prefix_nil.mp hstart) (by decide)

/-- The template is stored whole exactly when no NUL is written into it. -/
theorem stored_iff : p.stored = p.c.modula ↔ ∀ q ∈ nulled (cstr p.text) p.c,
    ¬ (p.pos p.c.sModular ≤ q ∧ q < p.pos p.c.sModularEnd) := by
  obtain ⟨hmodular, hend, hne⟩ := p.modula_suffix
  have h₁ := hmodular.length_le
  have h₂ := hend.length_le
  have h₃ := List.length_pos_of_ne_nil hne
  have hdrop : (cstr p.text).drop (p.pos p.c.sModular) = p.c.sModular :=
    (List.suffix_iff_eq_drop.mp hmodular).symm
  have hlength : p.pos p.c.sModularEnd - p.pos p.c.sModular
      = p.c.sModular.length - p.c.sModularEnd.length := by
    simp only [pos]
    omega
  have hmem : p.pos p.c.sModularEnd ∈ nulled (cstr p.text) p.c := List.mem_cons_self
  have hiff := cstr_drop_setNuls_iff (nul_not_mem_cstr p.text)
    (b := p.pos p.c.sModular) (by simp only [pos]; omega) (by simp only [pos]; omega) hmem
  rwa [hdrop, hlength] at hiff

/-- The mailbox and the variables are parts of the message. -/
theorem nul_not_mem : nul ∉ p.c.box ∧ ∀ s ∈ p.c.pairs.map named, nul ∉ s := by
  have hf := found_of_sections p.found
  have hparam : nul ∉ p.c.sParam := fun h =>
    nul_not_mem_cstr _ ((behind_suffix hf.sParam).subset h)
  have hmail : nul ∉ p.c.sMail := by
    rw [hf.sMail]
    exact fun h => hparam ((cut_suffix '\n' _).subset h)
  have hline : ∀ {s : Text}, nul ∉ s → nul ∉ stripCr (cut '\n' s).1 := fun hs h =>
    hs ((List.takeWhile_prefix _).subset (mem_of_mem_stripCr h))
  have hfield : ∀ {s f : Text}, nul ∉ s →
      f ∈ ((stripCr (cut '\n' s).1).splitOn ',').tail → nul ∉ f := fun hs hf h =>
    hline hs (mem_of_mem_splitOn (List.mem_of_mem_tail hf) h)
  refine ⟨fun h => hline hmail ((List.takeWhile_prefix _).subset h), fun s hs => ?_⟩
  obtain ⟨e, he, rfl⟩ := List.mem_map.mp hs
  obtain ⟨hname, hvalue⟩ := List.of_mem_zip he
  have hdollar : nul ≠ '$' := by decide
  simp only [named, List.cons_append, List.mem_cons, List.mem_append, List.append_assoc,
    List.not_mem_nil, not_or]
  exact ⟨hdollar, hfield hparam hname, hdollar, not_false, hfield hmail hvalue⟩

end Post

/-- What the engine calls the mailbox is the first string. -/
theorem mail_of_makeMailList {mail : Text} {node : MailNode}
    (h : makeMailList 1 mail = some [some node]) : node.mail = cstr (mail.drop 16) := by
  rw [makeMailList] at h
  split at h
  next => cases h
  next =>
    obtain ⟨node', hnode, h⟩ := Option.bind_eq_some_iff.mp h
    cases h' : (if 3000000 < node'.taskId.time then none else some node') with
    | none =>
      rw [h'] at h
      cases h
    | some node'' =>
      rw [h'] at h
      cases h
      split at h'
      next => cases h'
      next =>
        cases h'
        rw [makeMail] at hnode
        split at hnode
        next => cases hnode
        next =>
          obtain ⟨vars, -, rfl⟩ := Option.map_eq_some_iff.mp hnode
          rfl

/-- The strings in an answer. -/
theorem drop_answer (z : Int) (n : Int × Int × Int) (strings rest : Text) :
    (be32 z ++ (postKey n ++ strings) ++ rest).drop 16 = strings ++ rest := by
  have hkey : (postKey n).length = 12 := rfl
  rw [List.append_assoc, ← List.drop_drop (i := 12) (j := 4), List.drop_left' (length_be32 _),
    List.append_assoc, List.drop_left' hkey]

/-- The numbers of a post's key. -/
def keyNumbers (n : Int × Int × Int) : Int × Int × Int := (n.1, n.2.1 + 1000000000, n.2.2)

/-- A submitted mail comes through exactly when it is sound. -/
theorem survives_iff (p : Post) (heap : Nat → Char) (tTime : Int) (g : Int × Int)
    (nResultSize nResultLeng : Nat) :
    p.Survives heap tTime g nResultSize nResultLeng ↔ p.Sound nResultSize nResultLeng := by
  have htail : ∀ strings modula, (nul :: nul :: le64 tTime ++ recordTail strings modula).drop 10
      = recordTail strings modula := fun _ _ => rfl
  obtain ⟨hbox, hpairs⟩ := p.nul_not_mem
  have hsmall := p.fits
  have hzip : p.c.names.zip p.c.values = p.c.pairs := rfl
  have hsecond : secondNumber (postKey p.n) = toUnsigned (p.n.2.1 + 1000000000) := by
    rw [secondNumber, postKey, List.append_assoc, List.drop_left' (length_be32 _), ofBe32_append,
      toUnsigned_int32]
  rw [Post.Survives, p.postPackage_eq]
  constructor
  · rintro ⟨data, hput, hstate⟩
    split at hput
    next =>
      cases hput
    next hstored =>
      obtain ⟨hcr, hzero⟩ := not_or.mp hstored
      obtain ⟨data, hbuild, hdata⟩ := Option.map_eq_some_iff.mp hput
      cases hdata
      obtain ⟨hfits, hrecord⟩ := buildRecord_eq_some_iff.mp hbuild
      rw [hzip] at hfits hrecord
      subst hrecord
      obtain ⟨⟨wire, hwire, hread⟩, htemplate⟩ := hstate (List.replicate 10 nul) rfl
      rw [htail] at hwire htemplate
      have hlength := length_boxPart heap p.c.box
      have hshort : (boxPart heap p.c.box ++ pairStrings p.c.pairs).length < 2 ^ 31 - 12 := by
        rw [List.length_append]
        omega
      have hkey : ¬ secondNumber (postKey p.n) < 1000000000 := by
        intro hlow
        have hnothing := htemplate fun _ => some []
        rw [templateContent, if_pos hlow] at hnothing
        exact absurd hnothing (by simp)
      have hmodula : p.stored = p.c.modula := by
        have hcontent := htemplate fun _ => none
        rw [templateContent_eq rfl (by omega) (by omega) hkey] at hcontent
        exact List.append_cancel_right hcontent
      obtain ⟨hanswer, rfl⟩ := (handOut_eq_some_iff rfl (by omega)).mp hwire
      obtain ⟨node, hnode, hmail, -, hvars⟩ := hread []
      have hwhole : p.c.box.length ≤ 99 := by
        by_contra hlong
        have hcut := mail_of_makeMailList hnode
        rw [drop_answer, hmail, List.append_assoc, cstr_boxPart heap hbox (by omega)] at hcut
        have hlengths := congrArg List.length hcut
        rw [List.length_take] at hlengths
        omega
      rw [boxPart_short heap hwhole] at hnode hshort hanswer
      obtain ⟨hfit, hnodes⟩ := (makeMailList_record (n := keyNumbers p.n) hbox (by omega) hpairs
        hshort [] _).mp hnode
      obtain ⟨hnodes, -⟩ := List.cons.inj hnodes
      split at hnodes
      next => cases hnodes
      next htime =>
        obtain rfl := Option.some.inj hnodes
        refine ⟨hcr, ⟨hzero, Nat.not_lt.mp htime, ?_⟩, p.stored_iff.mp hmodula, ?_, hwhole,
          (readable_iff _).mpr ⟨hfit, hvars⟩, ?_⟩
        · rw [← hsecond]
          exact Nat.not_lt.mp hkey
        · rw [← hmodula]
          exact hfits
        · rw [List.length_append, List.length_cons] at hanswer
          omega
  · intro h
    have hmodula := p.stored_iff.mpr h.apart
    have hblock := h.block
    have hwhole := h.box
    obtain ⟨hfit, hvars⟩ := (readable_iff _).mp h.readable
    have hlength : (p.c.box ++ nul :: pairStrings p.c.pairs).length
        = p.c.box.length + 1 + (pairStrings p.c.pairs).length := by
      rw [List.length_append, List.length_cons]
      omega
    have hstrings := boxPart_short heap hwhole (pairStrings p.c.pairs)
    have hbuild :
        buildRecord heap (max 4000 (p.text.length + 10)) tTime p.c.box p.c.names p.c.values
        p.stored = some (nul :: nul :: le64 tTime
          ++ recordTail (p.c.box ++ nul :: pairStrings p.c.pairs) p.c.modula) := by
      rw [hmodula, ← hstrings]
      exact buildRecord_eq_some_iff.mpr ⟨hblock, rfl⟩
    rw [if_neg (not_or.mpr ⟨h.lineFeed, h.number.1⟩), hbuild]
    refine ⟨_, rfl, fun state hstate => ?_⟩
    have hanswer := h.answer
    have htemplate : ∀ queue, templateContent queue (postKey p.n) (state ++ recordTail
        (p.c.box ++ nul :: pairStrings p.c.pairs) p.c.modula) = p.c.modula ++ [nul] := fun queue =>
      templateContent_eq hstate (by omega) (by omega) (by rw [hsecond]; exact h.number.2.2.not_gt)
    rw [htail]
    refine ⟨⟨_, (handOut_eq_some_iff hstate (by omega)).mpr ⟨by omega, rfl⟩, fun rest => ?_⟩,
      htemplate⟩
    have hread := (makeMailList_record (n := keyNumbers p.n) hbox (by omega) hpairs (by omega) rest
      _).mpr ⟨hfit, rfl⟩
    have htime : ¬ 3000000 < toUnsigned (keyNumbers p.n).1 := Nat.not_lt.mpr h.number.2.1
    rw [if_neg htime] at hread
    exact ⟨recordNode (keyNumbers p.n) p.c.box p.c.pairs, hread, rfl, rfl, hvars⟩

/-- Three numbers are read whatever their variables held. -/
theorem scanID_eq {n₀ n₁ n₂ : Int} {u v w sLine : Text}
    (h₀ : scanInt (cstr sLine) = some (n₀, '.' :: u)) (h₁ : scanInt u = some (n₁, '.' :: v))
    (h₂ : scanInt v = some (n₂, w)) (g : Int × Int × Int) : scanID g sLine = (n₀, n₁, n₂) := by
  unfold scanID
  simp only [h₀, h₁, h₂]

/-- A post of one variable; `eol` ends the line of the names. -/
def samplePostText (eol : Text) : Text :=
  "<$ID>\n1.2.3\n</$ID>\n<$MODULA>\nhi</$MODULA>\n<$MAILLIST>\nmail,name".toList ++ eol
    ++ "a@b.c,x\n</$MAILLIST>\n".toList

theorem isSome_sampleSections (crlf : Bool) :
    (sections (cstr (samplePostText (if crlf then ['\r', '\n'] else ['\n'])))).isSome = true := by
  cases crlf <;> decide +kernel

def sampleSections (crlf : Bool) : Sections := (sections _).get (isSome_sampleSections crlf)

def samplePost (crlf : Bool) : Post where
  text := samplePostText (if crlf then ['\r', '\n'] else ['\n'])
  n := (1, 2, 3)
  c := sampleSections crlf
  fits := by cases crlf <;> decide
  found := (Option.some_get _).symm
  number := by
    refine scanID_eq (u := (cstr (sampleSections crlf).sID).drop 2)
      (v := (cstr (sampleSections crlf).sID).drop 4)
      (w := (cstr (sampleSections crlf).sID).drop 5) ?_ ?_ ?_ <;> cases crlf <;> decide +kernel

/-- A `\r` behind the names hides the line of the mailbox: nothing is stored. -/
theorem crlf_not_stored : ¬ ∀ (p : Post) (heap : Nat → Char) (tTime : Int) (g : Int × Int)
    (nResultSize nResultLeng : Nat), p.c.values.length ≤ p.c.names.length →
      p.Survives heap tTime g nResultSize nResultLeng := by
  intro h
  obtain ⟨data, hput, -⟩ := h (samplePost true) (fun _ => nul) 0 (0, 0) 10240 17 (by decide +kernel)
  have hnothing : postPackage (fun _ => nul) 0 (0, 0) (samplePost true).text = some none := by
    decide +kernel
  rw [hnothing] at hput
  cases hput

end Edm.Maillist
