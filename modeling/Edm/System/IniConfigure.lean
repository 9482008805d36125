import Edm.Protocolbuf.Path
import Edm.System.IniFile

/-!
# System — IniConfigure

`IniConfigureParser::loadFromLineStream`: the lines of a configuration file become sections and
values in a `ProtocolVariant`.

* `Shows`: what is kept in a configuration, but for its sections.
* `Shows.enter`, `Shows.put`: what a section and an entry do to it.
* `Shows.load`: **what is kept after a file is what the file has written**, in its order.
-/

namespace Edm.System
open Support Protocolbuf Protocolbuf.Variant
open Edm.Stream (ReadLineStream)

/-! ### The code -/

/-- `StringTokenizer::getNext` with one character between the tokens. -/
def getNextToken (chDelimiter : Char) (src : Text) : Option (Text × Text) :=
  let src := src.dropWhile (· == chDelimiter)
  let strToken := src.takeWhile (· != chDelimiter)
  if strToken.isEmpty then none else some (strToken, src.dropWhile (· != chDelimiter))

theorem length_getNextToken {chDelimiter : Char} {src strToken rest : Text}
    (h : getNextToken chDelimiter src = some (strToken, rest)) : rest.length < src.length := by
  obtain ⟨hne, h⟩ := Option.ite_none_left_eq_some.mp h
  obtain ⟨rfl, rfl⟩ := Prod.mk.inj (Option.some.inj h)
  have hpos := List.length_pos_of_ne_nil (mt List.isEmpty_iff.mpr hne)
  have hsplit := congrArg List.length (List.takeWhile_append_dropWhile
    (p := (· != chDelimiter)) (l := src.dropWhile (· == chDelimiter)))
  have hdrop := (List.dropWhile_sublist (· == chDelimiter) (l := src)).length_le
  rw [List.length_append] at hsplit
  omega

/-- `while ( tokenSection.getNext(strSectionName, '/') )`. -/
def sectionNames (src : Text) : List Text :=
  match _h : getNextToken '/' src with
  | none => []
  | some (strToken, rest) => strToken :: sectionNames rest
termination_by src.length
decreasing_by exact length_getNextToken _h

/-- What `loadFromLineStream` keeps: the configuration, and the keys that lead to the section on top
of the stack. -/
structure IniLoading where
  varIniConfigure : Variant
  vecCurrentSectionStack : List Bytes

namespace IniLoading

/-- `vecCurrentSectionStack.back()`. -/
def varLastSection (st : IniLoading) : Option Variant :=
  st.vecCurrentSectionStack.foldlM (fun (v : Variant) k => v.find k) st.varIniConfigure

/-- A section is opened in the last one. -/
def enter (st : IniLoading) (strSectionName : Bytes) : IniLoading :=
  { varIniConfigure :=
      if (st.varLastSection.bind (·.find strSectionName)).isNone then
        st.varIniConfigure.modify (fun v => v.toSection.add strSectionName .null)
          st.vecCurrentSectionStack
      else st.varIniConfigure
    vecCurrentSectionStack := st.vecCurrentSectionStack ++ [strSectionName] }

/-- A value is added to the last section. -/
def put (st : IniLoading) (strKey strValue : Bytes) : IniLoading :=
  { st with
    varIniConfigure := st.varIniConfigure.modify (fun v => v.toSection.add strKey (.string strValue))
      st.vecCurrentSectionStack }

/-- The names of a section, from the top. -/
def openSection (st : IniLoading) (names : List Text) : IniLoading :=
  names.foldl (fun st n => st.enter (textBytes n)) { st with vecCurrentSectionStack := [] }

end IniLoading

/-- What `loadFromLineStream` does with the key and the value of a line. -/
def IniConfigureParser.loadKey (p : IniConfigureParser) (st : IniLoading)
    (strLine strKey strValue : Text) : Except IniParserException IniLoading :=
  match strKey with
  | [] => .ok st
  | c :: s =>
      if c = '[' then
        if (findTheEnd ']' s).2.isEmpty && !p.bSkipError then
          .error ("INI configure section line not match end symbol ']': ".toList ++ strLine)
        else .ok (st.openSection (sectionNames (findTheEnd ']' s).1))
      else .ok (st.put (textBytes strKey) (textBytes strValue))

/-- What `loadFromLineStream` does with a line. -/
def IniConfigureParser.loadLine (p : IniConfigureParser) (st : IniLoading) (strLine : Text) :
    Except IniParserException IniLoading := do
  match ← p.parseLine strLine with
  | none => return st
  | some (strKey, strValue, _) => p.loadKey st strLine strKey strValue

/-- The results of `readLine` up to the first `false`, in `fuel` calls at most. -/
def readLines : Nat → ReadLineStream → Option (List Text)
  | 0, _ => none
  | fuel + 1, st =>
      st.readLine.bind fun
        | (none, _) => some []
        | (some l, st') => (readLines fuel st').map (l.1 :: ·)

/-- `loadFromLineStream`. -/
def IniConfigureParser.loadFromLineStream (p : IniConfigureParser) (lineStream : ReadLineStream)
    (varIniConfigure : Variant) : Option (Except IniParserException Variant) :=
  -- one call more than there are bytes
  (readLines (lineStream.nDataSize + lineStream.feed.flatten.length + 1) lineStream).map fun ls =>
    ((iniLines ls).foldlM p.loadLine ⟨varIniConfigure, []⟩).map IniLoading.varIniConfigure

/-- `loadFromStream`, with a buffer whose content does not matter. -/
def IniConfigureParser.loadFromStream (p : IniConfigureParser) (inputStream : List Text)
    (lpBuffer : Text) (varIniConfigure : Variant) : Option (Except IniParserException Variant) :=
  p.loadFromLineStream (.create inputStream lpBuffer) varIniConfigure

/-! ### The names of a section -/

theorem sectionNames_eq (src : Text) : sectionNames src
    = (getNextToken '/' src).elim [] fun p => p.1 :: sectionNames p.2 := by
  rw [sectionNames]
  split
  next h => rw [h]; rfl
  next h => rw [h]; rfl

theorem sectionNames_slash (s : Text) : sectionNames ('/' :: s) = sectionNames s := by
  rw [sectionNames_eq, sectionNames_eq s]
  rfl

/-- A name, and the slash behind it. -/
theorem sectionNames_name {n rest : Text} (hne : n ≠ []) (hn : '/' ∉ n)
    (hrest : ∀ c ∈ rest.head?, c = '/') : sectionNames (n ++ rest) = n :: sectionNames rest := by
  have hhead : (n ++ rest).dropWhile (· == '/') = n ++ rest := by
    obtain ⟨c, s, rfl⟩ := List.exists_cons_of_ne_nil hne
    have hc : c ≠ '/' := fun h => hn (h ▸ List.mem_cons_self)
    rw [List.cons_append, List.dropWhile_cons_of_neg (by simpa using hc)]
  obtain ⟨htake, hdrop⟩ := takeWhile_run (p := (· != '/'))
    (fun c hc => by simpa using ne_of_mem_of_not_mem hc hn) fun c hc => by simpa using hrest c hc
  have hempty : n.isEmpty = false := by simpa using hne
  rw [sectionNames_eq, getNextToken, hhead, htake, hdrop, hempty]
  rfl

theorem sectionNames_pathText {names : List Text} (h : ∀ n ∈ names, n ≠ [] ∧ '/' ∉ n) :
    sectionNames (pathText names) = names := by
  induction names with
  | nil =>
      rw [sectionNames_eq]
      rfl
  | cons n names ih =>
      obtain ⟨⟨hne, hn⟩, hnames⟩ := List.forall_mem_cons.mp h
      cases names with
      | nil =>
          have hone : sectionNames (n ++ []) = n :: sectionNames [] :=
            sectionNames_name hne hn (by simp)
          rw [List.append_nil] at hone
          rw [pathText, List.intercalate_singleton, hone, sectionNames_eq]
          rfl
      | cons m ms =>
          have hpath : pathText (n :: m :: ms) = n ++ '/' :: pathText (m :: ms) := by
            rw [pathText, List.intercalate_cons_cons, List.append_assoc]
            rfl
          rw [hpath, sectionNames_name hne hn (by simp), sectionNames_slash, ih hnames]

/-! ### What is kept in a configuration -/

/-- What is kept for values under one path. -/
def collected : List Bytes → Option Variant
  | [] => none
  | [s] => some (.string s)
  | ss => some (.array (ss.map .string))

theorem appended_collected (ss : List Bytes) (s : Bytes) :
    some (appended (.string s) (collected ss)) = collected (ss ++ [s]) := by
  rcases ss with - | ⟨s₁, - | ⟨s₂, ss⟩⟩
  · rfl
  · rfl
  · simp [collected, appended, convertToArray]

/-- There is nothing below values. -/
theorem node_collected (ss : List Bytes) (k : Bytes) (ks : List Bytes) :
    (collected ss).bind (node (k :: ks)) = none := by
  rcases ss with - | ⟨s₁, - | ⟨s₂, ss⟩⟩
  · rfl
  · rfl
  · rfl

theorem node_appended (x : Bytes) (ss : List Bytes) (k : Bytes) (ks : List Bytes) :
    node (k :: ks) (appended (.string x) (collected ss)) = none := by
  rw [← Option.bind_some (appended _ _) (node (k :: ks)), appended_collected, node_collected]

/-- The sections that were opened, and what is kept at the other paths: the values that were
written there. -/
structure Shows (v : Variant) (opened : List Bytes → Prop) (vals : List Bytes → List Bytes) :
    Prop where
  isConfig : IsConfig v
  root : opened []
  kept : ∀ ks, (∀ s, opened s → ¬ ranks ks <+: ranks s) → node ks v = collected (vals ks)

/-- The section on top of the stack is there. -/
def IniLoading.Ready (st : IniLoading) : Prop :=
  IsConfig st.varIniConfigure ∧ (node st.vecCurrentSectionStack st.varIniConfigure).isSome

section Sections
variable {st : IniLoading} (hst : st.Ready)
include hst

theorem IniLoading.find_eq (name : Bytes) : st.varLastSection.bind (·.find name)
    = node (st.vecCurrentSectionStack ++ [name]) st.varIniConfigure := by
  have hfind := foldlM_find hst.1 true (st.vecCurrentSectionStack ++ [name])
  rw [List.foldlM_append] at hfind
  rw [← hfind]
  simp [varLastSection, Variant.find]

/-- A section is opened: it is there, and what is kept at other paths stays. -/
theorem IniLoading.enter_spec (name : Bytes) : (st.enter name).Ready ∧
    ∀ ks, ¬ ranks ks <+: ranks (st.vecCurrentSectionStack ++ [name]) →
      node ks (st.enter name).varIniConfigure = node ks st.varIniConfigure := by
  have hbelow := node_modify_add hst.1 name (x := .null) st.vecCurrentSectionStack
  have hother := node_append st.vecCurrentSectionStack [name] st.varIniConfigure
  cases hfound : node (st.vecCurrentSectionStack ++ [name]) st.varIniConfigure with
  | some x =>
      have henter : st.enter name = ⟨st.varIniConfigure, st.vecCurrentSectionStack ++ [name]⟩ := by
        rw [enter, find_eq hst, hfound]
        rfl
      rw [henter]
      exact ⟨⟨hst.1, Option.isSome_iff_exists.mpr ⟨x, hfound⟩⟩, fun _ _ => rfl⟩
  | none =>
      have henter : st.enter name = ⟨st.varIniConfigure.modify (fun v => v.toSection.add name .null)
          st.vecCurrentSectionStack, st.vecCurrentSectionStack ++ [name]⟩ := by
        rw [enter, find_eq hst, hfound]
        rfl
      rw [henter]
      obtain ⟨y, hy⟩ := Option.isSome_iff_exists.mp hst.2
      rw [hfound, hy, Option.bind_some] at hother
      refine ⟨⟨.modify hst.1 (fun x hx => hx.add name .null) _, ?_⟩, fun ks hks => ?_⟩
      · rw [hbelow [], hy]
        rfl
      · by_cases hkey : ranks (st.vecCurrentSectionStack ++ [name]) <+: ranks ks
        · obtain ⟨rest, hrest⟩ := exists_append_of_prefix hkey
          have hold : node ks st.varIniConfigure = none := by
            rw [node_congr hrest, node_append, hfound]
            rfl
          rw [hold, node_congr hrest, List.append_assoc, List.singleton_append, hbelow, hy,
            Option.bind_some, ← hother]
          cases rest with
          | nil => exact absurd (by rw [hrest, List.append_nil]) hks
          | cons k rest => rfl
        · exact node_modify_add_other hst.1 name hks hkey

/-- All the names of a section. -/
theorem IniLoading.foldl_enter (names : List Text) :
    let st' := names.foldl (fun st n => st.enter (textBytes n)) st
    st'.Ready ∧ st'.vecCurrentSectionStack = st.vecCurrentSectionStack ++ names.map textBytes ∧
      ∀ ks, ¬ ranks ks <+: ranks (st.vecCurrentSectionStack ++ names.map textBytes) →
        node ks st'.varIniConfigure = node ks st.varIniConfigure := by
  induction names generalizing st with
  | nil => exact ⟨hst, (List.append_nil _).symm, fun _ _ => rfl⟩
  | cons n names ih =>
      obtain ⟨henter, hkept⟩ := enter_spec hst (textBytes n)
      obtain ⟨hready, hstack, hrest⟩ := ih henter
      have hpath : (st.enter (textBytes n)).vecCurrentSectionStack ++ names.map textBytes
          = st.vecCurrentSectionStack ++ (n :: names).map textBytes :=
        List.append_assoc ..
      rw [hpath] at hstack hrest
      refine ⟨hready, hstack, fun ks hks => ?_⟩
      rw [List.foldl_cons, hrest ks hks]
      refine hkept ks fun h => hks (h.trans (List.IsPrefix.map nocaseRank ?_))
      rw [List.map_cons, List.prefix_append_right_inj]
      exact List.prefix_append [_] _

end Sections

section Steps
variable {st : IniLoading} {opened : List Bytes → Prop} {vals : List Bytes → List Bytes}
  (hshows : Shows st.varIniConfigure opened vals)
include hshows

theorem Shows.openSection (names : List Text) : (st.openSection names).Ready ∧
    (st.openSection names).vecCurrentSectionStack = names.map textBytes ∧
      Shows (st.openSection names).varIniConfigure (fun s => opened s ∨ s = names.map textBytes)
        vals := by
  have htop : IniLoading.Ready { st with vecCurrentSectionStack := [] } := ⟨hshows.isConfig, rfl⟩
  obtain ⟨hready, hstack, hkept⟩ := IniLoading.foldl_enter htop names
  refine ⟨hready, hstack, hready.1, .inl hshows.root, fun ks hks => ?_⟩
  rw [← hshows.kept ks fun s hs => hks s (.inl hs)]
  exact hkept ks (hks _ (.inr rfl))

theorem Shows.put (hst : st.Ready) (hopened : opened st.vecCurrentSectionStack) {k s : Bytes}
    (hfree : ∀ p, opened p → ¬ ranks (st.vecCurrentSectionStack ++ [k]) <+: ranks p) :
    (st.put k s).Ready ∧ Shows (st.put k s).varIniConfigure opened fun ks =>
      vals ks ++ if ranks (st.vecCurrentSectionStack ++ [k]) = ranks ks then [s] else [] := by
  have hbelow := node_modify_add hst.1 k (x := .string s) st.vecCurrentSectionStack
  have hconfig : IsConfig (st.put k s).varIniConfigure :=
    .modify hst.1 (fun x hx => hx.add k (.string s)) _
  obtain ⟨y, hy⟩ := Option.isSome_iff_exists.mp hst.2
  have hkey := node_append st.vecCurrentSectionStack [k] st.varIniConfigure
  rw [hy, Option.bind_some, hshows.kept _ hfree] at hkey
  refine ⟨⟨hconfig, ?_⟩, hconfig, hshows.root, fun ks hks => ?_⟩
  · have hnode := node_modify (f := fun v => v.toSection.add k (.string s)) hst.1
      st.vecCurrentSectionStack []
    rw [List.append_nil, hy] at hnode
    exact Option.isSome_iff_exists.mpr ⟨_, hnode⟩
  · by_cases hpre : ranks (st.vecCurrentSectionStack ++ [k]) <+: ranks ks
    · obtain ⟨rest, hrest⟩ := exists_append_of_prefix hpre
      have hold := hshows.kept ks hks
      have hnew : node ks (st.put k s).varIniConfigure
          = node rest (appended (.string s) (node [k] y)) := by
        rw [node_congr hrest, List.append_assoc]
        refine (hbelow rest).trans ?_
        rw [hy, Option.bind_some]
      cases rest with
      | nil =>
          rw [List.append_nil] at hrest
          rw [if_pos hrest.symm, hnew, ← hkey, ← hshows.kept _ hfree, ← node_congr hrest, hold,
            ← appended_collected]
          rfl
      | cons k' rest =>
          have hne : ranks (st.vecCurrentSectionStack ++ [k]) ≠ ranks ks := fun h => by
            have hlen := congrArg List.length (h.trans hrest)
            simp [ranks] at hlen
          rw [node_congr hrest, node_append, hshows.kept _ hfree, node_collected] at hold
          rw [if_neg hne, List.append_nil, ← hold, hnew, ← hkey, node_appended]
    · have hne : ranks (st.vecCurrentSectionStack ++ [k]) ≠ ranks ks := fun h => by
        rw [h] at hpre
        exact hpre (List.prefix_refl _)
      rw [if_neg hne, List.append_nil, ← hshows.kept ks hks]
      refine node_modify_add_other hst.1 k (fun h => ?_) hpre
      rw [ranks_append] at h hne
      rcases List.prefix_concat_iff.mp h with h | h
      · exact hne h.symm
      · exact hks _ hopened h

end Steps

/-! ### What a file has written -/

/-- Keys as bytes. -/
def pathBytes (names : List Text) : List Bytes := names.map textBytes

/-- The sections of a file. -/
def Item.sections : List Item → List (List Text)
  | [] => []
  | .section s _ _ :: items => s.names :: sections items
  | _ :: items => sections items

/-- The entries of a file, each with its path; those in front are in `strSection`. -/
def Item.written (strSection : List Text) : List Item → List (List Text × Text)
  | [] => []
  | .section s _ _ :: items => written s.names items
  | .entry e _ _ :: items => (strSection ++ [e.key], e.value) :: written strSection items
  | _ :: items => written strSection items

/-- The values that are written under a path, in their order. -/
def textsAt (ws : List (List Text × Text)) (ks : List Bytes) : List Text :=
  (ws.filter fun e => ranks (pathBytes e.1) = ranks ks).map Prod.snd

/-- The values as they are kept. -/
def valuesAt (ws : List (List Text × Text)) (ks : List Bytes) : List Bytes :=
  (textsAt ws ks).map textBytes

@[simp] theorem valuesAt_nil (ks : List Bytes) : valuesAt [] ks = [] := rfl

theorem valuesAt_cons (e : List Text × Text) (ws : List (List Text × Text)) (ks : List Bytes) :
    valuesAt (e :: ws) ks = (if ranks (pathBytes e.1) = ranks ks then [textBytes e.2] else [])
      ++ valuesAt ws ks := by
  rw [valuesAt, textsAt, List.filter_cons]
  by_cases h : ranks (pathBytes e.1) = ranks ks
  · rw [if_pos (decide_eq_true h), if_pos h]
    rfl
  · rw [if_neg (by simpa using h), if_neg h]
    rfl

section Lines
variable (p : IniConfigureParser) (st : IniLoading)

theorem loadLine_comment {t : Text} (ht : IsComment t) : p.loadLine st t = .ok st := by
  rw [IniConfigureParser.loadLine, parseLine_comment p ht]
  rfl

theorem loadLine_section (s : SectionLine) :
    p.loadLine st s.line = .ok (st.openSection s.names) := by
  have hnames : sectionNames (pathText s.names) = s.names :=
    sectionNames_pathText fun n hn => ⟨(s.areNames n hn).1, (s.areNames n hn).2.2.1⟩
  have hhead : s.head = '[' :: s.head.drop 1 := rfl
  have hkey : p.loadKey st s.line s.head [] = .ok (st.openSection s.names) := by
    rw [hhead, IniConfigureParser.loadKey, if_pos rfl, findTheEnd_section, hnames]
    rfl
  rw [IniConfigureParser.loadLine, parseLine_section]
  exact hkey

theorem loadLine_entry (e : Entry) :
    p.loadLine st e.line = .ok (st.put (textBytes e.key) (textBytes e.value)) := by
  have hkey : p.loadKey st e.line e.key e.value
      = .ok (st.put (textBytes e.key) (textBytes e.value)) := by
    have hhead := e.isKey.2.2.2
    obtain ⟨c, s, hs⟩ := List.exists_cons_of_ne_nil e.ne_nil
    rw [hs] at hhead ⊢
    rw [IniConfigureParser.loadKey, if_neg (by simpa using hhead)]
  rw [IniConfigureParser.loadLine, parseLine_entry]
  exact hkey

variable {st} in
theorem foldlM_line {item : Item} {line : Text} (hitem : item.line? = some line) {st' : IniLoading}
    (hline : p.loadLine st line = .ok st') (items : List Item) :
    ((item :: items).filterMap Item.line?).foldlM p.loadLine st
      = (items.filterMap Item.line?).foldlM p.loadLine st' := by
  rw [List.filterMap_cons_some hitem, List.foldlM_cons, hline]
  rfl

end Lines

/-- What is kept after the items of a file: the values that were written in it come behind the
others. -/
theorem Shows.load (p : IniConfigureParser) {items : List Item} {st : IniLoading}
    {opened : List Bytes → Prop} {vals : List Bytes → List Bytes} {strSection : List Text}
    (hshows : Shows st.varIniConfigure opened vals) (hst : st.Ready)
    (hstack : st.vecCurrentSectionStack = pathBytes strSection) (hopened : opened (pathBytes strSection))
    (hfree : ∀ e ∈ Item.written strSection items, ∀ s,
      opened s ∨ s ∈ (Item.sections items).map pathBytes → ¬ ranks (pathBytes e.1) <+: ranks s) :
    ∃ st', (items.filterMap Item.line?).foldlM p.loadLine st = .ok st' ∧
      Shows st'.varIniConfigure (fun s => opened s ∨ s ∈ (Item.sections items).map pathBytes)
        fun ks => vals ks ++ valuesAt (Item.written strSection items) ks := by
  induction items generalizing st opened vals strSection with
  | nil =>
      refine ⟨st, rfl, hshows.isConfig, .inl hshows.root, fun ks hks => ?_⟩
      exact (hshows.kept ks fun s hs => hks s (.inl hs)).trans (by simp [Item.written])
  | cons item items ih =>
      cases item with
      | blank b _ => exact ih hshows hst hstack hopened hfree
      | comment t ht _ _ _ =>
          obtain ⟨st', hload, hshows'⟩ := ih hshows hst hstack hopened hfree
          refine ⟨st', ?_, hshows'⟩
          exact (foldlM_line p rfl (loadLine_comment p st ht) items).trans hload
      | «section» s ht f =>
          obtain ⟨hready, hnames, hsection⟩ := hshows.openSection s.names
          have hsame : ∀ s', (opened s' ∨ s' = pathBytes s.names)
              ∨ s' ∈ (Item.sections items).map pathBytes
                ↔ opened s' ∨ s' ∈ (Item.sections (.section s ht f :: items)).map pathBytes := by
            intro s'
            rw [Item.sections, List.map_cons, List.mem_cons, or_assoc]
          obtain ⟨st', hload, hshows'⟩ := ih hsection hready hnames (.inr rfl)
            fun e he s' hs' => hfree e he s' ((hsame s').mp hs')
          refine ⟨st', ?_, hshows'.isConfig, .inl hshows.root, fun ks hks => ?_⟩
          · exact (foldlM_line p rfl (loadLine_section p st s) items).trans hload
          · exact hshows'.kept ks fun s' hs' => hks s' ((hsame s').mp hs')
      | entry e _ _ =>
          obtain ⟨hfirst, hrest⟩ := List.forall_mem_cons.mp hfree
          have hpath : pathBytes (strSection ++ [e.key])
              = st.vecCurrentSectionStack ++ [textBytes e.key] := by
            rw [hstack, pathBytes, List.map_append]
            rfl
          obtain ⟨hready, hput⟩ := hshows.put hst (hstack ▸ hopened) (s := textBytes e.value)
            fun s hs => hpath ▸ hfirst s (.inl hs)
          obtain ⟨st', hload, hshows'⟩ := ih hput hready hstack hopened hrest
          refine ⟨st', ?_, hshows'.isConfig, hshows'.root, fun ks hks => ?_⟩
          · exact (foldlM_line p rfl (loadLine_entry p st e) items).trans hload
          · rw [hshows'.kept ks hks, Item.written, valuesAt_cons, hpath, List.append_assoc]

/-! ### Reading the file -/

theorem readLines_reads {st : ReadLineStream} {ls : List (Text × Text)} (h : st.Reads ls)
    {fuel : Nat} (hfuel : ls.length < fuel) : readLines fuel st = some (ls.map Prod.fst) := by
  induction h generalizing fuel with
  | stop h =>
      obtain ⟨fuel, rfl⟩ := Nat.exists_eq_add_one_of_ne_zero (Nat.ne_zero_of_lt hfuel)
      rw [readLines, h]
      rfl
  | next h _ ih =>
      obtain ⟨fuel, rfl⟩ := Nat.exists_eq_add_one_of_ne_zero (Nat.ne_zero_of_lt hfuel)
      rw [readLines, h, Option.bind_some]
      dsimp only
      rw [ih (Nat.lt_of_succ_lt_succ hfuel)]
      rfl

/-- A file that is written by the rules, as it comes from its stream. -/
structure ConfigureText (lpBuffer : Text) where
  items : List Item
  lines : List (Text × Text)
  lines_eq : lines.map Prod.fst = items.flatMap Item.rows
  inLine : ∀ l ∈ lines, InLine l.1
  ended : EndedRows lines
  fits : ∀ l ∈ lines, l.1.length + l.2.length < lpBuffer.length
  feed : List Text
  pieces : ∀ p ∈ feed, p ≠ []
  feed_eq : feed.flatten = (lines.map fun l => l.1 ++ l.2).flatten

/-- **What is kept after a file**: the values that were written in it come behind the others. -/
theorem Shows.loadFromStream (p : IniConfigureParser) {lpBuffer : Text} (f : ConfigureText lpBuffer)
    {v : Variant} {opened : List Bytes → Prop} {vals : List Bytes → List Bytes}
    (hshows : Shows v opened vals)
    (hfree : ∀ e ∈ Item.written [] f.items, ∀ s,
      opened s ∨ s ∈ (Item.sections f.items).map pathBytes → ¬ ranks (pathBytes e.1) <+: ranks s) :
    ∃ v', p.loadFromStream f.feed lpBuffer v = some (.ok v') ∧
      Shows v' (fun s => opened s ∨ s ∈ (Item.sections f.items).map pathBytes)
        fun ks => vals ks ++ valuesAt (Item.written [] f.items) ks := by
  have hreads := reads_rows f.inLine f.ended f.pieces f.feed_eq f.fits
  have hfew : f.lines.length < 0 + f.feed.flatten.length + 1 := by
    have hle := f.ended.length_le
    rw [f.feed_eq]
    omega
  have hready : IniLoading.Ready ⟨v, []⟩ := ⟨hshows.isConfig, rfl⟩
  obtain ⟨st, hload, hshows'⟩ := Shows.load p hshows hready rfl hshows.root hfree
  refine ⟨st.varIniConfigure, ?_, hshows'⟩
  have hlines := readLines_reads hreads hfew
  rw [IniConfigureParser.loadFromStream, IniConfigureParser.loadFromLineStream]
  dsimp only [ReadLineStream.create] at hlines ⊢
  rw [hlines, Option.map_some, f.lines_eq, iniLines_items, hload]
  rfl

end Edm.System
