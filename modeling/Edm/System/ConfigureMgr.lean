import Edm.System.IniConfigure

/-!
# System — ConfigureMgr

The configuration of a service (`cpplib/application/configuremgr.cpp`): each of its files is kept
under the name of the file, and what stands in `hosts` for the local host goes before what stands for
all.

* `ConfigureMgr.Holds`: the sections of the files, and the values that they have written.
* `Holds.loadConfFile`: one more file.
* `getString_written`: **what is asked for is what the files have written**, in its order, and the
  host's own where there is one.
-/

namespace Edm.System
open Support Base Protocolbuf Protocolbuf.Variant

/-! ### The code -/

/-- What is thrown, each with its text. -/
inductive ConfigureError where
  | iniParserException (text : Text)
  | configureException (text : Text)
  | protocalVarException (text : Text)
  | protocalVarTypeException (text : Text)

/-- `ConfigureMgr`. -/
structure ConfigureMgr where
  m_varAllConf : Variant
  m_bOverloaded : Bool
  m_strLocalHostID : Text

/-- A file of the configuration; there are no pieces when it cannot be opened. -/
structure ConfFile where
  strFullPath : Text
  pieces : Option (List Text)

/-- The key of a file: its name, without its postfix. -/
def confKey (strFullPath : Text) : Text :=
  let strKey := (strFullPath.reverse.takeWhile fun c => c != '/' && c != '\\').reverse
  if '.' ∈ strKey then ((strKey.reverse.dropWhile (· != '.')).drop 1).reverse else strKey

/-- The text of bytes. -/
def bytesText (s : Bytes) : Text := s.map fun b => Char.ofNat b.toNat

/-- `lpszTypeString`. -/
def typeString : Variant → Text
  | .null => "[NUL]".toList
  | .bool _ => "[BOL]".toList
  | .int32 _ => "[INT32]".toList
  | .int64 _ => "[INT64]".toList
  | .double _ => "[DOUBLE]".toList
  | .dateTime => "[DATETIME]".toList
  | .string _ => "[STR]".toList
  | .charsetString _ => "[CSTR]".toList
  | .binary _ => "[BIN]".toList
  | .array _ => "[ARY]".toList
  | .intMap _ => "[INTMAP]".toList
  | .stringMap _ => "[STRMAP]".toList
  | .nocaseStringMap _ => "[NOCASESTRMAP]".toList

/-- `asString`, of a `const` value. -/
def asString : Variant → Except ConfigureError Text
  | .string s => .ok (bytesText s)
  | v => .error (.protocalVarTypeException
      ("Type not match, my:".toList ++ typeString v ++ ", request:[STR]".toList))

/-- `isNULL`. -/
def isNULL : Variant → Bool
  | .null => true
  | _ => false

/-- `isNocaseStringMap`. -/
def isNocaseStringMap : Variant → Bool
  | .nocaseStringMap _ => true
  | _ => false

/-- `arraySize` of a value. -/
def arraySizeOf : Variant → Nat
  | .array l => l.length
  | _ => 1

/-- `getArrayItem`. -/
def getArrayItem (v : Variant) (nIndex : Nat) : Except ConfigureError Variant :=
  let outOfBounds := ConfigureError.protocalVarException
    ("const ProtocolVariant::getArrayItem Out of bounds:".toList ++ Nat.toDigits 10 nIndex
      ++ '(' :: (Nat.toDigits 10 (arraySizeOf v) ++ [')']))
  match v with
  | .array l => l[nIndex]?.elim (.error outOfBounds) .ok
  | v => if nIndex = 0 then .ok v else .error outOfBounds

/-- The parser of `loadConfFile`, in its environment. -/
def confParser (getenv : Text → Option Text) : IniConfigureParser := ⟨true, true, getenv⟩

namespace ConfigureMgr

/-- `loadConfFile`. -/
def loadConfFile (getenv : Text → Option Text) (lpBuffer : Text) (mgr : ConfigureMgr) (f : ConfFile) :
    Option (Except ConfigureError (Bool × ConfigureMgr)) :=
  match f.pieces with
  | none => some (.ok (false, mgr))
  | some inputStream =>
      let strKey := textBytes (confKey f.strFullPath)
      let m_varAllConf := mgr.m_varAllConf.toSection.set strKey
      ((confParser getenv).loadFromStream inputStream lpBuffer
        ((m_varAllConf.find strKey).getD .null)).map fun
          | .error text => .error (.iniParserException text)
          | .ok v => .ok (true, { mgr with m_varAllConf := m_varAllConf.modify (fun _ => v) [strKey] })

/-- The loop of `loadAllConfFile`. -/
def loadConfFiles (getenv : Text → Option Text) (lpBuffer systemErrorInfo : Text)
    (mgr : ConfigureMgr) : List ConfFile → Option (Except ConfigureError ConfigureMgr)
  | [] => some (.ok mgr)
  | f :: files =>
      (mgr.loadConfFile getenv lpBuffer f).bind fun
        | .error e => some (.error e)
        | .ok (false, _) => some (.error (.configureException
            ("Load conf file ".toList ++ f.strFullPath ++ " error:".toList ++ systemErrorInfo)))
        | .ok (true, mgr) => mgr.loadConfFiles getenv lpBuffer systemErrorInfo files

/-- What `loadAllConfFile` does when the files are loaded. -/
def loadLocalHostID (mgr : ConfigureMgr) : Except ConfigureError ConfigureMgr :=
  match mgr.m_varAllConf.findByPath "/localhost/LocalhostID".toList false with
  | none => .ok mgr
  | some pVar => (asString pVar).map fun s => { mgr with m_strLocalHostID := s }

/-- `loadAllConfFile`, of the files that are found. -/
def loadAllConfFile (getenv : Text → Option Text) (lpBuffer systemErrorInfo : Text)
    (mgr : ConfigureMgr) (files : List ConfFile) : Option (Except ConfigureError ConfigureMgr) :=
  (mgr.loadConfFiles getenv lpBuffer systemErrorInfo files).map (·.bind loadLocalHostID)

variable (mgr : ConfigureMgr)

/-- `getHostConfigureFullPath`. -/
def getHostConfigureFullPath (strKey : Text) : Text :=
  "/hosts/".toList ++ mgr.m_strLocalHostID ++ '/' :: strKey

/-- `getSubItems`. -/
def getSubItems (strKey : Text) (bEnableOverloaded : Bool) : Variant :=
  if strKey.isEmpty then mgr.m_varAllConf
  else
    let pVar :=
      if bEnableOverloaded && mgr.m_bOverloaded then
        mgr.m_varAllConf.findByPath (mgr.getHostConfigureFullPath strKey) false
      else none
    let pVar := if pVar.all isNocaseStringMap then mgr.m_varAllConf.findByPath strKey false else pVar
    pVar.getD .null

/-- `getValue`. -/
def getValue (varValue : Variant) (nIndex : Nat) : Except ConfigureError (Option Text) :=
  if isNULL varValue || decide (nIndex ≥ arraySizeOf varValue) then .ok none
  else (getArrayItem varValue nIndex).bind fun v => (asString v).map some

/-- `getString`, which throws what `getValueException` throws. -/
def getString (strKey : Text) (nIndex : Nat) : Except ConfigureError Text :=
  (getValue (mgr.getSubItems strKey true) nIndex).bind fun
    | some strValue => .ok strValue
    | none => .error (.configureException ('[' :: (strKey
        ++ "] not found in configure, index:".toList ++ Nat.toDigits 10 nIndex)))

/-- `getString` with a default. -/
def getStringDefault (strDefault strKey : Text) (nIndex : Nat) : Except ConfigureError Text :=
  (getValue (mgr.getSubItems strKey true) nIndex).map fun strValue => strValue.getD strDefault

/-- `getDuplicatedValueList`. -/
def getDuplicatedValueList (strKey : Text) : Except ConfigureError (List Text) :=
  match mgr.getSubItems strKey true with
  | .string s => (asString (.string s)).map fun t => [t]
  | .array l => l.mapM asString
  | _ => .ok []

end ConfigureMgr

/-! ### Files that are written by the rules -/

/-- A file of the configuration that is written by the rules; the characters of its values are
bytes. -/
structure WrittenFile (lpBuffer : Text) extends ConfigureText lpBuffer where
  strFullPath : Text
  areBytes : ∀ e ∈ Item.written [] items, ∀ c ∈ e.2, c.toNat < 256

namespace WrittenFile
variable {lpBuffer : Text} (f : WrittenFile lpBuffer)

def toConfFile : ConfFile := ⟨f.strFullPath, some f.feed⟩

/-- The key of the file. -/
abbrev strKey : Bytes := textBytes (confKey f.strFullPath)

/-- What stands before every path of the file. -/
def under (path : List Text) : List Text := confKey f.strFullPath :: path

/-- The sections of a file, and the file itself. -/
def sections : List (List Text) := f.under [] :: (Item.sections f.items).map f.under

/-- The entries of a file, each with its path. -/
def written : List (List Text × Text) := (Item.written [] f.items).map (Prod.map f.under id)

theorem pathBytes_under (path : List Text) :
    pathBytes (f.under path) = f.strKey :: pathBytes path := rfl

theorem valuesAt_under (ws : List (List Text × Text)) (k : Bytes) (ks : List Bytes) :
    valuesAt (ws.map (Prod.map f.under id)) (k :: ks)
      = if nocaseRank f.strKey = nocaseRank k then valuesAt ws ks else [] := by
  induction ws with
  | nil => simp
  | cons e ws ih =>
      have hpath : ranks (pathBytes (f.under e.1)) = ranks (k :: ks) ↔
          nocaseRank f.strKey = nocaseRank k ∧ ranks (pathBytes e.1) = ranks ks := by
        rw [f.pathBytes_under, ranks, ranks, List.map_cons, List.map_cons, List.cons.injEq]
        rfl
      rw [List.map_cons, valuesAt_cons, ih, valuesAt_cons, Prod.map_fst, Prod.map_snd]
      by_cases hk : nocaseRank f.strKey = nocaseRank k
      · simp only [hpath, hk, true_and, if_true, id]
      · simp only [hpath, hk, false_and, if_false, List.append_nil]

end WrittenFile

theorem valuesAt_append (ws ws' : List (List Text × Text)) (ks : List Bytes) :
    valuesAt (ws ++ ws') ks = valuesAt ws ks ++ valuesAt ws' ks := by
  rw [valuesAt, textsAt, List.filter_append, List.map_append, List.map_append]
  rfl

theorem valuesAt_congr (ws : List (List Text × Text)) {ks ks' : List Bytes}
    (h : ranks ks = ranks ks') : valuesAt ws ks = valuesAt ws ks' := by
  rw [valuesAt, valuesAt, textsAt, textsAt, h]

/-- What a manager keeps: the values that were written, at the paths that are no section. -/
def ConfigureMgr.Holds (mgr : ConfigureMgr) (sections : List (List Text))
    (ws : List (List Text × Text)) : Prop :=
  Shows mgr.m_varAllConf (· ∈ sections.map pathBytes) (valuesAt ws)

section Load
variable {mgr : ConfigureMgr} {sections : List (List Text)} {ws : List (List Text × Text)}
  (hholds : mgr.Holds sections ws) {lpBuffer : Text} (f : WrittenFile lpBuffer)
include hholds

/-- What is kept under the key of a file before it is loaded. -/
theorem ConfigureMgr.Holds.under {v : Variant}
    (hv : node [f.strKey] (mgr.m_varAllConf.toSection.set f.strKey) = some v) :
    Shows v (fun s => s = [] ∨ ∃ k, nocaseRank k = nocaseRank f.strKey ∧
        k :: s ∈ sections.map pathBytes)
      fun ks => valuesAt ws (f.strKey :: ks) := by
  obtain ⟨hconfig, -, hkept⟩ := set_spec hholds.isConfig f.strKey
  refine ⟨hconfig.find hv, .inl rfl, fun ks hks => ?_⟩
  have hne : ks ≠ [] := by
    rintro rfl
    exact hks [] (.inl rfl) List.nil_prefix
  have hnode := node_append [f.strKey] ks (mgr.m_varAllConf.toSection.set f.strKey)
  rw [hv, Option.bind_some] at hnode
  rw [← hnode, ← hholds.kept _ fun s hs h => ?_]
  · exact hkept _ ks fun _ => hne
  · cases s with
    | nil => exact List.cons_ne_nil _ _ (List.prefix_nil.mp h)
    | cons k s =>
        obtain ⟨hk, h⟩ := ranks_cons_iff.mp h
        exact hks s (.inr ⟨k, hk.symm, hs⟩) h

omit hholds in
/-- A section of what is under the key of the file is a section under that key. -/
theorem WrittenFile.exists_section {ks s : List Bytes}
    (hs : (s = [] ∨ ∃ k, nocaseRank k = nocaseRank f.strKey ∧ k :: s ∈ sections.map pathBytes) ∨
      s ∈ (Item.sections f.items).map pathBytes) (hpre : ranks ks <+: ranks s) :
    ∃ s' ∈ (sections ++ f.sections).map pathBytes, ranks (f.strKey :: ks) <+: ranks s' := by
  have hown : ∀ path ∈ [] :: Item.sections f.items, f.under path ∈ sections ++ f.sections :=
    fun path hpath => List.mem_append_right _ (List.mem_map_of_mem hpath)
  rcases hs with (rfl | ⟨k, hk, hs⟩) | hs
  · exact ⟨_, List.mem_map_of_mem (hown [] List.mem_cons_self), ranks_cons_iff.mpr ⟨rfl, hpre⟩⟩
  · rw [List.map_append]
    exact ⟨_, List.mem_append_left _ hs, ranks_cons_iff.mpr ⟨hk.symm, hpre⟩⟩
  · obtain ⟨path, hpath, rfl⟩ := List.mem_map.mp hs
    exact ⟨_, List.mem_map_of_mem (hown path (List.mem_cons_of_mem _ hpath)),
      ranks_cons_iff.mpr ⟨rfl, hpre⟩⟩

/-- One more file. -/
theorem ConfigureMgr.Holds.loadConfFile (getenv : Text → Option Text)
    (hfree : ∀ e ∈ f.written, ∀ s ∈ sections ++ f.sections,
      ¬ ranks (pathBytes e.1) <+: ranks (pathBytes s)) :
    ∃ v, mgr.loadConfFile getenv lpBuffer f.toConfFile
        = some (.ok (true, { mgr with m_varAllConf := v })) ∧
      ConfigureMgr.Holds { mgr with m_varAllConf := v } (sections ++ f.sections)
        (ws ++ f.written) := by
  obtain ⟨hconfig, hsome, hkept⟩ := set_spec hholds.isConfig f.strKey
  obtain ⟨v, hv⟩ := Option.isSome_iff_exists.mp hsome
  have hroot : [] ∈ (sections ++ f.sections).map pathBytes := by
    rw [List.map_append]
    exact List.mem_append_left _ hholds.root
  obtain ⟨v', hload, hshows⟩ := (hholds.under f hv).loadFromStream (confParser getenv)
    f.toConfigureText fun e he s hs hpre => by
      obtain ⟨s', hs', hpre⟩ := f.exists_section hs hpre
      obtain ⟨path, hpath, rfl⟩ := List.mem_map.mp hs'
      exact hfree _ (List.mem_map_of_mem he) path hpath hpre
  refine ⟨_, ?_, .modify hconfig (fun _ _ => hshows.isConfig) [f.strKey], hroot,
    fun ks hks => ?_⟩
  · rw [ConfigureMgr.loadConfFile]
    dsimp only [WrittenFile.toConfFile]
    rw [find_eq hconfig, hv, Option.getD_some, hload]
    rfl
  · rw [valuesAt_append]
    cases ks with
    | nil => exact absurd List.nil_prefix (hks [] hroot)
    | cons k ks =>
        rw [WrittenFile.written, f.valuesAt_under]
        by_cases hk : nocaseRank f.strKey = nocaseRank k
        · have hsame : ranks (k :: ks) = ranks ([f.strKey] ++ ks) := by
            rw [ranks, ranks, List.map_cons, ← hk]
            rfl
          rw [if_pos hk, node_congr hsame, node_modify hconfig, hv, Option.bind_some,
            valuesAt_congr ws hsame]
          refine hshows.kept ks fun s hs hpre => ?_
          obtain ⟨s', hs', hpre⟩ := f.exists_section hs hpre
          exact hks s' hs' (hsame ▸ hpre)
        · rw [if_neg hk, List.append_nil, node_modify_other hconfig, hkept k ks fun h => absurd h hk]
          · refine hholds.kept _ fun s hs => hks s ?_
            rw [List.map_append]
            exact List.mem_append_left _ hs
          · exact fun h => hk (ranks_cons_iff.mp h).1
          · exact fun h => hk (ranks_cons_iff.mp h).1.symm

end Load

section Files
variable {lpBuffer : Text}

/-- The sections of all the files. -/
def sectionsOf (files : List (WrittenFile lpBuffer)) : List (List Text) :=
  [] :: files.flatMap WrittenFile.sections

/-- The entries of all the files, in their order. -/
def writtenIn (files : List (WrittenFile lpBuffer)) : List (List Text × Text) :=
  files.flatMap WrittenFile.written

/-- No section is there, nor below. -/
def IsValuePath (files : List (WrittenFile lpBuffer)) (ks : List Bytes) : Prop :=
  ∀ s ∈ sectionsOf files, ¬ ranks ks <+: ranks (pathBytes s)

/-- The keys of a path. -/
def keysOf (strPath : Text) : List Bytes := pathBytes (tokens ['/'] strPath)

theorem ConfigureMgr.Holds.loadConfFiles (getenv : Text → Option Text) (systemErrorInfo : Text)
    (files : List (WrittenFile lpBuffer)) {mgr : ConfigureMgr} {sections : List (List Text)}
    {ws : List (List Text × Text)} (hholds : mgr.Holds sections ws)
    (hfree : ∀ e ∈ writtenIn files, ∀ s ∈ sections ++ files.flatMap WrittenFile.sections,
      ¬ ranks (pathBytes e.1) <+: ranks (pathBytes s)) :
    ∃ v, mgr.loadConfFiles getenv lpBuffer systemErrorInfo (files.map WrittenFile.toConfFile)
        = some (.ok { mgr with m_varAllConf := v }) ∧
      ConfigureMgr.Holds { mgr with m_varAllConf := v }
        (sections ++ files.flatMap WrittenFile.sections) (ws ++ writtenIn files) := by
  induction files generalizing mgr sections ws with
  | nil =>
      refine ⟨mgr.m_varAllConf, rfl, ?_⟩
      rw [List.flatMap_nil, List.append_nil, writtenIn, List.flatMap_nil, List.append_nil]
      exact hholds
  | cons f files ih =>
      rw [writtenIn, List.flatMap_cons, List.flatMap_cons] at hfree
      obtain ⟨v, hload, hnext⟩ := hholds.loadConfFile f getenv fun e he s hs =>
        hfree e (List.mem_append_left _ he) s (by
          rw [← List.append_assoc]
          exact List.mem_append_left _ hs)
      obtain ⟨v', hloads, hall⟩ := ih hnext fun e he s hs =>
        hfree e (List.mem_append_right _ he) s (by rwa [← List.append_assoc])
      refine ⟨v', ?_, ?_⟩
      · rw [List.map_cons, ConfigureMgr.loadConfFiles, hload, Option.bind_some]
        exact hloads
      · rw [writtenIn, List.flatMap_cons, List.flatMap_cons, ← List.append_assoc,
          ← List.append_assoc]
        exact hall

/-- A manager that has just been made. -/
theorem ConfigureMgr.holds_new (bOverloaded : Bool) :
    ConfigureMgr.Holds ⟨.null, bOverloaded, []⟩ [[]] [] := by
  refine ⟨.null, List.mem_cons_self, fun ks hks => ?_⟩
  cases ks with
  | nil => exact absurd List.nil_prefix (hks [] List.mem_cons_self)
  | cons k ks => rfl

end Files

/-! ### What is asked for -/

theorem asString_textBytes {s : Text} (hs : ∀ c ∈ s, c.toNat < 256) :
    asString (.string (textBytes s)) = .ok s := by
  have hback : bytesText (textBytes s) = s := by
    rw [bytesText, textBytes, List.map_map]
    refine (List.map_congr_left fun c hc => ?_).trans (List.map_id s)
    have hbyte : (BitVec.ofNat 8 c.toNat).toNat = c.toNat := by
      rw [BitVec.toNat_ofNat, Nat.mod_eq_of_lt (hs c hc)]
    rw [Function.comp_apply, hbyte, Char.ofNat_toNat]
    rfl
  rw [asString, hback]

theorem getValue_array (l : List Variant) (nIndex : Nat) : ConfigureMgr.getValue (.array l) nIndex
    = l[nIndex]?.elim (.ok none) fun v => (asString v).map some := by
  by_cases hn : nIndex < l.length
  · have hitem : getArrayItem (.array l) nIndex = .ok l[nIndex] := by
      rw [getArrayItem, List.getElem?_eq_getElem hn]
      rfl
    rw [ConfigureMgr.getValue, if_neg (by simpa [isNULL, arraySizeOf] using hn), hitem,
      List.getElem?_eq_getElem hn]
    rfl
  · have hlen : l.length ≤ nIndex := Nat.le_of_not_lt hn
    rw [ConfigureMgr.getValue, if_pos (by simpa [isNULL, arraySizeOf] using hlen),
      List.getElem?_eq_none hlen]
    rfl

section Values
variable {ss : List Text}

theorem isNocaseStringMap_collected (ss : List Bytes) :
    (collected ss).all isNocaseStringMap = ss.isEmpty := by
  rcases ss with - | ⟨s₁, - | ⟨s₂, ss⟩⟩
  · rfl
  · rfl
  · rfl

theorem map_textBytes (ss : List Text) :
    (ss.map textBytes).map Variant.string = ss.map fun s => Variant.string (textBytes s) :=
  List.map_map

variable (hss : ∀ s ∈ ss, ∀ c ∈ s, c.toNat < 256)
include hss

theorem getValue_collected (nIndex : Nat) :
    ConfigureMgr.getValue ((collected (ss.map textBytes)).getD .null) nIndex = .ok ss[nIndex]? := by
  rcases ss with - | ⟨s₁, - | ⟨s₂, ss⟩⟩
  · rfl
  · cases nIndex with
    | zero =>
        have hs := asString_textBytes (hss s₁ List.mem_cons_self)
        simp [collected, ConfigureMgr.getValue, isNULL, arraySizeOf, getArrayItem, hs, Except.bind,
          Except.map]
    | succ n => simp [collected, ConfigureMgr.getValue, isNULL, arraySizeOf]
  · have harray : (collected ((s₁ :: s₂ :: ss).map textBytes)).getD .null
        = .array ((s₁ :: s₂ :: ss).map fun s => Variant.string (textBytes s)) :=
      congrArg Variant.array (map_textBytes (s₁ :: s₂ :: ss))
    rw [harray, getValue_array, List.getElem?_map]
    cases hget : (s₁ :: s₂ :: ss)[nIndex]? with
    | none => rfl
    | some s =>
        rw [Option.map_some, Option.elim_some, asString_textBytes (hss s (List.mem_of_getElem? hget))]
        rfl

theorem mapM_asString : (ss.map fun s => Variant.string (textBytes s)).mapM asString = .ok ss := by
  induction ss with
  | nil => rfl
  | cons s ss ih =>
      obtain ⟨hs, hss⟩ := List.forall_mem_cons.mp hss
      rw [List.map_cons, List.mapM_cons, asString_textBytes hs, ih hss]
      rfl

/-- All the values of a path, as a list. -/
theorem getDuplicatedValueList_collected {mgr : ConfigureMgr} {strKey : Text}
    (h : mgr.getSubItems strKey true = (collected (ss.map textBytes)).getD .null) :
    mgr.getDuplicatedValueList strKey = .ok ss := by
  rw [ConfigureMgr.getDuplicatedValueList, h]
  rcases ss with - | ⟨s₁, - | ⟨s₂, ss⟩⟩
  · rfl
  · exact congrArg (·.map fun t => [t]) (asString_textBytes (hss s₁ List.mem_cons_self))
  · have hall := mapM_asString hss
    rw [← map_textBytes] at hall
    exact hall

end Values

/-- The values for a key: those of the local host, if there are some. -/
def ConfigureMgr.valuesFor (mgr : ConfigureMgr) (ws : List (List Text × Text)) (strKey : Text) :
    List Text :=
  if mgr.m_bOverloaded ∧ textsAt ws (keysOf (mgr.getHostConfigureFullPath strKey)) ≠ [] then
    textsAt ws (keysOf (mgr.getHostConfigureFullPath strKey))
  else textsAt ws (keysOf strKey)

theorem findByPath_eq {v : Variant} (hv : IsConfig v) (strPath : Text) :
    v.findByPath strPath false = node (keysOf strPath) v := by
  rw [← foldlM_find hv false, keysOf, pathBytes, List.foldlM_map]
  rfl

/-- What is found for a key. -/
theorem ConfigureMgr.Holds.getSubItems_eq {mgr : ConfigureMgr} {sections : List (List Text)}
    {ws : List (List Text × Text)} (hholds : mgr.Holds sections ws) {strKey : Text}
    (hkey : ∀ s ∈ sections, ¬ ranks (keysOf strKey) <+: ranks (pathBytes s))
    (hhost : ∀ s ∈ sections,
      ¬ ranks (keysOf (mgr.getHostConfigureFullPath strKey)) <+: ranks (pathBytes s)) :
    mgr.getSubItems strKey true
      = (collected ((mgr.valuesFor ws strKey).map textBytes)).getD .null := by
  have hne : strKey.isEmpty = false := by
    cases strKey with
    | nil =>
        obtain ⟨s, hs, -⟩ := List.mem_map.mp hholds.root
        have hnil : keysOf [] = [] := by
          rw [keysOf, tokens_eq]
          rfl
        rw [hnil] at hkey
        exact absurd List.nil_prefix (hkey s hs)
    | cons c s => rfl
  have hfind : ∀ ks, (∀ s ∈ sections, ¬ ranks ks <+: ranks (pathBytes s)) →
      node ks mgr.m_varAllConf = collected ((textsAt ws ks).map textBytes) :=
    fun ks hks => hholds.kept ks fun s hs => by
      obtain ⟨path, hpath, rfl⟩ := List.mem_map.mp hs
      exact hks path hpath
  rw [getSubItems, hne, if_neg Bool.false_ne_true, findByPath_eq hholds.isConfig,
    findByPath_eq hholds.isConfig, hfind _ hkey, hfind _ hhost, valuesFor]
  cases mgr.m_bOverloaded with
  | false => simp
  | true =>
      simp only [Bool.true_and, if_true, isNocaseStringMap_collected, true_and, List.isEmpty_iff,
        List.map_eq_nil_iff]
      by_cases hnone : textsAt ws (keysOf (mgr.getHostConfigureFullPath strKey)) = []
      · rw [if_pos hnone, if_neg (not_not_intro hnone)]
      · rw [if_neg hnone, if_pos hnone]

section Written
variable {lpBuffer : Text} (files : List (WrittenFile lpBuffer))

/-- Where the local host is named. -/
def localhostKeys : List Bytes := keysOf "/localhost/LocalhostID".toList

theorem areBytes_textsAt {ks : List Bytes} {t : Text} (ht : t ∈ textsAt (writtenIn files) ks) :
    ∀ c ∈ t, c.toNat < 256 := by
  obtain ⟨e, he, rfl⟩ := List.mem_map.mp ht
  obtain ⟨f, -, he⟩ := List.mem_flatMap.mp (List.mem_of_mem_filter he)
  obtain ⟨e, hwritten, rfl⟩ := List.mem_map.mp he
  exact f.areBytes e hwritten

theorem areBytes_valuesFor (mgr : ConfigureMgr) (strKey : Text) :
    ∀ t ∈ mgr.valuesFor (writtenIn files) strKey, ∀ c ∈ t, c.toNat < 256 := by
  intro t ht
  rw [ConfigureMgr.valuesFor] at ht
  split at ht
  next => exact areBytes_textsAt files ht
  next => exact areBytes_textsAt files ht

theorem loadLocalHostID_eq {mgr : ConfigureMgr} {ss : List Text}
    (hss : ∀ s ∈ ss, ∀ c ∈ s, c.toNat < 256) (hone : ss.length ≤ 1)
    (hfound : mgr.m_varAllConf.findByPath "/localhost/LocalhostID".toList false
      = collected (ss.map textBytes)) :
    mgr.loadLocalHostID = .ok { mgr with m_strLocalHostID := ss.headD mgr.m_strLocalHostID } := by
  rw [ConfigureMgr.loadLocalHostID, hfound]
  rcases ss with - | ⟨s, - | ⟨s₂, ss⟩⟩
  · rfl
  · have hs := asString_textBytes (hss s List.mem_cons_self)
    rw [List.map_singleton, collected]
    dsimp only
    rw [hs]
    rfl
  · simp at hone

variable {files} in
/-- All the files are loaded, and the local host has its name. -/
theorem loadAllConfFile_written (getenv : Text → Option Text) (systemErrorInfo : Text)
    (bOverloaded : Bool)
    (hentries : ∀ e ∈ writtenIn files, IsValuePath files (pathBytes e.1))
    (hlocal : IsValuePath files localhostKeys)
    (hone : (textsAt (writtenIn files) localhostKeys).length ≤ 1) :
    ∃ mgr, ConfigureMgr.loadAllConfFile getenv lpBuffer systemErrorInfo ⟨.null, bOverloaded, []⟩
        (files.map WrittenFile.toConfFile) = some (.ok mgr) ∧
      mgr.m_bOverloaded = bOverloaded ∧
      mgr.m_strLocalHostID = (textsAt (writtenIn files) localhostKeys).headD [] ∧
      mgr.Holds (sectionsOf files) (writtenIn files) := by
  obtain ⟨v, hload, hholds⟩ := (ConfigureMgr.holds_new bOverloaded).loadConfFiles getenv
    systemErrorInfo files hentries
  have hfound : v.findByPath "/localhost/LocalhostID".toList false
      = collected ((textsAt (writtenIn files) localhostKeys).map textBytes) := by
    rw [findByPath_eq hholds.isConfig]
    refine hholds.kept _ fun s hs => ?_
    obtain ⟨path, hpath, rfl⟩ := List.mem_map.mp hs
    exact hlocal path hpath
  refine ⟨⟨v, bOverloaded, (textsAt (writtenIn files) localhostKeys).headD []⟩, ?_, rfl, rfl, hholds⟩
  rw [ConfigureMgr.loadAllConfFile, hload, Option.map_some]
  exact congrArg some (loadLocalHostID_eq (fun t ht => areBytes_textsAt files ht) hone hfound)

variable {files} in
/-- What is asked for is what the files have written under the key, in its order.  When the files
are loaded, a key that is no section has those values, and the local host's own where there are
some; behind them there is nothing. -/
theorem getString_written (getenv : Text → Option Text) (systemErrorInfo : Text)
    (bOverloaded : Bool)
    (hentries : ∀ e ∈ writtenIn files, IsValuePath files (pathBytes e.1))
    (hlocal : IsValuePath files localhostKeys)
    (hone : (textsAt (writtenIn files) localhostKeys).length ≤ 1) :
    ∃ mgr, ConfigureMgr.loadAllConfFile getenv lpBuffer systemErrorInfo ⟨.null, bOverloaded, []⟩
        (files.map WrittenFile.toConfFile) = some (.ok mgr) ∧
      mgr.m_bOverloaded = bOverloaded ∧
      mgr.m_strLocalHostID = (textsAt (writtenIn files) localhostKeys).headD [] ∧
      ∀ strKey, IsValuePath files (keysOf strKey) →
        IsValuePath files (keysOf (mgr.getHostConfigureFullPath strKey)) →
        mgr.getDuplicatedValueList strKey = .ok (mgr.valuesFor (writtenIn files) strKey) ∧
        ∀ nIndex,
          mgr.getString strKey nIndex
            = (mgr.valuesFor (writtenIn files) strKey)[nIndex]?.elim
              (.error (.configureException ('[' :: (strKey
                ++ "] not found in configure, index:".toList ++ Nat.toDigits 10 nIndex)))) .ok ∧
          ∀ strDefault, mgr.getStringDefault strDefault strKey nIndex
            = .ok ((mgr.valuesFor (writtenIn files) strKey)[nIndex]?.getD strDefault) := by
  obtain ⟨mgr, hload, hoverloaded, hid, hholds⟩ :=
    loadAllConfFile_written getenv systemErrorInfo bOverloaded hentries hlocal hone
  refine ⟨mgr, hload, hoverloaded, hid, fun strKey hkey hhost => ?_⟩
  have hitems := hholds.getSubItems_eq hkey hhost
  have hbytes := areBytes_valuesFor files mgr strKey
  refine ⟨getDuplicatedValueList_collected hbytes hitems, fun nIndex => ?_⟩
  have hvalue := getValue_collected hbytes nIndex
  rw [← hitems] at hvalue
  refine ⟨?_, fun strDefault => ?_⟩
  · rw [ConfigureMgr.getString, hvalue]
    cases (mgr.valuesFor (writtenIn files) strKey)[nIndex]? with
    | none => rfl
    | some strValue => rfl
  · rw [ConfigureMgr.getStringDefault, hvalue]
    rfl

/-- The section `[s]`. -/
def sampleSection : SectionLine where
  names := [['s']]
  behind := []
  comment := []
  areNames := by simp [IsPlain, commentSymbol]
  areBlanks := by simp [IsBlanks]
  isComment := by simp [IsComment]

/-- The entry `k="a#b" # one`. -/
def quotedEntry : Entry where
  key := ['k']
  value := "a#b".toList
  spelled := "\"a#b\"".toList
  before := []
  after := []
  behind := [' ']
  comment := "# one".toList
  ne_nil := by simp
  isKey := by simp [IsPlain, Trimmed, commentSymbol, spaceString]
  isSpelled := .inl ⟨'"', .inr rfl, by decide⟩
  areBlanks := by simp [IsBlanks]
  isComment := by simp [IsComment, commentSymbol]

/-- The entry `K=v`. -/
def plainEntry : Entry where
  key := ['K']
  value := ['v']
  spelled := ['v']
  before := []
  after := []
  behind := []
  comment := []
  ne_nil := by simp
  isKey := by simp [IsPlain, Trimmed, commentSymbol, spaceString]
  isSpelled := .inr (by simp [IsPlain, Trimmed, commentSymbol, spaceString])
  areBlanks := by simp [IsBlanks]
  isComment := by simp [IsComment]

/-- The file `a.conf`: a section with two values of one key, the second on two rows; it comes in
two pieces. -/
def sampleFile : WrittenFile (List.replicate 32 ' ') where
  items := [
    .section sampleSection
      (by simp [Trimmed, sampleSection, SectionLine.line, SectionLine.head, pathText, spaceString])
      (.single (by decide)),
    .entry quotedEntry
      (by simp [Trimmed, quotedEntry, Entry.line, Entry.right, spaceString]) (.single (by decide)),
    .entry plainEntry (by simp [Trimmed, plainEntry, Entry.line, Entry.right, spaceString])
      { indent := [], pieces := ["K=".toList], last := ['v'], tail := []
        line_eq := rfl
        first_ne := by simp
        goesOn := by decide
        ends := by decide
        areSpaces := areSpaces_nil }]
  lines := [("[s]".toList, ['\n']), ("k=\"a#b\" # one".toList, ['\r', '\n']),
    ("K=\\".toList, ['\n']), (['v'], ['\n'])]
  lines_eq := rfl
  inLine := by simp [InLine]
  ended := .cons (.inl rfl) (.cons (.inr rfl) (.cons (.inl rfl) (.cons (.inl rfl) .nil)))
  fits := by simp
  feed := ["[s]\nk=\"a#".toList, "b\" # one\r\nK=\\\nv\n".toList]
  pieces := by simp
  feed_eq := rfl
  strFullPath := "/etc/a.conf".toList
  areBytes := by decide

theorem isValuePath_sample {ks : List Bytes}
    (h : ∀ s ∈ [[], [['a']], [['a'], ['s']]], ¬ ranks ks <+: ranks (pathBytes s)) :
    IsValuePath [sampleFile] ks := h

theorem getString_written_sample : ∃ mgr, ConfigureMgr.loadAllConfFile (fun _ => none)
    (List.replicate 32 ' ') [] ⟨.null, false, []⟩ [sampleFile.toConfFile] = some (.ok mgr) ∧
      mgr.getDuplicatedValueList "/a/s/k".toList = .ok ["a#b".toList, ['v']] ∧
      mgr.getString "/a/s/k".toList 1 = .ok ['v'] := by
  have hlocal : localhostKeys = pathBytes ["localhost".toList, "LocalhostID".toList] := by
    rw [localhostKeys, keysOf, tokens_eq]
    rfl
  have hnone : textsAt (writtenIn [sampleFile]) localhostKeys = [] := by
    rw [hlocal]
    decide +kernel
  have hkey : keysOf "/a/s/k".toList = pathBytes [['a'], ['s'], ['k']] := by
    rw [keysOf, tokens_eq]
    rfl
  have hentries : ∀ e ∈ writtenIn [sampleFile], IsValuePath [sampleFile] (pathBytes e.1) := by
    intro e he
    rcases List.mem_pair.mp he with rfl | rfl
    · exact isValuePath_sample (by decide)
    · exact isValuePath_sample (by decide)
  obtain ⟨mgr, hload, hoverloaded, hid, hget⟩ := getString_written (fun _ => none) [] false
    hentries (isValuePath_sample (by rw [hlocal]; decide)) (by rw [hnone]; exact Nat.zero_le 1)
  have hfull : keysOf (mgr.getHostConfigureFullPath "/a/s/k".toList)
      = pathBytes ["hosts".toList, ['a'], ['s'], ['k']] := by
    rw [hnone] at hid
    unfold ConfigureMgr.getHostConfigureFullPath
    rw [hid, keysOf, tokens_eq]
    rfl
  obtain ⟨hlist, hvalues⟩ := hget "/a/s/k".toList (isValuePath_sample (by rw [hkey]; decide))
    (isValuePath_sample (by rw [hfull]; decide))
  have hfor : mgr.valuesFor (writtenIn [sampleFile]) "/a/s/k".toList = ["a#b".toList, ['v']] := by
    rw [ConfigureMgr.valuesFor, hoverloaded, if_neg (by simp), hkey]
    decide +kernel
  rw [hfor] at hlist hvalues
  exact ⟨mgr, hload, hlist, (hvalues 1).1⟩

end Written

end Edm.System
