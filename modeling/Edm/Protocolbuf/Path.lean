import Edm.Base.StringTokenizer
import Edm.Protocolbuf.Keys

/-!
# Protocolbuf — Path

A `ProtocolVariant` whose maps have maps in them, as a configuration is one: what is found under a
path of keys, and what `add` changes.  The case of a key does not matter.

* `Variant.node` is what is kept under a path; `foldlM_find` says that the keys find it.
* `node_modify`, `node_modify_other`: a change under a path is one there and nowhere else.
* `node_add`: the first value under a key is kept as it is.  With the next one there is an array of
  them.
-/

namespace Edm.Protocolbuf
open Support Base

/-- The bytes of a text. -/
def textBytes (s : Text) : Bytes := s.map fun c => .ofNat 8 c.toNat

/-- `StringFunc::strCaseEqual`. -/
def strCaseEqual (a b : Bytes) : Bool := decide (a.length = b.length) && decide (strCasecmp a b = 0)

namespace Variant

/-! ### The code -/

/-- `findStringKey`. -/
def findStringKey (strKey : Bytes) (bCaseSensitive : Bool) : Variant → Option Variant
  | .stringMap m =>
      (lookupBy stringLess strKey m).or
        (if bCaseSensitive then none else (m.find? fun e => strCaseEqual strKey e.1).map Prod.snd)
  | .nocaseStringMap m => lookupBy nocaseLess strKey m
  | _ => none

/-- `find`. -/
def find (strKey : Bytes) (v : Variant) : Option Variant := v.findStringKey strKey true

/-- `findByPath`, with slashes between the keys. -/
def findByPath (v : Variant) (strPath : Text) (bCaseSensitive : Bool) : Option Variant :=
  (tokens ['/'] strPath).foldlM (fun v strKey => v.findStringKey (textBytes strKey) bCaseSensitive) v

/-- `convertToArray`. -/
def convertToArray : Variant → List Variant
  | .array l => l
  | v => [v]

/-- What `add` leaves at a key, with the new value. -/
def appended (x : Variant) : Option Variant → Variant
  | none => x
  | some old => .array (old.convertToArray ++ [x])

/-- `add(strKey)`, and what is assigned to it. -/
def add (v : Variant) (strKey : Bytes) (x : Variant) : Variant :=
  match v with
  | .nocaseStringMap m =>
      .nocaseStringMap (assignBy nocaseLess strKey (appended x (lookupBy nocaseLess strKey m)) m)
  | .stringMap m =>
      .stringMap (assignBy stringLess strKey (appended x (lookupBy stringLess strKey m)) m)
  | _ => .stringMap [(strKey, x)]

/-- `asNocaseStringMap`, where the value is no map with texts as keys. -/
def toSection : Variant → Variant
  | .nocaseStringMap m => .nocaseStringMap m
  | .stringMap m => .stringMap m
  | _ => .nocaseStringMap []

/-- `set(strKey)`, for a value that is already a map: the key is there. -/
def set (strKey : Bytes) : Variant → Variant
  | .nocaseStringMap m => .nocaseStringMap (assignBy nocaseLess strKey
      ((lookupBy nocaseLess strKey m).getD .null) m)
  | .stringMap m => .stringMap (assignBy stringLess strKey
      ((lookupBy stringLess strKey m).getD .null) m)
  | _ => .stringMap [(strKey, .null)]

/-- What is done through a pointer to the value under the keys. -/
def modify (f : Variant → Variant) : List Bytes → Variant → Variant
  | [], v => f v
  | k :: ks, .nocaseStringMap m =>
      match lookupBy nocaseLess k m with
      | none => .nocaseStringMap m
      | some x => .nocaseStringMap (assignBy nocaseLess k (modify f ks x) m)
  | k :: ks, .stringMap m =>
      match lookupBy stringLess k m with
      | none => .stringMap m
      | some x => .stringMap (assignBy stringLess k (modify f ks x) m)
  | _ :: _, v => v

/-! ### What is kept under a path -/

/-- The values of a configuration: in its maps the case of the keys does not matter. -/
inductive IsConfig : Variant → Prop
  | null : IsConfig .null
  | string (s : Bytes) : IsConfig (.string s)
  | array (l : List Variant) : IsConfig (.array l)
  | map {m : List (Bytes × Variant)} (hm : Ascending nocaseLess m) (h : ∀ e ∈ m, IsConfig e.2) :
      IsConfig (.nocaseStringMap m)

/-- Keys without their case. -/
def ranks (ks : List Bytes) : List (List Int) := ks.map nocaseRank

/-- What is kept under a path. -/
def node : List Bytes → Variant → Option Variant
  | [], v => some v
  | k :: ks, .nocaseStringMap m => (stored nocaseRank k m).bind fun e => node ks e.2
  | _ :: _, _ => none

theorem node_cons_map (k : Bytes) (ks : List Bytes) (m : List (Bytes × Variant)) :
    node (k :: ks) (.nocaseStringMap m)
      = (stored nocaseRank k m).bind fun e => node ks e.2 := rfl

/-- The case of the keys does not matter. -/
theorem node_congr {ks ks' : List Bytes} (h : ranks ks = ranks ks') (v : Variant) :
    node ks v = node ks' v := by
  induction ks generalizing ks' v with
  | nil =>
      rw [List.map_eq_nil_iff.mp h.symm]
  | cons k ks ih =>
      obtain ⟨k', ks', rfl⟩ := List.exists_cons_of_ne_nil (l := ks') (by rintro rfl; cases h)
      rw [ranks, ranks, List.map_cons, List.map_cons, List.cons.injEq] at h
      cases v with
      | nocaseStringMap m =>
          rw [node_cons_map, node_cons_map, stored, stored, h.1]
          exact congrArg _ (funext fun e => ih h.2 e.2)
      | _ => rfl

theorem ranks_cons_iff {k k' : Bytes} {ks ks' : List Bytes} : ranks (k :: ks) <+: ranks (k' :: ks')
    ↔ nocaseRank k = nocaseRank k' ∧ ranks ks <+: ranks ks' :=
  List.cons_prefix_cons

/-- What begins with other keys goes on behind these. -/
theorem exists_append_of_prefix {path ks : List Bytes} (h : ranks path <+: ranks ks) :
    ∃ rest, ranks ks = ranks (path ++ rest) := by
  obtain ⟨t, ht⟩ := h
  refine ⟨ks.drop path.length, ?_⟩
  have hlen : (ranks path).length = path.length := List.length_map ..
  rw [ranks, ranks, List.map_append, List.map_drop, ← ranks, ← ranks, ← ht, ← hlen, List.drop_left]

theorem ranks_append (ks ks' : List Bytes) : ranks (ks ++ ks') = ranks ks ++ ranks ks' :=
  List.map_append

theorem node_append (ks ks' : List Bytes) (v : Variant) :
    node (ks ++ ks') v = (node ks v).bind (node ks') := by
  induction ks generalizing v with
  | nil => rfl
  | cons k ks ih =>
      cases v with
      | nocaseStringMap m =>
          rw [List.cons_append, node_cons_map, node_cons_map, Option.bind_assoc]
          exact congrArg _ (funext fun e => ih e.2)
      | _ => rfl

/-- The keys find what is kept under their path. -/
theorem foldlM_find {v : Variant} (hv : IsConfig v) (bCaseSensitive : Bool) (ks : List Bytes) :
    ks.foldlM (fun v k => v.findStringKey k bCaseSensitive) v = node ks v := by
  induction ks generalizing v with
  | nil => rfl
  | cons k ks ih =>
      rw [List.foldlM_cons]
      cases hv with
      | map hm h =>
          rw [node_cons_map, findStringKey, lookupBy_eq nocaseLess_iff hm]
          cases hstored : stored nocaseRank k _ with
          | none => rfl
          | some e => exact ih (h e (List.mem_of_find?_eq_some hstored))
      | null | string | array => rfl

theorem IsConfig.find {v x : Variant} (hv : IsConfig v) {ks : List Bytes} (h : node ks v = some x) :
    IsConfig x := by
  induction ks generalizing v with
  | nil =>
      obtain rfl := Option.some.inj h
      exact hv
  | cons k ks ih =>
      cases hv with
      | map hm hall =>
          rw [node_cons_map, Option.bind_eq_some_iff] at h
          obtain ⟨e, he, h⟩ := h
          exact ih (hall e (List.mem_of_find?_eq_some he)) h
      | null | string | array => cases h

/-! ### What a change does -/

section Assign
variable {m : List (Bytes × Variant)} (hm : Ascending nocaseLess m) (h : ∀ e ∈ m, IsConfig e.2)
include hm

theorem node_assign (k k' : Bytes) (x : Variant) (ks : List Bytes) :
    node (k' :: ks) (.nocaseStringMap (assignBy nocaseLess k x m))
      = if nocaseRank k = nocaseRank k' then node ks x
        else node (k' :: ks) (.nocaseStringMap m) := by
  rw [node_cons_map, stored_assignBy nocaseLess_iff hm]
  split
  · rfl
  · rfl

include h in
theorem IsConfig.assign (k : Bytes) {x : Variant} (hx : IsConfig x) :
    IsConfig (.nocaseStringMap (assignBy nocaseLess k x m)) := by
  have hasc := ascending_assignBy nocaseLess_iff (k := k) (v := x) hm
  refine .map hasc fun e he => ?_
  have hstored := stored_of_mem nocaseLess_iff hasc he
  rw [stored_assignBy nocaseLess_iff hm] at hstored
  split at hstored
  next =>
    obtain rfl := Option.some.inj hstored
    exact hx
  next => exact h e (List.mem_of_find?_eq_some hstored)

end Assign

section Modify
variable {f : Variant → Variant} {v : Variant}

theorem IsConfig.modify (hv : IsConfig v) (hf : ∀ x, IsConfig x → IsConfig (f x))
    (path : List Bytes) : IsConfig (modify f path v) := by
  induction path generalizing v with
  | nil => exact hf v hv
  | cons k ks ih =>
      cases hv with
      | map hm h =>
          rw [Variant.modify, lookupBy_eq nocaseLess_iff hm]
          cases hstored : stored nocaseRank k _ with
          | none => exact .map hm h
          | some e => exact .assign hm h k (ih (h e (List.mem_of_find?_eq_some hstored)))
      | null => exact .null
      | string s => exact .string s
      | array l => exact .array l

/-- What is changed is what is kept there. -/
theorem node_modify (hv : IsConfig v) (path ks : List Bytes) :
    node (path ++ ks) (modify f path v) = (node path v).bind fun x => node ks (f x) := by
  induction path generalizing v with
  | nil => rfl
  | cons k path ih =>
      cases hv with
      | @map m hm h =>
          rw [Variant.modify, lookupBy_eq nocaseLess_iff hm, node_cons_map]
          cases hstored : stored nocaseRank k m with
          | none =>
              rw [Option.map_none, List.cons_append]
              dsimp only
              rw [node_cons_map, hstored]
              rfl
          | some e =>
              rw [Option.map_some, List.cons_append]
              dsimp only
              rw [node_assign hm, if_pos rfl, ih (h e (List.mem_of_find?_eq_some hstored))]
              rfl
      | null | string | array => rfl

/-- What is kept elsewhere is not changed. -/
theorem node_modify_other (hv : IsConfig v) {path ks : List Bytes}
    (hpath : ¬ ranks path <+: ranks ks) (hks : ¬ ranks ks <+: ranks path) :
    node ks (modify f path v) = node ks v := by
  induction path generalizing v ks with
  | nil => exact absurd List.nil_prefix hpath
  | cons k path ih =>
      cases ks with
      | nil => exact absurd List.nil_prefix hks
      | cons k' ks =>
          rw [ranks_cons_iff, not_and] at hpath hks
          cases hv with
          | @map m hm h =>
              rw [Variant.modify, lookupBy_eq nocaseLess_iff hm]
              cases hstored : stored nocaseRank k m with
              | none => rfl
              | some e =>
                  rw [Option.map_some]
                  dsimp only
                  rw [node_assign hm]
                  split
                  next hk =>
                    rw [ih (h e (List.mem_of_find?_eq_some hstored)) (hpath hk) (hks hk.symm),
                      node_cons_map, stored, ← hk]
                    rw [stored] at hstored
                    rw [hstored]
                    rfl
                  next => rfl
          | null | string | array => rfl

end Modify

section Add
variable {v : Variant} (hv : IsConfig v) (k : Bytes) {x : Variant}
include hv

/-- A value as a map: what is no map has no keys. -/
theorem toSection_eq : ∃ m, v.toSection = .nocaseStringMap m ∧ Ascending nocaseLess m ∧
    (∀ e ∈ m, IsConfig e.2) ∧ ∀ k ks, node (k :: ks) (.nocaseStringMap m) = node (k :: ks) v := by
  cases hv with
  | @map m hm h => exact ⟨m, rfl, hm, h, fun _ _ => rfl⟩
  | null | string | array =>
      exact ⟨[], rfl, List.Pairwise.nil, List.forall_mem_nil _, fun _ _ => rfl⟩

theorem IsConfig.add (hx : IsConfig x) : IsConfig (v.toSection.add k x) := by
  obtain ⟨m, hm, hasc, hall, -⟩ := toSection_eq hv
  rw [hm, Variant.add]
  refine .assign hasc hall k ?_
  cases lookupBy nocaseLess k m with
  | none => exact hx
  | some old => exact .array _

/-- The new value is kept at its key. -/
theorem node_add : node [k] (v.toSection.add k x) = some (appended x (node [k] v)) := by
  obtain ⟨m, hm, hasc, -, hnode⟩ := toSection_eq hv
  rw [hm, Variant.add, node_assign hasc, if_pos rfl, ← hnode, node_cons_map,
    lookupBy_eq nocaseLess_iff hasc]
  cases stored nocaseRank k m with
  | none => rfl
  | some e => rfl

/-- What is kept below the key is what is kept in the new value. -/
theorem node_add_below (ks : List Bytes) :
    node (k :: ks) (v.toSection.add k x) = node ks (appended x (node [k] v)) := by
  rw [← List.singleton_append, node_append, node_add hv, Option.bind_some]

theorem node_add_other {k' : Bytes} (hk : nocaseRank k ≠ nocaseRank k') (ks : List Bytes) :
    node (k' :: ks) (v.toSection.add k x) = node (k' :: ks) v := by
  obtain ⟨m, hm, hasc, -, hnode⟩ := toSection_eq hv
  rw [hm, Variant.add, node_assign hasc, if_neg hk, hnode]

/-- What `add` changes under a path. -/
theorem node_modify_add (path ks : List Bytes) :
    node (path ++ k :: ks) (modify (fun y => y.toSection.add k x) path v)
      = (node path v).bind fun y => node ks (appended x (node [k] y)) := by
  rw [node_modify hv]
  cases hnode : node path v with
  | none => rfl
  | some y => exact node_add_below (hv.find hnode) k ks

/-- Beside the key nothing is changed. -/
theorem node_modify_add_other {path ks : List Bytes} (hks : ¬ ranks ks <+: ranks (path ++ [k]))
    (hkey : ¬ ranks (path ++ [k]) <+: ranks ks) :
    node ks (modify (fun y => y.toSection.add k x) path v) = node ks v := by
  rw [ranks_append] at hks hkey
  by_cases hpath : ranks path <+: ranks ks
  · obtain ⟨rest, hrest⟩ := exists_append_of_prefix hpath
    rw [node_congr hrest, node_congr hrest, node_modify hv, node_append]
    rw [hrest, ranks_append, List.prefix_append_right_inj] at hks hkey
    cases rest with
    | nil => exact absurd List.nil_prefix hks
    | cons k' rest =>
        have hk : nocaseRank k ≠ nocaseRank k' := fun h => by
          rw [ranks, ranks, List.map_cons, List.map_cons, h] at hkey
          exact hkey ((List.prefix_cons_inj _).mpr List.nil_prefix)
        cases hnode : node path v with
        | none => rfl
        | some y => exact node_add_other (hv.find hnode) k hk rest
  · exact node_modify_other hv hpath fun h => hks (h.trans (List.prefix_append _ _))

theorem find_eq : v.find k = node [k] v := by
  have hfind := foldlM_find hv true [k]
  rw [← hfind]
  simp [find]

/-- `set`: the key is there, and what is kept stays. -/
theorem set_spec : IsConfig (v.toSection.set k) ∧ (node [k] (v.toSection.set k)).isSome ∧
    ∀ k' ks, (nocaseRank k = nocaseRank k' → ks ≠ []) →
      node (k' :: ks) (v.toSection.set k) = node (k' :: ks) v := by
  obtain ⟨m, hm, hasc, hall, hnode⟩ := toSection_eq hv
  have hold : (lookupBy nocaseLess k m).getD .null = ((node [k] v).getD .null) := by
    rw [← hnode, node_cons_map, lookupBy_eq nocaseLess_iff hasc]
    cases stored nocaseRank k m with
    | none => rfl
    | some e => rfl
  rw [hm, Variant.set, hold]
  refine ⟨.assign hasc hall k ?_, ?_, fun k' ks hks => ?_⟩
  · cases hfound : node [k] v with
    | none => exact .null
    | some x => exact hv.find hfound
  · rw [node_assign hasc, if_pos rfl]
    rfl
  · rw [node_assign hasc, ← hnode]
    split
    next hk =>
      obtain ⟨k₂, ks₂, rfl⟩ := List.exists_cons_of_ne_nil (hks hk)
      have hsame : node (k' :: k₂ :: ks₂) v = node ([k] ++ k₂ :: ks₂) v :=
        node_congr (by rw [ranks, ranks, List.map_cons, ← hk]; rfl) v
      rw [hnode, hsame, node_append]
      cases node [k] v with
      | none => rfl
      | some x => rfl
    next => exact hnode k' ks

end Add

end Variant

end Edm.Protocolbuf
