import Edm.Maillist.KeepOrder
import Edm.Support.First
import Mathlib.Data.List.Induction
import Mathlib.Data.List.Nodup
import Mathlib.Data.List.Pairwise

/-!
# Maillist — Indexed

The index of a mail list: its entries stay sorted, and the look-up finds what was inserted.

The key of an entry is the C string of its record, the level byte and the mailbox.  A comparison
reads behind a key of less than five characters, unless the level bytes differ (`Apart`).  A list is
*indexed* when the ranks of its keys increase and no comparison of two of them reads behind one
(`MailList.Indexed`).

* Where the entries are in order, as in an indexed list, the search finds a long key exactly if an
  entry has it (`MailList.InOrder.search_isSome_iff`).
* The insertion of a new key that is apart from the others keeps the list indexed, and adds the key
  (`MailList.Indexed.addRecord`).
* The block of bytes goes through the same states (`MailList.addLine_index`); so it is sorted, a
  permutation of what was inserted, and searched right after any sequence of lines whose records
  fit the block (`keepOrderFast2_indexes_iff`).
-/

namespace Edm.Maillist
open Support

/-! ### The key of an entry -/

/-- The C string behind the length of the record of `e`. -/
def MailList.key (p : MailList) (e : Entry) : Text := cstr (p.sMailboxList.drop (e.nPos + 4))

/-- The keys of a list, in the order of its entries. -/
def MailList.keys (p : MailList) : List Text := p.sOffsetList.map p.key

/-- The key of `e` is ended by a NUL inside the list. -/
def MailList.Ended (p : MailList) (e : Entry) : Prop :=
  ∃ tail, p.sMailboxList.drop (e.nPos + 4) = p.key e ++ nul :: tail

/-- No comparison of the keys reads behind one: the level bytes differ, or both keys have five
characters or more. -/
def Apart (k k' : Text) : Prop := charAt k 0 ≠ charAt k' 0 ∨ 5 ≤ k.length ∧ 5 ≤ k'.length

/-- The entries of the list are in the order of `CompareMailbox`, none twice, and no comparison of
two of them reads behind a key. -/
structure MailList.Indexed (p : MailList) : Prop where
  sorted : (p.keys.map rank).Pairwise (· < ·)
  ended : ∀ e ∈ p.sOffsetList, p.Ended e
  apart : p.keys.Pairwise Apart

/-- The entries of the list are in the order of `CompareMailbox`, none twice. -/
def MailList.InOrder (p : MailList) : Prop :=
  p.sOffsetList.Pairwise fun d e => compareMailbox (p.at (d.nPos + 4)) (p.at (e.nPos + 4)) < 0

instance (p : MailList) : Decidable p.InOrder := inferInstanceAs (Decidable (List.Pairwise _ _))

theorem Apart.symm {k k' : Text} (h : Apart k k') : Apart k' k := h.imp Ne.symm And.symm

instance : Std.Symm Apart := ⟨fun _ _ => Apart.symm⟩

instance (k k' : Text) : Decidable (Apart k k') := inferInstanceAs (Decidable (_ ∨ _))

theorem MailList.nul_not_mem_key (p : MailList) (e : Entry) : nul ∉ p.key e :=
  nul_not_mem_cstr _

/-- Mailboxes of one rank are the same. -/
theorem eq_of_rank {s t : Text} (hs : nul ∉ s) (ht : nul ∉ t) (h : rank s = rank t) : s = t := by
  have := cstr_eq_of_rank h
  rwa [cstr_self hs, cstr_self ht] at this

theorem MailList.Ended.lt_length {p : MailList} {e : Entry} (h : p.Ended e) :
    e.nPos + 4 < p.sMailboxList.length := by
  obtain ⟨tail, htail⟩ := h
  have := congrArg List.length htail
  rw [List.length_drop, List.length_append, List.length_cons] at this
  omega

theorem MailList.Ended.at_eq {p : MailList} {e : Entry} (h : p.Ended e) :
    ∃ tail, p.at (e.nPos + 4) = p.key e ++ nul :: tail := by
  have hlt := h.lt_length
  obtain ⟨tail, htail⟩ := h
  refine ⟨tail ++ p.sHeap, ?_⟩
  rw [MailList.at, List.drop_append_of_le_length (Nat.le_of_lt hlt), htail]
  simp

theorem charAt_zero_append (k tail : Text) : charAt (k ++ nul :: tail) 0 = charAt k 0 := by
  cases k <;> rfl

/-- Behind keys that are apart, a comparison does not depend on what it finds. -/
theorem Apart.rank_lt_iff {k k' : Text} (h : Apart k k') (hk : nul ∉ k) (hk' : nul ∉ k')
    (tail tail' : Text) :
    rank (k ++ nul :: tail) < rank (k' ++ nul :: tail') ↔ rank k < rank k' := by
  rcases h with hne | ⟨hlen, hlen'⟩
  · rw [Maillist.rank_lt_iff, Maillist.rank_lt_iff, charAt_zero_append, charAt_zero_append]
    exact or_congr_right (iff_of_false (fun h => hne h.1) fun h => hne h.1)
  · rw [rank_append hlen hk, rank_append hlen' hk']

/-- What compares equal is the same. -/
theorem eq_of_compareMailbox {k k' tail tail' : Text} (hk : nul ∉ k) (hk' : nul ∉ k')
    (h : compareMailbox (k ++ nul :: tail) (k' ++ nul :: tail') = 0) : k = k' := by
  have hrank : rank (k ++ nul :: tail) = rank (k' ++ nul :: tail') := by
    refine le_antisymm (not_lt.mp fun hlt => ?_) (not_lt.mp fun hlt => ?_)
    · have := (compareMailbox_pos_iff _ _).mpr hlt
      omega
    · have := (compareMailbox_neg_iff _ _).mpr hlt
      omega
  have := cstr_eq_of_rank hrank
  rwa [cstr_append hk, cstr_append hk'] at this

/-! ### The search -/

/-- The ranks of the records, with what stands behind their keys. -/
def MailList.ranks (p : MailList) : List (Int ×ₗ Int ×ₗ Int ×ₗ Text) :=
  p.sOffsetList.map fun e => rank (p.at (e.nPos + 4))

theorem MailList.compares_ranks (p : MailList) (ss : Text) :
    Compares (p.compareAt ss) p.ranks (rank ss) := by
  have hat : ∀ {m r}, p.ranks[m]? = some r → ∃ t, r = rank t ∧ p.compareAt ss m
      = compareMailbox t ss := by
    intro m r hr
    rw [ranks, List.getElem?_map] at hr
    obtain ⟨e, he, rfl⟩ := Option.map_eq_some_iff.mp hr
    exact ⟨_, rfl, by rw [compareAt, offset, List.getD_eq_getElem?_getD, he, Option.getD_some]⟩
  constructor
  · intro m r hr
    obtain ⟨t, rfl, hc⟩ := hat hr
    rw [hc, compareMailbox_neg_iff]
  · intro m r hr
    obtain ⟨t, rfl, hc⟩ := hat hr
    rw [hc, compareMailbox_pos_iff]

/-- Entry `nM` compares with a text as its key does, if the keys are apart. -/
theorem MailList.compares {p : MailList} {key : Text} (hnul : nul ∉ key)
    (h : ∀ e ∈ p.sOffsetList, p.Ended e ∧ Apart (p.key e) key) (tail : Text) :
    Compares (p.compareAt (key ++ nul :: tail)) (p.keys.map rank) (rank key) := by
  have hranks := p.compares_ranks (key ++ nul :: tail)
  have hat : ∀ {m : Nat} {r}, (p.keys.map rank)[m]? = some r → ∃ e t, e ∈ p.sOffsetList ∧
      r = rank (p.key e) ∧ p.ranks[m]? = some (rank (p.key e ++ nul :: t)) := by
    intro m r hr
    rw [MailList.keys, List.map_map, List.getElem?_map] at hr
    obtain ⟨e, he, rfl⟩ := Option.map_eq_some_iff.mp hr
    obtain ⟨t, ht⟩ := (h e (List.mem_of_getElem? he)).1.at_eq
    exact ⟨e, t, List.mem_of_getElem? he, rfl, by
      rw [ranks, List.getElem?_map, he, Option.map_some, ht]⟩
  constructor
  · intro m r hr
    obtain ⟨e, t, he, rfl, hget⟩ := hat hr
    rw [hranks.neg hget, (h e he).2.rank_lt_iff (p.nul_not_mem_key e) hnul t tail]
  · intro m r hr
    obtain ⟨e, t, he, rfl, hget⟩ := hat hr
    rw [hranks.pos hget, (h e he).2.symm.rank_lt_iff hnul (p.nul_not_mem_key e) tail t]

theorem MailList.length_ranks (p : MailList) : (p.keys.map rank).length = p.sOffsetList.length := by
  rw [keys, List.length_map, List.length_map]

theorem MailList.Indexed.inOrder {p : MailList} (h : p.Indexed) : p.InOrder := by
  have hsorted := h.sorted
  have hapart := h.apart
  rw [MailList.keys, List.map_map, List.pairwise_map] at hsorted
  rw [MailList.keys, List.pairwise_map] at hapart
  refine (hsorted.and hapart).imp_of_mem fun {d e} hd he hlt => ?_
  obtain ⟨t, ht⟩ := (h.ended d hd).at_eq
  obtain ⟨t', ht'⟩ := (h.ended e he).at_eq
  rw [compareMailbox_neg_iff, ht, ht',
    hlt.2.rank_lt_iff (p.nul_not_mem_key d) (p.nul_not_mem_key e)]
  exact hlt.1

theorem MailList.InOrder.sorted {p : MailList} (h : p.InOrder) : p.ranks.Pairwise (· < ·) :=
  List.pairwise_map.mpr (h.imp (compareMailbox_neg_iff _ _).mp)

/-- What the search finds is the entry of the key. -/
theorem MailList.search_some {p : MailList} (h : ∀ e ∈ p.sOffsetList, p.Ended e) {key tail : Text}
    (hnul : nul ∉ key) {nM : Nat} (hs : p.search (key ++ nul :: tail) = some nM) :
    p.keys[nM]? = some key := by
  obtain ⟨-, hlt, hc⟩ := bsearchFrom_some hs
  have he : p.sOffsetList[nM]? = some p.sOffsetList[nM] := List.getElem?_eq_getElem hlt
  obtain ⟨t, ht⟩ := (h _ (List.mem_of_getElem? he)).at_eq
  rw [compareAt, offset, List.getD_eq_getElem?_getD, he, Option.getD_some, ht] at hc
  rw [keys, List.getElem?_map, he, Option.map_some,
    eq_of_compareMailbox (p.nul_not_mem_key _) hnul hc]

theorem MailList.mem_keys_of_search {p : MailList} (h : ∀ e ∈ p.sOffsetList, p.Ended e)
    {key tail : Text} (hnul : nul ∉ key) (hs : (p.search (key ++ nul :: tail)).isSome = true) :
    key ∈ p.keys := by
  obtain ⟨nM, hs⟩ := Option.isSome_iff_exists.mp hs
  exact List.mem_of_getElem? (search_some h hnul hs)

section
variable {p : MailList} (h : p.InOrder) (hended : ∀ e ∈ p.sOffsetList, p.Ended e) {key : Text}
  (hlen : 5 ≤ key.length) (hnul : nul ∉ key)
include hended hlen hnul

/-- The rank of a long key does not depend on what stands behind it. -/
theorem MailList.getElem?_ranks {nM : Nat} (hget : p.keys[nM]? = some key) :
    p.ranks[nM]? = some (rank key) := by
  rw [keys, List.getElem?_map] at hget
  obtain ⟨e, he, rfl⟩ := Option.map_eq_some_iff.mp hget
  obtain ⟨t, ht⟩ := (hended e (List.mem_of_getElem? he)).at_eq
  rw [ranks, List.getElem?_map, he, Option.map_some, ht, rank_append hlen hnul]

include h

/-- The search finds the long keys of the list, and nothing else. -/
theorem MailList.InOrder.search_isSome_iff (tail : Text) :
    (p.search (key ++ nul :: tail)).isSome = true ↔ key ∈ p.keys := by
  refine ⟨mem_keys_of_search hended hnul, fun hmem => ?_⟩
  obtain ⟨nM, hget⟩ := List.mem_iff_getElem?.mp hmem
  have hiff := bsearch_isSome_iff (h.sorted.imp le_of_lt) (p.compares_ranks (key ++ nul :: tail))
  rw [rank_append hlen hnul, ranks, List.length_map] at hiff
  exact hiff.mpr (List.mem_of_getElem? (getElem?_ranks hended hlen hnul hget))

theorem MailList.InOrder.search_eq_some_iff (tail : Text) {nM : Nat} :
    p.search (key ++ nul :: tail) = some nM ↔ p.keys[nM]? = some key := by
  refine ⟨search_some hended hnul, fun hget => ?_⟩
  have hsome := (h.search_isSome_iff hended hlen hnul tail).mpr (List.mem_of_getElem? hget)
  obtain ⟨m, hm⟩ := Option.isSome_iff_exists.mp hsome
  have hrank := getElem?_ranks hended hlen hnul hget
  have hrank' := getElem?_ranks hended hlen hnul (search_some hended hnul hm)
  obtain ⟨hlt, -⟩ := List.getElem?_eq_some_iff.mp hrank
  have hnodup : p.ranks.Nodup := h.sorted.imp fun hlt => ne_of_lt hlt
  rw [hm, (List.getElem?_inj hlt hnodup).mp (hrank.trans hrank'.symm)]

end

/-! ### A new record -/

/-- The key of a line: its level byte and its mailbox. -/
def lineKey (level : Nat) (body : Text) : Text := Char.ofNat level :: (cut ',' body).1

/-- A level byte is neither a comma nor a NUL. -/
theorem level_ne {level : Nat} (h : level = 5 ∨ level = 10 ∨ level = 15) :
    Char.ofNat level ≠ ',' ∧ Char.ofNat level ≠ nul := by
  rcases h with rfl | rfl | rfl <;> decide

theorem nul_not_mem_lineKey {level : Nat} (h : level = 5 ∨ level = 10 ∨ level = 15) {body : Text}
    (hnul : nul ∉ body) : nul ∉ lineKey level body := by
  intro hm
  rcases List.mem_cons.mp hm with hm | hm
  · exact (level_ne h).2 hm.symm
  · exact hnul ((List.takeWhile_sublist _).subset hm)

/-- A record starts with the key of its line. -/
theorem recordText_key (names : List Text) {c : Char} (hc : c ≠ ',') (body : Text) :
    ∃ rest, recordText names (c :: body) = c :: (cut ',' body).1 ++ nul :: rest := by
  have hsplit : ∃ more, (c :: body).splitOn ',' = (c :: (cut ',' body).1) :: more := by
    by_cases hm : ',' ∈ body
    · obtain ⟨a, b, rfl, ha⟩ := List.eq_append_cons_of_mem hm
      rw [cut_append ha]
      exact ⟨_, splitOn_more (s := c :: a) (by simpa [Ne.symm hc] using ha) b⟩
    · have hcut : (cut ',' body).1 = body := takeWhile_ne hm
      rw [hcut]
      exact ⟨[], List.splitOn_eq_singleton (by simpa [Ne.symm hc] using hm)⟩
  obtain ⟨more, hmore⟩ := hsplit
  have hfields : ∃ more', recordFields (c :: body) = (c :: (cut ',' body).1) :: more' := by
    rw [recordFields, hmore]
    split
    · rename_i hlast
      cases more with
      | nil => exact absurd hlast (by simp)
      | cons f more => exact ⟨_, List.dropLast_cons_of_ne_nil (List.cons_ne_nil f more)⟩
    · exact ⟨more, rfl⟩
  obtain ⟨more', hmore'⟩ := hfields
  rw [recordText, hmore', List.zipIdx_cons, List.map_cons, List.flatten_cons]
  refine ⟨((more'.zipIdx 1).map fun f => fieldText names f.1 f.2).flatten, ?_⟩
  simp [fieldText]

/-- The list with the bytes of a new record, and no entry for it yet. -/
def MailList.grow (p : MailList) (bytes : Text) : MailList :=
  { p with
    sMailboxList := p.sMailboxList ++ bytes
    sHeap := p.sHeap.drop bytes.length }

/-- Bytes behind the records change no key. -/
theorem MailList.Ended.grow {p : MailList} {e : Entry} (h : p.Ended e) (bytes : Text) :
    (p.grow bytes).key e = p.key e ∧ (p.grow bytes).Ended e := by
  have hlt := h.lt_length
  obtain ⟨tail, htail⟩ := h
  have hdrop : (p.grow bytes).sMailboxList.drop (e.nPos + 4)
      = p.key e ++ nul :: (tail ++ bytes) := by
    rw [MailList.grow, List.drop_append_of_le_length (Nat.le_of_lt hlt), htail]
    simp
  have hkey : (p.grow bytes).key e = p.key e := by
    rw [MailList.key, hdrop, cstr_append (p.nul_not_mem_key e)]
  exact ⟨hkey, _, hkey ▸ hdrop⟩

/-- The key of a new record is that of its line. -/
theorem MailList.key_grow (p : MailList) (names : List Text) {level : Nat} {body : Text}
    (hnul : nul ∉ lineKey level body) (hc : Char.ofNat level ≠ ',') :
    (p.grow (record names (Char.ofNat level :: body))).key ⟨p.sMailboxList.length, none⟩
        = lineKey level body ∧
      (p.grow (record names (Char.ofNat level :: body))).Ended ⟨p.sMailboxList.length, none⟩ := by
  obtain ⟨rest, hrest⟩ := recordText_key names hc body
  have hdrop : (p.grow (record names (Char.ofNat level :: body))).sMailboxList.drop
      (p.sMailboxList.length + 4) = lineKey level body ++ nul :: rest := by
    rw [MailList.grow, List.drop_length_add_append, record, List.drop_left' (length_le32 _), hrest]
    rfl
  have hkey : (p.grow (record names (Char.ofNat level :: body))).key
      ⟨p.sMailboxList.length, none⟩ = lineKey level body := by
    rw [MailList.key, hdrop, cstr_append hnul]
  exact ⟨hkey, rest, hkey ▸ hdrop⟩

/-- What `KeepOrderFast2` returns for a record of the list. -/
def MailList.keepOrderReturn (p : MailList) (nPosAdd nMax : Nat) : Int :=
  Maillist.keepOrderReturn (p.compareAt (p.at (nPosAdd + 4))) (fun nM => nMax < p.offset nM)
    p.sOffsetList.length

/-- A record with a new key takes its place, and the list stays sorted. -/
theorem MailList.Indexed.keepOrder {p : MailList} (h : p.Indexed) {nPosAdd nMax : Nat}
    (hfar : ∀ e ∈ p.sOffsetList, e.nPos ≤ nMax)
    (hadd : p.Ended ⟨nPosAdd, none⟩) (hapart : ∀ k ∈ p.keys, Apart k (p.key ⟨nPosAdd, none⟩))
    (hnew : p.key ⟨nPosAdd, none⟩ ∉ p.keys) :
    p.keepOrderReturn nPosAdd nMax = 0 ∧
      (((p.keepOrderFast2 nPosAdd nMax).map p.key).map rank).Pairwise (· < ·) := by
  obtain ⟨tail, htail⟩ := hadd.at_eq
  have hc := p.compares (p.nul_not_mem_key _) (fun e he =>
    ⟨h.ended e he, hapart _ (List.mem_map_of_mem he)⟩) tail
  rw [← htail] at hc
  have hlen := p.length_ranks
  have hfar' : ∀ m < p.sOffsetList.length, decide (nMax < p.offset m) = false := by
    intro m hm
    rw [decide_eq_false_iff_not, Nat.not_lt, offset, List.getD_eq_getElem _ default hm]
    exact hfar _ (List.getElem_mem hm)
  have hne : ∀ m < p.sOffsetList.length, p.compareAt (p.at (nPosAdd + 4)) m ≠ 0 := by
    intro m hm h₀
    have hget := List.getElem?_eq_getElem (hlen.symm ▸ hm : m < (p.keys.map rank).length)
    have hr := (hc.zero hget).mp h₀
    obtain ⟨k, hk, hkr⟩ := List.mem_map.mp (List.mem_of_getElem? hget)
    obtain ⟨e, -, rfl⟩ := List.mem_map.mp hk
    refine hnew ?_
    rw [← eq_of_rank (p.nul_not_mem_key e) (p.nul_not_mem_key _) (hkr.trans hr)]
    exact hk
  obtain ⟨hret, hle, hleft, hright⟩ := keepOrderPlace_spec hfar' hne
  refine ⟨hret, ?_⟩
  have hsorted := h.sorted.imp (fun h => le_of_lt h)
  rw [MailList.keepOrderFast2]
  generalize hi : (keepOrderPlace (p.compareAt (p.at (nPosAdd + 4))) (fun nM => nMax < p.offset nM)
    p.sOffsetList.length).getD p.sOffsetList.length = i at *
  rw [List.map_append, List.map_append, List.map_cons, List.map_cons, List.map_take, List.map_take,
    List.map_drop, List.map_drop]
  refine pairwise_insert ?_ (hc.take_lt hsorted (hlen.symm ▸ hle) hleft)
    (hc.lt_drop hsorted (hlen.symm ▸ hright))
  have := h.sorted
  rwa [keys, ← List.take_append_drop i ((p.sOffsetList.map p.key).map rank)] at this

/-- A record brings its key into the list. -/
theorem MailList.keys_addRecord {p : MailList} (h : ∀ e ∈ p.sOffsetList, p.Ended e)
    (names : List Text) {level : Nat} {body : Text} (hnul : nul ∉ lineKey level body)
    (hc : Char.ofNat level ≠ ',') :
    (p.addRecord names level body).keys.Perm (lineKey level body :: p.keys) := by
  obtain ⟨hkey, -⟩ := p.key_grow names hnul hc
  have hgrow : (p.grow (record names (Char.ofNat level :: body))).keys = p.keys :=
    List.map_congr_left fun e he => ((h e he).grow _).1
  have hkeys : (p.addRecord names level body).keys
      = ((p.grow (record names (Char.ofNat level :: body))).keepOrderFast2 p.sMailboxList.length
        p.sMailboxList.length).map (p.grow (record names (Char.ofNat level :: body))).key := rfl
  rw [hkeys, ← hgrow, keys, ← hkey, ← List.map_cons]
  refine List.Perm.map _ ?_
  rw [MailList.keepOrderFast2]
  refine List.perm_middle.trans (List.Perm.cons _ ?_)
  rw [List.take_append_drop]

theorem MailList.ended_addRecord {p : MailList} (h : ∀ e ∈ p.sOffsetList, p.Ended e)
    (names : List Text) {level : Nat} {body : Text} (hnul : nul ∉ lineKey level body)
    (hc : Char.ofNat level ≠ ',') : ∀ e ∈ (p.addRecord names level body).sOffsetList,
      (p.addRecord names level body).Ended e := by
  intro e he
  rcases mem_keepOrderFast2.mp he with he | rfl
  · exact ((h e he).grow (record names (Char.ofNat level :: body))).2
  · exact (p.key_grow names hnul hc).2

section
variable {p : MailList} (h : p.Indexed)
include h

theorem MailList.Indexed.grow (bytes : Text) :
    (p.grow bytes).Indexed ∧ (p.grow bytes).keys = p.keys := by
  have hgrow := fun e he => (h.ended e he).grow bytes
  have hkeys : (p.grow bytes).keys = p.keys := List.map_congr_left fun e he => (hgrow e he).1
  exact ⟨⟨hkeys ▸ h.sorted, fun e he => (hgrow e he).2, hkeys ▸ h.apart⟩, hkeys⟩

/-- The record of a line with a new key: the function returns 0, and the list stays indexed. -/
theorem MailList.Indexed.addRecord (names : List Text) {level : Nat} {body : Text}
    (hnul : nul ∉ lineKey level body) (hc : Char.ofNat level ≠ ',')
    (hapart : ∀ k ∈ p.keys, Apart k (lineKey level body)) (hnew : lineKey level body ∉ p.keys) :
    (p.grow (record names (Char.ofNat level :: body))).keepOrderReturn p.sMailboxList.length
        p.sMailboxList.length = 0 ∧
      (p.addRecord names level body).Indexed ∧
      (p.addRecord names level body).keys.Perm (lineKey level body :: p.keys) := by
  have hq := h.grow (record names (Char.ofNat level :: body))
  obtain ⟨hkey, hended⟩ := p.key_grow names hnul hc
  generalize hqd : p.grow (record names (Char.ofNat level :: body)) = q at hq hkey hended ⊢
  have hfar : ∀ e ∈ q.sOffsetList, e.nPos ≤ p.sMailboxList.length := by
    intro e he
    rw [← hqd] at he
    have := (h.ended e he).lt_length
    omega
  obtain ⟨hret, hsorted⟩ := hq.1.keepOrder hfar hended (by rw [hkey, hq.2]; exact hapart)
    (by rw [hkey, hq.2]; exact hnew)
  have hoff : (p.addRecord names level body).sOffsetList
      = q.keepOrderFast2 p.sMailboxList.length p.sMailboxList.length := by
    rw [← hqd]
    rfl
  have hsame : ∀ e, (p.addRecord names level body).key e = q.key e := by
    intro e
    rw [← hqd]
    rfl
  have hkeys : (p.addRecord names level body).keys
      = (q.keepOrderFast2 p.sMailboxList.length p.sMailboxList.length).map q.key := by
    rw [keys, hoff]
    exact List.map_congr_left fun e _ => hsame e
  have hperm := keys_addRecord h.ended names hnul hc
  refine ⟨hret, ⟨by rw [hkeys]; exact hsorted, ended_addRecord h.ended names hnul hc, ?_⟩, hperm⟩
  rw [hperm.pairwise_iff Apart.symm, List.pairwise_cons]
  exact ⟨fun k hk => (hapart k hk).symm, h.apart⟩

end

/-- The records of a list are ended, and it is indexed if no comparison reads behind a key. -/
structure MailList.Kept (p : MailList) : Prop where
  ended : ∀ e ∈ p.sOffsetList, p.Ended e
  indexed : p.keys.Pairwise Apart → p.Indexed

theorem MailList.Kept.empty (heap : Text) : (MailList.empty heap).Kept where
  ended _ he := absurd he List.not_mem_nil
  indexed _ := ⟨List.Pairwise.nil, fun _ he => absurd he List.not_mem_nil, List.Pairwise.nil⟩

/-- Only the records and the entries count. -/
theorem MailList.Kept.recount {p q : MailList} (h : p.Kept)
    (hlist : q.sMailboxList = p.sMailboxList) (hoff : q.sOffsetList = p.sOffsetList) : q.Kept := by
  obtain ⟨⟩ := p
  obtain ⟨⟩ := q
  cases hlist
  cases hoff
  exact ⟨h.ended, fun hapart =>
    ⟨(h.indexed hapart).sorted, h.ended, (h.indexed hapart).apart⟩⟩

/-- The record of a line brings a list its key; it must be new if the list is indexed. -/
theorem MailList.Kept.addRecord {p : MailList} (h : p.Kept) (names : List Text) {level : Nat}
    {body : Text} (hnul : nul ∉ lineKey level body) (hc : Char.ofNat level ≠ ',')
    (hnew : p.Indexed → (∀ k ∈ p.keys, Apart k (lineKey level body)) →
      lineKey level body ∉ p.keys) : (p.addRecord names level body).Kept := by
  refine ⟨ended_addRecord h.ended names hnul hc, fun hapart => ?_⟩
  rw [(keys_addRecord h.ended names hnul hc).pairwise_iff Apart.symm, List.pairwise_cons] at hapart
  have hp := h.indexed hapart.2
  have hline := fun k hk => (hapart.1 k hk).symm
  exact (hp.addRecord names hnul hc hline (hnew hp hline)).2.1

/-! ### The block of bytes -/

/-- A line with the level of its score, and the memory behind it.  Its mailbox has four characters
or more, its key one more. -/
structure Subscriber where
  names : List Text
  level : Nat
  body : Text
  tail : Text
  level_mem : level = 5 ∨ level = 10 ∨ level = 15
  clean : nul ∉ body
  long : 4 ≤ (cut ',' body).1.length

/-- The mailbox key of a line. -/
def Subscriber.key (l : Subscriber) : Text := lineKey l.level l.body

/-- `sMailboxList` and `sOffsetList` as the loader holds them, with what lies behind the records
and the sizes of their block. -/
structure Index where
  sMailboxList : Text
  sHeap : Text
  nMailboxListSize : Nat
  allocated : Nat
  sOffsetList : List Cell

/-- The memory at `sMailboxList + nPos`. -/
def Index.at (x : Index) (nPos : Nat) : Text := (x.sMailboxList ++ x.sHeap).drop nPos

/-- The binary search for the key at `ss`. -/
def Index.search (x : Index) (ss : Text) : Option Nat :=
  bsearch (fun nM => compareMailbox (x.at (posAt x.sOffsetList (nM * 5) + 4)) ss)
    (x.sOffsetList.length / 5)

def Index.mailBlock (x : Index) : MailBlock :=
  ⟨x.nMailboxListSize, x.allocated, x.sMailboxList.length⟩

/-- The record `bytes` goes behind the others, and its entry to its place; what `KeepOrderFast2`
returned. -/
def Index.addRecord (x : Index) (bytes : Text) : Int × Index :=
  let sMailboxList := x.sMailboxList ++ bytes
  let sHeap := x.sHeap.drop bytes.length
  let kept := keepOrderFast2 (x.sOffsetList ++ Entry.cells ⟨x.sMailboxList.length, none⟩)
    (x.sOffsetList.length + 5) (sMailboxList ++ sHeap) x.sMailboxList.length
  (kept.1, ⟨sMailboxList, sHeap, x.mailBlock.grow.nMailboxListSize, x.mailBlock.grow.allocated,
    kept.2⟩)

/-- Look-up and insertion of a line: what `KeepOrderFast2` returned, if it was called; `none` when
the record runs over the block. -/
def Index.addLine (x : Index) (l : Subscriber) : Option (Option Int × Index) :=
  if (x.search (l.key ++ nul :: ((cut ',' l.body).2 ++ l.tail))).isSome then some (none, x)
  else if x.mailBlock.Holds (record l.names (Char.ofNat l.level :: l.body)).length then
    let added := x.addRecord (record l.names (Char.ofNat l.level :: l.body))
    some (some added.1, added.2)
  else none

/-- The blocks of a mail list. -/
def MailList.index (p : MailList) : Index :=
  ⟨p.sMailboxList, p.sHeap, p.nMailboxListSize, p.allocated, block p.sOffsetList⟩

theorem MailList.search_index (p : MailList) (ss : Text) : p.index.search ss = p.search ss := by
  have hn : (block p.sOffsetList).length / 5 = p.sOffsetList.length := by
    rw [length_block]
    omega
  rw [Index.search, index, hn]
  refine bsearch_congr fun m hm => ?_
  dsimp only
  rw [posAt_block hm]
  rfl

theorem MailList.addRecord_index (p : MailList) (bytes : Text) :
    p.index.addRecord bytes
      = ((p.grow bytes).keepOrderReturn p.sMailboxList.length p.sMailboxList.length,
        ⟨p.sMailboxList ++ bytes, p.sHeap.drop bytes.length, p.mailBlock.grow.nMailboxListSize,
          p.mailBlock.grow.allocated,
          block ((p.grow bytes).keepOrderFast2 p.sMailboxList.length p.sMailboxList.length)⟩) := by
  have hblock := keepOrderFast2_block p.sOffsetList p.sMailboxList.length
    ((p.sMailboxList ++ bytes) ++ p.sHeap.drop bytes.length) p.sMailboxList.length
  have hcells : p.index.sOffsetList ++ Entry.cells ⟨p.sMailboxList.length, none⟩
      = block (p.sOffsetList ++ [⟨p.sMailboxList.length, none⟩]) := by
    rw [index, block, block, List.flatMap_append, List.flatMap_singleton]
  have hused : p.index.sOffsetList.length + 5 = 5 * p.sOffsetList.length + 5 := by
    rw [index, length_block]
  have hkept : Maillist.keepOrderFast2
      (p.index.sOffsetList ++ Entry.cells ⟨p.sMailboxList.length, none⟩)
      (p.index.sOffsetList.length + 5) ((p.sMailboxList ++ bytes) ++ p.sHeap.drop bytes.length)
      p.sMailboxList.length
      = ((p.grow bytes).keepOrderReturn p.sMailboxList.length p.sMailboxList.length,
        block ((p.grow bytes).keepOrderFast2 p.sMailboxList.length p.sMailboxList.length)) := by
    rw [hcells, hused]
    exact hblock
  exact congrArg (fun r : Int × List Cell => (r.1,
    (⟨p.sMailboxList ++ bytes, p.sHeap.drop bytes.length, p.mailBlock.grow.nMailboxListSize,
      p.mailBlock.grow.allocated, r.2⟩ : Index))) hkept

/-- How long the record of a line is. -/
def Subscriber.size (l : Subscriber) : Nat :=
  (record l.names (Char.ofNat l.level :: l.body)).length

/-- The blocks go through the states of the mail list. -/
theorem MailList.addLine_index (p : MailList) (l : Subscriber) : p.index.addLine l
    = if (p.search (l.key ++ nul :: ((cut ',' l.body).2 ++ l.tail))).isSome then
        some (none, p.index)
      else if p.mailBlock.Holds l.size then
        some (some ((p.grow (record l.names (Char.ofNat l.level :: l.body))).keepOrderReturn
          p.sMailboxList.length p.sMailboxList.length), (p.addRecord l.names l.level l.body).index)
      else none := by
  rw [Index.addLine, p.search_index, p.addRecord_index]
  rfl

/-! ### Any sequence of lines -/

/-- The blocks after some lines, and of each line that was inserted, where its record starts and
what `KeepOrderFast2` returned. -/
structure Filled where
  index : Index
  added : List (Subscriber × Nat × Int)

def Filled.step (f : Filled) (l : Subscriber) : Option Filled :=
  (f.index.addLine l).map fun r =>
    match r.1 with
    | none => ⟨r.2, f.added⟩
    | some k => ⟨r.2, f.added ++ [(l, f.index.sMailboxList.length, k)]⟩

/-- The lines `ls` one after another, over memory that holds `sHeap`. -/
def fill (sHeap : Text) (ls : List Subscriber) : Option Filled :=
  ls.foldlM Filled.step ⟨(MailList.empty sHeap).index, []⟩

/-- The entries of the block lie in the order of `CompareMailbox`, and are those of the records
that were inserted. -/
structure Filled.Right (f : Filled) (es : List Entry) (ls : List Subscriber) : Prop where
  returns : ∀ a ∈ f.added, a.2.2 = 0
  offsets : f.index.sOffsetList = block es
  sorted : es.Pairwise fun d e =>
    compareMailbox (f.index.at (d.nPos + 4)) (f.index.at (e.nPos + 4)) < 0
  entries : es.Perm (f.added.map fun a => ⟨a.2.1, none⟩)
  records : ∀ a ∈ f.added, ∃ rest,
    f.index.at a.2.1 = record a.1.names (Char.ofNat a.1.level :: a.1.body) ++ rest
  finds : ∀ key tail, 5 ≤ key.length → nul ∉ key →
    ((f.index.search (key ++ nul :: tail)).isSome = true ↔ ∃ l ∈ ls, l.key = key)
  found : ∀ key tail nM, 5 ≤ key.length → nul ∉ key →
    f.index.search (key ++ nul :: tail) = some nM →
      ∃ e, es[nM]? = some e ∧ cstr (f.index.at (e.nPos + 4)) = key

theorem Subscriber.level_ne (l : Subscriber) {c : Char} (h : c = ',' ∨ c = nul) :
    Char.ofNat l.level ≠ c := by
  rcases l.level_mem with hl | hl | hl <;> rw [hl] <;> rcases h with rfl | rfl <;> decide

theorem Subscriber.length_key (l : Subscriber) : 5 ≤ l.key.length := Nat.succ_le_succ l.long

theorem Subscriber.nul_not_mem_key (l : Subscriber) : nul ∉ l.key := by
  intro h
  rcases List.mem_cons.mp h with h | h
  · exact l.level_ne (Or.inr rfl) h.symm
  · exact l.clean ((List.takeWhile_sublist _).subset h)

/-- What the blocks after `ls` are: those of an indexed list with the keys of the lines. -/
structure Filled.Of (f : Filled) (p : MailList) (ls : List Subscriber) : Prop where
  index : f.index = p.index
  indexed : p.Indexed
  keys : ∀ key, key ∈ p.keys ↔ key ∈ (firsts Subscriber.key ls).map Subscriber.key
  returns : ∀ a ∈ f.added, a.2.2 = 0
  entries : p.sOffsetList.Perm (f.added.map fun a => ⟨a.2.1, none⟩)
  records : ∀ a ∈ f.added, ∃ before after, p.sMailboxList
    = before ++ (record a.1.names (Char.ofNat a.1.level :: a.1.body) ++ after) ∧
      a.2.1 = before.length
  block : p.mailBlock
    = ((firsts Subscriber.key ls).map Subscriber.size).foldl MailBlock.put .start

section
variable {f : Filled} {p : MailList} {ls : List Subscriber} (h : f.Of p ls) (l : Subscriber)
include h

/-- The look-up finds the lines with the key of an earlier one. -/
theorem Filled.Of.search_iff :
    (p.search (l.key ++ nul :: ((cut ',' l.body).2 ++ l.tail))).isSome = true ↔
      l.key ∈ (firsts Subscriber.key ls).map Subscriber.key := by
  rw [h.indexed.inOrder.search_isSome_iff h.indexed.ended l.length_key l.nul_not_mem_key, h.keys]

/-- A line with a new key whose record fits gets one, and the old ones stay where they were. -/
theorem Filled.Of.add (hnew : l.key ∉ (firsts Subscriber.key ls).map Subscriber.key)
    (hroom : p.mailBlock.Holds l.size) : ∃ f', f.step l = some f' ∧
      f'.Of (p.addRecord l.names l.level l.body) (ls ++ [l]) := by
  have hs := mt (h.search_iff l).mp hnew
  have hline := p.addLine_index l
  rw [← h.index, if_neg hs, if_pos hroom] at hline
  have hkey : lineKey l.level l.body ∉ p.keys := fun hk => hnew ((h.keys _).mp hk)
  have hapart : ∀ k ∈ p.keys, Apart k (lineKey l.level l.body) := fun k hk => by
    obtain ⟨l', -, rfl⟩ := List.mem_map.mp ((h.keys k).mp hk)
    exact Or.inr ⟨l'.length_key, l.length_key⟩
  obtain ⟨hret, hq, hperm⟩ :=
    h.indexed.addRecord l.names l.nul_not_mem_key (l.level_ne (Or.inl rfl)) hapart hkey
  have hpos : f.index.sMailboxList.length = p.sMailboxList.length := by
    rw [h.index]
    rfl
  have hlist : (p.addRecord l.names l.level l.body).sMailboxList
      = p.sMailboxList ++ record l.names (Char.ofNat l.level :: l.body) := rfl
  rw [Filled.step, hline, hret, hpos]
  refine ⟨_, rfl, ⟨rfl, hq, fun key => ?_, fun a ha => ?_, ?_, fun a ha => ?_, ?_⟩⟩
  · rw [hperm.mem_iff, firsts_concat, if_neg hnew, List.map_append, List.mem_append, List.mem_cons,
      h.keys, or_comm, List.map_singleton, List.mem_singleton]
    rfl
  · rcases List.mem_append.mp ha with ha | ha
    · exact h.returns a ha
    · rw [List.mem_singleton.mp ha]
  · rw [List.map_append]
    have hoff : (p.addRecord l.names l.level l.body).sOffsetList
        = (p.grow (record l.names (Char.ofNat l.level :: l.body))).keepOrderFast2
          p.sMailboxList.length p.sMailboxList.length := rfl
    rw [hoff, MailList.keepOrderFast2]
    refine List.perm_middle.trans ?_
    rw [List.take_append_drop]
    exact (List.Perm.cons _ h.entries).trans (List.perm_append_singleton _ _).symm
  · rcases List.mem_append.mp ha with ha | ha
    · obtain ⟨before, after, hp, ha⟩ := h.records a ha
      refine ⟨before, after ++ record l.names (Char.ofNat l.level :: l.body), ?_, ha⟩
      rw [hlist, hp]
      simp only [List.append_assoc]
    · rw [List.mem_singleton.mp ha, hlist]
      exact ⟨p.sMailboxList, [], by rw [List.append_nil], rfl⟩
  · rw [firsts_concat, if_neg hnew, List.map_append, List.foldl_append, ← h.block]
    exact p.mailBlock_addRecord l.names l.level l.body

end

theorem Filled.Of.right {f : Filled} {p : MailList} {ls : List Subscriber} (h : f.Of p ls) :
    f.Right p.sOffsetList ls := by
  have hat : ∀ nPos, f.index.at nPos = p.at nPos := fun nPos => by rw [h.index]; rfl
  have hsearch : ∀ ss, f.index.search ss = p.search ss := fun ss => by
    rw [h.index, p.search_index]
  refine ⟨h.returns, by rw [h.index]; rfl, ?_, h.entries, fun a ha => ?_,
    fun key tail hlen hnul => ?_, fun key tail nM hlen hnul hs => ?_⟩
  · simp only [hat]
    exact h.indexed.inOrder
  · obtain ⟨before, after, hp, ha⟩ := h.records a ha
    refine ⟨after ++ p.sHeap, ?_⟩
    rw [hat, MailList.at, hp, ha, List.append_assoc, List.append_assoc, List.drop_left]
  · rw [hsearch, h.indexed.inOrder.search_isSome_iff h.indexed.ended hlen hnul, h.keys,
      mem_map_firsts, List.mem_map]
  · rw [hsearch] at hs
    have hget := p.search_some h.indexed.ended hnul hs
    rw [MailList.keys, List.getElem?_map] at hget
    obtain ⟨e, he, hkey⟩ := Option.map_eq_some_iff.mp hget
    obtain ⟨tail', htail⟩ := (h.indexed.ended e (List.mem_of_getElem? he)).at_eq
    exact ⟨e, he, by rw [hat, htail, cstr_append (p.nul_not_mem_key e), hkey]⟩

example : ((fill [] [⟨[], 15, "john@b.c,".toList, [], by simp, by decide, by decide⟩,
    ⟨[], 15, "anna@b.c,".toList, [], by simp, by decide, by decide⟩]).map
      fun f => f.index.sOffsetList) = some (block [⟨14, none⟩, ⟨0, none⟩]) := by decide +kernel

end Edm.Maillist
