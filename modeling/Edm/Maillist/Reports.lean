import Edm.Maillist.Indexed
import Edm.Maillist.Rounds

/-!
# Maillist — Reports

Whether a delivery report reaches the entry of its mailbox.

`ChangeMailboxStatWithLevel` copies at most 89 bytes of the mailbox behind a level byte, and takes
the first entry it finds at the levels 5, 10 and 15 in turn.  Each list of a loaded task holds the
mailboxes of its domain (`MailList.Filed`).  Where it is in order, the search at a level finds
exactly the entry of the cut mailbox at it, if this has four characters or more.

So the reports for an entry reach it, whatever they report, if and only if its mailbox has at least
4 and at most 89 bytes and no entry has the same mailbox at a lower level (`reports_reach_iff`).  The
report of a longer mailbox returns -1 (`long_mailbox_unreported`).
-/

namespace Edm.Maillist
open Support

/-! ### The entries of a loaded list -/

/-- What holds of list `i` of a loaded task: each mailbox belongs to the domain of the list. -/
structure MailList.Filed {pAlias : DomainAlias} (i : Fin (pAlias.nDomainNum + 1)) (p : MailList) :
    Prop extends p.Kept where
  box : ∀ e ∈ p.sOffsetList, ∃ level m, (level = 5 ∨ level = 10 ∨ level = 15) ∧
    p.key e = Char.ofNat level :: m ∧ '@' ∈ m ∧ pAlias.which (cut '@' m).2 = i

/-- The look-up and the insertion keep the lists of a task filed. -/
theorem filed_kept (pAlias : DomainAlias) :
    KeptByBoxes fun i : Fin (pAlias.nDomainNum + 1) => MailList.Filed i where
  addBox i p p' names level body tail hlevel hnul hat hwhich h hadd := by
    have hbox : Char.ofNat level :: (cut ',' body).1 ++ nul :: (cut ',' body).2 ++ tail
        = lineKey level body ++ nul :: ((cut ',' body).2 ++ tail) := by
      simp only [lineKey, List.append_assoc, List.cons_append]
    rw [MailList.addBox, hbox, MailList.writeRecord] at hadd
    split_ifs at hadd with hs
    · exact Option.some.inj hadd ▸ h
    obtain rfl := Option.some.inj hadd
    have hkeynul := nul_not_mem_lineKey hlevel hnul
    refine ⟨h.toKept.addRecord names hkeynul (level_ne hlevel).1 fun hp hline hk => hs ?_,
      fun e he => ?_⟩
    · have hlen : 5 ≤ (lineKey level body).length :=
        ((hline _ hk).resolve_left fun hne => hne rfl).1
      exact (hp.inOrder.search_isSome_iff hp.ended hlen hkeynul _).mpr hk
    · -- The entries of the new list: the old ones, with their keys, and that of the line.
      rcases MailList.mem_keepOrderFast2.mp he with he | rfl
      · have hsame := ((h.ended e he).grow (record names (Char.ofNat level :: body))).1
        exact hsame ▸ h.box e he
      · exact ⟨level, (cut ',' body).1, hlevel,
          (p.key_grow names hkeynul (level_ne hlevel).1).1, hat, hwhich⟩
  reject _ _ h := ⟨h.toKept.recount rfl rfl, h.box⟩

theorem map_modify_of_eq {α β : Type*} {f : α → α} {g : α → β} (h : ∀ a, g (f a) = g a)
    (l : List α) (n : Nat) : (l.modify n f).map g = l.map g := by
  refine List.ext_getElem? fun m => ?_
  rw [List.getElem?_map, List.getElem?_map, List.getElem?_modify]
  cases l[m]? with
  | none => rfl
  | some a =>
      by_cases hm : n = m
      · simp [hm, h]
      · simp [hm]

theorem MailList.sMailboxList_setStat (p : MailList) (nStat : MailStat) (nM : Nat) :
    (p.setStat nStat nM).sMailboxList = p.sMailboxList :=
  (p.recount_round nStat _).2.2.2.1

theorem MailList.key_setStat (p : MailList) (nStat : MailStat) (nM : Nat) (e : Entry) :
    (p.setStat nStat nM).key e = p.key e := by
  rw [MailList.key, p.sMailboxList_setStat, MailList.key]

/-- A status changes no key. -/
theorem MailList.keys_setStat (p : MailList) (nStat : MailStat) (nM : Nat) :
    (p.setStat nStat nM).keys = p.keys := by
  have hkey : (p.setStat nStat nM).key = p.key := funext (p.key_setStat nStat nM)
  rw [MailList.keys, hkey]
  exact map_modify_of_eq (f := fun e : Entry => { e with stat := some nStat }) (fun _ => rfl)
    p.sOffsetList nM

/-- The entries after a report are those before it, but for a status. -/
theorem MailList.mem_setStat {p : MailList} {nStat : MailStat} {nM : Nat} {e : Entry}
    (he : e ∈ (p.setStat nStat nM).sOffsetList) : ∃ d ∈ p.sOffsetList, d.nPos = e.nPos := by
  have hpos : (p.setStat nStat nM).sOffsetList.map Entry.nPos = p.sOffsetList.map Entry.nPos :=
    map_modify_of_eq (f := fun e : Entry => { e with stat := some nStat }) (fun _ => rfl)
    p.sOffsetList nM
  obtain ⟨d, hd, h⟩ := List.mem_map.mp (hpos ▸ List.mem_map_of_mem he)
  exact ⟨d, hd, h⟩

theorem MailList.Filed.setStat {pAlias : DomainAlias} {i : Fin (pAlias.nDomainNum + 1)}
    {p : MailList} (h : p.Filed i) (nStat : MailStat) (nM : Nat) :
    (p.setStat nStat nM).Filed i := by
  have hsame : ∀ {d e : Entry}, d.nPos = e.nPos → p.key d = p.key e ∧ (p.Ended d ↔ p.Ended e) := by
    intro d e hde
    rw [MailList.Ended, MailList.Ended, MailList.key, MailList.key, hde]
    exact ⟨rfl, Iff.rfl⟩
  have hended : ∀ e, (p.setStat nStat nM).Ended e ↔ p.Ended e := by
    intro e
    rw [MailList.Ended, MailList.Ended, p.key_setStat, p.sMailboxList_setStat]
  have hall : ∀ e ∈ (p.setStat nStat nM).sOffsetList, (p.setStat nStat nM).Ended e := by
    intro e he
    obtain ⟨d, hd, hde⟩ := mem_setStat he
    exact (hended e).mpr ((hsame hde).2.mp (h.ended d hd))
  refine ⟨⟨hall, fun hapart => ?_⟩, fun e he => ?_⟩
  · rw [p.keys_setStat] at hapart
    exact ⟨by rw [p.keys_setStat]; exact (h.indexed hapart).sorted, hall,
      by rw [p.keys_setStat]; exact hapart⟩
  · obtain ⟨d, hd, hde⟩ := mem_setStat he
    rw [p.key_setStat, ← (hsame hde).1]
    exact h.box d hd

/-! ### The task -/

/-- A task that was loaded, and had any reports since. -/
inductive TaskQueue.Reported : TaskQueue → Prop where
  | loaded {t : TaskQueue} (h : t.IsLoaded) : TaskQueue.Reported t
  | report {t : TaskQueue} (h : t.Reported) (c : Report) : TaskQueue.Reported (t.changeStat c).2

theorem TaskQueue.isLoaded_of {nActiveScore : Int} {answers : List Text} {n : Int × Int × Int}
    {sID : Text} {pAlias : DomainAlias} {heap : Fin (pAlias.nDomainNum + 1) → Text} {pIn : Text}
    {r : Text × Lists pAlias}
    (h : readTaskFileWithLevel nActiveScore answers n sID pAlias heap pIn = some r)
    (tFinishTime tPauseTime : Int) :
    (⟨r.1, pAlias, r.2, tFinishTime, tPauseTime⟩ : TaskQueue).IsLoaded :=
  ⟨nActiveScore, answers, n, sID, heap, pIn, h⟩

theorem TaskQueue.IsLoaded.filed {t : TaskQueue} (h : t.IsLoaded) :
    ∀ i, (t.pMailList i).Filed i := by
  intro i
  obtain ⟨_, _, _, _, _, _, h⟩ := h
  obtain ⟨p, hp, hr⟩ := readTaskFileWithLevel_boxes (filed_kept t.pAlias)
    (fun i heap => ⟨.empty heap, fun _ he => absurd he List.not_mem_nil⟩) h i
  have hr : t.pMailList i = { p with nFail := p.nNotFound } := hr
  rw [hr]
  exact ⟨hp.toKept.recount rfl rfl, hp.box⟩

theorem TaskQueue.Reported.filed {t : TaskQueue} (h : t.Reported) :
    ∀ i, (t.pMailList i).Filed i := by
  induction h with
  | loaded h => exact h.filed
  | @report t _ c ih =>
      rw [TaskQueue.changeStat]
      split
      · exact ih
      · rename_i nWhich nM _
        exact forall_update (J := fun i p => p.Filed i) ih ((ih nWhich).setStat c.nStat nM)

/-! ### What the report finds -/

/-- The mailbox of an entry. -/
def MailList.box (p : MailList) (e : Entry) : Text := (p.key e).drop 1

/-- The level of an entry. -/
def MailList.level (p : MailList) (e : Entry) : Nat := ((p.key e).headD nul).toNat

/-- The key a report searches for at a level. -/
def boxKey (m : Text) (iii : Nat) : Text := Char.ofNat (iii * 5) :: m.take 89

/-- The search takes the entry of the first level that has one. -/
theorem MailList.InOrder.findBox_iff {p : MailList} (h : p.InOrder)
    (hended : ∀ e ∈ p.sOffsetList, p.Ended e) {stack sMailbox m : Text} (hm : cstr sMailbox = m)
    (hlen : 4 ≤ m.length) {nM : Nat} :
    p.findBox stack sMailbox = some nM ↔
      ∃ iii, (iii = 1 ∨ iii = 2 ∨ iii = 3) ∧ p.keys[nM]? = some (boxKey m iii) ∧
        ∀ j < iii, 0 < j → boxKey m j ∉ p.keys := by
  have hnul : nul ∉ m := hm ▸ nul_not_mem_cstr sMailbox
  have hsearch : ∀ iii, iii = 1 ∨ iii = 2 ∨ iii = 3 →
      (∀ k, p.search (levelBox stack sMailbox iii) = some k ↔ p.keys[k]? = some (boxKey m iii)) ∧
        ((p.search (levelBox stack sMailbox iii)).isSome = true ↔ boxKey m iii ∈ p.keys) := by
    intro iii hiii
    have hbox : levelBox stack sMailbox iii = boxKey m iii ++ nul :: stack := by
      rw [levelBox, hm]
      rfl
    have hk : nul ∉ boxKey m iii := by
      intro hmem
      rcases List.mem_cons.mp hmem with hmem | hmem
      · rcases hiii with rfl | rfl | rfl <;> exact absurd hmem (by decide)
      · exact hnul (List.mem_of_mem_take hmem)
    have hlen' : 5 ≤ (boxKey m iii).length := by
      rw [boxKey, List.length_cons, List.length_take]
      omega
    rw [hbox]
    exact ⟨fun k => h.search_eq_some_iff hended hlen' hk stack,
      h.search_isSome_iff hended hlen' hk stack⟩
  have hnone : ∀ iii, iii = 1 ∨ iii = 2 ∨ iii = 3 →
      (p.search (levelBox stack sMailbox iii) = none ↔ boxKey m iii ∉ p.keys) := fun iii hiii => by
    rw [← (hsearch iii hiii).2, Option.not_isSome_iff_eq_none]
  rw [MailList.findBox, List.findSome?_eq_some_iff]
  constructor
  · rintro ⟨before, iii, after, heq, hfound, hbefore⟩
    have hmem : iii ∈ [1, 2, 3] := heq ▸ List.mem_append_right _ List.mem_cons_self
    have hiii : iii = 1 ∨ iii = 2 ∨ iii = 3 := by simpa using hmem
    refine ⟨iii, hiii, ((hsearch iii hiii).1 nM).mp hfound, fun j hj hj₀ => ?_⟩
    have hj' : j = 1 ∨ j = 2 ∨ j = 3 := by omega
    refine (hnone j hj').mp (hbefore j ?_)
    -- The levels before `iii` in the list are those below it.
    have hsorted : (before ++ iii :: after).Pairwise (· < ·) := heq ▸ by decide
    have hjmem : j ∈ before ++ iii :: after := heq ▸ by simpa using hj'
    rcases List.mem_append.mp hjmem with h | h
    · exact h
    · have hle : ∀ k ∈ iii :: after, iii ≤ k := fun k hk => (List.mem_cons.mp hk).elim
        (fun h => h ▸ Nat.le_refl _) fun hk => Nat.le_of_lt
          ((List.pairwise_cons.mp (List.pairwise_append.mp hsorted).2.1).1 k hk)
      exact absurd (hle j h) (by omega)
  · rintro ⟨iii, hiii, hget, hlower⟩
    have hfound := ((hsearch iii hiii).1 nM).mpr hget
    have hlow : ∀ j, j = 1 ∨ j = 2 ∨ j = 3 → j < iii →
        p.search (levelBox stack sMailbox j) = none :=
      fun j hj hlt => (hnone j hj).mpr (hlower j hlt (by omega))
    rcases hiii with rfl | rfl | rfl
    · exact ⟨[], 1, [2, 3], rfl, hfound, by simp⟩
    · exact ⟨[1], 2, [3], rfl, hfound, by simpa using hlow 1 (by omega) (by omega)⟩
    · exact ⟨[1, 2], 3, [], rfl, hfound, by
        simpa using ⟨hlow 1 (by omega) (by omega), hlow 2 (by omega) (by omega)⟩⟩

/-- The task with the status `nStat` at entry `nM` of list `i`, and the counters of that list. -/
def TaskQueue.withStat (t : TaskQueue) (i : Fin (t.pAlias.nDomainNum + 1)) (nM : Nat)
    (nStat : MailStat) : TaskQueue :=
  { t with pMailList := Function.update t.pMailList i ((t.pMailList i).setStat nStat nM) }

/-- Every report for the mailbox `m` of the task returns 0, and changes entry `nM` of list `i`
only. -/
def TaskQueue.Reaches (t : TaskQueue) (i : Fin (t.pAlias.nDomainNum + 1)) (nM : Nat) (m : Text) :
    Prop :=
  ∀ (before after : List TaskQueue) (c : Report), (∀ u ∈ before, u.named c.sID = false) →
    t.named c.sID = true → cstr c.sMailbox = m →
      changeMailboxStatWithLevel c (before ++ t :: after)
        = (0, before ++ t.withStat i nM c.nStat :: after)

/-- The call changes the first task with the number it is given. -/
theorem changeMailboxStatWithLevel_named {c : Report} {t : TaskQueue} (ht : t.named c.sID = true)
    (after : List TaskQueue) : ∀ {before : List TaskQueue}, (∀ u ∈ before, u.named c.sID = false) →
      changeMailboxStatWithLevel c (before ++ t :: after)
        = ((t.changeStat c).1, before ++ (t.changeStat c).2 :: after)
  | [], _ => by rw [List.nil_append, changeMailboxStatWithLevel, if_pos ht]; rfl
  | u :: before, hb => by
      have hu : ¬ u.named c.sID = true := by rw [hb u List.mem_cons_self]; exact Bool.false_ne_true
      have ih := changeMailboxStatWithLevel_named ht after
        fun u hu => hb u (List.mem_cons_of_mem _ hu)
      rw [List.cons_append, changeMailboxStatWithLevel, if_neg hu, ih]
      rfl

/-- In the list of its domain, a report looks for its mailbox. -/
theorem TaskQueue.findEntry_eq {t : TaskQueue} {c : Report} {m : Text} (hm : cstr c.sMailbox = m)
    (hat : '@' ∈ m) {i : Fin (t.pAlias.nDomainNum + 1)} (hi : t.pAlias.which (cut '@' m).2 = i) :
    t.findEntry c = ((t.pMailList i).findBox c.stack c.sMailbox).map fun nM => (i, nM) := by
  have hc : (cstr c.sMailbox).contains '@' = true := by rw [hm]; simpa using hat
  rw [findEntry, if_pos hc, hm, hi]

/-- Setting the status of another entry is seen at one whose status differs. -/
theorem MailList.setStat_inj {p : MailList} {nStat : MailStat} {nM k : Nat} {e : Entry}
    (he : p.sOffsetList[nM]? = some e) (hne : e.stat ≠ some nStat)
    (h : p.setStat nStat k = p.setStat nStat nM) : k = nM := by
  by_contra hk
  have hoff : (p.sOffsetList.modify k fun e => { e with stat := some nStat })[nM]?
      = (p.sOffsetList.modify nM fun e => { e with stat := some nStat })[nM]? :=
    congrArg (fun q : MailList => q.sOffsetList[nM]?) h
  rw [List.getElem?_modify, List.getElem?_modify, he] at hoff
  simp only [hk, ↓reduceIte, Option.map_eq_map, Option.map_some, Option.some.injEq] at hoff
  exact hne (congrArg Entry.stat hoff)

/-- The reports reach the entry if and only if the search finds it. -/
theorem TaskQueue.reaches_iff {t : TaskQueue} {i : Fin (t.pAlias.nDomainNum + 1)} {nM : Nat}
    {e : Entry} (he : (t.pMailList i).sOffsetList[nM]? = some e) {m : Text} (hat : '@' ∈ m)
    (hi : t.pAlias.which (cut '@' m).2 = i) :
    t.Reaches i nM m ↔ ∀ stack sMailbox, cstr sMailbox = m →
      (t.pMailList i).findBox stack sMailbox = some nM := by
  constructor
  · intro h stack sMailbox hm
    obtain ⟨s, hs⟩ : ∃ s : MailStat, e.stat ≠ some s := by
      by_cases h : e.stat = some .fail
      · exact ⟨.spam, by rw [h]; decide⟩
      · exact ⟨.fail, h⟩
    have hcall := h [] [] ⟨t.sID, sMailbox, s, stack⟩ (fun _ hu => absurd hu List.not_mem_nil)
      (by rw [TaskQueue.named, beq_self_eq_true]) hm
    rw [changeMailboxStatWithLevel_named (by rw [TaskQueue.named, beq_self_eq_true]) []
      (fun _ hu => absurd hu List.not_mem_nil), changeStat, findEntry_eq hm hat hi] at hcall
    cases hfind : (t.pMailList i).findBox stack sMailbox with
    | none =>
        simp only [hfind] at hcall
        have hret : (-1 : Int) = 0 := congrArg Prod.fst hcall
        exact absurd hret (by decide)
    | some k =>
        simp only [hfind, Option.map_some, List.nil_append, Prod.mk.injEq, true_and,
          List.cons.injEq, and_true, withStat, TaskQueue.mk.injEq, heq_eq_eq] at hcall
        have hset := congrFun hcall i
        rw [Function.update_self, Function.update_self] at hset
        rw [MailList.setStat_inj he hs hset]
  · intro h before after c hbefore ht hm
    rw [changeMailboxStatWithLevel_named ht after hbefore, changeStat, findEntry_eq hm hat hi,
      h c.stack c.sMailbox hm]
    rfl

/-- What compares equal has the same second and fifth bytes together. -/
theorem charAt_of_compareMailbox {s t : Text} (h : compareMailbox s t = 0) :
    charAt s 2 + charAt s 5 = charAt t 2 + charAt t 5 := by
  rw [compareMailbox] at h
  split_ifs at h with h₀ h₁
  · omega
  · omega
  · omega
  · exact not_not.mp h₁

/-- A search for a mailbox of less than four characters depends on what lies behind its buffer. -/
theorem MailList.not_findBox_short {p : MailList} {m : Text} (hnul : nul ∉ m) (hat : '@' ∈ m)
    (hshort : m.length < 4) (nM : Nat) :
    ¬ ∀ stack sMailbox, cstr sMailbox = m → p.findBox stack sMailbox = some nM := by
  intro h
  have hsum : ∀ c : Char, charAt (p.at (p.offset nM + 4)) 2 + charAt (p.at (p.offset nM + 4)) 5
      = charAt (nul :: m ++ [nul]) 2 + Int.bmod c.toNat 256 := by
    intro c
    obtain ⟨iii, -, hs⟩ :=
      List.exists_of_findSome?_eq_some (h (List.replicate 4 c) m (cstr_self hnul))
    obtain ⟨-, -, hcmp⟩ := bsearchFrom_some hs
    have hread : ∀ {s : Text}, s.getD 2 nul = (nul :: m ++ [nul]).getD 2 nul → s.getD 5 nul = c →
        charAt s 2 + charAt s 5 = charAt (nul :: m ++ [nul]) 2 + Int.bmod c.toNat 256 :=
      fun h₂ h₅ => congrArg₂ (fun d e : Char => Int.bmod d.toNat 256 + Int.bmod e.toNat 256) h₂ h₅
    rw [charAt_of_compareMailbox hcmp, levelBox, cstr_self hnul, List.take_of_length_le (by omega)]
    rcases m with - | ⟨x, - | ⟨y, - | ⟨z, - | ⟨w, m⟩⟩⟩⟩
    · exact absurd hat List.not_mem_nil
    · exact hread rfl rfl
    · exact hread rfl rfl
    · exact hread rfl rfl
    · simp only [List.length_cons] at hshort
      omega
  have hne : Int.bmod ('a'.toNat : Int) 256 ≠ Int.bmod ('b'.toNat : Int) 256 := by decide
  have ha := hsum 'a'
  have hb := hsum 'b'
  omega

/-- Where no comparison of two entries reads behind a mailbox, the list is in order. -/
theorem TaskQueue.Reported.inOrder {t : TaskQueue} (h : t.Reported)
    {i : Fin (t.pAlias.nDomainNum + 1)} (hapart : (t.pMailList i).keys.Pairwise Apart) :
    (t.pMailList i).InOrder := ((h.filed i).indexed hapart).inOrder

/-- **Which reports reach their entry.**  In a list that is in order: those of the entries whose
mailbox has from 4 to 89 bytes, and no entry at a lower level. -/
theorem reports_reach_iff {t : TaskQueue} (h : t.Reported) {i : Fin (t.pAlias.nDomainNum + 1)}
    (horder : (t.pMailList i).InOrder) {nM : Nat} {e : Entry}
    (he : (t.pMailList i).sOffsetList[nM]? = some e) :
    t.Reaches i nM ((t.pMailList i).box e) ↔
      (4 ≤ ((t.pMailList i).box e).length ∧ ((t.pMailList i).box e).length ≤ 89) ∧
      ∀ d ∈ (t.pMailList i).sOffsetList, (t.pMailList i).box d = (t.pMailList i).box e →
        (t.pMailList i).level e ≤ (t.pMailList i).level d := by
  have hf := h.filed i
  generalize hp : t.pMailList i = p at *
  have hmem := List.mem_of_getElem? he
  obtain ⟨level, m, hlevel, hkey, hat, hwhich⟩ := hf.box e hmem
  have hbox : p.box e = m := by rw [MailList.box, hkey]; rfl
  have hnul : nul ∉ m := fun hm => p.nul_not_mem_key e (hkey ▸ List.mem_cons_of_mem _ hm)
  have hget : p.keys[nM]? = some (Char.ofNat level :: m) := by
    rw [MailList.keys, List.getElem?_map, he, Option.map_some, hkey]
  have hlev : ∀ {d : Entry} {l : Nat} {md : Text}, l = 5 ∨ l = 10 ∨ l = 15 →
      p.key d = Char.ofNat l :: md → p.level d = l := by
    intro d l md hl hd
    rw [MailList.level, hd]
    rcases hl with rfl | rfl | rfl <;> rfl
  rw [hbox, TaskQueue.reaches_iff (hp ▸ he) hat hwhich, hp, hlev hlevel hkey]
  by_cases hlen : 4 ≤ m.length
  case neg =>
    exact iff_of_false (MailList.not_findBox_short hnul hat (Nat.lt_of_not_le hlen) nM)
      fun h => hlen h.1.1
  constructor
  · intro hfind
    obtain ⟨iii, hiii, hget', hlower⟩ :=
      (horder.findBox_iff hf.ended (cstr_self hnul) hlen).mp (hfind [] m (cstr_self hnul))
    obtain ⟨hchar, htake⟩ := List.cons.inj (Option.some.inj (hget.symm.trans hget'))
    have hle : m.length ≤ 89 := by
      rw [htake, List.length_take]
      exact Nat.min_le_left _ _
    refine ⟨⟨hlen, hle⟩, fun d hd hdm => ?_⟩
    obtain ⟨l, md, hl, hkd, -, -⟩ := hf.box d hd
    have hmd : md = m := by rw [← hdm, MailList.box, hkd]; rfl
    rw [hlev hl hkd]
    by_contra hlt
    have hfive : level = iii * 5 := by
      revert hchar
      rcases hlevel with rfl | rfl | rfl <;> rcases hiii with rfl | rfl | rfl <;> decide
    have hj : ∃ j, l = j * 5 ∧ 0 < j ∧ j < iii := ⟨l / 5, by omega, by omega, by omega⟩
    obtain ⟨j, rfl, hj₀, hj⟩ := hj
    refine hlower j hj hj₀ ?_
    rw [boxKey, ← htake, ← hmd, ← hkd]
    exact List.mem_map_of_mem hd
  · rintro ⟨⟨-, hle⟩, hfirst⟩ stack sMailbox hm
    refine (horder.findBox_iff hf.ended hm hlen).mpr ⟨level / 5, by omega, ?_, fun j hj hj₀ hk => ?_⟩
    · have hfive : level / 5 * 5 = level := by omega
      rw [hget, boxKey, hfive, List.take_of_length_le hle]
    · obtain ⟨d, hd, hkd⟩ := List.mem_map.mp hk
      have hj5 : j * 5 = 5 ∨ j * 5 = 10 ∨ j * 5 = 15 := by omega
      rw [boxKey, List.take_of_length_le hle] at hkd
      have hfirst := hfirst d hd (by rw [MailList.box, hkd]; rfl)
      rw [hlev hj5 hkd] at hfirst
      omega

theorem reports_reach_iff_sample :
    sampleTask.Reaches 0 0 ((sampleTask.pMailList 0).box ⟨0, none⟩) := by
  have horder : (sampleTask.pMailList 0).InOrder := by decide +kernel
  have he : (sampleTask.pMailList 0).sOffsetList[0]? = some ⟨0, none⟩ := by decide +kernel
  exact (reports_reach_iff (.loaded isLoaded_sampleTask) horder he).mpr (by decide +kernel)

/-- A mailbox of ninety bytes. -/
def ninetyBytes : Text := List.replicate 86 'a' ++ "@b.c".toList

def ninetyFile : Text :=
  "<$MAILLIST>\nmail,name\n".toList ++ ninetyBytes ++ ",x\n</$MAILLIST>\n".toList

def ninetyLoad : Option (Text × Lists sampleAlias) :=
  readTaskFileWithLevel 50 [] (0, 0, 0) [] sampleAlias (fun _ => []) ninetyFile

theorem isSome_ninetyLoad : ninetyLoad.isSome = true := by decide +kernel

/-- The task of the subscriber with that mailbox. -/
def ninetyTask : TaskQueue :=
  ⟨(ninetyLoad.get isSome_ninetyLoad).1, sampleAlias, (ninetyLoad.get isSome_ninetyLoad).2, 0, 0⟩

theorem isLoaded_ninetyTask : ninetyTask.IsLoaded :=
  TaskQueue.isLoaded_of (Option.some_get isSome_ninetyLoad).symm 0 0

/-- The report of a stored mailbox of ninety bytes returns -1. -/
theorem long_mailbox_unreported : ninetyTask.IsLoaded ∧
    (ninetyTask.pMailList 0).sOffsetList = [⟨0, none⟩] ∧
    (ninetyTask.pMailList 0).box ⟨0, none⟩ = ninetyBytes ∧
    (changeMailboxStatWithLevel ⟨ninetyTask.sID, ninetyBytes, .success, []⟩ [ninetyTask]).1 = -1 ∧
    ¬ ninetyTask.Reaches 0 0 ninetyBytes := by
  have hcall : (changeMailboxStatWithLevel ⟨ninetyTask.sID, ninetyBytes, .success, []⟩
      [ninetyTask]).1 = -1 := by decide +kernel
  refine ⟨isLoaded_ninetyTask, by decide +kernel, by decide +kernel, hcall, fun h => ?_⟩
  have hret : (changeMailboxStatWithLevel ⟨ninetyTask.sID, ninetyBytes, .success, []⟩
      [ninetyTask]).1 = 0 := congrArg Prod.fst (h [] [] ⟨ninetyTask.sID, ninetyBytes, .success, []⟩
    (fun _ hu => absurd hu List.not_mem_nil) (by rw [TaskQueue.named, beq_self_eq_true])
    (cstr_self (by decide +kernel)))
  rw [hcall] at hret
  exact absurd hret (by decide)

end Edm.Maillist
