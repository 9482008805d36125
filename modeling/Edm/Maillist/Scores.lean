import Edm.Maillist.Indexed

/-!
# Maillist — Scores

Whether a task mails a subscriber once.

The lines of a task file get their scores from the answer of the check server by a walk along
both: a line whose mailbox stands at the head of the answer takes its score and moves the answer
on, and any other line has the score 0 (`scoreFile`).  A list then has one entry for each level a
mailbox was scored at, since the look-up compares level bytes too.  So a mailbox that occurs
twice, and whose score the first line has used up, is mailed twice (`mailed_twice`).

Where no mailbox comes twice at one level of a list, or no two there are compared behind their
ends, which four characters rule out (`Calm`), the loader ends, each mailbox has one entry, and
each mailbox of a line with a comma and a score of at least 0 has one, if and only if no matching
answer lacks its comma, the records fit their blocks, and no mailbox is scored at two levels
(`mailedOnce_iff`).
-/

namespace Edm.Maillist
open Support

/-! ### The scores of a file -/

/-- A line with a mailbox, under the columns of its section, and its score. -/
structure Scored where
  names : List Text
  body : Text
  nScore : Int
  deriving DecidableEq

/-- The mailbox of a line. -/
def mailboxOf (body : Text) : Text := (cut ',' body).1

namespace Scored
variable (nActiveScore : Int) (a : Scored)

/-- The mailbox has a comma behind it, and is not rejected. -/
def Taken : Prop := ',' ∈ a.body ∧ scoreLevel nActiveScore a.nScore ≠ 0

instance : Decidable (a.Taken nActiveScore) := inferInstanceAs (Decidable (_ ∧ _))

def level : Nat := scoreLevel nActiveScore a.nScore

/-- The key the line has in its list. -/
def key : Text := lineKey (a.level nActiveScore) a.body

/-- How long its record is. -/
def size : Nat := (record a.names (Char.ofNat (a.level nActiveScore) :: a.body)).length

end Scored

/-- The list a mailbox belongs to. -/
def DomainAlias.listOf (pAlias : DomainAlias) (body : Text) : Fin (pAlias.nDomainNum + 1) :=
  pAlias.which (cut '@' (mailboxOf body)).2

section
variable (pAlias : DomainAlias) (nActiveScore : Int) (ss : List Scored)

/-- The lines of list `j`. -/
def linesOf (j : Fin (pAlias.nDomainNum + 1)) : List Scored :=
  ss.filter fun a => a.Taken nActiveScore ∧ pAlias.listOf a.body = j

/-- In each list no mailbox comes twice at one level, so that none is to be found; or of two lines
of one level both mailboxes have four characters or more, so that no comparison reads behind them. -/
def Calm : Prop :=
  ∀ j, ((linesOf pAlias nActiveScore ss j).map (Scored.key nActiveScore)).Nodup ∨
    ((linesOf pAlias nActiveScore ss j).map (Scored.key nActiveScore)).Pairwise Apart

/-- How long the records of list `j` are: a line gets one unless an earlier one has its key. -/
def recordSizes (j : Fin (pAlias.nDomainNum + 1)) : List Nat :=
  (firsts (Scored.key nActiveScore) (linesOf pAlias nActiveScore ss j)).map
    (Scored.size nActiveScore)

/-- The records fit the blocks of their lists. -/
def Roomy : Prop := ∀ j, MailBlock.start.HoldsAll (recordSizes pAlias nActiveScore ss j)

/-- No mailbox is scored at two levels. -/
def OneLevel : Prop :=
  ∀ a ∈ ss, ∀ b ∈ ss, a.Taken nActiveScore → b.Taken nActiveScore →
    mailboxOf a.body = mailboxOf b.body → a.level nActiveScore = b.level nActiveScore

instance : Decidable (Calm pAlias nActiveScore ss) :=
  inferInstanceAs (Decidable (∀ j, (List.map _ (linesOf pAlias nActiveScore ss j)).Nodup ∨
    List.Pairwise _ _))

instance : Decidable (Roomy pAlias nActiveScore ss) :=
  inferInstanceAs (Decidable (∀ j, MailBlock.start.HoldsAll (recordSizes pAlias nActiveScore ss j)))

instance : Decidable (OneLevel nActiveScore ss) :=
  inferInstanceAs (Decidable (∀ a ∈ ss, ∀ b ∈ ss, _ → _ → _ → _))

end

/-- The mailboxes of all entries, without their level bytes. -/
def mailboxes {pAlias : DomainAlias} (pMail : Lists pAlias) : List Text :=
  (List.finRange (pAlias.nDomainNum + 1)).flatMap fun i => (pMail i).keys.map (List.drop 1)

section
variable {pAlias : DomainAlias} (nActiveScore : Int)

/-- The lists have the keys of the lines that are taken, each once, and their records are those
lines. -/
structure Holds (pMail : Lists pAlias) (ss : List Scored) : Prop where
  kept : ∀ j, (pMail j).Kept
  nodup : ∀ j, (pMail j).keys.Nodup
  keys : ∀ j key, key ∈ (pMail j).keys ↔ key ∈ (firsts (Scored.key nActiveScore)
    (linesOf pAlias nActiveScore ss j)).map (Scored.key nActiveScore)
  block : ∀ j, (pMail j).mailBlock
    = (recordSizes pAlias nActiveScore ss j).foldl MailBlock.put .start
  room : Roomy pAlias nActiveScore ss

variable {nActiveScore}

theorem Holds.mem_keys_iff {pMail : Lists pAlias} {ss : List Scored}
    (h : Holds nActiveScore pMail ss) (j : Fin (pAlias.nDomainNum + 1)) (key : Text) :
    key ∈ (pMail j).keys ↔ ∃ a ∈ ss, a.Taken nActiveScore ∧ pAlias.listOf a.body = j ∧
      a.key nActiveScore = key := by
  rw [h.keys, mem_map_firsts, List.mem_map]
  simp only [linesOf, List.mem_filter, decide_eq_true_eq, and_assoc]

theorem linesOf_concat (ss : List Scored) (a : Scored) (j : Fin (pAlias.nDomainNum + 1)) :
    linesOf pAlias nActiveScore (ss ++ [a]) j = if a.Taken nActiveScore ∧ pAlias.listOf a.body = j
      then linesOf pAlias nActiveScore ss j ++ [a] else linesOf pAlias nActiveScore ss j := by
  rw [linesOf, List.filter_append, linesOf]
  by_cases ha : a.Taken nActiveScore ∧ pAlias.listOf a.body = j
  · simp [ha]
  · simp [ha]

/-- A line changes nothing that has no place in a list, or a key that the list has. -/
theorem Holds.skip {pMail : Lists pAlias} {ss : List Scored} {a : Scored}
    (h : Holds nActiveScore pMail ss) (ha : a.Taken nActiveScore →
      a.key nActiveScore ∈ (pMail (pAlias.listOf a.body)).keys) :
    Holds nActiveScore pMail (ss ++ [a]) := by
  have hlines : ∀ j, firsts (Scored.key nActiveScore) (linesOf pAlias nActiveScore (ss ++ [a]) j)
      = firsts (Scored.key nActiveScore) (linesOf pAlias nActiveScore ss j) := by
    intro j
    rw [linesOf_concat]
    split
    next hc => rw [firsts_concat, if_pos ((h.keys j _).mp (hc.2 ▸ ha hc.1))]
    next => rfl
  refine ⟨h.kept, h.nodup, fun j key => ?_, fun j => ?_, fun j => ?_⟩
  · rw [hlines]
    exact h.keys j key
  · rw [recordSizes, hlines]
    exact h.block j
  · rw [recordSizes, hlines]
    exact h.room j

/-- A mailbox that is rejected changes no entry. -/
theorem Holds.reject {pMail : Lists pAlias} {ss : List Scored}
    (h : Holds nActiveScore pMail ss) (i : Fin (pAlias.nDomainNum + 1)) :
    Holds nActiveScore (Function.update pMail i (pMail i).reject) ss where
  kept := forall_update (J := fun _ q => q.Kept) h.kept ((h.kept i).recount rfl rfl)
  nodup := forall_update (J := fun _ q => q.keys.Nodup) h.nodup (h.nodup i)
  keys := forall_update (J := fun j q => ∀ key, key ∈ q.keys ↔ key ∈ (firsts
    (Scored.key nActiveScore) (linesOf pAlias nActiveScore ss j)).map (Scored.key nActiveScore))
    h.keys (h.keys i)
  block := forall_update (J := fun j q => q.mailBlock
    = (recordSizes pAlias nActiveScore ss j).foldl MailBlock.put .start) h.block (h.block i)
  room := h.room

/-- The first lines of a file whose records fit have records that fit. -/
theorem Roomy.of_append {ss t : List Scored} (h : Roomy pAlias nActiveScore (ss ++ t)) :
    Roomy pAlias nActiveScore ss := by
  intro j
  have hj := h j
  rw [recordSizes, linesOf, List.filter_append] at hj
  obtain ⟨more, hmore⟩ := firsts_append (Scored.key nActiveScore)
    (linesOf pAlias nActiveScore ss j) (linesOf pAlias nActiveScore t j)
  rw [linesOf, linesOf] at hmore
  rw [hmore, List.map_append] at hj
  exact MailBlock.holdsAll_of_append hj

theorem Calm.of_append {ss t : List Scored} (h : Calm pAlias nActiveScore (ss ++ t)) :
    Calm pAlias nActiveScore ss := by
  intro j
  have hj := h j
  rw [linesOf, List.filter_append, List.map_append] at hj
  exact hj.imp List.Nodup.of_append_left fun h => (List.pairwise_append.mp h).1

section
variable {pMail : Lists pAlias} {ss : List Scored} (h : Holds nActiveScore pMail ss) {a : Scored}
  (ha : a.Taken nActiveScore) (hnul : nul ∉ a.body)
  (hcalm : Calm pAlias nActiveScore (ss ++ [a]))
include h ha hcalm

/-- Where the key of a further line is in its list, the list is in order, and the key long. -/
theorem Holds.inOrder (hk : a.key nActiveScore ∈ (pMail (pAlias.listOf a.body)).keys) :
    (pMail (pAlias.listOf a.body)).InOrder ∧ 5 ≤ (a.key nActiveScore).length := by
  have hlines := hcalm (pAlias.listOf a.body)
  have hmem : ∀ {k}, k ∈ (pMail (pAlias.listOf a.body)).keys → k ∈ (linesOf pAlias nActiveScore ss
      (pAlias.listOf a.body)).map (Scored.key nActiveScore) :=
    fun hk => (mem_map_firsts _).mp ((h.keys _ _).mp hk)
  rw [linesOf_concat, if_pos ⟨ha, rfl⟩, List.map_append] at hlines
  rcases hlines with hnodup | hapart
  · exact absurd rfl ((List.nodup_append.mp hnodup).2.2 _ (hmem hk) _ (List.mem_singleton.mpr rfl))
  · obtain ⟨hold, -, hline⟩ := List.pairwise_append.mp hapart
    have hlong := (hline _ (hmem hk) _ (List.mem_singleton.mpr rfl)).resolve_left fun hne => hne rfl
    refine ⟨((h.kept _).indexed ((h.nodup _).imp_of_mem fun hd he hne => ?_)).inOrder, hlong.1⟩
    exact hold.forall (hmem hd) (hmem he) hne

include hnul

/-- A line that is taken adds its key to its list, or its record does not fit. -/
theorem Holds.addBox (tail : Text) :
    (∃ p, (pMail (pAlias.listOf a.body)).addBox a.names (a.level nActiveScore) a.body tail = some p ∧
      Holds nActiveScore (Function.update pMail (pAlias.listOf a.body) p) (ss ++ [a])) ∨
    ¬ Roomy pAlias nActiveScore (ss ++ [a]) ∧
      (pMail (pAlias.listOf a.body)).addBox a.names (a.level nActiveScore) a.body tail = none := by
  have hlevel : a.level nActiveScore = 5 ∨ a.level nActiveScore = 10 ∨ a.level nActiveScore = 15 :=
    (scoreLevel_mem a.nScore).resolve_left ha.2
  have hkeynul : nul ∉ a.key nActiveScore := nul_not_mem_lineKey hlevel hnul
  have hbox : Char.ofNat (a.level nActiveScore) :: (cut ',' a.body).1 ++ nul :: (cut ',' a.body).2
      ++ tail = a.key nActiveScore ++ nul :: ((cut ',' a.body).2 ++ tail) := by
    simp only [Scored.key, lineKey, List.append_assoc, List.cons_append]
  have hj := h.kept (pAlias.listOf a.body)
  rw [MailList.addBox, hbox]
  by_cases hk : a.key nActiveScore ∈ (pMail (pAlias.listOf a.body)).keys
  · obtain ⟨horder, hlen⟩ := h.inOrder ha hcalm hk
    rw [if_pos ((horder.search_isSome_iff hj.ended hlen hkeynul _).mpr hk)]
    refine Or.inl ⟨_, rfl, ?_⟩
    rw [Function.update_eq_self]
    exact h.skip fun _ => hk
  · rw [if_neg fun hs => hk (MailList.mem_keys_of_search hj.ended hkeynul hs)]
    have hlines : ∀ j, firsts (Scored.key nActiveScore) (linesOf pAlias nActiveScore (ss ++ [a]) j)
        = if pAlias.listOf a.body = j
          then firsts (Scored.key nActiveScore) (linesOf pAlias nActiveScore ss j) ++ [a]
          else firsts (Scored.key nActiveScore) (linesOf pAlias nActiveScore ss j) := by
      intro j
      rw [linesOf_concat]
      by_cases heq : pAlias.listOf a.body = j
      · rw [if_pos ⟨ha, heq⟩, if_pos heq, firsts_concat,
          if_neg fun hmem => hk ((h.keys _ _).mpr (heq ▸ hmem))]
      · rw [if_neg fun hc => heq hc.2, if_neg heq]
    have hsizes : recordSizes pAlias nActiveScore (ss ++ [a]) (pAlias.listOf a.body)
        = recordSizes pAlias nActiveScore ss (pAlias.listOf a.body) ++ [a.size nActiveScore] := by
      rw [recordSizes, hlines, if_pos rfl, List.map_append]
      rfl
    have hother : ∀ j, j ≠ pAlias.listOf a.body → recordSizes pAlias nActiveScore (ss ++ [a]) j
        = recordSizes pAlias nActiveScore ss j := fun j hne => by
      rw [recordSizes, hlines, if_neg hne.symm]
      rfl
    by_cases hroom : (pMail (pAlias.listOf a.body)).mailBlock.Holds (a.size nActiveScore)
    · have hq := hj.addRecord a.names hkeynul (level_ne hlevel).1 fun _ _ => hk
      have hperm := MailList.keys_addRecord hj.ended a.names hkeynul (level_ne hlevel).1
      refine Or.inl ⟨_, if_pos hroom, ?_⟩
      constructor
      case kept => exact forall_update (J := fun _ q => q.Kept) h.kept hq
      case nodup =>
        refine forall_update (J := fun _ q => q.keys.Nodup) h.nodup ?_
        exact hperm.nodup_iff.mpr (List.nodup_cons.mpr ⟨hk, h.nodup _⟩)
      case keys =>
        intro j key
        rw [hlines]
        by_cases heq : pAlias.listOf a.body = j
        · subst heq
          rw [Function.update_self, hperm.mem_iff, if_pos rfl, List.map_append, List.mem_append,
            List.map_singleton, List.mem_singleton, List.mem_cons, ← h.keys, or_comm]
          rfl
        · rw [Function.update_of_ne (Ne.symm heq), if_neg heq, h.keys]
      case block =>
        intro j
        by_cases hne : j = pAlias.listOf a.body
        · subst hne
          rw [Function.update_self, hsizes, List.foldl_append, ← h.block]
          exact MailList.mailBlock_addRecord _ _ _ _
        · rw [Function.update_of_ne hne, hother j hne, h.block]
      case room =>
        intro j
        by_cases hne : j = pAlias.listOf a.body
        · rw [hne, hsizes, MailBlock.holdsAll_concat, ← h.block]
          exact ⟨h.room _, hroom⟩
        · rw [hother j hne]
          exact h.room j
    · refine Or.inr ⟨fun hr => hroom ?_, if_neg hroom⟩
      have hall := hr (pAlias.listOf a.body)
      rw [hsizes, MailBlock.holdsAll_concat, ← h.block] at hall
      exact hall.2

end

/-! ### The loader along the lines -/

/-- From `pMail`, the loader adds the lines `ss` to those that came before, or their records do not
fit; `lists` takes the lists from what it returns. -/
def Adds (nActiveScore : Int) {β : Type} (pMail : Lists pAlias) (out : Option β)
    (lists : β → Lists pAlias) (ss : List Scored) : Prop :=
  ∀ seen, Holds nActiveScore pMail seen → Calm pAlias nActiveScore (seen ++ ss) →
    (∃ b, out = some b ∧ Holds nActiveScore (lists b) (seen ++ ss)) ∨
      ¬ Roomy pAlias nActiveScore (seen ++ ss) ∧ out = none

theorem Adds.nil {β : Type} {pMail : Lists pAlias} {lists : β → Lists pAlias} {b : β}
    (hb : lists b = pMail) : Adds nActiveScore pMail (some b) lists [] :=
  fun seen h _ => Or.inl ⟨b, rfl, by rwa [hb, List.append_nil]⟩

theorem Adds.bind {β γ : Type} {pMail : Lists pAlias} {out : Option β} {lists : β → Lists pAlias}
    {next : β → Option γ} {lists' : γ → Lists pAlias} {s t : List Scored}
    (h : Adds nActiveScore pMail out lists s)
    (h' : ∀ b, out = some b → Adds nActiveScore (lists b) (next b) lists' t) :
    Adds nActiveScore pMail (out.bind next) lists' (s ++ t) := by
  intro seen hs hcalm
  rw [← List.append_assoc] at hcalm ⊢
  rcases h seen hs hcalm.of_append with ⟨b, hb, hs'⟩ | ⟨hroom, hnone⟩
  · rw [hb]
    exact h' b hb _ hs' hcalm
  · rw [hnone]
    exact Or.inr ⟨fun hr => hroom hr.of_append, rfl⟩

end

/-! ### One entry for each mailbox -/

theorem drop_lineKey (level : Nat) (body : Text) : (lineKey level body).drop 1 = mailboxOf body :=
  rfl

theorem lineKey_inj {l l' : Nat} {body body' : Text} (hl : l ∈ [0, 5, 10, 15])
    (hl' : l' ∈ [0, 5, 10, 15]) (h : lineKey l body = lineKey l' body') : l = l' := by
  have hc : Char.ofNat l = Char.ofNat l' := (List.cons.inj h).1
  revert hc
  simp only [List.mem_cons, List.not_mem_nil, or_false] at hl hl'
  rcases hl with rfl | rfl | rfl | rfl <;> rcases hl' with rfl | rfl | rfl | rfl <;> decide

theorem Scored.level_mem (nActiveScore : Int) (a : Scored) :
    a.level nActiveScore ∈ [0, 5, 10, 15] := by
  have hlevel : scoreLevel nActiveScore a.nScore = 0 ∨ scoreLevel nActiveScore a.nScore = 5 ∨
      scoreLevel nActiveScore a.nScore = 10 ∨ scoreLevel nActiveScore a.nScore = 15 :=
    scoreLevel_mem a.nScore
  simpa [Scored.level] using hlevel

section
variable {pAlias : DomainAlias} {nActiveScore : Int} {pMail : Lists pAlias} {ss : List Scored}
  (h : Holds nActiveScore pMail ss)
include h

/-- Two entries have one mailbox exactly where it was scored at two levels. -/
theorem Holds.nodup_iff : (mailboxes pMail).Nodup ↔ OneLevel nActiveScore ss := by
  rw [mailboxes, List.nodup_flatMap]
  constructor
  · rintro ⟨hnodup, -⟩ a ha b hb hta htb hab
    have hlist : pAlias.listOf b.body = pAlias.listOf a.body := by
      rw [DomainAlias.listOf, DomainAlias.listOf, hab]
    have hka := (h.mem_keys_iff (pAlias.listOf a.body) _).mpr ⟨a, ha, hta, rfl, rfl⟩
    have hkb := (h.mem_keys_iff (pAlias.listOf a.body) _).mpr ⟨b, hb, htb, hlist, rfl⟩
    have heq := List.inj_on_of_nodup_map (hnodup (pAlias.listOf a.body) (List.mem_finRange _)) hka
      hkb (by rw [Scored.key, Scored.key, drop_lineKey, drop_lineKey, hab])
    exact lineKey_inj (a.level_mem _) (b.level_mem _) heq
  · intro hone
    refine ⟨fun j _ => ?_, ?_⟩
    · refine List.Nodup.map_on (fun k hk k' hk' heq => ?_) (h.nodup j)
      obtain ⟨a, ha, hta, -, rfl⟩ := (h.mem_keys_iff j k).mp hk
      obtain ⟨b, hb, htb, -, rfl⟩ := (h.mem_keys_iff j k').mp hk'
      have hm : mailboxOf a.body = mailboxOf b.body := heq
      rw [Scored.key, Scored.key, hone a ha b hb hta htb hm]
      exact congrArg (Char.ofNat _ :: ·) hm
    · refine (List.nodup_finRange _).imp fun {i j} hij => ?_
      refine List.disjoint_left.mpr fun {m} hi hj => ?_
      obtain ⟨k, hk, rfl⟩ := List.mem_map.mp hi
      obtain ⟨k', hk', heq⟩ := List.mem_map.mp hj
      obtain ⟨a, -, -, rfl, rfl⟩ := (h.mem_keys_iff i k).mp hk
      obtain ⟨b, -, -, rfl, rfl⟩ := (h.mem_keys_iff j k').mp hk'
      have hm : mailboxOf b.body = mailboxOf a.body := heq
      exact hij (by rw [DomainAlias.listOf, DomainAlias.listOf, hm])

end

end Edm.Maillist
