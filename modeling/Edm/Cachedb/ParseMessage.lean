import Edm.Cachedb.ParseTask
import Edm.Cachedb.ParseUrl

/-!
# Cachedb — ParseMessage

`ParseRequest::ParseMessage` as a whole: tasks, events and domains.

The number of records of a report is that of the message, and a domain is copied up to its NUL
whatever its length.  `isSome_parseMessage_iff` says which messages are read without leaving the
message, its arrays, or using what has no value.
-/

namespace Edm.Cachedb.ParseMessage

open Support ParseUrl

/-- What comes of a message. -/
inductive Parsed where
  /-- tasks or domains, or nothing for another command -/
  | report (pushed : Pushed)
  /-- an event, or a return of -1 -/
  | event (done : Option Done)

/-- `ParseMessage`; there is a NUL behind the message. -/
def parseMessage (p : Parser) (msg : Text) : Option Parsed :=
  if msg.length + 1 < 4 then none
  else if word msg 0 = 5 then (parseUrl p (msg.drop 4)).map .event
  else (Cachedb.parseMessage msg).map .report

/-! ### The messages it is made for -/

/-- At the start of the block there are `n` records: `size` bytes, and a name that has room in 64
bytes with its NUL. -/
def Records (size n : Nat) (s : Text) : Prop :=
  ∃ ds : List (Text × Text), ds.length = n ∧
    (∀ d ∈ ds, d.1.length = size ∧ nul ∉ d.2 ∧ d.2.length ≤ 63) ∧
    ds.flatMap (fun d => d.1 ++ (d.2 ++ [nul])) <+: s ++ [nul]

/-- The message has as many records as it says, and the texts of an event can be read. -/
structure SafeMessage (p : Parser) (msg : Text) : Prop where
  command : 4 ≤ msg.length + 1
  tasks : word msg 0 = 4 → 14 + 25 * ofBe16 (msg.drop 12) ≤ msg.length + 1
  moreTasks : word msg 0 = 9 → 14 + 49 * ofBe16 (msg.drop 12) ≤ msg.length + 1
  domains : word msg 0 = 6 ∨ word msg 0 = 7 ∨ word msg 0 = 8 → 20 ≤ msg.length + 1 ∧
    Records (4 * domainWords (word msg 0)) (word msg 4) (msg.drop 20)
  event : word msg 0 = 5 → SafeUrl p (msg.drop 4)

/-! ### Reports -/

section Reports
variable {nCmd n : Nat} {s : Text}

/-- The size of a task. -/
def taskSize (nCmd : Nat) : Nat := if nCmd = 9 then 49 else 25

theorem taskSize_eq (nCmd : Nat) : (if (nCmd == 9) = true then 49 else 25) = taskSize nCmd := by
  simp only [taskSize, beq_iff_eq]

theorem readTask_none (h : s.length + 1 < taskSize nCmd) : readTask nCmd s = none := by
  rw [← taskSize_eq] at h
  exact if_pos h

theorem readTask_some (h : ¬ s.length + 1 < taskSize nCmd) :
    ∃ node, readTask nCmd s = some (node, s.drop (taskSize nCmd)) := by
  rw [← taskSize_eq] at h ⊢
  exact ⟨_, if_neg h⟩

theorem isSome_readItems_succ {A : Type*} {item : Text → Option (A × Text)} {a : A} {t : Text}
    (h : item s = some (a, t)) :
    (readItems item (n + 1) s).isSome ↔ (readItems item n t).isSome := by
  rw [readItems, h, Option.bind_some, Option.isSome_map]

theorem one_lt_taskSize (nCmd : Nat) : 1 < taskSize nCmd := by
  rw [taskSize]
  split <;> decide

theorem isSome_readTasks_iff : (readItems (readTask nCmd) n s).isSome
    ↔ n = 0 ∨ taskSize nCmd * n ≤ s.length + 1 := by
  have hpos := one_lt_taskSize nCmd
  induction n generalizing s with
  | zero => exact iff_of_true rfl (.inl rfl)
  | succ n ih =>
      rw [Nat.mul_succ, or_iff_right (Nat.succ_ne_zero n)]
      by_cases hshort : s.length + 1 < taskSize nCmd
      · rw [readItems, readTask_none hshort, Option.bind_none]
        exact iff_of_false Bool.false_ne_true (by omega)
      · obtain ⟨node, hnode⟩ := readTask_some hshort
        refine (isSome_readItems_succ hnode).trans (ih.trans ?_)
        rw [List.length_drop]
        rcases Nat.eq_zero_or_pos n with rfl | hn
        · simp
          omega
        · have hle : taskSize nCmd ≤ taskSize nCmd * n := Nat.le_mul_of_pos_right _ hn
          omega

/-- The tasks of a message, behind its first 14 bytes. -/
theorem isSome_tasks_iff {msg : Text} {α : Type*} {f : List TinfoNode × Text → α} :
    (if msg.length + 1 < 14 then none
      else (readItems (readTask nCmd) n (msg.drop 14)).map f).isSome
      ↔ 14 + taskSize nCmd * n ≤ msg.length + 1 := by
  by_cases hlen : msg.length + 1 < 14
  · rw [if_pos hlen]
    exact iff_of_false Bool.false_ne_true (by omega)
  · rw [if_neg hlen, Option.isSome_map, isSome_readTasks_iff, List.length_drop]
    rcases Nat.eq_zero_or_pos n with rfl | hn
    · simp
      omega
    · have hle : taskSize nCmd ≤ taskSize nCmd * n := Nat.le_mul_of_pos_right _ hn
      have hpos := one_lt_taskSize nCmd
      omega

theorem domainWords_pos (nCmd : Nat) : 0 < 4 * domainWords nCmd := by
  rw [domainWords]
  split
  · decide
  · split <;> decide

variable {size : Nat}

/-- The first of some records, and the rest. -/
theorem records_succ_iff (hsize : 0 < size) : Records size (n + 1) s ↔
    size ≤ s.length ∧ (cstr (s.drop size)).length ≤ 63 ∧
      Records size n (s.drop (size + (cstr (s.drop size)).length + 1)) := by
  constructor
  · rintro ⟨_ | ⟨d, ds⟩, hlen, hall, t, ht⟩
    · cases hlen
    obtain ⟨⟨hd, hclean, hname⟩, hall⟩ := List.forall_mem_cons.mp hall
    obtain ⟨flat, hflat⟩ : ∃ flat, flat = ds.flatMap fun d => d.1 ++ (d.2 ++ [nul]) := ⟨_, rfl⟩
    rw [List.flatMap_cons, ← hflat] at ht
    have hle : size ≤ s.length := by
      have hsum := congrArg List.length ht
      simp only [List.length_append, List.length_singleton] at hsum
      omega
    have hrest : d.2 ++ nul :: (flat ++ t) = s.drop size ++ [nul] := by
      have hdrop := congrArg (List.drop size) ht
      rw [List.drop_append_of_le_length hle, ← hd] at hdrop
      rw [← hd, ← hdrop]
      simp
    have hcstr : cstr (s.drop size) = d.2 := by
      have hsame : cstr (s.drop size ++ [nul]) = cstr (s.drop size) :=
        takeWhile_append_self nul _ []
      rw [← hsame, ← hrest, cstr_append hclean]
    refine ⟨hle, hcstr ▸ hname, ds, Nat.succ.inj hlen, hall, ?_⟩
    have hbehind := congrArg (List.drop (d.2.length + 1)) hrest
    have hdrop : (s.drop size ++ [nul]).drop (d.2.length + 1) = s.drop (size + (d.2.length + 1))
        ++ [nul].drop (d.2.length + 1 - (s.drop size).length) := by
      rw [List.drop_append, List.drop_drop]
    rw [hdrop] at hbehind
    have hflatDrop : (d.2 ++ nul :: (flat ++ t)).drop (d.2.length + 1) = flat ++ t := by
      rw [List.drop_length_add_append, List.drop_one, List.tail_cons]
    rw [hflatDrop] at hbehind
    rw [hcstr, Nat.add_assoc, ← hflat]
    refine List.IsPrefix.trans ⟨t, hbehind⟩ ((List.prefix_append_right_inj _).mpr ?_)
    -- the NUL behind the block, or nothing
    cases d.2.length + 1 - (s.drop size).length with
    | zero => exact List.prefix_rfl
    | succ k => simp
  · rintro ⟨hle, hname, ds, hn, hall, hpre⟩
    refine ⟨(s.take size, cstr (s.drop size)) :: ds, congrArg Nat.succ hn,
      List.forall_mem_cons.mpr ⟨⟨List.length_take_of_le hle, nul_not_mem_cstr _, hname⟩, hall⟩, ?_⟩
    rw [List.flatMap_cons]
    obtain ⟨flat, hflat⟩ : ∃ flat, flat = ds.flatMap fun d => d.1 ++ (d.2 ++ [nul]) := ⟨_, rfl⟩
    rw [← hflat] at hpre ⊢
    have hs : s ++ [nul] = s.take size ++ (s.drop size ++ [nul]) := by
      rw [← List.append_assoc, List.take_append_drop]
    rw [hs, List.append_assoc, List.prefix_append_right_inj]
    by_cases hnul : nul ∈ s.drop size
    · obtain ⟨a, u, hau, ha⟩ := List.eq_append_cons_of_mem hnul
      have hu : s.drop (size + a.length + 1) = u := by
        rw [Nat.add_assoc, ← List.drop_drop, hau, List.drop_length_add_append, List.drop_one,
          List.tail_cons]
      rw [hau, cstr_append ha, hu] at hpre
      rw [hau, cstr_append ha, List.append_assoc, List.append_assoc, List.prefix_append_right_inj,
        List.cons_append, List.cons_append, List.nil_append, List.prefix_cons_inj]
      exact hpre
    · -- the name ends with the block, so that there is no record behind it
      rw [cstr_self hnul] at hpre ⊢
      have hflatNil : flat = [] := by
        cases ds with
        | nil => exact hflat
        | cons d ds =>
            have hlen := hpre.length_le
            have hd := (hall d List.mem_cons_self).1
            rw [hflat] at hlen
            simp only [List.flatMap_cons, List.length_append, List.length_drop,
              List.length_singleton] at hlen
            omega
      rw [hflatNil, List.append_nil]

theorem isSome_readDomains_iff {req : Text} : (readItems (readDomain nCmd req) n s).isSome
    ↔ Records (4 * domainWords nCmd) n s := by
  induction n generalizing s with
  | zero => exact iff_of_true rfl ⟨[], rfl, by simp, by simp⟩
  | succ n ih =>
      rw [records_succ_iff (domainWords_pos nCmd), ← ih]
      by_cases hbad : s.length < 4 * domainWords nCmd
          ∨ 63 < (cstr (s.drop (4 * domainWords nCmd))).length
      · rw [readItems, readDomain, if_pos hbad, Option.bind_none]
        exact iff_of_false Bool.false_ne_true fun h => by omega
      · have hread : ∃ node, readDomain nCmd req s = some (node, s.drop (4 * domainWords nCmd
            + (cstr (s.drop (4 * domainWords nCmd))).length + 1)) := ⟨_, if_neg hbad⟩
        obtain ⟨node, hnode⟩ := hread
        rw [isSome_readItems_succ hnode]
        exact ⟨fun h => ⟨by omega, by omega, h⟩, fun h => h.2.2⟩

end Reports

/-- A message is read safely if and only if it has the records it announces and the texts of an
event fit. -/
theorem isSome_parseMessage_iff (p : Parser) (msg : Text) :
    (parseMessage p msg).isSome ↔ SafeMessage p msg := by
  by_cases hshort : msg.length + 1 < 4
  · rw [parseMessage, if_pos hshort]
    exact iff_of_false Bool.false_ne_true fun h => by
      have := h.command
      omega
  rw [parseMessage, if_neg hshort]
  by_cases hevent : word msg 0 = 5
  · rw [if_pos hevent, Option.isSome_map, isSome_parseUrl_iff]
    exact ⟨fun h => ⟨by omega, by omega, by omega, by omega, fun _ => h⟩, fun h => h.event hevent⟩
  rw [if_neg hevent, Option.isSome_map, Cachedb.parseMessage, if_neg hshort]
  by_cases htask : word msg 0 = 4 ∨ word msg 0 = 9
  · rw [if_pos htask, isSome_tasks_iff, taskSize]
    rcases htask with h | h
    · rw [h, if_neg (by decide)]
      exact ⟨fun hle => ⟨by omega, fun _ => hle, by omega, by omega, by omega⟩,
        fun hsafe => hsafe.tasks h⟩
    · rw [h, if_pos rfl]
      exact ⟨fun hle => ⟨by omega, by omega, fun _ => hle, by omega, by omega⟩,
        fun hsafe => hsafe.moreTasks h⟩
  · rw [if_neg htask]
    by_cases hdomain : word msg 0 = 6 ∨ word msg 0 = 7 ∨ word msg 0 = 8
    · rw [if_pos hdomain]
      by_cases hlen : msg.length + 1 < 20
      · rw [if_pos hlen]
        exact iff_of_false Bool.false_ne_true fun h => by
          have := (h.domains hdomain).1
          omega
      · rw [if_neg hlen, Option.isSome_map, isSome_readDomains_iff]
        exact ⟨fun h => ⟨by omega, by omega, by omega, fun _ => ⟨by omega, h⟩, by omega⟩,
          fun h => (h.domains hdomain).2⟩
    · rw [if_neg hdomain]
      exact iff_of_true rfl ⟨by omega, by omega, by omega, fun h => absurd h hdomain, by omega⟩

def noParser : Parser := ⟨[], [], by simp⟩

/-- A click without `&&`. -/
def plainClick : Text := be32 5 ++ "url=http://a&e=a@b.c".toList

theorem plainClick_runs_on : ¬ ∀ (p : Parser) (msg : Text), msg.length < 1024 * 1024 →
    (parseMessage p msg).isSome := by
  intro hall
  exact absurd (hall noParser plainClick (by decide)) (by decide)

end Edm.Cachedb.ParseMessage
