import Edm.Support.Split

/-!
# Support — Overwrite

Bytes written into a memory (`overlay`; `write` and `put` fail where they do not fit), and NULs
written into a memory that several C strings share (`s[i] = 0`).  A string between two offsets is
still what it was when a NUL ends it and none is written into it (`cstr_drop_setNuls_iff`).
-/

namespace Support

/-- `s` with the bytes of `t` from the offset `p` on. -/
def overlay (s : Text) (p : Nat) (t : Text) : Text := s.take p ++ t ++ s.drop (p + t.length)

theorem take_overlay {s : Text} {p : Nat} (h : p ≤ s.length) (t : Text) :
    (overlay s p t).take (p + t.length) = s.take p ++ t := by
  have hlen : (s.take p ++ t).length = p + t.length := by
    rw [List.length_append, List.length_take, Nat.min_eq_left h]
  rw [overlay, ← hlen, List.take_left]

theorem length_overlay {s : Text} {p : Nat} {t : Text} (h : p + t.length ≤ s.length) :
    (overlay s p t).length = s.length := by
  rw [overlay, List.length_append, List.length_append, List.length_take, List.length_drop]
  omega

/-- Bytes in the middle are replaced by as many others. -/
theorem overlay_append {a m t : Text} (h : m.length = t.length) (c : Text) :
    overlay (a ++ (m ++ c)) a.length t = a ++ (t ++ c) := by
  rw [overlay, List.take_left, ← h, List.drop_length_add_append, List.drop_left, List.append_assoc]

/-- Bytes are written into a buffer; they must fit. -/
def write (s : Text) (p : Nat) (t : Text) : Option Text :=
  if p + t.length ≤ s.length then some (overlay s p t) else none

/-- A string is written into a buffer of so many bytes, with a NUL behind it. -/
def put (size : Nat) (s : Text) : Option Text := if s.length < size then some s else none

/-- `s` with NULs at the offsets `ps`. -/
def setNuls (ps : List Nat) (s : Text) : Text := ps.foldl (fun s p => s.set p nul) s

theorem getElem?_setNuls {i : Nat} : ∀ (ps : List Nat) {s : Text}, i < s.length →
    (setNuls ps s)[i]? = if i ∈ ps then some nul else s[i]?
  | [], _, _ => (if_neg List.not_mem_nil).symm
  | p :: ps, s, h => by
      have hrest := getElem?_setNuls ps (s := s.set p nul) (by rwa [List.length_set])
      have hcons : setNuls (p :: ps) s = setNuls ps (s.set p nul) := rfl
      rw [hcons, hrest]
      by_cases hps : i ∈ ps
      · rw [if_pos hps, if_pos (List.mem_cons_of_mem p hps)]
      · by_cases hp : i = p
        · subst hp
          rw [if_neg hps, if_pos List.mem_cons_self, List.getElem?_set_self h]
        · rw [if_neg hps, if_neg fun hm => (List.mem_cons.mp hm).elim hp hps,
            List.getElem?_set_ne (Ne.symm hp)]

@[simp] theorem length_setNuls : ∀ (ps : List Nat) (s : Text), (setNuls ps s).length = s.length
  | [], _ => rfl
  | p :: ps, s => (length_setNuls ps (s.set p nul)).trans List.length_set

/-- The string from `b` to `e` survives exactly when no NUL is written into it. -/
theorem cstr_drop_setNuls_iff {s : Text} (hs : nul ∉ s) {ps : List Nat} {b e : Nat} (hb : b ≤ e)
    (he : e < s.length) (hmem : e ∈ ps) :
    cstr ((setNuls ps s).drop b) = (s.drop b).take (e - b) ↔ ∀ p ∈ ps, ¬ (b ≤ p ∧ p < e) := by
  have hget : ∀ i, b + i < s.length →
      ((setNuls ps s).drop b)[i]? = if b + i ∈ ps then some nul else s[b + i]? := by
    intro i hi
    rw [List.getElem?_drop, getElem?_setNuls ps hi]
  constructor
  · intro h p hp hrange
    have hlt : p - b < (cstr ((setNuls ps s).drop b)).length := by
      rw [h, List.length_take, List.length_drop]
      omega
    have hat : (cstr ((setNuls ps s).drop b))[p - b]? = some nul := by
      obtain ⟨t, ht⟩ := List.takeWhile_prefix (l := (setNuls ps s).drop b) (· != nul)
      have happend : (cstr ((setNuls ps s).drop b) ++ t)[p - b]?
          = (cstr ((setNuls ps s).drop b))[p - b]? := List.getElem?_append_left hlt
      rw [← happend, cstr, ht, hget _ (by omega), Nat.add_sub_cancel' hrange.1, if_pos hp]
    exact nul_not_mem_cstr _ (List.mem_of_getElem? hat)
  · intro h
    have hfront : ((setNuls ps s).drop b).take (e - b) = (s.drop b).take (e - b) := by
      refine List.ext_getElem? fun i => ?_
      rw [List.getElem?_take, List.getElem?_take]
      split
      next hi =>
        rw [hget i (by omega), if_neg fun hp => h _ hp (by omega), List.getElem?_drop]
      next => rfl
    have hend : ((setNuls ps s).drop b).drop (e - b) = nul :: (setNuls ps s).drop (e + 1) := by
      have he' : e < (setNuls ps s).length := by rwa [length_setNuls]
      have hnul := getElem?_setNuls ps he
      rw [if_pos hmem, List.getElem?_eq_getElem he'] at hnul
      rw [List.drop_drop, Nat.add_sub_cancel' hb, List.drop_eq_getElem_cons he',
        Option.some.inj hnul]
    have hclean : nul ∉ (s.drop b).take (e - b) := fun hm =>
      hs (List.mem_of_mem_drop (List.mem_of_mem_take hm))
    rw [← List.take_append_drop (e - b) ((setNuls ps s).drop b), hfront, hend, cstr_append hclean]

end Support
