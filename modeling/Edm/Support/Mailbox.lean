import Edm.Support.Lower
import Edm.Support.Split
import Mathlib.Data.List.TakeWhile

/-!
# Support — Mailbox

`check_mailbox_syntax`: a local part, an `@`, and at least two labels with dots between them.  The
address has no other characters (`mem_mailbox`), and it may be written small
(`checkMailbox_tolower`).  The scanner accepts what has this form, and nothing else
(`checkMailbox_iff`).
-/

namespace Support

/-- `isalnum(c) || c == '.' || c == '_' || c == '-'`. -/
def isLocal (c : Char) : Bool := c.isAlphanum || c == '.' || c == '_' || c == '-'

/-- `isalnum(c) || c == '-'`. -/
def isLabel (c : Char) : Bool := c.isAlphanum || c == '-'

/-- The loop over the labels behind the first; `fuel` is at least their number. -/
def checkLabels : Nat → Text → Bool
  | _, [] => true
  | 0, _ :: _ => false
  | fuel + 1, c :: p =>
      c == '.' && !(p.takeWhile isLabel).isEmpty && checkLabels fuel (p.dropWhile isLabel)

/-- `check_mailbox_syntax` finds no error. -/
def checkMailbox (mail : Text) : Bool :=
  let p := mail.dropWhile isLocal
  let domain := p.drop 1
  p.head? == some '@' && !(mail.takeWhile isLocal).isEmpty &&
    !(domain.takeWhile isLabel).isEmpty && !(domain.dropWhile isLabel).isEmpty &&
      checkLabels domain.length (domain.dropWhile isLabel)

theorem mem_labels : ∀ {fuel : Nat} {p : Text}, checkLabels fuel p = true →
    ∀ c ∈ p, isLabel c = true ∨ c = '.'
  | _, [], _, c, hc => absurd hc List.not_mem_nil
  | 0, _ :: _, h, _, _ => absurd h (by simp [checkLabels])
  | fuel + 1, d :: p, h, c, hc => by
      rw [checkLabels, Bool.and_eq_true, Bool.and_eq_true, beq_iff_eq] at h
      rcases List.mem_cons.mp hc with rfl | hc
      · exact .inr h.1.1
      · rw [← List.takeWhile_append_dropWhile (p := isLabel) (l := p)] at hc
        rcases List.mem_append.mp hc with hc | hc
        · exact .inl (List.mem_takeWhile_imp hc)
        · exact mem_labels h.2 c hc

/-- The characters of an address. -/
theorem mem_mailbox {mail : Text} (h : checkMailbox mail = true) {c : Char} (hc : c ∈ mail) :
    isLocal c = true ∨ c = '@' := by
  have hlabel : ∀ c, isLabel c = true → isLocal c = true := by
    intro c hc
    rw [isLabel, Bool.or_eq_true] at hc
    rw [isLocal]
    rcases hc with hc | hc <;> simp [hc]
  simp only [checkMailbox, Bool.and_eq_true, beq_iff_eq] at h
  obtain ⟨⟨⟨⟨hat, -⟩, -⟩, -⟩, hlabels⟩ := h
  rw [← List.takeWhile_append_dropWhile (p := isLocal) (l := mail)] at hc
  rcases List.mem_append.mp hc with hc | hc
  · exact .inl (List.mem_takeWhile_imp hc)
  · obtain ⟨domain, hdomain⟩ := List.head?_eq_some_iff.mp hat
    rw [hdomain] at hc hlabels
    rcases List.mem_cons.mp hc with rfl | hc
    · exact .inr rfl
    · rw [← List.takeWhile_append_dropWhile (p := isLabel) (l := domain)] at hc
      rcases List.mem_append.mp hc with hc | hc
      · exact .inl (hlabel c (List.mem_takeWhile_imp hc))
      · rcases mem_labels hlabels c hc with hc | rfl
        · exact .inl (hlabel c hc)
        · exact .inl (by decide)

/-! ### What is accepted -/

/-- A label of a domain. -/
def IsLabel (l : Text) : Prop := l ≠ [] ∧ ∀ c ∈ l, isLabel c = true

/-- A local part, an `@`, and two or more labels with dots between them. -/
def IsMailbox (mail : Text) : Prop :=
  ∃ (user : Text) (labels : List Text), mail = user ++ '@' :: ['.'].intercalate labels ∧
    (user ≠ [] ∧ ∀ c ∈ user, isLocal c = true) ∧ 2 ≤ labels.length ∧ ∀ l ∈ labels, IsLabel l

theorem intercalate_dot (l : Text) (ls : List Text) :
    ['.'].intercalate (l :: ls) = l ++ ls.flatMap ('.' :: ·) := by
  induction ls generalizing l with
  | nil => simp
  | cons l' ls ih => rw [List.intercalate_cons_cons, ih, List.flatMap_cons]; simp

theorem takeWhile_spec (p : Char → Bool) (s : Text) :
    (∀ c ∈ s.takeWhile p, p c = true) ∧ ∀ c ∈ (s.dropWhile p).head?, p c = false := by
  refine ⟨fun c hc => List.mem_takeWhile_imp hc, fun c hc => ?_⟩
  have hhead := List.head?_dropWhile_not p s
  rwa [Option.mem_def.mp hc] at hhead

/-- The loop goes through labels with a dot in front of each, whatever their number. -/
theorem checkLabels_iff {fuel : Nat} : ∀ {p : Text}, p.length ≤ fuel →
    (checkLabels fuel p = true ↔
      ∃ labels : List Text, p = labels.flatMap ('.' :: ·) ∧ ∀ l ∈ labels, IsLabel l) := by
  induction fuel with
  | zero =>
      intro p hp
      obtain rfl := List.length_eq_zero_iff.mp (Nat.le_zero.mp hp)
      exact iff_of_true rfl ⟨[], rfl, by simp⟩
  | succ fuel ih =>
      intro p hp
      cases p with
      | nil => exact iff_of_true rfl ⟨[], rfl, by simp⟩
      | cons c p =>
          have hlen := (List.dropWhile_suffix (l := p) isLabel).length_le
          rw [List.length_cons] at hp
          rw [checkLabels, Bool.and_eq_true, Bool.and_eq_true, beq_iff_eq, ih (by omega)]
          constructor
          · rintro ⟨⟨rfl, hne⟩, labels, hrest, hlabels⟩
            refine ⟨p.takeWhile isLabel :: labels, ?_,
              List.forall_mem_cons.mpr ⟨⟨?_, ?_⟩, hlabels⟩⟩
            · rw [List.flatMap_cons, ← hrest, List.cons_append, List.takeWhile_append_dropWhile]
            · simpa using hne
            · exact (takeWhile_spec isLabel p).1
          · rintro ⟨_ | ⟨l, labels⟩, hsplit, hlabels⟩
            · cases hsplit
            · obtain ⟨hl, hlabels⟩ := List.forall_mem_cons.mp hlabels
              rw [List.flatMap_cons, List.cons_append, List.cons.injEq] at hsplit
              obtain ⟨rfl, rfl⟩ := hsplit
              have hnext : ∀ c ∈ (labels.flatMap ('.' :: ·)).head?, isLabel c = false := by
                cases labels with
                | nil => simp
                | cons l' labels => simpa using by decide
              obtain ⟨htake, hdrop⟩ := takeWhile_run hl.2 hnext
              rw [htake, hdrop]
              exact ⟨⟨rfl, by simpa using hl.1⟩, labels, rfl, hlabels⟩

/-- What the scanner accepts is what has the form of an address. -/
theorem checkMailbox_iff (mail : Text) : checkMailbox mail = true ↔ IsMailbox mail := by
  simp only [checkMailbox, Bool.and_eq_true, beq_iff_eq, Bool.not_eq_true',
    List.isEmpty_eq_false_iff]
  constructor
  · rintro ⟨⟨⟨⟨hat, huser⟩, hlabel⟩, hmore⟩, hlabels⟩
    obtain ⟨domain, hdomain⟩ := List.head?_eq_some_iff.mp hat
    rw [hdomain, List.drop_succ_cons, List.drop_zero] at hlabel hmore hlabels
    have hlen := (List.dropWhile_suffix (l := domain) isLabel).length_le
    obtain ⟨labels, hrest, hall⟩ := (checkLabels_iff hlen).mp hlabels
    refine ⟨mail.takeWhile isLocal, domain.takeWhile isLabel :: labels, ?_,
      ⟨huser, (takeWhile_spec isLocal mail).1⟩, ?_,
      List.forall_mem_cons.mpr ⟨⟨hlabel, (takeWhile_spec isLabel domain).1⟩, hall⟩⟩
    · rw [intercalate_dot, ← hrest, List.takeWhile_append_dropWhile, ← hdomain,
        List.takeWhile_append_dropWhile]
    · cases labels with
      | nil => exact absurd hrest hmore
      | cons l labels => simp
  · rintro ⟨user, _ | ⟨l, _ | ⟨l', labels⟩⟩, rfl, ⟨hne, huser⟩, htwo, hall⟩
    · cases htwo
    · simp at htwo
    · obtain ⟨hl, hall⟩ := List.forall_mem_cons.mp hall
      obtain ⟨htake, hdrop⟩ := takeWhile_run (t := '@' :: ['.'].intercalate (l :: l' :: labels))
        huser (by simpa using by decide)
      have hnext : ∀ c ∈ ((l' :: labels).flatMap ('.' :: ·)).head?, isLabel c = false := by
        simpa using by decide
      obtain ⟨htake', hdrop'⟩ := takeWhile_run hl.2 hnext
      rw [htake, hdrop, List.drop_succ_cons, List.drop_zero, intercalate_dot, htake', hdrop']
      refine ⟨⟨⟨⟨rfl, hne⟩, hl.1⟩, by simp⟩, (checkLabels_iff ?_).mpr ⟨l' :: labels, rfl, hall⟩⟩
      rw [List.length_append]
      omega

/-! ### Small letters -/

theorem toLower_isAlphanum (c : Char) : c.toLower.isAlphanum = c.isAlphanum := by
  rcases toLower_cases c with ⟨h, -⟩ | ⟨h₁, h₂, h₃⟩
  · rw [h]
  · have hc : c.isUpper = true := decide_eq_true ⟨h₁, h₂⟩
    have hl : c.toLower.isLower = true := by
      delta Char.isLower
      rw [Bool.and_eq_true, decide_eq_true_iff, decide_eq_true_iff]
      exact ⟨show 97 ≤ c.toLower.toNat by omega, show c.toLower.toNat ≤ 122 by omega⟩
    delta Char.isAlphanum Char.isAlpha
    rw [hc, hl, Bool.or_true, Bool.true_or, Bool.true_or, Bool.true_or]

theorem toLower_beq {d : Char} (hd : d.toNat < 65) (c : Char) : (c.toLower == d) = (c == d) := by
  rw [Bool.eq_iff_iff, beq_iff_eq, beq_iff_eq, toLower_eq_iff hd]

theorem isLabel_toLower (c : Char) : isLabel c.toLower = isLabel c := by
  rw [isLabel, isLabel, toLower_isAlphanum, toLower_beq (by decide)]

theorem isLocal_toLower (c : Char) : isLocal c.toLower = isLocal c := by
  have hunder : (c.toLower == '_') = (c == '_') := by
    rw [Bool.eq_iff_iff, beq_iff_eq, beq_iff_eq]
    rcases toLower_cases c with ⟨h, -⟩ | ⟨h₁, h₂, h₃⟩
    · rw [h]
    · have hval : ('_').toNat = 95 := rfl
      refine iff_of_false ?_ ?_ <;> rintro h <;> have := congrArg Char.toNat h <;> omega
  have hdash : (c.toLower == '-') = (c == '-') := toLower_beq (by decide) c
  rw [isLocal, isLocal, toLower_isAlphanum, toLower_beq (by decide), hunder, hdash]

theorem takeWhile_tolower {p : Char → Bool} (hp : ∀ c, p c.toLower = p c) (s : Text) :
    (tolower s).takeWhile p = tolower (s.takeWhile p) := by
  rw [tolower, List.takeWhile_map, show p ∘ Char.toLower = p from funext hp, tolower]

theorem dropWhile_tolower {p : Char → Bool} (hp : ∀ c, p c.toLower = p c) (s : Text) :
    (tolower s).dropWhile p = tolower (s.dropWhile p) := by
  rw [tolower, List.dropWhile_map, show p ∘ Char.toLower = p from funext hp, tolower]

theorem checkLabels_tolower (fuel : Nat) : ∀ p : Text,
    checkLabels fuel (tolower p) = checkLabels fuel p := by
  induction fuel with
  | zero =>
    intro p
    cases p <;> rfl
  | succ fuel ih =>
    intro p
    cases p with
    | nil => rfl
    | cons c p =>
      have hcons : tolower (c :: p) = c.toLower :: tolower p := rfl
      rw [hcons, checkLabels, checkLabels, toLower_beq (by decide),
        takeWhile_tolower isLabel_toLower,
        dropWhile_tolower isLabel_toLower, ih, tolower_isEmpty]

/-- An address may be written small. -/
theorem checkMailbox_tolower (mail : Text) : checkMailbox (tolower mail) = checkMailbox mail := by
  have hhead : ∀ p : Text, ((tolower p).head? == some '@') = (p.head? == some '@') := by
    intro p
    cases p with
    | nil => rfl
    | cons c p => exact toLower_beq (by decide) c
  have hdrop : ∀ p : Text, (tolower p).drop 1 = tolower (p.drop 1) := fun p => by
    rw [tolower, tolower, List.map_drop]
  simp only [checkMailbox, takeWhile_tolower isLocal_toLower,
    dropWhile_tolower isLocal_toLower, hhead,
    hdrop, takeWhile_tolower isLabel_toLower, dropWhile_tolower isLabel_toLower, tolower_isEmpty,
    length_tolower, checkLabels_tolower]

theorem cstr_tolower (s : Text) : cstr (tolower s) = tolower (cstr s) :=
  takeWhile_tolower (fun c => by rw [bne, bne, toLower_beq (by decide)]) s

end Support
