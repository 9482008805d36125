import Edm.Support.CString

/-!
# Support — Path

File names as the system reads them.  A path is absolute or relative, and names its components;
how many slashes stand between two of them says nothing (`resolvePath_slash`).

* `resolvePath_inj`: below one directory, a path is determined by its components.
* `Entry p`: `p` is spelled as a directory lists it, with no slash too many; such a path is
  determined by the file it names (`Entry.eq_of_components`).
-/

namespace Support

/-- What a path names: whether it begins at the root, and its components. -/
abbrev PathName := Bool × List Text

/-- The components of a path. -/
def components (p : Text) : List Text := (p.splitOn '/').filter fun c => !c.isEmpty

/-- The file a path names. -/
def resolvePath (p : Text) : PathName := (p.head? == some '/', components p)

theorem components_append (d t : Text) :
    components (d ++ '/' :: t) = components d ++ components t := by
  rw [components, List.splitOn, List.splitOnP_append_cons d t (by rfl), List.filter_append]
  rfl

theorem components_name {s : Text} (hne : s ≠ []) (h : '/' ∉ s) : components s = [s] := by
  have hs : ∀ c ∈ s, (c == '/') = false := fun c hc => by
    rw [beq_eq_false_iff_ne]
    rintro rfl
    exact h hc
  rw [components, List.splitOn, List.splitOnP_eq_singleton hs, List.filter_cons_of_pos,
    List.filter_nil]
  simpa using hne

theorem resolvePath_append (d t : Text) :
    resolvePath (d ++ '/' :: t) =
      ((d ++ ['/']).head? == some '/', components d ++ components t) := by
  rw [resolvePath, components_append]
  cases d <;> rfl

/-- Two slashes are as good as one. -/
theorem resolvePath_slash (d t : Text) :
    resolvePath (d ++ '/' :: '/' :: t) = resolvePath (d ++ '/' :: t) := by
  have h : components ('/' :: t) = components t := components_append [] t
  rw [resolvePath_append, resolvePath_append, h]

theorem resolvePath_inj {d a b : Text} :
    resolvePath (d ++ '/' :: a) = resolvePath (d ++ '/' :: b) ↔ components a = components b := by
  rw [resolvePath_append, resolvePath_append, Prod.mk.injEq, List.append_cancel_left_eq]
  exact and_iff_right rfl

/-- The path as a directory lists it. -/
def Entry (p : Text) : Prop := ∀ c ∈ p.splitOn '/', c ≠ []

instance (p : Text) : Decidable (Entry p) :=
  inferInstanceAs (Decidable (∀ c ∈ p.splitOn '/', c ≠ []))

theorem Entry.components_eq {p : Text} (h : Entry p) : components p = p.splitOn '/' := by
  rw [components, List.filter_eq_self]
  intro c hc
  simpa using h c hc

/-- An entry is determined by the file it names. -/
theorem Entry.eq_of_components {a b : Text} (ha : Entry a) (hb : Entry b)
    (h : components a = components b) : a = b := by
  rw [ha.components_eq, hb.components_eq] at h
  calc a = ['/'].intercalate (a.splitOn '/') := (List.intercalate_splitOn '/').symm
    _ = ['/'].intercalate (b.splitOn '/') := by rw [h]
    _ = b := List.intercalate_splitOn '/'

end Support
