import Mathlib.Data.List.Sort
import Mathlib.Tactic.Common

/-!
# Support — Rows

What `order by`, `group by` and `limit 1` make of the rows of a query.  Which row of a group is shown
is not said (`Grouped`): it may be the first one (`grouped_groupBy`).  `limit 1` leaves the least row
of all (`head?_orderBy`).
-/

namespace Support

variable {α β : Type*}

/-- Of each group one row is shown, whichever. -/
structure Grouped (g : α → β) (rows shown : List α) : Prop where
  mem : ∀ r ∈ shown, r ∈ rows
  all : ∀ r ∈ rows, ∃ r' ∈ shown, g r' = g r
  once : (shown.map g).Nodup

/-- The first row of each group. -/
def groupBy [DecidableEq β] (g : α → β) : List α → List α
  | [] => []
  | r :: rows => r :: (groupBy g rows).filter fun r' => g r' ≠ g r

theorem grouped_groupBy [DecidableEq β] (g : α → β) : ∀ rows, Grouped g rows (groupBy g rows)
  | [] => ⟨fun _ h => h, fun _ h => absurd h List.not_mem_nil, List.nodup_nil⟩
  | a :: rows => by
      have ih := grouped_groupBy g rows
      refine ⟨fun r hr => ?_, fun r hr => ?_, ?_⟩
      · rcases List.mem_cons.mp hr with rfl | hr
        · exact List.mem_cons_self
        · exact List.mem_cons_of_mem _ (ih.mem r (List.mem_of_mem_filter hr))
      · by_cases hg : g r = g a
        · exact ⟨a, List.mem_cons_self, hg.symm⟩
        · obtain ⟨r', hr', hsame⟩ := ih.all r
            ((List.mem_cons.mp hr).resolve_left fun h => hg (congrArg g h))
          refine ⟨r', List.mem_cons_of_mem _ (List.mem_filter.mpr ⟨hr', ?_⟩), hsame⟩
          exact decide_eq_true (hsame ▸ hg)
      · refine List.nodup_cons.mpr ⟨fun h => ?_, ?_⟩
        · obtain ⟨r, hr, hg⟩ := List.mem_map.mp h
          exact of_decide_eq_true (List.mem_filter.mp hr).2 hg
        · exact ih.once.sublist (List.filter_sublist.map g)

variable (le : α → α → Prop) [DecidableRel le]

def orderBy (rows : List α) : List α := rows.insertionSort le

variable {le}

variable [Std.Total le] [IsTrans α le]

theorem head?_orderBy {rows : List α} {r : α} (h : r ∈ rows) :
    ∃ r₀ ∈ rows, (orderBy le rows).head? = some r₀ ∧ ∀ r' ∈ rows, le r₀ r' := by
  have hmem : ∀ r', r' ∈ orderBy le rows ↔ r' ∈ rows := fun _ => List.mem_insertionSort le
  have hsorted : (orderBy le rows).Pairwise le := List.pairwise_insertionSort le rows
  cases hrows : orderBy le rows with
  | nil =>
    rw [← hmem, hrows] at h
    exact absurd h List.not_mem_nil
  | cons r₀ rest =>
    rw [hrows] at hsorted
    refine ⟨r₀, (hmem r₀).mp (hrows ▸ List.mem_cons_self), rfl, fun r' hr' => ?_⟩
    rcases List.mem_cons.mp (hrows ▸ (hmem r').mpr hr') with rfl | hr'
    · exact (Std.Total.total (r := le) r' r').elim id id
    · exact (List.pairwise_cons.mp hsorted).1 r' hr'

end Support
