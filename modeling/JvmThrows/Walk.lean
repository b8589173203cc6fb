/-!
# Walks over graphs

`Graph.visit` lists the vertices that can be reached from some vertices, each once, in the order in
which they are met. What to follow next is part of the graph: some edges go to the front of what is
pending, some to its end. With none at the front the walk is breadth-first.
-/

namespace JvmThrows

/-- A graph in which finitely many vertices have edges. -/
structure Graph (α : Type) where
  /-- Followed before all that is pending. -/
  first : α → List α
  /-- Followed after all that is pending. -/
  later : α → List α
  support : List α
  eq_nil_of_not_mem : ∀ x, x ∉ support → first x = [] ∧ later x = []

namespace Graph

variable {α : Type} [DecidableEq α] (g : Graph α)

/-- How many vertices with edges are still to be seen. -/
def unseen (seen : List α) : Nat := (g.support.filter (· ∉ seen)).length

theorem unseen_cons (seen : List α) (x : α) :
    g.unseen (x :: seen) = ((g.support.filter (· ∉ seen)).filter (· ≠ x)).length := by
  simp [unseen, List.filter_filter]

theorem unseen_cons_le (seen : List α) (x : α) : g.unseen (x :: seen) ≤ g.unseen seen := by
  rw [unseen_cons]
  exact List.length_filter_le _ _

theorem unseen_cons_lt {seen : List α} {x : α} (hx : x ∈ g.support) (hs : x ∉ seen) :
    g.unseen (x :: seen) < g.unseen seen := by
  rw [unseen_cons]
  exact List.length_filter_lt_length_iff_exists.2 ⟨x, by simp [hx, hs], by simp⟩

/-- The vertices that can be reached from the pending ones without passing through seen ones. -/
def visit (g : Graph α) (seen pending : List α) : List α :=
  match pending with
  | [] => []
  | x :: rest =>
    if x ∈ seen then g.visit seen rest
    else x :: g.visit (x :: seen) (g.first x ++ rest ++ g.later x)
termination_by (g.unseen seen, pending.length)
decreasing_by
  · exact Prod.Lex.right _ (by simp)
  · rename_i hs
    by_cases hx : x ∈ g.support
    · exact Prod.Lex.left _ _ (g.unseen_cons_lt hx hs)
    · obtain ⟨h1, h2⟩ := g.eq_nil_of_not_mem x hx
      rw [h1, h2]
      rcases Nat.lt_or_eq_of_le (g.unseen_cons_le seen x) with h | h
      · exact Prod.Lex.left _ _ h
      · rw [h]
        exact Prod.Lex.right _ (by simp)

end Graph

end JvmThrows
