import JvmThrows.Walk
import Mathlib.Logic.Relation

/-!
# Walks list what can be reached

`Graph.visit` with nothing seen lists exactly the vertices that can be reached from the pending ones
(`mem_visit_iff`), whichever edges go to the front.
-/

namespace JvmThrows

namespace Graph

variable {α : Type} {g : Graph α} {seen pending : List α} {x y : α}

/-- There is an edge, of either kind. -/
def Adj (g : Graph α) (x y : α) : Prop := y ∈ g.first x ∨ y ∈ g.later x

/-- A vertex can be reached from one of some vertices. -/
def ReachableFrom (g : Graph α) (pending : List α) (x : α) : Prop :=
  ∃ p ∈ pending, Relation.ReflTransGen g.Adj p x

theorem ReachableFrom.cons (h : g.ReachableFrom pending x) :
    g.ReachableFrom (y :: pending) x := by
  obtain ⟨p, hp, hr⟩ := h
  exact ⟨p, List.mem_cons_of_mem _ hp, hr⟩

/-- What is reached after a step was reached before it. -/
theorem ReachableFrom.of_step
    (h : g.ReachableFrom (g.first y ++ pending ++ g.later y) x) :
    g.ReachableFrom (y :: pending) x := by
  obtain ⟨p, hp, hr⟩ := h
  rw [List.mem_append, List.mem_append] at hp
  rcases hp with (hp | hp) | hp
  · exact ⟨y, List.mem_cons_self .., .head (.inl hp) hr⟩
  · exact ⟨p, List.mem_cons_of_mem _ hp, hr⟩
  · exact ⟨y, List.mem_cons_self .., .head (.inr hp) hr⟩

variable [DecidableEq α]

theorem reachableFrom_of_mem_visit (h : x ∈ g.visit seen pending) : g.ReachableFrom pending x := by
  induction seen, pending using visit.induct (g := g) with
  | case1 seen => simp [visit] at h
  | case2 seen y rest hy ih =>
    rw [visit, if_pos hy] at h
    exact (ih h).cons
  | case3 seen y rest hy ih =>
    rw [visit, if_neg hy, List.mem_cons] at h
    rcases h with rfl | h
    · exact ⟨x, List.mem_cons_self .., .refl⟩
    · exact (ih h).of_step

theorem mem_visit_of_mem_pending (h : x ∈ pending) : x ∈ seen ∨ x ∈ g.visit seen pending := by
  induction seen, pending using visit.induct (g := g) with
  | case1 seen => simp at h
  | case2 seen y rest hy ih =>
    rw [visit, if_pos hy]
    rcases List.mem_cons.1 h with rfl | h
    · exact .inl hy
    · exact ih h
  | case3 seen y rest hy ih =>
    rw [visit, if_neg hy, List.mem_cons]
    rcases List.mem_cons.1 h with rfl | h
    · exact .inr (.inl rfl)
    · rcases ih (by simp [h]) with hs | hv
      · rcases List.mem_cons.1 hs with rfl | hs
        · exact .inr (.inl rfl)
        · exact .inl hs
      · exact .inr (.inr hv)

/-- The walk goes on from every vertex that it lists. -/
theorem mem_visit_of_adj (hx : x ∈ g.visit seen pending) (h : g.Adj x y) :
    y ∈ seen ∨ y ∈ g.visit seen pending := by
  induction seen, pending using visit.induct (g := g) with
  | case1 seen => simp [visit] at hx
  | case2 seen z rest hz ih =>
    rw [visit, if_pos hz] at hx ⊢
    exact ih hx
  | case3 seen z rest hz ih =>
    rw [visit, if_neg hz, List.mem_cons] at hx ⊢
    have hnext : y ∈ z :: seen ∨ y ∈ g.visit (z :: seen) (g.first z ++ rest ++ g.later z) := by
      rcases hx with rfl | hx
      · -- `z` itself is listed here, and its neighbours are pending from now on.
        refine mem_visit_of_mem_pending ?_
        rcases h with h | h <;> simp [h]
      · exact ih hx
    rcases hnext with hs | hv
    · rcases List.mem_cons.1 hs with rfl | hs
      · exact .inr (.inl rfl)
      · exact .inl hs
    · exact .inr (.inr hv)

theorem mem_visit_iff : x ∈ g.visit [] pending ↔ g.ReachableFrom pending x := by
  refine ⟨reachableFrom_of_mem_visit, ?_⟩
  rintro ⟨p, hp, hr⟩
  induction hr with
  | refl => exact (mem_visit_of_mem_pending hp).resolve_left List.not_mem_nil
  | tail _ hadj ih => exact (mem_visit_of_adj ih hadj).resolve_left List.not_mem_nil

/-- From the neighbours of a vertex a walk lists what can be reached over one edge or more. -/
theorem mem_visit_later_iff (hfirst : ∀ x, g.first x = []) :
    y ∈ g.visit [] (g.later x) ↔ Relation.TransGen (fun s t => t ∈ g.later s) x y := by
  have hadj : g.Adj = fun s t => t ∈ g.later s := by
    funext s t
    simp [Adj, hfirst]
  rw [mem_visit_iff, ReachableFrom, hadj, Relation.TransGen.head'_iff]

end Graph

end JvmThrows
