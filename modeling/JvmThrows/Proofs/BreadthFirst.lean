import JvmThrows.Proofs.Hierarchy
import JvmThrows.Proofs.Lookups
import Mathlib.Data.Nat.Find
import Mathlib.Order.Bounds.Basic

/-!
# All supertypes, nearest first

The transitive relations of a `Hierarchy` are walks with a queue, in which a name may wait many
times: it is marked as seen when it is taken out, not when it is put in. `Graph.turn` is one turn of
such a walk. Every walk ends (`exists_iterate_turn`), since a name adds to the queue only once.

`IsClosure` says what is listed: all that can be reached over one edge or more, each name once, in
the order of distances. The main statement, `closures_nearestFirst`, holds for any relations, also
such as have cycles, and such as are not converse to each other.
-/

namespace JvmThrows

section Defs

variable {α : Type} (next : α → List α)

/-- There is a way of `k` edges. -/
inductive Way (x : α) : Nat → α → Prop
  | refl : Way x 0 x
  | tail {k : Nat} {y z : α} (h : Way x k y) (hz : z ∈ next y) : Way x (k + 1) z

/-- The number of edges on a shortest way that has any: for the start itself, on a shortest
cycle. -/
def IsDistance (x y : α) (d : Nat) : Prop := IsLeast {k | 0 < k ∧ Way next x k y} d

/-- All that can be reached over one edge or more, each once and nearest first. -/
structure IsClosure (x : α) (names : List α) : Prop where
  nodup : names.Nodup
  mem_iff : ∀ y, y ∈ names ↔ Relation.TransGen (fun s t => t ∈ next s) x y
  nearest_first : names.Pairwise fun y z =>
    ∃ d e, IsDistance next x y d ∧ IsDistance next x z e ∧ d ≤ e

/-- One turn of a walk: what was listed so far, and what is pending. -/
def Graph.turn [DecidableEq α] (g : Graph α) : List α × List α → List α × List α
  | (listed, []) => (listed, [])
  | (listed, x :: rest) =>
    if x ∈ listed then (listed, rest) else (listed ++ [x], g.first x ++ rest ++ g.later x)

end Defs

namespace Graph

variable {α : Type} {g : Graph α} {seen pending : List α} {k : Nat} {x y : α}

/-! ### The walk, turn by turn -/

section Turns

variable [DecidableEq α]

/-- Every walk ends, with what `visit` lists. -/
theorem exists_iterate_turn (g : Graph α) (seen pending : List α) :
    ∃ turns ≤ pending.length + (g.ahead seen).length,
      g.turn^[turns] (seen.reverse, pending) = (seen.reverse ++ g.visit seen pending, []) := by
  induction seen, pending using visit.induct (g := g) with
  | case1 seen =>
    rw [visit, List.append_nil]
    exact ⟨0, Nat.zero_le _, rfl⟩
  | case2 seen x rest hx ih =>
    -- A vertex that was seen is dropped from the queue.
    obtain ⟨turns, hle, h⟩ := ih
    have hturn : g.turn (seen.reverse, x :: rest) = (seen.reverse, rest) :=
      if_pos (List.mem_reverse.2 hx)
    rw [visit, if_pos hx]
    refine ⟨turns + 1, ?_, ?_⟩
    · rw [List.length_cons]
      omega
    · rw [Function.iterate_succ_apply, hturn, h]
  | case3 seen x rest hx ih =>
    obtain ⟨turns, hle, h⟩ := ih
    have hturn : g.turn (seen.reverse, x :: rest) =
        ((x :: seen).reverse, g.first x ++ rest ++ g.later x) := by
      rw [List.reverse_cons]
      exact if_neg fun hmem => hx (List.mem_reverse.1 hmem)
    have hahead := length_ahead_cons_le (g := g) hx
    rw [visit, if_neg hx]
    refine ⟨turns + 1, ?_, ?_⟩
    · -- The edges of a new vertex are looked at only once.
      simp only [List.length_append, List.length_cons, successors] at hle hahead ⊢
      omega
    · rw [Function.iterate_succ_apply, hturn, h, List.reverse_cons, List.append_assoc,
        List.singleton_append]

end Turns

end Graph

/-! ### Distances -/

section Distances

variable {α : Type} {next : α → List α} {k : Nat} {x y z : α}

theorem exists_way_iff :
    (∃ k, 0 < k ∧ Way next x k y) ↔ Relation.TransGen (fun s t => t ∈ next s) x y := by
  constructor
  · rintro ⟨k, hk, h⟩
    induction h with
    | refl => exact absurd hk (Nat.lt_irrefl 0)
    | @tail k y z h hz ih =>
      -- A way of one edge is the last edge alone.
      rcases Nat.eq_zero_or_pos k with rfl | hk
      · cases h
        exact .single hz
      · exact (ih hk).tail hz
  · intro h
    induction h with
    | single hy => exact ⟨1, Nat.one_pos, .tail .refl hy⟩
    | tail _ hz ih =>
      obtain ⟨k, -, h⟩ := ih
      exact ⟨k + 1, Nat.succ_pos k, h.tail hz⟩

/-- What can be reached has a distance. -/
theorem exists_isDistance (h : Relation.TransGen (fun s t => t ∈ next s) x y) :
    ∃ d, IsDistance next x y d := by
  classical
  have hway := exists_way_iff.2 h
  exact ⟨Nat.find hway, Nat.find_spec hway, fun k hk => Nat.find_min' hway hk⟩

end Distances

namespace Graph

variable {α : Type} {g : Graph α} {k : Nat} {x y : α}

/-- With no edges to the front, layers count the edges after the first one. -/
theorem layer_iff_way (hfirst : ∀ x, g.first x = []) :
    g.Layer (g.later x) k y ↔ Way g.later x (k + 1) y := by
  constructor
  · intro h
    induction h with
    | start hy => exact .tail .refl hy
    -- All edges lead to the next layer.
    | @first _ x _ _ hy => exact absurd hy (hfirst x ▸ List.not_mem_nil)
    | later _ hy ih => exact ih.tail hy
  · intro h
    induction k generalizing y with
    | zero =>
      cases h with
      | tail h hy =>
        cases h
        exact .start hy
    | succ k ih =>
      cases h with
      | tail h hy => exact (ih h).later hy

variable [DecidableEq α]

theorem nodup_visit (g : Graph α) (seen pending : List α) : (g.visit seen pending).Nodup := by
  induction seen, pending using visit.induct (g := g) with
  | case1 seen =>
    rw [visit]
    exact .nil
  | case2 seen x rest hx ih => rwa [visit, if_pos hx]
  | case3 seen x rest hx ih =>
    rw [visit, if_neg hx, List.nodup_cons]
    exact ⟨fun hmem => not_mem_of_mem_visit hmem List.mem_cons_self, ih⟩

/-- A walk with no edges to the front is breadth-first. -/
theorem isClosure_visit (hfirst : ∀ x, g.first x = []) (x : α) :
    IsClosure g.later x (g.visit [] (g.later x)) where
  nodup := nodup_visit g [] (g.later x)
  mem_iff _ := mem_visit_later_iff hfirst
  nearest_first := by
    refine (pairwise_visit g (g.later x)).imp_of_mem fun {y z} hy hz hle => ?_
    obtain ⟨d, hd⟩ := exists_isDistance ((mem_visit_later_iff hfirst).1 hy)
    obtain ⟨e, he⟩ := exists_isDistance ((mem_visit_later_iff hfirst).1 hz)
    refine ⟨d, e, hd, he, ?_⟩
    obtain ⟨hpos, hway⟩ := he.1
    obtain ⟨k, rfl⟩ := Nat.exists_eq_add_one_of_ne_zero (Nat.ne_of_gt hpos)
    -- A shortest way to `z` bounds one to `y`, since `y` is in no later layer.
    obtain ⟨j, hj, hlayer⟩ := hle k ((layer_iff_way hfirst).2 hway)
    have hdj : d ≤ j + 1 := hd.2 ⟨Nat.succ_pos j, (layer_iff_way hfirst).1 hlayer⟩
    omega

end Graph

namespace Relation

theorem isClosure_reachable (r : Relation) (x : String) : IsClosure r.related x (r.reachable x) :=
  Graph.isClosure_visit (g := r.graph) (fun _ => rfl) x

/-- A transitive relation is walked through in at most one turn for each edge at the start and one
for each edge of the relation. -/
theorem exists_turns_reachable (r : Relation) (x : String) :
    ∃ turns ≤ (r.related x).length + (r.keys.flatMap r.related).length,
      r.graph.turn^[turns] ([], r.related x) = (r.reachable x, []) := by
  have hahead : r.graph.ahead [] = r.keys.flatMap r.related := by
    have hall : r.graph.support.filter (· ∉ ([] : List String)) = r.keys :=
      List.filter_eq_self.2 (by simp)
    rw [Graph.ahead, hall]
    rfl
  have hturns := r.graph.exists_iterate_turn [] (r.related x)
  rwa [hahead] at hturns

end Relation

/-- **Transitive relations are breadth-first closures.** For any hierarchy and any name, the walks
over subtypes and over supertypes end. They list all that can be reached over one edge or more,
hence the name itself if and only if it lies on a cycle, each once, and nearest first. One name is a
subtype of another if and only if zero or more supertype edges lead to that. -/
theorem Hierarchy.closures_nearestFirst (h : Hierarchy) (n : String) :
    (∃ turns ≤ (h.directSubtypes n).length + (h.subtypes.keys.flatMap h.directSubtypes).length,
      h.subtypes.graph.turn^[turns] ([], h.directSubtypes n) = (h.allSubtypes n, [])) ∧
    (∃ turns ≤
        (h.directSupertypes n).length + (h.supertypes.keys.flatMap h.directSupertypes).length,
      h.supertypes.graph.turn^[turns] ([], h.directSupertypes n) = (h.allSupertypes n, [])) ∧
    IsClosure h.directSubtypes n (h.allSubtypes n) ∧
    IsClosure h.directSupertypes n (h.allSupertypes n) ∧
    ∀ t, h.isSubtype n t = true ↔
      Relation.ReflTransGen (fun s t => t ∈ h.directSupertypes s) n t := by
  have hsuper : IsClosure h.directSupertypes n (h.allSupertypes n) :=
    h.supertypes.isClosure_reachable n
  refine ⟨h.subtypes.exists_turns_reachable n, h.supertypes.exists_turns_reachable n,
    h.subtypes.isClosure_reachable n, hsuper, fun t => ?_⟩
  rw [isSubtype, Bool.or_eq_true, beq_iff_eq, List.contains_iff_mem, hsuper.mem_iff,
    Relation.reflTransGen_iff_eq_or_transGen, eq_comm]

end JvmThrows
