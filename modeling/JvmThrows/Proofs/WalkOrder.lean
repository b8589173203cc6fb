import JvmThrows.Proofs.Walk

/-!
# Walks go by layers

On the way to a vertex some edges go to the front of what is pending and some to its end. Only those
to the end count for its layer: a walk lists no vertex before one of a lower layer
(`pairwise_visit`). With no edges to the front this says that a walk is breadth-first.

Edges to the front come first in any case. Where they form a chain, a search along the walk ends
with the first hit on the chain, if there is one (`Nearest.findSome?_visit`). `NearestUp` is the
same without a graph.
-/

namespace JvmThrows

/-- The nearest from a vertex upwards that has a property. -/
inductive NearestUp {α : Type} (up : α → α → Prop) (p : α → Prop) : α → α → Prop
  | here {x : α} (h : p x) : NearestUp up p x x
  | next {x y z : α} (h : ¬ p x) (hy : up x y) (hz : NearestUp up p y z) : NearestUp up p x z

/-- If there is any upwards, there is a nearest one. -/
theorem exists_nearestUp {α : Type} {up : α → α → Prop} {p : α → Prop} {x y : α}
    (h : Relation.ReflTransGen up x y) (hy : p y) : ∃ z, NearestUp up p x z := by
  induction h using Relation.ReflTransGen.head_induction_on with
  | refl => exact ⟨y, .here hy⟩
  | @head x _ hx _ ih =>
    by_cases hp : p x
    · exact ⟨x, .here hp⟩
    · obtain ⟨z, hz⟩ := ih
      exact ⟨z, .next hp hx hz⟩

namespace Graph

section Defs

variable {α β : Type} (g : Graph α) (starts : List α)

/-- The vertex can be reached over `k` edges to the end and any number to the front. -/
inductive Layer : Nat → α → Prop
  | start {x : α} (h : x ∈ starts) : Layer 0 x
  | first {k : Nat} {x y : α} (h : Layer k x) (hy : y ∈ g.first x) : Layer k y
  | later {k : Nat} {x y : α} (h : Layer k x) (hy : y ∈ g.later x) : Layer (k + 1) y

/-- Wherever the second vertex can be reached, the first one can be reached as early. -/
def NoLater (x y : α) : Prop := ∀ k, g.Layer starts k y → ∃ j ≤ k, g.Layer starts j x

/-- The state of a walk in a layer: all lower layers have been seen, what is pending of this one
stands in front of what is pending of the next. -/
structure Layered (k : Nat) (seen now next : List α) : Prop where
  seen_of_lt : ∀ x j, g.Layer starts j x → j < k → x ∈ seen
  layer_now : ∀ x ∈ now, g.Layer starts k x
  layer_next : ∀ x ∈ next, g.Layer starts (k + 1) x
  starts_mem : ∀ x ∈ starts, x ∈ seen ∨ x ∈ now
  first_mem : ∀ x ∈ seen, ∀ y ∈ g.first x, y ∈ seen ∨ y ∈ now
  later_mem : ∀ x ∈ seen, ∀ y ∈ g.later x, y ∈ seen ∨ y ∈ now ∨ y ∈ next
  /-- What follows lower layers is not left for the next one. -/
  later_mem_of_lt : ∀ x ∈ seen, ∀ j, g.Layer starts j x → j < k →
    ∀ y ∈ g.later x, y ∈ seen ∨ y ∈ now

/-- The first hit along edges to the front, after `n` of them. -/
inductive Nearest (f : α → Option β) : Nat → α → β → Prop
  | here {x : α} {b : β} (h : f x = some b) : Nearest f 0 x b
  | next {n : Nat} {x y : α} {b : β} (h : f x = none) (hy : g.first x = [y])
    (hb : Nearest f n y b) : Nearest f (n + 1) x b

end Defs

variable {α β : Type} {g : Graph α} {starts seen now next pending : List α} {k : Nat} {x y : α}

/-! ### Layers -/

theorem exists_layer_iff : (∃ k, g.Layer starts k x) ↔ g.ReachableFrom starts x := by
  constructor
  · rintro ⟨k, h⟩
    induction h with
    | start h => exact ⟨_, h, .refl⟩
    | first _ hy ih =>
      obtain ⟨p, hp, hr⟩ := ih
      exact ⟨p, hp, hr.tail (.inl hy)⟩
    | later _ hy ih =>
      obtain ⟨p, hp, hr⟩ := ih
      exact ⟨p, hp, hr.tail (.inr hy)⟩
  · rintro ⟨p, hp, hr⟩
    induction hr with
    | refl => exact ⟨0, .start hp⟩
    | tail _ hadj ih =>
      obtain ⟨k, h⟩ := ih
      rcases hadj with hy | hy
      · exact ⟨k, h.first hy⟩
      · exact ⟨k + 1, h.later hy⟩

theorem layered_start (g : Graph α) (starts : List α) : g.Layered starts 0 [] starts [] where
  seen_of_lt _ _ _ hj := absurd hj (Nat.not_lt_zero _)
  layer_now _ hx := .start hx
  layer_next _ hx := absurd hx List.not_mem_nil
  starts_mem _ hx := .inr hx
  first_mem _ hx := absurd hx List.not_mem_nil
  later_mem _ hx := absurd hx List.not_mem_nil
  later_mem_of_lt _ hx := absurd hx List.not_mem_nil

/-- A layer is done when nothing is pending of it. -/
theorem Layered.advance (h : g.Layered starts k seen [] next) :
    g.Layered starts (k + 1) seen next [] where
  seen_of_lt x j hx hj := by
    induction hx with
    | start hx => exact (h.starts_mem _ hx).resolve_right List.not_mem_nil
    | first _ hy ih => exact (h.first_mem _ (ih hj) _ hy).resolve_right List.not_mem_nil
    | @later j x y hx hy ih =>
      have hlt : j < k := by omega
      exact (h.later_mem_of_lt x (h.seen_of_lt x j hx hlt) j hx hlt y hy).resolve_right
        List.not_mem_nil
  layer_now := h.layer_next
  layer_next _ hx := absurd hx List.not_mem_nil
  starts_mem x hx := .inl ((h.starts_mem x hx).resolve_right List.not_mem_nil)
  first_mem x hx y hy := .inl ((h.first_mem x hx y hy).resolve_right List.not_mem_nil)
  later_mem x hx y hy := by
    rcases h.later_mem x hx y hy with hs | hs | hs
    · exact .inl hs
    · exact absurd hs List.not_mem_nil
    · exact .inr (.inl hs)
  later_mem_of_lt x hx _ _ _ y hy := by
    rcases h.later_mem x hx y hy with hs | hs | hs
    · exact .inl hs
    · exact absurd hs List.not_mem_nil
    · exact .inr hs

/-- What was seen is passed over. -/
theorem Layered.skip (h : g.Layered starts k seen (x :: now) next) (hx : x ∈ seen) :
    g.Layered starts k seen now next := by
  have hdrop {z : α} (hz : z ∈ x :: now) : z ∈ seen ∨ z ∈ now := by
    rcases List.mem_cons.1 hz with rfl | hz
    · exact .inl hx
    · exact .inr hz
  refine ⟨h.seen_of_lt, fun z hz => h.layer_now z (List.mem_cons_of_mem x hz), h.layer_next,
    fun z hz => ?_, fun z hz y hy => ?_, fun z hz y hy => ?_, fun z hz j hj hlt y hy => ?_⟩
  · exact (h.starts_mem z hz).elim .inl hdrop
  · exact (h.first_mem z hz y hy).elim .inl hdrop
  · rcases h.later_mem z hz y hy with hs | hs | hs
    · exact .inl hs
    · exact (hdrop hs).imp_right .inl
    · exact .inr (.inr hs)
  · exact (h.later_mem_of_lt z hz j hj hlt y hy).elim .inl hdrop

/-- What was not seen is listed, and what follows it becomes pending. -/
theorem Layered.expand (h : g.Layered starts k seen (x :: now) next) (hx : x ∉ seen) :
    g.Layered starts k (x :: seen) (g.first x ++ now) (next ++ g.later x) := by
  have hlayer : g.Layer starts k x := h.layer_now x List.mem_cons_self
  have hmove {z : α} (hz : z ∈ seen ∨ z ∈ x :: now) : z ∈ x :: seen ∨ z ∈ g.first x ++ now := by
    rcases hz with hz | hz
    · exact .inl (List.mem_cons_of_mem x hz)
    · rcases List.mem_cons.1 hz with rfl | hz
      · exact .inl List.mem_cons_self
      · exact .inr (List.mem_append_right _ hz)
  refine ⟨fun z j hz hj => List.mem_cons_of_mem x (h.seen_of_lt z j hz hj), fun z hz => ?_,
    fun z hz => ?_, fun z hz => hmove (h.starts_mem z hz), fun z hz y hy => ?_,
    fun z hz y hy => ?_, fun z hz j hj hlt y hy => ?_⟩
  · rcases List.mem_append.1 hz with hz | hz
    · exact hlayer.first hz
    · exact h.layer_now z (List.mem_cons_of_mem x hz)
  · rcases List.mem_append.1 hz with hz | hz
    · exact h.layer_next z hz
    · exact hlayer.later hz
  · rcases List.mem_cons.1 hz with rfl | hz
    · exact .inr (List.mem_append_left _ hy)
    · exact hmove (h.first_mem z hz y hy)
  · rcases List.mem_cons.1 hz with rfl | hz
    · exact .inr (.inr (List.mem_append_right _ hy))
    · rcases h.later_mem z hz y hy with hs | hs | hs
      · exact (hmove (.inl hs)).imp_right .inl
      · exact (hmove (.inr hs)).imp_right .inl
      · exact .inr (.inr (List.mem_append_left _ hs))
  · rcases List.mem_cons.1 hz with rfl | hz
    · -- A vertex of a lower layer would have been seen.
      exact absurd (h.seen_of_lt z j hj hlt) hx
    · exact hmove (h.later_mem_of_lt z hz j hj hlt y hy)

/-- Whatever is pending first belongs to the layer of the walk or starts the next one. -/
theorem Layered.exists_cons (h : g.Layered starts k seen now next)
    (hpending : now ++ next = x :: pending) :
    ∃ k now' next', g.Layered starts k seen (x :: now') next' ∧ now' ++ next' = pending := by
  cases now with
  | nil =>
    subst hpending
    exact ⟨k + 1, pending, [], h.advance, List.append_nil _⟩
  | cons z now =>
    obtain ⟨rfl, rfl⟩ := List.cons.inj hpending
    exact ⟨k, now, next, h, rfl⟩

variable [DecidableEq α]

theorem not_mem_of_mem_visit (h : x ∈ g.visit seen pending) : x ∉ seen := by
  induction seen, pending using visit.induct (g := g) with
  | case1 seen => simp [visit] at h
  | case2 seen y rest hy ih =>
    rw [visit, if_pos hy] at h
    exact ih h
  | case3 seen y rest hy ih =>
    rw [visit, if_neg hy, List.mem_cons] at h
    rcases h with rfl | h
    · exact hy
    · exact fun hx => ih h (List.mem_cons_of_mem y hx)

theorem Layered.pairwise_visit (h : g.Layered starts k seen now next)
    (hpending : now ++ next = pending) :
    (g.visit seen pending).Pairwise (g.NoLater starts) := by
  induction seen, pending using visit.induct (g := g) generalizing k now next with
  | case1 seen =>
    rw [visit]
    exact .nil
  | case2 seen x rest hx ih =>
    obtain ⟨k, now, next, h, hrest⟩ := h.exists_cons hpending
    rw [visit, if_pos hx]
    exact ih (h.skip hx) hrest
  | case3 seen x rest hx ih =>
    obtain ⟨k, now, next, h, rfl⟩ := h.exists_cons hpending
    rw [visit, if_neg hx]
    refine .cons (fun y hy j hj => ?_) (ih (h.expand hx) (by simp))
    -- What comes later was not seen, so that it is of this layer at least.
    have hnew : y ∉ seen := fun hs => not_mem_of_mem_visit hy (List.mem_cons_of_mem x hs)
    have hle : k ≤ j := Nat.le_of_not_lt fun hlt => hnew (h.seen_of_lt y j hj hlt)
    exact ⟨k, hle, h.layer_now x List.mem_cons_self⟩

/-- A walk lists no vertex before one of a lower layer. -/
theorem pairwise_visit (g : Graph α) (starts : List α) :
    (g.visit [] starts).Pairwise (g.NoLater starts) :=
  (layered_start g starts).pairwise_visit (List.append_nil starts)

/-- A search along a walk ends with a hit in the lowest layer that has one. -/
theorem exists_noLater_of_findSome? {f : α → Option β} {b : β}
    (h : (g.visit [] starts).findSome? f = some b) :
    ∃ x, f x = some b ∧ g.ReachableFrom starts x ∧
      ∀ y, (f y).isSome = true → g.NoLater starts x y := by
  obtain ⟨before, x, after, hsplit, hx, hbefore⟩ := List.findSome?_eq_some_iff.1 h
  have hpair := pairwise_visit g starts
  rw [hsplit] at hpair
  refine ⟨x, hx, mem_visit_iff.1 (by simp [hsplit]), fun y hy k hk => ?_⟩
  have hmem : y ∈ g.visit [] starts := mem_visit_iff.2 (exists_layer_iff.1 ⟨k, hk⟩)
  rw [hsplit, List.mem_append, List.mem_cons] at hmem
  rcases hmem with hmem | rfl | hmem
  · rw [hbefore y hmem] at hy
    cases hy
  · exact ⟨k, Nat.le_refl k, hk⟩
  · exact (List.pairwise_cons.1 (List.pairwise_append.1 hpair).2.1).1 y hmem k hk

/-! ### Chains to the front -/

section Nearest

variable {f : α → Option β} {n m : Nat} {b b' : β}

omit [DecidableEq α] in
theorem Nearest.length_eq (h : g.Nearest f n x b) (h' : g.Nearest f m x b') : n = m := by
  induction h generalizing m with
  | here h =>
    cases h' with
    | here => rfl
    | next hnone => exact absurd (h.symm.trans hnone) (by simp)
  | next hnone hy _ ih =>
    cases h' with
    | here h => exact absurd (h.symm.trans hnone) (by simp)
    | next _ hy' hb' =>
      rw [hy, List.cons.injEq] at hy'
      obtain ⟨rfl, -⟩ := hy'
      rw [ih hb']

/-- What was seen has the hit farther away, so that the walk never leaves the chain before it. -/
theorem Nearest.findSome?_visit_of_farther (h : g.Nearest f n x b)
    (hseen : ∀ y ∈ seen, ∀ m b', g.Nearest f m y b' → n < m) :
    (g.visit seen (x :: pending)).findSome? f = some b := by
  induction h generalizing seen pending with
  | @here x b h =>
    have hx : x ∉ seen := fun hx => Nat.lt_irrefl _ (hseen x hx 0 b (.here h))
    rw [visit, if_neg hx, List.findSome?_cons, h]
  | @next n x y b hnone hy hb ih =>
    have hfull : g.Nearest f (n + 1) x b := .next hnone hy hb
    have hx : x ∉ seen := fun hx => Nat.lt_irrefl _ (hseen x hx _ b hfull)
    rw [visit, if_neg hx, List.findSome?_cons, hnone, hy]
    refine ih fun z hz m b' hm => ?_
    rcases List.mem_cons.1 hz with rfl | hz
    · have hlength := hfull.length_eq hm
      omega
    · have hlt := hseen z hz m b' hm
      omega

/-- The first hit on the chain is found, whatever else is pending. -/
theorem Nearest.findSome?_visit (h : g.Nearest f n x b) :
    (g.visit [] (x :: pending)).findSome? f = some b :=
  h.findSome?_visit_of_farther fun _ hy => absurd hy List.not_mem_nil

end Nearest

end Graph

end JvmThrows
