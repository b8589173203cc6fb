import JvmThrows.Extraction.Escape
import Mathlib.Data.List.Induction
import Mathlib.Data.Set.Basic
import Mathlib.Logic.Function.Iterate
import Mathlib.Logic.Relation
import Mathlib.Order.Bounds.Defs

/-!
# The passes over a call graph reach the least fixpoint

`CallGraph.settle` follows all calls again and again, each time adding to the sets that the next
call reads. Whatever the order of nodes and calls, the sets that it ends with are the least ones
that hold what each method has as its own and are closed under calls (`isLeast_escaping`), and an
exception is in them if and only if it gets to the method through a chain of calls
(`mem_escaping_iff`).

* Nothing spurious: following a call stays below every closed assignment (`Below.follow`).
* Nothing missed: a pass that changes nothing has seen the same sets at every call
  (`follow_eq_of_pass`), so these sets are closed (`closed_of_pass`).
-/

namespace JvmThrows

namespace CallGraph

variable {g : CallGraph} {F : MethodId → Set String} {found : Entries}

section Defs

variable (g)

/-- An exception is the method's own. -/
def Own (m : MethodId) (e : String) : Prop := ∃ n ∈ g.nodes, n.id = m ∧ e ∈ n.own

/-- Through a call that no handler for it covers, an exception gets from `callee` to `m`. -/
def Passes (e : String) (m callee : MethodId) : Prop :=
  ∃ n ∈ g.nodes, n.id = m ∧
    ∃ pc, (pc, callee) ∈ n.calls ∧ g.container.isCaught n.handlers pc e = false

/-- There is a chain of calls from the method down to one that has the exception as its own. -/
def Escapes (m : MethodId) (e : String) : Prop :=
  ∃ last, Relation.ReflTransGen (g.Passes e) m last ∧ g.Own last e

/-- Sets of exceptions that hold all own ones and all that calls bring. -/
structure Closed (F : MethodId → Set String) : Prop where
  own : ∀ {m e}, g.Own m e → e ∈ F m
  call : ∀ {e m callee}, g.Passes e m callee → e ∈ F callee → e ∈ F m

end Defs

/-- The sets that entries stand for. -/
def setsOf (found : Entries) : MethodId → Set String := fun m => {e | e ∈ found.exceptionsOf m}

/-! ### Chains -/

theorem Escapes.mem_of_closed {m : MethodId} {e : String} (h : g.Escapes m e) (hF : g.Closed F) :
    e ∈ F m := by
  obtain ⟨last, hchain, hown⟩ := h
  -- Along a chain of calls an exception goes up, from the last method to the first.
  induction hchain using Relation.ReflTransGen.head_induction_on with
  | refl => exact hF.own hown
  | head hstep _ ih => exact hF.call hstep ih

theorem closed_escapes (g : CallGraph) : g.Closed fun m => {e | g.Escapes m e} where
  own h := ⟨_, .refl, h⟩
  call hstep h := by
    obtain ⟨last, hchain, hown⟩ := h
    exact ⟨last, .head hstep hchain, hown⟩

/-! ### Nothing spurious -/

/-- The entries stay below given sets. -/
def Below (F : MethodId → Set String) (found : Entries) : Prop := setsOf found ≤ F

theorem mem_own_iff {m : MethodId} {e : String} : e ∈ g.own.exceptionsOf m ↔ g.Own m e := by
  unfold CallGraph.own Own
  generalize g.nodes = nodes
  induction nodes using List.reverseRecOn with
  | nil => simp [Entries.exceptionsOf]
  | append_singleton nodes n ih =>
    rw [List.foldl_append, List.foldl_cons, List.foldl_nil, Entries.mem_exceptionsOf_add, ih]
    simp [or_and_right, exists_or, or_comm]

theorem Below.follow (hF : g.Closed F) {n : CallNode} (hn : n ∈ g.nodes) {call : Nat × MethodId}
    (hc : call ∈ n.calls) {p : Progress} (hp : Below F p.found) :
    Below F (g.follow n p call).found := by
  rcases follow_cases (g := g) n p call with heq | ⟨-, heq⟩
  · rwa [heq]
  · rw [heq]
    intro m e he
    -- What comes in from a call, or what was there before.
    rcases Entries.mem_exceptionsOf_add.1 he with ⟨rfl, hnew⟩ | he
    · have hnew : e ∈ g.incoming p.found n call := by simpa using hnew
      obtain ⟨hcallee, -, hcaught⟩ := mem_incoming.1 hnew
      exact hF.call ⟨n, hn, rfl, call.1, hc, hcaught⟩ (hp call.2 hcallee)
    · exact hp m he

theorem Below.pass (hF : g.Closed F) (h : Below F found) : Below F (g.pass found).found :=
  pass_keeps (P := fun p => Below F p.found) (fun _ hn _ hc _ hp => hp.follow hF hn hc) h

/-! ### Nothing missed -/

theorem le_pass (found : Entries) : setsOf found ≤ setsOf (g.pass found).found := by
  refine pass_keeps (P := fun p => setsOf found ≤ setsOf p.found) ?_ le_rfl
  intro n hn call hc p hp m e he
  have he : e ∈ p.found.exceptionsOf m := hp m he
  rcases follow_cases (g := g) n p call with heq | ⟨-, heq⟩
  · rwa [heq]
  · rw [heq]
    exact Entries.mem_exceptionsOf_add.2 (.inr he)

section Fixed

variable {α : Type} {f : Progress → α → Progress} (hf : ∀ p a, f p a = p ∨ (f p a).changed = true)
include hf

theorem foldl_eq_or_changed (l : List α) (p : Progress) :
    l.foldl f p = p ∨ (l.foldl f p).changed = true := by
  refine List.foldlRecOn l f (motive := fun q => q = p ∨ q.changed = true) (.inl rfl) ?_
  intro q hq a _
  rcases hf q a with heq | hc
  · rwa [heq]
  · exact .inr hc

/-- What ends unchanged was unchanged at every step. -/
theorem eq_of_foldl_unchanged {l : List α} {p : Progress} (h : (l.foldl f p).changed = false) :
    ∀ a ∈ l, f p a = p := by
  induction l with
  | nil => simp
  | cons a l ih =>
    have ha : f p a = p := by
      rcases hf p a with heq | hc
      · exact heq
      · rcases foldl_eq_or_changed hf l (f p a) with hl | hl
        · -- A step that changes something is seen at the end of the list.
          rw [List.foldl_cons, hl, hc] at h
          cases h
        · rw [List.foldl_cons, hl] at h
          cases h
    rw [List.foldl_cons, ha] at h
    simpa [ha] using ih h

end Fixed

theorem follow_eq_or_changed (n : CallNode) (p : Progress) (call : Nat × MethodId) :
    g.follow n p call = p ∨ (g.follow n p call).changed = true := by
  rcases follow_cases (g := g) n p call with heq | ⟨-, heq⟩
  · exact .inl heq
  · exact .inr (by rw [heq])

theorem follow_eq_of_pass (h : (g.pass found).changed = false) {n : CallNode} (hn : n ∈ g.nodes)
    {call : Nat × MethodId} (hc : call ∈ n.calls) :
    g.follow n ⟨found, false⟩ call = ⟨found, false⟩ := by
  have hall := eq_of_foldl_unchanged (fun p n => foldl_eq_or_changed (follow_eq_or_changed n) _ p) h
    n hn
  have hn : (n.calls.foldl (g.follow n) ⟨found, false⟩).changed = false :=
    congrArg Progress.changed hall
  exact eq_of_foldl_unchanged (follow_eq_or_changed n) hn call hc

/-- Sets on which a pass finds nothing are closed, if they hold the own exceptions. -/
theorem closed_of_pass (hown : setsOf g.own ≤ setsOf found) (h : (g.pass found).changed = false) :
    g.Closed (setsOf found) where
  own ho := hown _ (mem_own_iff.2 ho)
  call := by
    rintro e _ callee ⟨n, hn, rfl, pc, hc, hcaught⟩ he
    by_contra hcaller
    have hself : callee ≠ n.id := by
      rintro rfl
      exact hcaller he
    have hin : e ∈ g.incoming found n (pc, callee) := mem_incoming.2 ⟨he, hcaller, hcaught⟩
    have hfix := follow_eq_of_pass h hn hc
    have hne : (g.incoming found n (pc, callee)).isEmpty = false := by
      -- An exception that could still come in would have changed something.
      cases hl : g.incoming found n (pc, callee) with
      | nil => simp [hl] at hin
      | cons _ _ => rfl
    unfold follow at hfix
    rw [if_neg hself] at hfix
    simp only [hne, Bool.false_eq_true, if_false] at hfix
    cases congrArg Progress.changed hfix

/-! ### All passes -/

/-- The loop ends after finitely many passes, and a further pass would find nothing. -/
theorem settle_eq_iterate (found : Entries) (h : g.Bounded found) :
    ∃ k, g.settle found h = (fun f => (g.pass f).found)^[k] found ∧
      g.pass (g.settle found h) = ⟨g.settle found h, false⟩ := by
  induction found, h using settle.induct (g := g) with
  -- Another pass is needed, which counts as one more.
  | case1 found h hc ih =>
    obtain ⟨k, hk, hfix⟩ := ih
    rw [settle, if_pos hc]
    exact ⟨k + 1, hk, hfix⟩
  | case2 found h hc =>
    have hfix : g.pass found = ⟨found, false⟩ := by
      rcases pass_cases h with heq | ⟨hc', -⟩
      · exact heq
      · exact absurd hc' hc
    rw [settle, if_neg hc, hfix]
    exact ⟨0, rfl, hfix⟩

/-- **The least fixpoint.** The loop ends with the least sets that hold what each method has as its
own and are closed under calls. -/
theorem isLeast_escaping (g : CallGraph) : IsLeast {F | g.Closed F} (setsOf g.escaping) := by
  obtain ⟨k, hk, hfix⟩ := settle_eq_iterate g.own bounded_own
  have hbounds : ∀ k, setsOf g.own ≤ setsOf ((fun f => (g.pass f).found)^[k] g.own) ∧
      ∀ F, g.Closed F → Below F ((fun f => (g.pass f).found)^[k] g.own) := by
    intro k
    induction k with
    | zero => exact ⟨le_rfl, fun F hF m e he => hF.own (mem_own_iff.1 he)⟩
    -- One pass stays above what a method throws itself, and below every closed assignment.
    | succ k ih =>
      rw [Function.iterate_succ_apply']
      exact ⟨ih.1.trans (le_pass _), fun F hF => (ih.2 F hF).pass hF⟩
  unfold escaping
  refine ⟨closed_of_pass ?_ (by rw [hfix]), fun F hF => ?_⟩
  · rw [hk]
    exact (hbounds k).1
  · rw [hk]
    exact (hbounds k).2 F hF

theorem mem_escaping_iff {m : MethodId} {e : String} :
    e ∈ g.escaping.exceptionsOf m ↔ g.Escapes m e :=
  ⟨fun h => (isLeast_escaping g).2 (closed_escapes g) m h,
    fun h => h.mem_of_closed (isLeast_escaping g).1⟩

end CallGraph

end JvmThrows
