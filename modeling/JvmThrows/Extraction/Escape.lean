import JvmThrows.ClassName
import JvmThrows.Extraction.CallGraph

/-!
# Escaping exceptions

For every method of a container, the exceptions that may escape from it: those it declares, those it
throws, and those that escape from the methods it calls in the container, unless a handler around
the throw or call catches them.

Methods start with their own exceptions. A pass follows every call once, in order, and adds what the
called method has to the caller at once, so that later calls of the same pass see it. Passes are
made until one finds nothing. Every other pass finds an exception that some method has as its own
and that a method lacked until then, and there are only finitely many such pairs.
-/

namespace JvmThrows

namespace CallGraph

/-- What is found so far, and whether the current pass has added to it. -/
structure Progress where
  found : Entries
  changed : Bool

variable (g : CallGraph)

/-- The exceptions that one call would bring to the caller. -/
def incoming (found : Entries) (caller : CallNode) (call : Nat × MethodId) : List String :=
  (found.exceptionsOf call.2).toList.filter fun e =>
    !(found.exceptionsOf caller.id).contains e &&
      !g.container.isCaught caller.handlers call.1 e

/-- Follows one call. -/
def follow (caller : CallNode) (p : Progress) (call : Nat × MethodId) : Progress :=
  if call.2 = caller.id then p
  else
    let new := g.incoming p.found caller call
    if new.isEmpty then p else ⟨p.found.add caller.id (.ofList new), true⟩

/-- Follows the calls of one method. -/
def followAll (p : Progress) (caller : CallNode) : Progress :=
  caller.calls.foldl (g.follow caller) p

/-- Follows all calls. -/
def pass (found : Entries) : Progress := g.nodes.foldl g.followAll ⟨found, false⟩

/-- Only exceptions that some method has as its own are found. -/
def Bounded (found : Entries) : Prop := ∀ m, ∀ e ∈ found.exceptionsOf m, e ∈ g.candidates

/-- The methods with each exception that may be found for them. -/
def pairs : List (MethodId × String) := g.nodes.flatMap fun n => g.candidates.map (n.id, ·)

/-- How many pairs are still to be found. -/
def missing (found : Entries) : Nat :=
  (g.pairs.filter fun (m, e) => e ∉ found.exceptionsOf m).length

variable {g}

theorem mem_incoming {found : Entries} {caller : CallNode} {call : Nat × MethodId} {e : String} :
    e ∈ g.incoming found caller call ↔
      e ∈ found.exceptionsOf call.2 ∧ e ∉ found.exceptionsOf caller.id ∧
        g.container.isCaught caller.handlers call.1 e = false := by
  simp [incoming, ← Std.ExtTreeSet.contains_iff_mem]

/-- Following a call either changes nothing or adds what the call brings. -/
theorem follow_cases (caller : CallNode) (p : Progress) (call : Nat × MethodId) :
    g.follow caller p call = p ∨
      (∃ e, e ∈ g.incoming p.found caller call) ∧
        g.follow caller p call =
          ⟨p.found.add caller.id (.ofList (g.incoming p.found caller call)), true⟩ := by
  unfold follow
  by_cases hself : call.2 = caller.id
  · exact .inl (if_pos hself)
  · rw [if_neg hself]
    cases hnew : g.incoming p.found caller call with
    | nil => exact .inl rfl
    | cons e rest => exact .inr ⟨⟨e, by simp⟩, rfl⟩

/-- What every call keeps holds after a pass. -/
theorem pass_keeps {P : Progress → Prop} {found : Entries}
    (step : ∀ n ∈ g.nodes, ∀ call ∈ n.calls, ∀ p, P p → P (g.follow n p call))
    (start : P ⟨found, false⟩) : P (g.pass found) := by
  refine List.foldlRecOn g.nodes g.followAll start fun p hp n hn => ?_
  exact List.foldlRecOn n.calls (g.follow n) hp fun p hp call hc => step n hn call hc p hp

theorem Bounded.add {found : Entries} (h : g.Bounded found) {m : MethodId} {s : Exceptions}
    (hs : ∀ e ∈ s, e ∈ g.candidates) : g.Bounded (found.add m s) := by
  intro m' e he
  rcases Entries.mem_exceptionsOf_add.1 he with ⟨-, he⟩ | he
  · exact hs e he
  · exact h m' e he

theorem Bounded.incoming {found : Entries} (h : g.Bounded found) (caller : CallNode)
    (call : Nat × MethodId) :
    ∀ e ∈ Std.ExtTreeSet.ofList (g.incoming found caller call), e ∈ g.candidates := by
  intro e he
  have he : e ∈ g.incoming found caller call := by simpa using he
  exact h _ e (mem_incoming.1 he).1

theorem bounded_follow {p : Progress} (h : g.Bounded p.found) (caller : CallNode)
    (call : Nat × MethodId) : g.Bounded (g.follow caller p call).found := by
  rcases follow_cases (g := g) caller p call with heq | ⟨-, heq⟩
  · rwa [heq]
  · rw [heq]
    exact h.add (h.incoming caller call)

theorem bounded_pass {found : Entries} (h : g.Bounded found) : g.Bounded (g.pass found).found :=
  pass_keeps (P := fun p => g.Bounded p.found)
    (fun n _ call _ _ hp => bounded_follow hp n call) h

theorem bounded_own : g.Bounded g.own := by
  refine List.foldlRecOn g.nodes _ (motive := g.Bounded) ?_ fun found h n hn => h.add ?_
  · intro m e he
    simp [Entries.exceptionsOf] at he
  · intro e he
    exact List.mem_flatMap.2 ⟨n, hn, by simpa using he⟩

/-- An exception that a method lacked is one pair less to be found. -/
theorem missing_add_lt {found : Entries} {n : CallNode} (hn : n ∈ g.nodes) {s : Exceptions}
    {e : String} (hs : e ∈ s) (hc : e ∈ g.candidates) (he : e ∉ found.exceptionsOf n.id) :
    g.missing (found.add n.id s) < g.missing found := by
  -- Both sides count pairs, those on the left being a part of those on the right.
  have hsub : (g.pairs.filter fun (m, e) => e ∉ (found.add n.id s).exceptionsOf m) =
      (g.pairs.filter fun (m, e) => e ∉ found.exceptionsOf m).filter
        fun (m, e) => e ∉ (found.add n.id s).exceptionsOf m := by
    rw [List.filter_filter]
    refine List.filter_congr fun x _ => ?_
    simp only [Entries.mem_exceptionsOf_add]
    by_cases h1 : n.id = x.1 ∧ x.2 ∈ s <;> by_cases h2 : x.2 ∈ found.exceptionsOf x.1 <;>
      simp [h1, h2]
  unfold missing
  rw [hsub]
  refine List.length_filter_lt_length_iff_exists.2 ⟨(n.id, e), ?_, ?_⟩
  · refine List.mem_filter.2 ⟨?_, by simpa using he⟩
    exact List.mem_flatMap.2 ⟨n, hn, List.mem_map.2 ⟨e, hc, rfl⟩⟩
  · simp [Entries.mem_exceptionsOf_add, hs]

/-- A pass either finds nothing or leaves fewer pairs to be found. -/
theorem pass_cases {found : Entries} (h : g.Bounded found) :
    g.pass found = ⟨found, false⟩ ∨
      (g.pass found).changed = true ∧ g.missing (g.pass found).found < g.missing found := by
  suffices hP : g.Bounded (g.pass found).found ∧ (g.pass found = ⟨found, false⟩ ∨
      (g.pass found).changed = true ∧ g.missing (g.pass found).found < g.missing found) from hP.2
  refine pass_keeps (P := fun p => g.Bounded p.found ∧ (p = ⟨found, false⟩ ∨
    p.changed = true ∧ g.missing p.found < g.missing found)) ?_ ⟨h, .inl rfl⟩
  rintro n hn call - p ⟨hb, hp⟩
  refine ⟨bounded_follow hb n call, ?_⟩
  rcases follow_cases (g := g) n p call with heq | ⟨⟨e, he⟩, heq⟩
  · rwa [heq]
  · obtain ⟨hcallee, hcaller, -⟩ := mem_incoming.1 he
    have hlt := missing_add_lt hn (s := .ofList (g.incoming p.found n call)) (by simpa using he)
      (hb _ e hcallee) hcaller
    rw [heq]
    refine .inr ⟨rfl, ?_⟩
    rcases hp with rfl | ⟨-, hp⟩
    · exact hlt
    · exact Nat.lt_trans hlt hp

theorem missing_pass_lt {found : Entries} (h : g.Bounded found)
    (hc : (g.pass found).changed = true) :
    g.missing (g.pass found).found < g.missing found := by
  rcases pass_cases h with heq | ⟨-, hlt⟩
  · rw [heq] at hc
    cases hc
  · exact hlt

variable (g)

/-- Makes passes until one finds nothing. -/
def settle (found : Entries) (h : g.Bounded found) : Entries :=
  if (g.pass found).changed then settle (g.pass found).found (bounded_pass h)
  else (g.pass found).found
termination_by g.missing found
decreasing_by exact missing_pass_lt h ‹_›

/-- The exceptions that escape from each method. -/
def escaping : Entries := g.settle g.own bounded_own

end CallGraph

/-- The same method by the binary name of its class. -/
def MethodId.toBinary (id : MethodId) : MethodId := { id with owner := ClassName.toBinary id.owner }

/-- The exceptions that escape from each method of the classes, all by binary names. -/
def extract (sources : Sources) (classes : List ClassFile) : Entries :=
  let g := CallGraph.ofClasses sources classes
  let found := g.escaping
  g.nodes.foldl (fun entries n =>
    entries.insert n.id.toBinary
      (.ofList ((found.exceptionsOf n.id).toList.map ClassName.toBinary))) ∅

end JvmThrows
