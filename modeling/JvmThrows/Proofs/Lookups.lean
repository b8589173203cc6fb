import JvmThrows.Proofs.CallChains
import JvmThrows.Proofs.WalkOrder

/-!
# Looking up declarations in a container

A reference to a method is looked up class by class: what is pending is taken from the front, a
superclass is put there and interfaces are put at the end, and a class that was seen is passed over.
`Graph.Search` describes these turns one by one, up to the first class that declares the method. The
classes may extend each other in circles, and still every search ends, since a class adds to what is
pending only once (`exists_search`).

The main statement, `resolve_finds`, says what such a search finds: a declaration if any class that
can be reached has one, and of the nearest class on the chain of superclasses if any class on it has
one.
-/

namespace JvmThrows

namespace Graph

section Defs

variable {α β : Type} (g : Graph α)

/-- The vertices that become pending after one. -/
def successors (x : α) : List α := g.first x ++ g.later x

variable [DecidableEq α]

/-- What the vertices that are still to be seen will make pending. -/
def ahead (seen : List α) : List α := (g.support.filter (· ∉ seen)).flatMap g.successors

/-- The turns of a search, counted. Each takes a vertex from the front of what is pending. -/
inductive Search (f : α → Option β) : Nat → List α → List α → Option β → Prop
  | nothing {seen : List α} : Search f 0 seen [] none
  | skip {n : Nat} {seen rest : List α} {x : α} {result : Option β} (hx : x ∈ seen)
    (h : Search f n seen rest result) : Search f (n + 1) seen (x :: rest) result
  | hit {seen rest : List α} {x : α} {b : β} (hx : x ∉ seen) (hb : f x = some b) :
    Search f 1 seen (x :: rest) (some b)
  | follow {n : Nat} {seen rest : List α} {x : α} {result : Option β} (hx : x ∉ seen)
    (hb : f x = none) (h : Search f n (x :: seen) (g.first x ++ rest ++ g.later x) result) :
    Search f (n + 1) seen (x :: rest) result

end Defs

variable {α β : Type} [DecidableEq α] {g : Graph α} {seen pending : List α} {x : α}

theorem length_flatMap_filter_ne_le (f : α → List α) (l : List α) (x : α) :
    ((l.filter (· ≠ x)).flatMap f).length + (if x ∈ l then (f x).length else 0) ≤
      (l.flatMap f).length := by
  induction l with
  | nil => simp
  | cons y l ih =>
    by_cases hy : y = x
    · -- The vertex itself is taken out, with all its edges.
      subst hy
      rw [List.filter_cons_of_neg (by simp), if_pos List.mem_cons_self, List.flatMap_cons,
        List.length_append]
      omega
    · have hmem : x ∈ y :: l ↔ x ∈ l := by simp [Ne.symm hy]
      rw [List.filter_cons_of_pos (by simpa using hy), List.flatMap_cons, List.flatMap_cons,
        List.length_append, List.length_append]
      simp only [hmem]
      omega

/-- What becomes pending is no longer ahead. -/
theorem length_ahead_cons_le (hx : x ∉ seen) :
    (g.ahead (x :: seen)).length + (g.successors x).length ≤ (g.ahead seen).length := by
  have hfilter : g.support.filter (· ∉ x :: seen) =
      (g.support.filter (· ∉ seen)).filter (· ≠ x) := by
    rw [List.filter_filter]
    refine List.filter_congr fun y _ => ?_
    simp
  have hle := length_flatMap_filter_ne_le g.successors (g.support.filter (· ∉ seen)) x
  unfold ahead
  rw [hfilter]
  by_cases hs : x ∈ g.support
  · rwa [if_pos (List.mem_filter.2 ⟨hs, by simpa using hx⟩)] at hle
  · -- Only vertices of the support have edges.
    obtain ⟨hfirst, hlater⟩ := g.eq_nil_of_not_mem x hs
    have hnil : g.successors x = [] := by simp [successors, hfirst, hlater]
    rw [hnil, List.length_nil]
    omega

/-- Every search ends, and with the first hit along the walk. Each turn takes one vertex, and what
is pending grows only by edges that were ahead. -/
theorem exists_search (g : Graph α) (f : α → Option β) (seen pending : List α) :
    ∃ turns ≤ pending.length + (g.ahead seen).length,
      g.Search f turns seen pending ((g.visit seen pending).findSome? f) := by
  induction seen, pending using visit.induct (g := g) with
  | case1 seen =>
    rw [visit]
    exact ⟨0, Nat.zero_le _, .nothing⟩
  | case2 seen x rest hx ih =>
    -- Seen before: the turn is over without a look.
    obtain ⟨turns, hle, h⟩ := ih
    rw [visit, if_pos hx]
    refine ⟨turns + 1, ?_, .skip hx h⟩
    rw [List.length_cons]
    omega
  | case3 seen x rest hx ih =>
    obtain ⟨turns, hle, h⟩ := ih
    rw [visit, if_neg hx, List.findSome?_cons]
    have hahead := length_ahead_cons_le (g := g) hx
    cases hb : f x with
    -- Found here, and the rest is not looked at.
    | some b =>
      refine ⟨1, ?_, .hit hx hb⟩
      rw [List.length_cons]
      omega
    | none =>
      refine ⟨turns + 1, ?_, .follow hx hb h⟩
      simp only [List.length_append, List.length_cons, successors] at hle hahead ⊢
      omega

end Graph

namespace Container

section Defs

variable (container : Container)

def HasSuperclass (n s : String) : Prop := ∃ c, container[n]? = some c ∧ c.superclass = some s

/-- A class of the container has the other one as its superclass or among its interfaces. -/
def Extends (n t : String) : Prop :=
  ∃ c, container[n]? = some c ∧ (c.superclass = some t ∨ t ∈ c.interfaces)

def Declares (name descriptor n : String) : Prop :=
  ∃ c, container[n]? = some c ∧ ∃ m ∈ c.methods, m.name = name ∧ m.descriptor = descriptor

/-- The nearest class from a class upwards that declares the method. -/
def Inherits (name descriptor : String) : String → String → Prop :=
  NearestUp container.HasSuperclass (container.Declares name descriptor)

end Defs

variable {container : Container} {classes : List ClassFile} {name descriptor n s d : String}

theorem adj_lookupGraph : container.lookupGraph.Adj = container.Extends := by
  funext n t
  cases hc : container[n]? <;> simp [Graph.Adj, Extends, lookupGraph, hc]

theorem first_lookupGraph (h : container.HasSuperclass n s) :
    container.lookupGraph.first n = [s] := by
  obtain ⟨c, hc, hs⟩ := h
  simp [lookupGraph, hc, hs]

/-- Of several classes with one name, the last counts. -/
theorem getElem?_ofList (classes : List ClassFile) (n : String) :
    (ofList classes)[n]? = classes.reverse.find? (·.name == n) :=
  (getElem?_foldl_insert ClassFile.name id classes ∅ n).trans (by simp)

/-- Classes are looked up by their own names. -/
theorem of_getElem?_ofList {c : ClassFile} (h : (ofList classes)[n]? = some c) :
    c ∈ classes ∧ c.name = n := by
  rw [getElem?_ofList] at h
  exact ⟨List.mem_reverse.1 (List.mem_of_find?_eq_some h), by simpa using List.find?_some h⟩

theorem declared?_ofList_eq_some_iff {id : MethodId} :
    (ofList classes).declared? name descriptor n = some id ↔
      (ofList classes).Declares name descriptor n ∧ id = ⟨n, name, descriptor⟩ := by
  unfold declared? Declares
  cases hc : (ofList classes)[n]? with
  | none => simp
  | some c =>
    have hname : c.name = n := (of_getElem?_ofList hc).2
    have hsome : (∃ m ∈ c.methods, m.name = name ∧ m.descriptor = descriptor) ↔
        (c.method? name descriptor).isSome = true := by
      simp [ClassFile.method?]
    simp only [Option.some.injEq, exists_eq_left', hsome]
    cases hm : c.method? name descriptor with
    | none => simp
    | some m =>
      obtain ⟨hmname, hmdescriptor⟩ := ClassFile.eq_of_method? hm
      simp [hname, hmname, hmdescriptor, eq_comm]

theorem isSome_declared?_ofList_iff :
    ((ofList classes).declared? name descriptor n).isSome = true ↔
      (ofList classes).Declares name descriptor n := by
  simp [Option.isSome_iff_exists, declared?_ofList_eq_some_iff]

theorem declared?_ofList_eq_none (h : ¬ (ofList classes).Declares name descriptor n) :
    (ofList classes).declared? name descriptor n = none := by
  rw [← Option.not_isSome_iff_eq_none, isSome_declared?_ofList_iff]
  exact h

theorem Inherits.exists_nearest (h : (ofList classes).Inherits name descriptor n d) :
    ∃ k, (ofList classes).lookupGraph.Nearest ((ofList classes).declared? name descriptor) k n
      ⟨d, name, descriptor⟩ := by
  induction h with
  | here hn => exact ⟨0, .here (declared?_ofList_eq_some_iff.2 ⟨hn, rfl⟩)⟩
  | next hn hs _ ih =>
    obtain ⟨k, hk⟩ := ih
    exact ⟨k + 1, .next (declared?_ofList_eq_none hn) (first_lookupGraph hs) hk⟩

theorem mem_visit_lookupGraph_iff :
    n ∈ container.lookupGraph.visit [] [s] ↔ Relation.ReflTransGen container.Extends s n := by
  rw [Graph.mem_visit_iff, Graph.ReachableFrom, adj_lookupGraph]
  simp

theorem successors_lookupGraph {c : ClassFile} (h : container[n]? = some c) :
    container.lookupGraph.successors n = c.superclass.toList ++ c.interfaces := by
  simp [Graph.successors, lookupGraph, h]

/-- Only what the classes name is ahead. -/
theorem ahead_lookupGraph (container : Container) :
    container.lookupGraph.ahead [] =
      container.toList.flatMap fun entry => entry.2.superclass.toList ++ entry.2.interfaces := by
  have hall : container.lookupGraph.support.filter (· ∉ ([] : List String)) = container.keys :=
    List.filter_eq_self.2 (by simp)
  unfold Graph.ahead
  rw [hall, ← Std.ExtTreeMap.map_fst_toList_eq_keys, List.flatMap_map]
  refine List.flatMap_congr fun entry hentry => ?_
  exact successors_lookupGraph (Std.ExtTreeMap.mem_toList_iff_getElem?_eq_some.1 hentry)

section Resolve

variable {target : MemberRef} {id : MethodId}

theorem isSome_resolve?_iff :
    ((ofList classes).resolve? target).isSome = true ↔
      ∃ n, Relation.ReflTransGen (ofList classes).Extends target.owner n ∧
        (ofList classes).Declares target.name target.descriptor n := by
  unfold resolve?
  simp only [List.findSome?_isSome_iff, mem_visit_lookupGraph_iff, isSome_declared?_ofList_iff]

theorem of_resolve?_eq_some (h : (ofList classes).resolve? target = some id) :
    id = ⟨id.owner, target.name, target.descriptor⟩ ∧
      Relation.ReflTransGen (ofList classes).Extends target.owner id.owner ∧
      (ofList classes).Declares target.name target.descriptor id.owner := by
  obtain ⟨n, hn, hid⟩ := List.exists_of_findSome?_eq_some h
  obtain ⟨hdecl, rfl⟩ := declared?_ofList_eq_some_iff.1 hid
  exact ⟨rfl, mem_visit_lookupGraph_iff.1 hn, hdecl⟩

theorem Inherits.resolve?_eq
    (h : (ofList classes).Inherits target.name target.descriptor target.owner d) :
    (ofList classes).resolve? target = some ⟨d, target.name, target.descriptor⟩ := by
  obtain ⟨k, hk⟩ := h.exists_nearest
  exact hk.findSome?_visit

end Resolve

/-- **Look-up.** For any classes, also such as extend each other in circles, and any reference: the
search ends after at most one turn for each superclass and each interface that the classes name, and
one for the class that the reference names. It finds a declaration if and only if a class that can
be reached over superclasses and interfaces declares the method, and then one of such a class. If a
class on the chain of superclasses declares it, the nearest one on the chain is found. -/
theorem resolve_finds (classes : List ClassFile) (target : MemberRef) :
    let container := ofList classes
    let Declares := container.Declares target.name target.descriptor
    let found := container.resolve? target
    (∃ turns ≤ 1 + (container.toList.flatMap fun entry =>
        entry.2.superclass.toList ++ entry.2.interfaces).length,
      container.lookupGraph.Search (container.declared? target.name target.descriptor) turns []
        [target.owner] found) ∧
    (found.isSome = true ↔
      ∃ n, Relation.ReflTransGen container.Extends target.owner n ∧ Declares n) ∧
    (∀ id, found = some id → id = ⟨id.owner, target.name, target.descriptor⟩ ∧
      Relation.ReflTransGen container.Extends target.owner id.owner ∧ Declares id.owner) ∧
    (∀ s, Relation.ReflTransGen container.HasSuperclass target.owner s → Declares s →
      ∃ d, container.Inherits target.name target.descriptor target.owner d ∧
        found = some ⟨d, target.name, target.descriptor⟩) := by
  intro container Declares found
  refine ⟨?_, isSome_resolve?_iff, fun id hid => of_resolve?_eq_some hid, fun s hs hdecl => ?_⟩
  · have hsearch := Graph.exists_search container.lookupGraph
      (container.declared? target.name target.descriptor) [] [target.owner]
    rwa [ahead_lookupGraph] at hsearch
  · obtain ⟨d, hd⟩ := exists_nearestUp (p := Declares) hs hdecl
    exact ⟨d, hd, Inherits.resolve?_eq hd⟩

end Container

end JvmThrows
