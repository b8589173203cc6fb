import JvmThrows.Proofs.CallChains
import JvmThrows.Proofs.Merging
import Mathlib.Data.List.Forall2

/-!
# Larger call graphs

A call graph is within another one if the methods of the one are methods of the other, with the same
handlers and with at least the same own exceptions and calls (`CallGraph.Within`). Sets of
exceptions that are closed in the larger graph are then closed in the smaller one, so that what
escapes in the smaller graph escapes in the larger one (`Within.escaping_le`), although the passes
over the two graphs have nothing to do with each other.

Two comparisons of results follow. Classes with different names give graphs that are within each
other in whatever order they are listed, and with them the same entries (`extract_eq_of_perm`). More
sources of exceptions give a larger graph with the same methods, and with it larger entries
(`extract_mono`).
-/

namespace JvmThrows

/-- A method with at least the same exceptions and calls. -/
structure CallNode.Within (n larger : CallNode) : Prop where
  id : larger.id = n.id
  handlers : larger.handlers = n.handlers
  own : ∀ e ∈ n.own, e ∈ larger.own
  calls : ∀ call ∈ n.calls, call ∈ larger.calls

theorem CallNode.Within.refl (n : CallNode) : n.Within n :=
  ⟨rfl, rfl, fun _ h => h, fun _ h => h⟩

/-- A graph over the same container with at least the same methods, exceptions and calls. -/
structure CallGraph.Within (g larger : CallGraph) : Prop where
  container : larger.container = g.container
  nodes : ∀ n ∈ g.nodes, ∃ n' ∈ larger.nodes, n.Within n'

namespace CallGraph

variable {g larger : CallGraph} {F : MethodId → Set String}

theorem Closed.of_within (hF : larger.Closed F) (h : g.Within larger) : g.Closed F where
  own := by
    rintro _ e ⟨n, hn, rfl, he⟩
    obtain ⟨n', hn', hle⟩ := h.nodes n hn
    exact hF.own ⟨n', hn', hle.id, hle.own e he⟩
  call := by
    rintro e _ callee ⟨n, hn, rfl, pc, hc, hcaught⟩ he
    obtain ⟨n', hn', hle⟩ := h.nodes n hn
    refine hF.call ⟨n', hn', hle.id, pc, hle.calls _ hc, ?_⟩ he
    rw [h.container, hle.handlers]
    exact hcaught

/-- The least closed sets grow with the graph. -/
theorem Within.escaping_le (h : g.Within larger) : setsOf g.escaping ≤ setsOf larger.escaping :=
  (isLeast_escaping g).2 ((isLeast_escaping larger).1.of_within h)

theorem Within.escapes (h : g.Within larger) {m : MethodId} {e : String} (he : g.Escapes m e) :
    larger.Escapes m e :=
  mem_escaping_iff.1 (h.escaping_le m (mem_escaping_iff.2 he))

end CallGraph

/-! ### The order of classes -/

theorem Entries.mem_of_mem_exceptionsOf {entries : Entries} {m : MethodId} {e : String}
    (h : e ∈ entries.exceptionsOf m) : m ∈ entries := by
  by_contra hm
  simp [exceptionsOf, hm] at h

theorem Entries.Within.antisymm {a b : Entries} (h : a.Within b) (h' : b.Within a) : a = b :=
  ext_exceptionsOf (fun m => ⟨h.mem m, h'.mem m⟩)
    fun m e => ⟨h.mem_exceptionsOf m e, h'.mem_exceptionsOf m e⟩

theorem Container.insert_comm {c d : ClassFile} (h : c.name ≠ d.name) (container : Container) :
    (container.insert c.name c).insert d.name d = (container.insert d.name d).insert c.name c := by
  refine Std.ExtTreeMap.ext_getElem? fun n => ?_
  simp only [Std.ExtTreeMap.getElem?_insert, Std.compare_eq_iff_eq]
  by_cases hc : c.name = n
  · have hd : d.name ≠ n := fun hd => h (hc.trans hd.symm)
    rw [if_neg hd, if_pos hc, if_pos hc]
  · rw [if_neg hc, if_neg hc]

theorem Container.ofList_perm {classes classes' : List ClassFile} (h : classes.Perm classes')
    (hd : (classes.map (·.name)).Nodup) : ofList classes = ofList classes' := by
  refine h.foldl_eq' (fun c hc d hd' container => ?_) ∅
  by_cases hname : c.name = d.name
  · -- The same name in one list is the same class.
    rw [List.inj_on_of_nodup_map hd hc hd' hname]
  · exact insert_comm hname container

section Order

variable {sources : Sources} {classes classes' : List ClassFile}

theorem nodup_names (hd : (classes.map fun c => ClassName.toBinary c.name).Nodup) :
    (classes.map (·.name)).Nodup := by
  refine List.Nodup.of_map ClassName.toBinary ?_
  rwa [List.map_map]

/-- Nothing in the graph tells the order of the classes, except the order of its methods. -/
theorem CallGraph.within_of_perm (h : classes.Perm classes') (hd : (classes.map (·.name)).Nodup) :
    (ofClasses sources classes).Within (ofClasses sources classes') where
  container := (Container.ofList_perm h hd).symm
  nodes n hn := by
    have hd' : (classes'.map (·.name)).Nodup := (h.map _).nodup_iff.1 hd
    obtain ⟨c, hc, hname, m, hm, hnode⟩ := (mem_nodes_iff hd).1 hn
    rw [Container.ofList_perm h hd] at hnode
    exact ⟨n, (mem_nodes_iff hd').2 ⟨c, h.mem_iff.1 hc, hname, m, hm, hnode⟩, .refl n⟩

/-- No two methods have the same identity by binary name. -/
theorem id_eq_of_toBinary_eq (hd : (classes.map fun c => ClassName.toBinary c.name).Nodup)
    {n n' : CallNode} (hn : n ∈ (CallGraph.ofClasses sources classes).nodes)
    (hn' : n' ∈ (CallGraph.ofClasses sources classes).nodes)
    (h : n'.id.toBinary = n.id.toBinary) : n'.id = n.id := by
  obtain ⟨c, hc, hname, -⟩ := (mem_nodes_iff (nodup_names hd)).1 hn
  obtain ⟨c', hc', hname', -⟩ := (mem_nodes_iff (nodup_names hd)).1 hn'
  obtain ⟨howner, hmethod⟩ := MethodId.ext_iff.1 h
  have hbinary : ClassName.toBinary c'.name = ClassName.toBinary c.name := by
    rw [hname, hname']
    exact howner
  have hclass : c' = c := List.inj_on_of_nodup_map hd hc' hc hbinary
  refine MethodId.ext ?_ hmethod.1 hmethod.2
  rw [← hname, ← hname', hclass]

theorem extract_within_of_perm (h : classes.Perm classes')
    (hd : (classes.map fun c => ClassName.toBinary c.name).Nodup) :
    (extract sources classes).Within (extract sources classes') where
  mem id := by simp only [mem_extract_iff, h.mem_iff, imp_self]
  mem_exceptionsOf id x hx := by
    have hd' : (classes'.map fun c => ClassName.toBinary c.name).Nodup :=
      (h.map _).nodup_iff.1 hd
    obtain ⟨c, hc, m, hm, rfl⟩ := mem_extract_iff.1 (Entries.mem_of_mem_exceptionsOf hx)
    obtain ⟨n, hn, hid⟩ := exists_node_of_method sources hc hm
    obtain ⟨n', hn', hid'⟩ := exists_node_of_method sources (h.mem_iff.1 hc) hm
    -- Both graphs have a node for the method, and its entry holds what escapes from this node.
    have hentry := mem_exceptionsOf_extract hn (fun k hk => id_eq_of_toBinary_eq hd hn hk) x
    have hentry' := mem_exceptionsOf_extract hn' (fun k hk => id_eq_of_toBinary_eq hd' hn' hk) x
    rw [hid] at hentry
    rw [hid'] at hentry'
    obtain ⟨e, he, hescapes⟩ := hentry.1 hx
    exact hentry'.2 ⟨e, he, (CallGraph.within_of_perm h (nodup_names hd)).escapes hescapes⟩

end Order

/-- **The order of classes does not count.** Classes with different binary names have the same
entries in whatever order they are listed. -/
theorem extract_eq_of_perm (sources : Sources) {classes classes' : List ClassFile}
    (hd : (classes.map fun c => ClassName.toBinary c.name).Nodup) (h : classes.Perm classes') :
    extract sources classes = extract sources classes' := by
  have hd' : (classes'.map fun c => ClassName.toBinary c.name).Nodup :=
    (h.map _).nodup_iff.1 hd
  exact (extract_within_of_perm h hd).antisymm (extract_within_of_perm h.symm hd')

/-- A method that calls one of the two methods that call each other. -/
def outsideCall : ClassFile :=
  { minorVersion := 0
    majorVersion := 52
    access := ⟨0x0021⟩
    name := "p/B"
    superclass := some "p/A"
    interfaces := []
    methods := [⟨⟨8⟩, "h", "()V", ["x/F"],
      some ⟨0, 0, [⟨0, .invoke .static ⟨"p/B", "f", "()V", false⟩⟩, ⟨3, .leave⟩], []⟩⟩] }

theorem extract_swap_outsideCall :
    ([mutualCalls, outsideCall].map fun c => ClassName.toBinary c.name).Nodup ∧
      extract {} [mutualCalls, outsideCall] = extract {} [outsideCall, mutualCalls] := by
  have hd : ([mutualCalls, outsideCall].map fun c => ClassName.toBinary c.name).Nodup := by
    decide +kernel
  exact ⟨hd, extract_eq_of_perm {} hd (.swap outsideCall mutualCalls [])⟩

/-! ### More sources -/

/-- What is collected by the one is collected by the other. -/
structure Sources.Within (sources larger : Sources) : Prop where
  declared : sources.declared = true → larger.declared = true
  thrown : sources.thrown = true → larger.thrown = true
  calls : sources.calls = true → larger.calls = true

section Sources

variable {sources larger : Sources}

theorem Sources.Within.ofMethod (h : sources.Within larger) (container : Container) (c : ClassFile)
    (m : Method) :
    (CallNode.ofMethod container sources c m).Within (CallNode.ofMethod container larger c m) where
  id := rfl
  handlers := rfl
  own e he := by
    rw [mem_own_ofMethod] at he ⊢
    exact he.imp (And.imp_left h.declared) (And.imp_left h.thrown)
  calls := by
    rintro ⟨pc, callee⟩ hc
    rw [mem_calls_ofMethod] at hc ⊢
    exact hc.imp_left h.calls

/-- Which nodes are kept depends on the methods only. -/
theorem CallNode.forall₂_keepFirst {l l' : List CallNode} (h : List.Forall₂ Within l l') :
    List.Forall₂ Within (keepFirst l) (keepFirst l') := by
  induction h with
  | nil => exact .nil
  | @cons n n' _ _ hn _ ih =>
    refine .cons hn (List.rel_filter (fun k k' hk => ?_) ih)
    dsimp only
    rw [hk.id, hn.id]

/-- The graphs have the same methods in the same order. -/
theorem Sources.Within.forall₂_nodes (h : sources.Within larger) (classes : List ClassFile) :
    List.Forall₂ CallNode.Within (CallGraph.ofClasses sources classes).nodes
      (CallGraph.ofClasses larger classes).nodes := by
  refine CallNode.forall₂_keepFirst (List.rel_flatMap (R := Eq) (List.forall₂_refl classes) ?_)
  rintro c _ rfl
  refine List.rel_map (R := Eq) ?_ (List.forall₂_refl c.methods)
  rintro m _ rfl
  exact h.ofMethod _ c m

theorem CallGraph.within_of_sources (h : sources.Within larger) (classes : List ClassFile) :
    (ofClasses sources classes).Within (ofClasses larger classes) where
  container := rfl
  nodes n hn := by
    have hnodes := h.forall₂_nodes classes
    obtain ⟨i, rfl⟩ := List.mem_iff_get.1 hn
    exact ⟨_, List.get_mem _ ⟨i, hnodes.length_eq ▸ i.2⟩, hnodes.get i.2 _⟩

theorem Entries.Within.insert {a b : Entries} (h : a.Within b) (m : MethodId) {s t : Exceptions}
    (hst : ∀ e ∈ s, e ∈ t) : Within (a.insert m s) (b.insert m t) where
  mem m' hm := by
    rw [Std.ExtTreeMap.mem_insert] at hm ⊢
    exact hm.imp_right (h.mem m')
  mem_exceptionsOf m' e he := by
    rw [exceptionsOf_insert] at he ⊢
    by_cases hm : m = m'
    · rw [if_pos hm] at he ⊢
      exact hst e he
    · rw [if_neg hm] at he ⊢
      exact h.mem_exceptionsOf m' e he

/-- Entries are written method by method, in the same order for both. Where several methods have one
binary name, the entry is that of the last of them in both. -/
theorem extract_within_of_sources (h : sources.Within larger) (classes : List ClassFile) :
    (extract sources classes).Within (extract larger classes) := by
  refine List.rel_foldl (P := Entries.Within) (fun entries entries' hle n n' hn => ?_)
    ⟨by simp, by simp [Entries.exceptionsOf]⟩ (h.forall₂_nodes classes)
  rw [hn.id]
  refine hle.insert _ fun x hx => ?_
  have hx : ∃ e, e ∈ (CallGraph.ofClasses sources classes).escaping.exceptionsOf n.id ∧
      ClassName.toBinary e = x := by simpa using hx
  obtain ⟨e, he, rfl⟩ := hx
  have he' := (CallGraph.within_of_sources h classes).escaping_le n.id he
  simpa using ⟨e, he', rfl⟩

end Sources

/-- **More sources, more exceptions.** With more sources of exceptions, the same methods have
entries, and each entry holds at least what it held before. -/
theorem extract_mono {sources larger : Sources} (h : sources.Within larger)
    (classes : List ClassFile) :
    (∀ id, id ∈ extract sources classes ↔ id ∈ extract larger classes) ∧
    ∀ id, ∀ e ∈ (extract sources classes).exceptionsOf id,
      e ∈ (extract larger classes).exceptionsOf id :=
  ⟨fun id => by rw [mem_extract_iff, mem_extract_iff],
    (extract_within_of_sources h classes).mem_exceptionsOf⟩

/-- With throws alone the second method has an entry for what it throws. It keeps that when calls
are followed, too, although the two methods call each other. -/
theorem extract_mono_mutualCalls :
    Sources.Within ⟨false, true, false⟩ {} ∧
      "x.E" ∈ (extract ⟨false, true, false⟩ [mutualCalls]).exceptionsOf ⟨"p.A", "g", "()V"⟩ ∧
      "x.E" ∈ (extract {} [mutualCalls]).exceptionsOf ⟨"p.A", "g", "()V"⟩ := by
  have hwithin : Sources.Within ⟨false, true, false⟩ {} := ⟨by simp, by simp, by simp⟩
  have hd : ([mutualCalls].map fun c => ClassName.toBinary c.name).Nodup := by decide +kernel
  have hid : MethodId.toBinary ⟨mutualCalls.name, "g", "()V"⟩ = ⟨"p.A", "g", "()V"⟩ := by
    decide +kernel
  obtain ⟨n, hn, hnode⟩ := exists_node_of_method ⟨false, true, false⟩
    (List.mem_singleton_self mutualCalls) (List.mem_cons_of_mem _ (List.mem_cons_self ..))
  have hentry := mem_exceptionsOf_extract hn (fun k hk => id_eq_of_toBinary_eq hd hn hk) "x.E"
  have hlocal : IsLocal ⟨false, true, false⟩ [mutualCalls] n.id "x/E" := by
    rw [hnode]
    exact ⟨_, ⟨mutualCalls, by simp, rfl, rfl⟩, .inr ⟨rfl, _, rfl, 10, by decide +kernel,
      by decide +kernel⟩⟩
  have hthrown := hentry.2 ⟨"x/E", by decide +kernel, n.id, .refl,
    (own_iff (nodup_names hd)).2 hlocal⟩
  rw [hnode, hid] at hthrown
  exact ⟨hwithin, hthrown, (extract_mono hwithin [mutualCalls]).2 _ _ hthrown⟩

end JvmThrows
