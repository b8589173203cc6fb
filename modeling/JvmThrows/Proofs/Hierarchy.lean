import JvmThrows.Classpath.Index
import JvmThrows.Proofs.Walk

/-!
# The inheritance graph of an index

The relations of a `Hierarchy` hold the edges that were added to it (`mem_directSupertypes_extend`,
`mem_directSubtypes_extend`), and transitive relations are what can be reached by one edge or more.
For an index in which classes are found by their names (`Coherent`) this means: the subtypes and
supertypes of a class are those that the definitions in the index lead to
(`Coherent.mem_allSupertypes_iff`, `Coherent.mem_allSubtypes_iff`).

An index of a class path is one of the containers that can be read (`build_eq`). Its classes are
those of the containers, the first definition of each name (`classes_ofContainers`).
-/

namespace JvmThrows

/-! ### Relations -/

namespace Relation

variable {r : Relation} {a b x y : String}

theorem mem_related_relate :
    y ∈ (r.relate a b).related x ↔ (a = x ∧ b = y) ∨ y ∈ r.related x := by
  unfold relate related
  rw [Std.ExtTreeMap.getElem?_insert]
  by_cases h : a = x
  · -- The class may have been there or not.
    subst h
    cases r[a]? <;> simp
  · simp [h]

theorem mem_reachable_iff :
    y ∈ r.reachable x ↔ Relation.TransGen (fun s t => t ∈ r.related s) x y :=
  Graph.mem_visit_later_iff (g := r.graph) fun _ => rfl

end Relation

namespace Hierarchy

variable {h : Hierarchy} {edges : List (String × String)} {s t : String}

theorem mem_directSupertypes_extend :
    t ∈ (h.extend edges).directSupertypes s ↔ (s, t) ∈ edges ∨ t ∈ h.directSupertypes s := by
  unfold extend
  induction edges generalizing h with
  | nil => simp
  | cons e edges ih =>
    rw [List.foldl_cons, ih]
    simp only [directSupertypes, addEdge, Relation.mem_related_relate, List.mem_cons, Prod.ext_iff]
    grind

theorem mem_directSubtypes_extend :
    s ∈ (h.extend edges).directSubtypes t ↔ (s, t) ∈ edges ∨ s ∈ h.directSubtypes t := by
  unfold extend
  induction edges generalizing h with
  | nil => simp
  | cons e edges ih =>
    rw [List.foldl_cons, ih]
    simp only [directSubtypes, addEdge, Relation.mem_related_relate, List.mem_cons, Prod.ext_iff]
    grind

end Hierarchy

/-! ### Indexes -/

namespace ClasspathIndex

variable {tree : FileTree} {entries : List ClasspathEntry}
  {containers : List (ClasspathEntry × List ClassFile)} {index : ClasspathIndex} {n s t : String}

/-- The containers that can be read, with their classes. -/
def loaded (tree : FileTree) (entries : List ClasspathEntry) :
    List (ClasspathEntry × List ClassFile) :=
  entries.filterMap fun e => (load tree e).toOption

/-- The index of containers that were read. -/
def ofContainers (containers : List (ClasspathEntry × List ClassFile)) : ClasspathIndex :=
  let classes := collect 0 ∅ (containers.map (·.2))
  { containers := containers.map (·.1)
    classes
    hierarchy := Hierarchy.extend {} (classes.toList.flatMap (·.2.stub.edges))
    unavailable := [] }

/-- Building is reading, and indexing what could be read. -/
theorem build_eq (tree : FileTree) (entries : List ClasspathEntry) :
    build tree entries =
      { ofContainers (loaded tree entries) with
        unavailable := entries.filter fun e => !(load tree e).isOk } := by
  have hloaded : (entries.map fun e => (e, load tree e)).filterMap (fun x => x.2.toOption) =
      loaded tree entries := by
    rw [List.filterMap_map]
    rfl
  have hunavailable : (entries.map fun e => (e, load tree e)).filterMap
      (fun x => if x.2.toBool then none else some x.1) =
        entries.filter fun e => !(load tree e).isOk := by
    rw [List.filterMap_map, ← List.filterMap_eq_filter]
    refine congrArg (List.filterMap · entries) (funext fun e => ?_)
    cases h : load tree e <;> simp [h, Except.toBool, Except.isOk, Option.guard]
  unfold build ofContainers
  dsimp only
  rw [hloaded, hunavailable]

/-- The first class of a name in a container, as the index keeps it. -/
def definition? (n : String) (container : List ClassFile × Nat) : Option IndexedClass :=
  (container.1.find? fun c => ClassName.toBinary c.name == n).map fun c =>
    ⟨ClassStub.ofClass c, container.2⟩

theorem containers_build : (build tree entries).containers = (loaded tree entries).map (·.1) := by
  rw [build_eq]
  rfl

theorem getElem?_foldl_addClass (i : Nat) (classes : Std.ExtTreeMap String IndexedClass)
    (cs : List ClassFile) :
    (cs.foldl (addClass i) classes)[n]? = (classes[n]?).or (definition? n (cs, i)) := by
  induction cs generalizing classes with
  | nil => simp [definition?]
  | cons c cs ih =>
    rw [List.foldl_cons, ih]
    have hname : (ClassStub.ofClass c).name = ClassName.toBinary c.name := rfl
    by_cases hin : ClassName.toBinary c.name ∈ classes
    · -- The name is taken, so that `c` counts neither in the map nor for the look-up.
      have hadd : addClass i classes c = classes := by simp [addClass, hname, hin]
      rw [hadd]
      by_cases hn : ClassName.toBinary c.name = n
      · subst hn
        obtain ⟨ic, hic⟩ := Option.isSome_iff_exists.1
          (Std.ExtTreeMap.mem_iff_isSome_getElem?.1 hin)
        simp [hic]
      · simp [definition?, hn]
    · -- The name is new, and `c` is its definition.
      have hadd : addClass i classes c =
          classes.insert (ClassName.toBinary c.name) ⟨ClassStub.ofClass c, i⟩ := by
        simp [addClass, hname, hin]
      rw [hadd, Std.ExtTreeMap.getElem?_insert]
      by_cases hn : ClassName.toBinary c.name = n
      · subst hn
        simp [definition?, Std.ExtTreeMap.getElem?_eq_none hin]
      · simp [definition?, hn]

theorem getElem?_collect (first : Nat) (classes : Std.ExtTreeMap String IndexedClass)
    (containers : List (List ClassFile)) :
    (collect first classes containers)[n]? =
      (classes[n]?).or ((containers.zipIdx first).findSome? (definition? n)) := by
  induction containers generalizing first classes with
  | nil => simp [collect]
  | cons cs containers ih =>
    rw [collect, ih, getElem?_foldl_addClass, List.zipIdx_cons, List.findSome?_cons,
      Option.or_assoc]
    cases definition? n (cs, first) <;> simp

/-- Of several definitions of a class, the first one counts. -/
theorem classes_ofContainers :
    (ofContainers containers).classes[n]? =
      ((containers.map (·.2)).zipIdx).findSome? (definition? n) := by
  show (collect 0 ∅ (containers.map (·.2)))[n]? = _
  rw [getElem?_collect]
  simp

theorem classes_build :
    (build tree entries).classes[n]? =
      (((loaded tree entries).map (·.2)).zipIdx).findSome? (definition? n) := by
  rw [build_eq]
  exact classes_ofContainers

theorem findSome?_definition? (i : Nat) (containers : List (List ClassFile)) :
    ((containers.zipIdx i).findSome? (definition? n)).map (·.stub) =
      (containers.flatten.find? fun c => ClassName.toBinary c.name == n).map ClassStub.ofClass := by
  induction containers generalizing i with
  | nil => rfl
  | cons cs containers ih =>
    rw [List.zipIdx_cons, List.findSome?_cons, List.flatten_cons, List.find?_append]
    cases hc : cs.find? fun c => ClassName.toBinary c.name == n with
    -- Not in the first container, so that a later one counts.
    | none => simpa [definition?, hc] using ih (i + 1)
    | some c => simp [definition?, hc]

/-- A class is indexed as the first one of its name in all containers. -/
theorem class?_ofContainers :
    (ofContainers containers).class? n =
      ((containers.flatMap (·.2)).find? fun c => ClassName.toBinary c.name == n).map
        ClassStub.ofClass := by
  rw [class?, classes_ofContainers, findSome?_definition?, List.flatMap_def]

theorem class?_build :
    (build tree entries).class? n =
      (((loaded tree entries).flatMap (·.2)).find? fun c => ClassName.toBinary c.name == n).map
        ClassStub.ofClass := by
  rw [build_eq]
  exact class?_ofContainers

/-- Where an indexed class comes from. -/
theorem exists_class_of_getElem? {ic : IndexedClass}
    (h : (build tree entries).classes[n]? = some ic) :
    ∃ e cs, (loaded tree entries)[ic.container]? = some (e, cs) ∧
      ∃ c ∈ cs, ic.stub = ClassStub.ofClass c ∧ ClassName.toBinary c.name = n := by
  rw [classes_build] at h
  obtain ⟨⟨cs, i⟩, hmem, hdef⟩ := List.exists_of_findSome?_eq_some h
  obtain ⟨c, hfind, rfl⟩ := Option.map_eq_some_iff.1 hdef
  obtain ⟨⟨e, cs'⟩, hi, rfl⟩ : ∃ p, (loaded tree entries)[i]? = some p ∧ p.2 = cs := by
    simpa [List.mem_zipIdx_iff_getElem?] using hmem
  exact ⟨e, cs', hi, c, List.mem_of_find?_eq_some hfind, rfl, by simpa using List.find?_some hfind⟩

/-- A class of the index extends or implements another one. -/
def Extends (index : ClasspathIndex) (s t : String) : Prop :=
  ∃ c, index.class? s = some c ∧ t ∈ c.superclass.toList ++ c.interfaces

/-- Classes are found by their names, and the inheritance graph is theirs. -/
structure Coherent (index : ClasspathIndex) : Prop where
  name_eq {n : String} {c : ClassStub} : index.class? n = some c → c.name = n
  hierarchy_eq :
    index.hierarchy = Hierarchy.extend {} (index.classes.toList.flatMap (·.2.stub.edges))

theorem coherent_ofContainers (containers : List (ClasspathEntry × List ClassFile)) :
    (ofContainers containers).Coherent where
  name_eq {n c} h := by
    rw [class?_ofContainers] at h
    obtain ⟨c', hfind, rfl⟩ := Option.map_eq_some_iff.1 h
    show ClassName.toBinary c'.name = n
    simpa using List.find?_some hfind
  hierarchy_eq := rfl

theorem coherent_build (tree : FileTree) (entries : List ClasspathEntry) :
    (build tree entries).Coherent := by
  rw [build_eq]
  exact ⟨(coherent_ofContainers _).name_eq, rfl⟩

theorem name_eq_of_class? {c : ClassStub} (h : (build tree entries).class? n = some c) :
    c.name = n :=
  (coherent_build tree entries).name_eq h

theorem hierarchy_build :
    (build tree entries).hierarchy =
      Hierarchy.extend {} ((build tree entries).classes.toList.flatMap (·.2.stub.edges)) :=
  rfl

namespace Coherent

variable (h : index.Coherent)
include h

theorem mem_edges_iff :
    (s, t) ∈ index.classes.toList.flatMap (·.2.stub.edges) ↔ index.Extends s t := by
  simp only [List.mem_flatMap, Prod.exists, Std.ExtTreeMap.mem_toList_iff_getElem?_eq_some,
    ClassStub.edges, List.mem_map, Prod.mk.injEq]
  constructor
  · rintro ⟨n, ic, hic, t, ht, rfl, rfl⟩
    have hc : index.class? n = some ic.stub := by simp [class?, hic]
    exact ⟨ic.stub, by rwa [h.name_eq hc], ht⟩
  · rintro ⟨c, hc, ht⟩
    obtain ⟨ic, hic, rfl⟩ := Option.map_eq_some_iff.1 hc
    exact ⟨s, ic, hic, t, ht, h.name_eq hc, rfl⟩

theorem mem_directSupertypes_iff : t ∈ index.hierarchy.directSupertypes s ↔ index.Extends s t := by
  rw [h.hierarchy_eq, Hierarchy.mem_directSupertypes_extend, h.mem_edges_iff]
  simp [Hierarchy.directSupertypes, Relation.related]

theorem mem_directSubtypes_iff : s ∈ index.hierarchy.directSubtypes t ↔ index.Extends s t := by
  rw [h.hierarchy_eq, Hierarchy.mem_directSubtypes_extend, h.mem_edges_iff]
  simp [Hierarchy.directSubtypes, Relation.related]

theorem mem_allSupertypes_iff :
    t ∈ index.hierarchy.allSupertypes s ↔ Relation.TransGen index.Extends s t := by
  have hrel : (fun s t => t ∈ index.hierarchy.supertypes.related s) = index.Extends :=
    funext fun _ => funext fun _ => propext h.mem_directSupertypes_iff
  rw [Hierarchy.allSupertypes, Relation.mem_reachable_iff, hrel]

theorem mem_allSubtypes_iff :
    s ∈ index.hierarchy.allSubtypes t ↔ Relation.TransGen index.Extends s t := by
  have hrel : (fun t s => s ∈ index.hierarchy.subtypes.related t) = Function.swap index.Extends :=
    funext fun _ => funext fun _ => propext h.mem_directSubtypes_iff
  rw [Hierarchy.allSubtypes, Relation.mem_reachable_iff, hrel, Relation.transGen_swap]

end Coherent

theorem mem_allSubtypes_iff :
    s ∈ (build tree entries).hierarchy.allSubtypes t ↔
      Relation.TransGen (build tree entries).Extends s t :=
  (coherent_build tree entries).mem_allSubtypes_iff

end ClasspathIndex

end JvmThrows
