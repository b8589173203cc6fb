import JvmThrows.Proofs.EdgeBatches
import JvmThrows.Proofs.LazyResolution
import Mathlib.Data.List.Dedup

/-!
# The first definition counts

An index answers from four tables that are filled one after the other: containers, classes, numbers
of containers, inheritance. `winner?` gives the same answers without any table: the first class of a
name in the first entry that can be read and holds one. The main statement,
`build_firstDefinitions`, says that all four tables fit together and are about the winners only, so
that entries that cannot be read, and entries that are listed again, do not count.
-/

namespace JvmThrows

namespace ClasspathIndex

open Analysis

section Defs

variable (tree : FileTree)

/-- The first class of a name that a container holds. -/
def held? (n : String) (container : ClasspathEntry × List ClassFile) :
    Option (ClasspathEntry × ClassFile) :=
  (container.2.find? fun c => ClassName.toBinary c.name == n).map (container.1, ·)

/-- The definition of a class that counts, and the container that it comes from. -/
def winner? (entries : List ClasspathEntry) (n : String) : Option (ClasspathEntry × ClassFile) :=
  entries.findSome? fun e =>
    match load tree e with
    | .ok container => held? n container
    | .error _ => none

/-- Two indexes give the same answers on classes, where they come from, and inheritance. -/
structure Agree (index index' : ClasspathIndex) : Prop where
  class?_eq : ∀ n, index.class? n = index'.class? n
  containerOf?_eq : ∀ n, index.containerOf? n = index'.containerOf? n
  hierarchy_eq : index.hierarchy = index'.hierarchy

end Defs

variable {tree : FileTree} {entries entries' : List ClasspathEntry}
  {containers : List (ClasspathEntry × List ClassFile)} {index index' : ClasspathIndex}
  {n s t : String}

/-! ### Look-ups -/

theorem winner?_eq_loaded (n : String) :
    winner? tree entries n = (loaded tree entries).findSome? (held? n) := by
  unfold winner? loaded
  induction entries with
  | nil => rfl
  | cons e entries ih =>
    rw [List.findSome?_cons, List.filterMap_cons, ih]
    cases load tree e with
    | error cause => rfl
    | ok container => rfl

theorem class?_eq_held? :
    (ofContainers containers).class? n =
      (containers.findSome? (held? n)).map fun w => ClassStub.ofClass w.2 := by
  rw [class?_ofContainers, List.find?_flatMap]
  induction containers with
  | nil => rfl
  | cons container containers ih =>
    rw [List.findSome?_cons, List.findSome?_cons, held?]
    cases container.2.find? fun c => ClassName.toBinary c.name == n with
    | none => exact ih
    | some c => rfl

/-- Numbers of containers are positions in the list of containers. -/
theorem findSome?_held? (before : List ClasspathEntry) :
    (((containers.map (·.2)).zipIdx before.length).findSome? (definition? n)).bind
        (fun ic => (before ++ containers.map (·.1))[ic.container]?) =
      (containers.findSome? (held? n)).map (·.1) := by
  induction containers generalizing before with
  | nil => rfl
  | cons container containers ih =>
    rw [List.map_cons, List.map_cons, List.zipIdx_cons, List.findSome?_cons, List.findSome?_cons,
      held?, definition?]
    cases container.2.find? fun c => ClassName.toBinary c.name == n with
    | none => simpa using ih (before ++ [container.1])
    | some c => simp

theorem containerOf?_eq_held? :
    (ofContainers containers).containerOf? n = (containers.findSome? (held? n)).map (·.1) := by
  rw [containerOf?, classes_ofContainers]
  exact findSome?_held? []

theorem class?_eq_winner? :
    (build tree entries).class? n =
      (winner? tree entries n).map fun w => ClassStub.ofClass w.2 := by
  rw [build_eq, winner?_eq_loaded]
  exact class?_eq_held?

theorem containerOf?_eq_winner? :
    (build tree entries).containerOf? n = (winner? tree entries n).map (·.1) := by
  rw [build_eq, winner?_eq_loaded]
  exact containerOf?_eq_held?

theorem extends_iff_winner? :
    (build tree entries).Extends s t ↔
      ∃ w, winner? tree entries s = some w ∧
        t ∈ (w.2.superclass.toList ++ w.2.interfaces).map ClassName.toBinary := by
  unfold Extends
  rw [class?_eq_winner?]
  cases winner? tree entries s with
  | none => simp
  | some w => cases hs : w.2.superclass <;> simp [ClassStub.ofClass, hs]

/-! ### Lists of classes -/

theorem sublist_classesIn (index : ClasspathIndex) (e : ClasspathEntry) :
    (index.classesIn e).Sublist index.classes.keys := by
  unfold classesIn
  rw [← Std.ExtTreeMap.map_fst_toList_eq_keys]
  split
  · exact List.nil_sublist _
  · exact List.filter_sublist.map _

/-- What is indexed comes from a container, which lists it. -/
theorem exists_containerOf? (h : n ∈ (build tree entries).classes) :
    ∃ e ∈ (build tree entries).containers, (build tree entries).containerOf? n = some e ∧
      n ∈ (build tree entries).classesIn e := by
  obtain ⟨ic, hic⟩ := Option.isSome_iff_exists.1 (Std.ExtTreeMap.mem_iff_isSome_getElem?.1 h)
  obtain ⟨e, cs, hi, -⟩ := exists_class_of_getElem? hic
  have he : (build tree entries).containerOf? n = some e := by
    simp [containerOf?, hic, containers_build, hi]
  have hmem := (containerOf?_found he).1
  exact ⟨e, hmem, he, (mem_classesIn_iff hmem).2 he⟩

/-- Every class is listed for one container. -/
theorem perm_classesIn (tree : FileTree) (entries : List ClasspathEntry) :
    ((build tree entries).containers.dedup.flatMap (build tree entries).classesIn).Perm
      (build tree entries).classes.keys := by
  have hkeys : (build tree entries).classes.keys.Nodup := Std.ExtTreeMap.nodup_keys
  have hdisjoint : (build tree entries).containers.dedup.Pairwise fun e e' =>
      ((build tree entries).classesIn e).Disjoint ((build tree entries).classesIn e') := by
    refine (List.nodup_dedup (build tree entries).containers).imp_of_mem ?_
    intro e e' he he' hne n hn hn'
    rw [mem_classesIn_iff (List.mem_dedup.1 he)] at hn
    rw [mem_classesIn_iff (List.mem_dedup.1 he')] at hn'
    exact hne (Option.some.inj (hn.symm.trans hn'))
  refine (List.perm_ext_iff_of_nodup ?_ hkeys).2 fun n => ?_
  · refine List.nodup_flatMap.2 ⟨fun e _ => ?_, hdisjoint⟩
    exact hkeys.sublist (sublist_classesIn _ e)
  · rw [List.mem_flatMap, Std.ExtTreeMap.mem_keys]
    constructor
    · rintro ⟨e, -, hn⟩
      exact Std.ExtTreeMap.mem_keys.1 ((sublist_classesIn _ e).subset hn)
    · intro hn
      obtain ⟨e, he, -, hmem⟩ := exists_containerOf? hn
      exact ⟨e, List.mem_dedup.2 he, hmem⟩

/-! ### Entries that do not count -/

/-- The same winners make the same index, up to entries that cannot be read. -/
theorem agree_of_winner? (h : ∀ n, winner? tree entries n = winner? tree entries' n) :
    (build tree entries).Agree (build tree entries') where
  class?_eq n := by rw [class?_eq_winner?, class?_eq_winner?, h]
  containerOf?_eq n := by rw [containerOf?_eq_winner?, containerOf?_eq_winner?, h]
  hierarchy_eq := by
    rw [hierarchy_build, hierarchy_build]
    refine Hierarchy.extend_congr fun edge => ?_
    rw [(coherent_build tree entries).mem_edges_iff, (coherent_build tree entries').mem_edges_iff,
      extends_iff_winner?, extends_iff_winner?, h]

theorem loaded_filter (tree : FileTree) (entries : List ClasspathEntry) :
    loaded tree (entries.filter fun e => (load tree e).isOk) = loaded tree entries := by
  rw [loaded, List.filterMap_filter, loaded]
  refine congrArg (List.filterMap · entries) (funext fun e => ?_)
  cases load tree e <;> rfl

/-- Only entries that can be read count. -/
theorem agree_of_readable (h : (entries.filter fun e => (load tree e).isOk) =
    entries'.filter fun e => (load tree e).isOk) :
    (build tree entries).Agree (build tree entries') := by
  refine agree_of_winner? fun n => ?_
  rw [winner?_eq_loaded, winner?_eq_loaded, ← loaded_filter, h, loaded_filter]

/-- A container that was listed before does not count. -/
theorem agree_of_repeated {front middle back : List ClasspathEntry} {e e' : ClasspathEntry}
    (h : load tree e' = load tree e) :
    (build tree (front ++ e :: middle ++ e' :: back)).Agree
      (build tree (front ++ e :: middle ++ back)) := by
  refine agree_of_winner? fun n => ?_
  simp only [winner?, List.findSome?_append, List.findSome?_cons, h]
  -- If the container holds the class, the search has ended when it comes to it again.
  cases load tree e with
  | error cause => rfl
  | ok container => cases hheld : held? n container <;> simp [hheld]

/-- **An index is the union of its containers, in which the first definition counts.** A class is
looked up as the winner, and comes from the container of the winner. The inheritance graph has the
edges of the winners and no others. Entries that cannot be read are listed as such, in order. Every
class is listed for the container that it comes from and for no other. So adding entries that cannot
be read, at any places, and listing a container again later change no answer. -/
theorem build_firstDefinitions (tree : FileTree) (entries : List ClasspathEntry) :
    let index := build tree entries
    (∀ n, index.class? n = (winner? tree entries n).map fun w => ClassStub.ofClass w.2) ∧
    (∀ n, index.containerOf? n = (winner? tree entries n).map (·.1)) ∧
    (∀ s t, (t ∈ index.hierarchy.directSupertypes s ↔
        ∃ w, winner? tree entries s = some w ∧
          t ∈ (w.2.superclass.toList ++ w.2.interfaces).map ClassName.toBinary) ∧
      (s ∈ index.hierarchy.directSubtypes t ↔ t ∈ index.hierarchy.directSupertypes s)) ∧
    index.unavailable = (entries.filter fun e => !(load tree e).isOk) ∧
    (∀ n ∈ index.classes, ∃ e ∈ index.containers,
      index.containerOf? n = some e ∧ n ∈ index.classesIn e) ∧
    (∀ e, (index.classesIn e).Sublist index.classes.keys) ∧
    (index.containers.dedup.flatMap index.classesIn).Perm index.classes.keys ∧
    (∀ entries', (entries'.filter fun e => (load tree e).isOk) =
        (entries.filter fun e => (load tree e).isOk) → (build tree entries').Agree index) ∧
    ∀ front middle back e e', entries = front ++ e :: middle ++ back →
      load tree e' = load tree e →
        (build tree (front ++ e :: middle ++ e' :: back)).Agree index := by
  intro index
  have hcoherent : index.Coherent := coherent_build tree entries
  refine ⟨fun n => class?_eq_winner?, fun n => containerOf?_eq_winner?, fun s t => ⟨?_, ?_⟩, ?_,
    fun n => exists_containerOf?, sublist_classesIn index, perm_classesIn tree entries,
    fun entries' => agree_of_readable, ?_⟩
  · exact hcoherent.mem_directSupertypes_iff.trans extends_iff_winner?
  · exact hcoherent.mem_directSubtypes_iff.trans hcoherent.mem_directSupertypes_iff.symm
  · exact congrArg unavailable (build_eq tree entries)
  · rintro front middle back e e' rfl hload
    exact agree_of_repeated hload

/-- An entry that leads nowhere. -/
def nowhere : ClasspathEntry := ⟨.jar, ⟨""⟩⟩

theorem isOk_load_nowhere (tree : FileTree) : (load tree nowhere).isOk = false := by
  have hfault : FileTree.pathFault? ⟨""⟩ = some .notFound := by decide
  simp [nowhere, load, ClasspathEntry.normalize, FileTree.canonical, FileTree.locate,
    FileTree.locateAny, hfault, ClasspathEntry.classes, ClasspathEntry.unsortedClasses,
    ClasspathEntry.archiveEntries, FileTree.find, Except.map, Except.bind, Except.isOk,
    Except.toBool]

/-- Two jars hold the same class. It comes from the first one, also if an entry that leads nowhere
is put in front, or the first one is listed again at the end. -/
theorem build_firstDefinitions_twoJars :
    let tree := twoJars "a/B" "a/B"
    let index := build tree twoEntries
    index.containerOf? "a.B" = some (jarAt "a.jar") ∧
      ((nowhere :: twoEntries).filter fun e => (load tree e).isOk) =
        (twoEntries.filter fun e => (load tree e).isOk) ∧
      (build tree (nowhere :: twoEntries)).Agree index ∧
      (build tree (twoEntries ++ [jarAt "a.jar"])).Agree index := by
  intro tree index
  have hjar : Archive.jarClasses (nativeJar "a/B") = .ok [nativeClass "a/B"] :=
    jarClasses_nativeJar (by decide)
  have hfilter : ((nowhere :: twoEntries).filter fun e => (load tree e).isOk) =
      (twoEntries.filter fun e => (load tree e).isOk) :=
    List.filter_cons_of_neg (by simp [isOk_load_nowhere])
  obtain ⟨-, -, -, -, -, -, -, hskip, hrepeat⟩ := build_firstDefinitions tree twoEntries
  refine ⟨?_, hfilter, hskip _ hfilter, hrepeat [] [jarAt "b.jar"] [] (jarAt "a.jar") _ rfl rfl⟩
  rw [containerOf?_twoJars hjar hjar, if_pos (by decide +kernel)]

end ClasspathIndex

end JvmThrows
