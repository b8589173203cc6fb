import JvmThrows.Proofs.Dispatch
import JvmThrows.Proofs.Lookups
import Mathlib.Data.List.Find

/-!
# Where declarations are found

The declaration that a method reference leads to is looked up twice: among the classes of a
container, for calls inside it (`declaringInside`), and in the index, for calls from anywhere
(`declaringOutside`), where it may take for ever if superclasses form a cycle. Both look through all
types above the class that the reference names, and both take the nearest class on its chain of
superclasses first (`Inherits`). Among interfaces they count differently. Inside a container a step
to a superclass is free, in the index every step counts; and what is equally near is taken in the
order of declaration in the one and by name in the other.

The main statement, `declaring_agree`, says what this leaves: the two find a declaration for the
same references, the same one if a superclass has one, and otherwise one that is nearest as each of
them counts (`IsNearest`), hence the same one if only one type is nearest either way.
`declaring_differ` has classes where they differ.
-/

namespace JvmThrows

namespace ClasspathIndex

section Defs

variable (index : ClasspathIndex)

def HasInterface (n i : String) : Prop := ∃ c, index.class? n = some c ∧ i ∈ c.interfaces

/-- A type lies `k` above a class, where a step to a superclass counts `w` and a step to an
interface counts one. -/
inductive Above (w : Nat) (n : String) : Nat → String → Prop
  | refl : Above w n 0 n
  | superclass {k : Nat} {s t : String} (h : Above w n k s) (ht : index.HasSuperclass s t) :
    Above w n (k + w) t
  | interface {k : Nat} {s t : String} (h : Above w n k s) (ht : index.HasInterface s t) :
    Above w n (k + 1) t

/-- The nearest class from a class upwards that declares the method. -/
def Inherits (m : MethodId) : String → String → Prop :=
  NearestUp index.HasSuperclass (index.Declares m)

/-- Of the types above the owner that declare the method, none is nearer. -/
structure IsNearest (w : Nat) (m : MethodId) (d : String) : Prop where
  declares : index.Declares m d
  above : ∃ k, index.Above w m.owner k d
  le : ∀ e k, index.Declares m e → index.Above w m.owner k e →
    ∃ j ≤ k, index.Above w m.owner j d

/-- The class whose declaration a reference from anywhere leads to. -/
def declaringOutside (m : MethodId) : Eventually (Option String) :=
  match index.class? m.owner with
  | none => some none
  | some owner => do
    let found ← index.declaration? owner m
    return found.map (·.1.name)

end Defs

variable {index : ClasspathIndex} {m : MethodId} {n s t d : String} {k w : Nat}

/-! ### Above a class -/

theorem extends_iff : index.Extends s t ↔ index.HasSuperclass s t ∨ index.HasInterface s t := by
  unfold Extends HasSuperclass HasInterface
  simp only [List.mem_append, Option.mem_toList, ← exists_or, ← and_or_left]

/-- What lies above a class is what its definition leads to, however steps are counted. -/
theorem exists_above_iff :
    (∃ k, index.Above w n k d) ↔ Relation.ReflTransGen index.Extends n d := by
  constructor
  · rintro ⟨k, h⟩
    induction h with
    | refl => exact .refl
    | superclass _ ht ih => exact ih.tail (extends_iff.2 (.inl ht))
    | interface _ ht ih => exact ih.tail (extends_iff.2 (.inr ht))
  · intro h
    induction h with
    | refl => exact ⟨0, .refl⟩
    | tail _ ht ih =>
      obtain ⟨k, hk⟩ := ih
      -- A superclass counts as `w` steps, an interface as one.
      rcases extends_iff.1 ht with ht | ht
      · exact ⟨k + w, hk.superclass ht⟩
      · exact ⟨k + 1, hk.interface ht⟩

theorem Above.extend (h : index.Above 1 n k s) (ht : index.Extends s t) :
    index.Above 1 n (k + 1) t := by
  rcases extends_iff.1 ht with ht | ht
  · exact h.superclass ht
  · exact h.interface ht

/-! ### The look-up in the index -/

theorem declaringOutside_eq_some_iff {owner : ClassStub}
    (howner : index.class? m.owner = some owner) {outside : Option String} :
    index.declaringOutside m = some outside ↔
      ∃ found, index.declaration? owner m = some found ∧ found.map (·.1.name) = outside := by
  simp [declaringOutside, howner, Option.bind_eq_some_iff]

namespace Coherent

variable (h : index.Coherent)
include h

theorem exists_declaredIn? (hd : index.Declares m d) :
    ∃ x, index.declaredIn? m d = some x ∧ x.1.name = d := by
  obtain ⟨c, decl, hc, hdecl⟩ := hd
  exact ⟨(c, decl), by simp [declaredIn?, hc, hdecl], h.name_eq hc⟩

/-- Going up ends at the nearest class that declares the method. -/
theorem exists_climbs (hd : index.Inherits m n d) :
    ∃ x, index.Climbs (index.askDeclaration m) n (some x) ∧ x.1.name = d := by
  induction hd with
  | here hn =>
    obtain ⟨x, hx, hname⟩ := h.exists_declaredIn? hn
    exact ⟨x, .answered (askDeclaration_eq_answer_iff.2 ⟨x, hx, rfl⟩), hname⟩
  | next hn hs _ ih =>
    obtain ⟨x, hx, hname⟩ := ih
    exact ⟨x, .up (askDeclaration_eq_passOn_iff.2 hn) (superclass?_eq_some_iff.2 hs) hx, hname⟩

theorem declaringOutside_of_inherits {owner : ClassStub}
    (howner : index.class? m.owner = some owner) (hd : index.Inherits m m.owner d) :
    index.declaringOutside m = some (some d) := by
  obtain ⟨x, hx, rfl⟩ := h.exists_climbs hd
  rw [← h.name_eq howner] at hx
  exact (declaringOutside_eq_some_iff howner).2
    ⟨some x, declaration?_eq_some_iff.2 (.inl ⟨x, hx, rfl⟩), rfl⟩

theorem above_of_layer
    (ht : index.hierarchy.supertypes.graph.Layer (index.hierarchy.supertypes.related n) k t) :
    index.Above 1 n (k + 1) t := by
  induction ht with
  -- The first layer is one step above the class.
  | start ht => exact Above.refl.extend (h.mem_directSupertypes_iff.1 ht)
  | first _ ht => exact absurd ht List.not_mem_nil
  | later _ ht ih => exact ih.extend (h.mem_directSupertypes_iff.1 ht)

/-- The layers of the supertypes are the heights above the class, from one on. -/
theorem eq_or_layer_of_above (ht : index.Above 1 n k t) :
    (k = 0 ∧ t = n) ∨ ∃ j, k = j + 1 ∧
      index.hierarchy.supertypes.graph.Layer (index.hierarchy.supertypes.related n) j t := by
  have hstep {k : Nat} {s t : String} (ht : index.Extends s t)
      (hs : (k = 0 ∧ s = n) ∨ ∃ j, k = j + 1 ∧
        index.hierarchy.supertypes.graph.Layer (index.hierarchy.supertypes.related n) j s) :
      index.hierarchy.supertypes.graph.Layer (index.hierarchy.supertypes.related n) k t := by
    have hmem : t ∈ index.hierarchy.supertypes.related s := h.mem_directSupertypes_iff.2 ht
    rcases hs with ⟨rfl, rfl⟩ | ⟨j, rfl, hs⟩
    · exact .start hmem
    · exact hs.later hmem
  induction ht with
  | refl => exact .inl ⟨rfl, rfl⟩
  | @superclass k _ _ _ ht ih => exact .inr ⟨k, rfl, hstep (extends_iff.2 (.inl ht)) ih⟩
  | @interface k _ _ _ ht ih => exact .inr ⟨k, rfl, hstep (extends_iff.2 (.inr ht)) ih⟩

/-- Where no superclass declares the method, a nearest supertype is found. -/
theorem isNearest_of_declaringOutside {owner : ClassStub}
    (howner : index.class? m.owner = some owner) (hnone : ∀ e, ¬ index.Inherits m m.owner e)
    (hd : index.declaringOutside m = some (some d)) : index.IsNearest 1 m d := by
  obtain ⟨found, hfound, hname⟩ := (declaringOutside_eq_some_iff howner).1 hd
  obtain ⟨x, rfl, rfl⟩ := Option.map_eq_some_iff.1 hname
  rcases declaration?_eq_some_iff.1 hfound with ⟨y, hup, -⟩ | ⟨-, hx⟩
  · -- What is found by going up would be inherited.
    obtain ⟨s, hs, hin⟩ := hup.exists_declaredIn?
    obtain ⟨hc, hm⟩ := declaredIn?_eq_some hin
    rw [h.name_eq howner] at hs
    obtain ⟨e, he⟩ := exists_nearestUp (p := index.Declares m) hs ⟨_, _, hc, hm⟩
    exact absurd he (hnone e)
  · rw [h.name_eq howner] at hx
    obtain ⟨t, ht, hreach, hle⟩ := Graph.exists_noLater_of_findSome? hx
    obtain ⟨hc, hm⟩ := declaredIn?_eq_some ht
    obtain rfl : x.1.name = t := h.name_eq hc
    obtain ⟨k, hk⟩ := Graph.exists_layer_iff.2 hreach
    refine ⟨⟨x.1, x.2, hc, hm⟩, ⟨k + 1, h.above_of_layer hk⟩, fun e j he hj => ?_⟩
    rcases h.eq_or_layer_of_above hj with ⟨rfl, rfl⟩ | ⟨j, rfl, hlayer⟩
    · -- Only the owner is at no height, and it does not declare the method.
      exact absurd (.here he) (hnone m.owner)
    · -- Everything else is found by going through layers, lower ones first.
      obtain ⟨y, hy, -⟩ := h.exists_declaredIn? he
      obtain ⟨i, hi, hlayer⟩ := hle e (by simp [hy]) j hlayer
      exact ⟨i + 1, by omega, h.above_of_layer hlayer⟩

/-- The nearest superclass is found, if there is one, and otherwise a nearest supertype. -/
theorem inherits_or_isNearest {owner : ClassStub} (howner : index.class? m.owner = some owner)
    (hd : index.declaringOutside m = some (some d)) :
    index.Inherits m m.owner d ∨ index.IsNearest 1 m d := by
  by_cases hex : ∃ e, index.Inherits m m.owner e
  · -- Going up comes first, and finds what is inherited.
    obtain ⟨e, he⟩ := hex
    obtain rfl : d = e := by
      simpa using hd.symm.trans (h.declaringOutside_of_inherits howner he)
    exact .inl he
  · exact .inr (h.isNearest_of_declaringOutside howner (fun e he => hex ⟨e, he⟩) hd)

theorem declaringOutside_eq_none_iff {owner : ClassStub} {outside : Option String}
    (howner : index.class? m.owner = some owner)
    (houtside : index.declaringOutside m = some outside) :
    outside = none ↔
      ∀ d, Relation.ReflTransGen index.Extends m.owner d → ¬ index.Declares m d := by
  obtain ⟨found, hfound, rfl⟩ := (declaringOutside_eq_some_iff howner).1 houtside
  rw [Option.map_eq_none_iff, h.declaration?_eq_none_iff howner hfound]

end Coherent

theorem exists_of_class?_singleton {entry : ClasspathEntry} {classes : List ClassFile}
    {stub : ClassStub} (h : (ofContainers [(entry, classes)]).class? n = some stub) :
    ∃ c ∈ classes, ClassName.toBinary c.name = n ∧ ClassStub.ofClass c = stub := by
  rw [class?_ofContainers, List.flatMap_singleton] at h
  obtain ⟨c, hfind, rfl⟩ := Option.map_eq_some_iff.1 h
  exact ⟨c, List.mem_of_find?_eq_some hfind, by simpa using List.find?_some hfind, rfl⟩

theorem build_singleton {tree : FileTree} {e entry : ClasspathEntry} {classes : List ClassFile}
    (h : load tree e = .ok (entry, classes)) :
    build tree [e] = ofContainers [(entry, classes)] := by
  rw [build_eq]
  simp [loaded, h, Except.toOption, Except.isOk, Except.toBool, ofContainers]

end ClasspathIndex

/-! ### The look-up in a container -/

section Inside

/-- The names that stand in class files for classes, their superclasses and interfaces. -/
def mentioned (classes : List ClassFile) : List String :=
  classes.flatMap fun c => c.name :: (c.superclass.toList ++ c.interfaces)

/-- Classes have names of their own, and names that stand for the same class are spelled alike. -/
structure WellNamed (classes : List ClassFile) : Prop where
  nodup : (classes.map (·.name)).Nodup
  eq_of_toBinary_eq : ∀ n ∈ mentioned classes, ∀ c ∈ classes,
    ClassName.toBinary c.name = ClassName.toBinary n → c.name = n

/-- The method that a reference names, with binary names. -/
def MemberRef.toMethod (target : MemberRef) : MethodId :=
  MethodId.toBinary ⟨target.owner, target.name, target.descriptor⟩

/-- The class whose declaration a reference inside a container leads to. -/
def declaringInside (classes : List ClassFile) (target : MemberRef) : Option String :=
  ((Container.ofList classes).resolve? target).map (·.toBinary.owner)

variable {classes : List ClassFile} {n x y : String} {k : Nat} {c : ClassFile}

/-- Where names are distinct, the last class of a name is the first. -/
theorem Container.getElem?_ofList_of_nodup (hnames : (classes.map (·.name)).Nodup) :
    (ofList classes)[n]? = classes.find? (·.name == n) := by
  cases hfind : classes.find? (·.name == n) with
  | none =>
    rw [getElem?_ofList, List.find?_eq_none]
    exact fun c hc => List.find?_eq_none.1 hfind c (List.mem_reverse.1 hc)
  | some c =>
    have hc : c.name = n := by simpa using List.find?_some hfind
    have hsome : ((ofList classes)[n]?).isSome = true := by
      rw [getElem?_ofList, List.find?_isSome]
      exact ⟨c, List.mem_reverse.2 (List.mem_of_find?_eq_some hfind), by simp [hc]⟩
    obtain ⟨d, hd⟩ := Option.isSome_iff_exists.1 hsome
    obtain ⟨hmem, hname⟩ := of_getElem?_ofList hd
    rw [hd, List.inj_on_of_nodup_map hnames hmem (List.mem_of_find?_eq_some hfind)
      (hname.trans hc.symm)]

theorem mentioned_of_mem_first (hy : y ∈ (Container.ofList classes).lookupGraph.first x) :
    y ∈ mentioned classes := by
  obtain ⟨c, hc, hy⟩ := Option.bind_eq_some_iff.1 (Option.mem_toList.1 hy)
  exact List.mem_flatMap.2 ⟨c, (Container.of_getElem?_ofList hc).1, by simp [hy]⟩

theorem mentioned_of_mem_later (hy : y ∈ (Container.ofList classes).lookupGraph.later x) :
    y ∈ mentioned classes := by
  cases hc : (Container.ofList classes)[x]? with
  | none => simp [Container.lookupGraph, hc] at hy
  | some c =>
    have hy : y ∈ c.interfaces := by simpa [Container.lookupGraph, hc] using hy
    exact List.mem_flatMap.2 ⟨c, (Container.of_getElem?_ofList hc).1, by simp [hy]⟩

theorem mentioned_of_layer (hn : n ∈ mentioned classes)
    (h : (Container.ofList classes).lookupGraph.Layer [n] k x) : x ∈ mentioned classes := by
  cases h with
  -- A class that nothing mentions is not reached.
  | start h => exact List.mem_singleton.1 h ▸ hn
  | first _ hy => exact mentioned_of_mem_first hy
  | later _ hy => exact mentioned_of_mem_later hy

namespace WellNamed

open ClasspathIndex

variable {entry : ClasspathEntry} {target : MemberRef} {s d : String} (h : WellNamed classes)
include h

/-- A name that stands in a class file leads to the same class in the container and its index. -/
theorem class?_toBinary (hx : x ∈ mentioned classes) :
    (ofContainers [(entry, classes)]).class? (ClassName.toBinary x) =
      ((Container.ofList classes)[x]?).map ClassStub.ofClass := by
  rw [class?_ofContainers, Container.getElem?_ofList_of_nodup h.nodup, List.flatMap_singleton]
  congr 1
  refine List.find?_congr fun c hc => ?_
  rw [Bool.eq_iff_iff, beq_iff_eq, beq_iff_eq]
  exact ⟨h.eq_of_toBinary_eq x hx c hc, congrArg ClassName.toBinary⟩

theorem class?_toBinary_name (hc : c ∈ classes) :
    ∃ stub, (ofContainers [(entry, classes)]).class? (ClassName.toBinary c.name) = some stub := by
  have hfound : ((Container.ofList classes)[c.name]?).isSome = true := by
    rw [Container.getElem?_ofList, List.find?_isSome]
    exact ⟨c, List.mem_reverse.2 hc, beq_self_eq_true _⟩
  obtain ⟨d, hd⟩ := Option.isSome_iff_exists.1 hfound
  refine ⟨ClassStub.ofClass d, ?_⟩
  rw [h.class?_toBinary (List.mem_flatMap.2 ⟨c, hc, List.mem_cons_self⟩), hd, Option.map_some]

theorem hasSuperclass_iff (hx : x ∈ mentioned classes) :
    (ofContainers [(entry, classes)]).HasSuperclass (ClassName.toBinary x) s ↔
      ∃ y ∈ (Container.ofList classes).lookupGraph.first x, ClassName.toBinary y = s := by
  unfold HasSuperclass
  rw [h.class?_toBinary hx]
  cases hc : (Container.ofList classes)[x]? <;>
    simp [Container.lookupGraph, hc, ClassStub.ofClass]

theorem hasInterface_iff (hx : x ∈ mentioned classes) :
    (ofContainers [(entry, classes)]).HasInterface (ClassName.toBinary x) s ↔
      ∃ y ∈ (Container.ofList classes).lookupGraph.later x, ClassName.toBinary y = s := by
  unfold HasInterface
  rw [h.class?_toBinary hx]
  cases hc : (Container.ofList classes)[x]? <;>
    simp [Container.lookupGraph, hc, ClassStub.ofClass]

theorem declares_iff (hx : x ∈ mentioned classes) :
    (ofContainers [(entry, classes)]).Declares target.toMethod (ClassName.toBinary x) ↔
      (Container.ofList classes).Declares target.name target.descriptor x := by
  rw [← Container.isSome_declared?_ofList_iff, Container.declared?]
  unfold Declares
  rw [h.class?_toBinary hx]
  cases hc : (Container.ofList classes)[x]? with
  | none => simp
  | some c =>
    have hmethod : (ClassStub.ofClass c).method? target.name target.descriptor =
        (c.method? target.name target.descriptor).map fun m =>
          ⟨m.name, m.descriptor, m.access⟩ := by
      simp [ClassStub.ofClass, ClassStub.method?, ClassFile.method?]
    cases hm : c.method? target.name target.descriptor <;>
      simp [MemberRef.toMethod, MethodId.toBinary, hmethod, hm]

/-- What lies above a class in the container lies above it in the index, and as high. -/
theorem above_of_layer (hn : n ∈ mentioned classes)
    (hx : (Container.ofList classes).lookupGraph.Layer [n] k x) :
    (ofContainers [(entry, classes)]).Above 0 (ClassName.toBinary n) k
      (ClassName.toBinary x) := by
  induction hx with
  | start hx =>
    obtain rfl := List.mem_singleton.1 hx
    exact .refl
  | first hx hy ih =>
    -- Superclasses are in the same layer as the class.
    exact ih.superclass ((h.hasSuperclass_iff (mentioned_of_layer hn hx)).2 ⟨_, hy, rfl⟩)
  | later hx hy ih =>
    exact ih.interface ((h.hasInterface_iff (mentioned_of_layer hn hx)).2 ⟨_, hy, rfl⟩)

theorem exists_layer_of_above (hn : n ∈ mentioned classes)
    (hs : (ofContainers [(entry, classes)]).Above 0 (ClassName.toBinary n) k s) :
    ∃ x, (Container.ofList classes).lookupGraph.Layer [n] k x ∧ ClassName.toBinary x = s := by
  induction hs with
  | refl => exact ⟨n, .start List.mem_cons_self, rfl⟩
  | superclass _ ht ih =>
    -- Names that are mentioned are told apart by their dotted forms.
    obtain ⟨x, hx, rfl⟩ := ih
    obtain ⟨y, hy, rfl⟩ := (h.hasSuperclass_iff (mentioned_of_layer hn hx)).1 ht
    exact ⟨y, hx.first hy, rfl⟩
  | interface _ ht ih =>
    obtain ⟨x, hx, rfl⟩ := ih
    obtain ⟨y, hy, rfl⟩ := (h.hasInterface_iff (mentioned_of_layer hn hx)).1 ht
    exact ⟨y, hx.later hy, rfl⟩

/-- What is inherited according to the index is inherited in the container. -/
theorem exists_inherits (hx : x ∈ mentioned classes)
    (hd : (ofContainers [(entry, classes)]).Inherits target.toMethod (ClassName.toBinary x) d) :
    ∃ y, (Container.ofList classes).Inherits target.name target.descriptor x y ∧
      ClassName.toBinary y = d := by
  generalize hn : ClassName.toBinary x = n at hd
  induction hd generalizing x with
  | here hd =>
    subst hn
    exact ⟨x, .here ((h.declares_iff hx).1 hd), rfl⟩
  | next hd hs _ ih =>
    subst hn
    obtain ⟨y, hy, hys⟩ := (h.hasSuperclass_iff hx).1 hs
    obtain ⟨z, hz, hzd⟩ := ih (mentioned_of_mem_first hy) hys
    refine ⟨z, .next (fun hdecl => hd ((h.declares_iff hx).2 hdecl)) ?_ hz, hzd⟩
    obtain ⟨c, hc, hy⟩ := Option.bind_eq_some_iff.1 (Option.mem_toList.1 hy)
    exact ⟨c, hc, hy⟩

theorem declaringInside_of_inherits (howner : target.owner ∈ mentioned classes)
    (hd : (ofContainers [(entry, classes)]).Inherits target.toMethod target.toMethod.owner d) :
    declaringInside classes target = some d := by
  obtain ⟨y, hy, rfl⟩ := h.exists_inherits howner hd
  rw [declaringInside, hy.resolve?_eq]
  rfl

theorem isNearest_of_declaringInside (howner : target.owner ∈ mentioned classes)
    (hd : declaringInside classes target = some d) :
    (ofContainers [(entry, classes)]).IsNearest 0 target.toMethod d := by
  obtain ⟨id, hid, rfl⟩ := Option.map_eq_some_iff.1 hd
  obtain ⟨x, hx, hreach, hle⟩ := Graph.exists_noLater_of_findSome? hid
  obtain ⟨k, hk⟩ := Graph.exists_layer_iff.2 hreach
  obtain ⟨hdecl, rfl⟩ := Container.declared?_ofList_eq_some_iff.1 hx
  refine ⟨(h.declares_iff (mentioned_of_layer howner hk)).2 hdecl,
    ⟨k, h.above_of_layer howner hk⟩, fun e j he hj => ?_⟩
  obtain ⟨y, hy, rfl⟩ := h.exists_layer_of_above howner hj
  have hdecl' := (h.declares_iff (mentioned_of_layer howner hy)).1 he
  obtain ⟨i, hi, hlayer⟩ := hle y (Container.isSome_declared?_ofList_iff.2 hdecl') j hy
  exact ⟨i, hi, h.above_of_layer howner hlayer⟩

theorem declaringInside_eq_none_iff (howner : target.owner ∈ mentioned classes) :
    declaringInside classes target = none ↔
      ∀ d, Relation.ReflTransGen (ofContainers [(entry, classes)]).Extends target.toMethod.owner d →
        ¬ (ofContainers [(entry, classes)]).Declares target.toMethod d := by
  rw [declaringInside, Option.map_eq_none_iff, Container.resolve?, List.findSome?_eq_none_iff]
  constructor
  · intro hnone d hd hdecl
    obtain ⟨k, hk⟩ := exists_above_iff.2 hd
    obtain ⟨x, hx, rfl⟩ := h.exists_layer_of_above howner hk
    have hsome := Container.isSome_declared?_ofList_iff.2
      ((h.declares_iff (mentioned_of_layer howner hx)).1 hdecl)
    rw [hnone x (Graph.mem_visit_iff.2 (Graph.exists_layer_iff.1 ⟨k, hx⟩))] at hsome
    cases hsome
  · intro hnone x hx
    obtain ⟨k, hk⟩ := Graph.exists_layer_iff.2 (Graph.mem_visit_iff.1 hx)
    refine Container.declared?_ofList_eq_none fun hdecl => ?_
    exact hnone _ (exists_above_iff.1 ⟨k, h.above_of_layer howner hk⟩)
      ((h.declares_iff (mentioned_of_layer howner hk)).2 hdecl)

end WellNamed

end Inside

/-! ### Both look-ups -/

open ClasspathIndex

/-- For the classes of one container, none of which is a superclass of itself, looked up in the
container and in an index of it alone: both searches end; a reference leads nowhere in both if no
type above the named class declares the method; both lead to the nearest superclass that declares
it; if there is none, they lead to a type that is nearest, where steps to superclasses are free in
the container and count in the index. So they agree unless several types are nearest. -/
theorem declaring_agree (entry : ClasspathEntry) {classes : List ClassFile}
    (h : WellNamed classes) (hacyclic : (ofContainers [(entry, classes)]).Acyclic)
    (target : MemberRef) (howner : ∃ c ∈ classes, c.name = target.owner) :
    let index := ofContainers [(entry, classes)]
    let m := target.toMethod
    let inside := declaringInside classes target
    (∀ tree e, load tree e = .ok (entry, classes) → build tree [e] = index) ∧
    ∃ outside, index.declaringOutside m = some outside ∧
      (inside = none ↔
        ∀ d, Relation.ReflTransGen index.Extends m.owner d → ¬ index.Declares m d) ∧
      (outside = none ↔ inside = none) ∧
      (∀ d, index.Inherits m m.owner d → inside = some d ∧ outside = some d) ∧
      (∀ d, inside = some d → index.IsNearest 0 m d) ∧
      (∀ d, outside = some d → index.Inherits m m.owner d ∨ index.IsNearest 1 m d) ∧
      ((∀ d e, index.IsNearest 0 m d ∨ index.IsNearest 1 m d →
          index.IsNearest 0 m e ∨ index.IsNearest 1 m e → d = e) → inside = outside) := by
  intro index m inside
  obtain ⟨c, hc, hname⟩ := howner
  have hmentioned : target.owner ∈ mentioned classes :=
    List.mem_flatMap.2 ⟨c, hc, by simp [hname]⟩
  have hcoherent : index.Coherent := coherent_ofContainers _
  obtain ⟨stub, hstub⟩ : ∃ stub, index.class? m.owner = some stub := by
    have hfound : ∃ stub, index.class? (ClassName.toBinary c.name) = some stub :=
      h.class?_toBinary_name hc
    rwa [hname] at hfound
  obtain ⟨found, hfound⟩ := hacyclic.exists_declaration? stub m
  have houtside : index.declaringOutside m = some (found.map (·.1.name)) :=
    (declaringOutside_eq_some_iff hstub).2 ⟨found, hfound, rfl⟩
  refine ⟨fun tree e hload => build_singleton hload, found.map (·.1.name), houtside, ?_⟩
  generalize found.map (·.1.name) = outside at houtside
  have hnone : inside = none ↔
      ∀ d, Relation.ReflTransGen index.Extends m.owner d → ¬ index.Declares m d :=
    h.declaringInside_eq_none_iff hmentioned
  have hboth : outside = none ↔ inside = none :=
    (hcoherent.declaringOutside_eq_none_iff hstub houtside).trans hnone.symm
  have hinherits (d : String) (hd : index.Inherits m m.owner d) :
      inside = some d ∧ outside = some d := by
    refine ⟨h.declaringInside_of_inherits hmentioned hd, ?_⟩
    exact Option.some.inj (houtside.symm.trans (hcoherent.declaringOutside_of_inherits hstub hd))
  have hinside (d : String) (hd : inside = some d) : index.IsNearest 0 m d :=
    h.isNearest_of_declaringInside hmentioned hd
  have houter (d : String) (hd : outside = some d) :
      index.Inherits m m.owner d ∨ index.IsNearest 1 m d :=
    hcoherent.inherits_or_isNearest hstub (houtside.trans (congrArg some hd))
  refine ⟨hnone, hboth, hinherits, hinside, houter, fun hunique => ?_⟩
  cases hd : outside with
  | none => exact hboth.1 hd
  | some d =>
    obtain ⟨e, he⟩ := Option.ne_none_iff_exists'.1 fun hnone =>
      Option.some_ne_none d (hd.symm.trans (hboth.2 hnone))
    rcases houter d hd with hinh | hnear
    · -- Both find what is inherited.
      exact (hinherits d hinh).1
    · -- Otherwise both are nearest, and only one declaration is.
      rw [he, hunique e d (.inl (hinside e he)) (.inr hnear)]

/-! ### Three hierarchies -/

/-- A class file with abstract methods only. -/
def outline (name : String) (superclass : Option String) (interfaces methods : List String) :
    ClassFile where
  minorVersion := 0
  majorVersion := 52
  access := ⟨0x0601⟩
  name := name
  superclass := superclass
  interfaces := interfaces
  methods := methods.map fun name => ⟨⟨0x0401⟩, name, "()V", [], none⟩

def outlineIndex (classes : List ClassFile) : ClasspathIndex :=
  ofContainers [(⟨.jar, FileTree.pathOf ["q.jar"]⟩, classes)]

/-- There is no cycle if superclasses are lower, for some measure of height. -/
theorem acyclic_outlineIndex {classes : List ClassFile} (height : String → Nat)
    (hlower : (classes.map ClassStub.ofClass).all (fun c =>
      c.superclass.all fun s => height s < height c.name) = true) :
    (outlineIndex classes).Acyclic := by
  refine acyclic_of_stubs (fun n => ?_) height hlower
  rw [outlineIndex, class?_ofContainers, List.flatMap_singleton, List.find?_map]
  rfl

/-- The method comes from an interface that is implemented twice. -/
def repeatedInterface : List ClassFile :=
  [outline "q/X" (some "q/P") ["q/Z"] [], outline "q/P" none ["q/A"] [],
    outline "q/A" none ["q/Z"] [], outline "q/Z" none [] ["f"]]

theorem eq_of_declares_repeatedInterface {n : String}
    (h : (outlineIndex repeatedInterface).Declares ⟨"q.X", "f", "()V"⟩ n) : n = "q.Z" := by
  obtain ⟨stub, d, hstub, hd⟩ := h
  obtain ⟨c, hc, rfl, rfl⟩ := exists_of_class?_singleton hstub
  simp only [repeatedInterface, List.mem_cons, List.not_mem_nil, or_false] at hc
  rcases hc with rfl | rfl | rfl | rfl
  · -- The other classes declare nothing.
    cases hd
  · cases hd
  · cases hd
  · decide +kernel

theorem declaring_agree_repeatedInterface :
    WellNamed repeatedInterface ∧ (outlineIndex repeatedInterface).Acyclic ∧
      declaringInside repeatedInterface ⟨"q/X", "f", "()V", false⟩ = some "q.Z" ∧
      (outlineIndex repeatedInterface).declaringOutside ⟨"q.X", "f", "()V"⟩ =
        some (some "q.Z") := by
  have hnamed : WellNamed repeatedInterface := ⟨by decide, by decide +kernel⟩
  have hacyclic : (outlineIndex repeatedInterface).Acyclic :=
    acyclic_outlineIndex (fun n => if n = "q.X" then 1 else 0) (by decide +kernel)
  have hmethod : MemberRef.toMethod ⟨"q/X", "f", "()V", false⟩ = ⟨"q.X", "f", "()V"⟩ := by
    decide +kernel
  have hinside : declaringInside repeatedInterface ⟨"q/X", "f", "()V", false⟩ = some "q.Z" := by
    cbv
  obtain ⟨-, outside, houtside, -, -, -, -, -, hagree⟩ :=
    declaring_agree ⟨.jar, FileTree.pathOf ["q.jar"]⟩ hnamed hacyclic
      ⟨"q/X", "f", "()V", false⟩ ⟨_, List.mem_cons_self, rfl⟩
  rw [hmethod] at houtside
  rw [hmethod, hinside] at hagree
  refine ⟨hnamed, hacyclic, hinside, houtside.trans (congrArg some ?_)⟩
  refine (hagree fun d e hd he => ?_).symm
  have hz {n : String} : (outlineIndex repeatedInterface).IsNearest 0 ⟨"q.X", "f", "()V"⟩ n ∨
      (outlineIndex repeatedInterface).IsNearest 1 ⟨"q.X", "f", "()V"⟩ n → n = "q.Z" := by
    rintro (hn | hn)
    · exact eq_of_declares_repeatedInterface hn.declares
    · exact eq_of_declares_repeatedInterface hn.declares
  exact (hz hd).trans (hz he).symm

/-- Two interfaces declare the method, and the later one by name is implemented first. -/
def twoInterfaces : List ClassFile :=
  [outline "q/X" none ["q/Z", "q/A"] [], outline "q/A" none [] ["f"], outline "q/Z" none [] ["f"]]

/-- The superclass is named with a dot. -/
def dottedSuperclass : List ClassFile :=
  [outline "q/D" (some "q.B") [] [], outline "q/B" none [] ["f"]]

/-- With distinct names and no cycles, the look-ups differ where two interfaces are equally near,
and where a class goes by two spellings. -/
theorem declaring_differ :
    WellNamed twoInterfaces ∧ (outlineIndex twoInterfaces).Acyclic ∧
    declaringInside twoInterfaces ⟨"q/X", "f", "()V", false⟩ = some "q.Z" ∧
    (outlineIndex twoInterfaces).declaringOutside ⟨"q.X", "f", "()V"⟩ = some (some "q.A") ∧
    (dottedSuperclass.map (·.name)).Nodup ∧ (outlineIndex dottedSuperclass).Acyclic ∧
    declaringInside dottedSuperclass ⟨"q/D", "f", "()V", false⟩ = none ∧
    (outlineIndex dottedSuperclass).declaringOutside ⟨"q.D", "f", "()V"⟩ = some (some "q.B") := by
  refine ⟨⟨by decide, by decide +kernel⟩, acyclic_outlineIndex (fun _ => 0) (by decide +kernel),
    by cbv, ?_, by decide,
    acyclic_outlineIndex (fun n => if n = "q.D" then 1 else 0) (by decide +kernel), by cbv, ?_⟩
  · -- Interfaces are gone through in their own order in a class, and sorted in the index.
    have hclass : (outlineIndex twoInterfaces).class? "q.X" =
        some (ClassStub.ofClass (outline "q/X" none ["q/Z", "q/A"] [])) := by decide +kernel
    have hname : (ClassStub.ofClass (outline "q/X" none ["q/Z", "q/A"] [])).name = "q.X" := by
      decide +kernel
    have hown : ¬ (outlineIndex twoInterfaces).Declares ⟨"q.X", "f", "()V"⟩ "q.X" :=
      declaredIn?_eq_none_iff.1 (by decide +kernel)
    have htop : (outlineIndex twoInterfaces).superclass? "q.X" = none := by decide +kernel
    have hrelated : (outlineIndex twoInterfaces).hierarchy.supertypes.related "q.X" =
        ["q.A", "q.Z"] := by decide +kernel
    have hfirst : (outlineIndex twoInterfaces).declaredIn? ⟨"q.X", "f", "()V"⟩ "q.A" =
        some (⟨"q.A", "q/A", ⟨0x0601⟩, none, [], [⟨"f", "()V", ⟨0x0401⟩⟩]⟩,
          ⟨"f", "()V", ⟨0x0401⟩⟩) := by decide +kernel
    refine (declaringOutside_eq_some_iff hclass).2
      ⟨_, declaration?_eq_some_iff.2 (.inr ⟨?_, rfl⟩), ?_⟩
    · rw [hname]
      exact .top (askDeclaration_eq_passOn_iff.2 hown) htop
    · rw [hname, Hierarchy.allSupertypes, Relation.reachable, hrelated, Graph.visit,
        if_neg List.not_mem_nil, List.findSome?_cons, hfirst]
      rfl
  · -- A name with a dot is no name inside the container, and the same name in the index.
    have hcoherent : (outlineIndex dottedSuperclass).Coherent := coherent_ofContainers _
    have hclass : (outlineIndex dottedSuperclass).class? "q.D" =
        some ⟨"q.D", "q/D", ⟨0x0601⟩, some "q.B", [], []⟩ := by decide +kernel
    refine hcoherent.declaringOutside_of_inherits hclass (.next (y := "q.B") ?_ ?_ (.here ?_))
    · exact declaredIn?_eq_none_iff.1 (by decide +kernel)
    · exact ⟨_, hclass, rfl⟩
    · exact ⟨⟨"q.B", "q/B", ⟨0x0601⟩, none, [], [⟨"f", "()V", ⟨0x0401⟩⟩]⟩, ⟨"f", "()V", ⟨0x0401⟩⟩,
        by decide +kernel, by decide +kernel⟩

end JvmThrows
