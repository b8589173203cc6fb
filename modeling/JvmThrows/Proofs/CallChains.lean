import JvmThrows.Proofs.LeastFixpoint
import Mathlib.Data.List.Nodup

/-!
# Exceptions escape along chains of calls

What `extract` says of the methods of a container, in terms of its classes alone. `IsLocal` says
that a method declares an exception, or throws it and does not catch it. `LetsThrough` says that a
method calls another one outside of every handler for the exception. The main statement is
`extract_eq_callChains`: the entry of a method holds exactly what is local to the last method of
some chain of such calls.

The graph that `extract` builds has one node for the first method of each name and descriptor. If no
two classes have the same name, this is the method that look-ups in the class find
(`mem_nodes_iff`).
-/

namespace JvmThrows

section Defs

variable (sources : Sources) (classes : List ClassFile)

/-- The identity stands for a method of the classes: the first of its name and descriptor. -/
def IsMethod (id : MethodId) (m : Method) : Prop :=
  ∃ c ∈ classes, c.name = id.owner ∧ c.method? id.name id.descriptor = some m

/-- The method declares the exception, or throws it where no handler for it covers the throw. -/
def IsLocal (id : MethodId) (e : String) : Prop :=
  ∃ m, IsMethod classes id m ∧
    (sources.declared = true ∧ e ∈ m.declared ∨
      sources.thrown = true ∧ ∃ code, m.code = some code ∧
        ∃ pc, (pc, e) ∈ code.thrown ∧
          (Container.ofList classes).isCaught code.handlers pc e = false)

/-- The method calls the other one where no handler for the exception covers the call. -/
def LetsThrough (e : String) (id callee : MethodId) : Prop :=
  sources.calls = true ∧ ∃ m, IsMethod classes id m ∧ ∃ code, m.code = some code ∧
    ∃ pc kind target, ⟨pc, .invoke kind target⟩ ∈ code.instructions ∧
      (Container.ofList classes).resolve? target = some callee ∧
      (Container.ofList classes).isCaught code.handlers pc e = false

end Defs

/-! ### The nodes of the graph -/

theorem ClassFile.eq_of_method? {c : ClassFile} {name descriptor : String} {m : Method}
    (h : c.method? name descriptor = some m) : m.name = name ∧ m.descriptor = descriptor := by
  simpa using List.find?_some h

theorem CallNode.mem_keepFirst_iff {l : List CallNode} {n : CallNode} :
    n ∈ keepFirst l ↔ l.find? (·.id == n.id) = some n := by
  induction l with
  | nil => simp [keepFirst]
  | cons a l ih =>
    rw [keepFirst, List.mem_cons, List.mem_filter, ih, List.find?_cons]
    by_cases h : a.id = n.id
    · -- The first with this name is kept.
      simp [h, eq_comm]
    · have hne : n ≠ a := by
        rintro rfl
        exact h rfl
      have hb : (a.id == n.id) = false := by simpa using h
      simp [hne, Ne.symm h, hb]

section Nodes

variable {sources : Sources} {container : Container} {c : ClassFile} {id : MethodId} {n : CallNode}

/-- Among the nodes of one class, an identity leads to the method that a look-up finds. -/
theorem find?_ofMethod (hc : c.name = id.owner) :
    (c.methods.map (CallNode.ofMethod container sources c)).find? (·.id == id) =
      (c.method? id.name id.descriptor).map (CallNode.ofMethod container sources c) := by
  rw [List.find?_map]
  refine congrArg _ (congrArg (List.find? · c.methods) (funext fun m => ?_))
  rw [Bool.eq_iff_iff]
  simp [CallNode.ofMethod, MethodId.ext_iff, hc]

theorem find?_ofMethod_eq_none (hc : c.name ≠ id.owner) :
    (c.methods.map (CallNode.ofMethod container sources c)).find? (·.id == id) = none := by
  rw [List.find?_map]
  simp [CallNode.ofMethod, MethodId.ext_iff, hc]

theorem find?_flatMap_ofMethod {classes : List ClassFile} (hd : (classes.map (·.name)).Nodup) :
    (classes.flatMap fun c => c.methods.map (CallNode.ofMethod container sources c)).find?
        (·.id == id) = some n ↔
      ∃ c ∈ classes, c.name = id.owner ∧ ∃ m, c.method? id.name id.descriptor = some m ∧
        CallNode.ofMethod container sources c m = n := by
  induction classes with
  | nil => simp
  | cons c classes ih =>
    rw [List.map_cons, List.nodup_cons] at hd
    rw [List.flatMap_cons, List.find?_append]
    by_cases hc : c.name = id.owner
    · -- No other class has this name, so that only the methods of `c` matter.
      have hrest : ¬ ∃ c' ∈ classes, c'.name = id.owner ∧ ∃ m,
          c'.method? id.name id.descriptor = some m ∧
            CallNode.ofMethod container sources c' m = n := by
        rintro ⟨c', hc', hname, -⟩
        exact hd.1 (List.mem_map.2 ⟨c', hc', hname.trans hc.symm⟩)
      rw [find?_ofMethod hc, Option.or_eq_some_iff, ih hd.2]
      simp [hc, hrest]
    · rw [find?_ofMethod_eq_none hc, Option.none_or, ih hd.2]
      simp [hc]

theorem mem_own_ofMethod {m : Method} {e : String} :
    e ∈ (CallNode.ofMethod container sources c m).own ↔
      (sources.declared = true ∧ e ∈ m.declared ∨
        sources.thrown = true ∧ ∃ code, m.code = some code ∧
          ∃ pc, (pc, e) ∈ code.thrown ∧ container.isCaught code.handlers pc e = false) := by
  cases hcode : m.code with
  | none => simp [CallNode.ofMethod, hcode]
  | some code => simp [CallNode.ofMethod, CallNode.uncaught, hcode]

theorem mem_calls_iff {code : Code} {pc : Nat} {target : MemberRef} :
    (pc, target) ∈ code.calls ↔ ∃ kind, ⟨pc, .invoke kind target⟩ ∈ code.instructions := by
  unfold Code.calls
  rw [List.mem_filterMap]
  constructor
  · rintro ⟨⟨pc', op⟩, hi, h⟩
    cases op with
    | invoke kind target' =>
      -- Only invocations are calls.
      obtain ⟨rfl, rfl⟩ : pc' = pc ∧ target' = target := by simpa using h
      exact ⟨kind, hi⟩
    | _ => cases h
  · rintro ⟨kind, hi⟩
    exact ⟨_, hi, rfl⟩

theorem mem_calls_ofMethod {m : Method} {pc : Nat} {callee : MethodId} :
    (pc, callee) ∈ (CallNode.ofMethod container sources c m).calls ↔
      sources.calls = true ∧ ∃ code, m.code = some code ∧
        ∃ kind target, ⟨pc, .invoke kind target⟩ ∈ code.instructions ∧
          container.resolve? target = some callee := by
  cases hcode : m.code with
  | none => simp [CallNode.ofMethod, hcode]
  | some code =>
    simp only [CallNode.ofMethod, hcode, Option.map_some, Option.getD_some, List.mem_ite_nil_right,
      List.mem_filterMap, Prod.exists, mem_calls_iff, Option.map_eq_some_iff, Prod.mk.injEq]
    refine and_congr_right fun _ => ?_
    constructor
    · rintro ⟨pc', target, ⟨kind, hi⟩, callee', hr, rfl, rfl⟩
      exact ⟨code, rfl, kind, target, hi, hr⟩
    · rintro ⟨code', hc, kind, target, hi, hr⟩
      obtain rfl : code = code' := by simpa using hc
      exact ⟨pc, target, ⟨kind, hi⟩, callee, hr, rfl, rfl⟩

theorem handlers_ofMethod {m : Method} {code : Code} (h : m.code = some code) :
    (CallNode.ofMethod container sources c m).handlers = code.handlers := by
  simp [CallNode.ofMethod, h]

end Nodes

section Distinct

variable {sources : Sources} {classes : List ClassFile} {n : CallNode} {id callee : MethodId}
  {e : String} (hd : (classes.map (·.name)).Nodup)
include hd

theorem mem_nodes_iff :
    n ∈ (CallGraph.ofClasses sources classes).nodes ↔
      ∃ c ∈ classes, c.name = n.id.owner ∧ ∃ m, c.method? n.id.name n.id.descriptor = some m ∧
        CallNode.ofMethod (Container.ofList classes) sources c m = n :=
  CallNode.mem_keepFirst_iff.trans (find?_flatMap_ofMethod hd)

/-- The node of a method. -/
theorem exists_node_iff {P : CallNode → Prop} :
    (∃ n ∈ (CallGraph.ofClasses sources classes).nodes, n.id = id ∧ P n) ↔
      ∃ m, ∃ c ∈ classes, c.name = id.owner ∧ c.method? id.name id.descriptor = some m ∧
        P (CallNode.ofMethod (Container.ofList classes) sources c m) := by
  constructor
  · rintro ⟨n, hn, rfl, hP⟩
    obtain ⟨c, hc, hname, m, hm, hnode⟩ := (mem_nodes_iff hd).1 hn
    exact ⟨m, c, hc, hname, hm, hnode ▸ hP⟩
  · rintro ⟨m, c, hc, hname, hm, hP⟩
    obtain ⟨h1, h2⟩ := ClassFile.eq_of_method? hm
    have hid : (CallNode.ofMethod (Container.ofList classes) sources c m).id = id :=
      MethodId.ext hname h1 h2
    refine ⟨_, (mem_nodes_iff hd).2 ⟨c, hc, ?_, m, ?_, rfl⟩, hid, hP⟩
    · rw [hid, hname]
    · rw [hid, hm]

theorem own_iff :
    (CallGraph.ofClasses sources classes).Own id e ↔ IsLocal sources classes id e := by
  unfold CallGraph.Own
  rw [exists_node_iff hd]
  simp only [mem_own_ofMethod, IsLocal, IsMethod]
  constructor
  · rintro ⟨m, c, hc, hname, hm, h⟩
    exact ⟨m, ⟨c, hc, hname, hm⟩, h⟩
  · rintro ⟨m, ⟨c, hc, hname, hm⟩, h⟩
    exact ⟨m, c, hc, hname, hm, h⟩

theorem passes_iff :
    (CallGraph.ofClasses sources classes).Passes e id callee ↔
      LetsThrough sources classes e id callee := by
  unfold CallGraph.Passes
  rw [exists_node_iff hd]
  simp only [mem_calls_ofMethod, LetsThrough, IsMethod]
  constructor
  · rintro ⟨m, c, hc, hname, hm, pc, ⟨hs, code, hcode, kind, target, hi, hr⟩, hcaught⟩
    rw [handlers_ofMethod hcode] at hcaught
    exact ⟨hs, m, ⟨c, hc, hname, hm⟩, code, hcode, pc, kind, target, hi, hr, hcaught⟩
  · rintro ⟨hs, m, ⟨c, hc, hname, hm⟩, code, hcode, pc, kind, target, hi, hr, hcaught⟩
    refine ⟨m, c, hc, hname, hm, pc, ⟨hs, code, hcode, kind, target, hi, hr⟩, ?_⟩
    rwa [handlers_ofMethod hcode]

theorem escapes_iff :
    (CallGraph.ofClasses sources classes).Escapes id e ↔
      ∃ last, Relation.ReflTransGen (LetsThrough sources classes e) id last ∧
        IsLocal sources classes last e := by
  have hrel : (CallGraph.ofClasses sources classes).Passes e = LetsThrough sources classes e :=
    funext fun _ => funext fun _ => propext (passes_iff hd)
  unfold CallGraph.Escapes
  simp only [hrel, own_iff hd]

end Distinct

/-! ### The entries -/

/-- Of several values that are put in for a key, the last counts. -/
theorem getElem?_foldl_insert {α κ ν : Type} [Ord κ] [Std.TransOrd κ] [Std.LawfulEqOrd κ]
    [DecidableEq κ] (key : α → κ) (val : α → ν) (l : List α) (map : Std.ExtTreeMap κ ν) (k : κ) :
    (l.foldl (fun map a => map.insert (key a) (val a)) map)[k]? =
      ((l.reverse.find? (key · == k)).map val).or map[k]? := by
  induction l generalizing map with
  | nil => rfl
  | cons a l ih =>
    rw [List.foldl_cons, ih, Std.ExtTreeMap.getElem?_insert, List.reverse_cons, List.find?_append,
      Option.map_or, Option.or_assoc]
    by_cases h : key a = k <;> simp [h]

theorem getElem?_extract (sources : Sources) (classes : List ClassFile) (id : MethodId) :
    (extract sources classes)[id]? =
      ((CallGraph.ofClasses sources classes).nodes.reverse.find? (·.id.toBinary == id)).map fun n =>
        .ofList (((CallGraph.ofClasses sources classes).escaping.exceptionsOf n.id).toList.map
          ClassName.toBinary) :=
  (getElem?_foldl_insert (fun n : CallNode => n.id.toBinary) _ _ ∅ id).trans (by simp)

/-- Every method of a class has a node. -/
theorem exists_node_of_method (sources : Sources) {classes : List ClassFile} {c : ClassFile}
    {m : Method} (hc : c ∈ classes) (hm : m ∈ c.methods) :
    ∃ n ∈ (CallGraph.ofClasses sources classes).nodes, n.id = ⟨c.name, m.name, m.descriptor⟩ := by
  have hmem : CallNode.ofMethod (Container.ofList classes) sources c m ∈
      classes.flatMap fun c =>
        c.methods.map (CallNode.ofMethod (Container.ofList classes) sources c) :=
    List.mem_flatMap.2 ⟨c, hc, List.mem_map_of_mem hm⟩
  obtain ⟨n, hn⟩ := Option.isSome_iff_exists.1
    (List.find?_isSome (p := (·.id == ⟨c.name, m.name, m.descriptor⟩)) |>.2
      ⟨_, hmem, beq_self_eq_true _⟩)
  have hid : n.id = ⟨c.name, m.name, m.descriptor⟩ := by simpa using List.find?_some hn
  exact ⟨n, CallNode.mem_keepFirst_iff.2 (by rwa [hid]), hid⟩

/-- The entries are those of the methods of the classes. -/
theorem mem_extract_iff {sources : Sources} {classes : List ClassFile} {id : MethodId} :
    id ∈ extract sources classes ↔
      ∃ c ∈ classes, ∃ m ∈ c.methods, id = ⟨ClassName.toBinary c.name, m.name, m.descriptor⟩ := by
  have hnodes : id ∈ extract sources classes ↔
      ∃ n ∈ (CallGraph.ofClasses sources classes).nodes, n.id.toBinary = id := by
    rw [Std.ExtTreeMap.mem_iff_isSome_getElem?, getElem?_extract]
    simp
  rw [hnodes]
  constructor
  · rintro ⟨n, hn, rfl⟩
    -- A node is the first of its name, so that its method is in one of the classes.
    have hmem := List.mem_of_find?_eq_some (CallNode.mem_keepFirst_iff.1 hn)
    obtain ⟨c, hc, hn⟩ := List.mem_flatMap.1 hmem
    obtain ⟨m, hm, rfl⟩ := List.mem_map.1 hn
    exact ⟨c, hc, m, hm, rfl⟩
  · rintro ⟨c, hc, m, hm, rfl⟩
    obtain ⟨n, hn, hid⟩ := exists_node_of_method sources hc hm
    exact ⟨n, hn, by rw [hid]; rfl⟩

/-- If no other method has the same identity by binary name, the entry of a node's method holds the
binary names of what escapes from it. -/
theorem mem_exceptionsOf_extract {sources : Sources} {classes : List ClassFile} {n : CallNode}
    (hn : n ∈ (CallGraph.ofClasses sources classes).nodes)
    (hinj : ∀ n' ∈ (CallGraph.ofClasses sources classes).nodes,
      n'.id.toBinary = n.id.toBinary → n'.id = n.id) (x : String) :
    x ∈ (extract sources classes).exceptionsOf n.id.toBinary ↔
      ∃ e, ClassName.toBinary e = x ∧ (CallGraph.ofClasses sources classes).Escapes n.id e := by
  unfold Entries.exceptionsOf
  rw [getElem?_extract]
  cases hfind : (CallGraph.ofClasses sources classes).nodes.reverse.find?
      (·.id.toBinary == n.id.toBinary) with
  | none => exact absurd (List.find?_eq_none.1 hfind n (by simpa using hn)) (by simp)
  | some n' =>
    -- No other node has the same dotted name.
    have hid : n'.id = n.id := by
      refine hinj n' ?_ ?_
      · simpa using List.mem_of_find?_eq_some hfind
      · simpa using List.find?_some hfind
    simp [hid, CallGraph.mem_escaping_iff, and_comm]

/-- **Exact extraction.** For classes with different names, there is one entry for each name and
descriptor of a method in each class. It holds the exceptions that are local to the last method of
some chain of calls from it on which nobody catches them. They are found by repeating passes over
all calls, the last of which changes nothing, and these end in the least sets that are closed under
calls. -/
theorem extract_eq_callChains (sources : Sources) (classes : List ClassFile)
    (hd : (classes.map fun c => ClassName.toBinary c.name).Nodup) :
    (∀ id, id ∈ extract sources classes ↔
      ∃ c ∈ classes, ∃ m ∈ c.methods, id = ⟨ClassName.toBinary c.name, m.name, m.descriptor⟩) ∧
    (∀ c ∈ classes, ∀ m ∈ c.methods, ∀ x,
      x ∈ (extract sources classes).exceptionsOf
          ⟨ClassName.toBinary c.name, m.name, m.descriptor⟩ ↔
        ∃ e, ClassName.toBinary e = x ∧ ∃ last,
          Relation.ReflTransGen (LetsThrough sources classes e)
            ⟨c.name, m.name, m.descriptor⟩ last ∧
          IsLocal sources classes last e) ∧
    (∃ k, (CallGraph.ofClasses sources classes).escaping =
        (fun found => ((CallGraph.ofClasses sources classes).pass found).found)^[k]
          (CallGraph.ofClasses sources classes).own ∧
      (CallGraph.ofClasses sources classes).pass (CallGraph.ofClasses sources classes).escaping =
        ⟨(CallGraph.ofClasses sources classes).escaping, false⟩) ∧
    IsLeast {F | (CallGraph.ofClasses sources classes).Closed F}
      (CallGraph.setsOf (CallGraph.ofClasses sources classes).escaping) := by
  have hd' : (classes.map (·.name)).Nodup := by
    refine List.Nodup.of_map ClassName.toBinary ?_
    rwa [List.map_map]
  refine ⟨fun id => mem_extract_iff, fun c hc m hm x => ?_, CallGraph.settle_eq_iterate _ _,
    CallGraph.isLeast_escaping _⟩
  obtain ⟨n, hn, hid⟩ := exists_node_of_method sources hc hm
  have hinj : ∀ n' ∈ (CallGraph.ofClasses sources classes).nodes,
      n'.id.toBinary = n.id.toBinary → n'.id = n.id := by
    intro n' hn' heq
    obtain ⟨c', hc', hname, -⟩ := (mem_nodes_iff hd').1 hn'
    obtain ⟨h1, h2, h3⟩ := MethodId.ext_iff.1 heq
    have hcc : c' = c := by
      refine List.inj_on_of_nodup_map hd hc' hc ?_
      rw [hname]
      exact h1.trans (by rw [hid]; rfl)
    refine MethodId.ext ?_ h2 h3
    rw [← hname, hcc, hid]
  have hmem := mem_exceptionsOf_extract hn hinj x
  rw [hid] at hmem
  simp only [escapes_iff hd'] at hmem
  exact hmem

/-- Two methods that call each other. The first one also calls itself, and calls the second one
under a handler for another exception than the one that the second one throws. -/
def mutualCalls : ClassFile :=
  let call (pc : Nat) (name : String) : Instruction :=
    ⟨pc, .invoke .static ⟨"p/A", name, "()V", false⟩⟩
  let first : Code :=
    ⟨0, 0, [call 0 "f", call 3 "g", ⟨6, .leave⟩], [⟨3, 6, 6, some "x/Other"⟩]⟩
  let second : Code :=
    ⟨2, 0, [call 0 "f", ⟨3, .new "x/E"⟩, ⟨6, .other 0x59⟩,
      ⟨7, .invoke .special ⟨"x/E", "<init>", "()V", false⟩⟩, ⟨10, .athrow⟩], []⟩
  { minorVersion := 0
    majorVersion := 52
    access := ⟨0x0021⟩
    name := "p/A"
    superclass := some "java/lang/Object"
    interfaces := []
    methods := [⟨⟨8⟩, "f", "()V", [], some first⟩, ⟨⟨8⟩, "g", "()V", [], some second⟩] }

theorem extract_mutualCalls :
    ([mutualCalls].map fun c => ClassName.toBinary c.name).Nodup ∧
      "x.E" ∈ (extract {} [mutualCalls]).exceptionsOf ⟨"p.A", "f", "()V"⟩ := by
  have hd : ([mutualCalls].map fun c => ClassName.toBinary c.name).Nodup := by decide +kernel
  have hname : ClassName.toBinary mutualCalls.name = "p.A" := by decide +kernel
  have hresolve : (Container.ofList [mutualCalls]).resolve? ⟨"p/A", "g", "()V", false⟩ =
      some ⟨"p/A", "g", "()V"⟩ := by cbv
  have hentry := ((extract_eq_callChains {} [mutualCalls] hd).2.1 mutualCalls (by simp) _
    (List.mem_cons_self ..) "x.E").2
  rw [hname] at hentry
  refine ⟨hd, hentry ⟨"x/E", by decide +kernel, ⟨"p/A", "g", "()V"⟩, .single ⟨rfl, _,
    ⟨mutualCalls, by simp, rfl, rfl⟩, _, rfl, 3, .static, _, ?_, hresolve, by decide +kernel⟩, _,
    ⟨mutualCalls, by simp, rfl, rfl⟩, .inr ⟨rfl, _, rfl, 10, by decide +kernel, by decide +kernel⟩⟩⟩
  exact List.mem_cons_of_mem _ (List.mem_cons_self ..)

end JvmThrows
