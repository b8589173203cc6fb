import JvmThrows.Proofs.Dispatch

/-!
# Longer class paths

Entries at the end of a class path add classes and change none (`within_append`). The subtree of a
class grows, and a class that was outside may be inside now, so that looking upwards from a subtype
stops where it used to go on. Dispatch knows no subtree: what it runs for an instance stays the same
as long as it was known (`Dispatches.of_within`). The main statement, `targets_append`, says that no
target is lost, and what is new.
-/

namespace JvmThrows

namespace ClasspathIndex

/-- Every class of the first index is in the second one, as it is. -/
def Within (index index' : ClasspathIndex) : Prop :=
  ∀ n c, index.class? n = some c → index'.class? n = some c

variable {index index' : ClasspathIndex} {tree : FileTree} {entries more : List ClasspathEntry}
  {m t : MethodId} {n s d e : String} {owner : ClassStub} {decl : MethodStub}

/-- What is put at the end of a class path changes no class. -/
theorem within_append (tree : FileTree) (entries more : List ClasspathEntry) :
    (build tree entries).Within (build tree (entries ++ more)) := by
  intro n c hc
  rw [class?_build] at hc ⊢
  obtain ⟨c', hfind, rfl⟩ := Option.map_eq_some_iff.1 hc
  rw [loaded, List.filterMap_append, List.flatMap_append, List.find?_append]
  rw [loaded] at hfind
  rw [hfind, Option.some_or, Option.map_some]

section Within

variable (hin : index.Within index')
include hin

theorem HasSuperclass.of_within (h : index.HasSuperclass n s) : index'.HasSuperclass n s := by
  obtain ⟨c, hc, hs⟩ := h
  exact ⟨c, hin n c hc, hs⟩

theorem Extends.of_within (h : index.Extends n s) : index'.Extends n s := by
  obtain ⟨c, hc, hs⟩ := h
  exact ⟨c, hin n c hc, hs⟩

theorem Acyclic.of_within (h : index'.Acyclic) : index.Acyclic := by
  intro n hn
  exact h n (Relation.TransGen.mono (fun _ _ hs => hs.of_within hin) _ _ hn)

/-- Dispatch meets only known classes, and these stay. -/
theorem Dispatches.of_within (h : index.Dispatches m n d) : index'.Dispatches m n d := by
  induction h with
  | own hc hm => exact .own (hin _ _ hc) hm
  | inherited hc hm hs _ ih => exact .inherited (hin _ _ hc) hm hs ih

end Within

theorem Dispatches.unique (h : index.Dispatches m n d) (h' : index.Dispatches m n e) : d = e := by
  induction h with
  | own hc hm =>
    cases h' with
    | own => rfl
    | inherited hc' hm' =>
      obtain rfl := Option.some.inj (hc.symm.trans hc')
      exact absurd (hm.symm.trans hm') (by decide)
  | inherited hc hm hs _ ih =>
    cases h' with
    | own hc' hm' =>
      obtain rfl := Option.some.inj (hc.symm.trans hc')
      exact absurd (hm'.symm.trans hm) (by decide)
    | inherited hc' _ hs' hd' =>
      obtain rfl := Option.some.inj (hc.symm.trans hc')
      obtain rfl := Option.some.inj (hs.symm.trans hs')
      exact ih hd'

/-- The targets of a method that its owner declares. -/
theorem Coherent.exists_targets (h : index.Coherent) (hacyclic : index.Acyclic)
    (howner : index.class? m.owner = some owner)
    (hdecl : owner.method? m.name m.descriptor = some decl) :
    ∃ targets, index.targets? m = some (some targets) ∧ ∀ t, t ∈ targets ↔
      t = m ∨ isOverridable owner decl = true ∧
        ∃ n ∈ index.hierarchy.allSubtypes m.owner, ∃ d, index.Dispatches m n d ∧
          t = m.withOwner d := by
  have hname : owner.name = m.owner := h.name_eq howner
  have hself : m.withOwner owner.name = m := by
    rw [hname]
    rfl
  have hfound : index.declaration? owner m = some (some (owner, decl)) := by
    refine declaration?_of_declaredIn? ?_
    simp [declaredIn?, hname, howner, hdecl]
  obtain ⟨targets, htargets⟩ := hacyclic.exists_targets? m
  cases targets with
  | none =>
    -- The declaration that was found is a target.
    have hnone := targets?_eq_none_iff.1 htargets owner howner
    rw [hfound] at hnone
    cases hnone
  | some targets =>
    refine ⟨targets, htargets, fun t => ?_⟩
    rw [h.mem_targets_iff howner hfound htargets, hself]

/-- **Appending to a class path loses no targets.** If no superclass chain is a cycle, even after
entries were appended, and the owner declares the method itself, then every target is still a target
after that. A new one is what dispatch runs for a subtype that was none before, or for one for which
it led to a class that was not known. -/
theorem targets_append (tree : FileTree) (entries more : List ClasspathEntry) (m : MethodId)
    (hacyclic : (build tree (entries ++ more)).Acyclic)
    (hdecl : (build tree entries).Declares m m.owner) :
    let before := build tree entries
    let after := build tree (entries ++ more)
    ∃ targets targets', before.targets? m = some (some targets) ∧
      after.targets? m = some (some targets') ∧
      (∀ t ∈ targets, t ∈ targets') ∧
      ∀ t ∈ targets', t ∉ targets → ∃ n ∈ after.hierarchy.allSubtypes m.owner, ∃ d,
        after.Dispatches m n d ∧ t = m.withOwner d ∧
        (n ∉ before.hierarchy.allSubtypes m.owner ∨ ∀ e, ¬ before.Dispatches m n e) := by
  intro before after
  have hin : before.Within after := within_append tree entries more
  obtain ⟨owner, decl, howner, hmethod⟩ := hdecl
  obtain ⟨targets, htargets, hmem⟩ := (coherent_build tree entries).exists_targets
    (hacyclic.of_within hin) howner hmethod
  obtain ⟨targets', htargets', hmem'⟩ := (coherent_build tree (entries ++ more)).exists_targets
    hacyclic (hin _ _ howner) hmethod
  refine ⟨targets, targets', htargets, htargets', fun t ht => ?_, fun t ht hnew => ?_⟩
  · rcases (hmem t).1 ht with rfl | ⟨hover, n, hn, d, hd, rfl⟩
    · exact (hmem' t).2 (.inl rfl)
    · refine (hmem' _).2 (.inr ⟨hover, n, ?_, d, hd.of_within hin, rfl⟩)
      exact mem_allSubtypes_iff.2
        (Relation.TransGen.mono (fun _ _ hs => hs.of_within hin) _ _ (mem_allSubtypes_iff.1 hn))
  · rcases (hmem' t).1 ht with rfl | ⟨hover, n, hn, d, hd, rfl⟩
    · exact absurd ((hmem t).2 (.inl rfl)) hnew
    · refine ⟨n, hn, d, hd, rfl, ?_⟩
      by_cases hsub : n ∈ before.hierarchy.allSubtypes m.owner
      · -- What was run for a subtype is run for it still, so that it is not new.
        refine .inr fun e he => hnew ?_
        obtain rfl : d = e := hd.unique (he.of_within hin)
        exact (hmem _).2 (.inr ⟨hover, n, hsub, d, he, rfl⟩)
      · exact .inl hsub

/-! ### A class that comes into the subtree -/

/-- A job does its task by a method of a class whose own superclass is in another jar. -/
def workerSpecs : List Assembly.ClassSpec :=
  [{ name := "p/Base", superclass := "q/Middle", methods := [.concrete "run" "()V"] },
    { name := "p/Job", superclass := "p/Base", interfaces := ["p/Task"] },
    { name := "p/Task", access := Assembly.ClassSpec.interfaceAccess,
      methods := [.abstract "run" "()V"] }]

/-- That superclass is a task, and so the class above the job is one, too. -/
def middleSpecs : List Assembly.ClassSpec := [{ name := "q/Middle", interfaces := ["p/Task"] }]

def archiveOf (specs : List Assembly.ClassSpec) : List ArchiveEntry :=
  specs.map fun c => ⟨c.name ++ ".class", .bytes c.encode⟩

def workerTree : FileTree :=
  let nodes : Std.ExtTreeMap Location Node := ∅
  ⟨(nodes.insert ["p.jar"] (.file (.ofEntries (archiveOf workerSpecs)))).insert ["q.jar"]
    (.file (.ofEntries (archiveOf middleSpecs))), []⟩

def workerEntries : List ClasspathEntry := [⟨.jar, FileTree.pathOf ["p.jar"]⟩]

def middleEntries : List ClasspathEntry := [⟨.jar, FileTree.pathOf ["q.jar"]⟩]

def workerBase : ClassStub :=
  ⟨"p.Base", "p/Base", ⟨0x0021⟩, some "q.Middle", [], [⟨"run", "()V", ⟨0x0001⟩⟩]⟩

def workerStubs : List ClassStub := [workerBase, jobClass, jobTask]

def middleStub : ClassStub :=
  ⟨"q.Middle", "q/Middle", ⟨0x0021⟩, some "java.lang.Object", ["p.Task"], []⟩

theorem load_workerTree :
    (∃ cs, load workerTree ⟨.jar, FileTree.pathOf ["p.jar"]⟩ =
      .ok (⟨.jar, FileTree.pathOf ["p.jar"]⟩, cs) ∧ cs.map ClassStub.ofClass = workerStubs) ∧
    ∃ cs, load workerTree ⟨.jar, FileTree.pathOf ["q.jar"]⟩ =
      .ok (⟨.jar, FileTree.pathOf ["q.jar"]⟩, cs) ∧ cs.map ClassStub.ofClass = [middleStub] := by
  have hp : workerTree.nodes[["p.jar"]]? = some (.file (.ofEntries (archiveOf workerSpecs))) := by
    rw [workerTree, Std.ExtTreeMap.getElem?_insert, if_neg (by decide)]
    simp
  have hq : workerTree.nodes[["q.jar"]]? = some (.file (.ofEntries (archiveOf middleSpecs))) := by
    simp [workerTree]
  exact ⟨load_jar_of_stubs (by decide +kernel) (by decide +kernel) (by decide +kernel) hp
      (by decide +kernel),
    load_jar_of_stubs (by decide +kernel) (by decide +kernel) (by decide +kernel) hq
      (by decide +kernel)⟩

theorem class?_workers (n : String) :
    (build workerTree workerEntries).class? n = workerStubs.find? (·.name == n) := by
  obtain ⟨⟨cs, hload, hstubs⟩, -⟩ := load_workerTree
  refine class?_of_stubs ?_ n
  simp [loaded, workerEntries, hload, Except.toOption, hstubs]

theorem class?_workers_append (n : String) :
    (build workerTree (workerEntries ++ middleEntries)).class? n =
      (workerStubs ++ [middleStub]).find? (·.name == n) := by
  obtain ⟨⟨cs, hload, hstubs⟩, cs', hload', hstubs'⟩ := load_workerTree
  refine class?_of_stubs ?_ n
  simp [loaded, workerEntries, middleEntries, hload, hload', Except.toOption, hstubs, hstubs']

theorem acyclic_workers_append :
    (build workerTree (workerEntries ++ middleEntries)).Acyclic :=
  acyclic_of_stubs class?_workers_append
    (fun n => if n = "p.Job" then 3 else if n = "p.Base" then 2
      else if n = "java.lang.Object" then 0 else 1) (by decide)

/-- With the second jar, the class from which the job inherits is a subtype of the task itself, and
looking upwards from the job stops there. Its method was a target before, and it still is. -/
theorem targets_append_workers :
    let before := build workerTree workerEntries
    let after := build workerTree (workerEntries ++ middleEntries)
    after.Acyclic ∧ "p.Base" ∉ before.hierarchy.allSubtypes "p.Task" ∧
      "p.Base" ∈ after.hierarchy.allSubtypes "p.Task" ∧
      ∃ targets targets', before.targets? ⟨"p.Task", "run", "()V"⟩ = some (some targets) ∧
        after.targets? ⟨"p.Task", "run", "()V"⟩ = some (some targets') ∧
        ⟨"p.Base", "run", "()V"⟩ ∈ targets ∧ ⟨"p.Base", "run", "()V"⟩ ∈ targets' := by
  intro before after
  have htask : before.class? "p.Task" = some jobTask := by
    rw [class?_workers]
    decide
  have hjob : before.class? "p.Job" = some jobClass := by
    rw [class?_workers]
    decide
  have hbase : before.class? "p.Base" = some workerBase := by
    rw [class?_workers]
    decide
  have hmiddle : after.class? "q.Middle" = some middleStub := by
    rw [class?_workers_append]
    decide
  have hin : before.Within after := within_append workerTree workerEntries middleEntries
  have hmethod : jobTask.method? "run" "()V" = some ⟨"run", "()V", ⟨0x0401⟩⟩ := by decide
  obtain ⟨targets, targets', htargets, htargets', hsub, -⟩ :=
    targets_append workerTree workerEntries middleEntries ⟨"p.Task", "run", "()V"⟩
      acyclic_workers_append ⟨jobTask, _, htask, hmethod⟩
  have hmem : ⟨"p.Base", "run", "()V"⟩ ∈ targets := by
    obtain ⟨found, hfound, hiff⟩ := (coherent_build workerTree workerEntries).exists_targets
      (m := ⟨"p.Task", "run", "()V"⟩) (acyclic_workers_append.of_within hin) htask hmethod
    obtain rfl : targets = found :=
      Option.some.inj (Option.some.inj (htargets.symm.trans hfound))
    have htasks : "p.Job" ∈ before.hierarchy.allSubtypes "p.Task" :=
      mem_allSubtypes_iff.2 (.single ⟨jobClass, hjob, by decide⟩)
    exact (hiff _).2 (.inr ⟨by decide, "p.Job", htasks, "p.Base",
      .inherited hjob (by decide) rfl (.own hbase (by decide)), rfl⟩)
  refine ⟨acyclic_workers_append, ?_, ?_, targets, targets', htargets, htargets', hmem,
    hsub _ hmem⟩
  · intro hsubtype
    obtain ⟨s, ⟨c, hc, hs⟩, hrest⟩ := Relation.TransGen.head'_iff.1 (mem_allSubtypes_iff.1 hsubtype)
    obtain rfl : workerBase = c := Option.some.inj (hbase.symm.trans hc)
    obtain rfl : s = "q.Middle" := by simpa [workerBase] using hs
    -- The superclass is not known before, so that nothing lies above it.
    have hunknown : before.class? "q.Middle" = none := by
      rw [class?_workers]
      decide
    rcases Relation.ReflTransGen.cases_head hrest with heq | ⟨_, ⟨c, hc, -⟩, -⟩
    · exact absurd heq (by decide)
    · exact absurd (hc.symm.trans hunknown) (by simp)
  · have hstep : after.Extends "p.Base" "q.Middle" := ⟨workerBase, hin _ _ hbase, by decide⟩
    exact mem_allSubtypes_iff.2 (.tail (.single hstep) ⟨middleStub, hmiddle, by decide⟩)

end ClasspathIndex

end JvmThrows
