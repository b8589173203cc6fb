import JvmThrows.Proofs.Dispatch
import JvmThrows.Proofs.EnsuredResults

/-!
# Lazy resolution

A resolver scans containers when it needs them, keeps what it finds, and answers from what is kept.
`eager` is the answer without all this: the exceptions of each target, extracted from all classes of
the container that the target comes from. As long as no two containers offer the same key, each
question is answered with what a scan of the containers of its targets gives, whatever was asked
before (`Answering.resolve`, `answers_of_unshared`). If moreover keys are their own keys, that is
the eager answer (`answers_eq_eager`).

To look for the targets of a question may take for ever, if superclasses form a cycle. A question is
then never answered, neither by the resolver nor eagerly. Nothing else keeps a resolver from
answering (`Indexed.resolve`).
-/

namespace JvmThrows

namespace Analysis

/-! ### One question -/

section Steps

variable {setup : Setup} {r : Resolver} {s : Session} {m : MethodId}

theorem resolve_of_known (hr : s.resolver = some r) {exceptions : Exceptions}
    (hknown : r.known[m]? = some exceptions) :
    Inquiry.resolve setup m s = some (some exceptions, s) := by
  refine (bind_some (a := s) rfl _).trans ?_
  simp only [hr, hknown]
  rfl

section New

variable (hr : s.resolver = some r) (hknown : r.known[m]? = none)
include hr hknown

theorem resolve_of_endless (htargets : r.index.targets? m = none) :
    Inquiry.resolve setup m s = none := by
  refine (bind_some (a := s) rfl _).trans ?_
  simp only [hr, hknown]
  refine bind_none ?_ _
  rw [htargets]
  rfl

theorem resolve_of_no_targets (htargets : r.index.targets? m = some none) :
    Inquiry.resolve setup m s = some (none, s) := by
  refine (bind_some (a := s) rfl _).trans ?_
  simp only [hr, hknown]
  refine (bind_some (a := none) (t := s) ?_ _).trans rfl
  rw [htargets]
  rfl

theorem resolve_of_targets {targets : Std.ExtTreeSet MethodId}
    (htargets : r.index.targets? m = some (some targets)) :
    Inquiry.resolve setup m s = some (some (answer setup r m targets.toList s).1,
      (answer setup r m targets.toList s).2) := by
  refine (bind_some (a := s) rfl _).trans ?_
  simp only [hr, hknown]
  refine (bind_some (a := some targets) (t := s) ?_ _).trans rfl
  rw [htargets]
  rfl

end New

/-- What a question comes to that is answered: to what was answered before, to nothing if nobody
declares the method, or to what its targets throw. -/
inductive Resolves (setup : Setup) (r : Resolver) (m : MethodId) (s : Session) :
    Option Exceptions → Session → Prop where
  | known {exceptions : Exceptions} (h : r.known[m]? = some exceptions) :
    Resolves setup r m s (some exceptions) s
  | undeclared (hnew : r.known[m]? = none) (h : r.index.targets? m = some none) :
    Resolves setup r m s none s
  | union {targets : Std.ExtTreeSet MethodId} (hnew : r.known[m]? = none)
      (h : r.index.targets? m = some (some targets)) :
    Resolves setup r m s (some (answer setup r m targets.toList s).1)
      (answer setup r m targets.toList s).2

theorem resolves_of_eq_some (hr : s.resolver = some r) {a : Option Exceptions} {s' : Session}
    (hrun : Inquiry.resolve setup m s = some (a, s')) : Resolves setup r m s a s' := by
  cases hknown : r.known[m]? with
  | some exceptions =>
    rw [resolve_of_known hr hknown] at hrun
    cases hrun
    exact .known hknown
  | none =>
    cases hfound : r.index.targets? m with
    | none =>
      -- A question without an end does not come back.
      rw [resolve_of_endless hr hknown hfound] at hrun
      cases hrun
    | some found =>
      cases found with
      | none =>
        rw [resolve_of_no_targets hr hknown hfound] at hrun
        cases hrun
        exact .undeclared hknown hfound
      | some targets =>
        rw [resolve_of_targets hr hknown hfound] at hrun
        cases hrun
        exact .union hknown hfound

/-- The targets are seen to first, and then read. -/
theorem answer_of_ensured {targets : List MethodId} {r' : Resolver} {s' s'' : Session}
    {exceptions : Exceptions} (hensure : ensureCached setup r targets s = (r', s'))
    (hunion : unionOf setup ∅ targets s' = (exceptions, s'')) :
    answer setup r m targets s = (exceptions, s''.withResolver (r'.learn m exceptions)) := by
  rw [answer, bind_eq hensure, bind_eq hunion]
  rfl

end Steps

/-! ### Questions that are answered -/

/-- The class path is indexed. -/
def Indexed (index : ClasspathIndex) (s : Session) : Prop :=
  ∃ r, s.resolver = some r ∧ r.index = index

section Indexed

variable {index : ClasspathIndex} {s : Session} {m : MethodId} {ms : List MethodId}

theorem index_findMissing (setup : Setup) (r : Resolver) (missing : Missing)
    (targets : List MethodId) (s : Session) :
    (findMissing setup r missing targets s).1.1.index = r.index := by
  induction targets generalizing r missing s with
  | nil => rfl
  | cons t targets ih =>
    obtain ⟨cached, s1, hcached⟩ : ∃ cached s1,
        isCached setup (Cache.key t.owner) s = (cached, s1) := ⟨_, _, rfl⟩
    unfold findMissing
    dsimp only
    -- Searching notes keys that were found, and leaves the index alone.
    split
    · exact ih r missing s
    · rw [bind_eq hcached]
      split
      · exact ih { r with ensured := r.ensured.insert (Cache.key t.owner) } missing s1
      · exact ih r (missingOf r missing t) s1

theorem index_scanMissing (setup : Setup) (r : Resolver) (container : ClasspathEntry)
    (wanted : List String) (s : Session) :
    (scanMissing setup r container wanted s).1.index = r.index := by
  obtain ⟨keys, s1, hkeys⟩ : ∃ keys s1, keysToWrite setup wanted (dropRepeats
      (((r.index.classesIn container).map Cache.key).filter (!r.ensured.contains ·))) s =
        (keys, s1) := ⟨_, _, rfl⟩
  obtain ⟨result, s2, hresult⟩ : ∃ result s2,
      (scanClasses setup container keys false).run s1 = (result, s2) := ⟨_, _, rfl⟩
  unfold scanMissing
  rw [bind_eq hkeys, bind_eq hresult]
  -- A scan that fails is noted as well, and the index is not touched.
  cases result with
  | error cause => rfl
  | ok written => rfl

theorem index_ensureCached (setup : Setup) (r : Resolver) (targets : List MethodId)
    (s : Session) : (ensureCached setup r targets s).1.index = r.index := by
  have hall (missing : List (ClasspathEntry × List String)) (r : Resolver) (s : Session) :
      (scanAllMissing setup r missing s).1.index = r.index := by
    induction missing generalizing r s with
    | nil => rfl
    | cons a missing ih => exact (ih _ _).trans (index_scanMissing setup r a.1 a.2 s)
  exact (hall _ _ _).trans (index_findMissing setup r ∅ targets s)

/-- A question is answered if the search for its targets ends. -/
theorem Indexed.resolve (h : Indexed index s) (setup : Setup)
    (hends : (index.targets? m).isSome = true) :
    ∃ a s', Inquiry.resolve setup m s = some (a, s') ∧ Indexed index s' := by
  obtain ⟨r, hr, rfl⟩ := h
  obtain ⟨found, hfound⟩ := Option.isSome_iff_exists.1 hends
  cases hknown : r.known[m]? with
  | some exceptions => exact ⟨_, _, resolve_of_known hr hknown, r, hr, rfl⟩
  | none =>
    cases found with
    | none => exact ⟨_, _, resolve_of_no_targets hr hknown hfound, r, hr, rfl⟩
    | some targets =>
      exact ⟨_, _, resolve_of_targets hr hknown hfound, _, rfl,
        index_ensureCached setup r targets.toList s⟩

theorem Indexed.mapM_resolve (h : Indexed index s) (setup : Setup)
    (hends : ∀ m ∈ ms, (index.targets? m).isSome = true) :
    ∃ answered s', (ms.mapM (Inquiry.resolve setup) : Inquiry _) s = some (answered, s') ∧
      answered.length = ms.length := by
  induction ms generalizing s with
  | nil => exact ⟨_, _, rfl, rfl⟩
  | cons m ms ih =>
    obtain ⟨hm, hms⟩ := List.forall_mem_cons.1 hends
    obtain ⟨a, s1, hrun, h1⟩ := h.resolve setup hm
    obtain ⟨answered, s2, hrest, hlength⟩ := ih h1 hms
    refine ⟨a :: answered, s2, ?_, congrArg (· + 1) hlength⟩
    rw [List.mapM_cons, bind_some hrun, bind_some hrest]
    rfl

end Indexed

/-! ### A question in memory -/

section Question

variable {files : FileTree} {sources : Sources} {classpath : List ClasspathEntry} {r : Resolver}
  {s : Session} {m : MethodId}

/-- A question that is new is answered with what is kept after the containers of its targets were
scanned as far as needed. -/
theorem Consistent.resolve_of_targets (h : Consistent files sources classpath r s.world.memory)
    (hfiles : s.world.files = files) (hr : s.resolver = some r) (hknown : r.known[m]? = none)
    {targets : Std.ExtTreeSet MethodId} (htargets : r.index.targets? m = some (some targets)) :
    ∃ exceptions r' s',
      Inquiry.resolve (inMemory sources) m s =
        some (some exceptions, s'.withResolver (r'.learn m exceptions)) ∧
      Ensured files sources classpath r s.world.memory targets.toList r' s' ∧
      ∀ x, x ∈ exceptions ↔ ∃ t ∈ targets,
        x ∈ s'.world.memory.exceptionsOf t := by
  obtain ⟨r', s', hensure, hensured⟩ := h.ensureCached_inMemory hfiles targets.toList
  obtain ⟨exceptions, hunion, hmem⟩ :=
    unionOf_inMemory sources s' ∅ targets.toList
  refine ⟨exceptions, r', s', ?_, hensured, fun x => by simp [hmem]⟩
  rw [Analysis.resolve_of_targets hr hknown htargets, answer_of_ensured hensure hunion]

end Question

/-! ### What is read -/

section Defs

variable (files : FileTree) (sources : Sources)

/-- The results for all classes of a container. -/
def entriesOf (container : ClasspathEntry) : Entries :=
  match container.classes files with
  | .ok classes => extract sources classes
  | .error _ => ∅

/-- The exceptions of a method in the results for the container that its class comes from. -/
def extractedFor (index : ClasspathIndex) (t : MethodId) : Exceptions :=
  ((index.containerOf? t.owner).map fun container =>
    (entriesOf files sources container).exceptionsOf t).getD ∅

/-- What can be kept for a method: nothing if its key is kept under another key. -/
def keptFor (index : ClasspathIndex) (t : MethodId) : Exceptions :=
  if Cache.key (Cache.key t.owner) = Cache.key t.owner then extractedFor files sources index t
  else ∅

/-- No two containers offer the same key. -/
def Unshared (index : ClasspathIndex) : Prop :=
  ∀ e e' k, Offers files sources index e k → Offers files sources index e' k → e = e'

end Defs

section Read

variable {files : FileTree} {sources : Sources} {classpath : List ClasspathEntry} {r r' : Resolver}
  {memory : Memory} {s : Session} {t : MethodId} {e : ClasspathEntry}

theorem Offers.key_eq {index : ClasspathIndex} {k : String}
    (h : Offers files sources index e k) : Cache.key k = k := by
  obtain ⟨-, n, -, rfl⟩ := h
  exact Cache.key_key_key n

theorem exceptionsOf_groupsOf :
    (((groupsOf files sources e)[Cache.key t.owner]?).getD ∅).exceptionsOf t =
      (entriesOf files sources e).exceptionsOf t := by
  unfold groupsOf entriesOf
  cases e.classes files with
  -- A container that cannot be read throws nothing.
  | error cause => simp [Entries.exceptionsOf]
  | ok classes => exact Groups.exceptionsOf_ofClasses sources classes t

theorem offers_key (sources : Sources) {index : ClasspathIndex} {n : String}
    (hindex : index = ClasspathIndex.build files classpath)
    (hc : index.containerOf? n = some e) (hkey : Cache.key (Cache.key n) = Cache.key n) :
    Offers files sources index e (Cache.key n) := by
  refine ⟨?_, n, hc, hkey⟩
  rw [hindex] at hc
  obtain ⟨-, classes, hclasses, c, hmem, hname⟩ := ClasspathIndex.containerOf?_found hc
  rw [groupsOf_eq hclasses, Groups.mem_ofClasses_iff]
  exact ⟨c, hmem, by rw [hname]⟩

/-- Nothing is kept under a key that is not its own key. -/
theorem Consistent.not_mem_of_key_ne (h : Consistent files sources classpath r memory) {k : String}
    (hk : Cache.key k ≠ k) : k ∉ memory := by
  intro hmem
  obtain ⟨e, -, hoffers⟩ := h.offered hmem
  exact hk hoffers.key_eq

/-- What is read for a method if one container alone has offered its key. -/
theorem Consistent.exceptionsOf_eq (h : Consistent files sources classpath r memory)
    (he : r.HasScanned e) (hoffers : Offers files sources r.index e (Cache.key t.owner))
    (huniq : ∀ e', r.HasScanned e' → Offers files sources r.index e' (Cache.key t.owner) → e' = e) :
    memory.exceptionsOf t =
      (entriesOf files sources e).exceptionsOf t := by
  rw [Memory.exceptionsOf, h.kept_eq he hoffers huniq, exceptionsOf_groupsOf]

/-- What is read for a method if its own container alone has offered its key. -/
theorem Consistent.exceptionsOf_eq_keptFor (h : Consistent files sources classpath r memory)
    (hc : r.index.containerOf? t.owner = some e)
    (he : Cache.key (Cache.key t.owner) = Cache.key t.owner → r.HasScanned e)
    (huniq : ∀ e', r.HasScanned e' → Offers files sources r.index e' (Cache.key t.owner) → e' = e) :
    memory.exceptionsOf t = keptFor files sources r.index t := by
  unfold keptFor
  split
  · -- A key that is its own is offered by one container only.
    rename_i hkey
    rw [h.exceptionsOf_eq (he hkey) (offers_key sources h.index_eq hc hkey) huniq]
    simp [extractedFor, hc]
  · -- Other keys are never written to.
    rename_i hkey
    exact Memory.exceptionsOf_of_not_mem (h.not_mem_of_key_ne hkey)

/-- What is read for a target if no two containers offer the same key. -/
theorem Ensured.exceptionsOf_eq (hunshared : Unshared files sources r.index)
    (h : Consistent files sources classpath r memory) {targets : List MethodId}
    (h' : Ensured files sources classpath r memory targets r' s) (ht : t ∈ targets)
    (hc : r.index.containerOf? t.owner = some e) :
    s.world.memory.exceptionsOf t =
      keptFor files sources r.index t := by
  have hindex : r'.index = r.index := h'.consistent.index_eq.trans h.index_eq.symm
  rw [h'.consistent.exceptionsOf_eq_keptFor (hindex ▸ hc) (fun hkey => ?_) (fun x _ hx => ?_),
    hindex]
  · rcases h'.scanned_or_kept ht hc with hscanned | hkept
    · exact hscanned
    · -- The key is kept, and nobody else can have offered it.
      rw [hkey] at hkept
      obtain ⟨x, hx, hoffers⟩ := h.offered hkept
      exact h'.scanned_old (hunshared x e _ hoffers (offers_key sources h.index_eq hc hkey) ▸ hx)
  · rw [hindex] at hx
    exact hunshared x e _ hx (offers_key sources h.index_eq hc hx.key_eq)

end Read

/-! ### All answers -/

section Defs

variable (files : FileTree) (sources : Sources)

/-- The exceptions of all targets of a call, if each target has the given ones. -/
def unionFor (index : ClasspathIndex) (results : MethodId → Exceptions) (m : MethodId) :
    Eventually (Option Exceptions) := do
  let found ← index.targets? m
  return found.map fun targets => .ofList (targets.toList.flatMap fun t => (results t).toList)

/-- The exceptions of all that a call may run, taken from the results for whole containers. -/
def eager (index : ClasspathIndex) (m : MethodId) : Eventually (Option Exceptions) :=
  unionFor index (extractedFor files sources index) m

/-- The exceptions of all that a call may run, as far as they can be kept. -/
def keptAnswer (index : ClasspathIndex) (m : MethodId) : Eventually (Option Exceptions) :=
  unionFor index (keptFor files sources index) m

/-- A session with a new resolver, over what is in memory: the answers, and how it ends. -/
def session (classpath : List ClasspathEntry) (memory : Memory) (ms : List MethodId) :
    Eventually (List (Option Exceptions) × Session) :=
  let run : Inquiry (List (Option Exceptions)) := do
    ensureIndexed classpath
    ms.mapM (Inquiry.resolve (inMemory sources))
  run { world := { files, memory } }

/-- The answers to questions in a session that starts with nothing. -/
def answers (classpath : List ClasspathEntry) (ms : List MethodId) :
    Eventually (List (Option Exceptions)) :=
  (session files sources classpath ∅ ms).map (·.1)

/-- A session in which memory and notes fit together and all answers were the right ones. -/
structure Answering (classpath : List ClasspathEntry)
    (answer : MethodId → Eventually (Option Exceptions)) (s : Session) : Prop where
  files_eq : s.world.files = files
  resolver : ∃ r, s.resolver = some r ∧ Consistent files sources classpath r s.world.memory ∧
    ∀ m exceptions, r.known[m]? = some exceptions → answer m = some (some exceptions)

end Defs

section Run

variable {files : FileTree} {sources : Sources} {classpath : List ClasspathEntry}
  {index : ClasspathIndex} {s : Session} {m : MethodId}

/-- A session over what is in memory, after indexing. -/
def started (files : FileTree) (classpath : List ClasspathEntry) (memory : Memory) : Session :=
  { world := { files, memory },
    resolver := some { index := ClasspathIndex.build files classpath } }

theorem session_eq_mapM (files : FileTree) (sources : Sources) (classpath : List ClasspathEntry)
    (memory : Memory) (ms : List MethodId) :
    session files sources classpath memory ms =
      (ms.mapM (Inquiry.resolve (inMemory sources)) : Inquiry _)
        (started files classpath memory) := rfl

/-- A session in which no class is a superclass of itself answers every question. -/
theorem exists_session (hacyclic : (ClasspathIndex.build files classpath).Acyclic)
    (sources : Sources) (memory : Memory) (ms : List MethodId) :
    ∃ answered s, session files sources classpath memory ms = some (answered, s) ∧
      answered.length = ms.length := by
  have hstart : Indexed (ClasspathIndex.build files classpath) (started files classpath memory) :=
    ⟨_, rfl, rfl⟩
  exact hstart.mapM_resolve _ fun m _ =>
    Option.isSome_iff_exists.2 (hacyclic.exists_targets? m)

theorem consistent_started (files : FileTree) (sources : Sources)
    (classpath : List ClasspathEntry) :
    Consistent files sources classpath { index := ClasspathIndex.build files classpath }
      (started files classpath ∅).world.memory where
  index_eq := rfl
  offered h := absurd h (by simp [started])
  kept h := absurd h.2 (by simp)
  ensured_kept h := absurd h (by simp)
  kept_eq h := absurd h.2 (by simp)

theorem answering_started (files : FileTree) (sources : Sources)
    (classpath : List ClasspathEntry) (answer : MethodId → Eventually (Option Exceptions)) :
    Answering files sources classpath answer (started files classpath ∅) :=
  ⟨rfl, _, rfl, consistent_started files sources classpath, fun m exceptions h => by simp at h⟩

theorem Consistent.learn {r : Resolver} {memory : Memory}
    (h : Consistent files sources classpath r memory) (m : MethodId) (exceptions : Exceptions) :
    Consistent files sources classpath (r.learn m exceptions) memory :=
  ⟨h.index_eq, h.offered, h.kept, h.ensured_kept, h.kept_eq⟩

theorem unionFor_eq_some {results : MethodId → Exceptions} {targets : Std.ExtTreeSet MethodId}
    (htargets : index.targets? m = some (some targets)) {exceptions : Exceptions}
    (h : ∀ x, x ∈ exceptions ↔ ∃ t ∈ targets, x ∈ results t) :
    unionFor index results m = some (some exceptions) := by
  have hset : .ofList (targets.toList.flatMap fun t => (results t).toList) = exceptions := by
    refine Std.ExtTreeSet.ext_mem fun x => ?_
    simp [Std.ExtTreeSet.mem_ofList, h]
  simp [unionFor, htargets, hset]

/-- Exceptions are to be had exactly if targets are. -/
theorem isSome_unionFor (results : MethodId → Exceptions) :
    (unionFor index results m).isSome = (index.targets? m).isSome := by
  cases htargets : index.targets? m <;> simp [unionFor, htargets]

theorem unionFor_congr {results results' : MethodId → Exceptions}
    (h : ∀ targets : Std.ExtTreeSet MethodId, index.targets? m = some (some targets) →
      ∀ t ∈ targets, results t = results' t) :
    unionFor index results m = unionFor index results' m := by
  cases hfound : index.targets? m with
  | none => simp [unionFor, hfound]
  | some found =>
    cases found with
    | none => simp [unionFor, hfound]
    | some targets =>
      have hlist : (targets.toList.flatMap fun t => (results t).toList) =
          targets.toList.flatMap fun t => (results' t).toList :=
        List.flatMap_congr fun t ht => by
          rw [h targets hfound t (Std.ExtTreeSet.mem_toList.1 ht)]
      simp [unionFor, hfound, hlist]

/-- Targets have results in the container that their class comes from. -/
theorem containerOf?_of_mem_targets {targets : Std.ExtTreeSet MethodId} {t : MethodId}
    (h : (ClasspathIndex.build files classpath).targets? m = some (some targets))
    (ht : t ∈ targets) :
    ∃ e classes, (ClasspathIndex.build files classpath).containerOf? t.owner = some e ∧
      e.classes files = .ok classes ∧ ∀ sources, t ∈ extract sources classes := by
  obtain ⟨d, rfl, stub, decl, hstub, hdecl⟩ := ClasspathIndex.declares_of_mem_targets h ht
  obtain ⟨ic, hic, rfl⟩ := Option.map_eq_some_iff.1 hstub
  obtain ⟨e, classes, hi, c, hc, hofClass, rfl⟩ := ClasspathIndex.exists_class_of_getElem? hic
  refine ⟨e, classes, ?_, (ClasspathIndex.load_of_mem_loaded (List.mem_of_getElem? hi)).2,
    fun sources => mem_extract_iff.2 ?_⟩
  · simp [ClasspathIndex.containerOf?, MethodId.withOwner, hic, ClasspathIndex.containers_build, hi]
  · -- The target is declared in its class, so that the class has a method for it.
    rw [hofClass] at hdecl
    obtain ⟨method, hmethod, rfl⟩ := List.mem_map.1 (List.mem_of_find?_eq_some hdecl)
    obtain ⟨hname, hdescriptor⟩ : method.name = m.name ∧ method.descriptor = m.descriptor := by
      simpa using List.find?_some hdecl
    exact ⟨c, hc, method, hmethod, by rw [hname, hdescriptor]; rfl⟩

section Ensured

variable {r r' : Resolver} {memory : Memory} {exceptions : Exceptions}

/-- What the targets of a question throw, if no two containers offer the same key. -/
theorem Ensured.keptAnswer_eq {targets : Std.ExtTreeSet MethodId}
    (hunshared : Unshared files sources r.index) (h : Consistent files sources classpath r memory)
    (h' : Ensured files sources classpath r memory targets.toList r' s)
    (htargets : r.index.targets? m = some (some targets))
    (hmem : ∀ x, x ∈ exceptions ↔ ∃ t ∈ targets, x ∈ s.world.memory.exceptionsOf t) :
    keptAnswer files sources r.index m = some (some exceptions) := by
  refine unionFor_eq_some htargets fun x => (hmem x).trans ?_
  refine exists_congr fun t => and_congr_right fun ht => ?_
  rw [h.index_eq] at htargets
  obtain ⟨e, -, hc, -⟩ := containerOf?_of_mem_targets htargets ht
  rw [← h.index_eq] at hc
  rw [h'.exceptionsOf_eq hunshared h (Std.ExtTreeSet.mem_toList.2 ht) hc]

/-- The right answer may be noted. -/
theorem Ensured.answering_learn {targets : List MethodId}
    {answer : MethodId → Eventually (Option Exceptions)}
    (h : Ensured files sources classpath r memory targets r' s)
    (hanswers : ∀ m exceptions, r.known[m]? = some exceptions → answer m = some (some exceptions))
    (hanswer : answer m = some (some exceptions)) :
    Answering files sources classpath answer (s.withResolver (r'.learn m exceptions)) := by
  refine ⟨h.files_eq, _, rfl, h.consistent.learn m exceptions, fun m' exceptions' hm' => ?_⟩
  rw [Resolver.learn, Std.ExtTreeMap.getElem?_insert, h.known_eq] at hm'
  split at hm'
  · rename_i heq
    obtain rfl := Std.compare_eq_iff_eq.1 heq
    exact hanswer.trans (congrArg some hm')
  · exact hanswers m' exceptions' hm'

end Ensured

section Unshared

variable (hindex : index = ClasspathIndex.build files classpath)
  (hunshared : Unshared files sources index)
include hindex hunshared

/-- One question: the answer depends on the index alone, and the session goes on as before. -/
theorem Answering.resolve
    (h : Answering files sources classpath (keptAnswer files sources index) s) (m : MethodId) :
    (Inquiry.resolve (inMemory sources) m s).map (·.1) = keptAnswer files sources index m ∧
      ∀ a s', Inquiry.resolve (inMemory sources) m s = some (a, s') →
        Answering files sources classpath (keptAnswer files sources index) s' := by
  obtain ⟨r, hr, hconsistent, hanswers⟩ := h.resolver
  have hrindex : r.index = index := hconsistent.index_eq.trans hindex.symm
  -- Most questions leave the session as it is.
  have hstay {a : Option Exceptions} (hrun : Inquiry.resolve (inMemory sources) m s = some (a, s))
      (hanswer : keptAnswer files sources index m = some a) :
      (Inquiry.resolve (inMemory sources) m s).map (·.1) = keptAnswer files sources index m ∧
      ∀ a s', Inquiry.resolve (inMemory sources) m s = some (a, s') →
        Answering files sources classpath (keptAnswer files sources index) s' := by
    rw [hrun, hanswer]
    refine ⟨rfl, ?_⟩
    rintro a s' ⟨⟩
    exact h
  cases hknown : r.known[m]? with
  | some exceptions => exact hstay (resolve_of_known hr hknown) (hanswers m exceptions hknown)
  | none =>
    cases hfound : r.index.targets? m with
    -- Neither the session nor the union gets beyond the search.
    | none =>
      rw [resolve_of_endless hr hknown hfound, keptAnswer, unionFor, ← hrindex, hfound]
      exact ⟨rfl, nofun⟩
    | some found =>
      cases found with
      | none =>
        refine hstay (resolve_of_no_targets hr hknown hfound) ?_
        rw [keptAnswer, unionFor, ← hrindex, hfound]
        rfl
      | some targets =>
        obtain ⟨exceptions, r', s', hrun, hensured, hmem⟩ :=
          hconsistent.resolve_of_targets h.files_eq hr hknown hfound
        have hanswer := hensured.keptAnswer_eq (hrindex ▸ hunshared) hconsistent hfound hmem
        rw [hrindex] at hanswer
        rw [hrun, hanswer]
        refine ⟨rfl, ?_⟩
        rintro a s' ⟨⟩
        exact hensured.answering_learn hanswers hanswer

/-- Any number of questions. -/
theorem Answering.mapM_resolve
    (h : Answering files sources classpath (keptAnswer files sources index) s)
    (ms : List MethodId) :
    ((ms.mapM (Inquiry.resolve (inMemory sources)) : Inquiry _) s).map (·.1) =
      ms.mapM (keptAnswer files sources index) := by
  induction ms generalizing s with
  | nil => rfl
  | cons m ms ih =>
    obtain ⟨hanswer, hnext⟩ := h.resolve hindex hunshared m
    rw [List.mapM_cons, List.mapM_cons, ← hanswer]
    cases hrun : Inquiry.resolve (inMemory sources) m s with
    | none => rw [bind_none hrun]; rfl
    | some p =>
      obtain ⟨a, s1⟩ := p
      have hrest := ih (hnext a s1 hrun)
      rw [bind_some hrun, ← hrest]
      cases hrun' : (ms.mapM (Inquiry.resolve (inMemory sources)) : Inquiry _) s1 with
      | none => rw [bind_none hrun']; rfl
      | some q => rw [bind_some hrun']; rfl

/-- If no two containers offer the same key, every answer depends on its question alone. -/
theorem answers_of_unshared (ms : List MethodId) :
    answers files sources classpath ms = ms.mapM (keptAnswer files sources index) := by
  have hstart := answering_started files sources classpath (keptAnswer files sources index)
  exact hstart.mapM_resolve hindex hunshared ms

end Unshared

theorem mem_classes_of_containerOf? {n : String} {e : ClasspathEntry}
    (h : index.containerOf? n = some e) : n ∈ index.classes := by
  obtain ⟨ic, hic, -⟩ := Option.bind_eq_some_iff.1 h
  exact Std.ExtTreeMap.mem_iff_isSome_getElem?.2 (by simp [hic])

theorem unshared_of_apart
    (hkeys : ∀ n ∈ index.classes, Cache.key (Cache.key n) = Cache.key n)
    (hapart : ∀ n n' e e', index.containerOf? n = some e → index.containerOf? n' = some e' →
      Cache.key n = Cache.key n' → e = e') : Unshared files sources index := by
  rintro e e' k ⟨-, n, hn, rfl⟩ ⟨-, n', hn', hk⟩
  rw [hkeys n (mem_classes_of_containerOf? hn), hkeys n' (mem_classes_of_containerOf? hn')] at hk
  exact hapart n n' e e' hn hn' hk.symm

/-- Keys that are their own keys keep everything. -/
theorem keptAnswer_eq_eager
    (hkeys : ∀ n ∈ (ClasspathIndex.build files classpath).classes,
      Cache.key (Cache.key n) = Cache.key n) :
    keptAnswer files sources (ClasspathIndex.build files classpath) =
      eager files sources (ClasspathIndex.build files classpath) := by
  funext m
  refine unionFor_congr fun targets htargets t ht => ?_
  obtain ⟨e, -, hc, -⟩ := containerOf?_of_mem_targets htargets ht
  rw [keptFor, if_pos (hkeys _ (mem_classes_of_containerOf? hc))]

/-- **Lazy resolution is eager resolution.** If every class is kept under a key that is its own key,
and classes from different containers under different keys, then all answers of a session are those
that extraction from whole containers gives, and it has a result for every target. Where the search
for the targets of a question never ends, neither the session nor the eager answer does; if no class
is a superclass of itself, every search ends. -/
theorem answers_eq_eager (files : FileTree) (sources : Sources) (classpath : List ClasspathEntry)
    (ms : List MethodId)
    (hkeys : ∀ n ∈ (ClasspathIndex.build files classpath).classes,
      Cache.key (Cache.key n) = Cache.key n)
    (hapart : ∀ n n' e e',
      (ClasspathIndex.build files classpath).containerOf? n = some e →
      (ClasspathIndex.build files classpath).containerOf? n' = some e' →
      Cache.key n = Cache.key n' → e = e') :
    answers files sources classpath ms =
      ms.mapM (eager files sources (ClasspathIndex.build files classpath)) ∧
    ((ClasspathIndex.build files classpath).Acyclic →
      ∃ answered, answers files sources classpath ms = some answered) ∧
    ∀ m targets, (ClasspathIndex.build files classpath).targets? m = some (some targets) →
      ∀ t ∈ targets, ∃ e classes,
        (ClasspathIndex.build files classpath).containerOf? t.owner = some e ∧
        e.classes files = .ok classes ∧ t ∈ extract sources classes := by
  refine ⟨?_, fun hacyclic => ?_, fun m targets htargets t ht => ?_⟩
  · rw [answers_of_unshared rfl (unshared_of_apart hkeys hapart), keptAnswer_eq_eager hkeys]
  · obtain ⟨answered, s, hrun, -⟩ := exists_session hacyclic sources ∅ ms
    exact ⟨answered, by rw [answers, hrun]; rfl⟩
  · obtain ⟨e, classes, hc, hclasses, hmem⟩ := containerOf?_of_mem_targets htargets ht
    exact ⟨e, classes, hc, hclasses, hmem sources⟩

end Run

/-! ### Two jars -/

section Jars

/-- A class with a method that only declares an exception. -/
def nativeSpec (name : String) : Assembly.ClassSpec :=
  { name
    methods := [{ name := "f", descriptor := "()V", access := ⟨0x0109⟩, throws := ["x/E"],
                  body := none }] }

def nativeClass (name : String) : ClassFile :=
  ⟨0, 52, ⟨0x0021⟩, name, some "java/lang/Object", [], [⟨⟨0x0109⟩, "f", "()V", ["x/E"], none⟩]⟩

def nativeMethod (owner : String) : MethodId := ⟨owner, "f", "()V"⟩

@[simp]
theorem owner_nativeMethod (owner : String) : (nativeMethod owner).owner = owner := rfl

def nativeJar (name : String) : List ArchiveEntry :=
  [⟨name ++ ".class", .bytes (nativeSpec name).encode⟩]

def jarAt (file : String) : ClasspathEntry := ⟨.jar, FileTree.pathOf [file]⟩

/-- Two jars with a class each. -/
def twoJars (first second : String) : FileTree :=
  let nodes : Std.ExtTreeMap Location Node := ∅
  ⟨(nodes.insert ["a.jar"] (.file (.ofEntries (nativeJar first)))).insert ["b.jar"]
    (.file (.ofEntries (nativeJar second))), []⟩

def twoEntries : List ClasspathEntry := [jarAt "a.jar", jarAt "b.jar"]

theorem jarClasses_nativeJar {name : String} (h : name ∈ ["a/B", "a/B$C", "c/D"]) :
    Archive.jarClasses (nativeJar name) = .ok [nativeClass name] := by
  have hall : ∀ name ∈ ["a/B", "a/B$C", "c/D"],
      (Archive.jarClasses (nativeJar name)).toOption = some [nativeClass name] := by
    decide +kernel
  have hname := hall name h
  cases hcs : Archive.jarClasses (nativeJar name) with
  | error cause => simp [hcs, Except.toOption] at hname
  | ok cs => simpa [hcs, Except.toOption] using hname

theorem exceptionsOf_nativeClass (n : String) :
    (extract {} [nativeClass n]).exceptionsOf (nativeMethod (ClassName.toBinary n)) =
      .ofList ["x.E"] := by
  let node := CallNode.ofMethod (Container.ofList [nativeClass n]) {} (nativeClass n)
    ⟨⟨0x0109⟩, "f", "()V", ["x/E"], none⟩
  have hnodes : (CallGraph.ofClasses {} [nativeClass n]).nodes = [node] := rfl
  have hnode : node ∈ (CallGraph.ofClasses {} [nativeClass n]).nodes := by simp [hnodes]
  have hown (e : String) : e ∈ node.own ↔ e = "x/E" := by simp [node, mem_own_ofMethod]
  have hbinary : ClassName.toBinary "x/E" = "x.E" := by decide +kernel
  refine Std.ExtTreeSet.ext_mem fun x =>
    (mem_exceptionsOf_extract hnode (by simp [hnodes]) x).trans ?_
  simp only [Std.ExtTreeSet.mem_ofList, List.contains_cons, List.contains_nil, Bool.or_false,
    beq_iff_eq]
  constructor
  · rintro ⟨e, rfl, last, -, n', hn', -, he⟩
    obtain rfl : n' = node := by simpa [hnodes] using hn'
    rw [(hown e).1 he, hbinary]
  · rintro rfl
    exact ⟨"x/E", hbinary, node.id, .refl, node, hnode, rfl, (hown _).2 rfl⟩

variable {first second : String}
  (hfirst : Archive.jarClasses (nativeJar first) = .ok [nativeClass first])
  (hsecond : Archive.jarClasses (nativeJar second) = .ok [nativeClass second])
include hfirst hsecond

theorem loaded_twoJars :
    ClasspathIndex.loaded (twoJars first second) twoEntries =
      [(jarAt "a.jar", [nativeClass first]), (jarAt "b.jar", [nativeClass second])] := by
  have ha : (twoJars first second).nodes[["a.jar"]]? =
      some (.file (.ofEntries (nativeJar first))) := by
    rw [twoJars, Std.ExtTreeMap.getElem?_insert, if_neg (by decide)]
    simp
  have hb : (twoJars first second).nodes[["b.jar"]]? =
      some (.file (.ofEntries (nativeJar second))) := by
    simp [twoJars]
  have hloada :=
    ClasspathIndex.load_jar (by decide +kernel) (by decide +kernel) (by decide +kernel) ha
  have hloadb :=
    ClasspathIndex.load_jar (by decide +kernel) (by decide +kernel) (by decide +kernel) hb
  simp [ClasspathIndex.loaded, twoEntries, jarAt, hloada, hloadb, hfirst, hsecond, Except.map,
    Except.toOption]

theorem containerOf?_twoJars (n : String) :
    (ClasspathIndex.build (twoJars first second) twoEntries).containerOf? n =
      if ClassName.toBinary first = n then some (jarAt "a.jar")
      else if ClassName.toBinary second = n then some (jarAt "b.jar") else none := by
  rw [ClasspathIndex.containerOf?, ClasspathIndex.classes_build, ClasspathIndex.containers_build,
    loaded_twoJars hfirst hsecond]
  simp only [List.map_cons, List.map_nil, List.zipIdx_cons, List.zipIdx_nil, List.findSome?_cons,
    List.findSome?_nil, ClasspathIndex.definition?, nativeClass, List.find?_cons, List.find?_nil]
  by_cases h1 : ClassName.toBinary first = n
  · simp [h1]
  · have hb1 : (ClassName.toBinary first == n) = false := by simpa using h1
    by_cases h2 : ClassName.toBinary second = n
    · simp [h1, hb1, h2]
    · have hb2 : (ClassName.toBinary second == n) = false := by simpa using h2
      simp [h1, hb1, h2, hb2]

theorem targets?_twoJars (hne : ClassName.toBinary first ≠ ClassName.toBinary second) {n : String}
    (hn : n = first ∨ n = second) :
    (ClasspathIndex.build (twoJars first second) twoEntries).targets?
        (nativeMethod (ClassName.toBinary n)) =
      some (some (Std.ExtTreeSet.ofList [nativeMethod (ClassName.toBinary n)])) := by
  have hclass : (ClasspathIndex.build (twoJars first second) twoEntries).class?
      (ClassName.toBinary n) = some (ClassStub.ofClass (nativeClass n)) := by
    rw [ClasspathIndex.class?_build, loaded_twoJars hfirst hsecond]
    have hname (n : String) : (nativeClass n).name = n := rfl
    have hb : (ClassName.toBinary first == ClassName.toBinary second) = false := by simpa using hne
    rcases hn with rfl | rfl
    · simp [hname]
    · simp [hname, hb]
  have hdecl : (ClasspathIndex.build (twoJars first second) twoEntries).declaration?
      (ClassStub.ofClass (nativeClass n)) (nativeMethod (ClassName.toBinary n)) =
      some (some (ClassStub.ofClass (nativeClass n), ⟨"f", "()V", ⟨0x0109⟩⟩)) := by
    have hname : (ClassStub.ofClass (nativeClass n)).name = ClassName.toBinary n := rfl
    have hmethod : (ClassStub.ofClass (nativeClass n)).method? "f" "()V" =
        some ⟨"f", "()V", ⟨0x0109⟩⟩ := rfl
    refine ClasspathIndex.declaration?_of_declaredIn? ?_
    simp [ClasspathIndex.declaredIn?, nativeMethod, hname, hclass, hmethod]
  have hstatic : (⟨0x0109⟩ : AccessFlags).isStatic = true := by decide
  have hfixed : ClasspathIndex.isOverridable (ClassStub.ofClass (nativeClass n))
      ⟨"f", "()V", ⟨0x0109⟩⟩ = false := by
    simp [ClasspathIndex.isOverridable, hstatic]
  have htargets := ClasspathIndex.targets?_of_fixed hclass hdecl hfixed
  rw [htargets]
  rfl

theorem acyclic_twoJars (hobject : ClassName.toBinary first ≠ "java.lang.Object")
    (hobject' : ClassName.toBinary second ≠ "java.lang.Object") :
    (ClasspathIndex.build (twoJars first second) twoEntries).Acyclic := by
  have hstubs : ((ClasspathIndex.loaded (twoJars first second) twoEntries).flatMap (·.2)).map
      ClassStub.ofClass = [.ofClass (nativeClass first), .ofClass (nativeClass second)] := by
    rw [loaded_twoJars hfirst hsecond]
    rfl
  have hobjectName : ClassName.toBinary "java/lang/Object" = "java.lang.Object" := by
    decide +kernel
  refine ClasspathIndex.acyclic_of_stubs (ClasspathIndex.class?_of_stubs hstubs)
    (fun n => if n = "java.lang.Object" then 0 else 1) ?_
  simp [ClassStub.ofClass, nativeClass, hobjectName, hobject, hobject']

theorem entriesOf_twoJars :
    entriesOf (twoJars first second) {} (jarAt "a.jar") = extract {} [nativeClass first] ∧
      entriesOf (twoJars first second) {} (jarAt "b.jar") = extract {} [nativeClass second] := by
  have hload := loaded_twoJars hfirst hsecond
  have ha : (jarAt "a.jar").classes (twoJars first second) = .ok [nativeClass first] :=
    (ClasspathIndex.load_of_mem_loaded (hload ▸ List.mem_cons_self ..)).2
  have hb : (jarAt "b.jar").classes (twoJars first second) = .ok [nativeClass second] :=
    (ClasspathIndex.load_of_mem_loaded (hload ▸ List.mem_cons_of_mem _ (List.mem_cons_self ..))).2
  simp [entriesOf, ha, hb]

theorem name_of_mem_twoJars {n : String}
    (h : n ∈ (ClasspathIndex.build (twoJars first second) twoEntries).classes) :
    n ∈ [ClassName.toBinary first, ClassName.toBinary second] := by
  obtain ⟨ic, hic⟩ := Option.isSome_iff_exists.1 (Std.ExtTreeMap.mem_iff_isSome_getElem?.1 h)
  obtain ⟨e, cs, hi, c, hc, -, rfl⟩ := ClasspathIndex.exists_class_of_getElem? hic
  have hmem := List.mem_of_getElem? hi
  rw [loaded_twoJars hfirst hsecond] at hmem
  simp only [List.mem_cons, Prod.mk.injEq, List.not_mem_nil, or_false] at hmem
  rcases hmem with ⟨-, rfl⟩ | ⟨-, rfl⟩ <;> cases List.mem_singleton.1 hc <;> simp [nativeClass]

theorem eager_twoJars (hne : ClassName.toBinary first ≠ ClassName.toBinary second) {n : String}
    (hn : n = first ∨ n = second) :
    eager (twoJars first second) {} (ClasspathIndex.build (twoJars first second) twoEntries)
        (nativeMethod (ClassName.toBinary n)) = some (some (.ofList ["x.E"])) := by
  have hresults : extractedFor (twoJars first second) {}
      (ClasspathIndex.build (twoJars first second) twoEntries)
      (nativeMethod (ClassName.toBinary n)) = .ofList ["x.E"] := by
    obtain ⟨ha, hb⟩ := entriesOf_twoJars hfirst hsecond
    rcases hn with rfl | rfl
    · simp [extractedFor, containerOf?_twoJars hfirst hsecond, ha, exceptionsOf_nativeClass]
    · simp [extractedFor, containerOf?_twoJars hfirst hsecond, hne, hb, exceptionsOf_nativeClass]
  refine unionFor_eq_some (targets?_twoJars hfirst hsecond hne hn) fun x => ?_
  simp [hresults]

end Jars

theorem apart_twoJars :
    (∀ n ∈ (ClasspathIndex.build (twoJars "a/B" "c/D") twoEntries).classes,
      Cache.key (Cache.key n) = Cache.key n) ∧
    ∀ n n' e e',
      (ClasspathIndex.build (twoJars "a/B" "c/D") twoEntries).containerOf? n = some e →
      (ClasspathIndex.build (twoJars "a/B" "c/D") twoEntries).containerOf? n' = some e' →
      Cache.key n = Cache.key n' → e = e' := by
  have hkey : ∀ n ∈ [ClassName.toBinary "a/B", ClassName.toBinary "c/D"], Cache.key n = n := by
    decide +kernel
  have hkey {n : String} (h : n ∈ (ClasspathIndex.build (twoJars "a/B" "c/D") twoEntries).classes) :
      Cache.key n = n :=
    hkey n (name_of_mem_twoJars (jarClasses_nativeJar (by decide))
      (jarClasses_nativeJar (by decide)) h)
  refine ⟨fun n hn => by rw [hkey hn, hkey hn], fun n n' e e' he he' h => ?_⟩
  rw [hkey (mem_classes_of_containerOf? he), hkey (mem_classes_of_containerOf? he')] at h
  subst h
  exact Option.some.inj (he.symm.trans he')

/-- Each of two jars is asked about its own class, first the second one. -/
theorem answers_twoJars :
    (∀ n ∈ (ClasspathIndex.build (twoJars "a/B" "c/D") twoEntries).classes,
      Cache.key (Cache.key n) = Cache.key n) ∧
    (∀ n n' e e',
      (ClasspathIndex.build (twoJars "a/B" "c/D") twoEntries).containerOf? n = some e →
      (ClasspathIndex.build (twoJars "a/B" "c/D") twoEntries).containerOf? n' = some e' →
      Cache.key n = Cache.key n' → e = e') ∧
    answers (twoJars "a/B" "c/D") {} twoEntries [nativeMethod "c.D", nativeMethod "a.B"] =
      some [some (.ofList ["x.E"]), some (.ofList ["x.E"])] := by
  obtain ⟨hkeys, hapart⟩ := apart_twoJars
  refine ⟨hkeys, hapart, (answers_eq_eager _ _ _ _ hkeys hapart).1.trans ?_⟩
  have hfirst : Archive.jarClasses (nativeJar "a/B") = .ok [nativeClass "a/B"] :=
    jarClasses_nativeJar (by decide)
  have hsecond : Archive.jarClasses (nativeJar "c/D") = .ok [nativeClass "c/D"] :=
    jarClasses_nativeJar (by decide)
  have hab : ClassName.toBinary "a/B" = "a.B" := by decide +kernel
  have hcd : ClassName.toBinary "c/D" = "c.D" := by decide +kernel
  have hne : ClassName.toBinary "a/B" ≠ ClassName.toBinary "c/D" := by
    rw [hab, hcd]
    decide
  have ha := eager_twoJars hfirst hsecond hne (.inl rfl)
  have hc := eager_twoJars hfirst hsecond hne (.inr rfl)
  rw [hab] at ha
  rw [hcd] at hc
  exact mapM_eq_some_iff.2 (by rw [List.map_cons, List.map_cons, List.map_nil, ha, hc]; rfl)

end Analysis

end JvmThrows
