import JvmThrows.Analysis.Resolve
import JvmThrows.Proofs.Attempts
import JvmThrows.Proofs.Groups

/-!
# Sessions in memory

What the steps of a resolver do if results are kept in memory, where nothing fails: a step that only
looks leaves the session as it is, and a scan adds rows to the memory one by one
(`scanMissing_inMemory`). Rows for different keys do not get in each other's way
(`Memory.getElem?_foldl_add_of_mem`).
-/

namespace JvmThrows

/-! ### Operations in memory -/

/-- Adds entries under the key of a class. -/
def Memory.add (memory : Memory) (row : String × Entries) : Memory :=
  memory.insert (Cache.key row.1) (((memory[Cache.key row.1]?).getD ∅).union row.2)

/-- What a store finds for a class has the exceptions of its methods; nothing found has none. -/
theorem Store.exceptionsOf_of_get {σ : Type} {store : Store σ} {t : σ} {m : MethodId}
    {found : Option Entries} (hget : store.get m.owner t = (found, t)) :
    store.exceptionsOf m t = ((found.getD ∅).exceptionsOf m, t) := by
  rw [exceptionsOf, bind_eq hget]
  cases found with
  | none =>
    have hnone : Entries.exceptionsOf ∅ m = ∅ := by simp [Entries.exceptionsOf]
    rw [Option.getD_none, hnone]
    rfl
  | some entries => rfl

/-- The exceptions that are kept for a method. -/
def Memory.exceptionsOf (memory : Memory) (m : MethodId) : Exceptions :=
  ((memory[Cache.key m.owner]?).getD ∅).exceptionsOf m

theorem Memory.exceptionsOf_of_not_mem {memory : Memory} {m : MethodId}
    (h : Cache.key m.owner ∉ memory) : memory.exceptionsOf m = ∅ := by
  simp [exceptionsOf, Std.ExtTreeMap.getElem?_eq_none h, Entries.exceptionsOf]

theorem Memory.mem_add_iff {memory : Memory} {row : String × Entries} {k : String} :
    k ∈ memory.add row ↔ Cache.key row.1 = k ∨ k ∈ memory := by
  simp [add]

theorem Memory.getElem?_add_of_ne {memory : Memory} {row : String × Entries} {k : String}
    (h : Cache.key row.1 ≠ k) : (memory.add row)[k]? = memory[k]? := by
  simp [add, Std.ExtTreeMap.getElem?_insert, h]

theorem Memory.getElem?_foldl_add_of_ne {memory : Memory} {rows : List (String × Entries)}
    {k : String} (h : ∀ row ∈ rows, Cache.key row.1 ≠ k) :
    (rows.foldl add memory)[k]? = memory[k]? := by
  induction rows generalizing memory with
  | nil => rfl
  | cons row rows ih =>
    rw [List.foldl_cons, ih fun row' h' => h row' (List.mem_cons_of_mem row h'),
      getElem?_add_of_ne (h row List.mem_cons_self)]

/-- If all rows are for different keys, each one is added to what was there. -/
theorem Memory.getElem?_foldl_add_of_mem (memory : Memory) {rows : List (String × Entries)}
    {row : String × Entries}
    (hrows : rows.Pairwise fun a b => Cache.key a.1 ≠ Cache.key b.1) (h : row ∈ rows) :
    (rows.foldl add memory)[Cache.key row.1]? =
      some (((memory[Cache.key row.1]?).getD ∅).union row.2) := by
  induction rows generalizing memory with
  | nil => cases h
  | cons a rows ih =>
    obtain ⟨ha, hrows⟩ := List.pairwise_cons.1 hrows
    rcases List.mem_cons.1 h with rfl | hrow
    · -- No other row has the same key, so that the first one is the only change.
      rw [List.foldl_cons, getElem?_foldl_add_of_ne fun row' h' => (ha row' h').symm]
      simp [add]
    · rw [List.foldl_cons, ih _ hrows hrow, getElem?_add_of_ne (ha row hrow)]

theorem Memory.mem_foldl_add_iff {memory : Memory} {rows : List (String × Entries)} {k : String} :
    k ∈ rows.foldl add memory ↔ (∃ row ∈ rows, Cache.key row.1 = k) ∨ k ∈ memory := by
  induction rows generalizing memory with
  | nil => simp
  | cons row rows ih => simp [ih, mem_add_iff, or_assoc, or_left_comm]

/-- What a resolver notes when a container was scanned and rows were written. -/
def Resolver.noteScan (r : Resolver) (container : ClasspathEntry) (rows : List (String × Entries)) :
    Resolver :=
  { r with
    scanned := r.scanned.insert container
    ensured := (rows.map (·.1)).foldl (·.insert ·) r.ensured }

/-- What a resolver notes when it has answered. -/
def Resolver.learn (r : Resolver) (m : MethodId) (exceptions : Exceptions) : Resolver :=
  { r with known := r.known.insert m exceptions }

/-- The session with another resolver. -/
def Session.withResolver (s : Session) (r : Resolver) : Session := { s with resolver := some r }

/-- The session with another memory. -/
def Session.withMemory (s : Session) (memory : Memory) : Session :=
  { s with world := { s.world with memory } }

/-- The session when one more container was read and the memory is another. -/
def Session.scanned (s : Session) (container : ClasspathEntry) (memory : Memory) : Session :=
  { s.withMemory memory with reads := s.reads ++ [container] }

namespace Analysis

/-- Results are kept in memory. -/
def inMemory (sources : Sources) : Setup := { store := Memory.store.inMemory, sources }

section Operations

variable {sources : Sources} {s : Session}

theorem isCached_inMemory (c : String) :
    isCached (inMemory sources) c s = (s.world.memory.contains (Cache.key c), s) := rfl

theorem get_eq (s : Session) : (get : Analysis Session) s = (s, s) := rfl

/-- What is indexed stays as it is. -/
theorem ensureIndexed_of_resolver {r : Resolver} (hr : s.resolver = some r)
    (classpath : List ClasspathEntry) : ensureIndexed classpath s = ((), s) := by
  refine congrArg (Prod.mk ()) ?_
  simp only [hr]

theorem cachedExceptions_inMemory (m : MethodId) :
    cachedExceptions (inMemory sources) m s = (s.world.memory.exceptionsOf m, s) := by
  have hget : (inMemory sources).store.get m.owner s.world =
      (s.world.memory[Cache.key m.owner]?, s.world) := rfl
  rw [cachedExceptions, onWorld, onPart, Store.exceptionsOf_of_get hget, Memory.exceptionsOf]

theorem write_inMemory (rows : List (String × Entries)) :
    write (inMemory sources) rows s =
      (.ok (), s.withMemory (rows.foldl Memory.add s.world.memory)) := by
  induction rows generalizing s with
  | nil => rfl
  | cons row rows ih => exact ih

/-- What a scan for keys finds in the groups. -/
def rowsFor (groups : Groups) (keys : List String) : List (String × Entries) :=
  (Std.ExtTreeSet.ofList (keys.map Cache.key)).toList.filterMap fun k => (groups[k]?).map (k, ·)

theorem readContainer_of_ok {container : ClasspathEntry} {classes : List ClassFile}
    (h : container.classes s.world.files = .ok classes) :
    readContainer container s = (.ok classes, s.scanned container s.world.memory) := by
  simp [readContainer, h, Session.scanned, Session.withMemory]

/-- The names whose key has a group and is not kept yet. -/
def uncached (groups : Groups) (memory : Memory) (names : List String) : List String :=
  names.filter fun n =>
    groups.contains (Cache.key n) && !memory.contains (Cache.key (Cache.key n))

theorem uncachedKeys_inMemory (groups : Groups) (names : List String) :
    uncachedKeys (inMemory sources) groups names s =
      ((uncached groups s.world.memory names).map Cache.key, s) := by
  induction names with
  | nil => rfl
  | cons n names ih =>
    rw [uncachedKeys, uncached, List.filter_cons]
    by_cases hgroup : groups.contains (Cache.key n) = true
    · -- A key with a group is looked up under its own key.
      rw [if_pos hgroup, hgroup, Bool.true_and, bind_eq (isCached_inMemory (Cache.key n))]
      refine (bind_eq (by rfl) _).trans ?_
      refine (bind_eq ih _).trans ?_
      cases s.world.memory.contains (Cache.key (Cache.key n)) <;> rfl
    · rw [if_neg hgroup, Bool.eq_false_of_not_eq_true hgroup, Bool.false_and]
      refine (bind_eq (a := false) (by rfl) _).trans ?_
      exact bind_eq ih _

/-- The names that a scan goes for. -/
def wantedNames (classes : List ClassFile) (groups : Groups) (requested : List String)
    (related : Bool) (memory : Memory) : List String :=
  requested ++ if related then uncached groups memory (relatedNames classes requested) else []

/-- All look-ups come before the first row is written. -/
theorem scanClasses_eq_rowsFor {container : ClasspathEntry} {classes : List ClassFile}
    (sources : Sources) (requested : List String) (related : Bool)
    (h : container.classes s.world.files = .ok classes) :
    let groups := Groups.ofClasses sources classes
    let rows := rowsFor groups (wantedNames classes groups requested related s.world.memory)
    scanClasses (inMemory sources) container requested related s =
      (.ok (rows.map (·.1)), s.scanned container (rows.foldl Memory.add s.world.memory)) := by
  have hread : readContainer container s = (.ok classes, s.scanned container s.world.memory) :=
    readContainer_of_ok h
  intro groups rows
  -- Reading the container has left the memory as it was, and looking for names leaves all as it is.
  have hmore : (if related then uncachedKeys (inMemory sources) groups
        (relatedNames classes requested) else pure [] : Analysis (List String))
        (s.scanned container s.world.memory) =
      ((if related then uncached groups s.world.memory (relatedNames classes requested)
        else []).map Cache.key, s.scanned container s.world.memory) := by
    cases related with
    | false => rfl
    | true => exact uncachedKeys_inMemory groups _
  unfold scanClasses
  rw [bind_ok hread]
  refine (bind_ok (lift_ok hmore) _).trans ?_
  rw [← List.map_append]
  exact bind_ok (write_inMemory rows) _

theorem scanClasses_inMemory {container : ClasspathEntry} {classes : List ClassFile}
    (keys : List String) (h : container.classes s.world.files = .ok classes) :
    scanClasses (inMemory sources) container keys false s =
      (.ok ((rowsFor (Groups.ofClasses sources classes) keys).map (·.1)),
        s.scanned container ((rowsFor (Groups.ofClasses sources classes) keys).foldl Memory.add
          s.world.memory)) := by
  simpa [wantedNames] using scanClasses_eq_rowsFor sources keys false h

theorem keysToWrite_inMemory (wanted keys : List String) :
    keysToWrite (inMemory sources) wanted keys s =
      (keys.filter fun k => wanted.contains k || !s.world.memory.contains (Cache.key k), s) := by
  induction keys with
  | nil => rfl
  | cons k keys ih =>
    rw [keysToWrite, List.filter_cons]
    by_cases hk : wanted.contains k = true
    · rw [if_pos hk, hk, Bool.true_or, if_pos rfl]
      refine (bind_eq (a := true) (by rfl) _).trans ?_
      exact bind_eq ih _
    · rw [if_neg hk, Bool.eq_false_of_not_eq_true hk, Bool.false_or, bind_eq (isCached_inMemory k)]
      refine (bind_eq (by rfl) _).trans ?_
      exact bind_eq ih _

theorem mem_rowsFor {groups : Groups} {keys : List String} {row : String × Entries} :
    row ∈ rowsFor groups keys ↔
      (∃ k ∈ keys, Cache.key k = row.1) ∧ groups[row.1]? = some row.2 := by
  obtain ⟨k, e⟩ := row
  simp only [rowsFor, List.mem_filterMap, Std.ExtTreeSet.mem_toList, Std.ExtTreeSet.mem_ofList,
    List.contains_iff_mem, List.mem_map, Option.map_eq_some_iff, Prod.mk.injEq]
  constructor
  · rintro ⟨k', hk', e', he, rfl, rfl⟩
    exact ⟨hk', he⟩
  · rintro ⟨hk, he⟩
    exact ⟨k, hk, e, he, rfl, rfl⟩

/-- Rows are to each other as the keys they are for. -/
theorem pairwise_rowsFor_of {p : String → String → Prop} {groups : Groups} {keys : List String}
    (h : (Std.ExtTreeSet.ofList (keys.map Cache.key)).toList.Pairwise p) :
    (rowsFor groups keys).Pairwise fun a b => p a.1 b.1 := by
  unfold rowsFor
  refine List.Pairwise.filterMap _ (fun a a' hp b hb b' hb' => ?_) h
  obtain ⟨e, -, rfl⟩ := Option.map_eq_some_iff.1 hb
  obtain ⟨e', -, rfl⟩ := Option.map_eq_some_iff.1 hb'
  exact hp

theorem pairwise_rowsFor (groups : Groups) (keys : List String) :
    (rowsFor groups keys).Pairwise fun a b => a.1 ≠ b.1 := by
  have hdistinct := Std.ExtTreeSet.distinct_toList (t := .ofList (keys.map Cache.key))
  exact pairwise_rowsFor_of (hdistinct.imp fun hne => by simpa using hne)

theorem mem_dropRepeats {keys : List String} {k : String} : k ∈ dropRepeats keys ↔ k ∈ keys := by
  fun_induction dropRepeats keys with
  | case1 a rest ih => simp [ih]
  | case2 a b rest h ih => simp [ih]
  | case3 => rfl

/-- The keys that a container is scanned for. -/
def keysFor (r : Resolver) (memory : Memory) (container : ClasspathEntry) (wanted : List String) :
    List String :=
  let missing := ((r.index.classesIn container).map Cache.key).filter (!r.ensured.contains ·)
  (dropRepeats missing).filter fun k => wanted.contains k || !memory.contains (Cache.key k)

theorem scanMissing_inMemory {container : ClasspathEntry} {classes : List ClassFile}
    (sources : Sources) (r : Resolver) (wanted : List String)
    (h : container.classes s.world.files = .ok classes) :
    let rows := rowsFor (Groups.ofClasses sources classes)
      (keysFor r s.world.memory container wanted)
    scanMissing (inMemory sources) r container wanted s =
      (r.noteScan container rows, s.scanned container (rows.foldl Memory.add s.world.memory)) := by
  unfold scanMissing
  rw [bind_eq (keysToWrite_inMemory _ _)]
  exact bind_eq (scanClasses_inMemory _ h) _

end Operations

end Analysis

end JvmThrows
