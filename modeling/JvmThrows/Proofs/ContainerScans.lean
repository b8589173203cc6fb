import JvmThrows.Proofs.EdgeBatches
import JvmThrows.Proofs.LazyResolution
import JvmThrows.Proofs.Merging

/-!
# Scanning a container into memory

A scan groups what it extracts by key and adds the groups to what is kept (`Memory.Absorbs`). If the
keys of the classes are their own keys, a group is found again where it was put, so that each method
gains what was extracted for it and nothing else changes (`Memory.Gains`). Adding the same groups
once more changes nothing (`Memory.Absorbs.eq_of_again`).
-/

namespace JvmThrows

/-! ### Groups that are added to a memory -/

namespace Memory

variable {groups : Groups} {keys : List String} {before after after' : Memory}

/-- The groups of some keys were added to what a memory had. -/
structure Absorbs (groups : Groups) (keys : List String) (before after : Memory) : Prop where
  added : ∀ k ∈ keys, after[k]? = some (((before[k]?).getD ∅).union ((groups[k]?).getD ∅))
  kept : ∀ k ∉ keys, after[k]? = before[k]?

/-- Rows that are for different keys, each its own key, are added side by side. -/
theorem absorbs_foldl_add {rows : List (String × Entries)} (before : Memory)
    (hgroups : ∀ row ∈ rows, groups[row.1]? = some row.2)
    (hkeys : ∀ row ∈ rows, Cache.key row.1 = row.1) (hrows : rows.Pairwise fun a b => a.1 ≠ b.1) :
    Absorbs groups (rows.map (·.1)) before (rows.foldl add before) := by
  have hapart : rows.Pairwise fun a b => Cache.key a.1 ≠ Cache.key b.1 :=
    hrows.imp_of_mem fun ha hb hne => by rwa [hkeys _ ha, hkeys _ hb]
  constructor
  · intro k hk
    obtain ⟨row, hrow, rfl⟩ := List.mem_map.1 hk
    have hadded := getElem?_foldl_add_of_mem before hapart hrow
    rw [hkeys row hrow] at hadded
    rw [hadded, hgroups row hrow, Option.getD_some]
  · intro k hk
    refine getElem?_foldl_add_of_ne fun row hrow hkey => hk ?_
    exact List.mem_map.2 ⟨row, hrow, (hkeys row hrow).symm.trans hkey⟩

/-- What was added is there already. -/
theorem Absorbs.eq_of_again (h : Absorbs groups keys before after)
    (hagain : Absorbs groups keys after after') : after' = after := by
  refine Std.ExtTreeMap.ext_getElem? fun k => ?_
  by_cases hk : k ∈ keys
  · have hwithin : Entries.Within ((groups[k]?).getD ∅)
        (((before[k]?).getD ∅).union ((groups[k]?).getD ∅)) :=
      ⟨fun m hm => Entries.mem_union.2 (.inr hm),
        fun m e he => Entries.mem_exceptionsOf_union.2 (.inr he)⟩
    rw [hagain.added k hk, h.added k hk, Option.getD_some, hwithin.union_eq]
  · exact hagain.kept k hk

/-- Results were added to a memory, and nothing else has changed, as far as the store shows it. -/
structure Gains (results : Entries) (keys : List String) (before after : Memory) : Prop where
  exceptionsOf : ∀ m ∈ results, ∀ e, e ∈ (store.exceptionsOf m after).1 ↔
    e ∈ (store.exceptionsOf m before).1 ∨ e ∈ results.exceptionsOf m
  contains : ∀ k ∈ keys, (store.contains k after).1 = true
  /-- Other keys keep what they had. -/
  other_keys : ∀ k ∉ keys, after[k]? = before[k]?
  /-- Other methods keep what they had under any key. -/
  other_methods : ∀ k m, (m ∈ results → Cache.key m.owner ≠ k) →
    Groups.result? after k m = Groups.result? before k m

/-- What is kept under a key is what was kept there, with the results of the methods of the key. -/
structure GainsUnder (key : String) (results : Entries) (before after : Memory) : Prop where
  key_mem : key ∈ after
  methods : ∀ m, m ∈ (after[key]?).getD ∅ ↔
    m ∈ (before[key]?).getD ∅ ∨ Cache.key m.owner = key ∧ m ∈ results
  exceptions : ∀ m e, e ∈ ((after[key]?).getD ∅).exceptionsOf m ↔
    e ∈ ((before[key]?).getD ∅).exceptionsOf m ∨
      Cache.key m.owner = key ∧ e ∈ results.exceptionsOf m

theorem store_exceptionsOf (memory : Memory) (m : MethodId) :
    (store.exceptionsOf m memory).1 = memory.exceptionsOf m := by
  have hget : store.get m.owner memory = (memory[Cache.key m.owner]?, memory) := rfl
  rw [Store.exceptionsOf_of_get hget, exceptionsOf]

end Memory

/-! ### The groups of classes -/

section Classes

variable {sources : Sources} {classes : List ClassFile} {keys : List String}
  {before after : Memory}

theorem Cache.key_toBinary (name : String) : Cache.key (ClassName.toBinary name) = Cache.key name :=
  ClassName.topLevel_toBinary name

/-- Every class has a key that is its own key. -/
def KeysSettled (classes : List ClassFile) : Prop :=
  ∀ c ∈ classes, Cache.key (Cache.key c.name) = Cache.key c.name

theorem Groups.mem_ofClasses {k : String} :
    k ∈ Groups.ofClasses sources classes ↔ ∃ c ∈ classes, Cache.key c.name = k := by
  simp only [mem_ofClasses_iff, Cache.key_toBinary]

theorem KeysSettled.key_eq (h : KeysSettled classes) {k : String}
    (hk : k ∈ Groups.ofClasses sources classes) : Cache.key k = k := by
  obtain ⟨c, hc, rfl⟩ := Groups.mem_ofClasses.1 hk
  exact h c hc

theorem key_owner_mem_ofClasses {m : MethodId} (h : m ∈ extract sources classes) :
    Cache.key m.owner ∈ Groups.ofClasses sources classes := by
  obtain ⟨c, hc, m', -, rfl⟩ := mem_extract_iff.1 h
  exact Groups.mem_ofClasses_iff.2 ⟨c, hc, rfl⟩

/-- Adding all groups of classes adds what was extracted from them, and nothing else. -/
theorem Memory.Absorbs.gains (hsettled : KeysSettled classes)
    (hkeys : ∀ k, k ∈ keys ↔ k ∈ Groups.ofClasses sources classes)
    (h : Absorbs (Groups.ofClasses sources classes) keys before after) :
    Gains (extract sources classes) keys before after := by
  constructor
  case exceptionsOf =>
    intro m hm e
    have hadded := h.added _ ((hkeys _).2 (key_owner_mem_ofClasses hm))
    rw [store_exceptionsOf, store_exceptionsOf, Memory.exceptionsOf, Memory.exceptionsOf, hadded,
      Option.getD_some, Entries.mem_exceptionsOf_union, Groups.exceptionsOf_ofClasses]
  case contains =>
    intro k hk
    show after.contains (Cache.key k) = true
    rw [hsettled.key_eq ((hkeys k).1 hk), Std.ExtTreeMap.contains_iff_mem,
      Std.ExtTreeMap.mem_iff_isSome_getElem?, h.added k hk]
    rfl
  case other_keys => exact h.kept
  case other_methods =>
    intro k m hm
    -- The group of `k` has nothing for `m`, so that a union with it leaves `m` as it was.
    have hgroup : Groups.result? (Groups.ofClasses sources classes) k m = none := by
      rw [Groups.result?_ofClasses]
      by_cases hk : Cache.key m.owner = k
      · rw [if_pos hk]
        exact Std.ExtTreeMap.getElem?_eq_none fun hmem => hm hmem hk
      · exact if_neg hk
    by_cases hk : k ∈ keys
    · obtain ⟨group, hfound⟩ := Option.isSome_iff_exists.1
        (Std.ExtTreeMap.mem_iff_isSome_getElem?.1 ((hkeys k).1 hk))
      have hnone : group[m]? = none := by simpa [Groups.result?, hfound] using hgroup
      simp only [Groups.result?, h.added k hk, hfound, Option.getD_some, Option.bind_some,
        Entries.getElem?_union, hnone]
      cases before[k]? <;> simp
    · rw [Groups.result?, Groups.result?, h.kept k hk]

/-- Adding the group of a key adds what was extracted for the methods of the key. -/
theorem Memory.Absorbs.gainsUnder {key : String}
    (h : Absorbs (Groups.ofClasses sources classes) keys before after) (hkey : key ∈ keys) :
    GainsUnder key (extract sources classes) before after where
  key_mem := by
    rw [Std.ExtTreeMap.mem_iff_isSome_getElem?, h.added key hkey]
    rfl
  methods m := by
    rw [h.added key hkey, Option.getD_some, Entries.mem_union, Groups.mem_group]
  exceptions m e := by
    rw [h.added key hkey, Option.getD_some, Entries.mem_exceptionsOf_union,
      Groups.mem_exceptionsOf_group]

end Classes

/-! ### Scans -/

namespace Analysis

variable {sources : Sources} {container : ClasspathEntry} {classes : List ClassFile} {s : Session}

theorem readContainer_of_error {cause : ContainerError}
    (h : container.classes s.world.files = .error cause) :
    readContainer container s =
      (.error (.containerUnavailable container.path cause),
        s.scanned container s.world.memory) := by
  simp [readContainer, h, Session.scanned, Session.withMemory]

/-- A scan of a container that can be read adds all its groups. -/
theorem exists_scan_inMemory (sources : Sources)
    (h : container.classes s.world.files = .ok classes) (hsettled : KeysSettled classes) :
    ∃ after, scan (inMemory sources) container s =
        (.ok (Groups.ofClasses sources classes).keys, s.scanned container after) ∧
      Memory.Absorbs (Groups.ofClasses sources classes) (Groups.ofClasses sources classes).keys
        s.world.memory after := by
  set groups := Groups.ofClasses sources classes
  refine ⟨groups.toList.foldl Memory.add s.world.memory, ?_, ?_⟩
  · unfold scan
    rw [bind_ok (readContainer_of_ok h)]
    exact bind_ok (write_inMemory _) _
  · have hfound : ∀ row ∈ groups.toList, groups[row.1]? = some row.2 := fun row hrow =>
      Std.ExtTreeMap.mem_toList_iff_getElem?_eq_some.1 hrow
    rw [← Std.ExtTreeMap.map_fst_toList_eq_keys]
    refine Memory.absorbs_foldl_add _ hfound (fun row hrow => ?_) ?_
    · have hmem : row.1 ∈ groups :=
        Std.ExtTreeMap.mem_iff_isSome_getElem?.2 (by rw [hfound row hrow]; rfl)
      exact hsettled.key_eq hmem
    · exact Std.ExtTreeMap.distinct_keys_toList.imp fun h => by simpa using h

theorem pairwise_lt_keys (groups : Groups) : groups.keys.Pairwise (· < ·) := by
  have hordered : groups.keys.Pairwise fun a b => compare a b = .lt :=
    Std.ExtTreeMap.ordered_keys
  exact hordered.imp compareOfLessAndEq_eq_lt.1

/-- A scan adds what was extracted from a container, under the keys of its classes, and a second
scan adds nothing. If the container cannot be read, nothing is added at all. -/
theorem scan_gains (sources : Sources) (container : ClasspathEntry) (s : Session) :
    (∀ classes, container.classes s.world.files = .ok classes → KeysSettled classes →
      ∃ keys after,
        scan (inMemory sources) container s = (.ok keys, s.scanned container after) ∧
        keys.Pairwise (· < ·) ∧
        (∀ k, k ∈ keys ↔ ∃ c ∈ classes, Cache.key c.name = k) ∧
        Memory.Gains (extract sources classes) keys s.world.memory after ∧
        scan (inMemory sources) container (s.scanned container after) =
          (.ok keys, (s.scanned container after).scanned container after)) ∧
    ∀ cause, container.classes s.world.files = .error cause →
      scan (inMemory sources) container s =
        (.error (.containerUnavailable container.path cause),
          s.scanned container s.world.memory) := by
  constructor
  · intro classes hclasses hsettled
    obtain ⟨after, hscan, habsorbs⟩ := exists_scan_inMemory sources hclasses hsettled
    -- A scan writes to the memory only, so that the next one reads the same classes.
    have hagain : container.classes (s.scanned container after).world.files = .ok classes :=
      hclasses
    obtain ⟨after', hrescan, habsorbs'⟩ := exists_scan_inMemory sources hagain hsettled
    obtain rfl : after' = after := habsorbs.eq_of_again habsorbs'
    have hkeys (k : String) : k ∈ (Groups.ofClasses sources classes).keys ↔
        k ∈ Groups.ofClasses sources classes := Std.ExtTreeMap.mem_keys
    exact ⟨_, after', hscan, pairwise_lt_keys _, fun k => (hkeys k).trans Groups.mem_ofClasses,
      habsorbs.gains hsettled hkeys, hrescan⟩
  · intro cause hcause
    exact bind_error (readContainer_of_error hcause) _

/-- A method of a nested class and one of the class around it are known from before. -/
def earlierMemory : Memory :=
  (∅ : Memory).insert "a.B" (((∅ : Entries).insert (nativeMethod "a.B$C") (.ofList ["y.F"])).insert
    ⟨"a.B", "g", "()V"⟩ (.ofList ["z.G"]))

def earlierSession : Session := { world := ⟨twoJars "a/B$C" "c/D", earlierMemory⟩ }

/-- The nested class of a jar is scanned once more, when it throws something else. -/
theorem scan_gains_nested :
    (jarAt "a.jar").classes (twoJars "a/B$C" "c/D") = .ok [nativeClass "a/B$C"] ∧
    KeysSettled [nativeClass "a/B$C"] ∧
    ∃ after, scan (inMemory {}) (jarAt "a.jar") earlierSession =
        (.ok ["a.B"], earlierSession.scanned (jarAt "a.jar") after) ∧
      (∀ e, e ∈ (Memory.store.exceptionsOf (nativeMethod "a.B$C") after).1 ↔
        e = "y.F" ∨ e = "x.E") ∧
      Groups.result? after "a.B" ⟨"a.B", "g", "()V"⟩ = some (.ofList ["z.G"]) ∧
      after["c.D"]? = none := by
  have hclasses : (jarAt "a.jar").classes (twoJars "a/B$C" "c/D") = .ok [nativeClass "a/B$C"] := by
    have hfirst : Archive.jarClasses (nativeJar "a/B$C") = .ok [nativeClass "a/B$C"] :=
      jarClasses_nativeJar (by decide)
    have hsecond : Archive.jarClasses (nativeJar "c/D") = .ok [nativeClass "c/D"] :=
      jarClasses_nativeJar (by decide)
    exact (ClasspathIndex.load_of_mem_loaded
      (loaded_twoJars hfirst hsecond ▸ List.mem_cons_self ..)).2
  have hsettled : KeysSettled [nativeClass "a/B$C"] := by
    unfold KeysSettled
    decide +kernel
  have hkey : Cache.key "a/B$C" = "a.B" ∧ Cache.key "a.B$C" = "a.B" := by decide +kernel
  have hbinary : ClassName.toBinary "a/B$C" = "a.B$C" := by decide +kernel
  obtain ⟨keys, after, hscan, hordered, hkeys, hgains, -⟩ :=
    (scan_gains {} (jarAt "a.jar") earlierSession).1 _ hclasses hsettled
  obtain rfl : keys = ["a.B"] :=
    eq_of_pairwise_lt hordered (List.pairwise_singleton _ _) fun k => by
      simp [hkeys, nativeClass, hkey, eq_comm]
  have hmem (m : MethodId) : m ∈ extract {} [nativeClass "a/B$C"] ↔ m = nativeMethod "a.B$C" := by
    simp [mem_extract_iff, nativeClass, nativeMethod, hbinary]
  refine ⟨hclasses, hsettled, after, hscan, fun e => ?_, ?_, ?_⟩
  · have hextracted := exceptionsOf_nativeClass "a/B$C"
    rw [hbinary] at hextracted
    have hearlier : earlierMemory.exceptionsOf (nativeMethod "a.B$C") = .ofList ["y.F"] := by
      have hne : compare (⟨"a.B", "g", "()V"⟩ : MethodId) (nativeMethod "a.B$C") ≠ .eq := by decide
      simp only [Memory.exceptionsOf, owner_nativeMethod, hkey.2, earlierMemory,
        Std.ExtTreeMap.getElem?_insert_self, Option.getD_some, Entries.exceptionsOf,
        Std.ExtTreeMap.getElem?_insert, if_neg hne]
    rw [hgains.exceptionsOf _ ((hmem _).2 rfl) e, hextracted, Memory.store_exceptionsOf]
    show e ∈ earlierMemory.exceptionsOf _ ∨ _ ↔ _
    simp only [hearlier, Std.ExtTreeSet.mem_ofList, List.contains_cons, List.contains_nil,
      Bool.or_false, beq_iff_eq]
  · have hne : (⟨"a.B", "g", "()V"⟩ : MethodId) ≠ nativeMethod "a.B$C" := by decide
    rw [hgains.other_methods _ _ fun h => absurd ((hmem _).1 h) hne]
    simp [Groups.result?, earlierSession, earlierMemory]
  · rw [hgains.other_keys _ (by decide)]
    simp [earlierSession, earlierMemory]

end Analysis

end JvmThrows
