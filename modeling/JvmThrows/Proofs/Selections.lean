import JvmThrows.Proofs.ContainerScans

/-!
# Scans for requested classes

A scan for some classes of a container writes the keys that are selected: those of the requested
classes and, on demand, those of their supertypes and subtypes in the container that nothing was
known about before the scan (`Selected`). Since a container is extracted as a whole, each selected
key ends with what a scan of all classes leaves there (`scanClasses_selects`).
-/

namespace JvmThrows

/-! ### Supertypes and subtypes in a container -/

/-- One of the classes says that it extends or implements another, by binary names. -/
def Extends (classes : List ClassFile) (s t : String) : Prop :=
  ∃ c ∈ classes, ClassName.toBinary c.name = s ∧
    ∃ u ∈ c.superclass.toList ++ c.interfaces, ClassName.toBinary u = t

namespace Hierarchy

variable {classes : List ClassFile} {s t : String}

theorem mem_flatMap_classEdges : (s, t) ∈ classes.flatMap classEdges ↔ Extends classes s t := by
  simp only [Extends, classEdges, edgesOf, List.mem_flatMap, List.mem_map, Prod.mk.injEq]
  constructor
  · rintro ⟨c, hc, u, hu, hs, ht⟩
    exact ⟨c, hc, hs, u, hu, ht⟩
  · rintro ⟨c, hc, hs, u, hu, ht⟩
    exact ⟨c, hc, u, hu, hs, ht⟩

theorem not_mem_directSupertypes_empty : t ∉ directSupertypes {} s := by
  simp [directSupertypes, Relation.related]

theorem not_mem_directSubtypes_empty : s ∉ directSubtypes {} t := by
  simp [directSubtypes, Relation.related]

theorem mem_allSupertypes_ofClasses :
    t ∈ (ofClasses classes).allSupertypes s ↔ Relation.TransGen (Extends classes) s t := by
  have hdirect : (fun s t => t ∈ (ofClasses classes).directSupertypes s) = Extends classes := by
    funext s t
    rw [ofClasses, mem_directSupertypes_extend, mem_flatMap_classEdges,
      or_iff_left not_mem_directSupertypes_empty]
  rw [allSupertypes, Relation.mem_reachable_iff, ← hdirect]
  rfl

theorem mem_allSubtypes_ofClasses :
    s ∈ (ofClasses classes).allSubtypes t ↔ Relation.TransGen (Extends classes) s t := by
  rw [mem_allSubtypes_iff_mem_allSupertypes, mem_allSupertypes_ofClasses]
  intro s t
  rw [ofClasses, mem_directSubtypes_extend, mem_directSupertypes_extend,
    or_iff_left not_mem_directSubtypes_empty, or_iff_left not_mem_directSupertypes_empty]

end Hierarchy

namespace Analysis

/-! ### What is selected -/

/-- A name is above or below a requested class, which may be spelled in any way. -/
def IsRelated (classes : List ClassFile) (requested n : String) : Prop :=
  let name := ClassName.ofQualified (ClassName.toBinary requested)
  Relation.TransGen (Extends classes) name n ∨ Relation.TransGen (Extends classes) n name

/-- The keys that a scan for requested classes is to write, given what is known before it. -/
structure Selected (classes : List ClassFile) (requested : List String) (related : Bool)
    (before : Memory) (k : String) : Prop where
  defined : ∃ c ∈ classes, Cache.key c.name = k
  wanted : (∃ c ∈ requested, Cache.key c = k) ∨
    related = true ∧ k ∉ before ∧ ∃ c ∈ requested, ∃ n, IsRelated classes c n ∧ Cache.key n = k

section Selection

variable {sources : Sources} {classes : List ClassFile} {groups : Groups}
  {requested keys : List String} {related : Bool}

theorem mem_relatedNames {n : String} :
    n ∈ relatedNames classes requested ↔ ∃ c ∈ requested, IsRelated classes c n := by
  simp only [relatedNames, IsRelated, List.mem_flatMap, List.mem_append,
    Hierarchy.mem_allSupertypes_ofClasses, Hierarchy.mem_allSubtypes_ofClasses]

theorem mem_uncached {memory : Memory} {names : List String} {n : String} :
    n ∈ uncached groups memory names ↔
      n ∈ names ∧ Cache.key n ∈ groups ∧ Cache.key (Cache.key n) ∉ memory := by
  simp [uncached, ← Std.ExtTreeMap.contains_iff_mem]

theorem mem_map_rowsFor {k : String} :
    k ∈ (rowsFor groups keys).map (·.1) ↔ (∃ n ∈ keys, Cache.key n = k) ∧ k ∈ groups := by
  rw [Std.ExtTreeMap.mem_iff_isSome_getElem?, Option.isSome_iff_exists]
  constructor
  · intro hk
    obtain ⟨row, hrow, rfl⟩ := List.mem_map.1 hk
    obtain ⟨hkey, hfound⟩ := mem_rowsFor.1 hrow
    exact ⟨hkey, row.2, hfound⟩
  · rintro ⟨hkey, e, hfound⟩
    exact List.mem_map.2 ⟨(k, e), mem_rowsFor.2 ⟨hkey, hfound⟩, rfl⟩

/-- What a scan goes for, as far as the container has it, is what is selected. -/
theorem selected_iff {memory : Memory} {k : String} (hsettled : KeysSettled classes) :
    let groups := Groups.ofClasses sources classes
    (∃ n ∈ wantedNames classes groups requested related memory, Cache.key n = k) ∧ k ∈ groups ↔
      Selected classes requested related memory k := by
  intro groups
  constructor
  · rintro ⟨⟨n, hn, rfl⟩, hgroup⟩
    refine ⟨Groups.mem_ofClasses.1 hgroup, ?_⟩
    rcases List.mem_append.1 hn with hn | hn
    · exact .inl ⟨n, hn, rfl⟩
    · cases related with
      | false => simp at hn
      | true =>
        -- Related classes count only if their keys are not there yet.
        obtain ⟨hn, -, hnew⟩ := mem_uncached.1 hn
        obtain ⟨c, hc, hrelated⟩ := mem_relatedNames.1 hn
        -- The cache was asked about the key of the key, which is the key, for it has a group.
        rw [hsettled.key_eq hgroup] at hnew
        exact .inr ⟨rfl, hnew, c, hc, n, hrelated, rfl⟩
  · rintro ⟨hdefined, hwanted⟩
    have hgroup : k ∈ groups := Groups.mem_ofClasses.2 hdefined
    refine ⟨?_, hgroup⟩
    rcases hwanted with ⟨c, hc, hk⟩ | ⟨rfl, hnew, c, hc, n, hrelated, rfl⟩
    · exact ⟨c, List.mem_append_left _ hc, hk⟩
    · refine ⟨n, List.mem_append_right _ (mem_uncached.2 ⟨?_, hgroup, ?_⟩), rfl⟩
      · exact mem_relatedNames.2 ⟨c, hc, hrelated⟩
      · rwa [hsettled.key_eq hgroup]

end Selection

/-- A scan for requested classes adds what was extracted under the selected keys, which are then as
after a full scan, and leaves the other keys as they were. -/
theorem scanClasses_selects (sources : Sources) (container : ClasspathEntry) (s : Session)
    (classes : List ClassFile) (hclasses : container.classes s.world.files = .ok classes)
    (hsettled : KeysSettled classes) (requested : List String) (related : Bool) :
    ∃ keys after all full,
      scanClasses (inMemory sources) container requested related s =
        (.ok keys, s.scanned container after) ∧
      scan (inMemory sources) container s = (.ok all, s.scanned container full) ∧
      keys.Pairwise (· < ·) ∧
      (∀ k, k ∈ keys ↔ Selected classes requested related s.world.memory k) ∧
      (∀ k ∈ keys, after[k]? = full[k]? ∧
        Memory.GainsUnder k (extract sources classes) s.world.memory after) ∧
      ∀ k ∉ keys, after[k]? = s.world.memory[k]? := by
  obtain ⟨full, hscan, hfull⟩ := exists_scan_inMemory sources hclasses hsettled
  have hrun := scanClasses_eq_rowsFor sources requested related hclasses
  set groups := Groups.ofClasses sources classes
  set rows := rowsFor groups (wantedNames classes groups requested related s.world.memory)
  have hgroup {k : String} (hk : k ∈ rows.map (·.1)) : k ∈ groups := (mem_map_rowsFor.1 hk).2
  have habsorbs : Memory.Absorbs groups (rows.map (·.1)) s.world.memory
      (rows.foldl Memory.add s.world.memory) := by
    refine Memory.absorbs_foldl_add _ (fun row hrow => (mem_rowsFor.1 hrow).2) ?_ ?_
    · exact fun row hrow => hsettled.key_eq (hgroup (List.mem_map_of_mem hrow))
    · exact pairwise_rowsFor _ _
  refine ⟨_, _, _, full, hrun, hscan, ?_, ?_, ?_, habsorbs.kept⟩
  · exact List.pairwise_map.2 (pairwise_rowsFor_of (pairwise_lt_toList _))
  · exact fun k => mem_map_rowsFor.trans (selected_iff hsettled)
  · refine fun k hk => ⟨?_, habsorbs.gainsUnder hk⟩
    rw [habsorbs.added k hk, hfull.added k (Std.ExtTreeMap.mem_keys.2 (hgroup hk))]

/-! ### A jar with a line of classes -/

/-- Three classes, each of which extends the one before it. -/
def lineJar : List ArchiveEntry :=
  [⟨"a/B.class", .bytes (nativeSpec "a/B").encode⟩,
    ⟨"c/D.class", .bytes { nativeSpec "c/D" with superclass := "a/B" }.encode⟩,
    ⟨"e/F.class", .bytes { nativeSpec "e/F" with superclass := "c/D" }.encode⟩]

def lineClasses : List ClassFile :=
  [nativeClass "a/B", { nativeClass "c/D" with superclass := some "a/B" },
    { nativeClass "e/F" with superclass := some "c/D" }]

def lineFiles : FileTree :=
  let nodes : Std.ExtTreeMap Location Node := ∅
  ⟨nodes.insert ["a.jar"] (.file (.ofEntries lineJar)), []⟩

/-- The class in the middle is known from before. -/
def lineSession : Session := { world := ⟨lineFiles, (∅ : Memory).insert "c.D" ∅⟩ }

theorem classes_lineFiles : (jarAt "a.jar").classes lineFiles = .ok lineClasses := by
  have hnode : lineFiles.nodes[["a.jar"]]? = some (.file (.ofEntries lineJar)) := by
    simp [lineFiles]
  have hjar : (Archive.jarClasses lineJar).toOption = some lineClasses := by decide +kernel
  have hsorted : (lineClasses.mergeSort fun a b => a.name ≤ b.name) = lineClasses :=
    List.mergeSort_of_pairwise (by decide +kernel)
  refine (ClasspathEntry.load_eq_ok (e := jarAt "a.jar") ?_).2
  rw [jarAt, ClasspathIndex.load_jar (by decide +kernel) (by decide +kernel) (by decide +kernel)
    hnode]
  cases hcs : Archive.jarClasses lineJar with
  | error cause => simp [hcs, Except.toOption] at hjar
  | ok cs =>
    obtain rfl : cs = lineClasses := by simpa [hcs, Except.toOption] using hjar
    rw [Except.map, hsorted]

/-- A class, asked for with its slashes, is written with the class at the other end of the line. -/
theorem scanClasses_selects_line :
    (jarAt "a.jar").classes lineFiles = .ok lineClasses ∧ KeysSettled lineClasses ∧
    ∃ after full,
      scanClasses (inMemory {}) (jarAt "a.jar") ["a/B"] true lineSession =
        (.ok ["a.B", "e.F"], lineSession.scanned (jarAt "a.jar") after) ∧
      (scan (inMemory {}) (jarAt "a.jar") lineSession).2 =
        lineSession.scanned (jarAt "a.jar") full ∧
      after["a.B"]? = full["a.B"]? ∧ after["e.F"]? = full["e.F"]? ∧ after["c.D"]? = some ∅ := by
  have hsettled : KeysSettled lineClasses := by
    unfold KeysSettled
    decide +kernel
  obtain ⟨keys, after, all, full, hrun, hscan, hordered, hkeys, hfull, hkept⟩ :=
    scanClasses_selects {} (jarAt "a.jar") lineSession lineClasses classes_lineFiles hsettled
      ["a/B"] true
  have hdefined (k : String) :
      (∃ c ∈ lineClasses, Cache.key c.name = k) ↔ k = "a.B" ∨ k = "c.D" ∨ k = "e.F" := by
    have hnames : lineClasses.map (fun c => Cache.key c.name) = ["a.B", "c.D", "e.F"] := by
      decide +kernel
    rw [← List.mem_map, hnames]
    simp
  have hextends : Extends lineClasses "e.F" "c.D" ∧ Extends lineClasses "c.D" "a.B" := by
    unfold Extends
    decide +kernel
  have hname : ClassName.ofQualified (ClassName.toBinary "a/B") = "a.B" := by decide +kernel
  have hkey : Cache.key "a/B" = "a.B" ∧ Cache.key "e.F" = "e.F" := by decide +kernel
  have hselected (k : String) : Selected lineClasses ["a/B"] true lineSession.world.memory k ↔
      k = "a.B" ∨ k = "e.F" := by
    constructor
    · rintro ⟨hk, hwanted⟩
      rcases (hdefined k).1 hk with rfl | rfl | rfl
      · exact .inl rfl
      · -- The key is there already, and the class was not asked for.
        simp [hkey, lineSession] at hwanted
      · exact .inr rfl
    · rintro (rfl | rfl)
      · exact ⟨(hdefined _).2 (.inl rfl), .inl ⟨"a/B", List.mem_singleton_self _, hkey.1⟩⟩
      · refine ⟨(hdefined _).2 (.inr (.inr rfl)), .inr ⟨rfl, by simp [lineSession], "a/B",
          List.mem_singleton_self _, "e.F", .inr ?_, hkey.2⟩⟩
        rw [hname]
        exact .tail (.single hextends.1) hextends.2
  obtain rfl : keys = ["a.B", "e.F"] :=
    eq_of_pairwise_lt hordered (by decide) fun k => by simp [hkeys, hselected]
  refine ⟨classes_lineFiles, hsettled, after, full, hrun, by rw [hscan], (hfull _ (by simp)).1,
    (hfull _ (by simp)).1, ?_⟩
  rw [hkept _ (by decide)]
  simp [lineSession]

end Analysis

end JvmThrows
