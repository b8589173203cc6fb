import JvmThrows.Proofs.QuestionOrder

/-!
# A second session

What a session has kept is enough to answer its questions again. The reason is that memory only
grows: a scan writes under keys that are not kept, and what is kept stays as it is (`Grows`). So an
answer, once the keys of all its targets are kept (`Covers`), can be read from the memory of any
later time (`answerFrom`), also by a resolver that knows nothing, and without any scan
(`second_session_eq`). This does not ask that containers offer different keys, nor that memory was
empty at first, only that the key of each class is its own key: under a key that is not, a scan
would write to what another one has kept.
-/

namespace JvmThrows

/-! ### Memory that grows -/

/-- All that is kept stays as it is. -/
def Memory.Grows (memory memory' : Memory) : Prop := ∀ k ∈ memory, memory'[k]? = memory[k]?

namespace Memory.Grows

variable {memory memory' memory'' : Memory}

theorem refl (memory : Memory) : memory.Grows memory := fun _ _ => rfl

theorem mem (h : memory.Grows memory') {k : String} (hk : k ∈ memory) : k ∈ memory' := by
  rw [Std.ExtTreeMap.mem_iff_isSome_getElem?] at hk ⊢
  rwa [h k (Std.ExtTreeMap.mem_iff_isSome_getElem?.2 hk)]

theorem trans (h : memory.Grows memory') (h' : memory'.Grows memory'') : memory.Grows memory'' :=
  fun k hk => (h' k (h.mem hk)).trans (h k hk)

theorem exceptionsOf_eq (h : memory.Grows memory') {m : MethodId}
    (hm : Cache.key m.owner ∈ memory) : memory'.exceptionsOf m = memory.exceptionsOf m := by
  rw [exceptionsOf, exceptionsOf, h _ hm]

end Memory.Grows

namespace Analysis

section Defs

variable (index : ClasspathIndex) (memory : Memory)

/-- The answer to a question that what is kept gives. -/
def answerFrom (m : MethodId) : Eventually (Option Exceptions) :=
  unionFor index memory.exceptionsOf m

/-- The keys of all targets of a call are kept. -/
def Covers (m : MethodId) : Prop :=
  ∀ targets, index.targets? m = some (some targets) → ∀ t ∈ targets, Cache.key t.owner ∈ memory

end Defs

section Covered

variable {index : ClasspathIndex} {memory memory' : Memory} {m : MethodId}

theorem Covers.grows (h : Covers index memory m) (hgrows : memory.Grows memory') :
    Covers index memory' m :=
  fun targets htargets t ht => hgrows.mem (h targets htargets t ht)

/-- An answer that is covered stays the same. -/
theorem Covers.answerFrom_eq (h : Covers index memory m) (hgrows : memory.Grows memory') :
    answerFrom index memory' m = answerFrom index memory m :=
  unionFor_congr fun targets htargets t ht => hgrows.exceptionsOf_eq (h targets htargets t ht)

end Covered

/-! ### Scans -/

/-- All that a resolver counts on is kept. -/
structure Stocked (files : FileTree) (classpath : List ClasspathEntry) (r : Resolver)
    (memory : Memory) : Prop where
  index_eq : r.index = ClasspathIndex.build files classpath
  /-- The keys of the classes of a container that was scanned are kept. -/
  kept {e : ClasspathEntry} {n : String} :
    r.HasScanned e → r.index.containerOf? n = some e → Cache.key n ∈ memory
  ensured_kept {k : String} : k ∈ r.ensured → Cache.key k ∈ memory

/-- The keys that a container is scanned for are new, if they have not been written since. -/
def Awaits (r : Resolver) (memory : Memory) (wanted : List String) : Prop :=
  ∀ k ∈ wanted, Cache.key k = k ∧ (k ∈ r.ensured ∨ k ∉ memory)

section Scan

variable {files : FileTree} {sources : Sources} {classpath : List ClasspathEntry} {r : Resolver}
  {memory : Memory} {s : Session} {e : ClasspathEntry} {wanted : List String}
  {rows : List (String × Entries)}

/-- A scan writes under new keys only. -/
theorem Stocked.not_mem_of_mem_rows (h : Stocked files classpath r memory)
    (he : e ∈ r.index.containers) (hwanted : Awaits r memory wanted) {row : String × Entries}
    (hrow : row ∈ rowsFor (groupsOf files sources e) (keysFor r memory e wanted)) :
    Cache.key row.1 = row.1 ∧ row.1 ∉ memory := by
  refine ⟨key_of_mem_rowsFor h.index_eq he hrow, ?_⟩
  obtain ⟨-, n, -, hk, hnew, hwant | hout⟩ := (mem_rowsFor_keysFor h.index_eq he).1 hrow
  · obtain ⟨hkey, hcases⟩ := hwanted _ hwant
    -- A wanted key that is kept was ensured, and ensured keys are not written again.
    rw [← hk, hkey]
    exact hcases.resolve_left hnew
  · exact hout

theorem Stocked.grows_scan (h : Stocked files classpath r memory) (he : e ∈ r.index.containers)
    (hwanted : Awaits r memory wanted)
    (hrows : rows = rowsFor (groupsOf files sources e) (keysFor r memory e wanted)) :
    memory.Grows (rows.foldl Memory.add memory) := by
  intro k hk
  refine Memory.getElem?_foldl_add_of_ne fun row hrow heq => ?_
  obtain ⟨hkey, hnew⟩ := h.not_mem_of_mem_rows he hwanted (hrows ▸ hrow)
  exact hnew (by rwa [← hkey, heq])

/-- The scan of a container that was perhaps scanned before. -/
theorem Stocked.scan (hkeys : ∀ n ∈ (ClasspathIndex.build files classpath).classes,
      Cache.key (Cache.key n) = Cache.key n)
    (h : Stocked files classpath r memory) (he : e ∈ r.index.containers)
    (hwanted : Awaits r memory wanted)
    (hrows : rows = rowsFor (groupsOf files sources e) (keysFor r memory e wanted)) :
    Stocked files classpath (r.noteScan e rows) (rows.foldl Memory.add memory) where
  index_eq := h.index_eq
  kept {x n} hx hn := by
    have hgrows := h.grows_scan he hwanted hrows
    rcases (hasScanned_noteScan_iff h.index_eq he).1 hx with rfl | hx
    · -- In the container just scanned, a key is old or among the rows written now.
      by_cases hk : Cache.key n ∈ memory
      · exact hgrows.mem hk
      · have hkey : Cache.key (Cache.key n) = Cache.key n :=
          hkeys n (h.index_eq ▸ mem_classes_of_containerOf? hn)
        obtain ⟨hgroup, -⟩ := offers_key sources h.index_eq hn hkey
        obtain ⟨entries, hentries⟩ :=
          Option.isSome_iff_exists.1 (Std.ExtTreeMap.mem_iff_isSome_getElem?.1 hgroup)
        have hrow : (Cache.key n, entries) ∈ rows := by
          rw [hrows]
          refine (mem_rowsFor_keysFor h.index_eq he).2 ⟨hentries, n, hn, hkey, ?_, .inr hk⟩
          exact fun hensured => hk (hkey ▸ h.ensured_kept hensured)
        exact Memory.mem_foldl_add_iff.2 (.inl ⟨_, hrow, hkey⟩)
    · -- Other containers were scanned before.
      exact hgrows.mem (h.kept hx hn)
  ensured_kept {k} hk := by
    rcases mem_ensured_noteScan_iff.1 hk with ⟨row, hrow, rfl⟩ | hk
    · exact Memory.mem_foldl_add_iff.2 (.inl ⟨row, hrow, rfl⟩)
    · exact (h.grows_scan he hwanted hrows).mem (h.ensured_kept hk)

/-- What is written is ensured, so that it is not written again. -/
theorem Awaits.scan {wanted' : List String} (hwanted' : Awaits r memory wanted')
    (hrows : ∀ row ∈ rows, Cache.key row.1 = row.1) :
    Awaits (r.noteScan e rows) (rows.foldl Memory.add memory) wanted' := by
  intro k hk
  obtain ⟨hkey, hcases⟩ := hwanted' k hk
  refine ⟨hkey, ?_⟩
  by_cases hmem : k ∈ rows.foldl Memory.add memory
  · refine .inl (mem_ensured_noteScan_iff.2 ?_)
    rcases Memory.mem_foldl_add_iff.1 hmem with ⟨row, hrow, hrowkey⟩ | hold
    · exact .inl ⟨row, hrow, by rw [← hrows row hrow, hrowkey]⟩
    · -- Kept before the scan, so that it was ensured already.
      exact .inr (hcases.resolve_right fun hnew => hnew hold)
  · exact .inr hmem

/-- What scanning does to a session: what is kept stays, and more containers were scanned. -/
structure Restocked (files : FileTree) (classpath : List ClasspathEntry) (r : Resolver)
    (s : Session) (r' : Resolver) (s' : Session) : Prop where
  stocked : Stocked files classpath r' s'.world.memory
  files_eq : s'.world.files = files
  known_eq : r'.known = r.known
  grows : s.world.memory.Grows s'.world.memory
  scanned_old {e : ClasspathEntry} : r.HasScanned e → r'.HasScanned e

theorem Restocked.trans {r1 r2 : Resolver} {s1 s2 : Session}
    (h : Restocked files classpath r s r1 s1) (h' : Restocked files classpath r1 s1 r2 s2) :
    Restocked files classpath r s r2 s2 where
  stocked := h'.stocked
  files_eq := h'.files_eq
  known_eq := h'.known_eq.trans h.known_eq
  grows := h.grows.trans h'.grows
  scanned_old hx := h'.scanned_old (h.scanned_old hx)

section Keys

variable (sources : Sources) (hkeys : ∀ n ∈ (ClasspathIndex.build files classpath).classes,
  Cache.key (Cache.key n) = Cache.key n)
include hkeys

theorem Stocked.scanMissing_inMemory (h : Stocked files classpath r s.world.memory)
    (hfiles : s.world.files = files) (he : e ∈ r.index.containers)
    (hwanted : Awaits r s.world.memory wanted) :
    ∃ r' s', scanMissing (inMemory sources) r e wanted s = (r', s') ∧
      Restocked files classpath r s r' s' ∧ r'.HasScanned e ∧
      ∀ wanted', Awaits r s.world.memory wanted' → Awaits r' s'.world.memory wanted' := by
  obtain ⟨classes, hclasses⟩ : ∃ classes, e.classes files = .ok classes := by
    have hbuilt := he
    rw [h.index_eq] at hbuilt
    obtain ⟨classes, hload⟩ := ClasspathIndex.exists_loaded_of_mem_containers hbuilt
    exact ⟨classes, (ClasspathIndex.load_of_mem_loaded hload).2⟩
  have hrun := Analysis.scanMissing_inMemory sources r wanted (hfiles ▸ hclasses)
  have hrows : rowsFor (Groups.ofClasses sources classes) (keysFor r s.world.memory e wanted) =
      rowsFor (groupsOf files sources e) (keysFor r s.world.memory e wanted) := by
    rw [groupsOf_eq hclasses]
  have hscanned {x} : (r.noteScan e (rowsFor (Groups.ofClasses sources classes)
      (keysFor r s.world.memory e wanted))).HasScanned x ↔ x = e ∨ r.HasScanned x :=
    hasScanned_noteScan_iff h.index_eq he
  refine ⟨_, _, hrun, ⟨h.scan hkeys he hwanted hrows, hfiles, rfl, h.grows_scan he hwanted hrows,
    fun hx => hscanned.2 (.inr hx)⟩, hscanned.2 (.inl rfl), fun wanted' hwanted' => ?_⟩
  refine hwanted'.scan fun row hrow => ?_
  exact (h.not_mem_of_mem_rows he hwanted (hrows ▸ hrow)).1

theorem Stocked.scanAllMissing_inMemory (h : Stocked files classpath r s.world.memory)
    (hfiles : s.world.files = files) (missing : List (ClasspathEntry × List String))
    (hmissing : ∀ a ∈ missing, a.1 ∈ r.index.containers ∧ Awaits r s.world.memory a.2) :
    ∃ r' s', scanAllMissing (inMemory sources) r missing s = (r', s') ∧
      Restocked files classpath r s r' s' ∧ ∀ a ∈ missing, r'.HasScanned a.1 := by
  induction missing generalizing r s with
  | nil => exact ⟨r, s, rfl, ⟨h, hfiles, rfl, .refl _, id⟩, nofun⟩
  | cons a missing ih =>
    obtain ⟨⟨ha, hawaits⟩, hrest⟩ := List.forall_mem_cons.1 hmissing
    obtain ⟨r1, s1, hrun1, h1, hscanned1, hawaits1⟩ :=
      h.scanMissing_inMemory sources hkeys hfiles ha hawaits
    have hindex : r1.index = r.index := h1.stocked.index_eq.trans h.index_eq.symm
    obtain ⟨r2, s2, hrun2, h2, hscanned2⟩ := ih h1.stocked h1.files_eq fun b hb =>
      ⟨hindex ▸ (hrest b hb).1, hawaits1 b.2 (hrest b hb).2⟩
    refine ⟨r2, s2, by rw [scanAllMissing, bind_eq hrun1, hrun2], h1.trans h2, ?_⟩
    exact List.forall_mem_cons.2 ⟨h2.scanned_old hscanned1, hscanned2⟩

end Keys

/-- What holds of the key of each target that is not kept holds of all keys that containers are
scanned for. -/
theorem forall_wanted_findMissing {P : String → Prop} {missing : Missing}
    {targets : List MethodId}
    (htargets : ∀ t ∈ targets, Cache.key (Cache.key t.owner) ∉ s.world.memory →
      P (Cache.key t.owner))
    (hmissing : ∀ (e : ClasspathEntry) (wanted : List String), missing[e]? = some wanted →
      ∀ k ∈ wanted, P k) (e : ClasspathEntry) (wanted : List String)
    (h : (findMissing (inMemory sources) r missing targets s).1.2[e]? = some wanted) :
    ∀ k ∈ wanted, P k := by
  induction targets generalizing r missing with
  | nil => exact hmissing e wanted h
  | cons t targets ih =>
    obtain ⟨htarget, hrest⟩ := List.forall_mem_cons.1 htargets
    rw [findMissing] at h
    split at h
    · exact ih hrest hmissing h
    · rw [bind_eq (isCached_inMemory _)] at h
      split at h
      · exact ih hrest hmissing h
      · rename_i hcached
        -- Only a key that is not kept is added to those that are wanted.
        refine ih hrest (fun e wanted hwanted => ?_) h
        unfold missingOf at hwanted
        split at hwanted
        · exact hmissing e wanted hwanted
        · rename_i container hc
          split at hwanted
          · exact hmissing e wanted hwanted
          · -- The container keeps what was wanted from it before.
            rw [Std.ExtTreeMap.getElem?_insert] at hwanted
            split at hwanted
            · cases hwanted
              intro k hk
              rcases List.mem_append.1 hk with hold | hnew
              · cases hget : missing[container]? with
                | none => simp [hget] at hold
                | some old => exact hmissing container old hget k (by simpa [hget] using hold)
              · rw [List.mem_singleton.1 hnew]
                exact htarget (by simpa using hcached)
            · exact hmissing e wanted hwanted

end Scan

/-! ### Questions -/

section Defs

/-- The answers that a resolver knows can be read from what is kept. -/
def Remembers (r : Resolver) (memory : Memory) : Prop :=
  ∀ m exceptions, r.known[m]? = some exceptions →
    Covers r.index memory m ∧ answerFrom r.index memory m = some (some exceptions)

/-- A session that has indexed its class path and keeps all that its resolver counts on. -/
structure Serving (files : FileTree) (classpath : List ClasspathEntry) (s : Session) : Prop where
  files_eq : s.world.files = files
  resolver : ∃ r, s.resolver = some r ∧ Stocked files classpath r s.world.memory ∧
    Remembers r s.world.memory

end Defs

section Remembers

variable {r r' : Resolver} {memory memory' : Memory}

theorem Remembers.grows (h : Remembers r memory) (hgrows : memory.Grows memory') :
    Remembers r memory' := by
  intro m exceptions hm
  obtain ⟨hcovers, hanswer⟩ := h m exceptions hm
  exact ⟨hcovers.grows hgrows, by rw [hcovers.answerFrom_eq hgrows, hanswer]⟩

theorem Remembers.learn (h : Remembers r memory) (hindex : r'.index = r.index)
    (hknown : r'.known = r.known) {m : MethodId} {exceptions : Exceptions}
    (hcovers : Covers r.index memory m)
    (hanswer : answerFrom r.index memory m = some (some exceptions)) :
    Remembers (r'.learn m exceptions) memory := by
  intro m' exceptions' hm'
  change Covers r'.index memory m' ∧ answerFrom r'.index memory m' = some (some exceptions')
  rw [Resolver.learn, Std.ExtTreeMap.getElem?_insert, hknown] at hm'
  rw [hindex]
  split at hm'
  · rename_i heq
    obtain rfl := Std.compare_eq_iff_eq.1 heq
    exact ⟨hcovers, hanswer.trans (congrArg some hm')⟩
  · exact h m' exceptions' hm'

end Remembers

section Questions

variable {files : FileTree} {classpath : List ClasspathEntry} {r : Resolver} {s : Session}
  {m : MethodId} (sources : Sources)
  (hkeys : ∀ n ∈ (ClasspathIndex.build files classpath).classes,
    Cache.key (Cache.key n) = Cache.key n)
include hkeys

/-- The keys that containers are scanned for are new. -/
theorem awaits_of_findMissing {ensured' : Std.ExtTreeSet String} {missing : Missing}
    {targets : List MethodId} (hindex : r.index = ClasspathIndex.build files classpath)
    (htargets : ∀ t ∈ targets, ∃ e, r.index.containerOf? t.owner = some e)
    (hsearch : findMissing (inMemory sources) r ∅ targets s =
      (({ r with ensured := ensured' }, missing), s))
    {a : ClasspathEntry × List String} (ha : a ∈ missing.toList) :
    Awaits { r with ensured := ensured' } s.world.memory a.2 := by
  have hwanted : (findMissing (inMemory sources) r ∅ targets s).1.2[a.1]? = some a.2 := by
    rw [hsearch]
    exact (Std.ExtTreeMap.mem_toList_iff_getKey?_eq_some_and_getElem?_eq_some.1 ha).2
  refine forall_wanted_findMissing
    (P := fun k => Cache.key k = k ∧ (k ∈ ensured' ∨ k ∉ s.world.memory))
    (fun t ht hnew => ?_) ?_ a.1 a.2 hwanted
  · obtain ⟨e, hc⟩ := htargets t ht
    have hkey := hkeys _ (hindex ▸ mem_classes_of_containerOf? hc)
    rw [hkey] at hnew
    exact ⟨hkey, .inr hnew⟩
  · simp

/-- Seeing to results: afterwards the keys of all targets are kept, and if they were, nothing is
done. -/
theorem Stocked.ensureCached_inMemory (h : Stocked files classpath r s.world.memory)
    (hfiles : s.world.files = files) (targets : List MethodId)
    (htargets : ∀ t ∈ targets, ∃ e, r.index.containerOf? t.owner = some e) :
    ∃ r' s', ensureCached (inMemory sources) r targets s = (r', s') ∧
      Restocked files classpath r s r' s' ∧
      (∀ t ∈ targets, Cache.key t.owner ∈ s'.world.memory) ∧
      ((∀ t ∈ targets, Cache.key t.owner ∈ s.world.memory) → s' = s) := by
  have hkey {t : MethodId} (ht : t ∈ targets) :
      Cache.key (Cache.key t.owner) = Cache.key t.owner := by
    obtain ⟨e, hc⟩ := htargets t ht
    exact hkeys _ (h.index_eq ▸ mem_classes_of_containerOf? hc)
  obtain ⟨ensured', missing, hsearch, hs⟩ := findMissing_inMemory sources s r ∅ targets
  have hstart : Stocked files classpath { r with ensured := ensured' } s.world.memory :=
    ⟨h.index_eq, h.kept, fun hk => (hs.ensured_kept hk).elim h.ensured_kept id⟩
  have hall : ∀ a ∈ missing.toList, a.1 ∈ r.index.containers ∧
      Awaits { r with ensured := ensured' } s.world.memory a.2 := fun a ha => by
    obtain ⟨t, -, hc, -⟩ := hs.exists_target ha
    exact ⟨mem_containers_of_containerOf? h.index_eq hc,
      awaits_of_findMissing sources hkeys h.index_eq htargets hsearch ha⟩
  obtain ⟨r', s', hrun, hrestocked, hscanned⟩ :=
    hstart.scanAllMissing_inMemory sources hkeys hfiles missing.toList hall
  have hindex : r'.index = r.index := hrestocked.stocked.index_eq.trans h.index_eq.symm
  refine ⟨r', s', by rw [ensureCached, bind_eq hsearch]; exact hrun,
    ⟨hrestocked.stocked, hrestocked.files_eq, hrestocked.known_eq, hrestocked.grows,
      hrestocked.scanned_old⟩, fun t ht => ?_, fun hcovered => ?_⟩
  · obtain ⟨e, hc⟩ := htargets t ht
    have hkept (hscan : r'.HasScanned e) : Cache.key t.owner ∈ s'.world.memory :=
      hrestocked.stocked.kept hscan (hindex ▸ hc)
    rcases hs.found ht hc with hk | hold | hnew
    · -- Found without a scan: ensured before, or kept.
      have hmem := (hs.ensured_kept hk).elim h.ensured_kept id
      rw [hkey ht] at hmem
      exact hrestocked.grows.mem hmem
    · exact hkept (hrestocked.scanned_old ⟨mem_containers_of_containerOf? h.index_eq hc, hold⟩)
    · -- Missing, so that its container is scanned now.
      obtain ⟨a, hmem, heq⟩ := exists_mem_toList hnew
      obtain ⟨t', -, hc', -⟩ := hs.exists_target hmem
      have he := mem_containers_of_containerOf? h.index_eq hc
      have he' := mem_containers_of_containerOf? h.index_eq hc'
      rw [h.index_eq] at he he'
      have hee := (ClasspathIndex.compare_eq_iff_of_mem he he').1 heq
      exact hkept (hee ▸ hscanned a hmem)
  · -- With all keys kept nothing is missing, and no container is read.
    have hnone : missing.toList = [] := by
      refine List.eq_nil_iff_forall_not_mem.2 fun a ha => ?_
      obtain ⟨t, ht, -, -, hnew⟩ := hs.exists_target ha
      rw [hkey ht] at hnew
      exact hnew (hcovered t ht)
    have hend : scanAllMissing (inMemory sources) { r with ensured := ensured' } [] s =
        ({ r with ensured := ensured' }, s) := rfl
    rw [hnone, hend] at hrun
    exact (Prod.mk.inj hrun).2.symm

/-- What a session does while it answers questions: the keys of all their targets are kept, and if
they were before, only the resolver learns. -/
structure Served (files : FileTree) (classpath : List ClasspathEntry) (ms : List MethodId)
    (s s' : Session) : Prop where
  serving : Serving files classpath s'
  grows : s.world.memory.Grows s'.world.memory
  covers : ∀ m ∈ ms, Covers (ClasspathIndex.build files classpath) s'.world.memory m
  idle : (∀ m ∈ ms, Covers (ClasspathIndex.build files classpath) s.world.memory m) →
    s'.world = s.world ∧ s'.reads = s.reads

omit hkeys in
theorem Served.trans {ms ms' : List MethodId} {s' s'' : Session}
    (h : Served files classpath ms s s') (h' : Served files classpath ms' s' s'') :
    Served files classpath (ms ++ ms') s s'' where
  serving := h'.serving
  grows := h.grows.trans h'.grows
  covers m hm := by
    rcases List.mem_append.1 hm with hm | hm
    · exact (h.covers m hm).grows h'.grows
    · exact h'.covers m hm
  idle hcovers := by
    obtain ⟨hleft, hright⟩ := List.forall_mem_append.1 hcovers
    obtain ⟨hworld, hreads⟩ := h.idle hleft
    obtain ⟨hworld', hreads'⟩ := h'.idle (by rwa [hworld])
    exact ⟨hworld'.trans hworld, hreads'.trans hreads⟩

/-- A question that is new. -/
theorem Serving.resolve_of_targets (hfiles : s.world.files = files)
    (hr : s.resolver = some r) (hstocked : Stocked files classpath r s.world.memory)
    (hknown : Remembers r s.world.memory) (hnew : r.known[m]? = none)
    {targets : Std.ExtTreeSet MethodId} (htargets : r.index.targets? m = some (some targets)) :
    ∃ a s', Inquiry.resolve (inMemory sources) m s = some (a, s') ∧
      answerFrom r.index s'.world.memory m = some a ∧ Served files classpath [m] s s' := by
  have hcontainers : ∀ t ∈ targets.toList, ∃ e, r.index.containerOf? t.owner = some e := by
    intro t ht
    rw [hstocked.index_eq] at htargets ⊢
    obtain ⟨e, -, hc, -⟩ := containerOf?_of_mem_targets htargets (Std.ExtTreeSet.mem_toList.1 ht)
    exact ⟨e, hc⟩
  obtain ⟨r', s', hensure, hrestocked, hkept, hidle⟩ :=
    hstocked.ensureCached_inMemory sources hkeys hfiles targets.toList hcontainers
  obtain ⟨exceptions, hunion, hmem⟩ := unionOf_inMemory sources s' ∅ targets.toList
  have hanswer : answerFrom r.index s'.world.memory m = some (some exceptions) :=
    unionFor_eq_some htargets fun x => by simp [hmem]
  have hcovers : Covers r.index s'.world.memory m := by
    intro targets' htargets' t ht
    obtain rfl := Option.some.inj (Option.some.inj (htargets.symm.trans htargets'))
    exact hkept t (Std.ExtTreeSet.mem_toList.2 ht)
  have hindex : r'.index = r.index := hrestocked.stocked.index_eq.trans hstocked.index_eq.symm
  refine ⟨some exceptions, s'.withResolver (r'.learn m exceptions), ?_, hanswer,
    ⟨hrestocked.files_eq, _, rfl, ?_, ?_⟩, hrestocked.grows, ?_, fun hold => ?_⟩
  · rw [Analysis.resolve_of_targets hr hnew htargets, answer_of_ensured hensure hunion]
  · exact ⟨hrestocked.stocked.index_eq, hrestocked.stocked.kept, hrestocked.stocked.ensured_kept⟩
  · exact (hknown.grows hrestocked.grows).learn hindex hrestocked.known_eq hcovers hanswer
  · rw [← hstocked.index_eq]
    exact List.forall_mem_singleton.2 hcovers
  · rw [← hstocked.index_eq] at hold
    obtain rfl := hidle fun t ht => hold m (List.mem_singleton_self m) targets htargets t
      (Std.ExtTreeSet.mem_toList.1 ht)
    exact ⟨rfl, rfl⟩

/-- One question: if it is answered at all, then from what is then kept. -/
theorem Serving.resolve (h : Serving files classpath s) {a : Option Exceptions} {s' : Session}
    (hrun : Inquiry.resolve (inMemory sources) m s = some (a, s')) :
    answerFrom (ClasspathIndex.build files classpath) s'.world.memory m = some a ∧
      Served files classpath [m] s s' := by
  obtain ⟨r, hr, hstocked, hknown⟩ := h.resolver
  have hstay (hcovers : Covers r.index s.world.memory m) : Served files classpath [m] s s :=
    ⟨h, .refl _, List.forall_mem_singleton.2 (hstocked.index_eq ▸ hcovers), fun _ => ⟨rfl, rfl⟩⟩
  rw [← hstocked.index_eq]
  cases resolves_of_eq_some hr hrun with
  | known hm =>
    obtain ⟨hcovers, hanswer⟩ := hknown m _ hm
    exact ⟨hanswer, hstay hcovers⟩
  | undeclared _ hfound =>
    refine ⟨by rw [answerFrom, unionFor, hfound]; rfl, hstay fun targets htargets => ?_⟩
    simp [hfound] at htargets
  | union hm hfound =>
    obtain ⟨a', s'', hrun', hanswer, hserved⟩ :=
      resolve_of_targets sources hkeys h.files_eq hr hstocked hknown hm hfound
    rw [hrun'] at hrun
    cases hrun
    exact ⟨hanswer, hserved⟩

/-- Any number of questions: each answer can be read from what is kept at the end. -/
theorem Serving.mapM_resolve (h : Serving files classpath s) {ms : List MethodId}
    {answered : List (Option Exceptions)} {s' : Session}
    (hrun : (ms.mapM (Inquiry.resolve (inMemory sources)) : Inquiry _) s = some (answered, s')) :
    ms.mapM (answerFrom (ClasspathIndex.build files classpath) s'.world.memory) = some answered ∧
      Served files classpath ms s s' := by
  induction ms generalizing s answered with
  | nil =>
    cases hrun
    exact ⟨rfl, h, .refl _, nofun, fun _ => ⟨rfl, rfl⟩⟩
  | cons m ms ih =>
    rw [List.mapM_cons] at hrun
    obtain ⟨a, s1, hrun1, hrun⟩ := bind_eq_some.1 hrun
    obtain ⟨rest, s2, hrun2, hrun⟩ := bind_eq_some.1 hrun
    -- Later questions may add keys, which leaves the answer to this one as it was.
    cases hrun
    obtain ⟨hanswer, h1⟩ := h.resolve sources hkeys hrun1
    obtain ⟨hanswers, h2⟩ := ih h1.serving hrun2
    refine ⟨?_, h1.trans h2⟩
    rw [← (h1.covers m (List.mem_singleton_self m)).answerFrom_eq h2.grows] at hanswer
    rw [mapM_eq_some_iff] at hanswers ⊢
    rw [List.map_cons, List.map_cons, hanswer, hanswers]

theorem session_eq {memory : Memory} {ms : List MethodId} {answered : List (Option Exceptions)}
    {s' : Session} (hrun : session files sources classpath memory ms = some (answered, s')) :
    ms.mapM (answerFrom (ClasspathIndex.build files classpath) s'.world.memory) = some answered ∧
      Served files classpath ms (started files classpath memory) s' := by
  have hstart : Serving files classpath (started files classpath memory) := by
    refine ⟨rfl, _, rfl, ⟨rfl, fun h => absurd h.2 (by simp), fun h => absurd h (by simp)⟩, ?_⟩
    intro m exceptions hm
    simp at hm
  exact hstart.mapM_resolve sources hkeys hrun

/-- **A second session answers from what the first one has kept.** Its questions may come in any
order and any number of times. The answers are those of the first session; no container is scanned
and nothing changes. The first session comes to an end if no class is a superclass of itself, and
whenever it does, so does the second one. -/
theorem second_session_eq (memory : Memory) (ms ms' : List MethodId) (hms : ∀ m ∈ ms', m ∈ ms) :
    ((ClasspathIndex.build files classpath).Acyclic →
      ∃ first, session files sources classpath memory ms = some first) ∧
    ∀ first, session files sources classpath memory ms = some first →
      let answer := answerFrom (ClasspathIndex.build files classpath) first.2.world.memory
      (∀ m ∈ ms, Covers (ClasspathIndex.build files classpath) first.2.world.memory m) ∧
      ms.mapM answer = some first.1 ∧
      ∃ second, session files sources classpath first.2.world.memory ms' = some second ∧
        ms'.mapM answer = some second.1 ∧
        second.2.scans = 0 ∧ second.2.world = first.2.world := by
  constructor
  · intro hacyclic
    obtain ⟨answered, s, hrun, -⟩ := exists_session hacyclic sources memory ms
    exact ⟨_, hrun⟩
  rintro ⟨answered, s⟩ hrun answer
  obtain ⟨hanswers, hserved⟩ := session_eq sources hkeys hrun
  -- The first session has looked for the targets of all questions, so the second one can.
  have hends : ∀ m ∈ ms', ((ClasspathIndex.build files classpath).targets? m).isSome = true := by
    intro m hm
    have hall := isSome_mapM_iff.1 (Option.isSome_iff_exists.2 ⟨_, hanswers⟩) m (hms m hm)
    rwa [answerFrom, isSome_unionFor] at hall
  have hstart : Indexed (ClasspathIndex.build files classpath)
      (started files classpath s.world.memory) := ⟨_, rfl, rfl⟩
  obtain ⟨answered', s', hrun', -⟩ := hstart.mapM_resolve (inMemory sources) hends
  rw [← session_eq_mapM] at hrun'
  obtain ⟨hanswers', hserved'⟩ := session_eq sources hkeys hrun'
  obtain ⟨hworld, hreads⟩ := hserved'.idle fun m hm => hserved.covers m (hms m hm)
  have hmemory : s'.world.memory = s.world.memory := by
    rw [hworld]
    rfl
  have hfiles : s.world = { files, memory := s.world.memory } := by
    rw [← hserved.serving.files_eq]
  rw [hmemory] at hanswers'
  exact ⟨hserved.covers, hanswers, (answered', s'), hrun', hanswers', congrArg List.length hreads,
    hworld.trans hfiles.symm⟩

end Questions

/-- Two jars share a key, and the second session asks in the opposite order. -/
theorem second_session_twoJars :
    let ms := [nativeMethod "a.B$C", nativeMethod "a.B"]
    (∀ n ∈ (ClasspathIndex.build (twoJars "a/B" "a/B$C") twoEntries).classes,
      Cache.key (Cache.key n) = Cache.key n) ∧
    Cache.key "a.B$C" = Cache.key "a.B" ∧
    ∃ first second, session (twoJars "a/B" "a/B$C") {} twoEntries ∅ ms = some first ∧
      session (twoJars "a/B" "a/B$C") {} twoEntries first.2.world.memory ms.reverse =
        some second ∧
      second.1 = first.1.reverse ∧ second.2.scans = 0 ∧ second.2.world = first.2.world := by
  have hfirst : Archive.jarClasses (nativeJar "a/B") = .ok [nativeClass "a/B"] :=
    jarClasses_nativeJar (by decide)
  have hsecond : Archive.jarClasses (nativeJar "a/B$C") = .ok [nativeClass "a/B$C"] :=
    jarClasses_nativeJar (by decide)
  have hkeys : ∀ n ∈ (ClasspathIndex.build (twoJars "a/B" "a/B$C") twoEntries).classes,
      Cache.key (Cache.key n) = Cache.key n := by
    intro n hn
    have hnames : ∀ n ∈ [ClassName.toBinary "a/B", ClassName.toBinary "a/B$C"],
        Cache.key (Cache.key n) = Cache.key n := by
      decide +kernel
    exact hnames n (name_of_mem_twoJars hfirst hsecond hn)
  intro ms
  obtain ⟨hends, hnext⟩ :=
    second_session_eq {} hkeys ∅ ms ms.reverse fun m hm => List.mem_reverse.1 hm
  obtain ⟨first, hrun⟩ :=
    hends (acyclic_twoJars hfirst hsecond (by decide +kernel) (by decide +kernel))
  obtain ⟨-, hanswers, second, hrun', hanswers', hscans, hworld⟩ := hnext first hrun
  refine ⟨hkeys, by decide +kernel, first, second, hrun, hrun', ?_, hscans, hworld⟩
  rw [mapM_eq_some_iff] at hanswers hanswers'
  rw [List.map_reverse, hanswers, ← List.map_reverse] at hanswers'
  exact (List.map_injective_iff.2 (Option.some_injective _) hanswers').symm

end Analysis

end JvmThrows
