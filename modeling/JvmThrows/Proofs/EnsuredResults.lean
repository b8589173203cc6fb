import JvmThrows.Proofs.ScanInvariant

/-!
# Seeing to results

Before it answers, a resolver looks for targets whose keys are not kept (`Searched`) and scans their
containers. `Consistent.ensureCached_inMemory` says what that comes to: afterwards the container of
each target was scanned or its key was kept before, no other containers were scanned, and memory and
notes still fit together.
-/

namespace JvmThrows

namespace Analysis

/-! ### The search -/

section Missing

variable {r : Resolver} {missing : Missing} {t : MethodId} {e : ClasspathEntry}

/-- The containers that are noted are old ones and that of the target, unless it was scanned. -/
theorem getKey?_missingOf (h : (missingOf r missing t).getKey? e = some e) :
    missing.getKey? e = some e ∨ r.index.containerOf? t.owner = some e ∧ e ∉ r.scanned := by
  unfold missingOf at h
  cases hc : r.index.containerOf? t.owner with
  | none => exact .inl (by simpa [hc] using h)
  | some c =>
    rw [hc] at h
    dsimp only at h
    split at h
    · exact .inl h
    · rename_i hscanned
      rw [Std.ExtTreeMap.getKey?_insert] at h
      split at h
      · -- Wanted now, and not scanned so far.
        obtain rfl := Option.some.inj h
        exact .inr ⟨rfl, by simpa using hscanned⟩
      · exact .inl h

theorem mem_missingOf_of_mem (h : e ∈ missing) : e ∈ missingOf r missing t := by
  unfold missingOf
  split
  · exact h
  · split
    · exact h
    · exact Std.ExtTreeMap.mem_insert.2 (.inr h)

theorem mem_missingOf (h : r.index.containerOf? t.owner = some e) (hnew : e ∉ r.scanned) :
    e ∈ missingOf r missing t := by
  simp [missingOf, h, hnew]

/-- The search for missing targets. -/
structure Searched (r : Resolver) (memory : Memory) (targets : List MethodId) (missing : Missing)
    (ensured' : Std.ExtTreeSet String) (missing' : Missing) : Prop where
  ensured_old {k : String} : k ∈ r.ensured → k ∈ ensured'
  ensured_kept {k : String} : k ∈ ensured' → k ∈ r.ensured ∨ Cache.key k ∈ memory
  missing_old {e : ClasspathEntry} : e ∈ missing → e ∈ missing'
  missing_found {e : ClasspathEntry} : missing'.getKey? e = some e → missing.getKey? e = some e ∨
    ∃ t ∈ targets, r.index.containerOf? t.owner = some e ∧ e ∉ r.scanned ∧
      Cache.key (Cache.key t.owner) ∉ memory
  found {t : MethodId} {e : ClasspathEntry} : t ∈ targets →
    r.index.containerOf? t.owner = some e →
    Cache.key t.owner ∈ ensured' ∨ e ∈ r.scanned ∨ e ∈ missing'

section

variable {memory : Memory} {targets : List MethodId} {missing' missing'' : Missing}
  {ensured' ensured'' : Std.ExtTreeSet String}

theorem Searched.cons (h : Searched r memory [t] missing ensured' missing')
    (hrest : Searched { r with ensured := ensured' } memory targets missing' ensured'' missing'') :
    Searched r memory (t :: targets) missing ensured'' missing'' where
  ensured_old hk := hrest.ensured_old (h.ensured_old hk)
  ensured_kept hk := (hrest.ensured_kept hk).elim h.ensured_kept .inr
  missing_old he := hrest.missing_old (h.missing_old he)
  missing_found he := by
    rcases hrest.missing_found he with he | ⟨t', ht', h'⟩
    · refine (h.missing_found he).imp_right fun ⟨t', ht', h'⟩ => ?_
      exact ⟨t', List.mem_cons.2 (.inl (List.mem_singleton.1 ht')), h'⟩
    · exact .inr ⟨t', List.mem_cons_of_mem t ht', h'⟩
  found ht hc := by
    rcases List.mem_cons.1 ht with rfl | ht
    · rcases h.found (List.mem_singleton_self _) hc with hk | hscanned | hmissing
      · exact .inl (hrest.ensured_old hk)
      · exact .inr (.inl hscanned)
      · exact .inr (.inr (hrest.missing_old hmissing))
    · exact hrest.found ht hc

theorem searched_of_ensured (h : Cache.key t.owner ∈ r.ensured) :
    Searched r memory [t] missing r.ensured missing :=
  ⟨id, .inl, id, .inl, fun ht _ => .inl (List.mem_singleton.1 ht ▸ h)⟩

theorem searched_of_cached (h : Cache.key (Cache.key t.owner) ∈ memory) :
    Searched r memory [t] missing (r.ensured.insert (Cache.key t.owner)) missing where
  ensured_old hk := Std.ExtTreeSet.mem_insert.2 (.inr hk)
  ensured_kept hk := by
    rcases Std.ExtTreeSet.mem_insert.1 hk with hk | hk
    · -- The key that is found now is kept.
      exact .inr (Std.compare_eq_iff_eq.1 hk ▸ h)
    · exact .inl hk
  missing_old := id
  missing_found := .inl
  found ht _ := .inl (List.mem_singleton.1 ht ▸ Std.ExtTreeSet.mem_insert_self)

theorem searched_of_not_cached (h : Cache.key (Cache.key t.owner) ∉ memory) :
    Searched r memory [t] missing r.ensured (missingOf r missing t) where
  ensured_old := id
  ensured_kept := .inl
  missing_old := mem_missingOf_of_mem
  missing_found he := (getKey?_missingOf he).imp_right fun ⟨hc, hnew⟩ =>
    ⟨t, List.mem_singleton_self t, hc, hnew, h⟩
  found {t' e} ht hc := by
    obtain rfl := List.mem_singleton.1 ht
    by_cases hscanned : e ∈ r.scanned
    · -- Scanned before, so that it is not wanted again.
      exact .inr (.inl hscanned)
    · exact .inr (.inr (mem_missingOf hc hscanned))

/-- A container is scanned for a target that is not kept. -/
theorem Searched.exists_target (h : Searched r memory targets ∅ ensured' missing')
    {a : ClasspathEntry × List String} (ha : a ∈ missing'.toList) :
    ∃ t ∈ targets, r.index.containerOf? t.owner = some a.1 ∧ a.1 ∉ r.scanned ∧
      Cache.key (Cache.key t.owner) ∉ memory := by
  have hkey := (Std.ExtTreeMap.mem_toList_iff_getKey?_eq_some_and_getElem?_eq_some.1 ha).1
  exact (h.missing_found hkey).resolve_left (by simp)

end

theorem exists_mem_toList (h : e ∈ missing) :
    ∃ a ∈ missing.toList, compare e a.1 = .eq := by
  obtain ⟨wanted, hwanted⟩ :=
    Option.isSome_iff_exists.1 (Std.ExtTreeMap.mem_iff_isSome_getElem?.1 h)
  obtain ⟨e', heq, hmem⟩ :=
    Std.ExtTreeMap.getElem?_eq_some_iff_exists_compare_eq_eq_and_mem_toList.1 hwanted
  exact ⟨(e', wanted), hmem, heq⟩

theorem findMissing_inMemory (sources : Sources) (s : Session) (r : Resolver) (missing : Missing)
    (targets : List MethodId) :
    ∃ ensured' missing',
      findMissing (inMemory sources) r missing targets s =
        (({ r with ensured := ensured' }, missing'), s) ∧
      Searched r s.world.memory targets missing ensured' missing' := by
  induction targets generalizing r missing with
  | nil =>
    exact ⟨r.ensured, missing, rfl, ⟨id, .inl, id, .inl, fun ht => absurd ht List.not_mem_nil⟩⟩
  | cons t targets ih =>
    rw [findMissing]
    by_cases hensured : Cache.key t.owner ∈ r.ensured
    · -- Found before: nothing is looked up.
      obtain ⟨ensured', missing', hrun, h⟩ := ih r missing
      rw [if_pos (by simpa using hensured)]
      exact ⟨ensured', missing', hrun, (searched_of_ensured hensured).cons h⟩
    · rw [if_neg (by simpa using hensured), bind_eq (isCached_inMemory _)]
      by_cases hcached : Cache.key (Cache.key t.owner) ∈ s.world.memory
      · -- Kept: the target is found from now on.
        obtain ⟨ensured', missing', hrun, h⟩ :=
          ih { r with ensured := r.ensured.insert (Cache.key t.owner) } missing
        rw [if_pos (by simpa using hcached)]
        exact ⟨ensured', missing', hrun, (searched_of_cached hcached).cons h⟩
      · -- Not kept: its container is wanted.
        obtain ⟨ensured', missing', hrun, h⟩ := ih r (missingOf r missing t)
        rw [if_neg (by simpa using hcached)]
        exact ⟨ensured', missing', hrun, (searched_of_not_cached hcached).cons h⟩

end Missing

/-! ### The scans -/

section Ensure

variable {files : FileTree} {sources : Sources} {classpath : List ClasspathEntry} {r : Resolver}
  {memory : Memory} {s : Session}

theorem Consistent.withEnsured (h : Consistent files sources classpath r memory)
    {ensured' : Std.ExtTreeSet String}
    (hensured : ∀ k, k ∈ ensured' → k ∈ r.ensured ∨ Cache.key k ∈ memory) :
    Consistent files sources classpath { r with ensured := ensured' } memory where
  index_eq := h.index_eq
  offered := h.offered
  kept := h.kept
  ensured_kept hk := (hensured _ hk).elim h.ensured_kept id
  kept_eq := h.kept_eq

/-- Scans a container that was not scanned before. -/
theorem Consistent.scanMissing_inMemory (h : Consistent files sources classpath r s.world.memory)
    (hfiles : s.world.files = files) {e : ClasspathEntry} (he : e ∈ r.index.containers)
    (hnew : e ∉ r.scanned) (wanted : List String) :
    ∃ r' s', scanMissing (inMemory sources) r e wanted s = (r', s') ∧
      Consistent files sources classpath r' s'.world.memory ∧ s'.world.files = files ∧
      r'.known = r.known ∧ ∀ x, r'.HasScanned x ↔ x = e ∨ r.HasScanned x := by
  obtain ⟨classes, hclasses⟩ : ∃ classes, e.classes files = .ok classes := by
    have hbuilt := he
    rw [h.index_eq] at hbuilt
    obtain ⟨classes, hload⟩ := ClasspathIndex.exists_loaded_of_mem_containers hbuilt
    exact ⟨classes, (ClasspathIndex.load_of_mem_loaded hload).2⟩
  have hrun := Analysis.scanMissing_inMemory sources r wanted (hfiles ▸ hclasses)
  have hrows : rowsFor (Groups.ofClasses sources classes) (keysFor r s.world.memory e wanted) =
      rowsFor (groupsOf files sources e) (keysFor r s.world.memory e wanted) := by
    rw [groupsOf_eq hclasses]
  exact ⟨_, _, hrun, h.scan he hrows hnew, hfiles, rfl, fun x =>
    hasScanned_noteScan_iff h.index_eq he⟩

/-- Scans containers that were not scanned before. -/
theorem Consistent.scanAllMissing_inMemory (h : Consistent files sources classpath r s.world.memory)
    (hfiles : s.world.files = files) (missing : List (ClasspathEntry × List String))
    (hdistinct : missing.Pairwise fun a b => compare a.1 b.1 ≠ .eq)
    (hnew : ∀ a ∈ missing, a.1 ∈ r.index.containers ∧ a.1 ∉ r.scanned) :
    ∃ r' s', scanAllMissing (inMemory sources) r missing s = (r', s') ∧
      Consistent files sources classpath r' s'.world.memory ∧ s'.world.files = files ∧
      r'.known = r.known ∧ ∀ x, r'.HasScanned x ↔ (∃ a ∈ missing, a.1 = x) ∨ r.HasScanned x := by
  induction missing generalizing r s with
  | nil => exact ⟨r, s, rfl, h, hfiles, rfl, by simp⟩
  | cons a missing ih =>
    obtain ⟨hne, hdistinct⟩ := List.pairwise_cons.1 hdistinct
    obtain ⟨ha, hanew⟩ := hnew a List.mem_cons_self
    obtain ⟨r1, s1, hrun1, h1, hfiles1, hknown1, hscanned1⟩ :=
      h.scanMissing_inMemory hfiles ha hanew a.2
    have hindex : r1.index = r.index := h1.index_eq.trans h.index_eq.symm
    have hnew1 : ∀ b ∈ missing, b.1 ∈ r1.index.containers ∧ b.1 ∉ r1.scanned := by
      intro b hb
      obtain ⟨hbmem, hbnew⟩ := hnew b (List.mem_cons_of_mem a hb)
      refine ⟨hindex ▸ hbmem, fun hb1 => ?_⟩
      rcases (hscanned1 b.1).1 ⟨hindex ▸ hbmem, hb1⟩ with heq | hold
      · -- No container is listed twice.
        exact hne b hb (heq ▸ Std.ReflCmp.compare_self)
      · exact hbnew hold.2
    obtain ⟨r2, s2, hrun2, h2, hfiles2, hknown2, hscanned2⟩ := ih h1 hfiles1 hdistinct hnew1
    refine ⟨r2, s2, ?_, h2, hfiles2, hknown2.trans hknown1, fun x => ?_⟩
    · rw [scanAllMissing, bind_eq hrun1, hrun2]
    · rw [hscanned2, hscanned1, List.exists_mem_cons_iff, or_left_comm, or_assoc, eq_comm]

/-- What holds when a resolver has seen to the results for targets: each one's container was scanned
unless its key was kept already, and no other container was. -/
structure Ensured (files : FileTree) (sources : Sources) (classpath : List ClasspathEntry)
    (r : Resolver) (memory : Memory) (targets : List MethodId) (r' : Resolver) (s' : Session) :
    Prop where
  consistent : Consistent files sources classpath r' s'.world.memory
  files_eq : s'.world.files = files
  known_eq : r'.known = r.known
  scanned_old {e : ClasspathEntry} : r.HasScanned e → r'.HasScanned e
  scanned_or_kept {t : MethodId} {e : ClasspathEntry} : t ∈ targets →
    r.index.containerOf? t.owner = some e →
    r'.HasScanned e ∨ Cache.key (Cache.key t.owner) ∈ memory
  scanned_found {e : ClasspathEntry} : r'.HasScanned e → r.HasScanned e ∨
    ∃ t ∈ targets, r.index.containerOf? t.owner = some e ∧ Cache.key (Cache.key t.owner) ∉ memory

theorem mem_containers_of_containerOf? {index : ClasspathIndex} {e : ClasspathEntry} {n : String}
    (hindex : index = ClasspathIndex.build files classpath) (hc : index.containerOf? n = some e) :
    e ∈ index.containers := by
  rw [hindex] at hc ⊢
  exact (ClasspathIndex.containerOf?_found hc).1

theorem Consistent.mem_containers (h : Consistent files sources classpath r memory) {n : String}
    {e : ClasspathEntry} (hc : r.index.containerOf? n = some e) : e ∈ r.index.containers :=
  mem_containers_of_containerOf? h.index_eq hc

theorem Consistent.compare_eq_iff (h : Consistent files sources classpath r memory)
    {e e' : ClasspathEntry} (he : e ∈ r.index.containers) (he' : e' ∈ r.index.containers) :
    compare e e' = .eq ↔ e = e' := by
  rw [h.index_eq] at he he'
  exact ClasspathIndex.compare_eq_iff_of_mem he he'

theorem Consistent.ensureCached_inMemory (h : Consistent files sources classpath r s.world.memory)
    (hfiles : s.world.files = files) (targets : List MethodId) :
    ∃ r' s', ensureCached (inMemory sources) r targets s = (r', s') ∧
      Ensured files sources classpath r s.world.memory targets r' s' := by
  obtain ⟨ensured', missing, hsearch, hs⟩ :=
    findMissing_inMemory sources s r ∅ targets
  obtain ⟨r', s', hrun, h', hfiles', hknown, hscanned⟩ :=
    (h.withEnsured fun k => hs.ensured_kept).scanAllMissing_inMemory hfiles
      missing.toList Std.ExtTreeMap.distinct_keys_toList fun a ha => by
        obtain ⟨t, -, hc, hnew, -⟩ := hs.exists_target ha
        exact ⟨h.mem_containers hc, hnew⟩
  refine ⟨r', s', by rw [ensureCached, bind_eq hsearch]; exact hrun, h', hfiles', hknown,
    fun hx => (hscanned _).2 (.inr hx), fun {t e} ht hc => ?_, fun {e} he => ?_⟩
  · rcases hs.found ht hc with hk | hin | hin
    · exact .inr ((hs.ensured_kept hk).elim h.ensured_kept id)
    · exact .inl ((hscanned e).2 (.inr ⟨h.mem_containers hc, hin⟩))
    · -- The container of the target is one of those that were scanned now.
      obtain ⟨a, hmem, heq⟩ := exists_mem_toList hin
      obtain ⟨t', -, hc', -⟩ := hs.exists_target hmem
      have hee := (h.compare_eq_iff (h.mem_containers hc) (h.mem_containers hc')).1 heq
      exact .inl ((hscanned e).2 (.inl ⟨a, hmem, hee.symm⟩))
  · rcases (hscanned e).1 he with ⟨a, ha, rfl⟩ | hold
    · obtain ⟨t, ht, hc, -, hk⟩ := hs.exists_target ha
      exact .inr ⟨t, ht, hc, hk⟩
    · exact .inl hold

theorem unionOf_inMemory (sources : Sources) (s : Session) (found : Exceptions)
    (targets : List MethodId) :
    ∃ exceptions, unionOf (inMemory sources) found targets s = (exceptions, s) ∧
      ∀ x, x ∈ exceptions ↔ x ∈ found ∨
        ∃ t ∈ targets, x ∈ s.world.memory.exceptionsOf t := by
  induction targets generalizing found with
  | nil => exact ⟨found, rfl, by simp⟩
  | cons t targets ih =>
    obtain ⟨exceptions, hrun, hmem⟩ := ih ((s.world.memory.exceptionsOf t).foldl (·.insert ·) found)
    refine ⟨exceptions, by rw [unionOf, bind_eq (cachedExceptions_inMemory t), hrun], fun x => ?_⟩
    rw [hmem, Entries.mem_foldl_insert, List.exists_mem_cons_iff, or_assoc]

end Ensure

end Analysis

end JvmThrows
