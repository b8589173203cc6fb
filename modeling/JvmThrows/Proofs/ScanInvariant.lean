import JvmThrows.Proofs.Containers
import JvmThrows.Proofs.MemorySession

/-!
# What is kept and why

A container offers a key if a class that is kept under this key comes from it. `Consistent` says how
the memory of a session and the notes of its resolver fit together: what is kept was offered by a
container that was scanned, what such a container offers is kept, and what only one of them offers
is kept as it stands there. The scan of one more container preserves this (`Consistent.scan`).

A scan writes under the key of the key of a class. This is its own key (`Cache.key_key_key`), so
that what is written under different keys stays apart.
-/

namespace JvmThrows

/-- A container of the index was scanned. -/
def Resolver.HasScanned (r : Resolver) (container : ClasspathEntry) : Prop :=
  container ∈ r.index.containers ∧ container ∈ r.scanned

namespace Analysis

/-! ### The invariant -/

section Invariant

variable (files : FileTree) (sources : Sources)

/-- The results for the classes of a container, by key. -/
def groupsOf (container : ClasspathEntry) : Groups :=
  match container.classes files with
  | .ok classes => Groups.ofClasses sources classes
  | .error _ => ∅

/-- A container has results for a key, and a class that is kept under this key comes from it. -/
def Offers (index : ClasspathIndex) (container : ClasspathEntry) (k : String) : Prop :=
  k ∈ groupsOf files sources container ∧
    ∃ n, index.containerOf? n = some container ∧ Cache.key (Cache.key n) = k

/-- What a resolver and the memory of its session, which was empty at first, have to do with each
other. -/
structure Consistent (classpath : List ClasspathEntry) (r : Resolver) (memory : Memory) : Prop where
  index_eq : r.index = ClasspathIndex.build files classpath
  /-- All that is kept was offered. -/
  offered {k : String} : k ∈ memory → ∃ e, r.HasScanned e ∧ Offers files sources r.index e k
  /-- All that was offered is kept. -/
  kept {k : String} {e : ClasspathEntry} :
    r.HasScanned e → Offers files sources r.index e k → k ∈ memory
  ensured_kept {k : String} : k ∈ r.ensured → Cache.key k ∈ memory
  /-- What only one container offered is kept as it was offered. -/
  kept_eq {k : String} {e : ClasspathEntry} :
    r.HasScanned e → Offers files sources r.index e k →
    (∀ e', r.HasScanned e' → Offers files sources r.index e' k → e' = e) →
    memory[k]? = (groupsOf files sources e)[k]?

end Invariant

section Step

variable {files : FileTree} {sources : Sources} {classpath : List ClasspathEntry} {r : Resolver}
  {memory : Memory} {e : ClasspathEntry} {wanted : List String} {k : String}

theorem groupsOf_eq {classes : List ClassFile} (h : e.classes files = .ok classes) :
    groupsOf files sources e = Groups.ofClasses sources classes := by
  simp [groupsOf, h]

/-- What a scan of a container writes. -/
theorem mem_rowsFor_keysFor (hindex : r.index = ClasspathIndex.build files classpath)
    (he : e ∈ r.index.containers) {row : String × Entries} :
    row ∈ rowsFor (groupsOf files sources e) (keysFor r memory e wanted) ↔
      (groupsOf files sources e)[row.1]? = some row.2 ∧
      ∃ n, r.index.containerOf? n = some e ∧ Cache.key (Cache.key n) = row.1 ∧
        Cache.key n ∉ r.ensured ∧ (Cache.key n ∈ wanted ∨ row.1 ∉ memory) := by
  have hkeys {k : String} : k ∈ keysFor r memory e wanted ↔
      (∃ n, r.index.containerOf? n = some e ∧ Cache.key n = k) ∧ k ∉ r.ensured ∧
        (k ∈ wanted ∨ Cache.key k ∉ memory) := by
    rw [hindex] at he
    simp [keysFor, mem_dropRepeats, hindex, ClasspathIndex.mem_classesIn_iff he, and_assoc,
      ← Std.ExtTreeSet.contains_iff_mem, ← Std.ExtTreeMap.contains_iff_mem]
  rw [mem_rowsFor, and_comm]
  refine and_congr_right fun _ => ?_
  simp only [hkeys]
  constructor
  · rintro ⟨k, ⟨⟨n, hn, rfl⟩, hensured, hneeded⟩, hk⟩
    exact ⟨n, hn, hk, hensured, by rwa [← hk]⟩
  · rintro ⟨n, hn, hk, hensured, hneeded⟩
    exact ⟨Cache.key n, ⟨⟨n, hn, rfl⟩, hensured, by rwa [hk]⟩, hk⟩

/-- What is written is kept under its own key. -/
theorem key_of_mem_rowsFor (hindex : r.index = ClasspathIndex.build files classpath)
    (he : e ∈ r.index.containers) {row : String × Entries}
    (h : row ∈ rowsFor (groupsOf files sources e) (keysFor r memory e wanted)) :
    Cache.key row.1 = row.1 := by
  obtain ⟨-, n, -, hk, -⟩ := (mem_rowsFor_keysFor hindex he).1 h
  rw [← hk, Cache.key_key_key]

theorem offers_of_mem_rowsFor (hindex : r.index = ClasspathIndex.build files classpath)
    (he : e ∈ r.index.containers) {row : String × Entries}
    (h : row ∈ rowsFor (groupsOf files sources e) (keysFor r memory e wanted)) :
    Offers files sources r.index e row.1 := by
  obtain ⟨hrow, n, hn, hk, -⟩ := (mem_rowsFor_keysFor hindex he).1 h
  exact ⟨Std.ExtTreeMap.mem_iff_isSome_getElem?.2 (by simp [hrow]), n, hn, hk⟩

/-- All is written that is not kept. -/
theorem Consistent.exists_row (h : Consistent files sources classpath r memory)
    (he : e ∈ r.index.containers) (hoffers : Offers files sources r.index e k) (hk : k ∉ memory) :
    ∃ entries, (k, entries) ∈ rowsFor (groupsOf files sources e) (keysFor r memory e wanted) := by
  obtain ⟨hgroup, n, hn, hkey⟩ := hoffers
  obtain ⟨entries, hentries⟩ :=
    Option.isSome_iff_exists.1 (Std.ExtTreeMap.mem_iff_isSome_getElem?.1 hgroup)
  refine ⟨entries, (mem_rowsFor_keysFor h.index_eq he).2 ⟨hentries, n, hn, hkey, ?_, .inr hk⟩⟩
  exact fun hensured => hk (hkey ▸ h.ensured_kept hensured)

theorem hasScanned_noteScan_iff (hindex : r.index = ClasspathIndex.build files classpath)
    (he : e ∈ r.index.containers) {rows : List (String × Entries)} {x : ClasspathEntry} :
    (r.noteScan e rows).HasScanned x ↔ x = e ∨ r.HasScanned x := by
  unfold Resolver.HasScanned Resolver.noteScan
  rw [Std.ExtTreeSet.mem_insert]
  constructor
  · rintro ⟨hx, heq | hin⟩
    · rw [hindex] at he hx
      exact .inl ((ClasspathIndex.compare_eq_iff_of_mem he hx).1 heq).symm
    · exact .inr ⟨hx, hin⟩
  · rintro (rfl | ⟨hx, hin⟩)
    · exact ⟨he, .inl Std.ReflCmp.compare_self⟩
    · exact ⟨hx, .inr hin⟩

theorem mem_ensured_noteScan_iff {rows : List (String × Entries)} :
    k ∈ (r.noteScan e rows).ensured ↔ (∃ row ∈ rows, row.1 = k) ∨ k ∈ r.ensured := by
  rw [Resolver.noteScan, ← Std.ExtTreeSet.insertMany_list_eq_foldl,
    Std.ExtTreeSet.mem_insertMany_list, List.contains_iff_mem, or_comm, List.mem_map]

section Scan

variable {rows : List (String × Entries)} (h : Consistent files sources classpath r memory)
  (he : e ∈ r.index.containers)
  (hrows : rows = rowsFor (groupsOf files sources e) (keysFor r memory e wanted))
include h he hrows

theorem Consistent.mem_scan_iff :
    k ∈ rows.foldl Memory.add memory ↔ (∃ row ∈ rows, row.1 = k) ∨ k ∈ memory := by
  rw [Memory.mem_foldl_add_iff, hrows]
  refine or_congr_left (exists_congr fun row => and_congr_right fun hrow => ?_)
  rw [key_of_mem_rowsFor h.index_eq he hrow]

/-- What a container is the first to offer is kept as it offers it. -/
theorem Consistent.scan_eq_of_not_mem (hoffers : Offers files sources r.index e k)
    (hk : k ∉ memory) : (rows.foldl Memory.add memory)[k]? = (groupsOf files sources e)[k]? := by
  obtain ⟨entries, hrow⟩ := h.exists_row he hoffers hk
  have hgroup := ((mem_rowsFor_keysFor h.index_eq he).1 hrow).1
  rw [← hrows] at hrow
  have hkey {row} (hrow : row ∈ rows) : Cache.key row.1 = row.1 :=
    key_of_mem_rowsFor h.index_eq he (hrows ▸ hrow)
  have hdistinct : rows.Pairwise fun a b => Cache.key a.1 ≠ Cache.key b.1 := by
    have hpair := pairwise_rowsFor (groupsOf files sources e) (keysFor r memory e wanted)
    rw [← hrows] at hpair
    exact hpair.imp_of_mem fun ha hb hne => by rwa [hkey ha, hkey hb]
  have hadd := Memory.getElem?_foldl_add_of_mem memory hdistinct hrow
  rw [hkey hrow] at hadd
  rw [hadd, hgroup, Std.ExtTreeMap.getElem?_eq_none hk, Option.getD_none, Entries.empty_union]

/-- What a container does not offer stays as it is. -/
theorem Consistent.scan_eq_of_not_offers (hoffers : ¬ Offers files sources r.index e k) :
    (rows.foldl Memory.add memory)[k]? = memory[k]? := by
  refine Memory.getElem?_foldl_add_of_ne fun row hrow hk => hoffers ?_
  rw [hrows] at hrow
  rw [← hk, key_of_mem_rowsFor h.index_eq he hrow]
  exact offers_of_mem_rowsFor h.index_eq he hrow

/-- The scan of a container that was not scanned before. -/
theorem Consistent.scan (hnew : e ∉ r.scanned) :
    Consistent files sources classpath (r.noteScan e rows) (rows.foldl Memory.add memory) where
  index_eq := h.index_eq
  offered {k} hk := by
    rcases (h.mem_scan_iff he hrows).1 hk with ⟨row, hrow, rfl⟩ | hk
    · rw [hrows] at hrow
      exact ⟨e, (hasScanned_noteScan_iff h.index_eq he).2 (.inl rfl),
        offers_of_mem_rowsFor h.index_eq he hrow⟩
    · obtain ⟨x, hx, hoffers⟩ := h.offered hk
      exact ⟨x, (hasScanned_noteScan_iff h.index_eq he).2 (.inr hx), hoffers⟩
  kept {k x} hx hoffers := by
    rw [h.mem_scan_iff he hrows]
    by_cases hk : k ∈ memory
    · exact .inr hk
    · rcases (hasScanned_noteScan_iff h.index_eq he).1 hx with rfl | hx
      · obtain ⟨entries, hrow⟩ := h.exists_row he hoffers hk
        exact .inl ⟨_, hrows ▸ hrow, rfl⟩
      · exact absurd (h.kept hx hoffers) hk
  ensured_kept {k} hk := by
    rw [h.mem_scan_iff he hrows]
    rcases mem_ensured_noteScan_iff.1 hk with ⟨row, hrow, rfl⟩ | hk
    · exact .inl ⟨row, hrow, (key_of_mem_rowsFor h.index_eq he (hrows ▸ hrow)).symm⟩
    · exact .inr (h.ensured_kept hk)
  kept_eq {k x} hx hoffers huniq := by
    have hscan {y} (hy : y = e ∨ r.HasScanned y) : (r.noteScan e rows).HasScanned y :=
      (hasScanned_noteScan_iff h.index_eq he).2 hy
    rcases (hasScanned_noteScan_iff h.index_eq he).1 hx with rfl | hx
    · -- If the key was kept, another container has offered it.
      refine h.scan_eq_of_not_mem he hrows hoffers fun hk => ?_
      obtain ⟨y, hy, hyoffers⟩ := h.offered hk
      exact hnew (huniq y (hscan (.inr hy)) hyoffers ▸ hy.2)
    · rw [h.scan_eq_of_not_offers he hrows fun hoffers' =>
        hnew (huniq e (hscan (.inl rfl)) hoffers' ▸ hx.2)]
      exact h.kept_eq hx hoffers fun y hy => huniq y (hscan (.inr hy))

end Scan

end Step

end Analysis

end JvmThrows
