import JvmThrows.Proofs.TendedTrees

/-!
# A directory keeps what memory keeps

A store in a directory and a store in memory answer every run of operations alike
(`replies_eq_memory`), as long as the files can be written. What ties them together is `Mirrors`: on
a tree that only the store has written to, the documents are those of what memory holds. What an
operation does to the documents is known (`Spares`, `Sets`), and memory does the same.
-/

namespace JvmThrows.Cache.Directory

open FileTree

variable {root : Path} {base : Location} {links : Nat} {memory memory' : Memory}
  {tree tree' : FileTree} {c k : String} {es : Entries}

/-! ### Documents that can be read -/

/-- Every document that memory calls for can be read. -/
def Fits (memory : Memory) : Prop :=
  ∀ k es, memory[k]? = some es → (Document.ofEntries k es).render.utf8ByteSize ≤ maxDocumentSize

theorem fits_empty : Fits ∅ := by simp [Fits]

theorem Fits.insert (h : Fits memory)
    (hes : (Document.ofEntries k es).render.utf8ByteSize ≤ maxDocumentSize) :
    Fits (memory.insert k es) := by
  intro k' es' hget
  rw [Std.ExtTreeMap.getElem?_insert] at hget
  split at hget
  · rename_i heq
    cases hget
    rwa [← Std.LawfulEqOrd.eq_of_compare heq]
  · exact h k' es' hget

theorem Fits.erase (h : Fits memory) (k : String) : Fits (memory.erase k) := by
  intro k' es' hget
  rw [Std.ExtTreeMap.getElem?_erase] at hget
  split at hget
  · cases hget
  · exact h k' es' hget

/-! ### Documents and memory -/

/-- The documents are those of what memory holds. -/
structure Mirrors (root : Path) (base : Location) (links : Nat) (memory : Memory)
    (tree : FileTree) : Prop where
  tended : Tended root base links tree
  documentAt_eq : ∀ {k}, IsSettled k →
    documentAt base tree k = (memory[k]?).map (rendered k)

namespace Mirrors

theorem spares (h : Mirrors root base links memory tree)
    (hspares : Spares root base links tree tree') : Mirrors root base links memory tree' :=
  ⟨hspares.tended, fun hk => by rw [hspares.documentAt_eq, h.documentAt_eq hk]⟩

/-- A document changes as memory does under its key. -/
theorem sets (h : Mirrors root base links memory tree) (hk : IsSettled k) (found : Option Entries)
    (hset : Sets root base links k (found.map (rendered k)) tree tree')
    (hmemory : ∀ k', memory'[k']? = if k = k' then found else memory[k']?) :
    Mirrors root base links memory' tree' := by
  refine ⟨hset.tended, fun {k'} hk' => ?_⟩
  rw [hset.documentAt_eq, hmemory]
  by_cases heq : k = k'
  · rw [← heq, if_pos rfl, if_pos rfl]
  · -- Settled keys have their documents in different places.
    have hne : documentNames k' ≠ documentNames k := fun hsame =>
      heq (documentNames_inj hk.2 hk'.2 hsame.symm)
    rw [if_neg heq, if_neg hne, h.documentAt_eq hk']

theorem entriesAt_eq (h : Mirrors root base links memory tree) (hk : IsSettled k) :
    entriesAt base tree k = memory[k]? := by
  rw [entriesAt, h.documentAt_eq hk]
  cases memory[k]? with
  | none => rfl
  | some es => exact entriesIn_rendered k es

theorem size_le (h : Mirrors root base links memory tree) (hfits : Fits memory)
    (hk : IsSettled k) (content : Content) (hdocument : documentAt base tree k = some content) :
    content.size ≤ maxDocumentSize := by
  rw [h.documentAt_eq hk] at hdocument
  obtain ⟨es, hget, rfl⟩ := Option.map_eq_some_iff.1 hdocument
  rw [size_rendered]
  exact hfits k es hget

/-! #### Operations -/

theorem get_eq (h : Mirrors root base links memory tree) (hfits : Fits memory)
    (hk : IsSettled (key c)) : get root c tree = (memory[key c]?, tree) := by
  rw [h.tended.get_eq (h.size_le hfits hk), h.entriesAt_eq hk]

theorem contains_eq (h : Mirrors root base links memory tree) (hfits : Fits memory)
    (hk : IsSettled (key c)) : contains root c tree = (memory.contains (key c), tree) := by
  rw [h.tended.contains_eq (h.size_le hfits hk), h.documentAt_eq hk, Option.isSome_map,
    Std.ExtTreeMap.contains_eq_isSome_getElem?]

theorem insert (h : Mirrors root base links memory tree) (hk : IsSettled k)
    (hset : Sets root base links k (some (rendered k es)) tree tree') :
    Mirrors root base links (memory.insert k es) tree' :=
  h.sets hk (some es) hset fun k' => by simp [Std.ExtTreeMap.getElem?_insert]

theorem put (h : Mirrors root base links memory tree) (hk : IsSettled (key c))
    (hput : Directory.put root c es tree = (.ok (), tree')) :
    Mirrors root base links (memory.insert (key c) es) tree' := by
  rcases h.tended.put_cases c es with ⟨made, hdone, hset⟩ | ⟨e, made, hfail, -⟩
  · cases hdone.symm.trans hput
    -- What is written goes to the key of the key.
    rw [hk.1] at hset
    exact h.insert hk hset
  · cases hfail.symm.trans hput

theorem merge (h : Mirrors root base links memory tree) (hfits : Fits memory)
    (hk : IsSettled (key c)) (hmerge : Directory.merge root c es tree = (.ok (), tree')) :
    Mirrors root base links
      (memory.insert (key c) (((memory[key c]?).getD ∅).union es)) tree' := by
  rcases h.tended.merge_cases hk.1 (h.size_le hfits hk) es with
    ⟨made, hdone, hset⟩ | ⟨e, made, hfail, -⟩
  · cases hdone.symm.trans hmerge
    rw [h.entriesAt_eq hk] at hset
    exact h.insert hk hset
  · cases hfail.symm.trans hmerge

theorem remove (h : Mirrors root base links memory tree) (hk : IsSettled (key c)) :
    Mirrors root base links (memory.erase (key c)) (Directory.remove root c tree).2 :=
  h.sets hk none (h.tended.remove c) fun k' => by simp [Std.ExtTreeMap.getElem?_erase]

end Mirrors

/-! ### Runs -/

variable {op : StoreOp} {ops : List StoreOp}

/-- One operation is answered alike, and keeps the stores alike. -/
theorem Mirrors.reply (h : Mirrors root base links memory tree) (hfits : Fits memory)
    (hk : IsSettled (key op.className)) (hdone : ((store root).reply op tree).1.Succeeds) :
    ((store root).reply op tree).1 = (Memory.store.reply op memory).1 ∧
      Mirrors root base links (Memory.store.reply op memory).2
        ((store root).reply op tree).2 := by
  cases op with
  | get c =>
    have hget : (store root).get c tree = (memory[key c]?, tree) :=
      h.get_eq hfits hk
    rw [Store.reply_get, Store.reply_get, hget]
    exact ⟨rfl, h⟩
  | contains c =>
    have hcontains : (store root).contains c tree = (memory.contains (key c), tree) :=
      h.contains_eq hfits hk
    rw [Store.reply_contains, Store.reply_contains, hcontains]
    exact ⟨rfl, h⟩
  | put c es =>
    rw [Store.reply_put, store_put] at hdone ⊢
    rcases hput : Directory.put root c es tree with ⟨result, tree'⟩
    rw [Reply.succeeds_done, hput] at hdone
    obtain rfl : result = .ok () := hdone
    exact ⟨rfl, h.put hk hput⟩
  | merge c es =>
    rw [Store.reply_merge, store_merge] at hdone ⊢
    rcases hmerge : Directory.merge root c es tree with ⟨result, tree'⟩
    rw [Reply.succeeds_done, hmerge] at hdone
    obtain rfl : result = .ok () := hdone
    exact ⟨rfl, h.merge hfits hk hmerge⟩
  | remove c =>
    rw [Store.reply_remove, store_remove] at hdone ⊢
    rcases hremove : Directory.remove root c tree with ⟨result, tree'⟩
    rw [Reply.succeeds_done, hremove] at hdone
    obtain rfl : result = .ok () := hdone
    have hnext := h.remove (c := c) hk
    rw [hremove] at hnext
    exact ⟨rfl, hnext⟩

/-- Whole runs are answered alike. -/
theorem Mirrors.replies (h : Mirrors root base links memory tree)
    (hfits : ∀ n, Fits (Memory.store.replies (ops.take n) memory).2)
    (hkeys : ∀ op ∈ ops, IsSettled (key op.className))
    (hdone : ∀ r ∈ ((store root).replies ops tree).1, r.Succeeds) :
    ((store root).replies ops tree).1 = (Memory.store.replies ops memory).1 := by
  induction ops generalizing memory tree with
  | nil => rfl
  | cons op ops ih =>
    rw [Store.replies_cons] at hdone ⊢
    rw [Store.replies_cons]
    obtain ⟨hreply, hmirrors⟩ := h.reply (hfits 0) (hkeys op List.mem_cons_self)
      (hdone _ List.mem_cons_self)
    have hrest := ih hmirrors (fun n => ?_) (fun op' hop => hkeys op' (List.mem_cons_of_mem _ hop))
      (fun r hr => hdone r (List.mem_cons_of_mem _ hr))
    · rw [hreply, hrest]
    -- What memory holds within the rest of the run, it holds within the run one step later.
    · have hnext := hfits (n + 1)
      rwa [List.take_succ_cons, Store.replies_cons] at hnext

theorem mirrors_empty
    (hd : tree.descend maxLinks (tree.startOf root) (namesOf root) = .ok (base, links))
    (hempty : tree.below base = []) : Mirrors root base links ∅ tree := by
  obtain ⟨htended, hnone⟩ := tended_of_below hd hempty
  exact ⟨htended, fun {k} _ => by simp [hnone k]⟩

/-- Starting from an empty directory and an empty memory, the two stores answer every run alike. -/
theorem replies_eq_memory (hbase : tree.directoryAt (tree.startOf root) (namesOf root) = .ok base)
    (hempty : tree.below base = []) (hkeys : ∀ op ∈ ops, IsSettled (key op.className))
    (hdone : ∀ r ∈ ((store root).replies ops tree).1, r.Succeeds)
    (hfits : ∀ n, Fits (Memory.store.replies (ops.take n) ∅).2) :
    ((store root).replies ops tree).1 = (Memory.store.replies ops ∅).1 := by
  rw [directoryAt_eq] at hbase
  cases hd : tree.descend maxLinks (tree.startOf root) (namesOf root) with
  | error e =>
    rw [hd] at hbase
    cases hbase
  | ok there =>
    rw [hd] at hbase
    cases hbase
    exact (mirrors_empty hd hempty).replies hfits hkeys hdone

/-! ### A run -/

def nestedEntries : Entries := (∅ : Entries).insert ⟨"B$C", "g", "()V"⟩ (.ofList ["x.F"])

/-- A class and a class nested in it in three spellings. -/
def nestedRun : List StoreOp :=
  [.remove "B", .put "B" outerEntries, .merge "B$C" nestedEntries, .contains "B", .get "B.C"]

section

variable (hroot : tree.nodes[["c"]]? = some .directory)
include hroot

theorem isDirectory_cache : tree.isDirectory ⟨"/c"⟩ = true := by
  have hpath : Names ⟨"/c"⟩ [] "c" := ⟨by decide, by decide, by decide⟩
  have hfault : pathFault? ⟨"/c"⟩ = none := by decide
  have habsolute : (Path.mk "/c").isAbsolute = true := by decide
  have hspot : tree.spot ⟨"/c"⟩ = .ok ["c"] := by
    have hshort : ¬ maxName < "c".utf8ByteSize := by decide
    rw [hpath.spot_eq, hfault, startOf, if_pos habsolute]
    simp [descend, hshort]
  have hplace : tree.locateAny true ⟨"/c"⟩ = .ok ⟨["c"], some .directory, false⟩ := by
    rw [hpath.locateAny_of_spot hspot (by simp [hroot]), hroot]
  simp [isDirectory, find, locate, hplace]

theorem entry_in_cache : tree.entry (documentPath ⟨"/c"⟩ "B") =
    .ok (some ⟨["c", "B.json"], tree.nodes[["c", "B.json"]]?, false⟩) := by
  have hnames : Names (documentPath ⟨"/c"⟩ "B") ["c"] "B.json" := ⟨by decide, by decide, by decide⟩
  rw [hnames.entry_eq, spot_in_cache hroot hnames (by decide) (by decide) (by decide), Except.map]

theorem put_in_cache {c : String} (hkey : key c = "B")
    (hdraft : tree.nodes[["c", "B.json.tmp.1.0"]]? = none)
    (hfile : tree.nodes[["c", "B.json"]]? ≠ some .directory) (es : Entries) :
    Directory.put ⟨"/c"⟩ c es tree = (.ok (), { tree with
      nodes := tree.nodes.insert ["c", "B.json"] (.file (rendered "B" es)) }) := by
  have hdraftNames : Names ⟨"/c/B.json.tmp.1.0"⟩ ["c"] "B.json.tmp.1.0" :=
    ⟨by decide, by decide, by decide⟩
  have hdraftSpot : tree.spot ⟨"/c/B.json.tmp.1.0"⟩ = .ok ["c", "B.json.tmp.1.0"] :=
    spot_in_cache hroot hdraftNames (by decide) (by decide) (by decide)
  have hjoin : (Path.mk "/c").join (draftName "B.json" 0) = ⟨"/c/B.json.tmp.1.0"⟩ := by decide
  have hlocate : tree.locate false ((Path.mk "/c").join (draftName "B.json" 0)) =
      .ok ⟨["c", "B.json.tmp.1.0"], none, false⟩ := by
    rw [hjoin, locate, hdraftNames.locateAny_of_spot hdraftSpot (by simp [hdraft]), hdraft]
  have hunused := unusedName_of_none hlocate rfl
  have hdraftEntry : tree.entry ((Path.mk "/c").join (tree.unusedName ⟨"/c"⟩ "B.json")) =
      .ok (some ⟨["c", "B.json.tmp.1.0"], none, false⟩) := by
    rw [hunused, hjoin, hdraftNames.entry_eq, hdraftSpot, Except.map, hdraft]
  have hreplace := replaceFile_of_isDirectory (by decide) (by decide) (by decide)
    (isDirectory_cache hroot) hdraftEntry (entry_in_cache hroot) rfl hfile
    (Document.ofEntries "B" es).render.toUTF8.toList
  unfold Directory.put
  rw [hkey]
  exact attempt_eq_ok.2 hreplace

theorem lock_in_cache (hfree : tree.nodes[["c", ".lock"]]? = none) :
    Directory.lock ⟨"/c"⟩ tree = (.ok (), { tree with
      nodes := tree.nodes.insert ["c", ".lock"] (.file (.ofBytes [])) }) := by
  have hpath : lockPath ⟨"/c"⟩ = ⟨"/c/.lock"⟩ := by decide
  have hparent : (Path.mk "/c/.lock").parent? = some ⟨"/c"⟩ := by decide
  have hnames : Names ⟨"/c/.lock"⟩ ["c"] ".lock" := ⟨by decide, by decide, by decide⟩
  have hspot : tree.spot ⟨"/c/.lock"⟩ = .ok ["c", ".lock"] :=
    spot_in_cache hroot hnames (by decide) (by decide) (by decide)
  have hplace : tree.locateAny true ⟨"/c/.lock"⟩ = .ok ⟨["c", ".lock"], none, false⟩ := by
    rw [hnames.locateAny_of_spot hspot (by simp [hfree]), hfree]
  unfold Directory.lock
  rw [hpath, hparent]
  refine attempt_eq_ok.2 ?_
  refine (bind_ok (makeDirectories_of_isDirectory (isDirectory_cache hroot)) _).trans ?_
  exact openFile_of_none hplace

end

theorem key_spellings : key "B" = "B" ∧ key "B$C" = "B" ∧ key "B.C" = "B" := by decide

theorem size_outerEntries :
    (Document.ofEntries "B" outerEntries).render.utf8ByteSize ≤ maxDocumentSize := by
  decide +kernel

/-- What memory holds after the class is kept, and after it is added to. -/
def keptMemory : Memory := ((∅ : Memory).erase (key "B")).insert (key "B") outerEntries

def mergedMemory : Memory :=
  keptMemory.insert (key "B$C") (((keptMemory[key "B$C"]?).getD ∅).union nestedEntries)

theorem getElem?_keptMemory : keptMemory["B"]? = some outerEntries := by
  rw [keptMemory, key_spellings.1, Std.ExtTreeMap.getElem?_insert_self]

theorem getElem?_mergedMemory : mergedMemory["B"]? = some (outerEntries.union nestedEntries) := by
  rw [mergedMemory, key_spellings.2.1, getElem?_keptMemory, Std.ExtTreeMap.getElem?_insert_self,
    Option.getD_some]

theorem fits_nestedRun (n : Nat) : Fits (Memory.store.replies (nestedRun.take n) ∅).2 := by
  have hremoved : Fits ((∅ : Memory).erase (key "B")) := fits_empty.erase _
  have hkept : Fits keptMemory := by
    rw [keptMemory, key_spellings.1]
    exact (fits_empty.erase _).insert size_outerEntries
  have hmerged : Fits mergedMemory := by
    rw [mergedMemory, key_spellings.2.1, getElem?_keptMemory, Option.getD_some]
    exact hkept.insert (by decide +kernel)
  match n with
  | 0 => exact fits_empty
  | 1 => exact hremoved
  | 2 => exact hkept
  | 3 | 4 => exact hmerged
  | n + 5 =>
    rw [List.take_of_length_le (by simp [nestedRun])]
    exact hmerged

/-- The trees after the first operations of the run. -/
def afterPut : FileTree :=
  { emptyCache with
    nodes := emptyCache.nodes.insert ["c", "B.json"] (.file (rendered "B" outerEntries)) }

def afterLock : FileTree :=
  { afterPut with nodes := afterPut.nodes.insert ["c", ".lock"] (.file (.ofBytes [])) }

def afterMerge : FileTree :=
  { afterLock with
    nodes := afterLock.nodes.insert ["c", "B.json"]
      (.file (rendered "B" (outerEntries.union nestedEntries))) }

theorem put_emptyCache : Directory.put ⟨"/c"⟩ "B" outerEntries emptyCache = (.ok (), afterPut) := by
  exact put_in_cache (by decide) key_spellings.1 (by decide) (by decide) _

theorem remove_emptyCache : Directory.remove ⟨"/c"⟩ "B" emptyCache = (.ok (), emptyCache) := by
  have hentry := @entry_in_cache emptyCache (by decide)
  have hfree : emptyCache.nodes[["c", "B.json"]]? = none := by decide
  rw [hfree] at hentry
  unfold Directory.remove
  exact attempt_eq_ok.2 (tryCatch_error (removeFile_of_none hentry) _)

theorem merge_afterPut :
    Directory.merge ⟨"/c"⟩ "B$C" nestedEntries afterPut = (.ok (), afterMerge) := by
  have hd := descend_cacheRoot (by decide : emptyCache.nodes[["c"]]? = some .directory)
  have hempty : emptyCache.below ["c"] = [] := by decide
  have hlock : Directory.lock ⟨"/c"⟩ afterPut = (.ok (), afterLock) :=
    lock_in_cache (by decide) (by decide)
  have hkept := (mirrors_empty hd hempty).put (by decide) put_emptyCache
  have hlocked := hkept.spares hkept.tended.lock
  rw [hlock] at hlocked
  have hget : Directory.get ⟨"/c"⟩ "B$C" afterLock = (some outerEntries, afterLock) := by
    have hfits : Fits ((∅ : Memory).insert (key "B") outerEntries) := by
      rw [key_spellings.1]
      exact fits_empty.insert size_outerEntries
    have hread := hlocked.get_eq (c := "B$C") hfits (by decide)
    rwa [key_spellings.1, key_spellings.2.1, Std.ExtTreeMap.getElem?_insert_self] at hread
  have hput : Directory.put ⟨"/c"⟩ "B$C" (outerEntries.union nestedEntries) afterLock =
      (.ok (), afterMerge) :=
    put_in_cache (by decide) key_spellings.2.1 (by decide) (by decide) _
  rw [Directory.merge, bind_ok hlock, bind_ok (lift_ok hget)]
  exact hput

/-- A class is kept in a directory and added to, under three spellings. -/
theorem replies_nestedRun :
    ((store ⟨"/c"⟩).replies nestedRun emptyCache).1 =
      [.done (.ok ()), .done (.ok ()), .done (.ok ()), .held true,
        .entries (some (outerEntries.union nestedEntries))] := by
  obtain ⟨hB, hBC, hB_C⟩ := key_spellings
  have hbase : emptyCache.directoryAt (emptyCache.startOf ⟨"/c"⟩) (namesOf ⟨"/c"⟩) = .ok ["c"] := by
    rw [directoryAt_eq, descend_cacheRoot (by decide)]
    rfl
  have hempty : emptyCache.below ["c"] = [] := by decide
  have hkeys : ∀ op ∈ nestedRun, IsSettled (key op.className) := by decide
  have hdone : ∀ r ∈ ((store ⟨"/c"⟩).replies nestedRun emptyCache).1, r.Succeeds := by
    simp only [nestedRun, Store.replies_cons, Store.reply_put, Store.reply_merge, Store.reply_get,
      Store.reply_remove, Store.reply_contains, store_put, store_merge, store_remove,
      remove_emptyCache, put_emptyCache, merge_afterPut, List.mem_cons]
    rintro r (rfl | rfl | rfl | rfl | rfl | hr)
    · rfl
    · rfl
    · rfl
    · trivial
    · trivial
    · cases hr
  rw [replies_eq_memory hbase hempty hkeys hdone fits_nestedRun]
  have hmemory : (Memory.store.replies nestedRun ∅).1 = [.done (.ok ()), .done (.ok ()),
      .done (.ok ()), .held (mergedMemory.contains (key "B")), .entries mergedMemory[key "B.C"]?] :=
    rfl
  rw [hmemory, hB, hB_C, Std.ExtTreeMap.contains_eq_isSome_getElem?, getElem?_mergedMemory,
    Option.isSome_some]

end JvmThrows.Cache.Directory
