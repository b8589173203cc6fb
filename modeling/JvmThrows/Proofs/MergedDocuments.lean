import JvmThrows.Proofs.Merging
import JvmThrows.Proofs.MirroredMemory

/-!
# Adding to documents

Runs of merges add up in a directory as they do in memory (`Ready.sums`), and what they leave in the
files depends on the sums only (`Ready.documentAt_eq_of_rearranges`).
-/

namespace JvmThrows.Cache.Directory

open FileTree Entries

variable {root : Path} {base : Location} {links : Nat} {tree tree' : FileTree} {c k : String}
  {es : Entries} {content : Content}

/-- A document that was rendered for the key is not changed by adding what it holds. -/
theorem Tended.merge_within (h : Tended root base links tree) (hk : key (key c) = key c)
    {es es' : Entries} (hdocument : documentAt base tree (key c) = some (rendered (key c) es))
    (hsize : (rendered (key c) es).size ≤ maxDocumentSize) (hwithin : Within es' es) :
    documentAt base (Directory.merge root c es' tree).2 (key c) = some (rendered (key c) es) := by
  have hfits : ∀ content, documentAt base tree (key c) = some content →
      content.size ≤ maxDocumentSize := by
    rintro _ hsame
    cases hdocument.symm.trans hsame
    exact hsize
  rcases h.merge_cases hk hfits es' with ⟨_, hmerge, hset⟩ | ⟨_, _, hmerge, hspares⟩
  · -- Rendered again, the document has the same text, as nothing is new in it.
    rw [hmerge]
    dsimp only
    rw [hset.documentAt_eq, if_pos rfl, entriesAt_of_rendered hdocument, Option.getD_some,
      hwithin.union_eq]
  · rw [hmerge]
    dsimp only
    rw [hspares.documentAt_eq, hdocument]

/-! ### Runs of merges -/

variable {adds adds' : List Addition} {x : Addition}

/-- All documents are small enough to be read. -/
def DocumentsFit (root : Path) (tree : FileTree) : Prop :=
  ∀ c content, tree.find false (documentPath root c) = .ok (.file content) →
    content.size ≤ maxDocumentSize

theorem Tended.get_of_fit (h : Tended root base links tree) (hfit : DocumentsFit root tree)
    (c : String) :
    Directory.get root c tree = (entriesAt base tree (key c), tree) :=
  h.get_eq fun content hdocument => hfit c content (h.find_eq_file_iff.2 hdocument)

/-- A tree on which additions can be made one after the other. -/
structure Ready (root : Path) (base : Location) (links : Nat) (adds : List Addition)
    (tree : FileTree) : Prop where
  tended : Tended root base links tree
  settled : ∀ x ∈ adds, IsSettled (key x.1)
  fit : ∀ n, DocumentsFit root ((store root).mergeAll (adds.take n) tree).2

namespace Ready

theorem fit_now (h : Ready root base links adds tree) : DocumentsFit root tree := h.fit 0

theorem next (h : Ready root base links (x :: adds) tree) :
    Ready root base links adds ((store root).merge x.1 x.2 tree).2 where
  tended := by
    rw [store_merge]
    exact h.tended.merge x.1 x.2
  settled y hy := h.settled y (List.mem_cons_of_mem x hy)
  fit n := by
    have hnext := h.fit (n + 1)
    rwa [List.take_succ_cons, Store.snd_mergeAll_cons] at hnext

theorem merge_cases (h : Ready root base links (x :: adds) tree) :
    (∃ tree', (store root).merge x.1 x.2 tree = (.ok (), tree') ∧
      Sets root base links (key x.1)
        (some (rendered (key x.1) (((entriesAt base tree (key x.1)).getD ∅).union x.2))) tree
        tree') ∨
    ∃ e tree', (store root).merge x.1 x.2 tree = (.error e, tree') ∧
      Spares root base links tree tree' := by
  rw [store_merge]
  exact h.tended.merge_cases (h.settled x List.mem_cons_self).1
    (fun content hdocument => h.fit_now _ content (h.tended.find_eq_file_iff.2 hdocument)) x.2

theorem addsUnder (h : Ready root base links (x :: adds) tree) (hk : IsSettled k) :
    (store root).AddsUnder k (fun tree => (Directory.get root k tree).1) x tree := by
  have hget := h.tended.get_of_fit h.fit_now k
  have hnext := h.next.tended.get_of_fit h.next.fit_now k
  rw [hk.1] at hget hnext
  rcases h.merge_cases with ⟨made, hmerge, hset⟩ | ⟨e, made, hmerge, hspares⟩
  · -- Merged: the key has one more part, all others what they had.
    refine ⟨fun {tree'} hdone => ?_, fun herror => ?_⟩
    · cases hmerge.symm.trans hdone
      rw [hdone] at hnext
      dsimp only at hnext ⊢
      have hdocument := hset.documentAt_eq k
      rw [hget, hnext]
      by_cases hkey : key x.1 = k
      · rw [hkey, if_pos rfl] at hdocument
        rw [if_pos hkey, entriesAt_of_rendered hdocument]
      · -- Settled keys have their documents in different places.
        have hnames : documentNames k ≠ documentNames (key x.1) := fun hsame =>
          hkey (documentNames_inj hk.2 (h.settled x List.mem_cons_self).2 hsame).symm
        rw [if_neg hnames] at hdocument
        rw [if_neg hkey, entriesAt, hdocument]
        rfl
    · cases hmerge.symm.trans herror
  · -- Not merged: only directories may be new.
    refine ⟨fun hdone => ?_, fun {e' tree'} herror => ?_⟩
    · cases hmerge.symm.trans hdone
    · cases hmerge.symm.trans herror
      rw [herror] at hnext
      dsimp only at hnext ⊢
      rw [hget, hnext, hspares.entriesAt_eq]

/-- Runs of merges add up. -/
theorem sums (h : Ready root base links adds tree) (hk : IsSettled k) :
    Sums (Directory.get root k ((store root).mergeAll adds tree).2).1
      (partsOf (Directory.get root k tree).1 k ((store root).mergeAll adds tree).1) :=
  Store.sums_mergeAll (fun tree => (Directory.get root k tree).1) (Ready root base links)
    (fun hready => ⟨hready.addsUnder hk, hready.next⟩) adds h (sums_self _)

theorem last (h : Ready root base links adds tree) :
    Tended root base links ((store root).mergeAll adds tree).2 ∧
      DocumentsFit root ((store root).mergeAll adds tree).2 := by
  refine ⟨?_, ?_⟩
  · induction adds generalizing tree with
    | nil => exact h.tended
    | cons x adds ih =>
      rw [Store.snd_mergeAll_cons]
      exact ih h.next
  · have hfit := h.fit adds.length
    rwa [List.take_length] at hfit

/-- After a run a document is as it was, or has been rendered for an addition. -/
theorem documentAt_cases (h : Ready root base links adds tree) (k : String) :
    (∀ x ∈ ((store root).mergeAll adds tree).1, documentNames (key x.1) ≠ documentNames k) ∧
      documentAt base ((store root).mergeAll adds tree).2 k = documentAt base tree k ∨
    ∃ x ∈ ((store root).mergeAll adds tree).1, documentNames (key x.1) = documentNames k ∧
      ∃ es, documentAt base ((store root).mergeAll adds tree).2 k =
        some (rendered (key x.1) es) := by
  induction adds generalizing tree with
  | nil => exact .inl ⟨nofun, rfl⟩
  | cons x adds ih =>
    have hnext := ih h.next
    rcases h.merge_cases with ⟨made, hmerge, hset⟩ | ⟨e, made, hmerge, hspares⟩
    · rw [hmerge] at hnext
      rw [Store.mergeAll_of_ok hmerge]
      rcases hnext with ⟨hothers, hsame⟩ | ⟨y, hy, hnames, hrendered⟩
      · rw [hset.documentAt_eq] at hsame
        by_cases hnames : documentNames k = documentNames (key x.1)
        · -- The last addition for the place has rendered its document.
          rw [if_pos hnames] at hsame
          exact .inr ⟨x, List.mem_cons_self, hnames.symm, _, hsame⟩
        · rw [if_neg hnames] at hsame
          refine .inl ⟨fun y hy => ?_, hsame⟩
          rcases List.mem_cons.1 hy with rfl | hrest
          · exact Ne.symm hnames
          · exact hothers y hrest
      · exact .inr ⟨y, List.mem_cons_of_mem x hy, hnames, hrendered⟩
    · rw [hmerge] at hnext
      rw [Store.mergeAll_of_error hmerge]
      rw [hspares.documentAt_eq] at hnext
      exact hnext

/-- Where there is room, everything is added. -/
theorem fst_mergeAll (h : Ready root base links adds tree)
    (hroom : ∀ x ∈ adds, HasRoom root x.1) : ((store root).mergeAll adds tree).1 = adds := by
  induction adds generalizing tree with
  | nil => rfl
  | cons x adds ih =>
    have hk := (h.settled x List.mem_cons_self).1
    obtain ⟨made, hmerge⟩ := h.tended.merge_ok (hroom x List.mem_cons_self) hk x.2
    rw [← store_merge] at hmerge
    have hnext := h.next
    rw [hmerge] at hnext
    rw [Store.mergeAll_of_ok hmerge]
    exact congrArg (x :: ·) (ih hnext fun y hy => hroom y (List.mem_cons_of_mem x hy))

theorem exists_rendered_of_mem (h : Ready root base links adds tree)
    (hx : x ∈ ((store root).mergeAll adds tree).1) :
    ∃ es, documentAt base ((store root).mergeAll adds tree).2 (key x.1) =
      some (rendered (key x.1) es) := by
  rcases h.documentAt_cases (key x.1) with ⟨hothers, -⟩ | ⟨y, hy, hnames, hrendered⟩
  · -- One of the additions, so that the document is not the old one.
    exact absurd rfl (hothers x hx)
  · have hkey : key y.1 = key x.1 :=
      documentNames_inj (h.settled y (Store.mem_of_mem_mergeAll hy)).2
        (h.settled x (Store.mem_of_mem_mergeAll hx)).2 hnames
    rwa [hkey] at hrendered

/-- What a rendered document says is found. -/
theorem get_of_rendered (h : Ready root base links adds tree) {k' : String}
    (hdocument : documentAt base ((store root).mergeAll adds tree).2 (key c) =
      some (rendered k' es)) :
    (Directory.get root c ((store root).mergeAll adds tree).2).1 = some es := by
  rw [h.last.1.get_of_fit h.last.2, entriesAt_of_rendered hdocument]

/-- Runs that add the same leave the same documents. -/
theorem documentAt_eq_of_rearranges (h : Ready root base links adds tree)
    (h' : Ready root base links adds' tree)
    (hsame : Rearranges ((store root).mergeAll adds tree).1 ((store root).mergeAll adds' tree).1)
    (k : String) :
    documentAt base ((store root).mergeAll adds tree).2 k =
      documentAt base ((store root).mergeAll adds' tree).2 k := by
  have hkeys {l l' : List Addition} (hl : Rearranges l l') {x : Addition} (hx : x ∈ l) :
      ∃ y ∈ l', key y.1 = key x.1 := by
    obtain ⟨es, c, hmem, hkey⟩ := (hl.agree (key x.1)).nonempty_iff.1 ⟨x.2, x.1, hx, rfl⟩
    exact ⟨(c, es), hmem, hkey⟩
  rcases h.documentAt_cases k with ⟨hothers, hkept⟩ | ⟨x, hx, hnames, -⟩
  · rcases h'.documentAt_cases k with ⟨-, hkept'⟩ | ⟨y, hy, hnames, -⟩
    · rw [hkept, hkept']
    · -- Written by one of the runs only, which cannot be.
      obtain ⟨x, hx, hkey⟩ := hkeys hsame.symm hy
      exact absurd (hkey ▸ hnames) (hothers x hx)
  · -- Both runs have rendered the document, and from the same sum.
    obtain ⟨y, hy, hkey⟩ := hkeys hsame hx
    have hk := h.settled x (Store.mem_of_mem_mergeAll hx)
    obtain ⟨es, hdocument⟩ := h.exists_rendered_of_mem hx
    obtain ⟨es', hdocument'⟩ := h'.exists_rendered_of_mem hy
    rw [hkey] at hdocument'
    have hget := h.get_of_rendered (hk.1.symm ▸ hdocument)
    have hget' := h'.get_of_rendered (hk.1.symm ▸ hdocument')
    have hsums := (h.sums hk).eq_of_agree (h'.sums hk) ((hsame.agree _).union _)
    rw [hget, hget'] at hsums
    rw [← documentAt_of_names hnames, ← documentAt_of_names hnames, hdocument, hdocument',
      Option.some.inj hsums]

end Ready

/-- Only the store has written below the root since that was an empty directory. -/
def StoreWritten (root : Path) (tree : FileTree) : Prop :=
  ∃ start base ops, start.directoryAt (start.startOf root) (namesOf root) = .ok base ∧
    start.below base = [] ∧ ((store root).replies ops start).2 = tree

theorem StoreWritten.tended (h : StoreWritten root tree) :
    ∃ base links, Tended root base links tree := by
  obtain ⟨start, base, ops, hbase, hempty, rfl⟩ := h
  obtain ⟨links, hd⟩ := exists_descend_of_directoryAt hbase
  have hstart := (tended_of_below hd hempty).1
  exact ⟨base, links, hstart.replies ops⟩

/-- **Merges add up.** What a run of merges leaves under a key is the union of what was there and of
all that was added. In memory no merge fails, and in a directory only one that needs names or paths
that no file can have, which then adds nothing. So the order of merges, repeating them and putting
them together makes no difference, to what memory holds and to the bytes of documents. A document is
rendered from its entries, and adding what it holds already leaves it as it is. -/
theorem merges_add_up :
    (∀ (memory : Memory) (adds : List Addition),
      (Memory.store.mergeAll adds memory).1 = adds ∧
      (∀ k, Sums (Memory.store.mergeAll adds memory).2[k]? (partsOf memory[k]? k adds)) ∧
      ∀ adds', Rearranges adds adds' →
        (Memory.store.mergeAll adds' memory).2 = (Memory.store.mergeAll adds memory).2) ∧
    ∀ (root : Path) (tree : FileTree) (adds : List Addition), StoreWritten root tree →
      (∀ x ∈ adds, IsSettled (key x.1)) →
      (∀ n, DocumentsFit root ((store root).mergeAll (adds.take n) tree).2) →
      ((∀ x ∈ adds, HasRoom root x.1) → ((store root).mergeAll adds tree).1 = adds) ∧
      (∀ k, IsSettled k →
        Sums ((store root).get k ((store root).mergeAll adds tree).2).1
          (partsOf ((store root).get k tree).1 k ((store root).mergeAll adds tree).1)) ∧
      (∀ adds', (∀ x ∈ adds', IsSettled (key x.1)) →
        (∀ n, DocumentsFit root ((store root).mergeAll (adds'.take n) tree).2) →
        Rearranges ((store root).mergeAll adds tree).1 ((store root).mergeAll adds' tree).1 →
        ∀ c content,
          ((store root).mergeAll adds' tree).2.find false (documentPath root c) =
              .ok (.file content) ↔
            ((store root).mergeAll adds tree).2.find false (documentPath root c) =
              .ok (.file content)) ∧
      (∀ x ∈ ((store root).mergeAll adds tree).1, ∃ es,
        ((store root).get x.1 ((store root).mergeAll adds tree).2).1 = some es ∧
        ((store root).mergeAll adds tree).2.find false (documentPath root x.1) =
          .ok (.file (rendered (key x.1) es))) ∧
      ∀ c es es', IsSettled (key c) →
        tree.find false (documentPath root c) = .ok (.file (rendered (key c) es)) →
        Within es' es →
        ((store root).merge c es' tree).2.find false (documentPath root c) =
          .ok (.file (rendered (key c) es)) := by
  refine ⟨fun memory adds => ⟨Memory.fst_mergeAll memory adds, Memory.sums_mergeAll memory adds,
    fun adds' hsame => (Memory.mergeAll_eq_of_rearranges memory hsame).symm⟩, ?_⟩
  intro root tree adds hwritten hsettled hfit
  obtain ⟨base, links, htended⟩ := hwritten.tended
  have hready : Ready root base links adds tree := ⟨htended, hsettled, hfit⟩
  refine ⟨hready.fst_mergeAll, fun k hk => hready.sums hk, ?_, ?_, ?_⟩
  · intro adds' hsettled' hfit' hsame c content
    have hready' : Ready root base links adds' tree := ⟨htended, hsettled', hfit'⟩
    rw [hready'.last.1.find_eq_file_iff, hready.last.1.find_eq_file_iff,
      hready.documentAt_eq_of_rearranges hready' hsame]
  · intro x hx
    obtain ⟨es, hdocument⟩ := hready.exists_rendered_of_mem hx
    exact ⟨es, hready.get_of_rendered hdocument, hready.last.1.find_eq_file_iff.2 hdocument⟩
  · intro c es es' hk hfind hwithin
    rw [store_merge]
    exact (htended.merge c es').find_eq_file_iff.2 (htended.merge_within hk.1
      (htended.find_eq_file_iff.1 hfind) (hready.fit_now c _ hfind) hwithin)

/-! ### A run -/

/-- All files are small enough to be read as documents. -/
def FilesFit (tree : FileTree) : Prop :=
  ∀ (location : Location) (content : Content), tree.nodes[location]? = some (.file content) →
    content.size ≤ maxDocumentSize

theorem FilesFit.insert (h : FilesFit tree) (location : Location)
    (hsize : content.size ≤ maxDocumentSize) :
    FilesFit { tree with nodes := tree.nodes.insert location (.file content) } := by
  intro location' content' hnode
  rw [Std.ExtTreeMap.getElem?_insert] at hnode
  split at hnode
  · -- The file that is new.
    cases hnode
    exact hsize
  · exact h location' content' hnode

theorem FilesFit.documentsFit (h : FilesFit tree) (root : Path) : DocumentsFit root tree := by
  intro c content hfind
  rw [(names_documentPath root c).find_eq] at hfind
  cases hspot : tree.spot (documentPath root c) with
  | error e =>
    rw [hspot] at hfind
    cases hfind
  | ok location =>
    rw [hspot] at hfind
    cases hnode : tree.nodes[location]? with
    | none => simp [bind, Except.bind, hnode] at hfind
    | some node =>
      obtain rfl : node = .file content := by simpa [bind, Except.bind, hnode] using hfind
      exact h location content hnode

theorem filesFit_afterPut : FilesFit afterPut := by
  have hempty : FilesFit emptyCache := by
    intro location content hnode
    simp [emptyCache, Std.ExtTreeMap.getElem?_insert] at hnode
  exact hempty.insert _ ((size_rendered _ _).trans_le size_outerEntries)

theorem filesFit_afterMerge : FilesFit afterMerge := by
  have hsize : (Document.ofEntries "B" (outerEntries.union nestedEntries)).render.utf8ByteSize ≤
      maxDocumentSize := by decide +kernel
  have hlock : (Content.ofBytes []).size ≤ maxDocumentSize := by decide
  have hlocked : FilesFit afterLock := filesFit_afterPut.insert _ hlock
  exact hlocked.insert _ ((size_rendered _ _).trans_le hsize)

theorem storeWritten_afterPut : StoreWritten ⟨"/c"⟩ afterPut := by
  refine ⟨emptyCache, ["c"], [.put "B" outerEntries], ?_, by decide, ?_⟩
  · rw [directoryAt_eq, descend_cacheRoot (by decide)]
    rfl
  · rw [Store.replies_cons, Store.reply_put, store_put, put_emptyCache]
    rfl

theorem hasRoom_nested : HasRoom ⟨"/c"⟩ "B$C" :=
  ⟨by decide, by decide, by decide, by decide⟩

/-- A class is kept, and a nested class is added to it; adding the class again changes nothing. -/
theorem merges_add_up_nested :
    ((store ⟨"/c"⟩).mergeAll [("B$C", nestedEntries)] afterPut).1 = [("B$C", nestedEntries)] ∧
      Sums ((store ⟨"/c"⟩).get "B" afterMerge).1
          (partsOf ((store ⟨"/c"⟩).get "B" afterPut).1 "B" [("B$C", nestedEntries)]) ∧
      ((store ⟨"/c"⟩).merge "B" outerEntries afterPut).2.find false (documentPath ⟨"/c"⟩ "B") =
        .ok (.file (rendered "B" outerEntries)) := by
  have hmerge : (store ⟨"/c"⟩).merge "B$C" nestedEntries afterPut = (.ok (), afterMerge) := by
    rw [store_merge]
    exact merge_afterPut
  have hrun : (store ⟨"/c"⟩).mergeAll [("B$C", nestedEntries)] afterPut =
      ([("B$C", nestedEntries)], afterMerge) := Store.mergeAll_of_ok hmerge []
  have hsettled : ∀ x ∈ [("B$C", nestedEntries)], IsSettled (key x.1) := by
    intro x hx
    rw [List.mem_singleton.1 hx]
    decide
  have hroom : ∀ x ∈ [("B$C", nestedEntries)], HasRoom ⟨"/c"⟩ x.1 := by
    intro x hx
    rw [List.mem_singleton.1 hx]
    exact hasRoom_nested
  have hfit (n : Nat) : DocumentsFit ⟨"/c"⟩
      ((store ⟨"/c"⟩).mergeAll (([("B$C", nestedEntries)] : List Addition).take n) afterPut).2 := by
    cases n with
    | zero => exact filesFit_afterPut.documentsFit _
    | succ n =>
      rw [List.take_succ_cons, List.take_nil, hrun]
      exact filesFit_afterMerge.documentsFit _
  obtain ⟨hall, hsums, -, -, hbytes⟩ := merges_add_up.2 ⟨"/c"⟩ afterPut [("B$C", nestedEntries)]
    storeWritten_afterPut hsettled hfit
  rw [hrun] at hsums
  have hfind : afterPut.find false (documentPath ⟨"/c"⟩ "B") =
      .ok (.file (rendered "B" outerEntries)) := by
    have hnames : Names (documentPath ⟨"/c"⟩ "B") ["c"] "B.json" :=
      ⟨by decide, by decide, by decide⟩
    rw [hnames.find_eq, spot_in_cache (by decide) hnames (by decide) (by decide) (by decide)]
    simp [bind, Except.bind, afterPut]
  have hsame := hbytes "B" outerEntries outerEntries (by decide)
  rw [key_spellings.1] at hsame
  exact ⟨hall hroom, hsums "B" (by decide), hsame hfind ⟨fun _ h => h, fun _ _ h => h⟩⟩

end JvmThrows.Cache.Directory
