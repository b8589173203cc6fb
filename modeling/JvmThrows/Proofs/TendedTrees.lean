import JvmThrows.Proofs.DocumentWrites

/-!
# Trees that only a store has written to

Below a root that nothing but the store has written to, every file in the place of a document is one
that the store has rendered, and it can be reached (`Tended`). All operations keep that, whatever
comes of them and whichever classes they name (`Tended.replies`). On such a tree a merge writes the
union of the document and of what is added, or fails and touches no document
(`Tended.merge_cases`); if files may have the names and paths it uses, it does not fail
(`Tended.merge_ok`).
-/

namespace JvmThrows.Cache.Directory

open FileTree

variable {root : Path} {base : Location} {links : Nat} {tree tree' : FileTree} {c k : String}
  {es : Entries} {content : Content}

/-! ### Documents below a directory -/

/-- The document of a key below a directory, if there is a file in its place. -/
def documentAt (base : Location) (tree : FileTree) (k : String) : Option Content :=
  match tree.nodes[base ++ documentNames k]? with
  | some (.file content) => some content
  | _ => none

theorem documentAt_eq_some :
    documentAt base tree k = some content ↔
      tree.nodes[base ++ documentNames k]? = some (.file content) := by
  unfold documentAt
  rcases tree.nodes[base ++ documentNames k]? with - | (_ | _ | _) <;> simp

theorem documentAt_of_names {k' : String} (h : documentNames k = documentNames k') :
    documentAt base tree k = documentAt base tree k' := by
  rw [documentAt, documentAt, h]

theorem documentPath_of_names {c' : String} (h : documentNames (key c) = documentNames (key c')) :
    documentPath root c = documentPath root c' := by
  rw [documentPath_eq_foldl, documentPath_eq_foldl, h]

theorem documentAt_gains (h : Gains tree tree') (k : String) :
    documentAt base tree' k = documentAt base tree k :=
  Option.ext fun content => by
    rw [documentAt_eq_some, documentAt_eq_some, h.getElem?_file_iff]

theorem documentAt_insert (k k' : String) :
    documentAt base
        { tree with nodes := tree.nodes.insert (base ++ documentNames k) (.file content) } k' =
      if documentNames k' = documentNames k then some content else documentAt base tree k' := by
  unfold documentAt
  rw [Std.ExtTreeMap.getElem?_insert]
  by_cases h : documentNames k' = documentNames k
  · simp [h]
  · simp [h, Ne.symm h]

theorem documentAt_erase (k k' : String) :
    documentAt base { tree with nodes := tree.nodes.erase (base ++ documentNames k) } k' =
      if documentNames k' = documentNames k then none else documentAt base tree k' := by
  unfold documentAt
  rw [Std.ExtTreeMap.getElem?_erase]
  by_cases h : documentNames k' = documentNames k
  · simp [h]
  · simp [h, Ne.symm h]

theorem documentAt_insert_lock (k : String) :
    documentAt base
        { tree with nodes := tree.nodes.insert (base ++ [".lock"]) (.file content) } k =
      documentAt base tree k := by
  have hne : [".lock"] ≠ documentNames k := (documentNames_ne_lock k).symm
  simp [documentAt, Std.ExtTreeMap.getElem?_insert, hne]

/-- The entries that are read from a document. -/
def entriesIn (content : Content) : Option Entries :=
  match reading Document.ofBytes content with
  | .ok d => some d.entries
  | .error _ => none

theorem entriesIn_rendered (k : String) (es : Entries) : entriesIn (rendered k es) = some es := by
  have hread : reading Document.ofBytes (rendered k es) = .ok (Document.ofEntries k es) :=
    Document.ofBytes_render k es
  rw [entriesIn, hread]
  exact congrArg some (Document.entries_ofEntries k es)

/-- The entries in the document of a key. -/
def entriesAt (base : Location) (tree : FileTree) (k : String) : Option Entries :=
  (documentAt base tree k).bind entriesIn

theorem entriesAt_of_rendered {k' : String} (h : documentAt base tree k = some (rendered k' es)) :
    entriesAt base tree k = some es := by
  rw [entriesAt, h, Option.bind_some, entriesIn_rendered]

/-! ### Trees that only the store has written to -/

/-- Below the root there are no links, the files in the places of documents have been rendered for
some class and can be reached, and files and directories never have the same names. -/
structure Tended (root : Path) (base : Location) (links : Nat) (tree : FileTree) : Prop where
  descend_eq : tree.descend maxLinks (tree.startOf root) (namesOf root) = .ok (base, links)
  linkFree : tree.LinkFree base
  spot_eq : ∀ {c content}, documentAt base tree (key c) = some content →
    tree.spot (documentPath root c) = .ok (base ++ documentNames (key c))
  exists_rendered : ∀ {c content}, documentAt base tree (key c) = some content →
    ∃ k es, content = rendered k es
  /-- no directory has a dot in its name -/
  plain_of_directory : ∀ {names name}, tree.nodes[base ++ (names ++ [name])]? = some .directory →
    '.' ∉ name.toList
  /-- every file has the name of a document or is the one to lock -/
  named_of_file : ∀ {names name content},
    tree.nodes[base ++ (names ++ [name])]? = some (.file content) →
      name = ".lock" ∨ ∃ k, name = fileName k

/-- The tree is still tended, and the documents are the same. -/
structure Spares (root : Path) (base : Location) (links : Nat) (tree tree' : FileTree) : Prop where
  tended : Tended root base links tree'
  documentAt_eq : ∀ k, documentAt base tree' k = documentAt base tree k

/-- The tree is still tended, and one key has the given document now, or none. -/
structure Sets (root : Path) (base : Location) (links : Nat) (k : String)
    (document : Option Content) (tree tree' : FileTree) : Prop where
  tended : Tended root base links tree'
  documentAt_eq : ∀ k', documentAt base tree' k' =
    if documentNames k' = documentNames k then document else documentAt base tree k'

theorem Spares.entriesAt_eq (h : Spares root base links tree tree') (k : String) :
    entriesAt base tree' k = entriesAt base tree k := by
  rw [entriesAt, entriesAt, h.documentAt_eq]

theorem Spares.trans {tree'' : FileTree} (h : Spares root base links tree tree')
    (h' : Spares root base links tree' tree'') : Spares root base links tree tree'' :=
  ⟨h'.tended, fun k => (h'.documentAt_eq k).trans (h.documentAt_eq k)⟩

theorem Spares.sets {tree'' : FileTree} {document : Option Content}
    (h : Spares root base links tree tree') (h' : Sets root base links k document tree' tree'') :
    Sets root base links k document tree tree'' :=
  ⟨h'.tended, fun k' => by rw [h'.documentAt_eq, h.documentAt_eq]⟩

namespace Tended

theorem hosts (h : Tended root base links tree) : Hosts root base links tree :=
  ⟨h.descend_eq, h.linkFree⟩

/-- Documents that were there before may be kept, and others may be rendered in their places. -/
theorem of_keeps (h : Tended root base links tree) (hkeeps : Keeps tree tree')
    (hlinks : ∀ {location : Location} {target : Path},
      tree'.nodes[location]? = some (.link target) → tree.nodes[location]? = some (.link target))
    (hdocuments : ∀ {c content}, documentAt base tree' (key c) = some content →
      documentAt base tree (key c) = some content ∨
        tree.spot (documentPath root c) = .ok (base ++ documentNames (key c)) ∧
          ∃ k es, content = rendered k es)
    (hdirectories : ∀ {names name},
      tree'.nodes[base ++ (names ++ [name])]? = some .directory →
        tree.nodes[base ++ (names ++ [name])]? = some .directory ∨ '.' ∉ name.toList)
    (hfiles : ∀ {names name content},
      tree'.nodes[base ++ (names ++ [name])]? = some (.file content) →
        tree.nodes[base ++ (names ++ [name])]? = some (.file content) ∨
          name = ".lock" ∨ ∃ k, name = fileName k) :
    Tended root base links tree' where
  descend_eq := (h.hosts.of_keeps hkeeps hlinks).descend_eq
  linkFree := (h.hosts.of_keeps hkeeps hlinks).linkFree
  spot_eq hdocument := by
    rcases hdocuments hdocument with hold | ⟨hspot, -⟩
    · -- Old documents stay where they are.
      exact hkeeps.spot (h.spot_eq hold)
    · exact hkeeps.spot hspot
  exists_rendered hdocument := by
    rcases hdocuments hdocument with hold | ⟨-, hrendered⟩
    · exact h.exists_rendered hold
    · exact hrendered
  plain_of_directory hnode := (hdirectories hnode).elim h.plain_of_directory id
  named_of_file hnode := (hfiles hnode).elim h.named_of_file id

theorem refl (h : Tended root base links tree) : Spares root base links tree tree :=
  ⟨h, fun _ => rfl⟩

/-- A document that is missing can be taken for a removed one. -/
theorem sets_none (h : Tended root base links tree) (hnone : documentAt base tree k = none) :
    Sets root base links k none tree tree := by
  refine ⟨h, fun k' => ?_⟩
  split
  · rename_i hnames
    rw [documentAt_of_names hnames, hnone]
  · rfl

theorem gains {ds : List String} (h : Tended root base links tree)
    (hgains : GainsBelow base ds tree tree') (hplain : ∀ d ∈ ds, '.' ∉ d.toList) :
    Spares root base links tree tree' := by
  have hsame (k : String) : documentAt base tree' k = documentAt base tree k :=
    documentAt_gains hgains.toGains k
  refine ⟨h.of_keeps hgains.keeps (fun {location target} hlink => ?_) (fun hdoc => ?_)
    (fun {names name} hnode => ?_) (fun hnode => .inl (hgains.getElem?_file_iff.1 hnode)), hsame⟩
  · -- Directories are all that is new, and no links.
    rcases hgains.getElem?_cases location with hkept | ⟨-, hdir⟩
    · rwa [hkept] at hlink
    · cases hdir.symm.trans hlink
  · rw [hsame] at hdoc
    exact .inl hdoc
  · rcases hgains.getElem?_cases (base ++ (names ++ [name])) with hkept | ⟨hnone, hdir⟩
    · exact .inl (hkept.symm.trans hnode)
    · -- New directories have the names of packages, which have no dots.
      obtain ⟨front, -, hfront, heq⟩ := hgains.of_gained _ hnone hdir
      refine .inr (hplain name (hfront.subset ?_))
      rw [← List.append_cancel_left heq]
      simp

theorem insert (h : Tended root base links tree)
    (hspot : tree.spot (documentPath root c) = .ok (base ++ documentNames (key c)))
    (hdir : tree.nodes[base ++ documentNames (key c)]? ≠ some .directory) (k : String)
    (es : Entries) :
    Sets root base links (key c) (some (rendered k es)) tree { tree with
      nodes := tree.nodes.insert (base ++ documentNames (key c)) (.file (rendered k es)) } := by
  have hfile : ∀ node, tree.nodes[base ++ documentNames (key c)]? = some node →
      ∃ old, node = .file old := by
    rintro (old | _ | target) hnode
    · exact ⟨old, rfl⟩
    · exact absurd hnode hdir
    · -- There are no links below the directory.
      exact absurd hnode (h.linkFree.ne_link (documentNames_ne_nil _) target)
  refine ⟨h.of_keeps (keeps_insert_file hfile) (keeps_of_insert_file.getElem?_eq (by simp))
    (fun {c' content} hdoc => ?_)
    (fun hnode => .inl (keeps_of_insert_file.getElem?_eq (by simp) hnode))
    (fun {names name content} hnode => ?_), documentAt_insert _⟩
  · rw [documentAt_insert] at hdoc
    split at hdoc
    · -- Keys with the same place have the same path.
      rename_i hnames
      cases hdoc
      rw [documentPath_of_names hnames, hnames]
      exact .inr ⟨hspot, k, es, rfl⟩
    · exact .inl hdoc
  · rw [Std.ExtTreeMap.getElem?_insert] at hnode
    split at hnode
    · rename_i heq
      -- The only new file is the document.
      have hnames := List.append_cancel_left (Std.LawfulEqOrd.eq_of_compare heq)
      have hlast := congrArg List.getLast? hnames
      rw [documentNames, List.getLast?_concat, List.getLast?_concat] at hlast
      exact .inr (.inr ⟨key c, (Option.some.inj hlast).symm⟩)
    · exact .inl hnode

theorem erase (h : Tended root base links tree)
    (hfile : ∀ node, tree.nodes[base ++ documentNames k]? = some node → ∃ old, node = .file old) :
    Sets root base links k none tree
      { tree with nodes := tree.nodes.erase (base ++ documentNames k) } := by
  refine ⟨h.of_keeps (keeps_erase_file hfile) getElem?_of_erase (fun {c content} hdoc => ?_)
    (fun hnode => .inl (getElem?_of_erase hnode)) (fun hnode => .inl (getElem?_of_erase hnode)),
    documentAt_erase _⟩
  rw [documentAt_erase] at hdoc
  split at hdoc
  · cases hdoc
  · exact .inl hdoc

theorem insert_lock (h : Tended root base links tree)
    (hnone : tree.nodes[base ++ [".lock"]]? = none) (content : Content) :
    Spares root base links tree
      { tree with nodes := tree.nodes.insert (base ++ [".lock"]) (.file content) } := by
  refine ⟨h.of_keeps (keeps_insert_file (by simp [hnone]))
    (keeps_of_insert_file.getElem?_eq (by simp)) (fun {c content} hdoc => ?_)
    (fun hnode => .inl (keeps_of_insert_file.getElem?_eq (by simp) hnode))
    (fun {names name content} hnode => ?_), documentAt_insert_lock⟩
  · rw [documentAt_insert_lock] at hdoc
    exact .inl hdoc
  · rw [Std.ExtTreeMap.getElem?_insert] at hnode
    split at hnode
    · rename_i heq
      -- The only new file is the lock.
      have hnames := List.append_cancel_left (Std.LawfulEqOrd.eq_of_compare heq)
      have hlast := congrArg List.getLast? hnames
      rw [List.getLast?_singleton, List.getLast?_concat] at hlast
      exact .inr (.inl (Option.some.inj hlast).symm)
    · exact .inl hnode

/-! #### Operations, whatever comes of them -/

theorem find_eq_file_iff (h : Tended root base links tree) :
    tree.find false (documentPath root c) = .ok (.file content) ↔
      documentAt base tree (key c) = some content := by
  rw [find_documentPath_eq_file_iff h.descend_eq h.linkFree, ← documentAt_eq_some]
  exact ⟨And.right, fun hdocument => ⟨h.spot_eq hdocument, hdocument⟩⟩

theorem not_file (h : Tended root base links tree) (hnone : documentAt base tree (key c) = none)
    (content : Content) : tree.find false (documentPath root c) ≠ .ok (.file content) := by
  intro hfind
  cases hnone.symm.trans (h.find_eq_file_iff.1 hfind)

/-- Removing takes away the document, and fails only where there is none. -/
theorem removeFile (h : Tended root base links tree) (c : String) :
    Sets root base links (key c) none tree (removeFile (documentPath root c) tree).2 := by
  cases hdocument : documentAt base tree (key c) with
  | some content =>
    rw [removeFile_of_find h.descend_eq h.linkFree (h.find_eq_file_iff.2 hdocument)]
    exact h.erase (by simp [documentAt_eq_some.1 hdocument])
  | none =>
    obtain ⟨e, hfail⟩ := removeFile_of_not_file h.descend_eq h.linkFree (h.not_file hdocument)
    rw [hfail]
    exact h.sets_none hdocument

theorem refused (h : Tended root base links tree) (c : String) :
    Tended root base links (refused (documentPath root c) tree) := by
  unfold Directory.refused
  split
  · dsimp only [discard]
    exact (h.removeFile c).tended
  · exact h

theorem readAs {α : Type} (h : Tended root base links tree) (read : Bytes → Except CacheError α)
    (c : String) : Tended root base links (readAs read (documentPath root c) tree).2 := by
  rcases readDocument_cases (documentPath root c) tree with ⟨content, hcontent, hrefused⟩ | hnone
  · rw [readAs_of_content hcontent hrefused]
    cases reading read content with
    | ok a => exact h
    | error e =>
      dsimp only
      exact h.refused c
  · rw [readAs_of_refused hnone]
    dsimp only
    exact h.refused c

theorem get (h : Tended root base links tree) (c : String) :
    Tended root base links (get root c tree).2 := by
  have hread := h.readAs Document.ofBytes c
  rcases hdocument : Directory.readAs Document.ofBytes (documentPath root c) tree with ⟨d, made⟩
  rw [hdocument] at hread
  rw [Directory.get, bind_eq hdocument]
  exact hread

theorem contains (h : Tended root base links tree) (c : String) :
    Tended root base links (contains root c tree).2 := by
  have hread := h.readAs Document.checkHeader c
  rcases hdocument : Directory.readAs Document.checkHeader (documentPath root c) tree with ⟨d, made⟩
  rw [hdocument] at hread
  rw [Directory.contains, bind_eq hdocument]
  exact hread

/-- A file is written in the place of the document, or none is and there are more directories. -/
theorem replaceFile_cases (h : Tended root base links tree) (c k : String) (es : Entries) :
    (∃ tree', replaceFile (documentPath root c) (Document.ofEntries k es).render.toUTF8.toList
      tree = (.ok (), tree') ∧ Sets root base links (key c) (some (rendered k es)) tree tree') ∨
    ∃ e tree', replaceFile (documentPath root c) (Document.ofEntries k es).render.toUTF8.toList
      tree = (.error e, tree') ∧ Spares root base links tree tree' := by
  rcases h.hosts.replaceFile_cases c (Document.ofEntries k es).render.toUTF8.toList with
    ⟨made, hgains, hspot, hdir, hdone⟩ | ⟨e, made, hfail, hgains⟩
  · have hmade := h.gains hgains fun _ => dot_not_mem_of_mem_directoryNames
    exact .inl ⟨_, hdone, hmade.sets (hmade.tended.insert hspot hdir k es)⟩
  · exact .inr ⟨e, made, hfail, h.gains hgains fun _ => dot_not_mem_of_mem_directoryNames⟩

theorem put_cases (h : Tended root base links tree) (c : String) (es : Entries) :
    (∃ tree', put root c es tree = (.ok (), tree') ∧
      Sets root base links (key (key c)) (some (rendered (key c) es)) tree tree') ∨
    ∃ e tree', put root c es tree = (.error e, tree') ∧ Spares root base links tree tree' := by
  unfold put attempt
  rcases h.replaceFile_cases (key c) (key c) es with
    ⟨tree', hdone, hset⟩ | ⟨e, tree', hfail, hsame⟩
  · exact .inl ⟨tree', by rw [hdone], hset⟩
  · exact .inr ⟨.file e, tree', by rw [hfail], hsame⟩

theorem lock (h : Tended root base links tree) :
    Spares root base links tree (lock root tree).2 := by
  rcases h.hosts.lock_cases with ⟨e, hfail⟩ | hsame | ⟨hnone, hmade⟩
  · rw [hfail]
    exact h.refl
  · rw [hsame]
    exact h.refl
  · rw [hmade]
    exact h.insert_lock hnone _

theorem merge (h : Tended root base links tree) (c : String) (es : Entries) :
    Tended root base links (merge root c es tree).2 := by
  have hlock := h.lock.tended
  rcases hlocked : Directory.lock root tree with ⟨e | ⟨⟩, locked⟩
  · rw [hlocked] at hlock
    rw [Directory.merge, bind_error hlocked]
    exact hlock
  · rw [hlocked] at hlock
    have hget := hlock.get c
    rcases hgot : Directory.get root c locked with ⟨old, read⟩
    rw [hgot] at hget
    rw [Directory.merge, bind_ok hlocked, bind_ok (lift_ok hgot)]
    rcases hget.put_cases c ((old.getD ∅).union es) with ⟨_, hput, hset⟩ | ⟨_, _, hput, hspares⟩
    · rw [hput]
      exact hset.tended
    · rw [hput]
      exact hspares.tended

theorem remove (h : Tended root base links tree) (c : String) :
    Sets root base links (key c) none tree (remove root c tree).2 := by
  have hremoved := h.removeFile c
  unfold Directory.remove attempt
  rcases hrun : FileTree.removeFile (documentPath root c) tree with ⟨e | ⟨⟩, tree'⟩
  · rw [hrun] at hremoved
    rw [tryCatch_error hrun]
    by_cases he : e = .notFound
    · rw [if_pos he]
      exact hremoved
    · rw [if_neg he]
      exact hremoved
  · rw [hrun] at hremoved
    rw [tryCatch_ok hrun]
    exact hremoved

theorem reply (h : Tended root base links tree) (op : StoreOp) :
    Tended root base links ((store root).reply op tree).2 := by
  cases op with
  | get c =>
    rw [Store.reply_get]
    dsimp only [store]
    exact h.get c
  | contains c =>
    rw [Store.reply_contains]
    dsimp only [store]
    exact h.contains c
  | put c es =>
    rw [Store.reply_put, store_put]
    rcases h.put_cases c es with ⟨_, hput, hset⟩ | ⟨_, _, hput, hspares⟩
    · rw [hput]
      exact hset.tended
    · rw [hput]
      exact hspares.tended
  | merge c es =>
    rw [Store.reply_merge, store_merge]
    dsimp only
    exact h.merge c es
  | remove c =>
    rw [Store.reply_remove, store_remove]
    dsimp only
    exact (h.remove c).tended

theorem replies (h : Tended root base links tree) (ops : List StoreOp) :
    Tended root base links ((store root).replies ops tree).2 := by
  induction ops generalizing tree with
  | nil => exact h
  | cons op ops ih =>
    rw [Store.replies_cons]
    dsimp only
    exact ih (h.reply op)

/-! #### Reading and adding -/

/-- What is read is the document, and everything is left in place. -/
theorem readAs_eq {α : Type} (h : Tended root base links tree)
    (read : Bytes → Except CacheError α)
    (hsize : ∀ content, documentAt base tree (key c) = some content →
      content.size ≤ maxDocumentSize)
    (hread : ∀ k es, ∃ a, reading read (rendered k es) = .ok a) :
    Directory.readAs read (documentPath root c) tree =
      ((documentAt base tree (key c)).bind fun content => (reading read content).toOption,
        tree) := by
  cases hdocument : documentAt base tree (key c) with
  | some content =>
    obtain ⟨k, es, rfl⟩ := h.exists_rendered hdocument
    obtain ⟨a, ha⟩ := hread k es
    rw [Directory.readAs, bind_eq (readDocument_of_file (h.find_eq_file_iff.2 hdocument)
      (hsize _ hdocument))]
    simp only [ha, Option.bind_some]
    rfl
  | none =>
    rw [Directory.readAs, bind_eq (readDocument_of_not_file h.descend_eq h.linkFree
      (h.not_file hdocument))]
    rfl

/-- What is found is what the document says. -/
theorem get_eq (h : Tended root base links tree)
    (hsize : ∀ content, documentAt base tree (key c) = some content →
      content.size ≤ maxDocumentSize) :
    Directory.get root c tree = (entriesAt base tree (key c), tree) := by
  have hread := h.readAs_eq Document.ofBytes hsize fun k es =>
    ⟨_, Document.ofBytes_render k es⟩
  rw [Directory.get, bind_eq hread, entriesAt]
  cases documentAt base tree (key c) with
  | none => rfl
  | some content =>
    rw [Option.bind_some, Option.bind_some, entriesIn]
    cases reading Document.ofBytes content <;> rfl

theorem contains_eq (h : Tended root base links tree)
    (hsize : ∀ content, documentAt base tree (key c) = some content →
      content.size ≤ maxDocumentSize) :
    Directory.contains root c tree = ((documentAt base tree (key c)).isSome, tree) := by
  have hread := h.readAs_eq Document.checkHeader hsize fun k es =>
    ⟨_, Document.checkHeader_render k es⟩
  rw [Directory.contains, bind_eq hread]
  cases hdocument : documentAt base tree (key c) with
  | none => rfl
  | some content =>
    obtain ⟨k, es, rfl⟩ := h.exists_rendered hdocument
    have hheader : reading Document.checkHeader (rendered k es) = .ok () :=
      Document.checkHeader_render k es
    rw [Option.bind_some, hheader]
    rfl

/-- A merge writes the union of the document and of what is added, or fails and touches no
document. -/
theorem merge_cases (h : Tended root base links tree) (hk : key (key c) = key c)
    (hsize : ∀ content, documentAt base tree (key c) = some content →
      content.size ≤ maxDocumentSize) (es : Entries) :
    (∃ tree', Directory.merge root c es tree = (.ok (), tree') ∧
      Sets root base links (key c)
        (some (rendered (key c) (((entriesAt base tree (key c)).getD ∅).union es))) tree tree') ∨
    ∃ e tree', Directory.merge root c es tree = (.error e, tree') ∧
      Spares root base links tree tree' := by
  have hlock := h.lock
  rcases hlocked : Directory.lock root tree with ⟨e | ⟨⟩, locked⟩
  · rw [hlocked] at hlock
    rw [Directory.merge, bind_error hlocked]
    exact .inr ⟨e, locked, rfl, hlock⟩
  · rw [hlocked] at hlock
    -- The document is the same once the lock is taken.
    have hget := hlock.tended.get_eq (c := c) fun content => by
      rw [hlock.documentAt_eq]
      exact hsize content
    rw [hlock.entriesAt_eq] at hget
    rw [Directory.merge, bind_ok hlocked, bind_ok (lift_ok hget)]
    rcases hlock.tended.put_cases c (((entriesAt base tree (key c)).getD ∅).union es) with
      ⟨tree', hput, hset⟩ | ⟨e, tree', hput, hspares⟩
    · rw [hk] at hset
      exact .inl ⟨tree', hput, hlock.sets hset⟩
    · exact .inr ⟨e, tree', hput, hlock.trans hspares⟩

end Tended

/-- Nothing has been written yet. -/
theorem tended_of_below
    (hd : tree.descend maxLinks (tree.startOf root) (namesOf root) = .ok (base, links))
    (hempty : tree.below base = []) :
    Tended root base links tree ∧ ∀ k, documentAt base tree k = none := by
  have hnone {names : List String} (hne : names ≠ []) : tree.nodes[base ++ names]? = none := by
    obtain ⟨name, rest, rfl⟩ := List.exists_cons_of_ne_nil hne
    exact getElem?_eq_none_of_below hempty name rest
  have hdocuments (k : String) : documentAt base tree k = none := by
    simp [documentAt, hnone (documentNames_ne_nil k)]
  refine ⟨?_, hdocuments⟩
  constructor
  case descend_eq => exact hd
  case linkFree =>
    intro name rest target
    simp [hnone (List.cons_ne_nil name rest)]
  case spot_eq =>
    intro c content hdocument
    cases (hdocuments _).symm.trans hdocument
  case exists_rendered =>
    intro c content hdocument
    cases (hdocuments _).symm.trans hdocument
  case plain_of_directory =>
    intro names name hnode
    cases (hnone (by simp)).symm.trans hnode
  case named_of_file =>
    intro names name content hnode
    cases (hnone (by simp)).symm.trans hnode

/-! ### Room for a document -/

/-- The path that a document is first written to. -/
def draftPath (root : Path) (c : String) : Path :=
  ((directoryNames (key c)).foldl Path.join root).join (draftName (fileName (key c)) 0)

/-- Files may have all the names and paths that a document is written under. -/
structure HasRoom (root : Path) (c : String) : Prop where
  lock : pathFault? (lockPath root) = none
  draft : pathFault? (draftPath root c) = none
  directories : ∀ d ∈ directoryNames (key c), d.utf8ByteSize ≤ maxName
  name : (draftName (fileName (key c)) 0).utf8ByteSize ≤ maxName

theorem HasRoom.congr {c' : String} (h : HasRoom root c) (hkey : key c' = key c) :
    HasRoom root c' := by
  constructor
  · exact h.lock
  · rw [draftPath, hkey]
    exact h.draft
  · rw [hkey]
    exact h.directories
  · rw [hkey]
    exact h.name

namespace Tended

/-- Nothing is in the way of a document, since the names tell files from directories. -/
theorem not_obstructed (h : Tended root base links tree) (k : String) :
    ¬ Obstructed base k tree := by
  refine not_obstructed_iff.2 ⟨fun front hne hfront content hfile => ?_, fun hdir => ?_⟩
  · obtain ⟨names, name, rfl⟩ : ∃ names name, front = names ++ [name] :=
      ⟨_, _, (List.dropLast_concat_getLast hne).symm⟩
    have hplain : '.' ∉ name.toList :=
      dot_not_mem_of_mem_directoryNames (hfront.subset (by simp))
    rcases h.named_of_file hfile with rfl | ⟨k', rfl⟩
    · exact hplain (by decide)
    · exact hplain (dot_mem_fileName k')
  · exact h.plain_of_directory hdir (dot_mem_fileName k)

/-- Nothing has the name of a draft. -/
theorem getElem?_draft (h : Tended root base links tree) (k : String) :
    tree.nodes[base ++ draftNames k 0]? = none := by
  rcases hnode : tree.nodes[base ++ draftNames k 0]? with - | (content | - | target)
  · rfl
  · rcases h.named_of_file hnode with heq | ⟨k', heq⟩
    · exact absurd heq (draftName_ne (c := 'k') (by decide) (by decide))
    · exact absurd heq (draftName_ne (getLast?_fileName k') (by decide))
  · exact absurd (by simp [toList_draftName]) (h.plain_of_directory hnode)
  · exact absurd hnode (h.linkFree.ne_link (by simp [draftNames]) target)

theorem hasRoomIn (h : Tended root base links tree) (hroom : HasRoom root c) :
    HasRoomIn root base c tree := by
  refine ⟨hroom.lock, hroom.directories, fun n htaken => ?_⟩
  cases n with
  | zero => exact ⟨hroom.draft, hroom.name⟩
  | succ n => exact absurd (h.getElem?_draft (key c)) (htaken 0 (Nat.succ_pos n))

theorem replaceFile_ok (h : Tended root base links tree) (hroom : HasRoom root c)
    (bytes : Bytes) :
    ∃ tree', replaceFile (documentPath root c) bytes tree = (.ok (), tree') :=
  (h.hosts.replaceFile_eq_ok_iff (h.hasRoomIn hroom) bytes).2 (h.not_obstructed (key c))

theorem put_ok (h : Tended root base links tree) (hroom : HasRoom root (key c)) (es : Entries) :
    ∃ tree', put root c es tree = (.ok (), tree') := by
  obtain ⟨tree', hreplace⟩ := h.replaceFile_ok hroom
    (Document.ofEntries (key c) es).render.toUTF8.toList
  exact ⟨tree', by rw [put, attempt, hreplace]⟩

theorem lock_ok (h : Tended root base links tree) (hfault : pathFault? (lockPath root) = none) :
    ∃ tree', Directory.lock root tree = (.ok (), tree') := by
  refine (h.hosts.lock_eq_ok_iff hfault).2 fun hdir => ?_
  have hdir' : tree.nodes[base ++ ([] ++ [".lock"])]? = some .directory := hdir
  exact h.plain_of_directory hdir' (by decide)

/-- Where there is room, a merge does not fail. -/
theorem merge_ok (h : Tended root base links tree) (hroom : HasRoom root c)
    (hk : key (key c) = key c) (es : Entries) :
    ∃ tree', Directory.merge root c es tree = (.ok (), tree') := by
  obtain ⟨locked, hlock⟩ := h.lock_ok hroom.lock
  have hlocked := h.lock.tended
  rw [hlock] at hlocked
  rcases hgot : Directory.get root c locked with ⟨old, read⟩
  have hread := hlocked.get c
  rw [hgot] at hread
  obtain ⟨tree', hput⟩ := hread.put_ok (hroom.congr hk) ((old.getD ∅).union es)
  exact ⟨tree', by rw [Directory.merge, bind_ok hlock, bind_ok (lift_ok hgot), hput]⟩

end Tended

end JvmThrows.Cache.Directory
