import JvmThrows.Proofs.Attempts
import JvmThrows.Proofs.Descent

/-!
# What file operations change

Directories that come where nothing was are in nobody's way (`Gains.keeps`). A file that was written
through a draft is the only file that has changed, and the draft is gone (`writeThrough_eq_ok`),
also if it could not take the place of the file (`writeThrough_eq_error`).
-/

namespace JvmThrows

namespace FileTree

variable {tree tree' : FileTree} {path : Path} {place : Place} {e : FileError}

theorem entryOr_eq (e : FileError) (path : Path) (tree : FileTree) :
    entryOr e path tree =
      (match tree.entry path with
        | .ok (some place) => .ok place
        | .ok none => .error e
        | .error e' => .error e', tree) := by
  cases h : tree.entry path with
  | error e' =>
    have hask : ask (·.entry path) tree = (.error e', tree) := by rw [ask, h]
    rw [entryOr, bind_error hask]
  | ok found =>
    have hask : ask (·.entry path) tree = (.ok found, tree) := by rw [ask, h]
    rw [entryOr, bind_ok hask]
    cases found <;> rfl

theorem entryOr_eq_ok (h : entryOr e path tree = (.ok place, tree')) :
    tree.entry path = .ok (some place) ∧ tree' = tree := by
  rw [entryOr_eq] at h
  split at h
  · rename_i hentry
    cases h
    exact ⟨hentry, rfl⟩
  · cases h
  · cases h

theorem entryOr_eq_error {e' : FileError} (h : entryOr e path tree = (.error e', tree')) :
    tree' = tree :=
  congrArg Prod.snd (h.symm.trans (entryOr_eq e path tree))

/-! ### More directories -/

/-- Directories have come where nothing was. -/
structure Gains (tree tree' : FileTree) : Prop where
  working_eq : tree'.working = tree.working
  getElem?_cases : ∀ location : Location, tree'.nodes[location]? = tree.nodes[location]? ∨
    tree.nodes[location]? = none ∧ tree'.nodes[location]? = some .directory

namespace Gains

theorem refl (tree : FileTree) : Gains tree tree := ⟨rfl, fun _ => .inl rfl⟩

theorem trans {tree'' : FileTree} (h : Gains tree tree') (h' : Gains tree' tree'') :
    Gains tree tree'' := by
  refine ⟨h'.working_eq.trans h.working_eq, fun location => ?_⟩
  rcases h.getElem?_cases location with h1 | ⟨h1, h2⟩
  · rw [← h1]
    exact h'.getElem?_cases location
  · rcases h'.getElem?_cases location with h3 | ⟨h3, -⟩
    · exact .inr ⟨h1, h3.trans h2⟩
    · -- What the first step has added is a directory, which the second one finds.
      cases h3.symm.trans h2

theorem keeps (h : Gains tree tree') : Keeps tree tree' := by
  refine ⟨h.working_eq, fun {location node} _ hnode => ?_⟩
  rcases h.getElem?_cases location with h1 | ⟨h1, -⟩
  · rw [h1, hnode]
  · cases h1.symm.trans hnode

theorem getElem?_file_iff (h : Gains tree tree') {location : Location} {content : Content} :
    tree'.nodes[location]? = some (.file content) ↔
      tree.nodes[location]? = some (.file content) := by
  rcases h.getElem?_cases location with h1 | ⟨h1, h2⟩
  · rw [h1]
  · simp [h1, h2]

end Gains

theorem gains_insert {location : Location} (h : tree.nodes[location]? = none) :
    Gains tree { tree with nodes := tree.nodes.insert location .directory } := by
  refine ⟨rfl, fun l => ?_⟩
  by_cases hl : location = l
  · subst hl
    exact .inr ⟨h, Std.ExtTreeMap.getElem?_insert_self⟩
  · left
    simp [Std.ExtTreeMap.getElem?_insert, hl]

/-! ### Writing and removing files -/

theorem createFile_eq_ok {content : Content} (h : createFile path content tree = (.ok (), tree')) :
    ∃ place, tree.entry path = .ok (some place) ∧ place.node = none ∧ place.slash = false ∧
      tree' = { tree with nodes := tree.nodes.insert place.location (.file content) } := by
  obtain ⟨place, made, hplace, h⟩ := bind_eq_ok.1 h
  obtain ⟨hentry, rfl⟩ := entryOr_eq_ok hplace
  obtain ⟨location, node, slash⟩ := place
  cases slash with
  -- A path that ends in a slash names no file.
  | true => cases h
  | false =>
    cases node with
    | some node => cases h
    | none =>
      cases h
      exact ⟨_, hentry, rfl, rfl, rfl⟩

theorem createFile_eq_error {content : Content}
    (h : createFile path content tree = (.error e, tree')) : tree' = tree := by
  rcases bind_eq_error.1 h with hplace | ⟨place, made, hplace, h⟩
  · exact entryOr_eq_error hplace
  · obtain ⟨-, rfl⟩ := entryOr_eq_ok hplace
    obtain ⟨location, node, slash⟩ := place
    cases slash <;> cases node <;> cases h <;> rfl

theorem moveFile_eq_ok {source target : Path} {location : Location} {content : Content}
    {slash : Bool}
    (hsource : tree.entry source = .ok (some ⟨location, some (.file content), slash⟩))
    (h : moveFile source target tree = (.ok (), tree')) :
    ∃ place, tree.entry target = .ok (some place) ∧ place.node ≠ some .directory ∧
      tree' = { tree with
        nodes := (tree.nodes.erase location).insert place.location (.file content) } := by
  obtain ⟨s, made, hs, hmore⟩ := bind_eq_ok.1 h
  obtain ⟨hentry, rfl⟩ := entryOr_eq_ok hs
  rw [hsource] at hentry
  cases hentry
  obtain ⟨t, made, ht, hrest⟩ := bind_eq_ok.1 hmore
  obtain ⟨htarget, rfl⟩ := entryOr_eq_ok ht
  refine ⟨t, htarget, ?_⟩
  by_cases hslash : (slash || t.slash) = true
  · -- All conditions are checked before anything moves.
    simp only [hslash, if_true] at hrest
    cases hrest
  · by_cases hdir : t.node = some .directory
    · simp only [hslash, if_pos hdir] at hrest
      cases hrest
    · simp only [hslash, if_neg hdir] at hrest
      cases hrest
      exact ⟨hdir, rfl⟩

theorem moveFile_eq_error {source target : Path}
    (h : moveFile source target tree = (.error e, tree')) : tree' = tree := by
  rcases bind_eq_error.1 h with hs | ⟨s, made, hs, hmore⟩
  · exact entryOr_eq_error hs
  · obtain ⟨-, rfl⟩ := entryOr_eq_ok hs
    rcases bind_eq_error.1 hmore with ht | ⟨t, made', ht, hrest⟩
    · exact entryOr_eq_error ht
    · obtain ⟨-, rfl⟩ := entryOr_eq_ok ht
      by_cases hslash : (s.slash || t.slash) = true
      · simp only [hslash, if_true] at hrest
        rcases s with ⟨_, - | (_ | _ | _), _⟩ <;> cases hrest <;> rfl
      · by_cases hdir : t.node = some .directory
        · simp only [hslash, if_pos hdir] at hrest
          rcases s with ⟨_, - | (_ | _ | _), _⟩ <;> cases hrest <;> rfl
        · simp only [hslash, if_neg hdir] at hrest
          rcases s with ⟨_, - | (_ | _ | _), _⟩ <;> cases hrest <;> rfl

theorem erase_insert_of_none {nodes : Std.ExtTreeMap Location Node} {d : Location} {node : Node}
    (h : nodes[d]? = none) : (nodes.insert d node).erase d = nodes := by
  refine Std.ExtTreeMap.ext_getElem? fun l => ?_
  by_cases hd : d = l
  · simp [← hd, h]
  · simp [Std.ExtTreeMap.getElem?_insert, Std.ExtTreeMap.getElem?_erase, hd]

/-- A new draft takes the place of a file and is gone. -/
theorem moveFile_createFile {draft : Path} {content : Content} {drafted : FileTree}
    (hcreate : createFile draft content tree = (.ok (), drafted))
    (hmove : moveFile draft path drafted = (.ok (), tree')) :
    ∃ place, tree.entry path = .ok (some place) ∧ place.node ≠ some .directory ∧
      tree' = { tree with nodes := tree.nodes.insert place.location (.file content) } := by
  obtain ⟨d, hdraft, hnone, -, rfl⟩ := createFile_eq_ok hcreate
  have hfree : tree.nodes[d.location]? = none := (node_of_entry hdraft).symm.trans hnone
  have hkeeps : Keeps tree { tree with nodes := tree.nodes.insert d.location (.file content) } :=
    keeps_insert_file (by simp [hfree])
  -- The draft is still where it was made.
  have hsource := hkeeps.entry hdraft
  rw [Std.ExtTreeMap.getElem?_insert_self] at hsource
  obtain ⟨t, htarget, hdir, rfl⟩ := moveFile_eq_ok hsource hmove
  have hplace := keeps_of_insert_file.entry htarget
  refine ⟨_, hplace, ?_, ?_⟩
  · intro h
    -- The draft is another file, so that a directory in the way was there before.
    exact hdir ((node_of_entry htarget).trans (hkeeps.getElem?_eq (by simp) h))
  · rw [erase_insert_of_none hfree]

/-- Writes a draft in a directory and moves it to a path. -/
def writeThrough (parent : Path) (name : String) (path : Path) (bytes : Bytes) : Files Unit := do
  makeDirectories parent
  let draft := parent.join (unusedName (← get) parent name)
  createFile draft (.ofBytes bytes)
  tryCatch (moveFile draft path) fun e => do
    removeFile draft
    throw e

theorem replaceFile_eq {parent : Path} {name : String} (hparent : path.parent? = some parent)
    (hname : path.fileName? = some name) (bytes : Bytes) :
    replaceFile path bytes =
      writeThrough (if parent.text.isEmpty then Path.mk "." else parent) name path bytes := by
  unfold replaceFile
  simp only [hparent, hname, pure_bind, writeThrough]

theorem writeThrough_eq_ok {parent : Path} {name : String} {bytes : Bytes}
    (h : writeThrough parent name path bytes tree = (.ok (), tree')) :
    ∃ made place, makeDirectories parent tree = (.ok (), made) ∧
      made.entry path = .ok (some place) ∧ place.node ≠ some .directory ∧
      tree' = { made with
        nodes := made.nodes.insert place.location (.file (.ofBytes bytes)) } := by
  obtain ⟨⟨⟩, made, hmade, hwrite⟩ := bind_eq_ok.1 h
  obtain ⟨_, _, hget, hlast⟩ := bind_eq_ok.1 hwrite
  cases hget
  obtain ⟨⟨⟩, drafted, hdraft, hmove⟩ := bind_eq_ok.1 hlast
  rcases tryCatch_eq_ok.1 hmove with hmove | ⟨e, t, -, hfail⟩
  · obtain ⟨place, hentry, hdir, htree⟩ := moveFile_createFile hdraft hmove
    exact ⟨made, place, hmade, hentry, hdir, htree⟩
  · -- If moving fails the draft is removed, and the error thrown again.
    obtain ⟨-, _, -, hthrow⟩ := bind_eq_ok.1 hfail
    cases hthrow

theorem removeFile_of_error (h : tree.entry path = .error e) :
    removeFile path tree = (.error e, tree) := by
  have hentry : entryOr .isDirectory path tree = (.error e, tree) := by rw [entryOr_eq, h]
  rw [removeFile, bind_error hentry]

section

variable {location : Location} {content : Content}

theorem removeFile_of_none (h : tree.entry path = .ok (some ⟨location, none, false⟩)) :
    removeFile path tree = (.error .notFound, tree) := by
  have hentry : entryOr .isDirectory path tree = (.ok ⟨location, none, false⟩, tree) := by
    rw [entryOr_eq, h]
  rw [removeFile, bind_ok hentry]
  rfl

theorem removeFile_of_directory
    (h : tree.entry path = .ok (some ⟨location, some .directory, false⟩)) :
    removeFile path tree = (.error .isDirectory, tree) := by
  have hentry : entryOr .isDirectory path tree =
      (.ok ⟨location, some .directory, false⟩, tree) := by rw [entryOr_eq, h]
  rw [removeFile, bind_ok hentry]
  rfl

theorem removeFile_of_file
    (h : tree.entry path = .ok (some ⟨location, some (.file content), false⟩)) :
    removeFile path tree = (.ok (), { tree with nodes := tree.nodes.erase location }) := by
  have hentry : entryOr .isDirectory path tree =
      (.ok ⟨location, some (.file content), false⟩, tree) := by rw [entryOr_eq, h]
  rw [removeFile, bind_ok hentry]
  rfl

/-- A draft can be removed again, and nothing is left of it. -/
theorem removeFile_createFile {draft : Path} {drafted : FileTree}
    (h : createFile draft content tree = (.ok (), drafted)) :
    removeFile draft drafted = (.ok (), tree) := by
  obtain ⟨⟨d, node, slash⟩, hdraft, hnone, hslash, rfl⟩ := createFile_eq_ok h
  subst hslash
  have hfree : tree.nodes[d]? = none := (node_of_entry hdraft).symm.trans hnone
  have hkeeps : Keeps tree { tree with nodes := tree.nodes.insert d (.file content) } :=
    keeps_insert_file (by simp [hfree])
  have hentry := hkeeps.entry hdraft
  rw [Std.ExtTreeMap.getElem?_insert_self] at hentry
  rw [removeFile_of_file hentry, erase_insert_of_none hfree]

end

/-- A file that could not be replaced is left as it was, with new directories at most. -/
theorem writeThrough_eq_error {parent : Path} {name : String} {bytes : Bytes}
    (h : writeThrough parent name path bytes tree = (.error e, tree')) :
    tree' = (makeDirectories parent tree).2 := by
  rcases bind_eq_error.1 h with hmake | ⟨⟨⟩, made, hmade, hwrite⟩
  · -- Without the directories nothing was written.
    rw [hmake]
  · rw [hmade]
    rcases bind_eq_error.1 hwrite with hget | ⟨_, _, hget, hlast⟩
    · cases hget
    · cases hget
      rcases bind_eq_error.1 hlast with hcreate | ⟨⟨⟩, drafted, hcreate, hmove⟩
      · exact createFile_eq_error hcreate
      · -- The draft is erased, which leaves the tree that was there before it.
        obtain ⟨e', _, hfail, hcaught⟩ := tryCatch_eq_error.1 hmove
        obtain rfl := moveFile_eq_error hfail
        rw [bind_ok (removeFile_createFile hcreate)] at hcaught
        cases hcaught
        rfl

theorem openFile_eq_ok (h : openFile path tree = (.ok (), tree')) :
    ∃ place, tree.locateAny true path = .ok place ∧
      (tree' = tree ∨ place.node = none ∧
        tree' = { tree with
          nodes := tree.nodes.insert place.location (.file (.ofBytes [])) }) := by
  obtain ⟨place, made, hplace, hopen⟩ := bind_eq_ok.1 h
  obtain ⟨found, _, hask, hwritable⟩ := bind_eq_ok.1 hplace
  injection hask with hlocate htree
  subst htree
  by_cases hbad : (found.slash || found.node = some .directory) = true
  · simp only [hbad, if_true] at hwritable
    -- Directories are not opened.
    cases hwritable
  · simp only [hbad] at hwritable
    cases hwritable
    refine ⟨place, hlocate, ?_⟩
    cases hnode : place.node with
    | none =>
      simp only [hnode] at hopen
      -- A file that is missing is created empty.
      cases hopen
      exact .inr ⟨rfl, rfl⟩
    | some node =>
      simp only [hnode] at hopen
      cases hopen
      exact .inl rfl

theorem openFile_eq_error (h : openFile path tree = (.error e, tree')) : tree' = tree := by
  rcases bind_eq_error.1 h with hplace | ⟨place, made, -, hopen⟩
  · rcases bind_eq_error.1 hplace with hask | ⟨found, _, hask, hwritable⟩
    · exact (congrArg Prod.snd hask).symm
    · injection hask with _ htree
      subst htree
      by_cases hbad : (found.slash || found.node = some .directory) = true
      · simp only [hbad, if_true] at hwritable
        cases hwritable
        rfl
      · simp only [hbad] at hwritable
        cases hwritable
  · cases hnode : place.node with
    | none =>
      simp only [hnode] at hopen
      cases hopen
    | some node =>
      simp only [hnode] at hopen
      cases hopen

/-! ### What succeeds -/

/-- What leads to a directory stands for something. -/
theorem entry_of_descend {there : Location × Nat} (hfault : pathFault? path = none)
    (h : tree.descend maxLinks (tree.startOf path) (namesOf path) = .ok there) :
    tree.entry path = .ok none ∨
      ∃ place, tree.entry path = .ok (some place) ∧ place.node.isSome = true := by
  unfold entry
  simp only [hfault, directoryAt_eq]
  rcases List.eq_nil_or_concat (namesOf path) with hnil | ⟨init, last, hnames⟩
  · -- The path is the root or the directory of the process, which has no last name.
    left
    simp [hnil, descend, Except.map]
  · rw [List.concat_eq_append] at hnames
    rw [hnames, descend_append] at h
    simp only [hnames, List.dropLast_concat, List.getLast?_concat]
    cases hd : tree.descend maxLinks (tree.startOf path) init with
    | error e =>
      rw [hd] at h
      cases h
    | ok above =>
      obtain ⟨here, left⟩ := above
      -- Walking to the last name gives a node unless the name is a step in place.
      rw [hd] at h
      replace h : tree.descend left here [last] = .ok there := h
      by_cases hhere : last = "."
      · simp [Except.map, hhere]
      · by_cases hup : last = ".."
        · simp [Except.map, hup]
        · rw [descend, if_neg hhere, if_neg hup] at h
          split at h
          · cases h
          · rename_i hlong
            right
            cases hnode : tree.nodes[here ++ [last]]? with
            | none => simp [hnode] at h
            | some node => simp [Except.map, hhere, hup, hlong, hnode]

theorem descend_of_isDirectory (h : tree.isDirectory path = true) :
    pathFault? path = none ∧
      ∃ there, tree.descend maxLinks (tree.startOf path) (namesOf path) = .ok there := by
  have hplace : ∃ location slash,
      tree.locateAny true path = .ok ⟨location, some .directory, slash⟩ := by
    unfold isDirectory find locate at h
    rcases hany : tree.locateAny true path with e | ⟨location, - | (_ | _ | _), slash⟩
    · simp [hany] at h
    · simp [hany] at h
    · -- A file is no directory, whatever the slash.
      cases slash <;> simp [hany] at h
    · exact ⟨location, slash, rfl⟩
    · simp [hany] at h
  obtain ⟨location, slash, hplace⟩ := hplace
  unfold locateAny at hplace
  split at hplace
  · cases hplace
  · rename_i hfault
    have hdescend := asDirectory_walk tree (endsInSlash path) maxLinks (tree.startOf path)
      (namesOf path)
    rw [hplace] at hdescend
    cases hd : tree.descend maxLinks (tree.startOf path) (namesOf path) with
    | error e =>
      rw [hd] at hdescend
      cases hdescend
    | ok there => exact ⟨hfault, there, rfl⟩

theorem ensureDirectory_of_error (h : makeDirectory path tree = (.error e, tree)) :
    ensureDirectory path tree = (if tree.isDirectory path then .ok () else .error e, tree) := by
  rw [ensureDirectory, tryCatch_error h]
  show (if tree.isDirectory path then pure () else throw e : Files Unit) tree = _
  split <;> rfl

theorem isDirectory_of_descend {there : Location × Nat} (hfault : pathFault? path = none)
    (hd : tree.descend maxLinks (tree.startOf path) (namesOf path) = .ok there) :
    tree.isDirectory path = true := by
  have hwalk := asDirectory_walk tree (endsInSlash path) maxLinks (tree.startOf path) (namesOf path)
  rw [hd] at hwalk
  have hany : tree.locateAny true path =
      tree.walk true (endsInSlash path) maxLinks (tree.startOf path) (namesOf path) := by
    rw [locateAny, hfault]
  rcases hplace : tree.walk true (endsInSlash path) maxLinks (tree.startOf path) (namesOf path) with
    e | ⟨location, - | (_ | _ | _), slash⟩
  · rw [hplace] at hwalk
    cases hwalk
  · rw [hplace] at hwalk
    cases hwalk
  · rw [hplace] at hwalk
    cases hwalk
  · rw [hplace] at hany
    simp [isDirectory, find, locate, hany]
  · rw [hplace] at hwalk
    cases hwalk

theorem pathFault?_ne_notFound (htext : path.text.isEmpty = false) :
    pathFault? path ≠ some .notFound := by
  unfold pathFault?
  split
  · simp
  · rw [htext, if_neg Bool.false_ne_true]
    split <;> simp

theorem makeDirectory_of_descend {there : Location × Nat} (htext : path.text.isEmpty = false)
    (hd : tree.descend maxLinks (tree.startOf path) (namesOf path) = .ok there) :
    ∃ e, e ≠ .notFound ∧ makeDirectory path tree = (.error e, tree) := by
  cases hfault : pathFault? path with
  | some e =>
    -- The path is refused before it is looked at.
    have hor : entryOr .alreadyExists path tree = (.error e, tree) := by
      rw [entryOr_eq, entry, hfault]
    refine ⟨e, fun heq => pathFault?_ne_notFound htext (heq ▸ hfault), ?_⟩
    rw [makeDirectory, bind_error hor]
  | none =>
    refine ⟨.alreadyExists, by simp, ?_⟩
    rcases entry_of_descend hfault hd with hentry | ⟨place, hentry, hnode⟩
    · have hor : entryOr .alreadyExists path tree = (.error .alreadyExists, tree) := by
        rw [entryOr_eq, hentry]
      rw [makeDirectory, bind_error hor]
    · have hor : entryOr .alreadyExists path tree = (.ok place, tree) := by
        rw [entryOr_eq, hentry]
      rw [makeDirectory, bind_ok hor]
      simp only [hnode, if_true]
      rfl

/-- What is a directory need not be made. -/
theorem makeDirectoriesWithin_of_descend {there : Location × Nat}
    (hd : tree.descend maxLinks (tree.startOf path) (namesOf path) = .ok there) (n : Nat) :
    ∃ r, makeDirectoriesWithin (n + 1) path tree = (r, tree) ∧
      ((path.text ≠ "" → pathFault? path = none) → r = .ok ()) := by
  rw [makeDirectoriesWithin]
  cases htext : path.text.isEmpty with
  | true =>
    -- An empty path needs nothing.
    rw [if_pos rfl]
    exact ⟨.ok (), rfl, fun _ => rfl⟩
  | false =>
    obtain ⟨e, he, hmake⟩ := makeDirectory_of_descend htext hd
    rw [if_neg Bool.false_ne_true, tryCatch_error hmake, if_neg he]
    refine ⟨_, ensureDirectory_of_error hmake, fun hfault => ?_⟩
    have hne : path.text ≠ "" := fun hempty => by simp [hempty] at htext
    rw [isDirectory_of_descend (hfault hne) hd, if_pos rfl]

theorem makeDirectories_of_isDirectory (h : tree.isDirectory path = true) :
    makeDirectories path tree = (.ok (), tree) := by
  obtain ⟨hfault, there, hd⟩ := descend_of_isDirectory h
  obtain ⟨r, hmake, hok⟩ := makeDirectoriesWithin_of_descend hd path.components.length
  rw [makeDirectories, hmake, hok fun _ => hfault]

section

variable {location : Location} {content : Content}

theorem createFile_of_none (h : tree.entry path = .ok (some ⟨location, none, false⟩)) :
    createFile path content tree =
      (.ok (), { tree with nodes := tree.nodes.insert location (.file content) }) := by
  have hentry : entryOr .alreadyExists path tree = (.ok ⟨location, none, false⟩, tree) := by
    rw [entryOr_eq, h]
  rw [createFile, bind_ok hentry]
  rfl

theorem moveFile_of_file {source target : Path} {place : Place}
    (hsource : tree.entry source = .ok (some ⟨location, some (.file content), false⟩))
    (htarget : tree.entry target = .ok (some place)) (hslash : place.slash = false)
    (hdir : place.node ≠ some .directory) :
    moveFile source target tree = (.ok (), { tree with
      nodes := (tree.nodes.erase location).insert place.location (.file content) }) := by
  have hs : entryOr .busy source tree =
      (.ok ⟨location, some (.file content), false⟩, tree) := by rw [entryOr_eq, hsource]
  have ht : entryOr .busy target tree = (.ok place, tree) := by rw [entryOr_eq, htarget]
  rw [moveFile, bind_ok hs, bind_ok ht]
  simp only [hslash, Bool.or_self, if_neg hdir]
  rfl

theorem createFile_of_error (h : tree.entry path = .error e) :
    createFile path content tree = (.error e, tree) := by
  have hentry : entryOr .alreadyExists path tree = (.error e, tree) := by rw [entryOr_eq, h]
  rw [createFile, bind_error hentry]

theorem writeThrough_of_no_draft {parent : Path} {name : String} {made : FileTree}
    (hmade : makeDirectories parent tree = (.ok (), made))
    (hdraft : made.entry (parent.join (made.unusedName parent name)) = .error e) (bytes : Bytes) :
    writeThrough parent name path bytes tree = (.error e, made) := by
  have hget : (get : Files FileTree) made = (.ok made, made) := rfl
  rw [writeThrough, bind_ok hmade, bind_ok hget, bind_error (createFile_of_error hdraft)]

/-- A file can be written if its directory can be made and there is room for the draft. -/
theorem writeThrough_of_made {parent : Path} {name : String} {place : Place} {made : FileTree}
    (hmade : makeDirectories parent tree = (.ok (), made))
    (hdraft : made.entry (parent.join (made.unusedName parent name)) =
      .ok (some ⟨location, none, false⟩))
    (hentry : made.entry path = .ok (some place)) (hslash : place.slash = false)
    (hdir : place.node ≠ some .directory) (bytes : Bytes) :
    writeThrough parent name path bytes tree = (.ok (), { made with
      nodes := made.nodes.insert place.location (.file (.ofBytes bytes)) }) := by
  have hfree : made.nodes[location]? = none := (node_of_entry hdraft).symm
  have hkeeps : Keeps made
      { made with nodes := made.nodes.insert location (.file (.ofBytes bytes)) } :=
    keeps_insert_file (by simp [hfree])
  have hsource := hkeeps.entry hdraft
  rw [Std.ExtTreeMap.getElem?_insert_self] at hsource
  have hmove := moveFile_of_file hsource (hkeeps.entry hentry) hslash fun h =>
    hdir ((node_of_entry hentry).trans (keeps_of_insert_file.getElem?_eq (by simp) h))
  rw [erase_insert_of_none hfree] at hmove
  have hget : (get : Files FileTree) made = (.ok made, made) := rfl
  rw [writeThrough, bind_ok hmade, bind_ok hget, bind_ok (createFile_of_none hdraft)]
  exact tryCatch_ok hmove _

/-- A file in a directory can be replaced if there is room for the draft. -/
theorem replaceFile_of_isDirectory {parent : Path} {name : String} {place : Place}
    (hparent : path.parent? = some parent) (htext : parent.text.isEmpty = false)
    (hname : path.fileName? = some name) (hmade : tree.isDirectory parent = true)
    (hdraft : tree.entry (parent.join (tree.unusedName parent name)) =
      .ok (some ⟨location, none, false⟩))
    (hentry : tree.entry path = .ok (some place)) (hslash : place.slash = false)
    (hdir : place.node ≠ some .directory) (bytes : Bytes) :
    replaceFile path bytes tree = (.ok (), { tree with
      nodes := tree.nodes.insert place.location (.file (.ofBytes bytes)) }) := by
  rw [replaceFile_eq hparent hname, htext, if_neg Bool.false_ne_true]
  exact writeThrough_of_made (makeDirectories_of_isDirectory hmade) hdraft hentry hslash hdir bytes

theorem openFile_of_none (h : tree.locateAny true path = .ok ⟨location, none, false⟩) :
    openFile path tree =
      (.ok (), { tree with nodes := tree.nodes.insert location (.file (.ofBytes [])) }) := by
  have hwritable : writable path tree = (.ok ⟨location, none, false⟩, tree) := by
    have hask : ask (·.locateAny true path) tree = (.ok ⟨location, none, false⟩, tree) := by
      rw [ask, h]
    rw [writable, bind_ok hask]
    rfl
  rw [openFile, bind_ok hwritable]
  rfl

end

theorem openFile_of_file {location : Location} {content : Content}
    (h : tree.locateAny true path = .ok ⟨location, some (.file content), false⟩) :
    openFile path tree = (.ok (), tree) := by
  have hwritable : writable path tree = (.ok ⟨location, some (.file content), false⟩, tree) := by
    have hask : ask (·.locateAny true path) tree =
        (.ok ⟨location, some (.file content), false⟩, tree) := by rw [ask, h]
    rw [writable, bind_ok hask]
    rfl
  rw [openFile, bind_ok hwritable]
  rfl

theorem openFile_of_directory {location : Location}
    (h : tree.locateAny true path = .ok ⟨location, some .directory, false⟩) :
    openFile path tree = (.error .isDirectory, tree) := by
  have hwritable : writable path tree = (.error .isDirectory, tree) := by
    have hask : ask (·.locateAny true path) tree =
        (.ok ⟨location, some .directory, false⟩, tree) := by rw [ask, h]
    rw [writable, bind_ok hask]
    rfl
  rw [openFile, bind_error hwritable]

theorem unusedName_of_none {parent : Path} {name : String}
    (h : tree.locate false (parent.join (draftName name 0)) = .ok place)
    (hnode : place.node = none) : tree.unusedName parent name = draftName name 0 := by
  simp [unusedName, List.range_succ_eq_map, h, hnode]

end FileTree

end JvmThrows
