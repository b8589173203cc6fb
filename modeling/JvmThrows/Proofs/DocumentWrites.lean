import JvmThrows.Proofs.Drafts
import JvmThrows.Proofs.HeaderChecks

/-!
# What writing a document leaves alone

A document is written below a root that is a directory without links (`Hosts`). Whatever comes of
it, everything else stays as it was but for directories on the way to the document (`ChangesOnly`),
and no draft is left. Adding to a document also makes the file to lock, and discards a document that
cannot be used. What was discarded stood in its place, so the way there is open and only a draft
that is too long keeps another document from being put there; but for that a failure leaves all
documents as they were (`writes_spare_files`). Writing fails where something is in the way
(`Obstructed`), and nowhere else if names and paths are short enough (`HasRoomIn`).
-/

namespace JvmThrows.Cache.Directory

open FileTree

variable {root : Path} {base : Location} {links n : Nat} {tree tree' tree'' locked : FileTree}
  {c k : String} {es : Entries} {content : Content} {places places' : List Location}

/-! ### Changes -/

/-- Nothing has changed but what is at the given places, and directories have come on the way to the
document of a key. -/
structure ChangesOnly (base : Location) (k : String) (places : List Location)
    (tree tree' : FileTree) : Prop where
  working_eq : tree'.working = tree.working
  getElem?_cases : ∀ location : Location, location ∉ places →
    tree'.nodes[location]? = tree.nodes[location]? ∨
      tree.nodes[location]? = none ∧ tree'.nodes[location]? = some .directory ∧
        ∃ front, front ≠ [] ∧ front <+: directoryNames k ∧ location = base ++ front

namespace ChangesOnly

theorem refl (base : Location) (k : String) (tree : FileTree) :
    ChangesOnly base k [] tree tree := ⟨rfl, fun _ _ => .inl rfl⟩

theorem mono (h : ChangesOnly base k places tree tree') (hsub : places ⊆ places') :
    ChangesOnly base k places' tree tree' :=
  ⟨h.working_eq, fun location hout => h.getElem?_cases location fun hin => hout (hsub hin)⟩

theorem trans (h : ChangesOnly base k places tree tree')
    (h' : ChangesOnly base k places' tree' tree'') :
    ChangesOnly base k (places ++ places') tree tree'' := by
  refine ⟨h'.working_eq.trans h.working_eq, fun location hout => ?_⟩
  rw [List.mem_append, not_or] at hout
  rcases h.getElem?_cases location hout.1 with hsame | ⟨hnone, hdir, hway⟩
  · rw [← hsame]
    exact h'.getElem?_cases location hout.2
  · -- A directory that has come is not new a second time.
    rcases h'.getElem?_cases location hout.2 with hsame | ⟨hnone', -⟩
    · exact .inr ⟨hnone, hsame.trans hdir, hway⟩
    · cases hnone'.symm.trans hdir

theorem of_gainsBelow (h : GainsBelow base (directoryNames k) tree tree') :
    ChangesOnly base k [] tree tree' := by
  refine ⟨h.working_eq, fun location _ => ?_⟩
  rcases h.getElem?_cases location with hsame | ⟨hnone, hdir⟩
  · exact .inl hsame
  · exact .inr ⟨hnone, hdir, h.of_gained location hnone hdir⟩

theorem insert {location : Location} {node : Node} :
    ChangesOnly base k [location] tree
      { tree with nodes := tree.nodes.insert location node } := by
  refine ⟨rfl, fun l hl => .inl ?_⟩
  have hne : location ≠ l := fun heq => hl (heq ▸ List.mem_singleton_self _)
  simp [Std.ExtTreeMap.getElem?_insert, hne]

theorem erase {location : Location} :
    ChangesOnly base k [location] tree { tree with nodes := tree.nodes.erase location } := by
  refine ⟨rfl, fun l hl => .inl ?_⟩
  have hne : location ≠ l := fun heq => hl (heq ▸ List.mem_singleton_self _)
  simp [Std.ExtTreeMap.getElem?_erase, hne]

theorem getElem?_file_iff (h : ChangesOnly base k places tree tree') {location : Location}
    (hout : location ∉ places) :
    tree'.nodes[location]? = some (.file content) ↔
      tree.nodes[location]? = some (.file content) := by
  rcases h.getElem?_cases location hout with hsame | ⟨hnone, hdir, -⟩
  · rw [hsame]
  · simp [hnone, hdir]

/-- Next to the document no directory has come. -/
theorem getElem?_concat (h : ChangesOnly base k places tree tree') {name : String}
    (hout : base ++ (directoryNames k ++ [name]) ∉ places) :
    tree'.nodes[base ++ (directoryNames k ++ [name])]? =
      tree.nodes[base ++ (directoryNames k ++ [name])]? := by
  rcases h.getElem?_cases _ hout with hsame | ⟨-, -, front, -, hfront, heq⟩
  · exact hsame
  · -- What has come is on the way, which is shorter.
    have hlength := hfront.length_le
    rw [← List.append_cancel_left heq, List.length_append, List.length_singleton] at hlength
    omega

end ChangesOnly

/-! ### Drafts of documents -/

/-- The names on the way from the root to a draft of the document of a key. -/
def draftNames (k : String) (n : Nat) : List String :=
  directoryNames k ++ [draftName (fileName k) n]

/-- A file may have the name and the path of a draft. -/
def DraftFits (root : Path) (c : String) (n : Nat) : Prop :=
  pathFault? (((directoryNames (key c)).foldl Path.join root).join
      (draftName (fileName (key c)) n)) = none ∧
    (draftName (fileName (key c)) n).utf8ByteSize ≤ maxName

theorem documentNames_not_mem (base : Location) (k : String) :
    base ++ documentNames k ∉ [base ++ [".lock"]] := by
  simp [documentNames_ne_lock]

theorem draftNames_not_mem (base : Location) (k : String) (n : Nat) :
    base ++ draftNames k n ∉ [base ++ [".lock"], base ++ documentNames k] := by
  have hdraft : (base ++ draftNames k n).getLast? = some (draftName (fileName k) n) := by
    rw [draftNames, ← List.append_assoc, List.getLast?_concat]
  simp only [List.mem_cons, List.not_mem_nil, or_false, not_or]
  constructor
  · -- The lock file has a name that ends in a letter.
    intro heq
    rw [heq, List.getLast?_concat] at hdraft
    exact draftName_ne (c := 'k') (by decide) (by decide) (Option.some.inj hdraft).symm
  · intro heq
    rw [heq, documentNames, ← List.append_assoc, List.getLast?_concat] at hdraft
    exact draftName_ne (getLast?_fileName k) (by decide) (Option.some.inj hdraft).symm

/-- Files may have all the names and paths that a document is written under, up to the first draft
that is free. -/
structure HasRoomIn (root : Path) (base : Location) (c : String) (tree : FileTree) : Prop where
  lock : pathFault? (lockPath root) = none
  directories : ∀ d ∈ directoryNames (key c), d.utf8ByteSize ≤ maxName
  draft : ∀ n, (∀ i < n, tree.nodes[base ++ draftNames (key c) i]? ≠ none) → DraftFits root c n

theorem HasRoomIn.changesOnly (h : HasRoomIn root base c tree)
    (hchanges : ChangesOnly base (key c) [base ++ [".lock"], base ++ documentNames (key c)] tree
      tree') : HasRoomIn root base c tree' := by
  refine ⟨h.lock, h.directories, fun n htaken => h.draft n fun i hi => ?_⟩
  rw [draftNames, ← hchanges.getElem?_concat (draftNames_not_mem base (key c) i)]
  exact htaken i hi

/-- A file is in the way of the document of a key, or a directory is in its place. -/
def Obstructed (base : Location) (k : String) (tree : FileTree) : Prop :=
  (∃ front content, front ≠ [] ∧ front <+: directoryNames k ∧
    tree.nodes[base ++ front]? = some (.file content)) ∨
  tree.nodes[base ++ documentNames k]? = some .directory

theorem not_obstructed_iff :
    ¬ Obstructed base k tree ↔
      (∀ front, front ≠ [] → front <+: directoryNames k → ∀ content,
        tree.nodes[base ++ front]? ≠ some (.file content)) ∧
      tree.nodes[base ++ documentNames k]? ≠ some .directory := by
  simp only [Obstructed, not_or, not_exists, not_and]
  exact and_congr_left fun _ =>
    ⟨fun h front hne hfront content => h front content hne hfront,
      fun h front content hne hfront => h front hne hfront content⟩

/-- No directory on the way is the file to lock or the document. -/
theorem front_not_mem {front : List String} (base : Location)
    (hfront : front <+: directoryNames k) :
    base ++ front ∉ [base ++ [".lock"], base ++ documentNames k] := by
  simp only [List.mem_cons, List.not_mem_nil, or_false, not_or]
  constructor
  · -- No directory has a dot in its name.
    intro heq
    have hmem : ".lock" ∈ directoryNames k := by
      refine hfront.subset ?_
      rw [List.append_cancel_left heq]
      exact List.mem_singleton_self _
    exact dot_not_mem_of_mem_directoryNames hmem (by decide)
  · -- The way ends one name before the document.
    intro heq
    have hlength := hfront.length_le
    rw [List.append_cancel_left heq, documentNames, List.length_append] at hlength
    exact absurd hlength (by simp)

theorem obstructed_congr
    (h : ChangesOnly base k [base ++ [".lock"], base ++ documentNames k] tree tree')
    (hplace : tree'.nodes[base ++ documentNames k]? = some .directory ↔
      tree.nodes[base ++ documentNames k]? = some .directory) :
    Obstructed base k tree' ↔ Obstructed base k tree := by
  unfold Obstructed
  refine or_congr (exists_congr fun front => exists_congr fun content => ?_) hplace
  refine and_congr_right fun _ => and_congr_right fun hfront => ?_
  exact h.getElem?_file_iff (front_not_mem base hfront)

/-! ### What is read and what is written -/

theorem fst_readDocument_eq_some {path : Path} :
    (readDocument path tree).1 = some content ↔
      tree.find false path = .ok (.file content) ∧ content.size ≤ maxDocumentSize := by
  unfold readDocument
  rcases tree.find false path with e | (found | - | target)
  · simp
  · by_cases hsize : maxDocumentSize < found.size
    · simp only [if_pos hsize, Except.ok.injEq, Node.file.injEq, reduceCtorEq, false_iff, not_and]
      rintro rfl
      exact Nat.not_le.2 hsize
    · simp only [if_neg hsize, Except.ok.injEq, Node.file.injEq, Option.some.injEq,
        iff_self_and]
      rintro rfl
      exact Nat.not_lt.1 hsize
  · simp
  · simp

theorem fst_get (root : Path) (c : String) (tree : FileTree) :
    (get root c tree).1 = (readDocument (documentPath root c) tree).1.bind fun content =>
      (reading Document.ofBytes content).toOption.map (·.entries) := by
  rcases hread : readDocument (documentPath root c) tree with ⟨- | content, made⟩
  · rw [get, readAs, bind_assoc, bind_eq hread]
    rfl
  · rw [get, readAs, bind_assoc, bind_eq hread]
    dsimp only [Option.bind_some]
    cases reading Document.ofBytes content with
    | ok d => rfl
    | error e => rfl

/-- What is read depends on the file in the place of the document only. -/
theorem get_congr (h : ∀ content, tree'.find false (documentPath root c) = .ok (.file content) ↔
    tree.find false (documentPath root c) = .ok (.file content)) :
    (get root c tree').1 = (get root c tree).1 := by
  have hread : (readDocument (documentPath root c) tree').1 =
      (readDocument (documentPath root c) tree).1 :=
    Option.ext fun content => by rw [fst_readDocument_eq_some, fst_readDocument_eq_some, h]
  rw [fst_get, fst_get, hread]

theorem put_eq (root : Path) (hkey : key (key c) = key c) (es : Entries) :
    put root c es = attempt (replaceFile (documentPath root c)
      (Document.ofEntries (key c) es).render.toUTF8.toList) := by
  rw [put, (documentPath_key_eq_iff root c).2 hkey]

/-! ### Roots without links -/

/-- The root leads to a directory, and there are no links below it. -/
structure Hosts (root : Path) (base : Location) (links : Nat) (tree : FileTree) : Prop where
  descend_eq : tree.descend maxLinks (tree.startOf root) (namesOf root) = .ok (base, links)
  linkFree : tree.LinkFree base

theorem exists_hosts (hbase : tree.directoryAt (tree.startOf root) (namesOf root) = .ok base)
    (hlinks : tree.LinkFree base) : ∃ links, Hosts root base links tree := by
  obtain ⟨links, hd⟩ := exists_descend_of_directoryAt hbase
  exact ⟨links, hd, hlinks⟩

namespace Hosts

theorem of_keeps (h : Hosts root base links tree) (hkeeps : Keeps tree tree')
    (hlinks : ∀ {location : Location} {target : Path},
      tree'.nodes[location]? = some (.link target) → tree.nodes[location]? = some (.link target)) :
    Hosts root base links tree' where
  descend_eq := by
    rw [hkeeps.startOf_eq]
    exact hkeeps.descend h.descend_eq
  linkFree name rest target hlink := h.linkFree name rest target (hlinks hlink)

theorem gains (h : Hosts root base links tree) (hgains : Gains tree tree') :
    Hosts root base links tree' where
  descend_eq := by
    rw [hgains.keeps.startOf_eq]
    exact hgains.keeps.descend h.descend_eq
  linkFree := h.linkFree.gains hgains

/-- Above a document that can be reached there are directories. -/
theorem isPassable {location : Location} (h : Hosts root base links tree)
    (hspot : tree.spot (documentPath root c) = .ok location) :
    pathFault? (documentPath root c) = none ∧ (fileName (key c)).utf8ByteSize ≤ maxName ∧
      IsPassable base (directoryNames (key c)) tree := by
  have hds := isName_directoryNames_key c
  rw [documentPath_eq] at hspot ⊢
  obtain ⟨hfault, hshort, here, left, hd, -⟩ := spot_join_eq_ok (isName_fileName_key c) hspot
  rw [startOf_foldl_join tree hds, namesOf_foldl_join hds, descend_append, h.descend_eq] at hd
  exact ⟨hfault, hshort, h.linkFree.isPassable hds hd⟩

/-! ### Replacing the document -/

/-- The document is put in its place, or nothing but directories is made. -/
theorem replaceFile_cases (h : Hosts root base links tree) (c : String) (bytes : Bytes) :
    (∃ made, GainsBelow base (directoryNames (key c)) tree made ∧
      made.spot (documentPath root c) = .ok (base ++ documentNames (key c)) ∧
      made.nodes[base ++ documentNames (key c)]? ≠ some .directory ∧
      replaceFile (documentPath root c) bytes tree = (.ok (), { made with
        nodes := made.nodes.insert (base ++ documentNames (key c)) (.file (.ofBytes bytes)) })) ∨
    ∃ e made, replaceFile (documentPath root c) bytes tree = (.error e, made) ∧
      GainsBelow base (directoryNames (key c)) tree made := by
  have hds := isName_directoryNames_key c
  obtain ⟨parent, hthrough, hleads, -⟩ := exists_writeThrough root hds (isName_fileName_key c)
  rw [← documentPath_eq] at hthrough
  rw [hthrough]
  obtain ⟨r, made, hmake, hgains, -⟩ := hleads.makeDirectories_cases h.descend_eq h.linkFree hds
  have hmade := h.gains hgains.toGains
  rcases hwrite : writeThrough parent (fileName (key c)) (documentPath root c) bytes tree with
    ⟨e | ⟨⟩, tree'⟩
  · -- A draft that could not take the place is gone again, so that only directories have come.
    have htree := writeThrough_eq_error hwrite
    rw [hmake] at htree
    exact .inr ⟨e, tree', rfl, htree ▸ hgains⟩
  · obtain ⟨made', place, hmake', hentry, hdir, rfl⟩ := writeThrough_eq_ok hwrite
    cases hmake.symm.trans hmake'
    rw [(names_documentPath root c).entry_eq] at hentry
    cases hspot : made.spot (documentPath root c) with
    | error e =>
      rw [hspot] at hentry
      cases hentry
    | ok location =>
      rw [hspot] at hentry
      cases hentry
      obtain rfl := eq_of_spot_documentPath hmade.descend_eq hmade.linkFree hspot
      exact .inl ⟨made, hgains, hspot, hdir, rfl⟩

/-- Where the way is open, only the draft can be too long. -/
theorem replaceFile_of_isPassable (h : Hosts root base links tree)
    (hfault : pathFault? (documentPath root c) = none)
    (hshort : (fileName (key c)).utf8ByteSize ≤ maxName)
    (hpass : IsPassable base (directoryNames (key c)) tree)
    (hplace : tree.nodes[base ++ documentNames (key c)]? ≠ some .directory) (bytes : Bytes) :
    ∃ n, (∀ i < n, tree.nodes[base ++ draftNames (key c) i]? ≠ none) ∧
      ((∃ tree', replaceFile (documentPath root c) bytes tree = (.ok (), tree')) ∨
      (∃ tree', replaceFile (documentPath root c) bytes tree = (.error .nameTooLong, tree')) ∧
        ¬ DraftFits root c n) := by
  have hds := isName_directoryNames_key c
  have hname := isName_fileName_key c
  obtain ⟨parent, hthrough, hleads, hfits⟩ := exists_writeThrough root hds hname
  rw [documentPath_eq] at hfault ⊢
  rw [hthrough]
  obtain ⟨hparent, hjoin⟩ := hfits hname hshort hfault
  obtain ⟨n, htaken, hcases⟩ := hleads.writeThrough_cases h.descend_eq h.linkFree hds hname hparent
    hjoin hfault hshort hpass hplace bytes
  rcases hcases with hdone | ⟨hfail, hlong⟩
  · exact ⟨n, htaken, .inl hdone⟩
  · refine ⟨n, htaken, .inr ⟨hfail, fun hdraft => hlong ⟨?_, hdraft.2⟩⟩⟩
    exact (hfits (isName_draftName hname n) hdraft.2 hdraft.1).2

theorem replaceFile_eq_ok_iff (h : Hosts root base links tree) (hroom : HasRoomIn root base c tree)
    (bytes : Bytes) :
    (∃ tree', replaceFile (documentPath root c) bytes tree = (.ok (), tree')) ↔
      ¬ Obstructed base (key c) tree := by
  rw [not_obstructed_iff]
  constructor
  · rintro ⟨tree', hdone⟩
    -- What was written was reached, so that no file was on the way.
    rcases h.replaceFile_cases c bytes with ⟨made, hgains, hspot, hdir, -⟩ | ⟨e, made, hfail, -⟩
    · obtain ⟨-, -, hpass⟩ := (h.gains hgains.toGains).isPassable hspot
      refine ⟨fun front hne hfront content hfile => ?_, fun hplace => hdir ?_⟩
      · exact hpass.not_file front hne hfront content (hgains.getElem?_file_iff.2 hfile)
      · rw [documentNames, hgains.getElem?_concat]
        exact hplace
    · cases hdone.symm.trans hfail
  · rintro ⟨hway, hplace⟩
    -- Even the first draft fits, whose name and path are longer than those of the document.
    obtain ⟨hfault, hshort⟩ := hroom.draft 0 fun i hi => absurd hi (Nat.not_lt_zero i)
    have hname := isName_fileName_key c
    have hpath : pathFault? (documentPath root c) = none := by
      rw [documentPath_eq]
      exact pathFault?_join_of_draft hname hfault
    obtain ⟨n, htaken, hdone | ⟨-, hlong⟩⟩ := h.replaceFile_of_isPassable hpath
      (Nat.le_trans (utf8ByteSize_le_draftName _ 0) hshort) ⟨hroom.directories, hway⟩ hplace bytes
    · exact hdone
    · -- A draft fits if all before it are taken.
      exact absurd (hroom.draft n htaken) hlong

/-! ### Locking and reading -/

/-- The root is there, so that only the file to lock is made. -/
theorem makeDirectories_lock (h : Hosts root base links tree) :
    ∃ parent r, (lockPath root).parent? = some parent ∧
      makeDirectories parent tree = (r, tree) ∧
      (pathFault? (lockPath root) = none → r = .ok ()) := by
  have hname : isName ".lock" = true := by decide
  have hnone : ∀ d ∈ ([] : List String), isName d = true := nofun
  obtain ⟨parent, hparent, hleads, hfront, -⟩ := leadsTo_parent? root hnone hname
  have hroot := hleads.descend_eq tree
  rw [List.append_nil, h.descend_eq] at hroot
  obtain ⟨r, hmake, hok⟩ := makeDirectoriesWithin_of_descend hroot parent.components.length
  refine ⟨parent, r, hparent, hmake, fun hfault => hok fun htext => ?_⟩
  exact pathFault?_of_isPrefix (hfront.trans (Path.prefix_join hname)) htext hfault

/-- The file to lock is there, or it is made, or nothing happens. -/
theorem lock_cases (h : Hosts root base links tree) :
    (∃ e, lock root tree = (.error e, tree)) ∨ lock root tree = (.ok (), tree) ∨
      tree.nodes[base ++ [".lock"]]? = none ∧ lock root tree = (.ok (), { tree with
        nodes := tree.nodes.insert (base ++ [".lock"]) (.file (.ofBytes [])) }) := by
  obtain ⟨parent, r, hparent, hmake, -⟩ := h.makeDirectories_lock
  unfold lock attempt
  rw [hparent]
  dsimp only
  cases r with
  | error e =>
    rw [bind_error hmake]
    exact .inl ⟨_, rfl⟩
  | ok u =>
    rw [bind_ok hmake]
    rcases hopen : openFile (lockPath root) tree with ⟨e | ⟨⟩, tree'⟩
    · rw [openFile_eq_error hopen]
      exact .inl ⟨_, rfl⟩
    · rcases openFile_lockPath_eq_ok h.descend_eq h.linkFree hopen with rfl | ⟨hnone, rfl⟩
      · exact .inr (.inl rfl)
      · exact .inr (.inr ⟨hnone, rfl⟩)

theorem lock_eq_ok_iff (h : Hosts root base links tree)
    (hfault : pathFault? (lockPath root) = none) :
    (∃ tree', lock root tree = (.ok (), tree')) ↔
      tree.nodes[base ++ [".lock"]]? ≠ some .directory := by
  have hname : isName ".lock" = true := by decide
  have hnone : ∀ d ∈ ([] : List String), isName d = true := nofun
  have hway : tree.descend links base [] = .ok (base ++ [], links) := by
    rw [descend, List.append_nil]
  have hspot := spot_join_of_descend h.descend_eq hnone hname hfault hway (by decide)
  have hplace : tree.locateAny true (lockPath root) = _ :=
    (names_join hname).locateAny_of_spot hspot (h.linkFree.ne_link (by simp))
  obtain ⟨parent, r, hparent, hmake, hok⟩ := h.makeDirectories_lock
  obtain rfl := hok hfault
  unfold lock attempt
  rw [hparent]
  dsimp only
  rw [bind_ok hmake]
  rw [List.nil_append] at hplace
  -- Only a directory cannot be opened; below the root there are no links.
  rcases hnode : tree.nodes[base ++ [".lock"]]? with - | (content | - | target)
  · rw [hnode] at hplace
    rw [openFile_of_none hplace]
    exact iff_of_true ⟨_, rfl⟩ (by simp)
  · rw [hnode] at hplace
    rw [openFile_of_file hplace]
    exact iff_of_true ⟨_, rfl⟩ (by simp)
  · rw [hnode] at hplace
    rw [openFile_of_directory hplace]
    exact iff_of_false (by rintro ⟨_, ⟨⟩⟩) (by simp)
  · exact absurd hnode (h.linkFree.ne_link (by simp) target)

/-- A document that is refused is discarded if it is a file. -/
theorem refused_cases (h : Hosts root base links tree) (c : String) :
    refused (documentPath root c) tree = tree ∨
      tree.spot (documentPath root c) = .ok (base ++ documentNames (key c)) ∧
        (∃ content, tree.nodes[base ++ documentNames (key c)]? = some (.file content)) ∧
        refused (documentPath root c) tree =
          { tree with nodes := tree.nodes.erase (base ++ documentNames (key c)) } := by
  unfold refused
  split
  · rename_i node hfind
    -- What is no file could not be removed, and stays.
    by_cases hfile : ∃ content, tree.find false (documentPath root c) = .ok (.file content)
    · obtain ⟨content, hfound⟩ := hfile
      obtain ⟨hspot, hnode⟩ := (find_documentPath_eq_file_iff h.descend_eq h.linkFree).1 hfound
      refine .inr ⟨hspot, ⟨content, hnode⟩, ?_⟩
      rw [discard, removeFile_of_find h.descend_eq h.linkFree hfound]
    · obtain ⟨e, hfail⟩ := removeFile_of_not_file h.descend_eq h.linkFree fun content hfound =>
        hfile ⟨content, hfound⟩
      rw [discard, hfail]
      exact .inl rfl
  · exact .inl rfl

theorem get_snd_cases (h : Hosts root base links tree) (c : String) :
    (get root c tree).2 = tree ∨
      tree.spot (documentPath root c) = .ok (base ++ documentNames (key c)) ∧
        (∃ content, tree.nodes[base ++ documentNames (key c)]? = some (.file content)) ∧
        (get root c tree).2 =
          { tree with nodes := tree.nodes.erase (base ++ documentNames (key c)) } := by
  rcases get_cases root c tree with ⟨json, d, -, -, hget⟩ | ⟨-, hget⟩
  · rw [hget]
    exact .inl rfl
  · rw [hget]
    dsimp only
    exact h.refused_cases c

/-- Taking the lock does not touch the document. -/
theorem of_lock (h : Hosts root base links tree) (hlock : lock root tree = (.ok (), locked))
    (c : String) :
    Hosts root base links locked ∧ ChangesOnly base (key c) [base ++ [".lock"]] tree locked ∧
      (get root c locked).1 = (get root c tree).1 := by
  rcases h.lock_cases with ⟨e, hfail⟩ | hsame | ⟨hnone, hmade⟩
  · cases hlock.symm.trans hfail
  · cases hlock.symm.trans hsame
    exact ⟨h, (ChangesOnly.refl _ _ _).mono (List.nil_subset _), rfl⟩
  · cases hlock.symm.trans hmade
    have hkeeps : Keeps tree { tree with
        nodes := tree.nodes.insert (base ++ [".lock"]) (.file (.ofBytes [])) } :=
      keeps_insert_file (by simp [hnone])
    have hlocked := h.of_keeps hkeeps (keeps_of_insert_file.getElem?_eq (by simp))
    refine ⟨hlocked, .insert, get_congr fun content => ?_⟩
    -- The lock file is not in the place of the document, and making it opens no way.
    have hne : [".lock"] ≠ documentNames (key c) := (documentNames_ne_lock _).symm
    rw [find_documentPath_eq_file_iff h.descend_eq h.linkFree,
      find_documentPath_eq_file_iff hlocked.descend_eq hlocked.linkFree]
    refine and_congr ⟨keeps_of_insert_file.spot, hkeeps.spot⟩ ?_
    simp [Std.ExtTreeMap.getElem?_insert, hne]

/-! ### Writing a document -/

theorem put_cases (h : Hosts root base links tree) (hkey : key (key c) = key c) (es : Entries) :
    (∃ tree', put root c es tree = (.ok (), tree') ∧
      ChangesOnly base (key c) [base ++ documentNames (key c)] tree tree' ∧
      tree'.nodes[base ++ documentNames (key c)]? = some (.file (rendered (key c) es))) ∨
    ∃ e tree', put root c es tree = (.error e, tree') ∧ ChangesOnly base (key c) [] tree tree' := by
  rw [put_eq root hkey]
  rcases h.replaceFile_cases c (Document.ofEntries (key c) es).render.toUTF8.toList with
    ⟨made, hgains, -, -, hdone⟩ | ⟨e, made, hfail, hgains⟩
  · refine .inl ⟨_, attempt_eq_ok.2 hdone, ?_, Std.ExtTreeMap.getElem?_insert_self⟩
    exact (ChangesOnly.of_gainsBelow hgains).trans .insert
  · exact .inr ⟨_, _, attempt_eq_error.2 ⟨e, rfl, hfail⟩, .of_gainsBelow hgains⟩

/-- In place of a document that has been discarded another one can be put. -/
theorem put_of_spot (h : Hosts root base links tree) (hkey : key (key c) = key c)
    (hspot : tree.spot (documentPath root c) = .ok (base ++ documentNames (key c)))
    (hplace : tree.nodes[base ++ documentNames (key c)]? ≠ some .directory) {e : CacheError}
    (hput : put root c es tree = (.error e, tree')) :
    e = .file .nameTooLong ∧ ¬ HasRoomIn root base c tree := by
  rw [put_eq root hkey] at hput
  obtain ⟨cause, rfl, hreplace⟩ := attempt_eq_error.1 hput
  obtain ⟨hfault, hshort, hpass⟩ := h.isPassable hspot
  obtain ⟨n, htaken, ⟨made, hdone⟩ | ⟨⟨made, hfail⟩, hlong⟩⟩ :=
    h.replaceFile_of_isPassable hfault hshort hpass hplace
      (Document.ofEntries (key c) es).render.toUTF8.toList
  · cases hdone.symm.trans hreplace
  · cases hfail.symm.trans hreplace
    exact ⟨rfl, fun hroom => hlong (hroom.draft n htaken)⟩

theorem put_eq_error_iff (h : Hosts root base links tree) (hkey : key (key c) = key c)
    (hroom : HasRoomIn root base c tree) (es : Entries) :
    (∃ e tree', put root c es tree = (.error e, tree')) ↔ Obstructed base (key c) tree := by
  have hok := h.replaceFile_eq_ok_iff hroom (Document.ofEntries (key c) es).render.toUTF8.toList
  rw [put_eq root hkey]
  rcases hrun : replaceFile (documentPath root c)
    (Document.ofEntries (key c) es).render.toUTF8.toList tree with ⟨cause | ⟨⟩, made⟩
  · refine iff_of_true ⟨_, _, attempt_eq_error.2 ⟨cause, rfl, hrun⟩⟩ (Classical.not_not.1 ?_)
    intro hfree
    obtain ⟨_, hdone⟩ := hok.2 hfree
    cases hrun.symm.trans hdone
  · refine iff_of_false ?_ (hok.1 ⟨made, hrun⟩)
    rintro ⟨e, tree', hfail⟩
    cases (attempt_eq_ok.2 hrun).symm.trans hfail

end Hosts

/-! ### Adding to a document -/

/-- What has been done when the document of a class is about to be written: at most it was
discarded, and then it can be written. -/
structure Prepares (root : Path) (base : Location) (links : Nat) (c : String)
    (tree ready : FileTree) : Prop where
  hosts : Hosts root base links ready
  changesOnly : ChangesOnly base (key c) [base ++ [".lock"], base ++ documentNames (key c)] tree
    ready
  document_cases : ChangesOnly base (key c) [base ++ [".lock"]] tree ready ∨
    ready.spot (documentPath root c) = .ok (base ++ documentNames (key c)) ∧
      ready.nodes[base ++ documentNames (key c)]? = none ∧
      ∃ content, tree.nodes[base ++ documentNames (key c)]? = some (.file content)

theorem Hosts.prepares (h : Hosts root base links tree)
    (hlock : lock root tree = (.ok (), locked)) (c : String) :
    Prepares root base links c tree (get root c locked).2 := by
  obtain ⟨hlocked, hchanges, -⟩ := h.of_lock hlock c
  rcases hlocked.get_snd_cases c with hsame | ⟨hspot, ⟨content, hfile⟩, herase⟩
  · -- Nothing was discarded, so that only the lock file can be new.
    rw [hsame]
    exact ⟨hlocked, hchanges.mono (by simp), .inl hchanges⟩
  · rw [herase]
    have hkeeps : Keeps locked
        { locked with nodes := locked.nodes.erase (base ++ documentNames (key c)) } :=
      keeps_erase_file (by simp [hfile])
    have hhosts := hlocked.of_keeps hkeeps getElem?_of_erase
    have hfile' := (hchanges.getElem?_file_iff (documentNames_not_mem base (key c))).1 hfile
    exact ⟨hhosts, hchanges.trans .erase,
      .inr ⟨hkeeps.spot hspot, Std.ExtTreeMap.getElem?_erase_self, content, hfile'⟩⟩

namespace Prepares

variable {ready : FileTree}

theorem obstructed_iff (h : Prepares root base links c tree ready) :
    Obstructed base (key c) ready ↔ Obstructed base (key c) tree := by
  refine obstructed_congr h.changesOnly ?_
  rcases h.document_cases with hchanges | ⟨-, hnone, content, hfile⟩
  · rw [documentNames, hchanges.getElem?_concat (documentNames_not_mem base (key c))]
  · simp [hnone, hfile]

/-- If a document is discarded, it is also written. -/
theorem changesOnly_lock (h : Prepares root base links c tree ready) (hkey : key (key c) = key c)
    {e : CacheError} (hput : put root c es ready = (.error e, tree'))
    (hroom : e ≠ .file .nameTooLong ∨ HasRoomIn root base c tree) :
    ChangesOnly base (key c) [base ++ [".lock"]] tree tree' := by
  rcases h.hosts.put_cases hkey es with ⟨_, hdone, -⟩ | ⟨_, made, hfail, hspares⟩
  · cases hdone.symm.trans hput
  · obtain rfl : made = tree' := congrArg Prod.snd (hfail.symm.trans hput)
    rcases h.document_cases with hchanges | ⟨hspot, hnone, -⟩
    · exact hchanges.trans hspares
    · -- The document was discarded, so that its place is free and the way to it open.
      obtain ⟨hlong, hfull⟩ := h.hosts.put_of_spot hkey hspot (by simp [hnone]) hput
      rcases hroom with hshort | hroom
      · exact absurd hlong hshort
      · exact absurd (hroom.changesOnly h.changesOnly) hfull

end Prepares

namespace Hosts

theorem merge_eq (h : Hosts root base links tree) (hlock : lock root tree = (.ok (), locked))
    (c : String) (es : Entries) :
    merge root c es tree =
      put root c (((get root c tree).1.getD ∅).union es) (get root c locked).2 := by
  obtain ⟨-, -, hsame⟩ := h.of_lock hlock c
  rcases hget : get root c locked with ⟨old, read⟩
  rw [hget] at hsame
  rw [merge, bind_ok hlock, bind_ok (lift_ok hget), ← hsame]

theorem merge_cases (h : Hosts root base links tree) (hkey : key (key c) = key c) (es : Entries) :
    (∃ tree', merge root c es tree = (.ok (), tree') ∧
      ChangesOnly base (key c) [base ++ [".lock"], base ++ documentNames (key c)] tree tree' ∧
      tree'.nodes[base ++ documentNames (key c)]? =
        some (.file (rendered (key c) (((get root c tree).1.getD ∅).union es)))) ∨
    ∃ e tree', merge root c es tree = (.error e, tree') ∧
      ChangesOnly base (key c) [base ++ [".lock"], base ++ documentNames (key c)] tree tree' ∧
      (e ≠ .file .nameTooLong ∨ HasRoomIn root base c tree →
        ChangesOnly base (key c) [base ++ [".lock"]] tree tree') := by
  rcases hlock : lock root tree with ⟨e | ⟨⟩, locked⟩
  · -- The lock was not taken.
    have hsame : locked = tree := by
      rcases h.lock_cases with ⟨_, hfail⟩ | hdone | ⟨-, hdone⟩
      · exact congrArg Prod.snd (hlock.symm.trans hfail)
      · cases hlock.symm.trans hdone
      · cases hlock.symm.trans hdone
    have hrefl := ChangesOnly.refl base (key c) tree
    rw [merge, bind_error hlock, hsame]
    exact .inr ⟨e, tree, rfl, hrefl.mono (List.nil_subset _),
      fun _ => hrefl.mono (List.nil_subset _)⟩
  · have hready := h.prepares hlock c
    rw [h.merge_eq hlock]
    rcases hready.hosts.put_cases hkey (((get root c tree).1.getD ∅).union es) with
      ⟨tree', hput, hchanges, hdocument⟩ | ⟨e, tree', hput, hchanges⟩
    · refine .inl ⟨tree', hput, ?_, hdocument⟩
      exact (hready.changesOnly.trans hchanges).mono (by simp)
    · refine .inr ⟨e, tree', hput, ?_, hready.changesOnly_lock hkey hput⟩
      exact hready.changesOnly.trans hchanges

theorem merge_eq_error_iff (h : Hosts root base links tree) (hkey : key (key c) = key c)
    (hroom : HasRoomIn root base c tree) (es : Entries) :
    (∃ e tree', merge root c es tree = (.error e, tree')) ↔
      Obstructed base (key c) tree ∨ tree.nodes[base ++ [".lock"]]? = some .directory := by
  have hok := h.lock_eq_ok_iff hroom.lock
  rcases hlock : lock root tree with ⟨e | ⟨⟩, locked⟩
  · rw [hlock] at hok
    -- The lock can only fail at a directory in its place.
    refine iff_of_true ⟨e, locked, ?_⟩ (.inr (Classical.not_not.1 fun hfile => ?_))
    · rw [merge, bind_error hlock]
    · obtain ⟨_, hdone⟩ := hok.2 hfile
      cases hdone
  · have hready := h.prepares hlock c
    have hfile := hok.1 ⟨locked, hlock⟩
    rw [h.merge_eq hlock, or_iff_left hfile, ← hready.obstructed_iff]
    exact hready.hosts.put_eq_error_iff hkey (hroom.changesOnly hready.changesOnly) _

end Hosts

/-- **A failed write leaves all documents as they were, and any write all other files.** A put that
fails changes no file, and one that succeeds only the document; a merge may also make the file to
lock. Nothing else appears but directories on the way, so that no draft remains. A merge that fails
can lose a document, one that cannot be used, but only if the name or path of its draft is too long.
Where names and paths fit, writing fails exactly if a file is in the way, or a directory in the
place of the document or of the file to lock. -/
theorem writes_spare_files
    (hbase : tree.directoryAt (tree.startOf root) (namesOf root) = .ok base)
    (hlinks : tree.LinkFree base) (hkey : key (key c) = key c) (es : Entries) :
    (∀ e tree', put root c es tree = (.error e, tree') →
      ChangesOnly base (key c) [] tree tree') ∧
    (∀ tree', put root c es tree = (.ok (), tree') →
      ChangesOnly base (key c) [base ++ documentNames (key c)] tree tree' ∧
        tree'.nodes[base ++ documentNames (key c)]? = some (.file (rendered (key c) es))) ∧
    (∀ e tree', merge root c es tree = (.error e, tree') →
      ChangesOnly base (key c) [base ++ [".lock"], base ++ documentNames (key c)] tree tree' ∧
      (e ≠ .file .nameTooLong ∨ HasRoomIn root base c tree →
        ChangesOnly base (key c) [base ++ [".lock"]] tree tree')) ∧
    (∀ tree', merge root c es tree = (.ok (), tree') →
      ChangesOnly base (key c) [base ++ [".lock"], base ++ documentNames (key c)] tree tree' ∧
        tree'.nodes[base ++ documentNames (key c)]? =
          some (.file (rendered (key c) (((get root c tree).1.getD ∅).union es)))) ∧
    (HasRoomIn root base c tree →
      ((∃ e tree', put root c es tree = (.error e, tree')) ↔ Obstructed base (key c) tree) ∧
      ((∃ e tree', merge root c es tree = (.error e, tree')) ↔
        Obstructed base (key c) tree ∨ tree.nodes[base ++ [".lock"]]? = some .directory)) := by
  obtain ⟨links, h⟩ := exists_hosts hbase hlinks
  refine ⟨fun e tree' hput => ?_, fun tree' hput => ?_, fun e tree' hmerge => ?_,
    fun tree' hmerge => ?_, fun hroom => ⟨h.put_eq_error_iff hkey hroom es,
      h.merge_eq_error_iff hkey hroom es⟩⟩
  · rcases h.put_cases hkey es with ⟨_, hdone, -⟩ | ⟨_, _, hfail, hspares⟩
    · cases hdone.symm.trans hput
    · cases hfail.symm.trans hput
      exact hspares
  · rcases h.put_cases hkey es with ⟨_, hdone, hwrites⟩ | ⟨_, _, hfail, -⟩
    · cases hdone.symm.trans hput
      exact hwrites
    · cases hfail.symm.trans hput
  · rcases h.merge_cases hkey es with ⟨_, hdone, -⟩ | ⟨_, _, hfail, hspares⟩
    · cases hdone.symm.trans hmerge
    · cases hfail.symm.trans hmerge
      exact hspares
  · rcases h.merge_cases hkey es with ⟨_, hdone, hwrites⟩ | ⟨_, _, hfail, -⟩
    · cases hdone.symm.trans hmerge
      exact hwrites
    · cases hfail.symm.trans hmerge

/-- A directory with a file where the directory of a package belongs. -/
def blockedCache : FileTree :=
  { emptyCache with nodes := emptyCache.nodes.insert ["c", "a"] (.file (.ofBytes [1])) }

/-- Nothing can be added to a class of the package, and the file in the way is not touched. -/
theorem writes_spare_files_blockedCache :
    ∃ e tree', merge ⟨"/c"⟩ "a.B" outerEntries blockedCache = (.error e, tree') ∧
      ChangesOnly ["c"] "a.B" [["c", ".lock"]] blockedCache tree' ∧
      tree'.nodes[["c", "a"]]? = some (.file (.ofBytes [1])) := by
  have hcache : blockedCache.nodes[["c"]]? = some .directory := by decide
  have hbase : blockedCache.directoryAt (blockedCache.startOf ⟨"/c"⟩) (namesOf ⟨"/c"⟩) =
      .ok ["c"] := by
    rw [directoryAt_eq, descend_cacheRoot hcache]
    rfl
  have hlinks : blockedCache.LinkFree ["c"] := by
    intro name rest target hlink
    simp only [blockedCache, emptyCache, Std.ExtTreeMap.getElem?_insert] at hlink
    split at hlink
    · cases hlink
    · simp at hlink
  have hkey : key "a.B" = "a.B" := by decide
  have hroom : HasRoomIn ⟨"/c"⟩ ["c"] "a.B" blockedCache := by
    refine ⟨by decide, by decide, fun n htaken => ?_⟩
    cases n with
    | zero => exact ⟨by decide, by decide⟩
    | succ n => exact absurd (by decide) (htaken 0 (Nat.succ_pos n))
  have hway : Obstructed ["c"] (key "a.B") blockedCache :=
    .inl ⟨["a"], .ofBytes [1], by decide, by decide, by decide⟩
  obtain ⟨-, -, hfailed, -, hfails⟩ :=
    writes_spare_files hbase hlinks (by rw [hkey, hkey]) outerEntries
  obtain ⟨e, tree', hmerge⟩ := (hfails hroom).2.2 (.inl hway)
  have hspares := (hfailed e tree' hmerge).2 (.inr hroom)
  rw [hkey] at hspares
  exact ⟨e, tree', hmerge, hspares, (hspares.getElem?_file_iff (by decide)).2 (by decide)⟩

end JvmThrows.Cache.Directory
