import JvmThrows.Proofs.Hierarchy

/-!
# Containers of an index

Containers are compared by the components of their paths, and two containers of an index that
compare equal are equal: what a path leads to is found under names that hold no slash and are
neither empty nor dots (`isName_of_mem_walk`), and such names can be read off the path that is made
of them (`components_pathOf`). It follows that an index lists for a container exactly the classes
that it says to come from there (`mem_classesIn_iff`).
-/

namespace JvmThrows

/-! ### Canonical paths -/

namespace FileTree

variable {tree : FileTree} {location : Location} {path : Path}

theorem isName_iff {name : String} :
    isName name = true ↔ name ≠ "" ∧ name ≠ "." ∧ name ≠ ".." ∧ '/' ∉ name.toList := by
  simp [isName, and_assoc]

theorem isName_of_mem_namesOf {name : String} (h : name ∈ namesOf path) (hhere : name ≠ ".")
    (hup : name ≠ "..") : isName name = true := by
  obtain ⟨piece, hpiece, rfl⟩ := List.mem_map.1 h
  obtain ⟨hmem, hne⟩ := List.mem_filter.1 hpiece
  refine isName_iff.2 ⟨?_, hhere, hup, ?_⟩
  · simpa using hne
  · simpa using Text.not_mem_of_mem_pieces hmem

theorem isName_of_mem_concat {here : Location} {name : String} {rest : List String}
    (hhere : ∀ x ∈ here, isName x = true)
    (hnames : ∀ x ∈ name :: rest, x ≠ "." → x ≠ ".." → isName x = true) (h1 : name ≠ ".")
    (h2 : name ≠ "..") : ∀ x ∈ here ++ [name], isName x = true := by
  intro x hx
  rcases List.mem_append.1 hx with hx | hx
  · exact hhere x hx
  · obtain rfl := List.mem_singleton.1 hx
    exact hnames x List.mem_cons_self h1 h2

/-- Names lead to names, whatever links are on the way. -/
theorem isName_of_mem_walk {follow slash : Bool} {links : Nat} {here : Location}
    {names : List String} {place : Place}
    (hhere : ∀ x ∈ here, isName x = true)
    (hnames : ∀ x ∈ names, x ≠ "." → x ≠ ".." → isName x = true)
    (h : tree.walk follow slash links here names = .ok place) :
    ∀ x ∈ place.location, isName x = true := by
  fun_induction walk tree follow slash links here names with
  | case1 =>
    cases h
    exact hhere
  | case2 _ _ _ rest ih => exact ih hhere (fun x hx => hnames x (List.mem_cons_of_mem _ hx)) h
  | case3 _ _ _ rest _ ih =>
    exact ih (fun x hx => hhere x (List.dropLast_subset _ hx))
      (fun x hx => hnames x (List.mem_cons_of_mem _ hx)) h
  | case4 | case6 | case9 | case11 => cases h
  | case5 _ _ _ _ _ h1 h2 | case8 _ _ _ _ _ h1 h2 | case10 _ _ _ _ _ h1 h2 =>
    cases h
    exact isName_of_mem_concat hhere hnames h1 h2
  | case7 _ _ _ _ _ h1 h2 _ _ _ ih =>
    exact ih (isName_of_mem_concat hhere hnames h1 h2)
      (fun x hx => hnames x (List.mem_cons_of_mem _ hx)) h
  | case12 _ here _ rest _ _ _ _ target _ _ _ ih =>
    refine ih (fun x hx => ?_) (fun x hx => ?_) (by simpa using h)
    · by_cases habs : target.isAbsolute = true
      · simp [habs] at hx
      · exact hhere x (by simpa [habs] using hx)
    · rcases List.mem_append.1 hx with hx | hx
      · exact isName_of_mem_namesOf hx
      · exact hnames x (List.mem_cons_of_mem _ hx)

/-- The names on the way to a place can be read off its path. -/
theorem components_pathOf (h : ∀ x ∈ location, isName x = true) :
    (pathOf location).components = .root :: location.map .name := by
  have hpieces : (Text.pieces '/' (pathOf location).text.toList).filter (!Path.isIdle ·) =
      location.map String.toList := by
    have hslash : ∀ p ∈ location.map String.toList, '/' ∉ p := by
      simpa using fun x hx => (isName_iff.1 (h x hx)).2.2.2
    have hidle : ∀ p ∈ location.map String.toList, (!Path.isIdle p) = true := by
      intro p hp
      obtain ⟨x, hx, rfl⟩ := List.mem_map.1 hp
      obtain ⟨hne, hhere, -⟩ := isName_iff.1 (h x hx)
      have hdot : x.toList ≠ ['.'] := fun hd => hhere (String.toList_inj.1 hd)
      simp [Path.isIdle, hne, hdot]
    have htext : (pathOf location).text.toList =
        '/' :: ['/'].intercalate (location.map String.toList) := by
      simp [pathOf]
    rw [htext, Text.pieces, if_pos rfl]
    cases location with
    | nil => rfl
    | cons x rest =>
      rw [Text.pieces_intercalate (by simp) hslash, List.filter_cons_of_neg (by simp [Path.isIdle]),
        List.filter_eq_self.2 hidle]
  have hroot : (pathOf location).isAbsolute = true := by simp [Path.isAbsolute, pathOf]
  have hname : ∀ x ∈ location, Component.ofPiece x.toList = .name x := by
    intro x hx
    have hdots : x.toList ≠ ['.', '.'] := fun hd =>
      (isName_iff.1 (h x hx)).2.2.1 (String.toList_inj.1 hd)
    simp [Component.ofPiece, hdots]
  simpa [Path.components, hpieces, hroot] using hname

end FileTree

/-- A path of names from the root. -/
def Path.IsCanonical (p : Path) : Prop :=
  ∃ location, (∀ x ∈ location, FileTree.isName x = true) ∧ p = FileTree.pathOf location

theorem Path.IsCanonical.eq_of_components {p q : Path} (hp : p.IsCanonical) (hq : q.IsCanonical)
    (h : p.components = q.components) : p = q := by
  obtain ⟨l, hl, rfl⟩ := hp
  obtain ⟨l', hl', rfl⟩ := hq
  rw [FileTree.components_pathOf hl, FileTree.components_pathOf hl', List.cons.injEq] at h
  rw [(List.map_inj_right fun _ _ => Component.name.inj).1 h.2]

theorem FileTree.isCanonical_canonical {tree : FileTree} {path p : Path}
    (h : tree.canonical path = .ok p) : p.IsCanonical := by
  have hstart : ∀ x ∈ tree.startOf path, isName x = true := by
    unfold startOf
    split <;> simp
  unfold canonical at h
  split at h
  · cases h
  · rename_i place hplace
    have hwalk : tree.locateAny true path = .ok place := by
      unfold locate at hplace
      split at hplace
      · cases hplace
      · exact hplace
    unfold locateAny at hwalk
    split at hwalk
    · cases hwalk
    · split at h
      · cases h
        exact ⟨_, isName_of_mem_walk hstart (fun x => isName_of_mem_namesOf) hwalk, rfl⟩
      · cases h

theorem FileTree.canonical_of_locate {tree : FileTree} {path : Path} {place : Place}
    (h : tree.locate true path = .ok place) (hnode : place.node.isSome = true) :
    tree.canonical path = .ok (pathOf place.location) := by
  simp [canonical, h, hnode]

theorem FileTree.namesOf_pathOf_singleton {name : String} (h : isName name = true) :
    namesOf (pathOf [name]) = [name] := by
  obtain ⟨hne, -, -, hslash⟩ := isName_iff.1 h
  have htext : (pathOf [name]).text.toList = '/' :: name.toList := by simp [pathOf]
  have hempty : name.toList ≠ [] := by simpa using hne
  simp [namesOf, htext, Text.pieces, Text.pieces_of_not_mem hslash, hempty]

/-- What is at the root of a tree is found there. -/
theorem FileTree.locate_pathOf_singleton {tree : FileTree} {name : String} {content : Content}
    (hname : isName name = true) (hnul : '\x00' ∉ name.toList)
    (hsize : name.utf8ByteSize ≤ maxName) (hnode : tree.nodes[[name]]? = some (.file content)) :
    tree.locate true (pathOf [name]) = .ok ⟨[name], some (.file content), false⟩ := by
  obtain ⟨hne, hhere, hup, hslash⟩ := isName_iff.1 hname
  have htext : (pathOf [name]).text = "/" ++ name := by simp [pathOf]
  have hfault : pathFault? (pathOf [name]) = none := by
    have hslash1 : "/".utf8ByteSize = 1 := rfl
    have hfits : "/".utf8ByteSize + name.utf8ByteSize ≤ maxPath := by
      unfold maxName at hsize
      unfold maxPath
      omega
    simpa [pathFault?, htext, hnul] using hfits
  have hroot : (pathOf [name]).isAbsolute = true := by simp [Path.isAbsolute, htext]
  have hend : endsInSlash (pathOf [name]) = false := by
    have hempty : name.toList ≠ [] := by simpa using hne
    have hlast : name.toList.getLast hempty ≠ '/' := fun h => hslash (h ▸ List.getLast_mem hempty)
    simpa [endsInSlash, htext, List.getLast?_cons, List.getLast?_eq_some_getLast hempty] using hlast
  simp [locate, locateAny, hfault, startOf, hroot, hend, namesOf_pathOf_singleton hname, walk,
    hhere, hup, Nat.not_lt.2 hsize, hnode]

/-! ### Containers -/

namespace ClasspathEntry

variable {tree : FileTree} {a b e e' : ClasspathEntry} {cs : List ClassFile}

theorem same_iff : a.same b = true ↔ a.kind = b.kind ∧ a.path.components = b.path.components := by
  simp [same, Path.same]

theorem compare_eq_iff : compare a b = .eq ↔ a.same b = true := by
  rw [same_iff]
  have hkind : a.kind.rank = b.kind.rank ↔ a.kind = b.kind := by
    cases a.kind <;> cases b.kind <;> simp [ContainerKind.rank]
  have hlex : compare a b = (compare a.kind.rank b.kind.rank).then
      (compare a.path.components b.path.components) := rfl
  rw [hlex, Ordering.then_eq_eq, Std.compare_eq_iff_eq, Std.compare_eq_iff_eq, hkind]

/-- An archive at the root of a tree can be opened. -/
theorem archiveEntries_pathOf_singleton {name : String} {content : List ArchiveEntry}
    (hname : FileTree.isName name = true) (hnul : '\x00' ∉ name.toList)
    (hsize : name.utf8ByteSize ≤ FileTree.maxName)
    (hnode : tree.nodes[[name]]? = some (.file (.ofEntries content))) :
    archiveEntries tree (FileTree.pathOf [name]) = .ok content := by
  rw [archiveEntries, FileTree.find, FileTree.locate_pathOf_singleton hname hnul hsize hnode]
  rfl

theorem exists_place_of_archiveEntries {path : Path} {entries : List ArchiveEntry}
    (h : archiveEntries tree path = .ok entries) :
    ∃ place, tree.locate true path = .ok place ∧ place.node.isSome = true := by
  unfold archiveEntries FileTree.find at h
  cases hplace : tree.locate true path with
  | error cause => simp [hplace] at h
  | ok place =>
    cases hnode : place.node with
    | none => simp [hplace, hnode] at h
    | some node => exact ⟨place, rfl, by simp [hnode]⟩

theorem exists_place_of_directoryClasses {path : Path} (h : directoryClasses tree path = .ok cs) :
    ∃ place, tree.locate true path = .ok place ∧ place.node.isSome = true := by
  unfold directoryClasses at h
  split at h
  · rename_i hplace
    exact ⟨_, hplace, rfl⟩
  · cases h

/-- What can be read has a canonical path. -/
theorem exists_canonical_of_classes (h : e.classes tree = .ok cs) :
    ∃ p, tree.canonical e.path = .ok p := by
  have hplace : ∃ place, tree.locate true e.path = .ok place ∧ place.node.isSome = true := by
    unfold classes unsortedClasses at h
    split at h
    · cases hdir : directoryClasses tree e.path with
      | error cause => simp [hdir, Except.map] at h
      | ok found => exact exists_place_of_directoryClasses hdir
    all_goals
      cases hentries : archiveEntries tree e.path with
      | error cause => simp [hentries, Except.map, Except.bind] at h
      | ok entries => exact exists_place_of_archiveEntries hentries
  obtain ⟨place, hplace, hnode⟩ := hplace
  exact ⟨_, FileTree.canonical_of_locate hplace hnode⟩

/-- What is loaded was read at a canonical path. -/
theorem load_eq_ok (h : ClasspathIndex.load tree e = .ok (e', cs)) :
    e'.path.IsCanonical ∧ e'.classes tree = .ok cs := by
  unfold ClasspathIndex.load at h
  cases hnorm : e.normalize tree with
  | error cause => simp [hnorm] at h
  | ok e1 =>
    rw [hnorm] at h
    cases hclasses : e1.classes tree with
    | error cause => simp [hclasses, Except.map] at h
    | ok cs1 =>
      obtain ⟨rfl, rfl⟩ : e1 = e' ∧ cs1 = cs := by simpa [hclasses, Except.map] using h
      refine ⟨?_, hclasses⟩
      unfold normalize at hnorm
      split at hnorm
      · rename_i p hp
        cases hnorm
        exact FileTree.isCanonical_canonical hp
      · -- What is missing cannot have been read.
        rename_i hmissing
        cases hnorm
        obtain ⟨p, hp⟩ := exists_canonical_of_classes hclasses
        cases hmissing.symm.trans hp
      · cases hnorm

end ClasspathEntry

namespace ClasspathIndex

variable {tree : FileTree} {entries : List ClasspathEntry} {e e' : ClasspathEntry} {n : String}

/-- A jar at the root of a tree is loaded as the classes of its entries. -/
theorem load_jar {name : String} {content : List ArchiveEntry}
    (hname : FileTree.isName name = true) (hnul : '\x00' ∉ name.toList)
    (hsize : name.utf8ByteSize ≤ FileTree.maxName)
    (hnode : tree.nodes[[name]]? = some (.file (.ofEntries content))) :
    load tree ⟨.jar, FileTree.pathOf [name]⟩ = (Archive.jarClasses content).map fun cs =>
      (⟨.jar, FileTree.pathOf [name]⟩, cs.mergeSort fun a b => a.name ≤ b.name) := by
  have hplace := FileTree.locate_pathOf_singleton hname hnul hsize hnode
  have hcanonical := FileTree.canonical_of_locate hplace rfl
  have hopen := ClasspathEntry.archiveEntries_pathOf_singleton hname hnul hsize hnode
  cases hcs : Archive.jarClasses content with
  | error cause =>
    simp [load, ClasspathEntry.normalize, hcanonical, ClasspathEntry.classes,
      ClasspathEntry.unsortedClasses, hopen, hcs, Except.map, Except.bind]
  | ok cs =>
    simp [load, ClasspathEntry.normalize, hcanonical, ClasspathEntry.classes,
      ClasspathEntry.unsortedClasses, hopen, hcs, Except.map, Except.bind]

theorem load_of_mem_loaded {cs : List ClassFile} (h : (e, cs) ∈ loaded tree entries) :
    e.path.IsCanonical ∧ e.classes tree = .ok cs := by
  obtain ⟨e0, -, hload⟩ := List.mem_filterMap.1 h
  cases hr : load tree e0 with
  | error cause => simp [hr, Except.toOption] at hload
  | ok r =>
    obtain rfl : r = (e, cs) := by simpa [hr, Except.toOption] using hload
    exact ClasspathEntry.load_eq_ok hr

theorem exists_loaded_of_mem_containers (h : e ∈ (build tree entries).containers) :
    ∃ cs, (e, cs) ∈ loaded tree entries := by
  rw [containers_build] at h
  obtain ⟨⟨e', cs⟩, hmem, rfl⟩ := List.mem_map.1 h
  exact ⟨cs, hmem⟩

/-- The containers of an index are equal if their paths are spelled alike. -/
theorem eq_of_same (he : e ∈ (build tree entries).containers)
    (he' : e' ∈ (build tree entries).containers) (h : e.same e' = true) : e = e' := by
  obtain ⟨cs, hcs⟩ := exists_loaded_of_mem_containers he
  obtain ⟨cs', hcs'⟩ := exists_loaded_of_mem_containers he'
  obtain ⟨hkind, hpath⟩ := ClasspathEntry.same_iff.1 h
  have heq := (load_of_mem_loaded hcs).1.eq_of_components (load_of_mem_loaded hcs').1 hpath
  cases e
  cases e'
  simp_all

theorem compare_eq_iff_of_mem (he : e ∈ (build tree entries).containers)
    (he' : e' ∈ (build tree entries).containers) : compare e e' = .eq ↔ e = e' := by
  rw [ClasspathEntry.compare_eq_iff]
  exact ⟨eq_of_same he he', fun h => by simp [h, ClasspathEntry.same_iff]⟩

/-- The container that a class comes from holds a class of this name. -/
theorem containerOf?_found (h : (build tree entries).containerOf? n = some e) :
    e ∈ (build tree entries).containers ∧
      ∃ cs, e.classes tree = .ok cs ∧ ∃ c ∈ cs, ClassName.toBinary c.name = n := by
  obtain ⟨ic, hic, he⟩ := Option.bind_eq_some_iff.1 h
  obtain ⟨e', cs, hi, c, hc, -, hname⟩ := exists_class_of_getElem? hic
  obtain rfl : e' = e := by simpa [containers_build, hi] using he
  exact ⟨List.mem_of_getElem? he, cs, (load_of_mem_loaded (List.mem_of_getElem? hi)).2, c, hc,
    hname⟩

/-- A class that is indexed comes from the first container that holds one of its name. -/
theorem container_le {ic : IndexedClass} {i : Nat} {cs : List ClassFile} {c : ClassFile}
    (hic : (build tree entries).classes[n]? = some ic)
    (hi : (loaded tree entries)[i]? = some (e, cs)) (hc : c ∈ cs)
    (hname : ClassName.toBinary c.name = n) : ic.container ≤ i := by
  rw [classes_build] at hic
  obtain ⟨before, ⟨cs', j⟩, after, hsplit, hdef, hnone⟩ := List.findSome?_eq_some_iff.1 hic
  obtain ⟨c', -, rfl⟩ := Option.map_eq_some_iff.1 hdef
  have hzip (l : Nat) : (before ++ (cs', j) :: after)[l]? =
      ((loaded tree entries)[l]?).map fun p => (p.2, l) := by
    simp [← hsplit, List.getElem?_zipIdx, Function.comp_def]
  have hj : j = before.length := by
    have h := hzip before.length
    simp only [List.getElem?_append_right, Nat.le_refl, Nat.sub_self,
      List.getElem?_cons_zero] at h
    obtain ⟨p, -, hp⟩ := Option.map_eq_some_iff.1 h.symm
    exact (Prod.mk.inj hp).2.symm
  refine Nat.le_of_not_lt fun hlt => ?_
  have hmem : (cs, i) ∈ before := by
    have h := hzip i
    rw [hi, List.getElem?_append_left (by simpa [hj] using hlt)] at h
    exact List.mem_of_getElem? h
  have hfind := hnone _ hmem
  simp only [definition?, Option.map_eq_none_iff, List.find?_eq_none, beq_iff_eq] at hfind
  exact hfind c hc hname

/-- An index lists for a container the classes that come from there. -/
theorem mem_classesIn_iff (he : e ∈ (build tree entries).containers) :
    n ∈ (build tree entries).classesIn e ↔ (build tree entries).containerOf? n = some e := by
  obtain ⟨i, hi⟩ : ∃ i, (build tree entries).containers.findIdx? (·.same e) = some i := by
    rw [← Option.isSome_iff_exists, List.findIdx?_isSome, List.any_eq_true]
    exact ⟨e, he, ClasspathEntry.same_iff.2 ⟨rfl, rfl⟩⟩
  obtain ⟨hlt, hsame, hfirst⟩ := List.findIdx?_eq_some_iff_getElem.1 hi
  have hat : (build tree entries).containers[i]? = some e := by
    rw [List.getElem?_eq_getElem hlt, eq_of_same (List.getElem_mem hlt) he hsame]
  have hmem : n ∈ (build tree entries).classesIn e ↔
      ∃ ic, (build tree entries).classes[n]? = some ic ∧ ic.container = i := by
    simp [classesIn, hi, Std.ExtTreeMap.mem_toList_iff_getElem?_eq_some]
  rw [hmem, containerOf?, Option.bind_eq_some_iff]
  refine exists_congr fun ic => and_congr_right fun hic => ⟨fun h => h ▸ hat, fun hcontainer => ?_⟩
  -- The same container may be listed twice, and then the classes come from where it is first.
  have hge : i ≤ ic.container := Nat.le_of_not_lt fun hlt' => by
    have hnot := hfirst ic.container hlt'
    obtain ⟨_, hget⟩ := List.getElem?_eq_some_iff.1 hcontainer
    exact hnot (by rw [hget]; exact ClasspathEntry.same_iff.2 ⟨rfl, rfl⟩)
  obtain ⟨e1, cs1, h1, c, hc, -, hname⟩ := exists_class_of_getElem? hic
  obtain ⟨⟨e2, cs2⟩, h2, rfl⟩ : ∃ p, (loaded tree entries)[i]? = some p ∧ p.1 = e := by
    simpa [containers_build] using hat
  obtain rfl : e1 = e2 := by simpa [containers_build, h1] using hcontainer
  have hcs : cs1 = cs2 := by
    have hread1 := (load_of_mem_loaded (List.mem_of_getElem? h1)).2
    have hread2 := (load_of_mem_loaded (List.mem_of_getElem? h2)).2
    exact Except.ok.inj (hread1.symm.trans hread2)
  exact Nat.le_antisymm (container_le hic h2 (hcs ▸ hc) hname) hge

end ClasspathIndex

end JvmThrows
