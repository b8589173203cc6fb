import JvmThrows.FileTree.Change
import JvmThrows.Proofs.Containers

/-!
# Ways through a file tree

`descend` is the part of a look-up that all names but the last go through: it passes directories and
links and never rests on a file. Every look-up is a descent and one more step (`walk_append`,
`entry_eq`, `find_eq`), so a change of the tree that keeps directories and links keeps all places
(`Keeps.spot`).
-/

namespace JvmThrows.FileTree

variable {tree tree' : FileTree} {path : Path} {here location : Location} {links : Nat}
  {names init : List String} {last : String}

/-- The directory that names lead to, and how many links may still be passed after it. -/
def descend (tree : FileTree) (links : Nat) (here : Location) (names : List String) :
    Except FileError (Location × Nat) :=
  match names with
  | [] => .ok (here, links)
  | name :: rest =>
    if name = "." then tree.descend links here rest
    else if name = ".." then tree.descend links here.dropLast rest
    else if maxName < name.utf8ByteSize then .error .nameTooLong
    else
      match tree.nodes[here ++ [name]]? with
      | none => .error .notFound
      | some .directory => tree.descend links (here ++ [name]) rest
      | some (.file _) => .error .notDirectory
      | some (.link target) =>
        match links with
        | 0 => .error .linkLoop
        | links + 1 =>
          tree.descend links (if target.isAbsolute then [] else here) (namesOf target ++ rest)
termination_by (links, names.length)

/-- A look-up of several names is a descent to the directory of the last ones. -/
theorem walk_append (tree : FileTree) (follow slash : Bool) (links : Nat) (here : Location)
    (names : List String) {rest : List String} (hrest : rest ≠ []) :
    tree.walk follow slash links here (names ++ rest) =
      (tree.descend links here names >>= fun (there, left) =>
        tree.walk follow slash left there rest) := by
  -- As long as names of the first list are left, both walks take the same case.
  fun_induction descend tree links here names with
  | case1 => rfl
  | case2 links here rest' ih => rw [List.cons_append, walk, if_pos rfl, ih]
  | case3 links here rest' h ih => rw [List.cons_append, walk, if_neg h, if_pos rfl, ih]
  | case4 links here name rest' h1 h2 h3 =>
    rw [List.cons_append, walk, if_neg h1, if_neg h2, if_pos h3]
    rfl
  | case5 links here name rest' h1 h2 h3 hnode =>
    rw [List.cons_append, walk, if_neg h1, if_neg h2, if_neg h3]
    simp [hnode, hrest, bind, Except.bind]
  | case6 links here name rest' h1 h2 h3 hnode ih =>
    rw [List.cons_append, walk, if_neg h1, if_neg h2, if_neg h3]
    simp only [hnode, ih]
  | case7 links here name rest' h1 h2 h3 content hnode =>
    rw [List.cons_append, walk, if_neg h1, if_neg h2, if_neg h3]
    simp [hnode, hrest, bind, Except.bind]
  | case8 here name rest' h1 h2 h3 target hnode =>
    rw [List.cons_append, walk, if_neg h1, if_neg h2, if_neg h3]
    simp [hnode, hrest, bind, Except.bind]
  | case9 here name rest' h1 h2 h3 target hnode links ih =>
    -- With more names to come a link is followed whatever `follow` says.
    simp only [dite_eq_ite] at ih
    have hmore : (rest' ++ rest).isEmpty = false := by simp [hrest]
    rw [List.cons_append, walk, if_neg h1, if_neg h2, if_neg h3]
    simp [hnode, hmore, ← ih]

theorem descend_append (tree : FileTree) (links : Nat) (here : Location)
    (names rest : List String) :
    tree.descend links here (names ++ rest) =
      (tree.descend links here names >>= fun (there, left) => tree.descend left there rest) := by
  fun_induction descend tree links here names with
  | case1 => rfl
  | case2 links here rest' ih => rw [List.cons_append, descend, if_pos rfl, ih]
  | case3 links here rest' h ih => rw [List.cons_append, descend, if_neg h, if_pos rfl, ih]
  | case4 links here name rest' h1 h2 h3 =>
    rw [List.cons_append, descend, if_neg h1, if_neg h2, if_pos h3]
    rfl
  | case6 links here name rest' h1 h2 h3 hnode ih =>
    rw [List.cons_append, descend, if_neg h1, if_neg h2, if_neg h3]
    simp only [hnode, ih]
  | case5 links here name rest' h1 h2 h3 hnode | case7 links here name rest' h1 h2 h3 _ hnode
  | case8 here name rest' h1 h2 h3 _ hnode =>
    rw [List.cons_append, descend, if_neg h1, if_neg h2, if_neg h3]
    simp only [hnode]
    rfl
  | case9 here name rest' h1 h2 h3 target hnode links ih =>
    simp only [dite_eq_ite] at ih
    rw [List.cons_append, descend, if_neg h1, if_neg h2, if_neg h3]
    simp only [hnode, ← ih, List.append_assoc]

/-- Nothing below a directory is a link. -/
def LinkFree (tree : FileTree) (base : Location) : Prop :=
  ∀ name rest target, tree.nodes[base ++ name :: rest]? ≠ some (.link target)

theorem LinkFree.ne_link {base : Location} (h : tree.LinkFree base) (hnames : names ≠ [])
    (target : Path) : tree.nodes[base ++ names]? ≠ some (.link target) := by
  obtain ⟨name, rest, rfl⟩ := List.exists_cons_of_ne_nil hnames
  exact h name rest target

theorem LinkFree.append {base : Location} (h : tree.LinkFree base) (name : String) :
    tree.LinkFree (base ++ [name]) := by
  intro name' rest target
  rw [List.append_assoc]
  exact h name (name' :: rest) target

/-- Without links the names on the way down are the names of the path. -/
theorem LinkFree.descend_eq {base : Location} {there : Location × Nat} (h : tree.LinkFree base)
    (hnames : ∀ name ∈ names, isName name = true)
    (hd : tree.descend links base names = .ok there) : there = (base ++ names, links) := by
  induction names generalizing base with
  | nil =>
    rw [descend] at hd
    cases hd
    rw [List.append_nil]
  | cons name rest ih =>
    obtain ⟨-, hhere, hup, -⟩ := isName_iff.1 (hnames name List.mem_cons_self)
    rw [descend, if_neg hhere, if_neg hup] at hd
    split at hd
    · -- All ways to stop are errors but the one into a directory.
      cases hd
    · split at hd
      · cases hd
      · rw [ih (h.append name) (fun n hn => hnames n (List.mem_cons_of_mem _ hn)) hd,
          List.append_assoc]
        rfl
      · cases hd
      · rename_i target hnode
        exact absurd hnode (h name [] target)

/-- The directory at a place. -/
def asDirectory : Except FileError Place → Except FileError Location
  | .error e => .error e
  | .ok ⟨location, some .directory, _⟩ => .ok location
  | .ok ⟨_, none, _⟩ => .error .notFound
  | .ok _ => .error .notDirectory

theorem asDirectory_walk (tree : FileTree) (slash : Bool) (links : Nat) (here : Location)
    (names : List String) :
    asDirectory (tree.walk true slash links here names) =
      (tree.descend links here names).map Prod.fst := by
  fun_induction descend tree links here names generalizing slash with
  | case1 =>
    rw [walk]
    rfl
  | case2 links here rest ih => rw [walk, if_pos rfl, ih]
  | case3 links here rest h ih => rw [walk, if_neg h, if_pos rfl, ih]
  | case4 links here name rest h1 h2 h3 =>
    rw [walk, if_neg h1, if_neg h2, if_pos h3]
    rfl
  | case5 links here name rest h1 h2 h3 hnode | case7 links here name rest h1 h2 h3 _ hnode =>
    rw [walk, if_neg h1, if_neg h2, if_neg h3]
    simp only [hnode]
    cases rest <;> rfl
  | case6 links here name rest h1 h2 h3 hnode ih =>
    rw [walk, if_neg h1, if_neg h2, if_neg h3]
    simp only [hnode, ih]
  | case8 here name rest h1 h2 h3 target hnode =>
    rw [walk, if_neg h1, if_neg h2, if_neg h3]
    simp only [hnode, Bool.not_true, Bool.and_false, Bool.false_and]
    rfl
  | case9 here name rest h1 h2 h3 target hnode links ih =>
    -- The names of the link come before the rest, and the last of them may be a link again.
    simp only [dite_eq_ite] at ih
    rw [walk, if_neg h1, if_neg h2, if_neg h3]
    simp only [hnode, Bool.not_true, Bool.and_false, Bool.false_and]
    exact ih _

theorem directoryAt_eq (tree : FileTree) (start : Location) (names : List String) :
    tree.directoryAt start names = (tree.descend maxLinks start names).map Prod.fst :=
  asDirectory_walk tree true maxLinks start names

theorem exists_descend_of_directoryAt {start base : Location}
    (h : tree.directoryAt start names = .ok base) :
    ∃ links, tree.descend maxLinks start names = .ok (base, links) := by
  rw [directoryAt_eq] at h
  cases hd : tree.descend maxLinks start names with
  | error e =>
    rw [hd] at h
    cases h
  | ok there =>
    rw [hd] at h
    cases h
    exact ⟨there.2, rfl⟩

/-! ### The place of the last name -/

/-- Where the last name of a path stands, if the names before it lead to a directory. -/
def spot (tree : FileTree) (path : Path) : Except FileError Location :=
  match pathFault? path with
  | some e => .error e
  | none =>
    match tree.descend maxLinks (tree.startOf path) (namesOf path).dropLast with
    | .error e => .error e
    | .ok (here, _) =>
      let last := (namesOf path).getLast?.getD ""
      if maxName < last.utf8ByteSize then .error .nameTooLong else .ok (here ++ [last])

/-- A path ends in the name of what it stands for. -/
structure Names (path : Path) (init : List String) (last : String) : Prop where
  namesOf_eq : namesOf path = init ++ [last]
  isName_last : isName last = true
  endsInSlash_eq : endsInSlash path = false

namespace Names

theorem spot_eq (h : Names path init last) (tree : FileTree) :
    tree.spot path =
      match pathFault? path with
      | some e => .error e
      | none =>
        match tree.descend maxLinks (tree.startOf path) init with
        | .error e => .error e
        | .ok (here, _) =>
          if maxName < last.utf8ByteSize then .error .nameTooLong else .ok (here ++ [last]) := by
  simp [spot, h.namesOf_eq]

theorem entry_eq (h : Names path init last) (tree : FileTree) :
    tree.entry path =
      (tree.spot path).map fun location => some ⟨location, tree.nodes[location]?, false⟩ := by
  obtain ⟨-, hhere, hup, -⟩ := isName_iff.1 h.isName_last
  rw [entry, h.spot_eq]
  cases pathFault? path with
  | some e => rfl
  | none =>
    simp only [h.namesOf_eq, h.endsInSlash_eq, directoryAt_eq, List.dropLast_concat,
      List.getLast?_concat]
    cases tree.descend maxLinks (tree.startOf path) init with
    | error e => rfl
    -- A long name is an error even where nothing has it.
    | ok there =>
      by_cases hlong : maxName < last.utf8ByteSize <;> simp [Except.map, hhere, hup, hlong]

/-- The last name leads to what stands there, unless that is a link to be followed. -/
theorem locateAny_eq (h : Names path init last) (tree : FileTree) {follow : Bool}
    (hlink : ∀ l target, tree.spot path = .ok l → tree.nodes[l]? = some (.link target) →
      follow = false) :
    tree.locateAny follow path =
      (tree.spot path).map fun location => ⟨location, tree.nodes[location]?, false⟩ := by
  obtain ⟨-, hhere, hup, -⟩ := isName_iff.1 h.isName_last
  rw [h.spot_eq] at hlink ⊢
  rw [locateAny, h.namesOf_eq, h.endsInSlash_eq]
  cases hfault : pathFault? path with
  | some e => rfl
  | none =>
    simp only [hfault] at hlink ⊢
    rw [walk_append _ _ _ _ _ _ (List.cons_ne_nil last [])]
    cases hdescend : tree.descend maxLinks (tree.startOf path) init with
    | error e => rfl
    | ok there =>
      obtain ⟨there, left⟩ := there
      simp only [hdescend] at hlink ⊢
      show tree.walk follow false left there [last] = _
      rw [walk, if_neg hhere, if_neg hup]
      by_cases hlong : maxName < last.utf8ByteSize
      · rw [if_pos hlong, if_pos hlong]
        rfl
      · rw [if_neg hlong, if_neg hlong]
        cases hnode : tree.nodes[there ++ [last]]? with
        | none => simp [Except.map, hnode]
        | some node =>
          cases node with
          | file content => simp [Except.map, hnode]
          | directory => simp [Except.map, hnode, walk]
          -- A link at the end stays a link only if it is not to be followed.
          | link target => simp [Except.map, hnode, hlink _ target (if_neg hlong) hnode]

theorem locateAny_of_spot (h : Names path init last) {follow : Bool}
    (hspot : tree.spot path = .ok location)
    (hlink : ∀ target, tree.nodes[location]? ≠ some (.link target)) :
    tree.locateAny follow path = .ok ⟨location, tree.nodes[location]?, false⟩ := by
  rw [h.locateAny_eq tree ?_, hspot, Except.map]
  intro l target hl hnode
  cases hspot.symm.trans hl
  exact absurd hnode (hlink target)

theorem locate_eq (h : Names path init last) (tree : FileTree) :
    tree.locate false path =
      (tree.spot path).map fun location => ⟨location, tree.nodes[location]?, false⟩ := by
  rw [locate, h.locateAny_eq tree fun _ _ _ _ => rfl]
  cases tree.spot path with
  | error e => rfl
  | ok location =>
    cases hnode : tree.nodes[location]? with
    | none => simp [Except.map, hnode]
    | some node => cases node <;> simp [Except.map, hnode]

theorem find_eq (h : Names path init last) (tree : FileTree) :
    tree.find false path =
      (tree.spot path >>= fun location =>
        match tree.nodes[location]? with
        | some node => .ok node
        | none => .error .notFound) := by
  rw [find, h.locate_eq tree]
  cases tree.spot path with
  | error e => rfl
  | ok location => rfl

end Names

/-- Below a directory without links a path can only stand for the place that its names say. -/
theorem LinkFree.spot_eq {base : Location} {front : List String} (h : tree.LinkFree base)
    (hpath : Names path (front ++ init) last)
    (hfront : tree.descend maxLinks (tree.startOf path) front = .ok (base, links))
    (hinit : ∀ name ∈ init, isName name = true) (hspot : tree.spot path = .ok location) :
    location = base ++ (init ++ [last]) := by
  rw [hpath.spot_eq] at hspot
  split at hspot
  · cases hspot
  · rw [descend_append, hfront] at hspot
    change (match tree.descend links base init with
      | .error e => _
      | .ok (here, _) => _) = _ at hspot
    cases hd : tree.descend links base init with
    | error e => simp [hd] at hspot
    | ok there =>
      obtain rfl := h.descend_eq hinit hd
      simp only [hd] at hspot
      split at hspot
      · cases hspot
      · cases hspot
        rw [List.append_assoc]

/-- Nothing is below an empty directory. -/
theorem getElem?_eq_none_of_below {base : Location} (h : tree.below base = []) (name : String)
    (rest : List String) : tree.nodes[base ++ name :: rest]? = none := by
  cases hnode : tree.nodes[base ++ name :: rest]? with
  | none => rfl
  | some node =>
    have hmem := Std.ExtTreeMap.mem_toList_iff_getElem?_eq_some.2 hnode
    have hcut (l : Location) : l.isPrefixOf? (l ++ name :: rest) = some (name :: rest) := by
      -- What is in front of the names is cut off.
      induction l with
      | nil => rfl
      | cons x l ih =>
        show (if x == x then l.isPrefixOf? (l ++ name :: rest) else none) = _
        rw [if_pos (beq_self_eq_true x), ih]
    have hout := List.filterMap_eq_nil_iff.1 h _ hmem
    simp [hcut] at hout

/-! ### Trees with the same directories and links -/

/-- Directories and links stay as they are. -/
structure Keeps (tree tree' : FileTree) : Prop where
  working_eq : tree'.working = tree.working
  getElem?_eq : ∀ {location : Location} {node : Node}, (∀ content, node ≠ .file content) →
    tree.nodes[location]? = some node → tree'.nodes[location]? = some node

namespace Keeps

theorem refl (tree : FileTree) : Keeps tree tree := ⟨rfl, fun _ h => h⟩

theorem startOf_eq (h : Keeps tree tree') (path : Path) :
    tree'.startOf path = tree.startOf path := by
  rw [startOf, startOf, h.working_eq]

theorem descend (h : Keeps tree tree') {there : Location × Nat}
    (hd : tree.descend links here names = .ok there) :
    tree'.descend links here names = .ok there := by
  fun_induction FileTree.descend tree links here names with
  | case1 =>
    rw [FileTree.descend]
    exact hd
  | case2 links here rest ih => rw [FileTree.descend, if_pos rfl, ih hd]
  | case3 links here rest h1 ih => rw [FileTree.descend, if_neg h1, if_pos rfl, ih hd]
  -- A walk that failed may lead somewhere now.
  | case4 | case5 | case7 | case8 => cases hd
  | case6 links here name rest h1 h2 h3 hnode ih =>
    rw [FileTree.descend, if_neg h1, if_neg h2, if_neg h3]
    simp only [h.getElem?_eq (by simp) hnode, ih hd]
  | case9 here name rest h1 h2 h3 target hnode links ih =>
    simp only [dite_eq_ite] at ih hd
    rw [FileTree.descend, if_neg h1, if_neg h2, if_neg h3]
    simp only [h.getElem?_eq (by simp) hnode, ih hd]

theorem spot (h : Keeps tree tree') (hs : tree.spot path = .ok location) :
    tree'.spot path = .ok location := by
  unfold FileTree.spot at hs ⊢
  cases hfault : pathFault? path with
  | some e => simp [hfault] at hs
  | none =>
    simp only [hfault] at hs ⊢
    cases hd : tree.descend maxLinks (tree.startOf path) (namesOf path).dropLast with
    | error e => simp [hd] at hs
    | ok there =>
      rw [h.startOf_eq, h.descend hd]
      rwa [hd] at hs

theorem entry (h : Keeps tree tree') {place : Place} (he : tree.entry path = .ok (some place)) :
    tree'.entry path = .ok (some ⟨place.location, tree'.nodes[place.location]?, place.slash⟩) := by
  unfold FileTree.entry at he ⊢
  cases hfault : pathFault? path with
  | some e => simp [hfault] at he
  | none =>
    simp only [hfault, directoryAt_eq] at he ⊢
    cases hd : tree.descend maxLinks (tree.startOf path) (namesOf path).dropLast with
    | error e => simp [hd, Except.map] at he
    | ok there =>
      rw [hd] at he
      rw [h.startOf_eq, h.descend hd]
      cases hlast : (namesOf path).getLast? with
      | none => simp [hlast, Except.map] at he
      | some last =>
        simp only [hlast, Except.map] at he ⊢
        split at he
        · cases he
        · rename_i hdot
          rw [if_neg hdot]
          split at he
          · -- Too long a name, in both trees.
            cases he
          · rename_i hlong
            cases he
            rw [if_neg hlong]

end Keeps

/-- A file may come and go where no directory and no link is. -/
theorem keeps_insert_file {content : Content}
    (h : ∀ node, tree.nodes[location]? = some node → ∃ old, node = .file old) :
    Keeps tree { tree with nodes := tree.nodes.insert location (.file content) } := by
  refine ⟨rfl, fun {l node} hfile hnode => ?_⟩
  by_cases hl : location = l
  · subst hl
    -- The node is a file, and files need not stay.
    obtain ⟨old, rfl⟩ := h node hnode
    exact absurd rfl (hfile old)
  · simp [Std.ExtTreeMap.getElem?_insert, hl, hnode]

theorem keeps_of_insert_file {content : Content} :
    Keeps { tree with nodes := tree.nodes.insert location (.file content) } tree := by
  refine ⟨rfl, fun {l node} hfile hnode => ?_⟩
  by_cases hl : location = l
  · subst hl
    rw [Std.ExtTreeMap.getElem?_insert_self] at hnode
    cases hnode
    -- What was inserted is a file, and files need not stay.
    exact absurd rfl (hfile content)
  · simpa [Std.ExtTreeMap.getElem?_insert, hl] using hnode

theorem getElem?_of_erase {erased : Location} {node : Node}
    (h : (tree.nodes.erase erased)[location]? = some node) :
    tree.nodes[location]? = some node := by
  rw [Std.ExtTreeMap.getElem?_erase] at h
  split at h
  · cases h
  · exact h

theorem keeps_erase_file
    (h : ∀ node, tree.nodes[location]? = some node → ∃ old, node = .file old) :
    Keeps tree { tree with nodes := tree.nodes.erase location } := by
  refine ⟨rfl, fun {l node} hfile hnode => ?_⟩
  by_cases hl : location = l
  · subst hl
    obtain ⟨old, rfl⟩ := h node hnode
    exact absurd rfl (hfile old)
  · simp [Std.ExtTreeMap.getElem?_erase, hl, hnode]

theorem node_of_entry {place : Place} (h : tree.entry path = .ok (some place)) :
    place.node = tree.nodes[place.location]? := by
  have hagain := (Keeps.refl tree).entry h
  rw [h] at hagain
  injection hagain with hagain
  injection hagain with hagain
  exact congrArg Place.node hagain

end JvmThrows.FileTree
