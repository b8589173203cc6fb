import JvmThrows.Proofs.DocumentPaths
import JvmThrows.Proofs.FileChanges

/-!
# Making the directories of a path

Below a directory without links the directories of a path are made one below the other, each in its
own place (`makesBelow_makeDirectoriesWithin`), and all of them if no file is in the way and the
names are short enough.
-/

namespace JvmThrows

open Text

/-! ### The path above a joined path -/

namespace Path

open FileTree

variable {p q : Path} {s d : String}

theorem fileName?_join (h : isName s = true) : (p.join s).fileName? = some s := by
  simp [fileName?, components_join h]

theorem not_isIdle_of_isName (h : isName s = true) : isIdle s.toList = false := by
  obtain ⟨hne, hhere, -, -⟩ := isName_iff.1 h
  have hlist : s.toList ≠ ['.'] := fun heq => hhere (String.toList_inj.1 heq)
  simp [isIdle, hne, hlist]

theorem dropIdle_concat {front : List (List Char)} {piece : List Char} (h : isIdle piece = false) :
    dropIdle (front ++ [piece]) = front ++ [piece] := by
  cases front with
  | nil => rfl
  | cons first rest => simp [dropIdle, h]

theorem utf8ByteSize_lt_of_isPrefix {s t : String} (h : s.toList <+: t.toList) (hne : s ≠ t) :
    s.utf8ByteSize < t.utf8ByteSize := by
  obtain ⟨rest, hrest⟩ := h
  have heq : t = s ++ String.ofList rest := by
    rw [← String.toList_inj, ← hrest, String.toList_append, String.toList_ofList]
  have hpos : (String.ofList rest).utf8ByteSize ≠ 0 := fun hzero => hne (by
    rw [String.utf8ByteSize_eq_zero_iff] at hzero
    rw [heq, hzero, String.append_empty])
  rw [heq, String.utf8ByteSize_append]
  omega

theorem utf8ByteSize_le_of_isPrefix {s t : String} (h : s.toList <+: t.toList) :
    s.utf8ByteSize ≤ t.utf8ByteSize := by
  by_cases heq : s = t
  · exact Nat.le_of_eq (congrArg String.utf8ByteSize heq)
  · exact Nat.le_of_lt (utf8ByteSize_lt_of_isPrefix h heq)

/-- What comes between a path and a name that is joined to it. -/
theorem exists_separator (p : Path) : ∃ sep, (sep = "" ∨ sep = "/") ∧
    ∀ {s : String}, isName s = true → (p.join s).text = p.text ++ sep ++ s := by
  cases hlast : p.text.toList.getLast? with
  | none =>
    have hempty : p.text = "" := by simpa using List.getLast?_eq_none_iff.1 hlast
    exact ⟨"", .inl rfl, fun h => by simp [join, not_isAbsolute_of_isName h, hempty]⟩
  | some c =>
    by_cases hc : c = '/'
    · -- The text brings its separator along.
      subst hc
      exact ⟨"", .inl rfl, fun h => by simp [join, not_isAbsolute_of_isName h, hlast]⟩
    · exact ⟨"/", .inr rfl, fun h => by simp [join, not_isAbsolute_of_isName h, hlast]⟩

theorem prefix_join (h : isName s = true) : p.text.toList <+: (p.join s).text.toList := by
  obtain ⟨sep, -, hjoin⟩ := exists_separator p
  rw [hjoin h, String.toList_append, String.toList_append, List.append_assoc]
  exact List.prefix_append _ _

theorem ne_nil_of_join (h : isName s = true) : (p.join s).text.toList ≠ [] := by
  obtain ⟨hne, -, -, -⟩ := isName_iff.1 h
  obtain ⟨sep, -, hjoin⟩ := exists_separator p
  simp [hjoin h, hne]

theorem isAbsolute_of_isPrefix (h : q.text.toList <+: p.text.toList)
    (hempty : q.text = "" → p.text = "") : q.isAbsolute = p.isAbsolute := by
  obtain ⟨rest, hrest⟩ := h
  unfold isAbsolute
  cases htext : q.text.toList with
  | nil => simp [hempty (by simpa using htext)]
  | cons first more => simp [← hrest, htext]

theorem exists_pieces_join (h : isName s = true) :
    ∃ front, pieces '/' (p.join s).text.toList = front ++ [s.toList] := by
  by_cases hp : p.text.toList = []
  · obtain ⟨-, -, -, hslash⟩ := isName_iff.1 h
    have hjoin : p.join s = ⟨s⟩ := by simp [join, not_isAbsolute_of_isName h, hp]
    exact ⟨[], by rw [hjoin, pieces_of_not_mem hslash, List.nil_append]⟩
  · obtain ⟨front, -, -, -, -, hjoined⟩ := pieces_join h hp
    exact ⟨front, hjoined⟩

/-- At the end only pieces that are no components are dropped, and the first piece is kept. -/
theorem exists_dropIdle_append {front : List (List Char)} (h : front ≠ []) :
    ∃ idle, front = dropIdle front ++ idle ∧ (∀ piece ∈ idle, isIdle piece = true) ∧
      dropIdle front ≠ [] := by
  obtain ⟨first, rest, rfl⟩ := List.exists_cons_of_ne_nil h
  refine ⟨(rest.reverse.takeWhile isIdle).reverse, ?_, fun piece hpiece => ?_, by simp [dropIdle]⟩
  · -- Idle pieces are dropped from the end, so that they are the first ones in reverse.
    have hrest : rest.reverse.takeWhile isIdle ++ rest.reverse.dropWhile isIdle = rest.reverse :=
      List.takeWhile_append_dropWhile
    rw [dropIdle, List.cons_append, ← List.reverse_append, hrest, List.reverse_reverse]
  · exact List.all_eq_true.1 List.all_takeWhile piece (List.mem_reverse.1 hpiece)

theorem intercalate_prefix_append (sep : Char) (ps qs : List (List Char)) :
    [sep].intercalate ps <+: [sep].intercalate (ps ++ qs) := by
  induction ps with
  | nil => simp
  | cons p ps ih =>
    cases ps with
    | nil =>
      cases qs with
      | nil => simp
      | cons q qs => simp [List.intercalate_cons_cons]
    | cons p' ps =>
      rw [List.cons_append, List.cons_append, List.intercalate_cons_cons,
        List.intercalate_cons_cons]
      exact List.prefix_append_right_inj _ |>.2 ih

theorem parent?_of_pieces {front : List (List Char)} (h : isName s = true)
    (hpieces : pieces '/' (p.join s).text.toList = front ++ [s.toList]) :
    dropIdle front = [[]] ∧ (p.join s).parent? = some ⟨"/"⟩ ∨
      dropIdle front ≠ [[]] ∧
        (p.join s).parent? = some ⟨"/".intercalate ((dropIdle front).map String.ofList)⟩ := by
  simp only [parent?, components_join h, List.getLast?_concat, hpieces,
    dropIdle_concat (not_isIdle_of_isName h), List.dropLast_concat]
  by_cases hkept : dropIdle front = [[]]
  · exact .inl ⟨hkept, by simp [hkept]⟩
  · refine .inr ⟨hkept, ?_⟩
    split
    · rename_i heq
      exact absurd heq hkept
    · rfl

/-- A path and the same path with a name joined to it agree in all pieces but those that are no
components at the end. -/
theorem exists_pieces_dropIdle (h : isName s = true) (hp : p.text.toList ≠ []) :
    ∃ front idle, pieces '/' (p.join s).text.toList = front ++ [s.toList] ∧
      pieces '/' p.text.toList = dropIdle front ++ idle ∧ (∀ piece ∈ idle, isIdle piece = true) ∧
      dropIdle front ≠ [] := by
  obtain ⟨front, back, hfront, hback, hall, hjoined⟩ := pieces_join h hp
  obtain ⟨idle, hsplit, hidle, hkept⟩ := exists_dropIdle_append hfront
  refine ⟨front, idle ++ back, hjoined, ?_, fun piece hpiece => ?_, hkept⟩
  · rw [hall, ← List.append_assoc, ← hsplit]
  · rcases List.mem_append.1 hpiece with hpiece | hpiece
    · exact hidle piece hpiece
    · -- There is an empty piece at the end of a path with a slash at the end.
      rcases hback with rfl | rfl
      · cases hpiece
      · rw [List.mem_singleton.1 hpiece]
        rfl

/-- Pieces that are no components name the directory that they are in, if anything. -/
theorem exists_namesOf_eq {kept idle : List (List Char)}
    (hpieces : pieces '/' p.text.toList = kept ++ idle)
    (hidle : ∀ piece ∈ idle, isIdle piece = true) :
    ∃ n, namesOf p =
      (kept.filter (!·.isEmpty)).map String.ofList ++ List.replicate n "." := by
  have hdots : (idle.filter (!·.isEmpty)).map String.ofList =
      List.replicate (idle.filter (!·.isEmpty)).length "." := by
    refine List.eq_replicate_iff.2 ⟨by simp, fun name hname => ?_⟩
    obtain ⟨piece, hpiece, rfl⟩ := List.mem_map.1 hname
    obtain ⟨hmem, hne⟩ := List.mem_filter.1 hpiece
    have hne' : piece ≠ [] := by simpa using hne
    have hone : piece = ['.'] := by simpa [isIdle, hne'] using hidle piece hmem
    rw [hone]
  exact ⟨_, by rw [namesOf, hpieces, List.filter_append, List.map_append, hdots]⟩

theorem toList_intercalate_ofList (ps : List (List Char)) :
    ("/".intercalate (ps.map String.ofList)).toList = ['/'].intercalate ps := by
  simp [Function.comp_def]

/-- Only the slash of an absolute path is left of it. -/
theorem slash_prefix_of_pieces {idle : List (List Char)} (hp : p.text.toList ≠ [])
    (hpieces : pieces '/' p.text.toList = [[]] ++ idle) : ['/'] <+: p.text.toList := by
  have htext : p.text.toList = ['/'].intercalate ([[]] ++ idle) := by
    rw [← hpieces, intercalate_pieces]
  obtain ⟨piece, rest, rfl⟩ := List.exists_cons_of_ne_nil (l := idle) fun hnil =>
    hp (by simpa [hnil] using htext)
  rw [htext]
  simp [List.intercalate_cons_cons]

/-- The first pieces of a path make up a path in front of it. -/
theorem above_of_pieces {kept rest : List (List Char)}
    (hpieces : pieces '/' p.text.toList = kept ++ rest) (hkept : kept ≠ [])
    (hother : kept ≠ [[]]) :
    let q : Path := ⟨"/".intercalate (kept.map String.ofList)⟩
    q.text.toList <+: p.text.toList ∧ q.text ≠ "" ∧
      namesOf q = (kept.filter (!·.isEmpty)).map String.ofList := by
  intro q
  have hq : q.text.toList = ['/'].intercalate kept := toList_intercalate_ofList kept
  have hcut : pieces '/' q.text.toList = kept := by
    rw [hq]
    exact pieces_intercalate hkept fun piece hpiece =>
      not_mem_of_mem_pieces (hpieces ▸ List.mem_append_left _ hpiece)
  refine ⟨?_, fun hempty => ?_, by rw [namesOf, hcut]⟩
  · rw [hq, ← intercalate_pieces '/' p.text.toList, hpieces]
    exact intercalate_prefix_append _ _ _
  · rw [hempty] at hcut
    exact hother hcut.symm

/-- Above a single name there is the empty path. -/
theorem parent?_join_of_empty (h : isName s = true) (hp : p.text = "") :
    (p.join s).parent? = some ⟨""⟩ := by
  obtain ⟨-, -, -, hslash⟩ := isName_iff.1 h
  have hjoin : p.join s = ⟨s⟩ := by simp [join, not_isAbsolute_of_isName h, hp]
  have hpieces : pieces '/' (p.join s).text.toList = [] ++ [s.toList] := by
    rw [hjoin, pieces_of_not_mem hslash, List.nil_append]
  rcases parent?_of_pieces h hpieces with ⟨hkept, -⟩ | ⟨-, hparent⟩
  · cases hkept
  · exact hparent

/-- The path above a joined name is the path in front of it, but for what is no component at the
end of that. -/
theorem exists_parent?_join (h : isName s = true) :
    ∃ q : Path, (p.join s).parent? = some q ∧ q.text.toList <+: p.text.toList ∧
      (q.text = "" → p.text = "") ∧ ∃ n, namesOf p = namesOf q ++ List.replicate n "." := by
  by_cases hp : p.text = ""
  · exact ⟨_, parent?_join_of_empty h hp, by simp, fun _ => hp, 0, by simp [namesOf, hp]⟩
  · have hlist : p.text.toList ≠ [] := by simpa using hp
    obtain ⟨front, idle, hjoined, hpieces, hidle, hkept⟩ := exists_pieces_dropIdle h hlist
    obtain ⟨n, hnames⟩ := exists_namesOf_eq hpieces hidle
    rcases parent?_of_pieces h hjoined with ⟨hroot, hparent⟩ | ⟨hother, hparent⟩
    · rw [hroot] at hpieces hnames
      exact ⟨_, hparent, slash_prefix_of_pieces hlist hpieces, by simp, n, hnames⟩
    · obtain ⟨habove, hne, hsame⟩ := above_of_pieces hpieces hkept hother
      exact ⟨_, hparent, habove, fun hempty => absurd hempty hne, n, by rw [hnames, hsame]⟩

/-- Above a name that is joined to a name there is just that. -/
theorem parent?_join_join (hd : isName d = true) (hs : isName s = true) :
    ((p.join d).join s).parent? = some (p.join d) := by
  obtain ⟨hne, -, -, -⟩ := isName_iff.1 hd
  obtain ⟨front', hlast⟩ := exists_pieces_join (p := p) hd
  have hpieces : pieces '/' ((p.join d).join s).text.toList =
      pieces '/' (p.join d).text.toList ++ [s.toList] := by
    obtain ⟨front, back, -, hback, hall, hjoined⟩ :=
      pieces_join (p := p.join d) hs (ne_nil_of_join hd)
    -- A name is not empty, so that no slash stands at the end.
    rcases hback with rfl | rfl
    · rw [hjoined, hall, List.append_nil]
    · obtain ⟨-, hempty⟩ := List.append_inj' (hall.symm.trans hlast) rfl
      exact absurd (List.singleton_inj.1 hempty).symm (by simpa using hne)
  have hdrop : dropIdle (pieces '/' (p.join d).text.toList) =
      pieces '/' (p.join d).text.toList := by
    rw [hlast, dropIdle_concat (not_isIdle_of_isName hd)]
  rcases parent?_of_pieces hs hpieces with ⟨hroot, -⟩ | ⟨-, hparent⟩
  · rw [hdrop, hlast] at hroot
    obtain ⟨-, hempty⟩ := List.append_inj' (hroot.trans (List.nil_append [[]]).symm) rfl
    exact absurd (List.singleton_inj.1 hempty) (by simpa using hne)
  · rw [hparent, hdrop]
    have htext : ("/".intercalate ((pieces '/' (p.join d).text.toList).map String.ofList)) =
        (p.join d).text := by
      rw [← String.toList_inj, toList_intercalate_ofList, intercalate_pieces]
    rw [htext]

end Path

namespace FileTree

variable {tree tree' : FileTree} {p root : Path} {base location : Location} {links : Nat}
  {init ds : List String} {d : String} {e : FileError}

/-! ### One directory -/

section

variable (hpath : Names p init d)
include hpath

theorem makeDirectory_of_none (hspot : tree.spot p = .ok location)
    (hnone : tree.nodes[location]? = none) :
    makeDirectory p tree =
      (.ok (), { tree with nodes := tree.nodes.insert location .directory }) := by
  have hentry : entryOr .alreadyExists p tree = (.ok ⟨location, none, false⟩, tree) := by
    rw [entryOr_eq, hpath.entry_eq, hspot, Except.map, hnone]
  rw [makeDirectory, bind_ok hentry]
  rfl

theorem makeDirectory_of_some {node : Node} (hspot : tree.spot p = .ok location)
    (hnode : tree.nodes[location]? = some node) :
    makeDirectory p tree = (.error .alreadyExists, tree) := by
  have hentry : entryOr .alreadyExists p tree = (.ok ⟨location, some node, false⟩, tree) := by
    rw [entryOr_eq, hpath.entry_eq, hspot, Except.map, hnode]
  rw [makeDirectory, bind_ok hentry]
  rfl

theorem makeDirectory_of_error (hspot : tree.spot p = .error e) :
    makeDirectory p tree = (.error e, tree) := by
  have hentry : entryOr .alreadyExists p tree = (.error e, tree) := by
    rw [entryOr_eq, hpath.entry_eq, hspot, Except.map]
  rw [makeDirectory, bind_error hentry]

theorem isDirectory_of_spot (hspot : tree.spot p = .ok location)
    (hnode : tree.nodes[location]? = some .directory) : tree.isDirectory p = true := by
  have hplace : tree.locateAny true p = .ok ⟨location, some .directory, false⟩ := by
    rw [hpath.locateAny_of_spot hspot (by simp [hnode]), hnode]
  simp [isDirectory, find, locate, hplace]

end

/-- A directory is made where nothing was; otherwise nothing changes, and there has to be one. -/
theorem ensureDirectory_cases (hpath : Names p init d) (tree : FileTree) :
    (∃ location, tree.spot p = .ok location ∧ tree.nodes[location]? = none ∧
      ensureDirectory p tree =
        (.ok (), { tree with nodes := tree.nodes.insert location .directory })) ∨
    ∃ r, ensureDirectory p tree = (r, tree) ∧ ∀ location, tree.spot p = .ok location →
      tree.nodes[location]? ≠ none ∧ (tree.nodes[location]? = some .directory → r = .ok ()) := by
  cases hspot : tree.spot p with
  | error e => exact .inr ⟨_, ensureDirectory_of_error (makeDirectory_of_error hpath hspot), nofun⟩
  | ok location =>
    cases hnode : tree.nodes[location]? with
    | none =>
      -- Nothing is in the place, and a directory is made there.
      exact .inl ⟨location, rfl, hnode, tryCatch_ok (makeDirectory_of_none hpath hspot hnode) _⟩
    | some node =>
      refine .inr ⟨_, ensureDirectory_of_error (makeDirectory_of_some hpath hspot hnode), ?_⟩
      rintro _ ⟨⟩
      refine ⟨by simp [hnode], fun hdir => ?_⟩
      rw [isDirectory_of_spot hpath hspot hdir, if_pos rfl]

/-! ### Directories below a directory without links -/

/-- Directories have come on the way down the given names. -/
structure GainsBelow (base : Location) (ds : List String) (tree tree' : FileTree) : Prop
    extends Gains tree tree' where
  of_gained : ∀ location : Location, tree.nodes[location]? = none →
    tree'.nodes[location]? = some .directory → ∃ front, front ≠ [] ∧ front <+: ds ∧
      location = base ++ front

namespace GainsBelow

theorem refl (base : Location) (ds : List String) (tree : FileTree) :
    GainsBelow base ds tree tree where
  toGains := Gains.refl tree
  of_gained location hnone hdir := by cases hnone.symm.trans hdir

theorem trans {tree'' : FileTree} (h : GainsBelow base ds tree tree')
    (h' : GainsBelow base ds tree' tree'') : GainsBelow base ds tree tree'' where
  toGains := h.toGains.trans h'.toGains
  of_gained location hnone hdir := by
    rcases h.getElem?_cases location with hsame | ⟨-, hmade⟩
    · -- What is new is new in the second step, or stays what the first one made.
      exact h'.of_gained location (hsame.trans hnone) hdir
    · exact h.of_gained location hnone hmade

theorem mono {ds' : List String} (h : GainsBelow base ds tree tree') (hds : ds <+: ds') :
    GainsBelow base ds' tree tree' where
  toGains := h.toGains
  of_gained location hnone hdir := by
    obtain ⟨front, hne, hfront, hlocation⟩ := h.of_gained location hnone hdir
    exact ⟨front, hne, hfront.trans hds, hlocation⟩

end GainsBelow

theorem gainsBelow_insert (hds : ds ≠ []) (hnone : tree.nodes[base ++ ds]? = none) :
    GainsBelow base ds tree
      { tree with nodes := tree.nodes.insert (base ++ ds) .directory } where
  toGains := gains_insert hnone
  of_gained location hfree hdir := by
    rw [Std.ExtTreeMap.getElem?_insert] at hdir
    split at hdir
    · rename_i heq
      exact ⟨ds, hds, List.prefix_rfl, (Std.LawfulEqOrd.eq_of_compare heq).symm⟩
    · cases hfree.symm.trans hdir

/-- Names that directories can be made for: they are short, and no file has one of them. -/
structure IsPassable (base : Location) (ds : List String) (tree : FileTree) : Prop where
  short : ∀ d ∈ ds, d.utf8ByteSize ≤ maxName
  not_file : ∀ front, front ≠ [] → front <+: ds → ∀ content,
    tree.nodes[base ++ front]? ≠ some (.file content)

theorem IsPassable.of_isPrefix {ds' : List String} (h : IsPassable base ds' tree)
    (hds : ds <+: ds') : IsPassable base ds tree :=
  ⟨fun d hd => h.short d (hds.subset hd),
    fun front hne hfront => h.not_file front hne (hfront.trans hds)⟩

theorem IsPassable.gains (h : IsPassable base ds tree) (hgains : Gains tree tree') :
    IsPassable base ds tree' :=
  ⟨h.short, fun front hne hfront content hfile =>
    h.not_file front hne hfront content (hgains.getElem?_file_iff.1 hfile)⟩

theorem LinkFree.gains (h : tree.LinkFree base) (hgains : Gains tree tree') :
    tree'.LinkFree base := by
  intro name rest target hlink
  rcases hgains.getElem?_cases (base ++ name :: rest) with hsame | ⟨-, hdir⟩
  · exact h name rest target (hsame.symm.trans hlink)
  · cases hdir.symm.trans hlink

/-- One more name on the way down. -/
theorem descend_concat_of_directory (hd : tree.descend links base ds = .ok (base ++ ds, links))
    (hname : isName d = true) (hshort : d.utf8ByteSize ≤ maxName)
    (hdir : tree.nodes[base ++ (ds ++ [d])]? = some .directory) :
    tree.descend links base (ds ++ [d]) = .ok (base ++ (ds ++ [d]), links) := by
  obtain ⟨-, hhere, hup, -⟩ := isName_iff.1 hname
  rw [← List.append_assoc] at hdir ⊢
  rw [descend_append, hd]
  show tree.descend links (base ++ ds) [d] = _
  rw [descend, if_neg hhere, if_neg hup, if_neg (Nat.not_lt.2 hshort)]
  simp only [hdir]
  rw [descend]

/-- Where the way is free, all that can be missing is a directory. -/
theorem IsPassable.descend_cases (h : IsPassable base ds tree) (hfree : tree.LinkFree base)
    (hnames : ∀ d ∈ ds, isName d = true) (links : Nat) :
    tree.descend links base ds = .ok (base ++ ds, links) ∨
      tree.descend links base ds = .error .notFound := by
  induction ds generalizing base with
  | nil =>
    rw [descend, List.append_nil]
    exact .inl rfl
  | cons d ds ih =>
    obtain ⟨-, hhere, hup, -⟩ := isName_iff.1 (hnames d List.mem_cons_self)
    have hshort := h.short d List.mem_cons_self
    rw [descend, if_neg hhere, if_neg hup, if_neg (Nat.not_lt.2 hshort)]
    rcases hnode : tree.nodes[base ++ [d]]? with - | (content | - | target)
    · -- The first name without a node ends the way.
      exact .inr rfl
    · exact absurd hnode (h.not_file [d] (by simp) (by simp) content)
    · have hpass : IsPassable (base ++ [d]) ds tree := by
        refine ⟨fun d' hd' => h.short d' (List.mem_cons_of_mem d hd'), fun front hne hfront => ?_⟩
        rw [List.append_assoc]
        exact h.not_file (d :: front) (by simp) (List.cons_prefix_cons.2 ⟨rfl, hfront⟩)
      have hrest := ih hpass (hfree.append d) fun d' hd' => hnames d' (List.mem_cons_of_mem d hd')
      rw [List.append_assoc] at hrest
      exact hrest
    · exact absurd hnode (hfree d [] target)

/-- No file is on a way that has been passed. -/
theorem LinkFree.isPassable {there : Location × Nat} (h : tree.LinkFree base)
    (hnames : ∀ d ∈ ds, isName d = true) (hd : tree.descend links base ds = .ok there) :
    IsPassable base ds tree := by
  induction ds generalizing base with
  | nil => exact ⟨nofun, fun front hne hfront => absurd (List.prefix_nil.1 hfront) hne⟩
  | cons d ds ih =>
    obtain ⟨-, hhere, hup, -⟩ := isName_iff.1 (hnames d List.mem_cons_self)
    rw [descend, if_neg hhere, if_neg hup] at hd
    split at hd
    · -- A way that is walked has no long names, files or links on it.
      cases hd
    · rename_i hshort
      rcases hnode : tree.nodes[base ++ [d]]? with - | (content | - | target)
      · simp [hnode] at hd
      · simp [hnode] at hd
      · simp only [hnode] at hd
        have hrest := ih (h.append d) (fun d' hd' => hnames d' (List.mem_cons_of_mem d hd')) hd
        refine ⟨fun d' hd' => ?_, fun front hne hfront content hfile => ?_⟩
        · rcases List.mem_cons.1 hd' with rfl | hd'
          · exact Nat.not_lt.1 hshort
          · exact hrest.short d' hd'
        · obtain ⟨first, front, rfl⟩ := List.exists_cons_of_ne_nil hne
          obtain ⟨rfl, hmore⟩ := List.cons_prefix_cons.1 hfront
          by_cases hnil : front = []
          · subst hnil
            cases hnode.symm.trans hfile
          · refine hrest.not_file front hnil hmore content ?_
            rw [List.append_assoc]
            exact hfile
      · exact absurd hnode (h d [] target)

theorem pathFault?_eq_none_iff : pathFault? p = none ↔
    '\x00' ∉ p.text.toList ∧ p.text ≠ "" ∧ p.text.utf8ByteSize ≤ maxPath := by
  unfold pathFault?
  split
  · simp_all
  · split
    · simp_all
    · split <;> simp_all

/-- What is in front of a path that may be is one, too. -/
theorem pathFault?_of_isPrefix {q : Path} (h : q.text.toList <+: p.text.toList)
    (htext : q.text ≠ "") (hfault : pathFault? p = none) : pathFault? q = none := by
  obtain ⟨hzero, -, hsize⟩ := pathFault?_eq_none_iff.1 hfault
  exact pathFault?_eq_none_iff.2 ⟨fun hmem => hzero (h.subset hmem), htext,
    Nat.le_trans (Path.utf8ByteSize_le_of_isPrefix h) hsize⟩

theorem names_foldl_join (root : Path) (hds : ∀ d ∈ ds, isName d = true) (hd : isName d = true) :
    Names ((ds.foldl Path.join root).join d) (namesOf root ++ ds) d := by
  rw [← namesOf_foldl_join hds]
  exact names_join hd

section

variable (hroot : tree.descend maxLinks (tree.startOf root) (namesOf root) = .ok (base, links))
  (hds : ∀ d ∈ ds, isName d = true) (hd : isName d = true)
include hroot hds hd

theorem spot_join_eq :
    tree.spot ((ds.foldl Path.join root).join d) =
      match pathFault? ((ds.foldl Path.join root).join d) with
      | some e => .error e
      | none =>
        match tree.descend links base ds with
        | .error e => .error e
        | .ok (here, _) =>
          if maxName < d.utf8ByteSize then .error .nameTooLong else .ok (here ++ [d]) := by
  rw [(names_foldl_join root hds hd).spot_eq, startOf_join tree hd, startOf_foldl_join tree hds,
    descend_append, hroot]
  rfl

theorem spot_join_of_descend (hfault : pathFault? ((ds.foldl Path.join root).join d) = none)
    (hway : tree.descend links base ds = .ok (base ++ ds, links))
    (hshort : d.utf8ByteSize ≤ maxName) :
    tree.spot ((ds.foldl Path.join root).join d) = .ok (base ++ (ds ++ [d])) := by
  rw [spot_join_eq hroot hds hd, hfault, hway]
  simp [Nat.not_lt.2 hshort]

theorem eq_of_spot_join (hfree : tree.LinkFree base)
    (hspot : tree.spot ((ds.foldl Path.join root).join d) = .ok location) :
    location = base ++ (ds ++ [d]) := by
  have hstart : tree.startOf ((ds.foldl Path.join root).join d) = tree.startOf root := by
    rw [startOf_join tree hd, startOf_foldl_join tree hds]
  exact hfree.spot_eq (names_foldl_join root hds hd) (hstart ▸ hroot) hds hspot

theorem ensureDirectory_below (hfree : tree.LinkFree base) :
    ∃ r tree', ensureDirectory ((ds.foldl Path.join root).join d) tree = (r, tree') ∧
      GainsBelow base (ds ++ [d]) tree tree' ∧
      (pathFault? ((ds.foldl Path.join root).join d) = none →
        IsPassable base (ds ++ [d]) tree →
        tree.descend links base ds = .ok (base ++ ds, links) →
        r = .ok () ∧
          tree'.descend links base (ds ++ [d]) = .ok (base ++ (ds ++ [d]), links)) := by
  have hpath := names_foldl_join root hds hd
  rcases ensureDirectory_cases hpath tree with ⟨location, hspot, hnone, hmake⟩ | ⟨r, hmake, hthere⟩
  · obtain rfl := eq_of_spot_join hroot hds hd hfree hspot
    have hgains := gainsBelow_insert (by simp) hnone
    refine ⟨_, _, hmake, hgains, fun _ hpass hway => ⟨rfl, ?_⟩⟩
    exact descend_concat_of_directory (hgains.keeps.descend hway) hd (hpass.short d (by simp))
      Std.ExtTreeMap.getElem?_insert_self
  · refine ⟨r, tree, hmake, .refl _ _ _, fun hfault hpass hway => ?_⟩
    have hshort := hpass.short d (by simp)
    have hspot := spot_join_of_descend hroot hds hd hfault hway hshort
    obtain ⟨hsome, hok⟩ := hthere _ hspot
    have hdir : tree.nodes[base ++ (ds ++ [d])]? = some .directory := by
      rcases hnode : tree.nodes[base ++ (ds ++ [d])]? with - | (content | - | target)
      · -- The error says that something is there, and only a directory can be.
        exact absurd hnode hsome
      · exact absurd hnode (hpass.not_file _ (by simp) List.prefix_rfl content)
      · rfl
      · exact absurd hnode (hfree.ne_link (by simp) target)
    exact ⟨hok hdir, descend_concat_of_directory hway hd hshort hdir⟩

end

theorem Names.text_isEmpty (hpath : Names p init d) : p.text.isEmpty = false := by
  cases htext : p.text.isEmpty with
  | false => rfl
  | true =>
    have hnames := hpath.namesOf_eq
    simp [namesOf, String.isEmpty_iff.1 htext, pieces] at hnames

theorem text_foldl_join_ne (root : Path) (hne : ds ≠ []) (hds : ∀ d ∈ ds, isName d = true) :
    (ds.foldl Path.join root).text ≠ "" := by
  obtain ⟨front, d, rfl⟩ : ∃ front d, ds = front ++ [d] :=
    ⟨_, _, (List.dropLast_concat_getLast hne).symm⟩
  have hfront : ∀ x ∈ front, isName x = true := fun x hx => hds x (by simp [hx])
  have htext := (names_foldl_join root hfront (hds d (by simp))).text_isEmpty
  rw [List.foldl_append, List.foldl_cons, List.foldl_nil]
  exact fun hempty => by simp [hempty] at htext

theorem makeDirectoriesWithin_of_notFound {n : Nat} {parent : Path} (hpath : Names p init d)
    (hmake : makeDirectory p tree = (.error .notFound, tree)) (hparent : p.parent? = some parent) :
    makeDirectoriesWithin (n + 1) p tree =
      (do makeDirectoriesWithin n parent
          ensureDirectory p : Files Unit) tree := by
  rw [makeDirectoriesWithin, hpath.text_isEmpty, if_neg Bool.false_ne_true, tryCatch_error hmake,
    if_pos rfl, hparent]

theorem makeDirectoriesWithin_eq_ensureDirectory {n : Nat} (hpath : Names p init d)
    (hspot : tree.spot p ≠ .error .notFound) :
    makeDirectoriesWithin (n + 1) p tree = ensureDirectory p tree := by
  rw [makeDirectoriesWithin, hpath.text_isEmpty, if_neg Bool.false_ne_true]
  cases hs : tree.spot p with
  | error e =>
    have hmake := makeDirectory_of_error hpath hs
    rw [tryCatch_error hmake, if_neg fun heq : e = .notFound => hspot (heq ▸ hs)]
  | ok location =>
    cases hnode : tree.nodes[location]? with
    | none =>
      have hmake := makeDirectory_of_none hpath hs hnode
      rw [tryCatch_ok hmake, ensureDirectory, tryCatch_ok hmake]
    | some node => rw [tryCatch_error (makeDirectory_of_some hpath hs hnode), if_neg (by simp)]

/-- Above a name below the root there is the directory with the names in front of it. -/
theorem parent?_foldl_join (root : Path) (hne : ds ≠ []) (hds : ∀ d ∈ ds, isName d = true)
    (hd : isName d = true) :
    ((ds.foldl Path.join root).join d).parent? = some (ds.foldl Path.join root) := by
  obtain ⟨front, d', rfl⟩ : ∃ front d', ds = front ++ [d'] :=
    ⟨_, _, (List.dropLast_concat_getLast hne).symm⟩
  rw [List.foldl_append, List.foldl_cons, List.foldl_nil]
  exact Path.parent?_join_join (hds d' (by simp)) hd

/-- What comes of making the directories of the given names: nothing else is made, and they all are
if there can be such a path and the way is free. -/
structure MakesBelow (root : Path) (base : Location) (links : Nat) (ds : List String)
    (tree : FileTree) (outcome : Except FileError Unit × FileTree) : Prop where
  gains : GainsBelow base ds tree outcome.2
  complete : pathFault? (ds.foldl Path.join root) = none → IsPassable base ds tree →
    outcome.1 = .ok () ∧ outcome.2.descend links base ds = .ok (base ++ ds, links)

section

variable {n : Nat}
  (hroot : tree.descend maxLinks (tree.startOf root) (namesOf root) = .ok (base, links))
  (hfree : tree.LinkFree base) (hds : ∀ d ∈ ds, isName d = true) (hd : isName d = true)
include hroot hds hd

/-- The root itself is not missing. -/
theorem ne_nil_of_spot_eq_notFound
    (hspot : tree.spot ((ds.foldl Path.join root).join d) = .error .notFound) : ds ≠ [] := by
  rintro rfl
  rw [spot_join_eq hroot hds hd] at hspot
  cases hfault : pathFault? (([] : List String).foldl Path.join root |>.join d) with
  | some e =>
    -- An error of the path itself is another one.
    rw [hfault] at hspot
    cases hspot
    exact pathFault?_ne_notFound (names_join hd).text_isEmpty hfault
  | none =>
    -- The directory of the root is there, and the name is right below it.
    rw [hfault, descend] at hspot
    dsimp only at hspot
    split at hspot <;> cases hspot

include hfree

/-- Nothing above the last name is missing. -/
theorem makesBelow_of_spot_ne
    (hspot : tree.spot ((ds.foldl Path.join root).join d) ≠ .error .notFound) :
    MakesBelow root base links (ds ++ [d]) tree
      (makeDirectoriesWithin (n + 1) ((ds ++ [d]).foldl Path.join root) tree) := by
  rw [List.foldl_append, List.foldl_cons, List.foldl_nil,
    makeDirectoriesWithin_eq_ensureDirectory (names_foldl_join root hds hd) hspot]
  obtain ⟨r, tree', hmake, hgains, hok⟩ := ensureDirectory_below hroot hds hd hfree
  rw [hmake]
  refine ⟨hgains, fun hfault hpass => ?_⟩
  rw [List.foldl_append, List.foldl_cons, List.foldl_nil] at hfault
  refine hok hfault hpass ?_
  have hinit := hpass.of_isPrefix (List.prefix_append ds [d])
  rcases hinit.descend_cases hfree hds links with hway | hmissing
  · exact hway
  · -- With a directory missing on the way the error would be that one.
    rw [spot_join_eq hroot hds hd, hfault, hmissing] at hspot
    exact absurd rfl hspot

/-- Something above the last name is missing, and is made first. -/
theorem MakesBelow.concat (hne : ds ≠ [])
    (h : MakesBelow root base links ds tree
      (makeDirectoriesWithin n (ds.foldl Path.join root) tree))
    (hspot : tree.spot ((ds.foldl Path.join root).join d) = .error .notFound) :
    MakesBelow root base links (ds ++ [d]) tree
      (makeDirectoriesWithin (n + 1) ((ds ++ [d]).foldl Path.join root) tree) := by
  have hpath := names_foldl_join root hds hd
  have hinit : ds <+: ds ++ [d] := List.prefix_append _ _
  have hlast : (ds ++ [d]).foldl Path.join root = (ds.foldl Path.join root).join d := by
    rw [List.foldl_append, List.foldl_cons, List.foldl_nil]
  rw [hlast, makeDirectoriesWithin_of_notFound hpath (makeDirectory_of_error hpath hspot)
    (parent?_foldl_join root hne hds hd)]
  rcases hmake : makeDirectoriesWithin n (ds.foldl Path.join root) tree with ⟨r, made⟩
  rw [hmake] at h
  have hgains : GainsBelow base ds tree made := h.gains
  have habove (hfault : pathFault? ((ds.foldl Path.join root).join d) = none)
      (hpass : IsPassable base (ds ++ [d]) tree) :
      r = .ok () ∧ made.descend links base ds = .ok (base ++ ds, links) :=
    h.complete (pathFault?_of_isPrefix (Path.prefix_join hd) (text_foldl_join_ne root hne hds)
      hfault) (hpass.of_isPrefix hinit)
  cases r with
  | error e =>
    rw [bind_error hmake]
    refine ⟨hgains.mono hinit, fun hfault hpass => ?_⟩
    -- The directories above can be made, so that they were.
    cases (habove (hlast ▸ hfault) hpass).1
  | ok u =>
    rw [bind_ok hmake]
    have hroot' : made.descend maxLinks (made.startOf root) (namesOf root) = .ok (base, links) := by
      rw [hgains.keeps.startOf_eq]
      exact hgains.keeps.descend hroot
    obtain ⟨r', tree', hensure, hgains', hdone⟩ :=
      ensureDirectory_below hroot' hds hd (hfree.gains hgains.toGains)
    rw [hensure]
    refine ⟨(hgains.mono hinit).trans hgains', fun hfault hpass => ?_⟩
    rw [hlast] at hfault
    exact hdone hfault (hpass.gains hgains.toGains) (habove hfault hpass).2

end

/-- All directories of a path are made below the root, as far as that is possible. -/
theorem makesBelow_makeDirectoriesWithin {n : Nat}
    (hroot : tree.descend maxLinks (tree.startOf root) (namesOf root) = .ok (base, links))
    (hfree : tree.LinkFree base) (hne : ds ≠ []) (hds : ∀ d ∈ ds, isName d = true)
    (hn : ds.length < n) :
    MakesBelow root base links ds tree
      (makeDirectoriesWithin n (ds.foldl Path.join root) tree) := by
  induction n generalizing ds with
  | zero => exact absurd hn (Nat.not_lt_zero _)
  | succ n ih =>
    obtain ⟨front, d, rfl⟩ : ∃ front d, ds = front ++ [d] :=
      ⟨_, _, (List.dropLast_concat_getLast hne).symm⟩
    have hd : isName d = true := hds d (by simp)
    have hfront : ∀ x ∈ front, isName x = true := fun x hx => hds x (by simp [hx])
    have hlength : front.length < n := by simpa using hn
    by_cases hspot : tree.spot ((front.foldl Path.join root).join d) = .error .notFound
    · -- The way above is not there, and is made first.
      have hmore := ne_nil_of_spot_eq_notFound hroot hfront hd hspot
      exact (ih hmore hfront hlength).concat hroot hfree hfront hd hmore hspot
    · exact makesBelow_of_spot_ne hroot hfree hfront hd hspot

/-! ### The directory that a file is written in -/

theorem pathFault?_join_of_isPrefix {q : Path} (h : q.text.toList <+: p.text.toList)
    (hd : isName d = true) (hfault : pathFault? (p.join d) = none) :
    pathFault? (q.join d) = none := by
  by_cases heq : q = p
  · rwa [heq]
  · obtain ⟨sep, -, hp⟩ := p.exists_separator
    obtain ⟨sep', hsep', hq⟩ := q.exists_separator
    obtain ⟨hzero, -, hsize⟩ := pathFault?_eq_none_iff.1 hfault
    have hne : d ≠ "" := (isName_iff.1 hd).1
    rw [hp hd, String.toList_append, String.toList_append] at hzero
    rw [hp hd, String.utf8ByteSize_append, String.utf8ByteSize_append] at hsize
    refine pathFault?_eq_none_iff.2 ⟨?_, by simp [hq hd, hne], ?_⟩
    · have hzero' : '\x00' ∉ sep'.toList := by rcases hsep' with rfl | rfl <;> decide
      rw [hq hd, String.toList_append, String.toList_append]
      simp only [List.mem_append, not_or] at hzero ⊢
      exact ⟨⟨fun hmem => hzero.1.1 (h.subset hmem), hzero'⟩, hzero.2⟩
    · -- A path that is shorter has room for the separator.
      have hshorter := Path.utf8ByteSize_lt_of_isPrefix h fun htext => heq (congrArg Path.mk htext)
      have hsep : sep'.utf8ByteSize ≤ 1 := by rcases hsep' with rfl | rfl <;> decide
      rw [hq hd, String.utf8ByteSize_append, String.utf8ByteSize_append]
      omega

theorem descend_replicate_here (tree : FileTree) (links : Nat) (here : Location) (n : Nat) :
    tree.descend links here (List.replicate n ".") = .ok (here, links) := by
  induction n with
  | zero => rw [List.replicate_zero, descend]
  | succ n ih => rw [List.replicate_succ, descend, if_pos rfl, ih]

/-- A path of the same directory as the names below the root. -/
structure LeadsTo (root : Path) (ds : List String) (p : Path) : Prop where
  descend_eq : ∀ tree : FileTree, tree.descend maxLinks (tree.startOf p) (namesOf p) =
    tree.descend maxLinks (tree.startOf root) (namesOf root ++ ds)
  eq_of_ne_nil : ds ≠ [] → p = ds.foldl Path.join root

theorem leadsTo_parent? (root : Path) (hds : ∀ d ∈ ds, isName d = true) (hd : isName d = true) :
    ∃ q, ((ds.foldl Path.join root).join d).parent? = some q ∧ LeadsTo root ds q ∧
      q.text.toList <+: (ds.foldl Path.join root).text.toList ∧
      (q.text = "" → (ds.foldl Path.join root).text = "") := by
  obtain ⟨q, hparent, habove, hempty, n, hnames⟩ :=
    Path.exists_parent?_join (p := ds.foldl Path.join root) hd
  refine ⟨q, hparent, ⟨fun tree => ?_, fun hne => ?_⟩, habove, hempty⟩
  · have habsolute := Path.isAbsolute_of_isPrefix habove hempty
    -- The steps in place that are dropped lead nowhere.
    have hstart : tree.startOf q = tree.startOf root := by
      rw [startOf, habsolute, ← startOf, startOf_foldl_join tree hds]
    rw [hstart, ← namesOf_foldl_join hds, hnames, descend_append]
    cases tree.descend maxLinks (tree.startOf root) (namesOf q) with
    | error e => rfl
    | ok there => exact (descend_replicate_here tree there.2 there.1 n).symm
  · rw [parent?_foldl_join root hne hds hd] at hparent
    exact (Option.some.inj hparent).symm

/-- Making the directory of a file makes the directories below the root. -/
theorem LeadsTo.makeDirectories_cases (h : LeadsTo root ds p)
    (hroot : tree.descend maxLinks (tree.startOf root) (namesOf root) = .ok (base, links))
    (hfree : tree.LinkFree base) (hds : ∀ d ∈ ds, isName d = true) :
    ∃ r made, makeDirectories p tree = (r, made) ∧ GainsBelow base ds tree made ∧
      ((p.text ≠ "" → pathFault? p = none) → IsPassable base ds tree →
        r = .ok () ∧ made.descend maxLinks (made.startOf p) (namesOf p) =
          .ok (base ++ ds, links)) := by
  by_cases hne : ds = []
  · -- The directory of the root is there, and nothing is made.
    subst hne
    have hd := h.descend_eq tree
    rw [List.append_nil, hroot] at hd
    obtain ⟨r, hmake, hok⟩ := makeDirectoriesWithin_of_descend hd p.components.length
    refine ⟨r, tree, hmake, .refl _ _ _, fun hfault _ => ⟨hok hfault, ?_⟩⟩
    rw [hd, List.append_nil]
  · have hlength : ds.length < (ds.foldl Path.join root).components.length + 1 := by
      rw [Path.components_foldl_join hds, List.length_append, List.length_map]
      omega
    have hmakes := makesBelow_makeDirectoriesWithin hroot hfree hne hds hlength
    obtain rfl := h.eq_of_ne_nil hne
    rcases hmake : makeDirectories (ds.foldl Path.join root) tree with ⟨r, made⟩
    rw [makeDirectories] at hmake
    rw [hmake] at hmakes
    have hgains : GainsBelow base ds tree made := hmakes.gains
    refine ⟨r, made, rfl, hgains, fun hfault hpass => ?_⟩
    obtain ⟨hr, hway⟩ := hmakes.complete (hfault (text_foldl_join_ne root hne hds)) hpass
    refine ⟨hr, ?_⟩
    rw [h.descend_eq made, descend_append, hgains.keeps.startOf_eq, hgains.keeps.descend hroot]
    exact hway

/-- The directory through which a file below the root is written. -/
theorem exists_writeThrough (root : Path) (hds : ∀ d ∈ ds, isName d = true) (hd : isName d = true) :
    ∃ parent : Path, (∀ bytes, replaceFile ((ds.foldl Path.join root).join d) bytes =
        writeThrough parent d ((ds.foldl Path.join root).join d) bytes) ∧
      LeadsTo root ds parent ∧
      ∀ {s : String}, isName s = true → s.utf8ByteSize ≤ maxName →
        pathFault? ((ds.foldl Path.join root).join s) = none →
          pathFault? parent = none ∧ pathFault? (parent.join s) = none := by
  obtain ⟨q, hparent, hleads, habove, hempty⟩ := leadsTo_parent? root hds hd
  have hreplace := replaceFile_eq hparent (Path.fileName?_join hd)
  cases htext : q.text.isEmpty with
  | false =>
    rw [htext, if_neg Bool.false_ne_true] at hreplace
    refine ⟨q, hreplace, hleads, fun hs _ hfault => ?_⟩
    have hne : q.text ≠ "" := fun heq => by simp [heq] at htext
    exact ⟨pathFault?_of_isPrefix (habove.trans (Path.prefix_join hs)) hne hfault,
      pathFault?_join_of_isPrefix habove hs hfault⟩
  | true =>
    -- A relative path of one name is written in the working directory.
    rw [htext, if_pos rfl] at hreplace
    have hroot := hempty (String.isEmpty_iff.1 htext)
    obtain rfl : ds = [] :=
      Decidable.byContradiction fun hne => text_foldl_join_ne root hne hds hroot
    have htext' : root.text = "" := hroot
    refine ⟨⟨"."⟩, hreplace, ⟨fun tree => ?_, fun hne => absurd rfl hne⟩,
      fun {s} hs hshort hfault => ?_⟩
    · have hnames : namesOf ⟨"."⟩ = ["."] := by decide
      have hrelative : (Path.mk ".").isAbsolute = false := by decide
      have hrelative' : root.isAbsolute = false := by simp [Path.isAbsolute, htext']
      have hnone : namesOf root = [] := by simp [namesOf, htext', pieces]
      rw [startOf, startOf, hrelative, hrelative', hnames, hnone, descend, if_pos rfl]
      rfl
    · obtain ⟨sep, hsep, hjoin⟩ := (Path.mk ".").exists_separator
      obtain ⟨hzero, -, -⟩ := pathFault?_eq_none_iff.1 hfault
      have hzero' : '\x00' ∉ s.toList := by
        obtain ⟨_, -, hjoin'⟩ := root.exists_separator
        rw [List.foldl_nil, hjoin' hs, String.toList_append] at hzero
        exact fun hmem => hzero (List.mem_append_right _ hmem)
      have hne : s ≠ "" := (isName_iff.1 hs).1
      have hfront : '\x00' ∉ ("." ++ sep).toList ∧ ("." ++ sep).utf8ByteSize ≤ 2 := by
        rcases hsep with rfl | rfl <;> decide
      refine ⟨by decide, pathFault?_eq_none_iff.2 ⟨?_, by simp [hjoin hs, hne], ?_⟩⟩
      · rw [hjoin hs, String.toList_append, List.mem_append, not_or]
        exact ⟨hfront.1, hzero'⟩
      · have hsize := hfront.2
        rw [hjoin hs, String.utf8ByteSize_append]
        simp only [maxName, maxPath] at hshort ⊢
        omega

theorem GainsBelow.getElem?_concat (h : GainsBelow base ds tree tree') (name : String) :
    tree'.nodes[base ++ (ds ++ [name])]? = tree.nodes[base ++ (ds ++ [name])]? := by
  rcases h.getElem?_cases (base ++ (ds ++ [name])) with hsame | ⟨hnone, hdir⟩
  · exact hsame
  · -- New directories are on the way to the place, not in it.
    obtain ⟨front, -, hfront, heq⟩ := h.of_gained _ hnone hdir
    have hlength := hfront.length_le
    rw [← List.append_cancel_left heq, List.length_append, List.length_singleton] at hlength
    omega

end FileTree

end JvmThrows
