import JvmThrows.Cache.Directory
import JvmThrows.Proofs.Descent
import JvmThrows.Proofs.Keys

/-!
# Where documents are kept

The document of a key is looked up under the names of the root and then under the segments of the
key (`names_documentPath`), and never outside the root (`components_documentPath`). Keys without
empty segments have documents in different places (`documentNames_inj`), none of which is above
another one or above the file to lock (`components_documentPath_eq_iff`). A class whose key is not
its own key has two places (`documentPath_key_eq_iff`).
-/

namespace JvmThrows

open Text

/-! ### The names of joined paths -/

namespace FileTree

variable {p : Path} {s : String}

theorem namesOf_join (h : (Path.mk s).isAbsolute = false) :
    namesOf (p.join s) = namesOf p ++ namesOf ⟨s⟩ := by
  unfold Path.join
  rw [if_neg (by simp [h])]
  split
  · -- Nothing is in front of the name.
    rename_i hlast
    have hempty : p.text.toList = [] := List.getLast?_eq_none_iff.1 hlast
    simp [namesOf, hempty, pieces]
  · -- The path brings a slash along.
    rename_i hlast
    obtain ⟨init, hinit⟩ := List.getLast?_eq_some_iff.1 hlast
    simp [namesOf, hinit, pieces_append, pieces]
  · simp [namesOf, pieces_append]

theorem isAbsolute_join (h : (Path.mk s).isAbsolute = false) :
    (p.join s).isAbsolute = p.isAbsolute := by
  unfold Path.join
  rw [if_neg (by simp [h])]
  split
  · rename_i hlast
    have hempty : p.text.toList = [] := List.getLast?_eq_none_iff.1 hlast
    rw [h, Path.isAbsolute, hempty]
    rfl
  · rename_i hlast
    obtain ⟨init, hinit⟩ := List.getLast?_eq_some_iff.1 hlast
    cases init <;> simp [Path.isAbsolute, hinit]
  · rename_i c _ hlast
    obtain ⟨init, hinit⟩ := List.getLast?_eq_some_iff.1 hlast
    cases init <;> simp [Path.isAbsolute, hinit]

theorem not_isAbsolute_of_isName (h : isName s = true) : (Path.mk s).isAbsolute = false := by
  obtain ⟨-, -, -, hslash⟩ := isName_iff.1 h
  simp only [Path.isAbsolute, beq_eq_false_iff_ne]
  exact fun hhead => hslash (List.mem_of_mem_head? hhead)

theorem endsInSlash_join (h : isName s = true) : endsInSlash (p.join s) = false := by
  obtain ⟨hne, -, -, hslash⟩ := isName_iff.1 h
  have hlast (front : String) : (front ++ s).toList.getLast? ≠ some '/' := by
    have hne' : s.toList ≠ [] := by simpa using hne
    rw [String.toList_append, List.getLast?_append, List.getLast?_eq_some_getLast hne',
      Option.some_or]
    exact fun hend => hslash (Option.some.inj hend ▸ List.getLast_mem hne')
  unfold Path.join
  rw [if_neg (by simp [not_isAbsolute_of_isName h])]
  simp only [endsInSlash, beq_eq_false_iff_ne]
  split
  · -- The last character is one of the name, whatever is in front.
    simpa using hlast ""
  · exact hlast p.text
  · exact hlast (p.text ++ "/")

theorem namesOf_of_isName (h : isName s = true) : namesOf ⟨s⟩ = [s] := by
  obtain ⟨hne, -, -, hslash⟩ := isName_iff.1 h
  have hne' : s.toList ≠ [] := by simpa using hne
  simp [namesOf, pieces_of_not_mem hslash, hne']

theorem namesOf_join_of_isName (h : isName s = true) : namesOf (p.join s) = namesOf p ++ [s] := by
  rw [namesOf_join (not_isAbsolute_of_isName h), namesOf_of_isName h]

theorem startOf_join (tree : FileTree) (h : isName s = true) :
    tree.startOf (p.join s) = tree.startOf p := by
  rw [startOf, startOf, isAbsolute_join (not_isAbsolute_of_isName h)]

theorem names_join (h : isName s = true) : Names (p.join s) (namesOf p) s :=
  ⟨namesOf_join_of_isName h, h, endsInSlash_join h⟩

variable {names : List String}

theorem namesOf_foldl_join (h : ∀ name ∈ names, isName name = true) :
    namesOf (names.foldl Path.join p) = namesOf p ++ names := by
  induction names generalizing p with
  | nil => simp
  | cons name names ih =>
    rw [List.foldl_cons, ih fun n hn => h n (List.mem_cons_of_mem _ hn),
      namesOf_join_of_isName (h name List.mem_cons_self), List.append_assoc]
    rfl

theorem startOf_foldl_join (tree : FileTree) (h : ∀ name ∈ names, isName name = true) :
    tree.startOf (names.foldl Path.join p) = tree.startOf p := by
  induction names generalizing p with
  | nil => rfl
  | cons name names ih =>
    rw [List.foldl_cons, ih fun n hn => h n (List.mem_cons_of_mem _ hn),
      startOf_join tree (h name List.mem_cons_self)]

end FileTree

/-! ### The components of joined paths -/

namespace Path

open FileTree

variable {p : Path} {s : String}

/-- A name is joined as a piece of its own; an empty piece at the end gives way to it. -/
theorem pieces_join (h : isName s = true) (hp : p.text.toList ≠ []) :
    ∃ front back, front ≠ [] ∧ (back = [] ∨ back = [[]]) ∧
      pieces '/' p.text.toList = front ++ back ∧
      pieces '/' (p.join s).text.toList = front ++ [s.toList] := by
  obtain ⟨-, -, -, hslash⟩ := isName_iff.1 h
  unfold join
  rw [if_neg (by simp [not_isAbsolute_of_isName h])]
  split
  · rename_i hlast
    exact absurd (List.getLast?_eq_none_iff.1 hlast) hp
  · rename_i hlast
    obtain ⟨init, hinit⟩ := List.getLast?_eq_some_iff.1 hlast
    refine ⟨pieces '/' init, [[]], pieces_ne_nil _ _, .inr rfl, ?_, ?_⟩
    · -- The slash at the end has an empty piece behind it.
      rw [hinit, pieces_append]
      rfl
    · simp [hinit, pieces_append, pieces_of_not_mem hslash]
  · refine ⟨pieces '/' p.text.toList, [], pieces_ne_nil _ _, .inl rfl, by simp, ?_⟩
    simp [pieces_append, pieces_of_not_mem hslash]

theorem components_join (h : isName s = true) :
    (p.join s).components = p.components ++ [.name s] := by
  obtain ⟨hne, hhere, hup, hslash⟩ := isName_iff.1 h
  have hrelative := not_isAbsolute_of_isName h
  have hlist {text : String} (ht : s ≠ text) : s.toList ≠ text.toList := fun heq =>
    ht (String.toList_inj.1 heq)
  have hhere' : s.toList ≠ ['.'] := hlist hhere
  have hup' : s.toList ≠ ['.', '.'] := hlist hup
  have hname :
      ([s.toList].filter fun piece => !isIdle piece).map Component.ofPiece = [.name s] := by
    simp [isIdle, hne, hhere', Component.ofPiece, hup']
  by_cases hp : p.text.toList = []
  · -- The path is the name alone.
    have hjoin : p.join s = ⟨s⟩ := by simp [join, hrelative, hp]
    have hnothing : p.components = [] := by simp [components, isAbsolute, hp, pieces, isIdle]
    rw [hjoin, hnothing, List.nil_append, components, pieces_of_not_mem hslash, hname, hrelative]
    simp [hhere']
  · obtain ⟨front, back, hfront, hback, hpieces, hjoined⟩ := pieces_join h hp
    obtain ⟨first, front, rfl⟩ := List.exists_cons_of_ne_nil hfront
    have hnone : back.filter (fun piece => !isIdle piece) = [] := by
      rcases hback with rfl | rfl <;> rfl
    rw [components, components, isAbsolute_join hrelative, hpieces, hjoined, List.filter_append,
      List.filter_append, List.map_append, hname, hnone, List.append_nil, List.append_assoc]
    rfl

theorem components_foldl_join {names : List String} (h : ∀ name ∈ names, isName name = true) :
    (names.foldl Path.join p).components = p.components ++ names.map .name := by
  induction names generalizing p with
  | nil => simp
  | cons name names ih =>
    rw [List.foldl_cons, ih fun n hn => h n (List.mem_cons_of_mem _ hn),
      components_join (h name List.mem_cons_self), List.append_assoc]
    rfl

end Path

/-! ### The names of documents -/

namespace Cache

open FileTree

variable {k k' : String} {init : List (List Char)} {last : List Char}

/-- The directories above the document of a key. -/
def directoryNames (k : String) : List String := packageSegments (ClassName.splitPackage k).1

/-- The name of the document of a key in its directory. -/
def fileName (k : String) : String := (ClassName.splitPackage k).2 ++ ".json"

/-- The names on the way from the root to the document of a key. -/
def documentNames (k : String) : List String := directoryNames k ++ [fileName k]

theorem documentNames_ne_nil (k : String) : documentNames k ≠ [] :=
  List.append_ne_nil_of_right_ne_nil _ (List.cons_ne_nil _ _)

theorem documentPath_eq (root : Path) (c : String) :
    documentPath root c =
      ((directoryNames (key c)).foldl Path.join root).join (fileName (key c)) := by
  unfold documentPath directoryNames fileName
  cases ClassName.splitPackage (key c)
  rfl

/-- The segments of a key but the last name directories, unless they are empty. -/
theorem exists_pieces_eq (k : String) :
    ∃ init, pieces '.' k.toList = init ++ [(ClassName.splitPackage k).2.toList] ∧
      directoryNames k = (init.filter (!·.isEmpty)).map String.ofList := by
  cases h : cutLast '.' k.toList with
  | none =>
    -- Without a package the whole name is the only piece.
    refine ⟨[], ?_, ?_⟩
    · simp [ClassName.splitPackage, h, pieces_of_not_mem (not_mem_of_cutLast_eq_none h)]
    · simp [directoryNames, ClassName.splitPackage, h, packageSegments, pieces]
  | some parts =>
    obtain ⟨package, simple⟩ := parts
    obtain ⟨heq, hlast⟩ := cutLast_eq h
    have hsplit : ClassName.splitPackage k = (String.ofList package, String.ofList simple) := by
      rw [ClassName.splitPackage, h]
    refine ⟨pieces '.' package, ?_, ?_⟩
    · simp [hsplit, heq, pieces_append, pieces_of_not_mem hlast]
    · simp [directoryNames, hsplit, packageSegments]

theorem isName_of_mem_directoryNames (hslash : '/' ∉ k.toList) {name : String}
    (h : name ∈ directoryNames k) : isName name = true := by
  obtain ⟨init, hpieces, hnames⟩ := exists_pieces_eq k
  rw [hnames] at h
  obtain ⟨piece, hpiece, rfl⟩ := List.mem_map.1 h
  obtain ⟨hmem, hne⟩ := List.mem_filter.1 hpiece
  have hmem : piece ∈ pieces '.' k.toList := by simp [hpieces, hmem]
  have hdot : '.' ∉ piece := not_mem_of_mem_pieces hmem
  have hne_dots (text : String) (htext : '.' ∈ text.toList) : String.ofList piece ≠ text := by
    rintro rfl
    exact hdot (by simpa using htext)
  refine isName_iff.2 ⟨by simpa using hne, hne_dots _ (by decide), hne_dots _ (by decide), ?_⟩
  simpa using fun hc => hslash (mem_of_mem_pieces hmem hc)

theorem dot_not_mem_of_mem_directoryNames {name : String} (h : name ∈ directoryNames k) :
    '.' ∉ name.toList := by
  obtain ⟨init, hpieces, hnames⟩ := exists_pieces_eq k
  rw [hnames] at h
  obtain ⟨piece, hpiece, rfl⟩ := List.mem_map.1 h
  rw [String.toList_ofList]
  have hmem : piece ∈ pieces '.' k.toList := by simp [hpieces, (List.mem_filter.1 hpiece).1]
  exact not_mem_of_mem_pieces hmem

theorem dot_mem_fileName (k : String) : '.' ∈ (fileName k).toList := by simp [fileName]

theorem getLast?_fileName (k : String) : (fileName k).toList.getLast? = some 'n' := by
  simp [fileName, List.getLast?_append]

theorem isName_fileName (hslash : '/' ∉ k.toList) : isName (fileName k) = true := by
  obtain ⟨init, hpieces, -⟩ := exists_pieces_eq k
  have hmem : (ClassName.splitPackage k).2.toList ∈ pieces '.' k.toList := by simp [hpieces]
  have hsimple : '/' ∉ (ClassName.splitPackage k).2.toList := fun hc =>
    hslash (mem_of_mem_pieces hmem hc)
  have hne (text : String) (htext : text.toList.getLast? ≠ some 'n') : fileName k ≠ text := by
    rintro rfl
    exact htext (getLast?_fileName k)
  refine isName_iff.2 ⟨hne _ (by decide), hne _ (by decide), hne _ (by decide), ?_⟩
  simp [fileName, hsimple]

theorem slash_not_mem_key (c : String) : '/' ∉ (key c).toList := ClassName.slash_not_mem_topLevel c

theorem isName_directoryNames_key (c : String) : ∀ d ∈ directoryNames (key c), isName d = true :=
  fun _ => isName_of_mem_directoryNames (slash_not_mem_key c)

theorem isName_fileName_key (c : String) : isName (fileName (key c)) = true :=
  isName_fileName (slash_not_mem_key c)

/-- The document of a class is looked up under the names of the root and those of its key. -/
theorem names_documentPath (root : Path) (c : String) :
    Names (documentPath root c) (namesOf root ++ directoryNames (key c)) (fileName (key c)) := by
  rw [documentPath_eq, ← namesOf_foldl_join (isName_directoryNames_key c)]
  exact names_join (isName_fileName_key c)

theorem startOf_documentPath (tree : FileTree) (root : Path) (c : String) :
    tree.startOf (documentPath root c) = tree.startOf root := by
  rw [documentPath_eq, startOf_join tree (isName_fileName_key c),
    startOf_foldl_join tree (isName_directoryNames_key c)]

theorem documentPath_eq_foldl (root : Path) (c : String) :
    documentPath root c = (documentNames (key c)).foldl Path.join root := by
  rw [documentPath_eq, documentNames, List.foldl_append, List.foldl_cons, List.foldl_nil]

theorem isName_of_mem_documentNames (hslash : '/' ∉ k.toList) {name : String}
    (h : name ∈ documentNames k) : isName name = true := by
  rcases List.mem_append.1 h with hdirectory | hfile
  · exact isName_of_mem_directoryNames hslash hdirectory
  · exact List.mem_singleton.1 hfile ▸ isName_fileName hslash

/-- **No document is kept outside the root.** Whatever class is named, its document lies below the
root: its path is that of the root with names behind it that lead nowhere else, and the last one
ends in `.json`. -/
theorem components_documentPath (root : Path) (c : String) :
    ∃ directories simple,
      documentPath root c = (directories ++ [simple ++ ".json"]).foldl Path.join root ∧
      (documentPath root c).components =
        root.components ++ directories.map .name ++ [.name (simple ++ ".json")] ∧
      ∀ name ∈ directories ++ [simple ++ ".json"],
        name ≠ "" ∧ name ≠ "." ∧ name ≠ ".." ∧ '/' ∉ name.toList := by
  have hnames : ∀ name ∈ documentNames (key c), isName name = true := fun _ =>
    isName_of_mem_documentNames (slash_not_mem_key c)
  refine ⟨directoryNames (key c), (ClassName.splitPackage (key c)).2, documentPath_eq_foldl root c,
    ?_, fun name hname => isName_iff.1 (hnames name hname)⟩
  rw [documentPath_eq_foldl, Path.components_foldl_join hnames, documentNames, List.map_append,
    List.append_assoc]
  rfl

example : documentPath ⟨"/cache"⟩ "/../..//etc/./x$y" = ⟨"/cache/etc/x.json"⟩ := by decide +kernel

/-- Different keys without empty segments have documents in different places. -/
theorem documentNames_inj (hk : ∀ p ∈ pieces '.' k.toList, p ≠ [])
    (hk' : ∀ p ∈ pieces '.' k'.toList, p ≠ []) (h : documentNames k = documentNames k') :
    k = k' := by
  obtain ⟨init, hpieces, hnames⟩ := exists_pieces_eq k
  obtain ⟨init', hpieces', hnames'⟩ := exists_pieces_eq k'
  have hfilter : init.filter (!·.isEmpty) = init := by
    refine List.filter_eq_self.2 fun p hp => ?_
    simpa using hk p (by simp [hpieces, hp])
  have hfilter' : init'.filter (!·.isEmpty) = init' := by
    refine List.filter_eq_self.2 fun p hp => ?_
    simpa using hk' p (by simp [hpieces', hp])
  obtain ⟨hdirs, hfile⟩ := List.append_inj' h rfl
  rw [hnames, hnames', hfilter, hfilter'] at hdirs
  have hinit : init = init' := (List.map_inj_right fun _ _ => String.ofList_inj.1).1 hdirs
  have hsimple : (ClassName.splitPackage k).2 = (ClassName.splitPackage k').2 := by
    rw [← String.toList_inj]
    simpa [fileName] using congrArg String.toList (List.singleton_inj.1 hfile)
  have heq : pieces '.' k.toList = pieces '.' k'.toList := by rw [hpieces, hpieces', hinit, hsimple]
  rw [← String.toList_inj, ← intercalate_pieces '.' k.toList, heq, intercalate_pieces]

theorem documentNames_ne_lock (k : String) : documentNames k ≠ [".lock"] := by
  intro h
  obtain ⟨-, hfile⟩ := List.append_inj' (h.trans (List.nil_append _).symm) rfl
  have hlast := getLast?_fileName k
  rw [List.singleton_inj.1 hfile] at hlast
  revert hlast
  decide

theorem components_eq_documentNames (root : Path) (c : String) :
    (documentPath root c).components = root.components ++ (documentNames (key c)).map .name := by
  rw [documentPath_eq_foldl, Path.components_foldl_join fun _ =>
    isName_of_mem_documentNames (slash_not_mem_key c)]

theorem components_lockPath (root : Path) :
    (Directory.lockPath root).components = root.components ++ [".lock"].map .name :=
  Path.components_join (by decide)

theorem map_name_prefix_iff {names names' : List String} :
    names.map Component.name <+: names'.map Component.name ↔ names <+: names' :=
  List.prefix_map_iff_of_injective fun _ _ => Component.name.inj

/-- No document is a directory on the way to another one: its name has a dot, and theirs have
none. -/
theorem documentNames_eq_of_isPrefix (h : documentNames k <+: documentNames k') :
    documentNames k = documentNames k' := by
  rcases List.prefix_concat_iff.1 h with heq | hdirectories
  · exact heq
  · -- Files have a dot in their names, directories none.
    have hmem : fileName k ∈ directoryNames k' := hdirectories.subset (by simp [documentNames])
    exact absurd (dot_mem_fileName k) (dot_not_mem_of_mem_directoryNames hmem)

/-- The file to lock is no directory on the way to a document, and no document. -/
theorem not_lock_prefix_documentNames (k : String) : ¬ [".lock"] <+: documentNames k := by
  intro h
  rcases List.prefix_concat_iff.1 h with heq | hdirectories
  · exact documentNames_ne_lock k heq.symm
  · have hmem : ".lock" ∈ directoryNames k := hdirectories.subset (by simp)
    exact dot_not_mem_of_mem_directoryNames hmem (by decide)

theorem not_documentNames_prefix_lock (k : String) : ¬ documentNames k <+: [".lock"] := by
  intro h
  rw [← List.nil_append [".lock"], List.prefix_concat_iff] at h
  rcases h with heq | hnil
  · exact documentNames_ne_lock k heq
  · exact documentNames_ne_nil k (List.prefix_nil.1 hnil)

/-- **Distinct keys never share a file.** Below any root the documents of two classes have one path
exactly if the classes have one key, provided the keys have no empty segment. Whatever the keys are,
no document is above another one, and the file to lock is neither a document nor above or below
one. -/
theorem components_documentPath_eq_iff (root : Path) (x y : String)
    (hx : ∀ p ∈ pieces '.' (key x).toList, p ≠ []) (hy : ∀ p ∈ pieces '.' (key y).toList, p ≠ []) :
    ((documentPath root x).components = (documentPath root y).components ↔ key x = key y) ∧
    ((documentPath root x).components <+: (documentPath root y).components →
      (documentPath root x).components = (documentPath root y).components) ∧
    ¬ (documentPath root x).components <+: (Directory.lockPath root).components ∧
    ¬ (Directory.lockPath root).components <+: (documentPath root x).components := by
  rw [components_lockPath, components_eq_documentNames, components_eq_documentNames,
    List.append_cancel_left_eq, List.prefix_append_right_inj, List.prefix_append_right_inj,
    List.prefix_append_right_inj, map_name_prefix_iff, map_name_prefix_iff, map_name_prefix_iff]
  refine ⟨⟨fun h => ?_, fun h => by rw [h]⟩, fun h => by rw [documentNames_eq_of_isPrefix h],
    not_documentNames_prefix_lock _, not_lock_prefix_documentNames _⟩
  exact documentNames_inj hx hy ((List.map_inj_right fun _ _ => Component.name.inj).1 h)

/-- The document `b.json` of one class, and a class called `json` in a package called `b`. -/
theorem components_documentPath_json :
    key "b" ≠ key "b.json" ∧
    (documentPath ⟨"/c"⟩ "b").components ≠ (documentPath ⟨"/c"⟩ "b.json").components ∧
    ¬ (documentPath ⟨"/c"⟩ "b").components <+: (documentPath ⟨"/c"⟩ "b.json").components := by
  have hkey : key "b" ≠ key "b.json" := by decide
  obtain ⟨hiff, hfront, -, -⟩ := components_documentPath_eq_iff ⟨"/c"⟩ "b" "b.json" (by decide)
    (by decide)
  exact ⟨hkey, fun h => hkey (hiff.1 h), fun h => hkey (hiff.1 (hfront h))⟩

/-- A key that is its own key and has no empty segment. -/
def IsSettled (k : String) : Prop := key k = k ∧ ∀ p ∈ pieces '.' k.toList, p ≠ []

instance (k : String) : Decidable (IsSettled k) :=
  inferInstanceAs (Decidable (key k = k ∧ ∀ p ∈ pieces '.' k.toList, p ≠ []))

theorem length_directoryNames_key_lt (hslash : '/' ∉ k.toList) (hdollar : '$' ∉ k.toList)
    (h : key k ≠ k) : (directoryNames (key k)).length < (directoryNames k).length := by
  obtain ⟨init, hpieces, hnames⟩ := exists_pieces_eq k
  obtain ⟨init', hpieces', hnames'⟩ := exists_pieces_eq (key k)
  have hcut : pieces '.' (key k).toList = ClassName.upToClass (pieces '.' k.toList) :=
    ClassName.pieces_topLevel hslash hdollar
  have hlt := ClassName.length_filter_upToClass_lt
    (mt (ClassName.topLevel_eq_self_iff hslash hdollar).2 h)
  rw [← hcut, hpieces, hpieces', List.dropLast_concat, List.dropLast_concat] at hlt
  rw [hnames, hnames', List.length_map, List.length_map]
  exact hlt

/-- The document of a class and that of its key are one exactly if the key is its own key. -/
theorem documentPath_key_eq_iff (root : Path) (c : String) :
    documentPath root (key c) = documentPath root c ↔ key (key c) = key c := by
  constructor
  -- A key that is not its own loses a directory, so the paths differ in length.
  · refine fun h => Decidable.byContradiction fun hkey => ?_
    -- A key that has a dollar in it is its own.
    have hdollar : '$' ∉ (key c).toList := fun hmem =>
      hkey (ClassName.topLevel_of_dollar_mem hmem)
    have hlt := length_directoryNames_key_lt (slash_not_mem_key c) hdollar hkey
    have hlength := congrArg (fun path => (namesOf path).length) h
    simp only [(names_documentPath root _).namesOf_eq, List.length_append, List.length_singleton]
      at hlength
    omega
  · intro h
    rw [documentPath_eq, documentPath_eq, h]

/-- The key of a class is its own key, and leads to the same document, unless the class is cut at a
dollar and what is left has nested parts. The key after it always is its own. -/
theorem key_key_eq_iff (c : String) :
    (key (key c) = key c ↔ ClassName.leavesNested c = false) ∧
      (∀ root, documentPath root (key c) = documentPath root c ↔
        ClassName.leavesNested c = false) ∧
      key (key (key c)) = key (key c) := by
  have hkey : key (key c) = key c ↔ ClassName.leavesNested c = false :=
    ClassName.topLevel_topLevel_eq_iff c
  exact ⟨hkey, fun root => (documentPath_key_eq_iff root c).trans hkey, key_key_key c⟩

/-- A nested class of a nested class, with a dollar for the inner one only. -/
theorem key_key_ne : key (key "a.B.C$D") ≠ key "a.B.C$D" := by decide +kernel

end Cache

end JvmThrows
