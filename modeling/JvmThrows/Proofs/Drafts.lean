import JvmThrows.Proofs.MadeDirectories
import Mathlib.Data.List.Perm.Basic

/-!
# Drafts of files

A file is replaced through a draft next to it. Drafts are numbered, and the first number that is
free is taken (`exists_unusedName`); there is one, since there are more numbers than nodes. So below
a directory without links a file can be replaced where nothing is in the way, and what is left to go
wrong is that the name of the draft is too long (`LeadsTo.writeThrough_cases`).
-/

namespace JvmThrows.FileTree

open Text

variable {tree tree' made : FileTree} {p parent path root : Path} {base location : Location}
  {links n : Nat} {ds : List String} {d name s : String} {e : FileError}

/-! ### The names of drafts -/

theorem toList_draftName (name : String) (n : Nat) :
    (draftName name n).toList = name.toList ++ (".tmp.1.".toList ++ Nat.toDigits 10 n) := by
  have hdigits : (toString n).toList = Nat.toDigits 10 n := Nat.toList_repr
  rw [draftName, String.toList_append, String.toList_append, hdigits, List.append_assoc]

theorem isDigit_of_mem_digits {c : Char} (h : c ∈ Nat.toDigits 10 n) : c.isDigit = true :=
  Nat.isDigit_of_mem_toDigits (by decide) (by decide) h

/-- What a draft has behind the name of the file are letters, digits and dots. -/
theorem not_mem_draftEnd {c : Char} (hmark : c ∉ ".tmp.1.".toList) (hdigit : c.isDigit = false) :
    c ∉ ".tmp.1.".toList ++ Nat.toDigits 10 n := by
  rw [List.mem_append, not_or]
  refine ⟨hmark, fun hmem => ?_⟩
  rw [isDigit_of_mem_digits hmem] at hdigit
  cases hdigit

theorem getLast?_draftName (name : String) (n : Nat) :
    ∃ c, (draftName name n).toList.getLast? = some c ∧ c.isDigit = true := by
  have hne : Nat.toDigits 10 n ≠ [] := Nat.toDigits_ne_nil
  refine ⟨(Nat.toDigits 10 n).getLast hne, ?_, isDigit_of_mem_digits (List.getLast_mem hne)⟩
  rw [toList_draftName, List.getLast?_append, List.getLast?_append,
    List.getLast?_eq_some_getLast hne, Option.some_or, Option.some_or]

/-- Drafts end in a digit. -/
theorem draftName_ne {c : Char} (hs : s.toList.getLast? = some c) (hc : c.isDigit = false) :
    draftName name n ≠ s := by
  rintro rfl
  obtain ⟨last, hlast, hdigit⟩ := getLast?_draftName name n
  cases hlast.symm.trans hs
  rw [hdigit] at hc
  cases hc

theorem isName_draftName (hd : isName d = true) (n : Nat) : isName (draftName d n) = true := by
  obtain ⟨-, -, -, hslash⟩ := isName_iff.1 hd
  have hne {text : String} (htext : 't' ∉ text.toList) : draftName d n ≠ text := by
    rintro rfl
    exact htext (by simp [toList_draftName])
  refine isName_iff.2 ⟨hne (by decide), hne (by decide), hne (by decide), ?_⟩
  rw [toList_draftName, List.mem_append, not_or]
  exact ⟨hslash, not_mem_draftEnd (by decide) (by decide)⟩

theorem draftName_inj {i j : Nat} (h : draftName d i = draftName d j) : i = j := by
  have hdigits : Nat.toDigits 10 i = Nat.toDigits 10 j := by
    have hlist := congrArg String.toList h
    rw [toList_draftName, toList_draftName] at hlist
    exact List.append_cancel_left (List.append_cancel_left hlist)
  calc
    i = Nat.ofDigitChars 10 (Nat.toDigits 10 i) 0 := Nat.ofDigitChars_ten_toDigits.symm
    _ = Nat.ofDigitChars 10 (Nat.toDigits 10 j) 0 := by rw [hdigits]
    _ = j := Nat.ofDigitChars_ten_toDigits

theorem utf8ByteSize_le_draftName (name : String) (n : Nat) :
    name.utf8ByteSize ≤ (draftName name n).utf8ByteSize := by
  rw [draftName, String.utf8ByteSize_append, String.utf8ByteSize_append, Nat.add_assoc]
  exact Nat.le_add_right _ _

theorem pathFault?_join_of_draft (hd : isName d = true)
    (hfault : pathFault? (p.join (draftName d n)) = none) : pathFault? (p.join d) = none := by
  obtain ⟨sep, -, hjoin⟩ := p.exists_separator
  have hne : d ≠ "" := (isName_iff.1 hd).1
  refine pathFault?_of_isPrefix ?_ (by simp [hjoin hd, hne]) hfault
  simp only [hjoin hd, hjoin (isName_draftName hd n), String.toList_append, toList_draftName]
  rw [← List.append_assoc (p.text.toList ++ sep.toList)]
  exact List.prefix_append _ _

/-- Where a file may be, only the length of its draft can be wrong. -/
theorem pathFault?_draft (hd : isName d = true) (hfault : pathFault? (p.join d) = none)
    (hdraft : pathFault? (p.join (draftName d n)) = some e) : e = .nameTooLong := by
  obtain ⟨sep, -, hjoin⟩ := p.exists_separator
  obtain ⟨hzero, -, -⟩ := pathFault?_eq_none_iff.1 hfault
  have htext : (p.join (draftName d n)).text.isEmpty = false := by
    have hne : draftName d n ≠ "" := (isName_iff.1 (isName_draftName hd n)).1
    simp [hjoin (isName_draftName hd n), hne]
  have hzero' : '\x00' ∉ (p.join (draftName d n)).text.toList := by
    rw [hjoin hd, String.toList_append] at hzero
    rw [hjoin (isName_draftName hd n), String.toList_append, toList_draftName,
      ← List.append_assoc, List.mem_append, not_or]
    exact ⟨hzero, not_mem_draftEnd (by decide) (by decide)⟩
  unfold pathFault? at hdraft
  rw [if_neg (by simpa using hzero'), htext, if_neg Bool.false_ne_true] at hdraft
  split at hdraft
  · -- Only the length is new; the draft has no characters that a path must not have.
    cases hdraft
    rfl
  · cases hdraft

/-! ### Free numbers -/

theorem spot_join_eq_ok (hs : isName s = true) (hspot : tree.spot (p.join s) = .ok location) :
    pathFault? (p.join s) = none ∧ s.utf8ByteSize ≤ maxName ∧
      ∃ here left, tree.descend maxLinks (tree.startOf p) (namesOf p) = .ok (here, left) ∧
        location = here ++ [s] := by
  rw [(names_join hs).spot_eq, startOf_join tree hs] at hspot
  cases hfault : pathFault? (p.join s) with
  | some e => simp [hfault] at hspot
  | none =>
    cases hd : tree.descend maxLinks (tree.startOf p) (namesOf p) with
    | error e => simp [hfault, hd] at hspot
    | ok there =>
      simp only [hfault, hd] at hspot
      split at hspot
      · cases hspot
      · rename_i hshort
        cases hspot
        exact ⟨rfl, Nat.not_lt.1 hshort, there.1, there.2, rfl, rfl⟩

theorem spot_join_of_directory {here : Location} (hs : isName s = true)
    (hd : tree.descend maxLinks (tree.startOf p) (namesOf p) = .ok (here, links))
    (hfault : pathFault? (p.join s) = none) (hshort : s.utf8ByteSize ≤ maxName) :
    tree.spot (p.join s) = .ok (here ++ [s]) := by
  rw [(names_join hs).spot_eq, startOf_join tree hs, hfault, hd]
  simp [Nat.not_lt.2 hshort]

/-- In a directory only the length of a draft can be wrong. -/
theorem eq_nameTooLong_of_spot_draft {here : Location} (hd : isName d = true)
    (hfault : pathFault? (p.join d) = none)
    (hlead : tree.descend maxLinks (tree.startOf p) (namesOf p) = .ok (here, links))
    (hspot : tree.spot (p.join (draftName d n)) = .error e) : e = .nameTooLong := by
  rw [(names_join (isName_draftName hd n)).spot_eq, startOf_join tree (isName_draftName hd n),
    hlead] at hspot
  cases hdraft : pathFault? (p.join (draftName d n)) with
  | some e' =>
    rw [hdraft] at hspot
    -- The draft is in the directory of the name, so that the path was refused for its length.
    cases hspot
    exact pathFault?_draft hd hfault hdraft
  | none =>
    rw [hdraft] at hspot
    dsimp only at hspot
    split at hspot
    · cases hspot
      rfl
    · cases hspot

/-- Something has the name of a draft. -/
def Taken (tree : FileTree) (parent : Path) (name : String) (n : Nat) : Prop :=
  ∃ location, tree.spot (parent.join (draftName name n)) = .ok location ∧
    tree.nodes[location]? ≠ none

theorem Taken.eq_of_descend {here : Location} (h : Taken tree parent name n)
    (hname : isName name = true)
    (hd : tree.descend maxLinks (tree.startOf parent) (namesOf parent) = .ok (here, links)) :
    tree.nodes[here ++ [draftName name n]]? ≠ none := by
  obtain ⟨location, hspot, hnode⟩ := h
  obtain ⟨-, -, here', left, hd', rfl⟩ := spot_join_eq_ok (isName_draftName hname n) hspot
  cases hd.symm.trans hd'
  exact hnode

/-- There are no more drafts than nodes. -/
theorem le_size_of_drafts {here : Location}
    (h : ∀ i < n, tree.nodes[here ++ [draftName name i]]? ≠ none) : n ≤ tree.nodes.size := by
  have hnodup : ((List.range n).map fun i => here ++ [draftName name i]).Nodup := by
    refine List.Pairwise.map _ (fun i j hne heq => hne ?_) List.nodup_range
    exact draftName_inj (List.singleton_inj.1 (List.append_cancel_left heq))
  have hsubset : ((List.range n).map fun i => here ++ [draftName name i]) ⊆ tree.nodes.keys := by
    intro l hl
    obtain ⟨i, hi, rfl⟩ := List.mem_map.1 hl
    rw [Std.ExtTreeMap.mem_keys, Std.ExtTreeMap.mem_iff_isSome_getElem?]
    exact Option.isSome_iff_ne_none.2 (h i (List.mem_range.1 hi))
  have hlength := (List.subperm_of_subset hnodup hsubset).length_le
  rwa [List.length_map, List.length_range, Std.ExtTreeMap.length_keys] at hlength

theorem exists_not_taken (tree : FileTree) (parent : Path) (hname : isName name = true) :
    ∃ i ≤ tree.nodes.size, ¬ Taken tree parent name i := by
  refine Classical.byContradiction fun hall => ?_
  have htaken : ∀ i < tree.nodes.size + 1, Taken tree parent name i := fun i hi =>
    Classical.byContradiction fun hfree => hall ⟨i, Nat.lt_succ_iff.1 hi, hfree⟩
  obtain ⟨first, hfirst, -⟩ := htaken 0 (Nat.succ_pos _)
  obtain ⟨-, -, here, left, hd, -⟩ := spot_join_eq_ok (isName_draftName hname 0) hfirst
  have hle := le_size_of_drafts fun i hi => (htaken i hi).eq_of_descend hname hd
  omega

/-- A draft counts as free if it is not there, also if it cannot be. -/
theorem taken_iff (tree : FileTree) (parent : Path) (hname : isName name = true) (n : Nat) :
    Taken tree parent name n ↔
      (match tree.locate false (parent.join (draftName name n)) with
        | .ok place => place.node.isNone
        | .error _ => true) = false := by
  have hlocate := (names_join (p := parent) (isName_draftName hname n)).locate_eq tree
  unfold Taken
  cases hspot : tree.spot (parent.join (draftName name n)) with
  | error e => simp [hlocate, hspot, Except.map]
  | ok location => simp [hlocate, hspot, Except.map]

/-- The first draft that is free is the one to be written. -/
theorem exists_unusedName (tree : FileTree) (parent : Path) (hname : isName name = true) :
    ∃ n, tree.unusedName parent name = draftName name n ∧ ¬ Taken tree parent name n ∧
      ∀ i < n, Taken tree parent name i := by
  obtain ⟨free, hle, hfree⟩ := exists_not_taken tree parent hname
  simp only [taken_iff tree parent hname, Bool.not_eq_false] at hfree ⊢
  rw [unusedName, List.find?_map]
  cases hfind : (List.range (tree.nodes.size + 1)).find? ((fun candidate =>
      match tree.locate false (parent.join candidate) with
      | .ok place => place.node.isNone
      | .error _ => true) ∘ draftName name) with
  | none =>
    -- More names are tried than there are files, so that one of them is free.
    have hnone := List.find?_range_eq_none.1 hfind free (Nat.lt_succ_iff.2 hle)
    simp_all
  | some n =>
    obtain ⟨hn, -, hless⟩ := List.find?_range_eq_some.1 hfind
    refine ⟨n, rfl, hn, fun i hi => ?_⟩
    simpa using hless i hi

/-! ### Writing through a draft -/

/-- If its directory has been made, a file is written unless there can be no draft of it. -/
theorem writeThrough_made_cases {place : Place} (hname : isName name = true)
    (hmade : makeDirectories parent tree = (.ok (), made))
    (hentry : made.entry path = .ok (some place)) (hslash : place.slash = false)
    (hdir : place.node ≠ some .directory) (bytes : Bytes) :
    ∃ n, (∀ i < n, Taken made parent name i) ∧
      ((∃ e, made.spot (parent.join (draftName name n)) = .error e ∧
        writeThrough parent name path bytes tree = (.error e, made)) ∨
      (∃ location, made.spot (parent.join (draftName name n)) = .ok location) ∧
        writeThrough parent name path bytes tree = (.ok (), { made with
          nodes := made.nodes.insert place.location (.file (.ofBytes bytes)) })) := by
  obtain ⟨n, hunused, hfree, hless⟩ := exists_unusedName made parent hname
  refine ⟨n, hless, ?_⟩
  have hdraft := (names_join (p := parent) (isName_draftName hname n)).entry_eq made
  cases hspot : made.spot (parent.join (draftName name n)) with
  | error e =>
    rw [hspot, Except.map, ← hunused] at hdraft
    exact .inl ⟨e, rfl, writeThrough_of_no_draft hmade hdraft bytes⟩
  | ok location =>
    -- The name was chosen because nothing has it.
    have hnone : made.nodes[location]? = none :=
      Classical.byContradiction fun hnode => hfree ⟨location, hspot, hnode⟩
    rw [hspot, Except.map, hnone, ← hunused] at hdraft
    exact .inr ⟨⟨location, rfl⟩, writeThrough_of_made hmade hdraft hentry hslash hdir bytes⟩

/-- Below the root a file is written where nothing is in the way, unless its draft is too long. -/
theorem LeadsTo.writeThrough_cases (h : LeadsTo root ds parent)
    (hroot : tree.descend maxLinks (tree.startOf root) (namesOf root) = .ok (base, links))
    (hfree : tree.LinkFree base) (hds : ∀ d ∈ ds, isName d = true) (hd : isName d = true)
    (hparent : pathFault? parent = none) (hjoin : pathFault? (parent.join d) = none)
    (hpath : pathFault? ((ds.foldl Path.join root).join d) = none)
    (hshort : d.utf8ByteSize ≤ maxName) (hpass : IsPassable base ds tree)
    (hplace : tree.nodes[base ++ (ds ++ [d])]? ≠ some .directory) (bytes : Bytes) :
    ∃ n, (∀ i < n, tree.nodes[base ++ (ds ++ [draftName d i])]? ≠ none) ∧
      ((∃ tree', writeThrough parent d ((ds.foldl Path.join root).join d) bytes tree =
        (.ok (), tree')) ∨
      (∃ tree', writeThrough parent d ((ds.foldl Path.join root).join d) bytes tree =
        (.error .nameTooLong, tree')) ∧
        ¬ (pathFault? (parent.join (draftName d n)) = none ∧
          (draftName d n).utf8ByteSize ≤ maxName)) := by
  obtain ⟨r, made, hmake, hgains, hok⟩ := h.makeDirectories_cases hroot hfree hds
  obtain ⟨rfl, hlead⟩ := hok (fun _ => hparent) hpass
  have hroot' : made.descend maxLinks (made.startOf root) (namesOf root) = .ok (base, links) := by
    rw [hgains.keeps.startOf_eq]
    exact hgains.keeps.descend hroot
  have hway : made.descend links base ds = .ok (base ++ ds, links) := by
    rw [h.descend_eq, descend_append, hroot'] at hlead
    exact hlead
  have hentry := (names_foldl_join root hds hd).entry_eq made
  rw [spot_join_of_descend hroot' hds hd hpath hway hshort, Except.map] at hentry
  rw [← hgains.getElem?_concat] at hplace
  obtain ⟨n, htaken, hcases⟩ := writeThrough_made_cases hd hmake hentry rfl hplace bytes
  refine ⟨n, fun i hi => ?_, ?_⟩
  · -- Drafts that are in the way now were in the way before the directories were made.
    have hnode := (htaken i hi).eq_of_descend hd hlead
    rwa [List.append_assoc, hgains.getElem?_concat] at hnode
  · rcases hcases with ⟨e, hspot, hfail⟩ | ⟨-, hdone⟩
    · refine .inr ⟨⟨made, ?_⟩, fun hfits => ?_⟩
      · rw [hfail, eq_nameTooLong_of_spot_draft hd hjoin hlead hspot]
      · rw [spot_join_of_directory (isName_draftName hd n) hlead hfits.1 hfits.2] at hspot
        cases hspot
    · exact .inl ⟨_, hdone⟩

end JvmThrows.FileTree
