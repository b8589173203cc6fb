import JvmThrows.Cache.Directory
import JvmThrows.Proofs.DocumentPaths
import JvmThrows.Proofs.Documents
import JvmThrows.Proofs.FileChanges

/-!
# Documents in the places that a store has for them

Runs of operations on a store and their replies (`Store.replies`). Then a store in a directory:
below a root without links, a document and the file to lock can only be in their own places
(`eq_of_spot_documentPath`), and what can be read and removed is a file that is there
(`find_documentPath_eq_file_iff`).
-/

namespace JvmThrows

open Cache FileTree

/-! ### Runs of operations -/

/-- One use of a store. -/
inductive StoreOp where
  | get (c : String)
  | contains (c : String)
  | put (c : String) (entries : Entries)
  | merge (c : String) (entries : Entries)
  | remove (c : String)

/-- The class that is named. -/
def StoreOp.className : StoreOp → String
  | get c | contains c | put c _ | merge c _ | remove c => c

/-- What a store answers. -/
inductive Reply where
  | entries (found : Option Entries)
  | held (answer : Bool)
  | done (result : Except CacheError Unit)

/-- Nothing has failed. -/
def Reply.Succeeds : Reply → Prop
  | entries _ | held _ => True
  | done result => result = .ok ()

theorem Reply.succeeds_done {result : Except CacheError Unit} :
    (done result).Succeeds ↔ result = .ok () := Iff.rfl

namespace Store

variable {σ : Type} (store : Store σ)

def reply : StoreOp → StateM σ Reply
  | .get c => .entries <$> store.get c
  | .contains c => .held <$> store.contains c
  | .put c entries => .done <$> (store.put c entries).run
  | .merge c entries => .done <$> (store.merge c entries).run
  | .remove c => .done <$> (store.remove c).run

section

variable (c : String) (entries : Entries) (s : σ)

theorem reply_get : store.reply (.get c) s = (.entries (store.get c s).1, (store.get c s).2) := rfl

theorem reply_contains :
    store.reply (.contains c) s = (.held (store.contains c s).1, (store.contains c s).2) := rfl

theorem reply_put :
    store.reply (.put c entries) s = (.done (store.put c entries s).1, (store.put c entries s).2) :=
  rfl

theorem reply_merge :
    store.reply (.merge c entries) s =
      (.done (store.merge c entries s).1, (store.merge c entries s).2) := rfl

theorem reply_remove :
    store.reply (.remove c) s = (.done (store.remove c s).1, (store.remove c s).2) := rfl

end

/-- The answers to operations one after the other. -/
def replies (ops : List StoreOp) : StateM σ (List Reply) := ops.mapM store.reply

theorem replies_cons (op : StoreOp) (ops : List StoreOp) (s : σ) :
    store.replies (op :: ops) s =
      ((store.reply op s).1 :: (store.replies ops (store.reply op s).2).1,
        (store.replies ops (store.reply op s).2).2) := by
  rw [replies, List.mapM_cons]
  rfl

end Store

namespace Cache.Directory

variable {root : Path} {base : Location} {links : Nat} {memory memory' : Memory}
  {tree tree' : FileTree} {c k : String} {es : Entries}

theorem attempt_eq_ok {α : Type} {run : Files α} {a : α} :
    attempt run tree = (.ok a, tree') ↔ run tree = (.ok a, tree') := by
  unfold attempt
  rcases run tree with ⟨e | b, made⟩
  · exact ⟨nofun, nofun⟩
  · constructor <;> rintro ⟨⟩ <;> rfl

theorem attempt_eq_error {α : Type} {run : Files α} {e : CacheError} :
    attempt run tree = (.error e, tree') ↔ ∃ cause, e = .file cause ∧
      run tree = (.error cause, tree') := by
  unfold attempt
  rcases run tree with ⟨cause | b, made⟩
  · constructor
    · rintro ⟨⟩
      exact ⟨cause, rfl, rfl⟩
    · rintro ⟨_, rfl, ⟨⟩⟩
      rfl
  · exact ⟨nofun, by rintro ⟨_, -, ⟨⟩⟩⟩

/-- The document of a key as a file. -/
def rendered (k : String) (es : Entries) : Content :=
  .ofBytes (Document.ofEntries k es).render.toUTF8.toList

theorem size_rendered (k : String) (es : Entries) :
    (rendered k es).size = (Document.ofEntries k es).render.utf8ByteSize := by
  simp only [rendered, Content.ofBytes, Content.size, Utf8.toList_toUTF8, Utf8.length_bytes]
  simp

/-! ### Places below the root -/

theorem readDocument_of_file {path : Path} {content : Content}
    (hfind : tree.find false path = .ok (.file content)) (hsize : content.size ≤ maxDocumentSize) :
    readDocument path tree = (some content, tree) := by
  simp [readDocument, hfind, Nat.not_lt.2 hsize]

section

variable (hroot : tree.descend maxLinks (tree.startOf root) (namesOf root) = .ok (base, links))
  (hfree : tree.LinkFree base)
include hroot hfree

/-- A document can only be in its own place. -/
theorem eq_of_spot_documentPath {location : Location}
    (hspot : tree.spot (documentPath root c) = .ok location) :
    location = base ++ documentNames (key c) := by
  have hfront : tree.descend maxLinks (tree.startOf (documentPath root c)) (namesOf root) =
      .ok (base, links) := by
    rw [startOf_documentPath]
    exact hroot
  exact hfree.spot_eq (names_documentPath root c) hfront
    (isName_directoryNames_key c) hspot

/-- What is found is a file if there is one in the place of the document and the way there is
open. -/
theorem find_documentPath_eq_file_iff {content : Content} :
    tree.find false (documentPath root c) = .ok (.file content) ↔
      tree.spot (documentPath root c) = .ok (base ++ documentNames (key c)) ∧
        tree.nodes[base ++ documentNames (key c)]? = some (.file content) := by
  rw [(names_documentPath root c).find_eq]
  cases hspot : tree.spot (documentPath root c) with
  | error e => exact ⟨nofun, nofun⟩
  | ok location =>
    obtain rfl := eq_of_spot_documentPath hroot hfree hspot
    cases hnode : tree.nodes[base ++ documentNames (key c)]? with
    | none => simp [bind, Except.bind, hnode]
    | some node => simp [bind, Except.bind, hnode]

theorem removeFile_of_find {content : Content}
    (hfind : tree.find false (documentPath root c) = .ok (.file content)) :
    removeFile (documentPath root c) tree =
      (.ok (), { tree with nodes := tree.nodes.erase (base ++ documentNames (key c)) }) := by
  obtain ⟨hspot, hnode⟩ := (find_documentPath_eq_file_iff hroot hfree).1 hfind
  have hentry := (names_documentPath root c).entry_eq tree
  rw [hspot, Except.map, hnode] at hentry
  exact removeFile_of_file hentry

/-- Only files can be removed, since there are no links. -/
theorem removeFile_of_not_file
    (hnone : ∀ content, tree.find false (documentPath root c) ≠ .ok (.file content)) :
    ∃ e, removeFile (documentPath root c) tree = (.error e, tree) := by
  have hentry := (names_documentPath root c).entry_eq tree
  cases hspot : tree.spot (documentPath root c) with
  | error e =>
    -- What cannot be reached is not removed either.
    rw [hspot] at hentry
    exact ⟨e, removeFile_of_error hentry⟩
  | ok location =>
    obtain rfl := eq_of_spot_documentPath hroot hfree hspot
    rw [hspot, Except.map] at hentry
    rcases hnode : tree.nodes[base ++ documentNames (key c)]? with - | (content | - | target)
    · rw [hnode] at hentry
      exact ⟨_, removeFile_of_none hentry⟩
    · -- The node would be the document.
      exact absurd ((find_documentPath_eq_file_iff hroot hfree).2 ⟨hspot, hnode⟩) (hnone content)
    · rw [hnode] at hentry
      exact ⟨_, removeFile_of_directory hentry⟩
    · exact absurd hnode (hfree.ne_link (documentNames_ne_nil _) target)

/-- Without a file nothing is read, and nothing can be discarded. -/
theorem readDocument_of_not_file
    (hnone : ∀ content, tree.find false (documentPath root c) ≠ .ok (.file content)) :
    readDocument (documentPath root c) tree = (none, tree) := by
  obtain ⟨e, hremove⟩ := removeFile_of_not_file hroot hfree hnone
  unfold readDocument
  split
  · rfl
  · rename_i content hfind
    exact absurd hfind (hnone content)
  · rw [discard, hremove]

/-- The file to lock is made in its own place. -/
theorem openFile_lockPath_eq_ok (hopen : openFile (lockPath root) tree = (.ok (), tree')) :
    tree' = tree ∨ tree.nodes[base ++ [".lock"]]? = none ∧
      tree' = { tree with
        nodes := tree.nodes.insert (base ++ [".lock"]) (.file (.ofBytes [])) } := by
  have hname : isName ".lock" = true := by decide
  have hpath : Names (lockPath root) (namesOf root ++ []) ".lock" := by
    rw [List.append_nil]
    exact names_join hname
  have hfront : tree.descend maxLinks (tree.startOf (lockPath root)) (namesOf root) =
      .ok (base, links) := by
    rw [lockPath, startOf_join tree hname]
    exact hroot
  have hspot {location : Location} (hl : tree.spot (lockPath root) = .ok location) :
      location = base ++ [".lock"] := hfree.spot_eq hpath hfront (by simp) hl
  obtain ⟨place, hplace, hcases⟩ := openFile_eq_ok hopen
  rw [hpath.locateAny_eq tree fun l target hl hlink =>
    absurd (hspot hl ▸ hlink) (hfree ".lock" [] target)] at hplace
  cases hl : tree.spot (lockPath root) with
  | error e =>
    -- A lock that was opened is somewhere.
    rw [hl] at hplace
    cases hplace
  | ok location =>
    obtain rfl := hspot hl
    rw [hl] at hplace
    cases hplace
    exact hcases

end

theorem store_put : (store root).put = Directory.put root := by rw [store]

theorem store_merge : (store root).merge = Directory.merge root := by rw [store]

theorem store_remove : (store root).remove = Directory.remove root := by rw [store]

/-! ### A directory -/

/-- A tree with nothing but an empty directory. -/
def emptyCache : FileTree := ⟨(∅ : Std.ExtTreeMap Location Node).insert ["c"] .directory, []⟩

def outerEntries : Entries := (∅ : Entries).insert ⟨"B", "f", "()V"⟩ (.ofList ["x.E"])

section

variable {tree : FileTree} (hroot : tree.nodes[["c"]]? = some .directory)
include hroot

theorem descend_cache : tree.descend maxLinks [] ["c"] = .ok (["c"], maxLinks) := by
  have hshort : ¬ maxName < "c".utf8ByteSize := by decide
  simp [descend, hshort, hroot]

theorem descend_cacheRoot :
    tree.descend maxLinks (tree.startOf ⟨"/c"⟩) (namesOf ⟨"/c"⟩) = .ok (["c"], maxLinks) := by
  have hnames : namesOf ⟨"/c"⟩ = ["c"] := by decide
  have habsolute : (Path.mk "/c").isAbsolute = true := by decide
  rw [startOf, if_pos habsolute, hnames]
  exact descend_cache hroot

theorem spot_in_cache {path : Path} {name : String} (hpath : Names path ["c"] name)
    (habsolute : path.isAbsolute = true) (hfault : pathFault? path = none)
    (hshort : name.utf8ByteSize ≤ maxName) : tree.spot path = .ok ["c", name] := by
  rw [hpath.spot_eq, hfault, startOf, if_pos habsolute, descend_cache hroot]
  simp [Nat.not_lt.2 hshort]

end

end Cache.Directory

end JvmThrows
