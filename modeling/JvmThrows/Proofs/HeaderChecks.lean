import JvmThrows.Proofs.DirectoryStore

/-!
# Looking for a document and reading it

Whether a class has a document is decided from its header alone: the version, and that the class is
named. Reading also decodes the class and the methods. `HasHeader` and `HasBody` say what the two
look for in the value that stands in the place of the document (`stored?`), whatever that is. A
document that can be read is always found, and looking for it leaves it where it is; what is found
can be read if it has a body, too (`contains_iff_get`).

A document may also be an array of its fields in order. The header has two fields, so that an array
of three is none, though it may be a document; this case is left out.
-/

namespace JvmThrows

namespace Json

variable {fields : List (String × Json)} {name : String} {value : Json}

/-- A name occurs once, with a value. -/
def Once (fields : List (String × Json)) (name : String) (value : Json) : Prop :=
  fields.filter (fun f => f.1 == name) = [(name, value)]

/-- A name does not occur. -/
def Absent (fields : List (String × Json)) (name : String) : Prop := ∀ f ∈ fields, f.1 ≠ name

theorem field?_eq_none_iff : field? fields name = some none ↔ Absent fields name := by
  have hfilter : fields.filter (fun f => f.1 == name) = [] ↔ Absent fields name := by
    simp [List.filter_eq_nil_iff, Absent]
  rw [← hfilter]
  unfold field?
  split
  · rename_i hnone
    exact iff_of_true rfl hnone
  · rename_i hone
    simp [hone]
  · rename_i hnone _
    exact iff_of_false nofun hnone

theorem field?_eq_some_iff : field? fields name = some (some value) ↔ Once fields name value := by
  unfold field? Once
  split
  · rename_i hnone
    simp [hnone]
  · rename_i other found hfound
    -- What is found goes by the name that was looked for.
    have hname : other = name := by
      have hmem : (other, found) ∈ fields.filter fun f => f.1 == name := by simp [hfound]
      simpa using (List.mem_filter.1 hmem).2
    simp [hfound, hname]
  · rename_i hmany
    exact iff_of_false nofun (hmany name value)

theorem record?_pair {a b : String} {x y : Option Json} :
    record? [a, b] (.object fields) = some [x, y] ↔
      field? fields a = some x ∧ field? fields b = some y := by
  cases ha : field? fields a <;> cases hb : field? fields b <;> simp [record?, ha, hb]

theorem record?_triple {a b c : String} {x y z : Option Json} :
    record? [a, b, c] (.object fields) = some [x, y, z] ↔
      field? fields a = some x ∧ field? fields b = some y ∧ field? fields c = some z := by
  cases ha : field? fields a <;> cases hb : field? fields b <;> cases hc : field? fields c <;>
    simp [record?, ha, hb, hc]

theorem natBelow?_eq_some_iff {bound n : Nat} (h : n < bound) :
    natBelow? bound value = some n ↔ value = .ofNat n := by
  constructor
  · intro hread
    unfold natBelow? at hread
    split at hread
    · rename_i number
      -- A number in the bounds is written with digits only.
      obtain ⟨hnatural, -⟩ := Option.filter_eq_some_iff.1 hread
      obtain ⟨negative, whole, fraction, exponent⟩ := number
      unfold Number.natural? at hnatural
      split at hnatural
      · cases hnatural
      · cases hnatural
        simp_all [Json.ofNat, Number.ofNat]
    · cases hread
  · rintro rfl
    exact natBelow?_ofNat h

theorem text?_eq_some_iff {text : String} : text? value = some text ↔ value = .string text := by
  cases value <;> simp [text?]

theorem isSome_list?_iff {α : Type} {read? : Json → Option α} :
    (list? read? value).isSome ↔ ∃ items, value = .array items ∧ ∀ i ∈ items, (read? i).isSome := by
  have hmapM (items : List Json) :
      (items.mapM read?).isSome ↔ ∀ i ∈ items, (read? i).isSome := by
    induction items with
    | nil => simp
    | cons item items ih =>
      cases hread : read? item with
      | none => simp [List.mapM_cons, hread]
      | some a =>
        -- All items have to be read.
        cases hrest : items.mapM read? with
        | none => simp_all [List.mapM_cons]
        | some rest => simp_all [List.mapM_cons]
  constructor
  · intro h
    unfold list? at h
    split at h
    · exact ⟨_, rfl, (hmapM _).1 h⟩
    · cases h
  · rintro ⟨items, rfl, hitems⟩
    exact (hmapM items).2 hitems

end Json

namespace Cache

open Json

/-! ### What is looked for -/

namespace Document

variable {json : Json} {fields : List (String × Json)}

/-- A document of the version in use, which names its class in any way. -/
inductive HasHeader : Json → Prop
  | object {fields : List (String × Json)} {key : Json} :
    Once fields "schema_version" (.ofNat schemaVersion) → Once fields "class" key →
      HasHeader (.object fields)
  | array (key : Json) : HasHeader (.array [.ofNat schemaVersion, key])

/-- The class is a text, and the methods, if there are any, are records. -/
inductive HasBody : Json → Prop
  | bare {fields : List (String × Json)} {key : String} :
    Once fields "class" (.string key) → Absent fields "methods" → HasBody (.object fields)
  | object {fields : List (String × Json)} {key : String} {items : List Json} :
    Once fields "class" (.string key) → Once fields "methods" (.array items) →
      (∀ i ∈ items, (MethodRecord.ofJson? i).isSome) → HasBody (.object fields)
  | array (version : Json) (key : String) : HasBody (.array [version, .string key])

/-- A document in the form of an array, with all its fields. -/
def IsTriple (json : Json) : Prop := ∃ version key methods, json = .array [version, key, methods]

/-- What is read from a value. -/
def decode? (json : Json) : Option Document :=
  (ofJson? json).filter fun d => d.version = schemaVersion

theorem schemaVersion_lt : schemaVersion < versionBound := by decide

/-- A header is read from its two fields. -/
theorem headerVersion?_iff_record? :
    headerVersion? json = some schemaVersion ↔
      ∃ key, record? ["schema_version", "class"] json =
        some [some (.ofNat schemaVersion), some key] := by
  unfold headerVersion?
  cases hrecord : record? ["schema_version", "class"] json with
  | none => simp
  | some values =>
    match values with
    | [version, key] =>
      cases key with
      | none => simp
      -- The key is not looked into.
      | some key =>
        cases version <;> simp [required?, natBelow?_eq_some_iff schemaVersion_lt]
    | [] | [_] | _ :: _ :: _ :: _ => simp

/-- A document is read from its three fields. -/
theorem exists_ofJson?_iff_record? :
    (∃ d, ofJson? json = some d ∧ d.version = schemaVersion) ↔
      ∃ key methods, record? ["schema_version", "class", "methods"] json =
          some [some (.ofNat schemaVersion), some (.string key), methods] ∧
        (default? [] (list? MethodRecord.ofJson?) methods).isSome := by
  have hread (version key methods : Option Json) :
      (∃ d : Document, (do
        return ⟨← required? (natBelow? versionBound) version, ← required? text? key,
          ← default? [] (list? MethodRecord.ofJson?) methods⟩) = some d ∧
        d.version = schemaVersion) ↔
      version = some (.ofNat schemaVersion) ∧ (∃ text, key = some (.string text)) ∧
        (default? [] (list? MethodRecord.ofJson?) methods).isSome := by
    constructor
    · rintro ⟨d, hd, hversion⟩
      obtain ⟨n, hn, hd⟩ := Option.bind_eq_some_iff.1 hd
      obtain ⟨text, htext, hd⟩ := Option.bind_eq_some_iff.1 hd
      obtain ⟨records, hrecords, hd⟩ := Option.bind_eq_some_iff.1 hd
      cases hd
      obtain rfl : n = schemaVersion := hversion
      obtain ⟨number, rfl, hnumber⟩ := Option.bind_eq_some_iff.1 hn
      obtain ⟨name, rfl, hname⟩ := Option.bind_eq_some_iff.1 htext
      obtain rfl := (natBelow?_eq_some_iff schemaVersion_lt).1 hnumber
      obtain rfl := text?_eq_some_iff.1 hname
      exact ⟨rfl, ⟨text, rfl⟩, by rw [hrecords, Option.isSome_some]⟩
    · -- The list of methods may be missing, which counts as an empty one.
      rintro ⟨rfl, ⟨text, rfl⟩, hmethods⟩
      obtain ⟨records, hrecords⟩ := Option.isSome_iff_exists.1 hmethods
      refine ⟨⟨schemaVersion, text, records⟩, ?_, rfl⟩
      simp [required?, natBelow?_ofNat schemaVersion_lt, text?, hrecords]
  unfold ofJson?
  cases hrecord : record? ["schema_version", "class", "methods"] json with
  | none => simp
  | some values =>
    rcases values with _ | ⟨version, _ | ⟨key, _ | ⟨methods, _ | ⟨other, others⟩⟩⟩⟩
    case cons.cons.cons.nil =>
      refine (hread version key methods).trans ⟨?_, ?_⟩
      · rintro ⟨rfl, ⟨text, rfl⟩, hmethods⟩
        exact ⟨text, methods, rfl, hmethods⟩
      · rintro ⟨text, methods', hvalues, hmethods⟩
        cases hvalues
        exact ⟨rfl, ⟨text, rfl⟩, hmethods⟩
    all_goals simp

/-- The check of a header finds what it is for. -/
theorem headerVersion?_eq_some_iff : headerVersion? json = some schemaVersion ↔ HasHeader json := by
  rw [headerVersion?_iff_record?]
  constructor
  · rintro ⟨key, hrecord⟩
    cases json with
    | object fields =>
      obtain ⟨hversion, hkey⟩ := record?_pair.1 hrecord
      exact .object (field?_eq_some_iff.1 hversion) (field?_eq_some_iff.1 hkey)
    | array items =>
      -- An array has its parts by position.
      match items with
      | [version, name] =>
        obtain ⟨rfl, rfl⟩ : version = .ofNat schemaVersion ∧ name = key := by
          simpa [record?] using hrecord
        exact .array name
      | [] | [_] | _ :: _ :: _ :: _ => simp [record?] at hrecord
    | _ => cases hrecord
  · intro h
    cases h with
    | object hversion hkey =>
      exact ⟨_, record?_pair.2 ⟨field?_eq_some_iff.2 hversion, field?_eq_some_iff.2 hkey⟩⟩
    | array key => exact ⟨key, rfl⟩

/-- Whatever is read has a header and a body, unless it is an array of all fields. -/
theorem hasHeader_and_hasBody {d : Document} (hform : ¬ IsTriple json)
    (h : ofJson? json = some d) (hversion : d.version = schemaVersion) :
    HasHeader json ∧ HasBody json := by
  obtain ⟨key, methods, hrecord, hmethods⟩ := exists_ofJson?_iff_record?.1 ⟨d, h, hversion⟩
  cases json with
  | object fields =>
    obtain ⟨hversion, hkey, hlist⟩ := record?_triple.1 hrecord
    rw [field?_eq_some_iff] at hversion hkey
    refine ⟨.object hversion hkey, ?_⟩
    cases methods with
    -- Without a list of methods the body is empty.
    | none => exact .bare hkey (field?_eq_none_iff.1 hlist)
    | some value =>
      obtain ⟨items, rfl, hitems⟩ := isSome_list?_iff.1 hmethods
      exact .object hkey (field?_eq_some_iff.1 hlist) hitems
  | array items =>
    match items with
    | [version, name] =>
      obtain ⟨rfl, rfl, -⟩ : version = .ofNat schemaVersion ∧ name = .string key ∧ _ := by
        simpa [record?] using hrecord
      exact ⟨.array _, .array _ key⟩
    -- Three parts are the form that is left out.
    | [version, name, list] => exact absurd ⟨version, name, list, rfl⟩ hform
    | [] | [_] | _ :: _ :: _ :: _ :: _ => simp [record?] at hrecord
  | _ => cases hrecord

/-- What has a header and a body is read. -/
theorem exists_ofJson? (hheader : HasHeader json) (hbody : HasBody json) :
    ∃ d, ofJson? json = some d ∧ d.version = schemaVersion := by
  rw [exists_ofJson?_iff_record?]
  cases hbody with
  | bare hkey hnone =>
    obtain ⟨hversion, -⟩ := hheader
    exact ⟨_, none, record?_triple.2 ⟨field?_eq_some_iff.2 hversion, field?_eq_some_iff.2 hkey,
      field?_eq_none_iff.2 hnone⟩, rfl⟩
  | object hkey hlist hitems =>
    obtain ⟨hversion, -⟩ := hheader
    exact ⟨_, _, record?_triple.2 ⟨field?_eq_some_iff.2 hversion, field?_eq_some_iff.2 hkey,
      field?_eq_some_iff.2 hlist⟩, isSome_list?_iff.2 ⟨_, rfl, hitems⟩⟩
  | array version key =>
    obtain ⟨⟩ := hheader
    exact ⟨key, none, rfl, rfl⟩

theorem checkVersion_eq_ok_iff {version : Nat} :
    checkVersion version = .ok () ↔ version = schemaVersion := by
  unfold checkVersion
  split <;> simp_all

theorem checkHeader_eq_ok_iff {bytes : Bytes} :
    checkHeader bytes = .ok () ↔ ∃ json, parseBytes? bytes = some json ∧ HasHeader json := by
  simp only [← headerVersion?_eq_some_iff]
  unfold checkHeader
  cases hvalue : (parseBytes? bytes).bind headerVersion? with
  | none =>
    -- Bytes that are no value have no header.
    refine iff_of_false nofun ?_
    rintro ⟨json, hjson, hheader⟩
    simp [hjson, hheader] at hvalue
  | some version =>
    obtain ⟨json, hjson, hheader⟩ := Option.bind_eq_some_iff.1 hvalue
    simp [hjson, hheader, checkVersion_eq_ok_iff]

theorem ofBytes_eq_ok_iff {bytes : Bytes} {d : Document} :
    ofBytes bytes = .ok d ↔ ∃ json, parseBytes? bytes = some json ∧ decode? json = some d := by
  unfold ofBytes decode?
  cases hvalue : (parseBytes? bytes).bind ofJson? with
  | none =>
    refine iff_of_false nofun ?_
    rintro ⟨json, hjson, hd⟩
    have hread := (Option.filter_eq_some_iff.1 hd).1
    simp [hjson, hread] at hvalue
  | some d' =>
    obtain ⟨json, hjson, hread⟩ := Option.bind_eq_some_iff.1 hvalue
    have hversion : checkVersion d'.version = .ok () ↔ d'.version = schemaVersion :=
      checkVersion_eq_ok_iff
    cases hcheck : checkVersion d'.version with
    -- Another version is refused although the rest can be read.
    | error e => simp_all [Except.map, Option.filter]
    | ok => simp_all [Except.map, Option.filter]

end Document

/-! ### What is found and what is read -/

namespace Directory

open FileTree Document

variable {α : Type} {root path : Path} {c : String} {tree : FileTree}

/-- The value in the text of a document. -/
def valueOf (bytes : Bytes) : Except CacheError Json :=
  match parseBytes? bytes with
  | some json => .ok json
  | none => .error .malformed

/-- The value that stands in the place of a document; nothing if there is no file, or a file that is
too large, or that holds no value. -/
def stored? (path : Path) (tree : FileTree) : Option Json := (readAs valueOf path tree).1

/-- What is left when a document was refused: if something is in its place, that is discarded. -/
def refused (path : Path) (tree : FileTree) : FileTree :=
  match tree.find false path with
  | .ok _ => (discard path tree).2
  | .error _ => tree

/-- A file is looked at where it is; everything else is refused. -/
theorem readDocument_cases (path : Path) (tree : FileTree) :
    (∃ content, readDocument path tree = (some content, tree) ∧
      refused path tree = (discard path tree).2) ∨
    readDocument path tree = (none, refused path tree) := by
  unfold readDocument refused
  cases tree.find false path with
  | error e => exact .inr rfl
  | ok node =>
    cases node with
    | file content =>
      -- Only a file is read, and only if it is not too large.
      by_cases hsize : maxDocumentSize < content.size
      · exact .inr (by simp [hsize])
      · exact .inl ⟨content, by simp [hsize], rfl⟩
    | directory => exact .inr rfl
    | link target => exact .inr rfl

theorem readAs_of_refused {read : Bytes → Except CacheError α}
    (h : readDocument path tree = (none, refused path tree)) :
    readAs read path tree = (none, refused path tree) := by
  rw [readAs, bind_eq h]
  rfl

theorem readAs_of_content {read : Bytes → Except CacheError α} {content : Content}
    (h : readDocument path tree = (some content, tree))
    (hrefused : refused path tree = (discard path tree).2) :
    readAs read path tree =
      match reading read content with
      | .ok a => (some a, tree)
      | .error _ => (none, refused path tree) := by
  rw [readAs, bind_eq h, hrefused]
  dsimp only
  cases reading read content with
  | ok a => rfl
  | error e => rfl

/-- Any reader of values reads from a file what it reads from the value in it. -/
theorem reading_eq_ok_iff {read : Bytes → Except CacheError α} {decode : Json → Option α}
    (h : ∀ bytes a, read bytes = .ok a ↔
      ∃ json, parseBytes? bytes = some json ∧ decode json = some a) (content : Content) (a : α) :
    reading read content = .ok a ↔
      ∃ json, reading valueOf content = .ok json ∧ decode json = some a := by
  have hbytes (bytes : Bytes) :
      read bytes = .ok a ↔ ∃ json, valueOf bytes = .ok json ∧ decode json = some a := by
    rw [h]
    refine exists_congr fun json => and_congr_left fun _ => ?_
    unfold valueOf
    cases parseBytes? bytes <;> simp
  unfold reading
  split
  · exact hbytes _
  · exact iff_of_false nofun (by rintro ⟨_, ⟨⟩, -⟩)
  · exact hbytes _

/-- What is read is left in its place; if nothing is, its place is cleared. -/
theorem readAs_eq {read : Bytes → Except CacheError α} {decode : Json → Option α}
    (h : ∀ bytes a, read bytes = .ok a ↔
      ∃ json, parseBytes? bytes = some json ∧ decode json = some a) (path : Path)
    (tree : FileTree) :
    readAs read path tree =
      match (stored? path tree).bind decode with
      | some a => (some a, tree)
      | none => (none, refused path tree) := by
  unfold stored?
  rcases readDocument_cases path tree with ⟨content, hcontent, hrefused⟩ | hnone
  · rw [readAs_of_content hcontent hrefused, readAs_of_content hcontent hrefused]
    have hread := reading_eq_ok_iff h content
    cases hvalue : reading valueOf content with
    -- Bytes that are no value are not decoded either.
    | error e =>
      cases hresult : reading read content with
      | error e => rfl
      | ok a => simpa [hvalue] using (hread a).1 hresult
    | ok json =>
      simp only [hvalue, Except.ok.injEq, exists_eq_left'] at hread
      cases hresult : reading read content with
      | error e =>
        have hnone : decode json = none :=
          Option.eq_none_iff_forall_ne_some.2 fun a ha => by simpa [hresult] using (hread a).2 ha
        -- The value is there, but is not of the form that is asked for.
        simp [hnone]
      | ok a => simp [(hread a).1 hresult]
  · rw [readAs_of_refused hnone, readAs_of_refused hnone]
    rfl

/-- The document of a class has a header. -/
def IsFound (root : Path) (c : String) (tree : FileTree) : Prop :=
  ∃ json, stored? (documentPath root c) tree = some json ∧ HasHeader json

theorem contains_cases (root : Path) (c : String) (tree : FileTree) :
    IsFound root c tree ∧ contains root c tree = (true, tree) ∨
      ¬ IsFound root c tree ∧
        contains root c tree = (false, refused (documentPath root c) tree) := by
  classical
  have hheader (bytes : Bytes) (a : Unit) : checkHeader bytes = .ok a ↔
      ∃ json, parseBytes? bytes = some json ∧
        (if HasHeader json then some () else none) = some a := by
    cases a
    simp [checkHeader_eq_ok_iff]
  have hread := readAs_eq hheader (documentPath root c) tree
  by_cases hfound : IsFound root c tree
  · obtain ⟨json, hstored, hheader⟩ := hfound
    rw [hstored, Option.bind_some, if_pos hheader] at hread
    refine .inl ⟨⟨json, hstored, hheader⟩, ?_⟩
    rw [contains, bind_eq hread]
    rfl
  · -- Nothing is stored, or something without the header.
    have hnone : ((stored? (documentPath root c) tree).bind fun json =>
        if HasHeader json then some () else none) = none := by
      refine Option.bind_eq_none_iff.2 fun json hstored => if_neg fun hheader => ?_
      exact hfound ⟨json, hstored, hheader⟩
    rw [hnone] at hread
    refine .inr ⟨hfound, ?_⟩
    rw [contains, bind_eq hread]
    rfl

theorem get_cases (root : Path) (c : String) (tree : FileTree) :
    (∃ json d, stored? (documentPath root c) tree = some json ∧ decode? json = some d ∧
      get root c tree = (some d.entries, tree)) ∨
    (∀ json, stored? (documentPath root c) tree = some json → decode? json = none) ∧
      get root c tree = (none, refused (documentPath root c) tree) := by
  have hread := readAs_eq (fun _ _ => ofBytes_eq_ok_iff) (documentPath root c) tree
  cases hdecoded : (stored? (documentPath root c) tree).bind decode? with
  | some d =>
    obtain ⟨json, hstored, hd⟩ := Option.bind_eq_some_iff.1 hdecoded
    rw [hdecoded] at hread
    refine .inl ⟨json, d, hstored, hd, ?_⟩
    rw [get, bind_eq hread]
    rfl
  | none =>
    rw [hdecoded] at hread
    refine .inr ⟨fun json hstored => Option.bind_eq_none_iff.1 hdecoded json hstored, ?_⟩
    rw [get, bind_eq hread]
    rfl

theorem decode?_isSome_iff {json : Json} (hform : ¬ IsTriple json) :
    (decode? json).isSome ↔ HasHeader json ∧ HasBody json := by
  rw [Option.isSome_iff_exists]
  constructor
  · rintro ⟨d, hd⟩
    obtain ⟨hread, hversion⟩ := Option.filter_eq_some_iff.1 hd
    exact hasHeader_and_hasBody hform hread (by simpa using hversion)
  · rintro ⟨hheader, hbody⟩
    obtain ⟨d, hread, hversion⟩ := exists_ofJson? hheader hbody
    exact ⟨d, Option.filter_eq_some_iff.2 ⟨hread, by simpa using hversion⟩⟩

/-- **What can be read is found, and left in its place.** A class has a document exactly if there is
one with a header in its place; it can be read exactly if it is found and has a body. What is found
stays where it is, and where nothing is found, nothing is read and the same is cleared away. -/
theorem contains_iff_get (root : Path) (c : String) (tree : FileTree)
    (hform : ∀ json, stored? (documentPath root c) tree = some json → ¬ IsTriple json) :
    ((contains root c tree).1 = true ↔
      ∃ json, stored? (documentPath root c) tree = some json ∧ HasHeader json) ∧
    ((get root c tree).1.isSome ↔ (contains root c tree).1 = true ∧
      ∃ json, stored? (documentPath root c) tree = some json ∧ HasBody json) ∧
    ((contains root c tree).1 = true → (contains root c tree).2 = tree) ∧
    ((contains root c tree).1 = false → (contains root c tree).2 = (get root c tree).2) := by
  have hget : (get root c tree).1.isSome ↔
      ∃ json, stored? (documentPath root c) tree = some json ∧ HasHeader json ∧ HasBody json := by
    rcases get_cases root c tree with ⟨json, d, hstored, hd, hget⟩ | ⟨hnone, hget⟩
    · -- With the header and the body there, the document is read.
      have hparts := (decode?_isSome_iff (hform json hstored)).1 (by rw [hd, Option.isSome_some])
      exact iff_of_true (by rw [hget, Option.isSome_some]) ⟨json, hstored, hparts⟩
    · refine iff_of_false (by simp [hget]) ?_
      rintro ⟨json, hstored, hparts⟩
      have hsome := (decode?_isSome_iff (hform json hstored)).2 hparts
      rw [hnone json hstored] at hsome
      cases hsome
  rcases contains_cases root c tree with ⟨⟨json, hstored, hheader⟩, hrun⟩ | ⟨hnone, hrun⟩
  · -- Found: the header is there, and reading depends on the body.
    rw [hrun, hget]
    refine ⟨iff_of_true rfl ⟨json, hstored, hheader⟩, ?_, fun _ => rfl, nofun⟩
    simp [hstored, hheader]
  · -- Not found: reading refuses the document in the same way.
    rw [hrun, hget]
    refine ⟨iff_of_false nofun hnone, iff_of_false ?_ nofun, nofun, fun _ => ?_⟩
    · rintro ⟨json, hstored, hheader, -⟩
      exact hnone ⟨json, hstored, hheader⟩
    · rcases get_cases root c tree with ⟨-, d, -, -, hsome⟩ | ⟨-, hrefused⟩
      · obtain ⟨json, hstored, hheader, -⟩ := hget.1 (by rw [hsome, Option.isSome_some])
        exact absurd ⟨json, hstored, hheader⟩ hnone
      · rw [hrefused]

/-! ### Two documents -/

/-- The text of a value as a file. -/
def textOf (json : Json) : Content := .ofBytes (json.pretty ++ "\n").toUTF8.toList

/-- An empty cache with the text of a value in the place of a document. -/
def cacheWith (json : Json) : FileTree :=
  { emptyCache with nodes := emptyCache.nodes.insert ["c", "B.json"] (.file (textOf json)) }

theorem stored?_cacheWith {json : Json} (hplain : json.isPlain = true)
    (hsize : (json.pretty ++ "\n").utf8ByteSize ≤ maxDocumentSize) :
    stored? (documentPath ⟨"/c"⟩ "B") (cacheWith json) = some json := by
  have hroot : (cacheWith json).nodes[["c"]]? = some .directory := by
    rw [cacheWith, Std.ExtTreeMap.getElem?_insert, if_neg (by decide)]
    decide
  have hnames : Names (documentPath ⟨"/c"⟩ "B") ["c"] "B.json" := ⟨by decide, by decide, by decide⟩
  have hfind : (cacheWith json).find false (documentPath ⟨"/c"⟩ "B") =
      .ok (.file (textOf json)) := by
    rw [hnames.find_eq, spot_in_cache hroot hnames (by decide) (by decide) (by decide)]
    simp [bind, Except.bind, cacheWith]
  have hfits : (textOf json).size ≤ maxDocumentSize := by
    simp only [textOf, Content.ofBytes, Content.size, Utf8.toList_toUTF8, Utf8.length_bytes]
    simpa using hsize
  have hread : readDocument (documentPath ⟨"/c"⟩ "B") (cacheWith json) =
      (some (textOf json), cacheWith json) := by
    simp [readDocument, hfind, Nat.not_lt.2 hfits]
  have hrefused : refused (documentPath ⟨"/c"⟩ "B") (cacheWith json) =
      (discard (documentPath ⟨"/c"⟩ "B") (cacheWith json)).2 := by
    simp [refused, hfind]
  have hvalue : reading valueOf (textOf json) = .ok json := by
    rw [textOf, Content.ofBytes, reading, valueOf, parseBytes?_pretty hplain]
  rw [stored?, readAs_of_content hread hrefused, hvalue]

/-- A document in the form of an array, without methods. -/
def bareDocument : Json := .array [.ofNat schemaVersion, .string "B"]

theorem stored?_bareDocument :
    stored? (documentPath ⟨"/c"⟩ "B") (cacheWith bareDocument) = some bareDocument :=
  stored?_cacheWith (by decide) (by decide +kernel)

/-- A document in the form of an array is found and read, and stays in its place. -/
theorem contains_iff_get_bareDocument :
    (∀ json, stored? (documentPath ⟨"/c"⟩ "B") (cacheWith bareDocument) = some json →
      ¬ IsTriple json) ∧
    (contains ⟨"/c"⟩ "B" (cacheWith bareDocument)).1 = true ∧
    (get ⟨"/c"⟩ "B" (cacheWith bareDocument)).1.isSome ∧
    (contains ⟨"/c"⟩ "B" (cacheWith bareDocument)).2 = cacheWith bareDocument := by
  have hform : ∀ json, stored? (documentPath ⟨"/c"⟩ "B") (cacheWith bareDocument) = some json →
      ¬ IsTriple json := by
    rintro json hstored ⟨version, key, methods, rfl⟩
    rw [stored?_bareDocument] at hstored
    cases hstored
  obtain ⟨hfound, hread, hkept, -⟩ := contains_iff_get ⟨"/c"⟩ "B" (cacheWith bareDocument) hform
  have hcontains := hfound.2 ⟨bareDocument, stored?_bareDocument, .array _⟩
  exact ⟨hform, hcontains, hread.2 ⟨hcontains, bareDocument, stored?_bareDocument, .array _ _⟩,
    hkept hcontains⟩

/-- A document with a number in the place of its methods. -/
def numberedDocument : Json :=
  .object [("schema_version", .ofNat schemaVersion), ("class", .string "B"), ("methods", .ofNat 5)]

/-- A document is found though its methods cannot be read. -/
theorem contains_numberedDocument :
    (contains ⟨"/c"⟩ "B" (cacheWith numberedDocument)).1 = true ∧
      (get ⟨"/c"⟩ "B" (cacheWith numberedDocument)).1 = none := by
  have hstored : stored? (documentPath ⟨"/c"⟩ "B") (cacheWith numberedDocument) =
      some numberedDocument := stored?_cacheWith (by decide) (by decide +kernel)
  have hkey : Once [("schema_version", .ofNat schemaVersion), ("class", .string "B"),
      ("methods", .ofNat 5)] "class" (.string "B") := by rfl
  have hheader : HasHeader numberedDocument := .object (by rfl) hkey
  have hunread : decode? numberedDocument = none := by rfl
  constructor
  · rcases contains_cases ⟨"/c"⟩ "B" (cacheWith numberedDocument) with ⟨-, hrun⟩ | ⟨hnone, -⟩
    · rw [hrun]
    · -- The header is right, whatever the list of methods is.
      exact absurd ⟨numberedDocument, hstored, hheader⟩ hnone
  · rcases get_cases ⟨"/c"⟩ "B" (cacheWith numberedDocument) with
      ⟨json, d, hjson, hd, -⟩ | ⟨-, hrun⟩
    · rw [hstored] at hjson
      cases hjson
      rw [hunread] at hd
      cases hd
    · rw [hrun]

end Directory

end Cache

end JvmThrows
