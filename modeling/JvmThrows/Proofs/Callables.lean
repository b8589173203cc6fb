import JvmThrows.CallManifest
import JvmThrows.Proofs.CompactText
import JvmThrows.Proofs.Documents
import JvmThrows.Proofs.Origins

/-!
# Callables survive JSON

A callable is written with all its fields and the tag of its dialect, and reads back field by field.
Only its origin is read anew from the address that is shown for it. So the callables that read back
are those whose origin was read from an address (`Callable.readsBack_iff`), which those that were
read from JSON all have (`Callable.exists_url_of_ofJson?`). Writing them leaves their origin as it
is (`Callable.parse_display_origin`).
-/

namespace JvmThrows

namespace Json

theorem itemsSound_map {α : Type} {write : α → Json} (h : ∀ a, (write a).isSound = true)
    (items : List α) : itemsSound (items.map write) = true := by
  induction items with
  | nil => rfl
  | cons a items ih => simp [itemsSound, h, ih]

theorem itemsDepth_map_le {α : Type} {write : α → Json} {n : Nat} (h : ∀ a, (write a).depth ≤ n)
    (items : List α) : itemsDepth (items.map write) ≤ n := by
  induction items with
  | nil => exact Nat.zero_le n
  | cons a items ih => exact Nat.max_le.2 ⟨h a, ih⟩

theorem list?_strings (texts : List String) : list? text? (.strings texts) = some texts :=
  list?_map .string (fun _ => rfl) texts

/-- A field of an object that repeats no name. -/
theorem field?_of_mem {fields : List (String × Json)} {field : String × Json}
    (hnames : (fields.map (·.1)).Nodup) (h : field ∈ fields) :
    field? fields field.1 = some (some field.2) := by
  have hfilter : fields.filter (fun f => f.1 == field.1) = [field] := by
    induction fields with
    | nil => cases h
    | cons f fields ih =>
      obtain ⟨hf, hnames⟩ := List.nodup_cons.1 hnames
      rcases List.mem_cons.1 h with rfl | h
      · -- Names are not repeated, so that no other field is found.
        have hrest : fields.filter (fun f => f.1 == field.1) = [] :=
          List.filter_eq_nil_iff.2 fun g hg heq =>
            hf (List.mem_map.2 ⟨g, hg, by simpa using heq⟩)
        simp [hrest]
      · -- A field with another name is passed over.
        have hne : f.1 ≠ field.1 := fun heq => hf (List.mem_map.2 ⟨field, h, heq.symm⟩)
        simpa [List.filter_cons, hne] using ih hnames h
  simp [field?, hfilter]

/-- A record that is written with its names, each once, has the values that were written. -/
theorem record?_object {fields : List (String × Json)} (hnames : (fields.map (·.1)).Nodup) :
    record? (fields.map (·.1)) (.object fields) = some (fields.map fun f => some f.2) := by
  have hpart (part : List (String × Json)) (hpart : ∀ f ∈ part, f ∈ fields) :
      (part.map (·.1)).mapM (field? fields) = some (part.map fun f => some f.2) := by
    induction part with
    | nil => rfl
    | cons f part ih =>
      obtain ⟨hf, hpart⟩ := List.forall_mem_cons.1 hpart
      simp [List.mapM_cons, field?_of_mem hnames hf, ih hpart]
  exact hpart fields fun f hf => hf

theorem optional?_ofOption (text : Option String) :
    optional? text? (some (.ofOption .string text)) = some text := by
  cases text <;> rfl

end Json

open Json

theorem Dialect.ofLabel?_label (d : Dialect) : ofLabel? d.label = some d := by
  cases d <;> rfl

namespace TypeParameter

theorem ofJson?_toJson (p : TypeParameter) : ofJson? p.toJson = some p := by
  simp [ofJson?, toJson, record?, field?, required?, default?, text?, list?_strings]

theorem isPlain_toJson (p : TypeParameter) : p.toJson.isPlain = true := by
  have hbounds : (Json.strings p.bounds).isPlain = true := itemsPlain_map (fun _ => rfl) _
  simp [toJson, isPlain, fieldsPlain, hbounds]

theorem isSound_toJson (p : TypeParameter) : p.toJson.isSound = true := by
  have hbounds : (Json.strings p.bounds).isSound = true := itemsSound_map (fun _ => rfl) _
  simp [toJson, isSound, fieldsSound, hbounds]

end TypeParameter

theorem Modifiers.ofJson?_toJson (m : Modifiers) : ofJson? m.toJson = some m := by
  simp [ofJson?, toJson, record?, field?, default?, flag?]

namespace Callable

theorem isPlain_toJson (c : Callable) : c.toJson.isPlain = true := by
  have hoption (text : Option String) : (Json.ofOption .string text).isPlain = true := by
    -- A text that may be missing is plain, there or not.
    cases text <;> rfl
  have hparameters : (Json.strings c.parameterTypes).isPlain = true :=
    itemsPlain_map (fun _ => rfl) _
  have hvariables := itemsPlain_map TypeParameter.isPlain_toJson c.typeParameters
  simp [toJson, isPlain, fieldsPlain, Modifiers.toJson, hoption, hparameters, hvariables]

theorem isSound_toJson (c : Callable) : c.toJson.isSound = true := by
  have hoption (text : Option String) : (Json.ofOption .string text).isSound = true := by
    cases text <;> rfl
  have hparameters : (Json.strings c.parameterTypes).isSound = true :=
    itemsSound_map (fun _ => rfl) _
  have hvariables := itemsSound_map TypeParameter.isSound_toJson c.typeParameters
  simp [toJson, isSound, fieldsSound, Modifiers.toJson, hoption, hparameters, hvariables]

theorem depth_toJson_le (c : Callable) : c.toJson.depth ≤ 4 := by
  have hoption (text : Option String) : (Json.ofOption .string text).depth = 0 := by
    cases text <;> rfl
  have hstrings (texts : List String) : (Json.strings texts).depth ≤ 1 :=
    Nat.succ_le_succ (itemsDepth_map_le (fun _ => Nat.le_refl 0) texts)
  have hvariable (p : TypeParameter) : p.toJson.depth ≤ 2 := by
    simpa [TypeParameter.toJson, depth, fieldsDepth] using hstrings p.bounds
  have hvariables := itemsDepth_map_le hvariable c.typeParameters
  have hparameters := hstrings c.parameterTypes
  simp only [toJson, depth, fieldsDepth, Modifiers.toJson, hoption]
  omega

/-- The fields that are written behind the tag. -/
def taggedFields (c : Callable) : List (String × Json) :=
  [(ownerField c.dialect, .ofOption .string c.owner), ("name", .string c.name),
    (parametersField c.dialect, .strings c.parameterTypes),
    ("return_type", .ofOption .string c.returnType),
    ("type_parameters", .array (c.typeParameters.map TypeParameter.toJson)),
    ("modifiers", c.modifiers.toJson), ("origin", .string c.origin.display)]

theorem toJson_eq (c : Callable) :
    c.toJson = .object ((tagName, .string c.dialect.label) :: c.taggedFields) := rfl

/-- No field goes by the name of another one or of the tag. -/
theorem nodup_fieldNames (d : Dialect) : (tagName :: fieldNames d).Nodup := by
  cases d <;> decide

/-- Only the origin is read anew. -/
theorem ofFields?_taggedFields (c : Callable) :
    ofFields? c.dialect (.object c.taggedFields) =
      some { c with origin := Origin.parse c.origin.display } := by
  have hnames : (c.taggedFields.map (·.1)).Nodup := (List.nodup_cons.1 (nodup_fieldNames _)).2
  have hrecord : record? (fieldNames c.dialect) (.object c.taggedFields) =
      some (c.taggedFields.map fun f => some f.2) := record?_object hnames
  have hvariables := list?_map TypeParameter.toJson TypeParameter.ofJson?_toJson c.typeParameters
  rw [ofFields?, hrecord]
  simp [taggedFields, required?, default?, text?, optional?_ofOption, list?_strings, hvariables,
    Modifiers.ofJson?_toJson]

theorem ofJson?_toJson (c : Callable) :
    ofJson? c.toJson = some { c with origin := Origin.parse c.origin.display } := by
  have hnames : (((tagName, .string c.dialect.label) :: c.taggedFields).map (·.1)).Nodup :=
    nodup_fieldNames c.dialect
  have htag : field? ((tagName, .string c.dialect.label) :: c.taggedFields) tagName =
      some (some (.string c.dialect.label)) := field?_of_mem hnames List.mem_cons_self
  have hrest : ((tagName, .string c.dialect.label) :: c.taggedFields).filter
      (fun f => f.1 != tagName) = c.taggedFields := by
    rw [List.filter_cons_of_neg (by simp), List.filter_eq_self]
    intro f hf
    have hne : f.1 ≠ tagName := fun heq =>
      (List.nodup_cons.1 hnames).1 (List.mem_map.2 ⟨f, hf, heq⟩)
    simpa using hne
  have hsound := c.isSound_toJson
  rw [toJson_eq] at hsound ⊢
  unfold ofJson?
  rw [if_pos hsound]
  simp [htag, hrest, required?, dialect?, text?, Dialect.ofLabel?_label, ofFields?_taggedFields]

/-- The origin of what was read was read from an address. -/
theorem exists_url_of_ofFields? {d : Dialect} {json : Json} {c : Callable}
    (h : ofFields? d json = some c) : ∃ url, c.origin = Origin.parse url := by
  simp only [ofFields?, Option.bind_eq_bind, Option.bind_eq_some_iff] at h
  obtain ⟨values, -, h⟩ := h
  split at h
  · simp only [Option.bind_eq_some_iff, Option.pure_def, Option.some.injEq] at h
    obtain ⟨_, -, _, -, _, -, _, -, _, -, _, -, url, -, rfl⟩ := h
    exact ⟨url, rfl⟩
  · cases h

theorem exists_url_of_ofJson? {json : Json} {c : Callable} (h : ofJson? json = some c) :
    ∃ url, c.origin = Origin.parse url := by
  unfold ofJson? at h
  split at h
  · split at h
    · simp only [Option.bind_eq_bind, Option.bind_eq_some_iff] at h
      -- The tag says which fields to read.
      obtain ⟨_, -, _, -, h⟩ := h
      exact exists_url_of_ofFields? h
    · simp only [Option.bind_eq_bind, Option.bind_eq_some_iff] at h
      obtain ⟨_, -, h⟩ := h
      exact exists_url_of_ofFields? h
    · cases h
  · cases h

/-- A callable reads back from its value, from its text, and as the target of a call. -/
structure ReadsBack (c : Callable) : Prop where
  value : ofJson? c.toJson = some c
  text : (Json.parse? c.toJson.compact).bind ofJson? = some c
  target : Call.target? c.toJson = some c

theorem readsBack_iff {c : Callable} : c.ReadsBack ↔ ∃ url, c.origin = Origin.parse url := by
  constructor
  · exact fun h => exists_url_of_ofJson? h.value
  · intro h
    have hvalue : ofJson? c.toJson = some c := by
      rw [ofJson?_toJson, Origin.parse_display_iff.2 h]
    have hdepth : c.toJson.depth ≤ Call.maxTargetDepth :=
      Nat.le_trans c.depth_toJson_le (by decide)
    refine ⟨hvalue, ?_, ?_⟩
    · rw [parse?_compact c.isPlain_toJson, Option.bind_some, hvalue]
    · rw [Call.target?, if_pos hdepth, hvalue]

/-- **Callables survive JSON.** A callable reads back as it was exactly if its origin was read from
an address, whatever its names, types, type variables and modifiers are. Its identity and its
descriptor stay the same wherever its origin is from. What was read from any JSON text reads back,
so that writing and reading it once more changes nothing. -/
theorem readsBack_json :
    (∀ c : Callable, (∃ url, c.origin = Origin.parse url) ↔ c.ReadsBack) ∧
    (∀ c : Callable, ∃ back, (Json.parse? c.toJson.compact).bind ofJson? = some back ∧
      back.identity? = c.identity? ∧ back.descriptor = c.descriptor) ∧
    ∀ (text : String) (c : Callable), (Json.parse? text).bind ofJson? = some c → c.ReadsBack := by
  refine ⟨fun c => readsBack_iff.symm, fun c => ?_, fun text c h => readsBack_iff.2 ?_⟩
  · -- The origin is read from its text, and does not take part in the identity.
    refine ⟨{ c with origin := Origin.parse c.origin.display }, ?_, rfl, rfl⟩
    rw [parse?_compact c.isPlain_toJson, Option.bind_some, ofJson?_toJson]
  · obtain ⟨json, -, hjson⟩ := Option.bind_eq_some_iff.1 h
    exact exists_url_of_ofJson? hjson

/-- A Java method with a type variable, in an archive. -/
def listGet : Callable where
  dialect := .java
  owner := some "java.util.List"
  name := "get"
  parameterTypes := ["int"]
  returnType := some "E"
  typeParameters := [⟨"E", []⟩]
  modifiers := { isAbstract := true }
  origin := Origin.parse "jar:///jdk/rt.jar!//java/util/List.class"

/-- A Kotlin function without an owner, in a source file. -/
def localFunction : Callable where
  dialect := .kotlin
  owner := none
  name := "f"
  parameterTypes := []
  returnType := none
  typeParameters := []
  modifiers := {}
  origin := .source ⟨"/a.kt"⟩

theorem readsBack_listGet :
    listGet.ReadsBack ∧
    (Json.parse? "[\"kotlin\",null,\"f\",[],null,[],[],\" /a.kt\"]").bind ofJson? =
      some localFunction ∧
    localFunction.ReadsBack := by
  have hread : (Json.parse? "[\"kotlin\",null,\"f\",[],null,[],[],\" /a.kt\"]").bind ofJson? =
      some localFunction := by
    decide +kernel
  have hlist : listGet.ReadsBack :=
    (readsBack_json.1 listGet).1 ⟨"jar:///jdk/rt.jar!//java/util/List.class", rfl⟩
  exact ⟨hlist, hread, readsBack_json.2.2 _ _ hread⟩

/-- **Origins are stable.** What is shown for an origin that was read from any text is read as the
same origin: of the same kind, with the same path and entry as they were written. So the origin of a
callable that was read from JSON is the one that is read from what is written for it. -/
theorem parse_display_origin :
    (∀ url : String, Origin.parse (Origin.parse url).display = Origin.parse url) ∧
    ∀ (text : String) (c : Callable), (Json.parse? text).bind ofJson? = some c →
      Origin.parse c.origin.display = c.origin ∧
      ((Json.parse? c.toJson.compact).bind ofJson?).map (·.origin) = some c.origin := by
  refine ⟨Origin.parse_display_parse, fun text c h => ?_⟩
  obtain ⟨json, -, hjson⟩ := Option.bind_eq_some_iff.1 h
  have hurl := exists_url_of_ofJson? hjson
  exact ⟨Origin.parse_display_iff.2 hurl, by rw [(readsBack_iff.2 hurl).text, Option.map_some]⟩

/-- A function in an archive. -/
def archivedFunction : Callable :=
  { localFunction with origin := .archive ⟨"b://my.jars/x.jar"⟩ "p!/A.class" }

/-- Its address has blanks around it and more than one of each mark. -/
def archivedText : String :=
  "[\"kotlin\",null,\"f\",[],null,[],[],\" jar-a://b://my.jars/x.jar!!//p!/A.class \"]"

theorem parse_display_origin_archivedFunction :
    (Json.parse? archivedText).bind ofJson? = some archivedFunction ∧
    Origin.parse "jar://b://my.jars/x.jar!/p!/A.class" = archivedFunction.origin := by
  have hread : (Json.parse? archivedText).bind ofJson? = some archivedFunction := by decide +kernel
  exact ⟨hread, (parse_display_origin.2 _ _ hread).1⟩

end Callable

end JvmThrows
