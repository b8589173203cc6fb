import JvmThrows.Proofs.Descriptors
import JvmThrows.Proofs.Keys
import JvmThrows.TypeText.Erasure

/-!
# Erased types can be written

A name of a class ends at a semicolon in a descriptor, so a name that has one cannot be read back.
Erasure puts none into a name: it only leaves out parts of the texts, puts dots, dollars, slashes
and spaces between what is left, or takes a name from a table. `Unbroken` texts have no semicolon;
each step of erasure keeps them so, and the texts it goes on with are parts of them or bounds. So
what is written for declarations in such texts reads back as their erased types
(`TypeText.parse_methodDescriptor`).
-/

namespace JvmThrows

namespace Text

/-- A text that can stand before a semicolon. -/
def Unbroken (s : List Char) : Prop := ';' ∉ s

namespace Unbroken

variable {s t : List Char} {ws : List (List Char)} {c : Char}

theorem of_subset (h : Unbroken s) (hsub : t ⊆ s) : Unbroken t := fun hmem => h (hsub hmem)

theorem cons_iff : Unbroken (c :: s) ↔ c ≠ ';' ∧ Unbroken s := by
  simp [Unbroken, eq_comm]

theorem trimStart (h : Unbroken s) : Unbroken (trimStart s) :=
  h.of_subset (List.dropWhile_suffix _).subset

theorem trimEnd (h : Unbroken s) : Unbroken (trimEnd s) :=
  h.of_subset fun c hc => by
    have hmem := (List.dropWhile_suffix _).subset (List.mem_reverse.1 hc)
    exact List.mem_reverse.1 hmem

theorem trim (h : Unbroken s) : Unbroken (trim s) := h.trimStart.trimEnd

theorem dropHead? {head : List Char} (h : Unbroken s) (hdrop : dropHead? head s = some t) :
    Unbroken t := by
  rw [dropHead?_eq_some_iff.1 hdrop] at h
  exact h.of_subset (List.subset_append_right _ _)

theorem dropTail? {tail : List Char} (h : Unbroken s) (hdrop : dropTail? tail s = some t) :
    Unbroken t := by
  rw [dropTail?_eq_some_iff.1 hdrop] at h
  exact h.of_subset (List.subset_append_left _ _)

theorem pushChar (hc : c ≠ ';') (hws : ∀ w ∈ ws, Unbroken w) (next : List Char) :
    ∀ w ∈ pushChar c next ws, Unbroken w := by
  have hone : Unbroken [c] := cons_iff.2 ⟨hc, List.not_mem_nil⟩
  unfold Text.pushChar
  split
  · -- A new word begins.
    exact List.forall_mem_cons.2 ⟨hone, hws⟩
  · cases ws with
    | nil => simpa using hone
    | cons w rest =>
      obtain ⟨hw, hrest⟩ := List.forall_mem_cons.1 hws
      exact List.forall_mem_cons.2 ⟨cons_iff.2 ⟨hc, hw⟩, hrest⟩

theorem words (h : Unbroken s) : ∀ w ∈ words s, Unbroken w := by
  induction s with
  | nil => exact nofun
  | cons c s ih =>
    obtain ⟨hc, hs⟩ := cons_iff.1 h
    rw [Text.words]
    split
    · exact ih hs
    · exact pushChar hc (ih hs) s

theorem unwords (h : ∀ w ∈ ws, Unbroken w) : Unbroken (unwords ws) := by
  fun_induction Text.unwords ws with
  | case1 => exact List.not_mem_nil
  | case2 w => exact h w List.mem_cons_self
  | case3 w ws _ ih =>
    obtain ⟨hw, hws⟩ := List.forall_mem_cons.1 h
    have hrest : Unbroken (' ' :: Text.unwords ws) := cons_iff.2 ⟨by decide, ih hws⟩
    exact fun hmem => (List.mem_append.1 hmem).elim hw hrest

theorem replaceChar {old new : Char} (h : Unbroken s) (hnew : new ≠ ';') :
    Unbroken (replaceChar old new s) := by
  simp only [Unbroken, Text.replaceChar, List.mem_map, not_exists, not_and]
  intro c hc heq
  split at heq
  · exact hnew heq
  · exact h (heq ▸ hc)

theorem ofQualifiedChars (h : Unbroken s) : Unbroken (ClassName.ofQualifiedChars s) := by
  unfold ClassName.ofQualifiedChars
  split
  · exact h
  · intro hmem
    rcases ClassName.mem_joinNested hmem with hc | hc | ⟨p, hp, hc⟩
    · -- Separators are put in place of others, and none of them is `;`.
      exact absurd hc (by decide)
    · exact absurd hc (by decide)
    · exact h (mem_of_mem_pieces hp hc)

end Unbroken

end Text

open Text

theorem FieldType.isWritable_arrayOf {type : FieldType} (h : type.IsWritable) (n : Nat) :
    (type.arrayOf n).IsWritable := by
  induction n with
  | zero => exact h
  | succ n ih => exact ih

/-- What each step of a chain keeps holds where the chain ends. -/
theorem of_getLastD_chain {α : Type} {size : α → Nat}
    {next : (a : α) → Option { b : α // size b < size a }} (p : α → Prop)
    (hnext : ∀ a b, p a → next a = some b → p b.1) {a : α} (ha : p a) :
    p ((chain size next a).getLastD a) := by
  have hall : ∀ x ∈ chain size next a, p x := by
    fun_induction chain size next a with
    | case1 a ih =>
      refine List.forall_mem_cons.2 ⟨ha, ?_⟩
      -- Every member of the chain comes from the one before.
      cases hb : next a with
      | none => exact nofun
      | some b => exact ih b.1 b.2 (hnext a b ha hb)
  rcases List.mem_cons.1 List.getLastD_mem_cons with hlast | hlast
  · rwa [hlast]
  · exact hall _ hlast

namespace TypeText

section Steps

variable {text name : List Char} {params : List TypeParameter}

theorem unbroken_stripAnnotations (h : Unbroken text) : Unbroken (stripAnnotations text) := by
  unfold stripAnnotations
  split
  · exact .unwords fun w hw => h.words w (List.mem_filter.1 hw).1
  · exact h

/-- What a scan has gathered so far has no semicolon. -/
structure Scan.Unbroken (s : Scan) : Prop where
  base : Text.Unbroken s.base
  current : Text.Unbroken s.current
  args : ∀ arg ∈ s.args, Text.Unbroken arg

theorem Scan.Unbroken.keep {s : Scan} (h : s.Unbroken) {c : Char} (hc : c ≠ ';') :
    (s.keep c).Unbroken := by
  unfold Scan.keep
  split
  · exact ⟨h.base, Unbroken.cons_iff.2 ⟨hc, h.current⟩, h.args⟩
  · exact h

theorem Scan.Unbroken.pushArg {s : Scan} (h : s.Unbroken) : s.pushArg.Unbroken := by
  unfold Scan.pushArg
  split
  · have harg : Text.Unbroken (trim s.current.reverse) :=
      (h.current.of_subset fun c hc => List.mem_reverse.1 hc).trim
    exact ⟨h.base, List.not_mem_nil, List.forall_mem_cons.2 ⟨harg, h.args⟩⟩
  · exact h

theorem Scan.Unbroken.step {s : Scan} (h : s.Unbroken) {c : Char} (hc : c ≠ ';') :
    (s.step c).Unbroken := by
  have hkeep := h.keep hc
  have hpush := h.pushArg
  unfold Scan.step
  split
  · split
    · exact ⟨h.base, h.current, h.args⟩
    · -- Outside brackets a character belongs to the name, inside to an argument.
      exact ⟨Unbroken.cons_iff.2 ⟨hc, h.base⟩, h.current, h.args⟩
  · split
    · exact ⟨hkeep.base, hkeep.current, hkeep.args⟩
    · split
      · split
        · exact ⟨hpush.base, hpush.current, hpush.args⟩
        · exact ⟨hkeep.base, hkeep.current, hkeep.args⟩
      · split
        · exact hpush
        · exact hkeep

theorem Scan.Unbroken.foldl {s : Scan} (h : s.Unbroken) (htext : Text.Unbroken text) :
    (text.foldl Scan.step s).Unbroken := by
  induction text generalizing s with
  | nil => exact h
  | cons c text ih =>
    obtain ⟨hc, htext⟩ := Unbroken.cons_iff.1 htext
    exact ih (h.step hc) htext

theorem unbroken_splitGenerics (h : Unbroken text) :
    Unbroken (splitGenerics text).1 ∧ ∀ arg ∈ (splitGenerics text).2, Unbroken arg := by
  have hstart : Scan.Unbroken {} := ⟨List.not_mem_nil, List.not_mem_nil, nofun⟩
  have hscan := hstart.foldl h
  refine ⟨hscan.base.of_subset fun c hc => List.mem_reverse.1 hc, fun arg harg => ?_⟩
  exact hscan.args arg (List.mem_reverse.1 (List.mem_filter.1 harg).1)

theorem isWritable_object : object.IsWritable := by decide

/-- A text without a semicolon gives a name without one, whether or not it is a name itself. -/
theorem isWritable_reference {type : FieldType} (h : Unbroken name)
    (htype : reference name = type) : type.IsWritable := by
  have hwritable {s : List Char} (hs : Unbroken s) :
      FieldType.IsWritable (.object (String.ofList (replaceChar '.' '/' s))) := by
    rw [FieldType.IsWritable, String.toList_ofList]
    exact hs.replaceChar (by decide)
  unfold reference at htype
  split at htype
  · -- A few names stand for fixed classes, whose names are writable.
    exact htype ▸ isWritable_object
  · split at htype
    · exact htype ▸ hwritable h.ofQualifiedChars
    · exact htype ▸ hwritable (h.of_subset List.filter_sublist.subset)

/-- No bound of a type variable has a semicolon. -/
def UnbrokenBounds (params : List TypeParameter) : Prop :=
  ∀ p ∈ params, ∀ bound ∈ p.bounds, Unbroken bound.toList

theorem UnbrokenBounds.of_boundsOf? (h : UnbrokenBounds params) {bound : String}
    {bounds : List String} (hbounds : boundsOf? params name = some (bound :: bounds)) :
    Unbroken bound.toList := by
  obtain ⟨p, hp, hpbounds⟩ := Option.map_eq_some_iff.1 hbounds
  exact h p (List.mem_of_find?_eq_some hp) bound (hpbounds ▸ List.mem_cons_self)

end Steps

namespace Java

variable {text name : List Char} {params : List TypeParameter}

theorem unbroken_stripDims (h : Unbroken text) : Unbroken (stripDims text).2 := by
  fun_induction stripDims text with
  | case1 => exact h
  | case2 text rest hdrop dims base hstrip ih =>
    rw [hstrip] at ih
    exact ih (h.dropTail? hdrop).trimEnd

theorem unbroken_stripEllipsis (h : Unbroken text) : Unbroken (stripEllipsis text).2 := by
  unfold stripEllipsis
  split
  · rename_i rest hdrop
    exact (h.dropTail? hdrop).trimEnd
  · exact h

theorem unbroken_outline (h : Unbroken text) : Unbroken (outline text).2 :=
  unbroken_stripDims
    (unbroken_splitGenerics (unbroken_stripEllipsis (unbroken_stripAnnotations h).trim)).1.trim

theorem unbroken_shape (h : Unbroken text) : Unbroken (shape text).name := by
  refine unbroken_outline (of_getLastD_chain Unbroken (fun t inner ht hinner => ?_) h)
  unfold bound? at hinner
  split at hinner
  · rename_i bound hbound
    cases hinner
    exact (unbroken_outline ht).dropHead? hbound
  · cases hinner

theorem isWritable_element {type : FieldType} (h : Unbroken name)
    (htype : element params name = type) : type.IsWritable := by
  unfold element at htype
  split at htype
  · subst htype
    trivial
  · split at htype
    · exact htype ▸ isWritable_object
    · exact isWritable_reference h htype

theorem isWritable_erase (hbounds : UnbrokenBounds params) (h : Unbroken text) :
    (erase params text).IsWritable := by
  refine FieldType.isWritable_arrayOf (isWritable_element (unbroken_shape ?_) rfl) _
  refine of_getLastD_chain (fun g : Goal => Unbroken g.text) (fun g next _ hnext => ?_) h
  -- The way to the bound that decides leads from bound to bound.
  unfold Goal.next? at hnext
  dsimp only at hnext
  split at hnext
  · split at hnext
    · -- The next text is the first bound of a type variable.
      rename_i bound bounds left hbound _
      cases hnext
      exact hbounds.of_boundsOf? hbound
    · cases hnext
  · cases hnext

end Java

namespace Kotlin

variable {text name : List Char} {params : List TypeParameter}

theorem unbroken_stripVariance (h : Unbroken text) : Unbroken (stripVariance text) := by
  unfold stripVariance
  split
  · rename_i rest hdrop
    exact (h.dropHead? hdrop).trimStart
  · split
    · rename_i rest hdrop
      exact (h.dropHead? hdrop).trimStart
    · exact h

theorem unbroken_stripNullable (h : Unbroken text) : Unbroken (stripNullable text).2 := by
  unfold stripNullable
  split
  · rename_i rest hdrop
    exact (h.dropTail? hdrop).trimEnd
  · exact h

theorem unbroken_body (h : Unbroken text) : Unbroken (body text) :=
  unbroken_stripVariance (unbroken_stripNullable (unbroken_stripAnnotations h).trim)

theorem unbroken_baseName (h : Unbroken text) : Unbroken (baseName text) :=
  (unbroken_splitGenerics (unbroken_body h)).1.trim

theorem unbroken_inner {g : Goal} (h : Unbroken g.text) : Unbroken g.inner := by
  refine of_getLastD_chain Unbroken (fun t inner ht hinner => ?_) h
  unfold arrayElement? at hinner
  split at hinner
  · split at hinner
    · cases hinner
    · -- The next text is the first argument of an array.
      rename_i arg args hargs
      cases hinner
      exact (unbroken_splitGenerics (unbroken_body ht)).2 arg (hargs ▸ List.mem_cons_self)
  · cases hinner

/-- What a look-up finds stands in the table. -/
theorem exists_mem_of_lookup {α : Type} {table : List (String × α)} {short : String} {a : α}
    (h : table.lookup short = some a) : ∃ row ∈ table, row.2 = a := by
  obtain ⟨front, back, rfl, -⟩ := List.lookup_eq_some_iff.1 h
  exact ⟨(short, a), by simp, rfl⟩

/-- Whether a name can stand before a semicolon. -/
def isWritableName (name : String) : Bool := !name.toList.contains ';'

theorem isWritable_of_isWritableName {name : String} (h : isWritableName name = true) :
    FieldType.IsWritable (.object name) := by
  simpa [isWritableName, FieldType.IsWritable] using h

theorem isWritable_box {type : BaseType} {box : String} (h : primitive? name = some (type, box)) :
    FieldType.IsWritable (.object box) := by
  have hboxes : (primitives.all fun row => isWritableName row.2.2) = true := by decide +kernel
  obtain ⟨row, hrow, heq⟩ := exists_mem_of_lookup h
  have hbox := List.all_eq_true.1 hboxes row hrow
  rw [heq] at hbox
  exact isWritable_of_isWritableName hbox

theorem isWritable_library {internal : String} (h : library? name = some internal) :
    FieldType.IsWritable (.object internal) := by
  have hclasses : (libraryClasses.all fun row => isWritableName row.2) = true := by
    decide +kernel
  have haliases : (exceptionAliases.all fun row => isWritableName row.2) = true := by
    decide +kernel
  simp only [library?, Option.orElse_eq_orElse, Option.orElse_eq_or, Option.or_eq_some_iff] at h
  rcases h with hfound | ⟨-, hfound⟩
  · -- The tables are checked row by row.
    obtain ⟨row, hrow, rfl⟩ := exists_mem_of_lookup hfound
    exact isWritable_of_isWritableName (List.all_eq_true.1 hclasses row hrow)
  · split at hfound
    · obtain ⟨row, hrow, rfl⟩ := exists_mem_of_lookup hfound
      exact isWritable_of_isWritableName (List.all_eq_true.1 haliases row hrow)
    · cases hfound

theorem isWritable_element {boxed : Bool} {type : FieldType} (h : Unbroken text)
    (htype : element params boxed text = type) : type.IsWritable := by
  unfold element at htype
  dsimp only at htype
  split at htype
  · exact htype ▸ isWritable_object
  · split at htype
    · exact htype ▸ isWritable_object
    · split at htype
      · subst htype
        trivial
      · split at htype
        · rename_i hprimitive
          split at htype
          · exact htype ▸ isWritable_box hprimitive
          · subst htype
            trivial
        · split at htype
          · exact htype ▸ isWritable_object
          · split at htype
            · rename_i hlibrary
              exact htype ▸ isWritable_library hlibrary
            · exact isWritable_reference (unbroken_baseName h) htype

theorem isWritable_erase (hbounds : UnbrokenBounds params) (h : Unbroken text) :
    (erase params text).IsWritable := by
  refine FieldType.isWritable_arrayOf (isWritable_element (unbroken_inner ?_) rfl) _
  refine of_getLastD_chain (fun g : Goal => Unbroken g.text) (fun g next _ hnext => ?_) h
  unfold Goal.next? at hnext
  split at hnext
  · split at hnext
    · rename_i bound bounds left hbound _
      cases hnext
      exact hbounds.of_boundsOf? hbound
    · cases hnext
  · cases hnext

end Kotlin

variable {dialect : Dialect} {params : List TypeParameter}

theorem isWritable_erase (hbounds : UnbrokenBounds params) {text : String}
    (h : Unbroken text.toList) : (erase dialect params text).IsWritable := by
  cases dialect with
  | java => exact Java.isWritable_erase hbounds h
  | kotlin => exact Kotlin.isWritable_erase hbounds h

theorem isWritable_eraseReturn (hbounds : UnbrokenBounds params) {text : Option String}
    (h : ∀ t ∈ text, Unbroken t.toList) : (eraseReturn dialect params text).IsWritable := by
  cases text with
  | none => trivial
  | some text =>
    have htrimmed : Unbroken (String.ofList (trim text.toList)).toList := by
      rw [String.toList_ofList]
      exact (h text rfl).trim
    unfold eraseReturn
    dsimp only
    split
    · trivial
    · exact isWritable_erase hbounds htrimmed

/-- **Every erased descriptor is a descriptor of the erased types.** What is written for a
declaration in either dialect reads back as the erasures of its parameters, in order, and of its
result, if no text of them and no bound has a semicolon. Nothing else is asked of the texts. -/
theorem parse_methodDescriptor (dialect : Dialect) (parameterTypes : List String)
    (returnType : Option String) (params : List TypeParameter)
    (hparameters : ∀ text ∈ parameterTypes, ';' ∉ text.toList)
    (hreturn : ∀ text ∈ returnType, ';' ∉ text.toList)
    (hbounds : ∀ p ∈ params, ∀ bound ∈ p.bounds, ';' ∉ bound.toList) :
    MethodDescriptor.parse (methodDescriptor dialect parameterTypes returnType params) =
      .ok ⟨parameterTypes.map (erase dialect params), eraseReturn dialect params returnType⟩ := by
  refine MethodDescriptor.parse_render
    ⟨fun type htype => ?_, isWritable_eraseReturn hbounds hreturn⟩
  obtain ⟨text, htext, rfl⟩ := List.mem_map.1 htype
  exact isWritable_erase hbounds (hparameters text htext)

/-- Brackets that do not match, a function type, an annotation and no type at all. -/
def unbalancedTypes : List String :=
  ["(Int) -> Map<T", "@A(\"x y\") Array<out T?>>", "a.b.C<D>.E?", " "]

def unfinishedBound : List TypeParameter := [⟨"T", ["Comparable<in T"]⟩]

/-- Texts that are no types have descriptors, too. -/
theorem parse_methodDescriptor_unbalanced :
    (∀ text ∈ unbalancedTypes, ';' ∉ text.toList) ∧
    (∀ text ∈ some " [T", ';' ∉ text.toList) ∧
    (∀ p ∈ unfinishedBound, ∀ bound ∈ p.bounds, ';' ∉ bound.toList) ∧
    MethodDescriptor.parse
        (methodDescriptor .kotlin unbalancedTypes (some " [T") unfinishedBound) =
      .ok ⟨unbalancedTypes.map (erase .kotlin unfinishedBound),
        eraseReturn .kotlin unfinishedBound (some " [T")⟩ := by
  have hparameters : ∀ text ∈ unbalancedTypes, ';' ∉ text.toList := by decide +kernel
  have hreturn : ∀ text ∈ some " [T", ';' ∉ text.toList := by decide +kernel
  have hbounds : ∀ p ∈ unfinishedBound, ∀ bound ∈ p.bounds, ';' ∉ bound.toList := by
    decide +kernel
  exact ⟨hparameters, hreturn, hbounds,
    parse_methodDescriptor .kotlin _ _ _ hparameters hreturn hbounds⟩

end TypeText

end JvmThrows
