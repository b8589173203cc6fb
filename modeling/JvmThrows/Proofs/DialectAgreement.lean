import JvmThrows.Proofs.SourceTypes

/-!
# Both dialects erase a type alike

A method whose types are spelled in Java has the same descriptor as the method with these types
spelled in Kotlin, and both are what the types are at run time (`methodDescriptor_java_eq_kotlin`).
The induction over a type goes once through its Java text (`SourceType.erase_java`), where all array
dimensions are taken off at once, and once through its Kotlin text (`SourceType.unlayered_kotlin`),
where the arrays are nested and only the outermost text may be a primitive type that is not boxed.
Which class a name stands for is decided by the tables of names.
-/

namespace JvmThrows.TypeText

open Text

/-! ### What names stand for -/

/-- The names of a primitive type and of arrays of it. -/
theorem kotlinName_found (type : BaseType) (qualified : Bool) :
    (isQualifiedName (kotlinQualified qualified (kotlinName type)) = true ∧
      Kotlin.isArray (kotlinQualified qualified (kotlinName type)) = false ∧
      Kotlin.primitiveArray? (kotlinQualified qualified (kotlinName type)) = none ∧
      Kotlin.primitive? (kotlinQualified qualified (kotlinName type)) =
        some (type, ClassName.toInternal (boxName type))) ∧
    isQualifiedName (kotlinQualified qualified (kotlinName type ++ "Array")) = true ∧
      Kotlin.isArray (kotlinQualified qualified (kotlinName type ++ "Array")) = false ∧
      Kotlin.primitiveArray? (kotlinQualified qualified (kotlinName type ++ "Array")) =
        some type := by
  cases type <;> cases qualified <;> decide +kernel

theorem arrayName_found (qualified : Bool) :
    isQualifiedName (kotlinQualified qualified "Array") = true ∧
      Kotlin.isArray (kotlinQualified qualified "Array") = true := by
  cases qualified <;> decide +kernel

theorem LibraryClass.kotlinNames_found (c : LibraryClass) :
    ∀ name ∈ c.kotlinNames, isQualifiedName name.toList = true ∧
      Kotlin.isArray name.toList = false ∧ Kotlin.primitiveArray? name.toList = none ∧
      Kotlin.primitive? name.toList = none ∧
      Kotlin.library? name.toList = some c.internalName := by
  cases c <;> decide +kernel

theorem LibraryClass.javaName_found (c : LibraryClass) :
    isQualifiedName c.javaName.toList = true ∧ '.' ∈ c.javaName.toList ∧
      reference c.javaName.toList = .object c.internalName := by
  cases c <;> decide +kernel

theorem boxName_found (type : BaseType) :
    isQualifiedName (boxName type).toList = true ∧ '.' ∈ (boxName type).toList ∧
      reference (boxName type).toList = .object (ClassName.toInternal (boxName type)) := by
  cases type <;> decide +kernel

theorem keyword_found (type : BaseType) :
    isQualifiedName (keyword type).toList = true ∧ '.' ∉ (keyword type).toList ∧
      Java.keyword? (keyword type) = some type := by
  cases type <;> decide +kernel

theorem eq_keyword {name : String} {type : BaseType} (h : Java.keyword? name = some type) :
    name = keyword type := by
  unfold Java.keyword? at h
  split at h
  all_goals cases h
  all_goals rfl

theorem dot_not_mem_identifier {name : List Char} (h : isIdentifier name = true) : '.' ∉ name := by
  have hletter : isLetter '.' = false := by decide
  have hdigit : isLetterOrDigit '.' = false := by decide
  intro hmem
  cases name with
  | nil => cases hmem
  | cons c cs =>
    obtain ⟨hhead, htail⟩ := Bool.and_eq_true_iff.1 h
    rcases List.mem_cons.1 hmem with rfl | hmem
    · -- An identifier starts with a letter and goes on with letters and digits; a dot is neither.
      simp [hletter] at hhead
    · have := List.all_eq_true.1 htail '.' hmem
      simp [hdigit] at this

theorem isQualifiedName_of_identifier {name : List Char} (h : isIdentifier name = true) :
    isQualifiedName name = true := by
  rw [isQualifiedName_eq, pieces_of_not_mem (dot_not_mem_identifier h)]
  simpa using h

theorem lookup_eq_none {α : Type} {table : List (String × α)} {name : List Char}
    (h : ∀ row ∈ table, row.1.toList ≠ name) : table.lookup (String.ofList name) = none := by
  refine List.lookup_eq_none_iff.2 fun row hrow => ?_
  rw [bne_iff_ne]
  rintro heq
  exact h row hrow (by rw [← heq, String.toList_ofList])

/-- No primitive type has a dot in its name. -/
theorem Kotlin.primitive?_of_dot {element : List Char} (hdot : '.' ∈ element)
    (hpackage : dropHead? Kotlin.packageMark element = none) :
    Kotlin.primitive? element = none := by
  have hrows : ∀ row ∈ Kotlin.primitives, '.' ∉ row.1.toList := by decide
  rw [Kotlin.primitive?, Kotlin.dropPackage, hpackage]
  exact lookup_eq_none fun row hrow heq => hrows row hrow (heq ▸ hdot)

namespace UserClass

variable (c : UserClass)

theorem pieces_name : pieces '.' c.name = c.package :: c.path :=
  pieces_intercalate (List.cons_ne_nil _ _) fun segment hsegment =>
    dot_not_mem_identifier (c.identifiers segment hsegment)

theorem isQualifiedName_name : isQualifiedName c.name = true := by
  rw [isQualifiedName_eq, pieces_name, List.all_eq_true]
  exact c.identifiers

/-- The first segment is followed by a dot. -/
theorem exists_name_eq : ∃ rest, c.name = c.package ++ '.' :: rest := by
  obtain ⟨segment, path, hpath⟩ := List.exists_cons_of_ne_nil c.path_ne_nil
  exact ⟨['.'].intercalate (segment :: path), by rw [name, hpath, List.intercalate_cons_cons,
    List.append_assoc, List.singleton_append]⟩

theorem dot_mem_name : '.' ∈ c.name := by
  obtain ⟨rest, hrest⟩ := c.exists_name_eq
  simp [hrest]

/-- A user class is not in the Kotlin library. -/
theorem name_ne_package (rest : List Char) : c.name ≠ Kotlin.packageMark ++ rest := by
  intro heq
  obtain ⟨tail, htail⟩ := c.exists_name_eq
  have hcut := cutFirst_append_sep
    (dot_not_mem_identifier (c.identifiers c.package List.mem_cons_self)) tail
  have hkotlin : cutFirst '.' ("kotlin".toList ++ '.' :: rest) = some ("kotlin".toList, rest) :=
    cutFirst_append_sep (by decide) rest
  -- Both texts are cut at their first dot, behind `kotlin` in the one.
  rw [← htail, heq] at hcut
  exact c.not_kotlin (Prod.mk.inj (Option.some.inj (hcut.symm.trans hkotlin))).1

theorem dropHead?_package_name : dropHead? Kotlin.packageMark c.name = none :=
  Option.eq_none_iff_forall_ne_some.2 fun rest hrest =>
    c.name_ne_package rest (dropHead?_eq_some_iff.1 hrest)

theorem startsUpper_name : ClassName.startsUpper c.name = false := by
  obtain ⟨rest, hrest⟩ := c.exists_name_eq
  have hpackage : c.package ≠ [] := by
    intro hnil
    have hidentifier := c.identifiers c.package List.mem_cons_self
    rw [hnil] at hidentifier
    cases hidentifier
  rw [ClassName.startsUpper, hrest, head?_append_of_ne_nil hpackage]
  exact c.not_upper

theorem isArray_name : Kotlin.isArray c.name = false := by
  have hshort : String.ofList c.name ≠ "Array" := by
    intro heq
    have hdot := c.dot_mem_name
    rw [← String.toList_ofList (l := c.name), heq] at hdot
    revert hdot
    decide
  have hlong : String.ofList c.name ≠ "kotlin.Array" := by
    intro heq
    refine c.name_ne_package "Array".toList ?_
    rw [← String.toList_ofList (l := c.name), heq]
    rfl
  simp [Kotlin.isArray, hshort, hlong]

theorem primitiveArray?_name : Kotlin.primitiveArray? c.name = none := by
  rw [Kotlin.primitiveArray?, Kotlin.dropPackage, c.dropHead?_package_name, Option.getD_none,
    Option.bind_eq_none_iff]
  intro element helement
  have hname := dropTail?_eq_some_iff.1 helement
  have hdot : '.' ∈ element := by
    have hmem := c.dot_mem_name
    rw [hname] at hmem
    -- The dot is not in the ending that makes an array of the name.
    rcases List.mem_append.1 hmem with hmem | hmem
    · exact hmem
    · exact absurd hmem (by decide)
  have hpackage : dropHead? Kotlin.packageMark element = none := by
    refine Option.eq_none_iff_forall_ne_some.2 fun rest hrest => ?_
    rw [dropHead?_eq_some_iff.1 hrest, List.append_assoc] at hname
    exact c.name_ne_package _ hname
  rw [Kotlin.primitive?_of_dot hdot hpackage]
  rfl

theorem library?_name : Kotlin.library? c.name = none := by
  have hnone (more : List Char) : dropHead? (Kotlin.packageMark ++ more) c.name = none := by
    refine Option.eq_none_iff_forall_ne_some.2 fun rest hrest => ?_
    exact c.name_ne_package (more ++ rest) (by
      rw [← List.append_assoc]
      exact dropHead?_eq_some_iff.1 hrest)
  have hcollections : dropHead? "kotlin.collections.".toList c.name = none :=
    hnone "collections.".toList
  have hannotation : dropHead? "kotlin.annotation.".toList c.name = none :=
    hnone "annotation.".toList
  have hrows : ∀ row ∈ Kotlin.libraryClasses,
      '.' ∉ row.1.toList ∨ ClassName.startsUpper row.1.toList = true := by
    decide
  have hlookup : Kotlin.libraryClasses.lookup (String.ofList c.name) = none := by
    refine lookup_eq_none fun row hrow heq => ?_
    -- The table has short names and a few qualified ones that start with a capital letter.
    rcases hrows row hrow with hdot | hupper
    · exact hdot (heq ▸ c.dot_mem_name)
    · rw [heq, c.startsUpper_name] at hupper
      cases hupper
  have hshort : Kotlin.dropLibraryPackage c.name = c.name := by
    rw [Kotlin.dropLibraryPackage, hcollections, hannotation, Kotlin.dropPackage,
      c.dropHead?_package_name]
    rfl
  rw [Kotlin.library?, hshort, hlookup, c.dropHead?_package_name]
  rfl

theorem reference_name : reference c.name = .object c.internalName := by
  rw [reference, if_neg (by simpa using name_ne_nil c.isQualifiedName_name),
    if_pos c.isQualifiedName_name, internalName, ClassName.ofQualified, ClassName.toInternal,
    String.toList_ofList, String.toList_ofList]

end UserClass

section Scope

variable {scope : List TypeVariable} {name : List Char}

theorem bounds_parameter : ∀ p ∈ scope.map TypeVariable.parameter, p.bounds = [] := by
  intro p hp
  obtain ⟨v, -, rfl⟩ := List.mem_map.1 hp
  rfl

theorem isSome_boundsOf?_iff :
    (boundsOf? (scope.map TypeVariable.parameter) name).isSome ↔
      ∃ v ∈ scope, v.name.toList = name := by
  simp [boundsOf?, List.find?_isSome, TypeVariable.parameter]

theorem boundsOf?_of_dot (hdot : '.' ∈ name) :
    (boundsOf? (scope.map TypeVariable.parameter) name).isSome = false := by
  rw [← Bool.not_eq_true, isSome_boundsOf?_iff]
  rintro ⟨v, -, rfl⟩
  exact dot_not_mem_identifier v.identifier hdot

theorem TypeVariable.isQualifiedName_name (v : TypeVariable) :
    isQualifiedName v.name.toList = true := isQualifiedName_of_identifier v.identifier

/-- A name with a dot is the name of a class. -/
theorem Java.element_of_dot (hname : isQualifiedName name = true) (hdot : '.' ∈ name) :
    Java.element (scope.map TypeVariable.parameter) name = reference name := by
  have hkeyword : Java.keyword? (String.ofList name) = none := by
    refine Option.eq_none_iff_forall_ne_some.2 fun type htype => ?_
    have heq := congrArg String.toList (eq_keyword htype)
    rw [String.toList_ofList] at heq
    exact (keyword_found type).2.1 (heq ▸ hdot)
  simp [Java.element_name hname hkeyword, boundsOf?_of_dot hdot]

theorem Java.element_keyword (type : BaseType) :
    Java.element (scope.map TypeVariable.parameter) (keyword type).toList = .base type := by
  rw [Java.element, String.ofList_toList, (keyword_found type).2.2]

theorem Java.element_variable {v : TypeVariable} (hv : v ∈ scope) :
    Java.element (scope.map TypeVariable.parameter) v.name.toList = object := by
  have hbounds : (boundsOf? (scope.map TypeVariable.parameter) v.name.toList).isSome = true :=
    isSome_boundsOf?_iff.2 ⟨v, hv, rfl⟩
  rw [Java.element, String.ofList_toList, v.not_java.1]
  simp [hbounds]

theorem Kotlin.named_variable {v : TypeVariable} (hv : v ∈ scope) (boxed : Bool) :
    Kotlin.named (scope.map TypeVariable.parameter) boxed v.name.toList = object := by
  obtain ⟨-, harray, hprimitive, -⟩ := v.not_kotlin
  have hbounds : (boundsOf? (scope.map TypeVariable.parameter) v.name.toList).isSome = true :=
    isSome_boundsOf?_iff.2 ⟨v, hv, rfl⟩
  rw [Kotlin.named, harray, hprimitive]
  simp [hbounds]

theorem Kotlin.named_primitive (params : List TypeParameter) (type : BaseType)
    (qualified boxed : Bool) :
    Kotlin.named params boxed (kotlinQualified qualified (kotlinName type)) =
      if boxed then .object (ClassName.toInternal (boxName type)) else .base type := by
  obtain ⟨-, -, hnone, hprimitive⟩ := (kotlinName_found type qualified).1
  rw [Kotlin.named, hnone, hprimitive]

theorem Kotlin.named_primitiveArray (params : List TypeParameter) (type : BaseType)
    (qualified boxed : Bool) :
    Kotlin.named params boxed (kotlinQualified qualified (kotlinName type ++ "Array")) =
      .array (.base type) := by
  rw [Kotlin.named, (kotlinName_found type qualified).2.2.2]
  rfl

theorem Kotlin.named_user (c : UserClass) (boxed : Bool) :
    Kotlin.named (scope.map TypeVariable.parameter) boxed c.name = .object c.internalName := by
  have hprimitive : Kotlin.primitive? c.name = none :=
    Kotlin.primitive?_of_dot c.dot_mem_name c.dropHead?_package_name
  rw [Kotlin.named, c.primitiveArray?_name, hprimitive, boundsOf?_of_dot c.dot_mem_name,
    c.library?_name, c.reference_name]
  rfl

theorem Kotlin.named_library {c : LibraryClass} {name : String} (hname : name ∈ c.kotlinNames)
    (boxed : Bool) :
    Kotlin.named (scope.map TypeVariable.parameter) boxed name.toList = .object c.internalName := by
  obtain ⟨-, -, harray, hprimitive, hlibrary⟩ := c.kotlinNames_found name hname
  have hbounds : (boundsOf? (scope.map TypeVariable.parameter) name.toList).isSome = false := by
    rw [← Bool.not_eq_true, isSome_boundsOf?_iff]
    rintro ⟨v, -, hv⟩
    have hnone := v.not_kotlin.2.2.2
    rw [hv, hlibrary] at hnone
    cases hnone
  rw [Kotlin.named, harray, hprimitive, hbounds, hlibrary]
  rfl

end Scope

/-! ### Types in both languages -/

section Types

variable {scope : List TypeVariable}

mutual

theorem SourceType.isTypeText_java : (t : SourceType scope) → IsTypeText t.java
  | .primitive type _ => isTypeText_name (keyword_found type).1
  | .boxed type args .. => isTypeText_named (boxName_found type).1 args.isTypeText_java
  | .library c _ _ args _ => isTypeText_named c.javaName_found.1 args.isTypeText_java
  | .user c args _ => isTypeText_named c.isQualifiedName_name args.isTypeText_java
  | .typeVar v .. => isTypeText_name v.isQualifiedName_name
  | .array element .. => Java.isTypeText_brackets element.isTypeText_java 1

theorem SourceArgs.isTypeText_java :
    (args : SourceArgs scope) → ∀ arg ∈ args.java, IsTypeText arg
  | .nil => fun _ h => nomatch h
  | .any rest =>
    List.forall_mem_cons.2 ⟨isTypeText_char (by decide) (by decide), rest.isTypeText_java⟩
  | .exactly type rest => List.forall_mem_cons.2 ⟨type.isTypeText_java, rest.isTypeText_java⟩
  | .upper type rest => List.forall_mem_cons.2
    ⟨type.isTypeText_java.prepend (by decide) (by decide), rest.isTypeText_java⟩
  | .lower type rest => List.forall_mem_cons.2
    ⟨type.isTypeText_java.prepend (by decide) (by decide), rest.isTypeText_java⟩

end

/-- A Java text is a name with arguments and dimensions, and the name stands for the element. -/
theorem SourceType.exists_java_eq_written : (t : SourceType scope) → ∃ name args n,
    t.java = Java.written name args n ∧ isQualifiedName name = true ∧
      (∀ arg ∈ args, IsTypeText arg) ∧
      (Java.element (scope.map TypeVariable.parameter) name).arrayOf n = t.erasure
  | .primitive type _ => by
    refine ⟨(keyword type).toList, [], 0, ?_, (keyword_found type).1, by simp, ?_⟩
    · simp [SourceType.java, Java.written, group, Java.brackets]
    · exact Java.element_keyword type
  | .boxed type args .. => by
    obtain ⟨hname, hdot, hreference⟩ := boxName_found type
    refine ⟨(boxName type).toList, args.java, 0, ?_, hname, args.isTypeText_java, ?_⟩
    · simp [SourceType.java, Java.written, Java.brackets]
    · exact (Java.element_of_dot hname hdot).trans hreference
  | .library c _ _ args _ => by
    obtain ⟨hname, hdot, hreference⟩ := c.javaName_found
    refine ⟨c.javaName.toList, args.java, 0, ?_, hname, args.isTypeText_java, ?_⟩
    · simp [SourceType.java, Java.written, Java.brackets]
    · exact (Java.element_of_dot hname hdot).trans hreference
  | .user c args _ => by
    refine ⟨c.name, args.java, 0, ?_, c.isQualifiedName_name, args.isTypeText_java, ?_⟩
    · simp [SourceType.java, Java.written, Java.brackets]
    · exact (Java.element_of_dot c.isQualifiedName_name c.dot_mem_name).trans c.reference_name
  | .typeVar v hv _ => by
    refine ⟨v.name.toList, [], 0, ?_, v.isQualifiedName_name, by simp, ?_⟩
    · simp [SourceType.java, Java.written, group, Java.brackets]
    · exact Java.element_variable hv
  | .array element .. => by
    -- An array adds a dimension to whatever its element is written as.
    obtain ⟨name, args, n, hjava, hname, hargs, herasure⟩ := element.exists_java_eq_written
    refine ⟨name, args, n + 1, ?_, hname, hargs, ?_⟩
    · simp [SourceType.java, hjava, Java.written, Java.brackets]
    · rw [SourceType.erasure, ← herasure]
      rfl

theorem SourceType.erase_java (t : SourceType scope) :
    Java.erase (scope.map TypeVariable.parameter) t.java = t.erasure := by
  obtain ⟨name, args, n, hjava, hname, hargs, herasure⟩ := t.exists_java_eq_written
  rw [hjava, Java.erase_written hname hargs bounds_parameter, herasure]

theorem SourceType.erasure_of_primitive? {t : SourceType scope} {type : BaseType}
    (h : t.primitive? = some type) : t.erasure = .base type := by
  cases t with
  | primitive type' qualified =>
    cases h
    rfl
  | _ => cases h

mutual

theorem SourceType.isTypeText_kotlin : (t : SourceType scope) → (inside : Bool) →
    IsTypeText (t.kotlin inside)
  | .primitive type qualified, _ =>
    Kotlin.isTypeText_written (kotlinName_found type qualified).1.1 (by simp)
  | .boxed type args qualified nullable, inside =>
    Kotlin.isTypeText_written (kotlinName_found type qualified).1.1 args.isTypeText_kotlin
  | .library c name hname args nullable, _ =>
    Kotlin.isTypeText_written (c.kotlinNames_found name hname).1 args.isTypeText_kotlin
  | .user c args nullable, _ =>
    Kotlin.isTypeText_written c.isQualifiedName_name args.isTypeText_kotlin
  | .typeVar v _ nullable, _ => Kotlin.isTypeText_written v.isQualifiedName_name (by simp)
  | .array element qualified covariant nullable, inside => by
    have helement := Kotlin.isTypeText_covariant (element.isTypeText_kotlin true) covariant
    rw [SourceType.kotlin]
    cases element.primitive? with
    | some type =>
      exact Kotlin.isTypeText_written (kotlinName_found type qualified).2.1 (by simp)
    | none =>
      exact Kotlin.isTypeText_written (arrayName_found qualified).1 (by simpa using helement)

theorem SourceArgs.isTypeText_kotlin :
    (args : SourceArgs scope) → ∀ arg ∈ args.kotlin, IsTypeText arg
  | .nil => fun _ h => nomatch h
  | .any rest =>
    List.forall_mem_cons.2 ⟨isTypeText_char (by decide) (by decide), rest.isTypeText_kotlin⟩
  | .exactly type rest =>
    List.forall_mem_cons.2 ⟨type.isTypeText_kotlin true, rest.isTypeText_kotlin⟩
  | .upper type rest => List.forall_mem_cons.2
    ⟨(type.isTypeText_kotlin true).prepend (by decide) (by decide), rest.isTypeText_kotlin⟩
  | .lower type rest => List.forall_mem_cons.2
    ⟨(type.isTypeText_kotlin true).prepend (by decide) (by decide), rest.isTypeText_kotlin⟩

end

/-- A Kotlin text, at the outermost level or as the element of an array. There primitive types are
boxed, so that they cannot be elements themselves. -/
theorem SourceType.unlayered_kotlin : (t : SourceType scope) → (inside covariant : Bool) →
    (inside = true → t.primitive? = none) →
    Kotlin.unlayered (scope.map TypeVariable.parameter) inside
      (Kotlin.outMark covariant ++ t.kotlin inside) = t.erasure
  | .primitive type qualified, inside, covariant, hinside => by
    obtain ⟨hname, harray, -⟩ := (kotlinName_found type qualified).1
    -- Inside of another type a primitive one is always boxed.
    obtain rfl : inside = false := by
      cases inside with
      | false => rfl
      | true => cases hinside rfl
    exact (Kotlin.unlayered_written hname (by simp) harray).trans (Kotlin.named_primitive ..)
  | .boxed type args qualified nullable, inside, covariant, _ => by
    obtain ⟨hname, harray, -⟩ := (kotlinName_found type qualified).1
    -- A boxed type is nullable at the outermost level, and inside it need not be.
    have hboxed : (inside || (nullable || !inside)) = true := by
      cases inside <;> simp
    rw [SourceType.kotlin, Kotlin.unlayered_written hname args.isTypeText_kotlin harray,
      Kotlin.named_primitive, hboxed]
    rfl
  | .library c name hname args nullable, inside, covariant, _ => by
    obtain ⟨hqualified, harray, -⟩ := c.kotlinNames_found name hname
    exact (Kotlin.unlayered_written hqualified args.isTypeText_kotlin harray).trans
      (Kotlin.named_library hname _)
  | .user c args nullable, inside, covariant, _ =>
    (Kotlin.unlayered_written c.isQualifiedName_name args.isTypeText_kotlin c.isArray_name).trans
      (Kotlin.named_user c _)
  | .typeVar v hv nullable, inside, covariant, _ =>
    (Kotlin.unlayered_written v.isQualifiedName_name (by simp) v.not_kotlin.1).trans
      (Kotlin.named_variable hv _)
  | .array element qualified covariant' nullable, inside, covariant, _ => by
    rw [SourceType.kotlin]
    cases hprimitive : element.primitive? with
    | some type =>
      -- An array of a primitive type has a name of its own and takes no argument.
      obtain ⟨hname, harray, -⟩ := (kotlinName_found type qualified).2
      dsimp only
      rw [Kotlin.unlayered_written hname (by simp) harray, Kotlin.named_primitiveArray,
        SourceType.erasure, SourceType.erasure_of_primitive? hprimitive]
    | none =>
      have helement := element.unlayered_kotlin true covariant' fun _ => hprimitive
      have htext := Kotlin.isTypeText_covariant (element.isTypeText_kotlin true) covariant'
      obtain ⟨hname, harray⟩ := arrayName_found qualified
      rw [Kotlin.unlayered_array hname htext harray, helement]
      rfl

theorem SourceType.erase_kotlin (t : SourceType scope) :
    Kotlin.erase (scope.map TypeVariable.parameter) (t.kotlin false) = t.erasure := by
  rw [Kotlin.erase_eq_unlayered bounds_parameter]
  exact t.unlayered_kotlin false false nofun

/-- No type has the text for nothing. -/
theorem SourceType.java_ne_void (t : SourceType scope) : t.java ≠ "void".toList := by
  have hdot : '.' ∉ "void".toList := by decide
  have hbracket : ']' ∉ "void".toList := by decide
  intro h
  cases t with
  -- Only a name without dots and brackets could be confused with the keyword.
  | primitive type qualified =>
    have hfound := (keyword_found type).2.2
    rw [String.toList_inj.1 h] at hfound
    cases hfound
  | boxed type args qualified nullable =>
    exact hdot (h ▸ List.mem_append_left _ (boxName_found type).2.1)
  | library c name hname args nullable =>
    exact hdot (h ▸ List.mem_append_left _ c.javaName_found.2.1)
  | user c args nullable =>
    exact hdot (h ▸ List.mem_append_left _ c.dot_mem_name)
  | typeVar v hv nullable => exact v.not_java.2 (String.toList_inj.1 h)
  | array element qualified covariant nullable =>
    exact hbracket (h ▸ List.mem_append_right _ (by simp))

theorem unit_found : ∀ text ∈ ["Unit", "kotlin.Unit"],
    Kotlin.baseName text.toList = text.toList ∧ Kotlin.isArray text.toList = false ∧
      Kotlin.primitiveArray? text.toList = none ∧ Kotlin.primitive? text.toList = none ∧
      Kotlin.library? text.toList = some "kotlin/Unit" := by
  decide +kernel

theorem Kotlin.written_ne_unit {name : List Char} {args : List (List Char)} {nullable : Bool}
    (hname : isQualifiedName name = true) (hargs : ∀ arg ∈ args, IsTypeText arg)
    (hlibrary : Kotlin.isArray name = true ∨ Kotlin.primitiveArray? name ≠ none ∨
      Kotlin.primitive? name ≠ none ∨ Kotlin.library? name ≠ some "kotlin/Unit")
    {text : String} (htext : text ∈ ["Unit", "kotlin.Unit"]) :
    Kotlin.written name args nullable ≠ text.toList := by
  intro h
  obtain ⟨hbase, harray, hprimitiveArray, hprimitive, hunit⟩ := unit_found text htext
  have hbaseName :
      Kotlin.baseName (Kotlin.outMark false ++ Kotlin.written name args nullable) = name :=
    Kotlin.baseName_written hname hargs
  -- The text for nothing has no arguments, so that it would be the name.
  obtain rfl : text.toList = name := by
    rw [← hbaseName, h]
    exact hbase.symm
  simp [harray, hprimitiveArray, hprimitive, hunit] at hlibrary

theorem SourceType.kotlin_ne_unit (t : SourceType scope) (inside : Bool) {text : String}
    (htext : text ∈ ["Unit", "kotlin.Unit"]) : t.kotlin inside ≠ text.toList := by
  cases t with
  | primitive type qualified =>
    obtain ⟨hname, -, -, hprimitive⟩ := (kotlinName_found type qualified).1
    exact Kotlin.written_ne_unit hname (by simp) (.inr (.inr (.inl (by simp [hprimitive])))) htext
  | boxed type args qualified nullable =>
    obtain ⟨hname, -, -, hprimitive⟩ := (kotlinName_found type qualified).1
    exact Kotlin.written_ne_unit hname args.isTypeText_kotlin
      (.inr (.inr (.inl (by simp [hprimitive])))) htext
  | library c name hname args nullable =>
    obtain ⟨hqualified, -, -, -, hlibrary⟩ := c.kotlinNames_found name hname
    refine Kotlin.written_ne_unit hqualified args.isTypeText_kotlin (.inr (.inr (.inr ?_))) htext
    rw [hlibrary]
    cases c <;> decide
  | user c args nullable =>
    refine Kotlin.written_ne_unit c.isQualifiedName_name args.isTypeText_kotlin
      (.inr (.inr (.inr ?_))) htext
    simp [c.library?_name]
  | typeVar v hv nullable =>
    refine Kotlin.written_ne_unit v.isQualifiedName_name (by simp) (.inr (.inr (.inr ?_))) htext
    simp [v.not_kotlin.2.2.2]
  | array element qualified covariant nullable =>
    rw [SourceType.kotlin]
    cases element.primitive? with
    | some type =>
      obtain ⟨hname, -, hfound⟩ := (kotlinName_found type qualified).2
      exact Kotlin.written_ne_unit hname (by simp) (.inr (.inl (by simp [hfound]))) htext
    | none =>
      obtain ⟨hname, harray⟩ := arrayName_found qualified
      have helement := Kotlin.isTypeText_covariant (element.isTypeText_kotlin true) covariant
      exact Kotlin.written_ne_unit hname (by simpa using helement) (.inl harray) htext

theorem eraseReturn_value (dialect : Dialect) (params : List TypeParameter) {text : List Char}
    (htext : IsTypeText text) (hvoid : isVoid dialect (String.ofList text) = false) :
    eraseReturn dialect params (some (String.ofList text)) =
      .value (erase dialect params (String.ofList text)) := by
  simp [eraseReturn, htext.trimmed.trim_eq, htext.ne_nil, hvoid]

theorem eraseReturn_void {dialect : Dialect} (params : List TypeParameter) {text : String}
    (htext : trim text.toList = text.toList) (hvoid : isVoid dialect text = true) :
    eraseReturn dialect params (some text) = .void := by
  simp [eraseReturn, htext, hvoid]

theorem SourceResult.eraseReturn_java (result : SourceResult scope) :
    eraseReturn .java (scope.map TypeVariable.parameter) result.java = result.erasure := by
  cases result with
  | void java kotlin hjava hkotlin =>
    simp only [List.mem_cons, List.not_mem_nil, or_false] at hjava
    rcases hjava with rfl | rfl
    · rfl
    · exact eraseReturn_void _ (by decide) (by decide)
  | value type =>
    have hvoid : isVoid .java (String.ofList type.java) = false := by
      rw [isVoid, beq_eq_false_iff_ne]
      exact fun h => type.java_ne_void (by rw [← h, String.toList_ofList])
    rw [SourceResult.java, eraseReturn_value .java _ type.isTypeText_java hvoid, erase,
      String.toList_ofList, type.erase_java]
    rfl

theorem SourceResult.eraseReturn_kotlin (result : SourceResult scope) :
    eraseReturn .kotlin (scope.map TypeVariable.parameter) result.kotlin = result.erasure := by
  cases result with
  | void java kotlin hjava hkotlin =>
    simp only [List.mem_cons, List.not_mem_nil, or_false] at hkotlin
    rcases hkotlin with rfl | rfl | rfl
    · rfl
    · exact eraseReturn_void _ (by decide) (by decide)
    · exact eraseReturn_void _ (by decide) (by decide)
  | value type =>
    have hne {text : String} (htext : text ∈ ["Unit", "kotlin.Unit"]) :
        String.ofList (type.kotlin false) ≠ text := fun h =>
      type.kotlin_ne_unit false htext (by rw [← h, String.toList_ofList])
    have hvoid : isVoid .kotlin (String.ofList (type.kotlin false)) = false := by
      rw [isVoid, Bool.or_eq_false_iff, beq_eq_false_iff_ne, beq_eq_false_iff_ne]
      exact ⟨hne (by decide), hne (by decide)⟩
    rw [SourceResult.kotlin, eraseReturn_value .kotlin _ (type.isTypeText_kotlin false) hvoid,
      erase, String.toList_ofList, type.erase_kotlin]
    rfl

/-- **Both dialects give a method the same descriptor**, which is that of the erased types. -/
theorem methodDescriptor_java_eq_kotlin (parameters : List (SourceType scope))
    (result : SourceResult scope) :
    let params := scope.map TypeVariable.parameter
    let javaTexts := parameters.map fun t => String.ofList t.java
    let kotlinTexts := parameters.map fun t => String.ofList (t.kotlin false)
    methodDescriptor .java javaTexts result.java params =
        methodDescriptor .kotlin kotlinTexts result.kotlin params ∧
      methodDescriptor .java javaTexts result.java params =
        MethodDescriptor.render ⟨parameters.map SourceType.erasure, result.erasure⟩ := by
  intro params javaTexts kotlinTexts
  have hjava : methodType .java javaTexts result.java params =
      ⟨parameters.map SourceType.erasure, result.erasure⟩ := by
    rw [methodType, result.eraseReturn_java, List.map_map]
    congr 1
    exact List.map_congr_left fun t _ => by
      rw [Function.comp_apply, erase, String.toList_ofList, t.erase_java]
  have hkotlin : methodType .kotlin kotlinTexts result.kotlin params =
      ⟨parameters.map SourceType.erasure, result.erasure⟩ := by
    rw [methodType, result.eraseReturn_kotlin, List.map_map]
    congr 1
    exact List.map_congr_left fun t _ => by
      rw [Function.comp_apply, erase, String.toList_ofList, t.erase_kotlin]
  rw [methodDescriptor, methodDescriptor, hjava, hkotlin]
  exact ⟨rfl, rfl⟩

/-- The two texts of an array of maps from a nested class, with a type variable
among its arguments. -/
example :
    let t : TypeVariable := ⟨"T", by decide +kernel, by decide +kernel, by decide +kernel⟩
    let task : UserClass := ⟨"acme".toList, ["Task".toList, "Step".toList], by decide,
      by decide +kernel, by decide +kernel, by decide +kernel⟩
    let step : SourceType [t] :=
      .user task (.exactly (.typeVar t List.mem_cons_self false) (.any .nil)) false
    let element : SourceType [t] := .library .map "MutableMap" (by decide +kernel)
      (.exactly step (.upper (.array (.primitive .int false) true false false) .nil)) true
    let type : SourceType [t] := .array element false true false
    String.ofList type.java = "java.util.Map<acme.Task.Step<T, ?>, ? extends int[]>[]" ∧
      String.ofList (type.kotlin false) =
        "Array<out MutableMap<acme.Task.Step<T, *>, out kotlin.IntArray>?>" ∧
      step.erasure = .object "acme/Task$Step" := by
  decide +kernel

end Types

end JvmThrows.TypeText
