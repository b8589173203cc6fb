import JvmThrows.Proofs.VariableBounds

/-!
# Arrays of type variables

Array dimensions are counted in Java, and do not change what their element is erased to. In Kotlin
each `Array<..>` around a text takes one of the hops that the text has for its own bounds
(`Kotlin.Goal.erase_nestedArray`), so that in many arrays a type variable loses its bound.
-/

namespace JvmThrows

theorem FieldType.arrayOf_inj {a b : FieldType} {n : Nat} (h : a.arrayOf n = b.arrayOf n) :
    a = b := by
  induction n with
  | zero => exact h
  | succ n ih => exact ih (FieldType.array.inj h)

namespace TypeText

open Text

variable {params : List TypeParameter} {name text : List Char} {hops : Nat} {boxed : Bool}

/-! ### Java -/

namespace Java

theorem Goal.erase_written (hname : isQualifiedName name = true) (k : Nat) :
    Goal.erase params ⟨hops, written name [] k⟩ = (Goal.erase params ⟨hops, name⟩).arrayOf k := by
  have hshape : shape (written name [] k) = ⟨k, 0, name⟩ := shape_written hname (by simp) k
  have hshape' : shape name = ⟨0, 0, name⟩ := (IsNamed.of_name hname).shape_eq
  have hnext : (Goal.next? params ⟨hops, written name [] k⟩).map Subtype.val =
      (Goal.next? params ⟨hops, name⟩).map Subtype.val := by
    rw [map_next?, map_next?, hshape, hshape']
  refine eraseChain_of_same hnext ?_ ?_
  · rw [hshape, hshape']
  · rw [hshape, hshape']
    rfl

end Java

/-! ### Kotlin -/

namespace Kotlin

/-- A text in so many arrays. -/
def nestedArray : Nat → List Char → List Char
  | 0, text => text
  | k + 1, text => written ['A', 'r', 'r', 'a', 'y'] [nestedArray k text] false

theorem isTypeText_nestedArray (h : IsTypeText text) (k : Nat) :
    IsTypeText (nestedArray k text) := by
  induction k with
  | zero => exact h
  | succ k ih => exact isTypeText_written (by decide) (by simpa using ih)

theorem arrayElement?_nestedArray (h : IsTypeText text) (k : Nat) :
    (arrayElement? (nestedArray (k + 1) text)).map Subtype.val = some (nestedArray k text) := by
  have hwritten : nestedArray (k + 1) text =
      outMark false ++ written ['A', 'r', 'r', 'a', 'y'] [nestedArray k text] false := rfl
  rw [hwritten]
  exact arrayElement?_array (by decide) (isTypeText_nestedArray h k) (by decide)

theorem layers_nestedArray (h : IsTypeText text) (hlayers : layers text = [text]) (k : Nat) :
    (layers (nestedArray k text)).length = k + 1 ∧
      (layers (nestedArray k text)).getLastD (nestedArray k text) = text := by
  induction k with
  | zero =>
    -- A text that is no array is its only layer.
    rw [nestedArray, hlayers]
    exact ⟨rfl, rfl⟩
  | succ k ih =>
    -- Each array adds a layer in front, and the innermost one stays.
    have hnext := arrayElement?_nestedArray h k
    have hcons : layers (nestedArray (k + 1) text) = nestedArray (k + 1) text ::
        layers (nestedArray k text) := chain_of_next hnext
    have hlast : (layers (nestedArray (k + 1) text)).getLastD (nestedArray (k + 1) text) =
        (layers (nestedArray k text)).getLastD (nestedArray k text) := getLastD_chain_of_next hnext
    rw [hlast, hcons, List.length_cons, ih.1]
    exact ⟨rfl, ih.2⟩

/-- Each array around a text takes one of its hops. -/
theorem Goal.erase_nestedArray (h : IsTypeText text) (hlayers : layers text = [text]) (k : Nat) :
    Goal.erase params ⟨hops, boxed, nestedArray k text⟩ =
      (Goal.erase params ⟨hops - k, boxed || k != 0, text⟩).arrayOf k := by
  obtain ⟨hlength, hlast⟩ := layers_nestedArray h hlayers k
  have hinner : Goal.inner ⟨hops, boxed, nestedArray k text⟩ = text := hlast
  have hdims : Goal.dims ⟨hops, boxed, nestedArray k text⟩ = k := by
    rw [Goal.dims, hlength, Nat.add_sub_cancel]
  have hinner' : Goal.inner ⟨hops - k, boxed || k != 0, text⟩ = text := by
    simp [Goal.inner, hlayers]
  have hdims' : Goal.dims ⟨hops - k, boxed || k != 0, text⟩ = 0 := by
    simp [Goal.dims, hlayers]
  have hnext : (Goal.next? params ⟨hops, boxed, nestedArray k text⟩).map Subtype.val =
      (Goal.next? params ⟨hops - k, boxed || k != 0, text⟩).map Subtype.val := by
    rw [map_next?, map_next?, hinner, hinner', hdims, hdims', Nat.sub_zero]
  refine eraseChain_of_same hnext ?_ ?_
  · rw [hinner, hinner', hdims, hdims']
    simp
  · rw [hdims, hdims', Nat.add_zero]

/-- Names that Kotlin has types of its own for. -/
def isBuiltin (name : List Char) : Bool := isReserved .kotlin name || (library? name).isSome

theorem named_of_not_isBuiltin (h : isBuiltin name = false) :
    named [] boxed name = reference name := by
  simp only [isBuiltin, Bool.or_eq_false_iff, Option.isSome_eq_false_iff,
    Option.isNone_iff_eq_none] at h
  obtain ⟨-, hprimitiveArray, hprimitive⟩ := of_isReserved h.1
  simp [named, hprimitiveArray, hprimitive, h.2, boundsOf?]

end Kotlin

/-! ### Variables with a class as their first bound -/

/-- A type variable whose first bound names a class that is the same in both dialects. -/
structure HasClassBound (params : List TypeParameter) (var name : List Char) : Prop where
  identifier : isIdentifier var = true
  unreserved : ∀ dialect, isReserved dialect var = false
  bound : ∃ bound bounds, boundsOf? params var = some (bound :: bounds) ∧
    NamesClass .java params name bound.toList
  not_builtin : Kotlin.isBuiltin name = false

namespace HasClassBound

variable {var : List Char} (h : HasClassBound params var name)
include h

theorem isNamed : IsNamed var var := .of_name (isQualifiedName_of_identifier h.identifier)

/-- With a hop left the variable is the class. -/
theorem eraseWithin_succ (dialect : Dialect) :
    eraseWithin dialect params boxed (hops + 1) var = reference name := by
  obtain ⟨bound, bounds, hbounds, hclass⟩ := h.bound
  rw [h.isNamed.eraseWithin_succ (h.unreserved dialect) hbounds]
  cases dialect with
  | java => exact hclass.eraseWithin_class hclass.class_name hclass.boundsOf?_eq_none
  | kotlin =>
    -- Reserved names would stand for other classes.
    have hreserved : isReserved .kotlin name = false := (Bool.or_eq_false_iff.1 h.not_builtin).1
    rw [hclass.eraseWithin_class (isClassName_of_isReserved hreserved)
      hclass.boundsOf?_eq_none]
    exact Kotlin.named_of_not_isBuiltin h.not_builtin

theorem eraseWithin_zero (dialect : Dialect) :
    eraseWithin dialect params boxed 0 var = object := by
  obtain ⟨bound, bounds, hbounds, -⟩ := h.bound
  exact h.isNamed.eraseWithin_end (h.unreserved dialect) hbounds (.inr rfl)

theorem erase_eq (dialect : Dialect) :
    erase dialect params (String.ofList var) = reference name := by
  rw [erase_eq_eraseWithin, String.toList_ofList]
  exact h.eraseWithin_succ dialect

theorem erase_written (k : Nat) :
    erase .java params (String.ofList (Java.written var [] k)) = (reference name).arrayOf k := by
  rw [← h.erase_eq .java, erase_eq_eraseWithin, erase_eq_eraseWithin, String.toList_ofList,
    String.toList_ofList]
  exact Java.Goal.erase_written h.isNamed.qualified k

theorem erase_nestedArray (k : Nat) :
    erase .kotlin params (String.ofList (Kotlin.nestedArray k var)) =
      (if k < 8 then reference name else object).arrayOf k := by
  have hlayers := h.isNamed.layers_eq (Kotlin.of_isReserved (h.unreserved .kotlin)).1
  have hnested : eraseWithin .kotlin params false maxBoundDepth (Kotlin.nestedArray k var) =
      (eraseWithin .kotlin params (false || k != 0) (maxBoundDepth - k) var).arrayOf k :=
    Kotlin.Goal.erase_nestedArray (isTypeText_name h.isNamed.qualified) hlayers k
  rw [erase_eq_eraseWithin, String.toList_ofList, hnested]
  split
  · -- With hops left, the bound is looked up.
    rename_i hlt
    obtain ⟨left, hleft⟩ := Nat.exists_eq_add_of_lt hlt
    have hhops : maxBoundDepth - k = left + 1 := by
      rw [maxBoundDepth]
      omega
    rw [hhops, h.eraseWithin_succ]
  · -- All hops were used on the way in, and the bound is not looked at.
    rename_i hge
    have hhops : maxBoundDepth - k = 0 := Nat.sub_eq_zero_of_le (Nat.le_of_not_lt hge)
    rw [hhops, h.eraseWithin_zero]

end HasClassBound

/-- **Arrays of a type variable.** In Java and in fewer than eight arrays of Kotlin they are the
arrays of what the variable is erased to, which is the same in both. In eight arrays or more Kotlin
has no hop left for the bound: the variable counts as `Object` then, and the arrays are the ones of
its erasure only if that was the bound anyway. -/
theorem erase_nestedArray_eq_iff (params : List TypeParameter) (var name : List Char)
    (h : HasClassBound params var name) (k : Nat) :
    erase .java params (String.ofList var) = erase .kotlin params (String.ofList var) ∧
    erase .java params (String.ofList (Java.written var [] k)) =
      (erase .java params (String.ofList var)).arrayOf k ∧
    erase .kotlin params (String.ofList (Kotlin.nestedArray k var)) =
      (if k < 8 then erase .kotlin params (String.ofList var) else object).arrayOf k ∧
    (erase .kotlin params (String.ofList (Kotlin.nestedArray k var)) =
        (erase .kotlin params (String.ofList var)).arrayOf k ↔
      k < 8 ∨ erase .kotlin params (String.ofList var) = object) := by
  rw [h.erase_eq, h.erase_eq, h.erase_written, h.erase_nestedArray]
  refine ⟨rfl, rfl, rfl, ?_⟩
  split
  · rename_i hlt
    exact iff_of_true rfl (.inl hlt)
  · -- Beyond that both agree only where the bound is `Object` anyway.
    rename_i hge
    rw [or_iff_right hge]
    exact ⟨fun heq => (FieldType.arrayOf_inj heq).symm, fun heq => by rw [heq]⟩

/-- One type variable with a bound. -/
def oneBound : List TypeParameter := [⟨"T", ["a.B"]⟩]

theorem hasClassBound_oneBound : HasClassBound oneBound ['T'] ['a', '.', 'B'] where
  identifier := by decide +kernel
  unreserved dialect := by cases dialect <;> decide +kernel
  bound := ⟨"a.B", [], by decide +kernel,
    { IsNamed.of_name (by decide +kernel) with
      class_name := by decide +kernel
      not_variable := by decide +kernel }⟩
  not_builtin := by decide +kernel

theorem erase_nestedArray_three :
    erase .kotlin oneBound "Array<Array<Array<T>>>" = (erase .kotlin oneBound "T").arrayOf 3 ∧
      erase .java oneBound "T[][][]" = (erase .java oneBound "T").arrayOf 3 := by
  have hall := erase_nestedArray_eq_iff oneBound ['T'] ['a', '.', 'B'] hasClassBound_oneBound 3
  have hkotlin : String.ofList (Kotlin.nestedArray 3 ['T']) = "Array<Array<Array<T>>>" := by
    decide +kernel
  have hjava : String.ofList (Java.written ['T'] [] 3) = "T[][][]" := by decide +kernel
  rw [hkotlin, hjava] at hall
  exact ⟨hall.2.2.2.2 (.inl (by decide)), hall.2.1⟩

/-- The eighth array takes the last hop. -/
theorem erase_nestedArray_eight_ne :
    erase .kotlin oneBound "Array<Array<Array<Array<Array<Array<Array<Array<T>>>>>>>>" =
        object.arrayOf 8 ∧
      erase .kotlin oneBound "Array<Array<Array<Array<Array<Array<Array<Array<T>>>>>>>>" ≠
        (erase .kotlin oneBound "T").arrayOf 8 := by
  have hnested := hasClassBound_oneBound.erase_nestedArray 8
  have hvar := hasClassBound_oneBound.erase_eq .kotlin
  have htext : String.ofList (Kotlin.nestedArray 8 ['T']) =
      "Array<Array<Array<Array<Array<Array<Array<Array<T>>>>>>>>" := by decide +kernel
  have hname : String.ofList ['T'] = "T" := by decide +kernel
  rw [htext, if_neg (Nat.lt_irrefl 8)] at hnested
  rw [hname] at hvar
  rw [hnested, hvar]
  refine ⟨rfl, fun heq => ?_⟩
  have hne : object ≠ reference ['a', '.', 'B'] := by decide +kernel
  exact hne (FieldType.arrayOf_inj heq)

end TypeText

end JvmThrows
