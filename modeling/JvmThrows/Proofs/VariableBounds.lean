import JvmThrows.Proofs.ClassTexts
import JvmThrows.Proofs.DialectAgreement
import JvmThrows.Proofs.ErasedNames
import Mathlib.Data.List.Chain
import Mathlib.Data.List.Nodup

/-!
# Type variables and their bounds

A type variable is erased to the erasure of its first bound, which may be a variable again. Both
dialects are followed at once here: `eraseWithin` is the erasure with some hops left, which a
variable spends one at a time (`IsNamed.eraseWithin_succ`, `IsNamed.eraseWithin_end`). By induction
along a path of variables this gives the erasure of the first one (`erase_variable`). Paths that
come back to a variable need no limit of their own: they go on until no hop is left.
-/

namespace JvmThrows

/-- The type of the values as objects. -/
def FieldType.boxed : FieldType → FieldType
  | .base type => .object (ClassName.toInternal (TypeText.boxName type))
  | type => type

namespace TypeText

open Text

variable {params : List TypeParameter} {name text : List Char} {bound : String}
  {bounds : List String} {hops : Nat}

/-! ### Names in both dialects -/

/-- Names that stand for other types than classes, whatever variables there are. -/
def isReserved : Dialect → List Char → Bool
  | .java, name => (Java.keyword? (String.ofList name)).isSome
  | .kotlin, name =>
    Kotlin.isArray name || (Kotlin.primitiveArray? name).isSome || (Kotlin.primitive? name).isSome

/-- Names that stand for classes, unless variables have them. In Kotlin this includes the primitive
types, which are classes as bounds. -/
def isClassName : Dialect → List Char → Bool
  | .java, name => (Java.keyword? (String.ofList name)).isNone
  | .kotlin, name => !Kotlin.isArray name

/-- What a name stands for by itself. -/
def nameType : Dialect → List TypeParameter → Bool → List Char → FieldType
  | .java, params, _, name => Java.element params name
  | .kotlin, params, boxed, name => Kotlin.named params boxed name

/-- What the name of a class stands for. -/
def classType : Dialect → Bool → List Char → FieldType
  | .java, _, name => reference name
  | .kotlin, boxed, name => Kotlin.named [] boxed name

/-- The erasure of a text that may take some hops. In Kotlin it may be in a place where primitive
types are boxed. -/
def eraseWithin (dialect : Dialect) (params : List TypeParameter) (boxed : Bool) (hops : Nat)
    (text : List Char) : FieldType :=
  match dialect with
  | .java => Java.Goal.erase params ⟨hops, text⟩
  | .kotlin => Kotlin.Goal.erase params ⟨hops, boxed, text⟩

section Dialects

variable {dialect : Dialect} {boxed : Bool}

theorem erase_eq_eraseWithin (params : List TypeParameter) (text : String) :
    erase dialect params text =
      eraseWithin dialect params false maxBoundDepth text.toList := by
  cases dialect <;> rfl

theorem Kotlin.of_isReserved (hname : isReserved .kotlin name = false) :
    Kotlin.isArray name = false ∧ Kotlin.primitiveArray? name = none ∧
      Kotlin.primitive? name = none := by
  simpa [isReserved, and_assoc] using hname

theorem isClassName_of_isReserved (hname : isReserved dialect name = false) :
    isClassName dialect name = true := by
  cases dialect with
  | java => simpa [isReserved, isClassName] using hname
  | kotlin => simp [isClassName, (Kotlin.of_isReserved hname).1]

theorem nameType_of_variable (hqualified : isQualifiedName name = true)
    (hname : isReserved dialect name = false) (hbounds : boundsOf? params name = some bounds) :
    nameType dialect params boxed name = object := by
  cases dialect with
  | java =>
    -- A variable that is not followed to its bound stands for any object.
    rw [nameType, Java.element_name hqualified (by simpa [isReserved] using hname), hbounds]
    rfl
  | kotlin =>
    obtain ⟨-, hprimitiveArray, hprimitive⟩ := Kotlin.of_isReserved hname
    rw [nameType, Kotlin.named, hprimitiveArray, hprimitive, hbounds]
    rfl

theorem nameType_of_class (hqualified : isQualifiedName name = true)
    (hname : isClassName dialect name = true) (hnone : boundsOf? params name = none) :
    nameType dialect params boxed name = classType dialect boxed name := by
  cases dialect with
  | java =>
    rw [nameType, Java.element_name hqualified (by simpa [isClassName] using hname), hnone]
    rfl
  | kotlin =>
    rw [nameType, classType, Kotlin.named, Kotlin.named, hnone]
    rfl

namespace IsNamed

variable (h : IsNamed name text)
include h

theorem inner_eq (harray : Kotlin.isArray name = false) (hops : Nat) (boxed : Bool) :
    Kotlin.Goal.inner ⟨hops, boxed, text⟩ = text ∧ Kotlin.Goal.dims ⟨hops, boxed, text⟩ = 0 := by
  simp [Kotlin.Goal.inner, Kotlin.Goal.dims, h.layers_eq harray]

theorem isPlain_kotlin (hname : isReserved .kotlin name = false) : Kotlin.isPlain text = true := by
  obtain ⟨harray, hprimitiveArray, hprimitive⟩ := Kotlin.of_isReserved hname
  simp [Kotlin.isPlain, bne, h.body_ne, h.baseName_eq, harray, hprimitiveArray, hprimitive]

/-- From a variable one hop leads to its first bound. -/
theorem eraseWithin_succ (hname : isReserved dialect name = false)
    (hbounds : boundsOf? params name = some (bound :: bounds)) :
    eraseWithin dialect params boxed (hops + 1) text =
      eraseWithin dialect params true hops bound.toList := by
  cases dialect with
  | java =>
    have hshape := h.shape_eq
    have hplain := Java.isPlain_name h.qualified (by simpa [isReserved] using hname)
    have hfound : boundsOf? params (Java.shape text).name = some (bound :: bounds) := by
      rw [hshape]
      exact hbounds
    have hnext : (Java.Goal.next? params ⟨hops + 1, text⟩).map Subtype.val =
        some ⟨hops, bound.toList⟩ :=
      Java.Goal.next?_eq_some (by rw [hshape]; exact hplain) hfound (by rw [hshape]; rfl)
    have herase := Java.Goal.erase_of_next hnext
    rw [hshape] at herase
    exact herase
  | kotlin =>
    have harray := (Kotlin.of_isReserved hname).1
    obtain ⟨hinner, hdims⟩ := h.inner_eq harray (hops + 1) boxed
    have hplain := h.isPlain_kotlin hname
    have hfound : boundsOf? params (Kotlin.baseName (Kotlin.Goal.inner ⟨hops + 1, boxed, text⟩)) =
        some (bound :: bounds) := by
      rw [hinner, h.baseName_eq]
      exact hbounds
    have hnext : (Kotlin.Goal.next? params ⟨hops + 1, boxed, text⟩).map Subtype.val =
        some ⟨hops, true, bound.toList⟩ :=
      Kotlin.Goal.next?_eq_some (by rw [hinner]; exact hplain) hfound (by rw [hdims]; rfl)
    have herase := Kotlin.Goal.erase_of_next hnext
    rw [hdims] at herase
    exact herase

/-- Without a hop to take, the name decides. -/
theorem eraseWithin_of_stop (hname : isClassName dialect name = true)
    (hstop : hop? (boundsOf? params name) hops = none) :
    eraseWithin dialect params boxed hops text = nameType dialect params boxed name := by
  cases dialect with
  | java =>
    have hshape := h.shape_eq
    have hnext : Java.Goal.next? params ⟨hops, text⟩ = none := by
      refine Java.Goal.next?_eq_none ?_
      rw [hshape]
      exact hstop
    have herase := Java.Goal.erase_of_none hnext
    rw [hshape] at herase
    exact herase
  | kotlin =>
    have harray : Kotlin.isArray name = false := by simpa [isClassName] using hname
    obtain ⟨hinner, hdims⟩ := h.inner_eq harray hops boxed
    have hnext : Kotlin.Goal.next? params ⟨hops, boxed, text⟩ = none := by
      refine Kotlin.Goal.next?_eq_none ?_
      rw [hinner, hdims, h.baseName_eq]
      exact hstop
    have herase := Kotlin.Goal.erase_of_none hnext
    rw [hinner, hdims, h.element_eq harray, bne_self_eq_false, Bool.or_false] at herase
    exact herase

/-- Without bounds or hops a variable may be anything. -/
theorem eraseWithin_end (hname : isReserved dialect name = false)
    (hbounds : boundsOf? params name = some bounds) (hend : bounds = [] ∨ hops = 0) :
    eraseWithin dialect params boxed hops text = object := by
  have hstop : hop? (boundsOf? params name) hops = none := by
    refine hop?_eq_none fun bound bounds' left hcons hhops => ?_
    rw [hbounds] at hcons
    rcases hend with rfl | rfl
    · -- Neither without a bound nor without a hop is there a next text.
      cases hcons
    · cases hhops
  rw [h.eraseWithin_of_stop (isClassName_of_isReserved hname) hstop,
    nameType_of_variable h.qualified hname hbounds]

/-- A name that is no variable stands for its class, whatever hops are left. -/
theorem eraseWithin_class (hname : isClassName dialect name = true)
    (hnone : boundsOf? params name = none) :
    eraseWithin dialect params boxed hops text = classType dialect boxed name := by
  have hstop : hop? (boundsOf? params name) hops = none := by
    refine hop?_eq_none fun bound bounds left hcons => ?_
    rw [hnone] at hcons
    cases hcons
  rw [h.eraseWithin_of_stop hname hstop, nameType_of_class h.qualified hname hnone]

end IsNamed

theorem boxed_reference (name : List Char) : (reference name).boxed = reference name := by
  unfold reference
  split
  · rfl
  · split <;> rfl

theorem Kotlin.box_eq {type : BaseType} {box : String}
    (h : Kotlin.primitive? name = some (type, box)) :
    box = ClassName.toInternal (boxName type) := by
  have hrows : (Kotlin.primitives.all fun row =>
      row.2.2 == ClassName.toInternal (boxName row.2.1)) = true := by
    decide +kernel
  obtain ⟨row, hrow, heq⟩ := Kotlin.exists_mem_of_lookup h
  have hbox := List.all_eq_true.1 hrows row hrow
  rw [heq] at hbox
  exact beq_iff_eq.1 hbox

theorem boxed_classType (dialect : Dialect) (name : List Char) :
    (classType dialect false name).boxed = classType dialect true name := by
  cases dialect with
  | java => exact boxed_reference name
  | kotlin =>
    unfold classType Kotlin.named
    dsimp only
    cases Kotlin.primitiveArray? name with
    | some type => rfl
    | none =>
      cases hprimitive : Kotlin.primitive? name with
      -- Primitives are the only types that change when boxed.
      | some row =>
        obtain ⟨type, box⟩ := row
        simp [FieldType.boxed, Kotlin.box_eq hprimitive]
      | none =>
        dsimp only
        split
        · rfl
        · cases Kotlin.library? name with
          | some internal => rfl
          | none => exact boxed_reference name

/-- The class itself, read as a text of its own. -/
theorem erase_nil_name (hqualified : isQualifiedName name = true)
    (hname : isClassName dialect name = true) :
    erase dialect [] (String.ofList name) = classType dialect false name := by
  rw [erase_eq_eraseWithin, String.toList_ofList]
  exact (IsNamed.of_name hqualified).eraseWithin_class hname rfl

end Dialects

/-! ### From bound to bound -/

/-- Type variables as a declaration has them: under different names, which are identifiers and stand
for nothing else. -/
structure WellScoped (dialect : Dialect) (params : List TypeParameter) : Prop where
  distinct : (params.map TypeParameter.name).Nodup
  identifiers : ∀ p ∈ params, isIdentifier p.name.toList = true
  unreserved : ∀ p ∈ params, isReserved dialect p.name.toList = false

/-- The text is the name of a class that no variable has, with type arguments or without. -/
structure NamesClass (dialect : Dialect) (params : List TypeParameter)
    (name text : List Char) : Prop extends IsNamed name text where
  class_name : isClassName dialect name = true
  not_variable : ∀ p ∈ params, p.name.toList ≠ name

/-- Each variable has the next one as its first bound. -/
structure IsBoundPath (params path : List TypeParameter) : Prop where
  subset : path ⊆ params
  bounds : path.IsChain fun p q => p.bounds.head? = some q.name

section Paths

variable {dialect : Dialect} {boxed : Bool} {p q v : TypeParameter} {path : List TypeParameter}

theorem boundsOf?_of_mem (hdistinct : (params.map TypeParameter.name).Nodup) (hp : p ∈ params) :
    boundsOf? params p.name.toList = some p.bounds := by
  have hfound : (params.find? fun q => q.name.toList == p.name.toList).isSome = true :=
    List.find?_isSome.2 ⟨p, hp, by simp⟩
  obtain ⟨q, hq⟩ := Option.isSome_iff_exists.1 hfound
  have hname : q.name = p.name := String.toList_inj.1 (by simpa using List.find?_some hq)
  rw [boundsOf?, hq, List.inj_on_of_nodup_map hdistinct (List.mem_of_find?_eq_some hq) hp hname]
  rfl

theorem IsBoundPath.tail (h : IsBoundPath params (v :: q :: path)) :
    v.bounds.head? = some q.name ∧ IsBoundPath params (q :: path) := by
  obtain ⟨hbound, hbounds⟩ := List.isChain_cons_cons.1 h.bounds
  exact ⟨hbound, fun p hp => h.subset (List.mem_cons_of_mem v hp), hbounds⟩

theorem NamesClass.boundsOf?_eq_none (h : NamesClass dialect params name text) :
    boundsOf? params name = none := by
  simpa [boundsOf?] using h.not_variable

theorem NamesClass.eraseWithin_eq (h : NamesClass dialect params name text) :
    eraseWithin dialect params true hops text = (erase dialect [] (String.ofList name)).boxed := by
  rw [h.eraseWithin_class h.class_name h.boundsOf?_eq_none, ← boxed_classType,
    erase_nil_name h.qualified h.class_name]

namespace WellScoped

variable (h : WellScoped dialect params)
include h

theorem isNamed (hp : p ∈ params) : IsNamed p.name.toList p.name.toList :=
  .of_name (isQualifiedName_of_identifier (h.identifiers p hp))

theorem eraseWithin_succ (hp : p ∈ params) (hbound : p.bounds.head? = some bound) :
    eraseWithin dialect params boxed (hops + 1) p.name.toList =
      eraseWithin dialect params true hops bound.toList := by
  have hbounds := boundsOf?_of_mem h.distinct hp
  obtain ⟨bounds, hcons⟩ := List.head?_eq_some_iff.1 hbound
  rw [hcons] at hbounds
  exact (h.isNamed hp).eraseWithin_succ (h.unreserved p hp) hbounds

theorem eraseWithin_end (hp : p ∈ params) (hend : p.bounds = [] ∨ hops = 0) :
    eraseWithin dialect params boxed hops p.name.toList = object :=
  (h.isNamed hp).eraseWithin_end (h.unreserved p hp) (boundsOf?_of_mem h.distinct hp) hend

/-- Nothing is boxed before the first hop. -/
theorem eraseWithin_boxed (hp : p ∈ params) :
    eraseWithin dialect params boxed hops p.name.toList =
      eraseWithin dialect params true hops p.name.toList := by
  cases hops with
  -- Without hops the variable stands for any object, boxed or not.
  | zero => rw [h.eraseWithin_end hp (.inr rfl), h.eraseWithin_end hp (.inr rfl)]
  | succ hops =>
    cases hbounds : p.bounds with
    | nil => rw [h.eraseWithin_end hp (.inl hbounds), h.eraseWithin_end hp (.inl hbounds)]
    | cons bound bounds =>
      have hbound : p.bounds.head? = some bound := by rw [hbounds]; rfl
      rw [h.eraseWithin_succ hp hbound, h.eraseWithin_succ hp hbound]

/-- Along a path each variable but the last takes one hop. -/
theorem eraseWithin_path (hpath : IsBoundPath params (v :: path)) (hle : path.length ≤ hops) :
    eraseWithin dialect params true hops v.name.toList =
      eraseWithin dialect params true (hops - path.length) (path.getLastD v).name.toList := by
  induction path generalizing v hops with
  | nil => rfl
  | cons q path ih =>
    obtain ⟨hbound, htail⟩ := hpath.tail
    cases hops with
    -- The path is not longer than the hops.
    | zero => exact absurd hle (Nat.not_succ_le_zero _)
    | succ hops =>
      rw [h.eraseWithin_succ (hpath.subset List.mem_cons_self) hbound,
        ih htail (Nat.le_of_succ_le_succ hle), List.getLastD_cons, List.length_cons,
        Nat.add_sub_add_right]

/-- A path that is longer than hops are left ends in the midst of variables. -/
theorem eraseWithin_of_long (hpath : IsBoundPath params (v :: path)) (hle : hops ≤ path.length) :
    eraseWithin dialect params true hops v.name.toList = object := by
  have hv : v ∈ params := hpath.subset List.mem_cons_self
  induction path generalizing v hops with
  | nil => exact h.eraseWithin_end hv (.inr (Nat.le_zero.1 hle))
  | cons q path ih =>
    cases hops with
    | zero => exact h.eraseWithin_end hv (.inr rfl)
    | succ hops =>
      obtain ⟨hbound, htail⟩ := hpath.tail
      rw [h.eraseWithin_succ hv hbound]
      exact ih htail (Nat.le_of_succ_le_succ hle) (htail.subset List.mem_cons_self)

theorem eraseWithin_of_unbounded (hpath : IsBoundPath params (v :: path))
    (hlast : (path.getLastD v).bounds = []) :
    eraseWithin dialect params true hops v.name.toList = object := by
  rcases Nat.le_total path.length hops with hle | hle
  · -- The hops last until the end of the path, which has no bound.
    rw [h.eraseWithin_path hpath hle]
    exact h.eraseWithin_end (hpath.subset List.getLastD_mem_cons) (.inl hlast)
  · exact h.eraseWithin_of_long hpath hle

/-- Whatever hops are left, they are spent on going round. -/
theorem eraseWithin_of_round (hpath : IsBoundPath params (v :: (path ++ [v]))) :
    eraseWithin dialect params true hops v.name.toList = object := by
  induction hops using Nat.strongRecOn with
  | ind hops ih =>
    rcases Nat.le_total (path ++ [v]).length hops with hle | hle
    · -- One round later the variable is the same, with fewer hops.
      rw [h.eraseWithin_path hpath hle, List.getLastD_concat]
      have hlength : 0 < (path ++ [v]).length := by simp
      exact ih _ (by omega)
    · exact h.eraseWithin_of_long hpath hle

/-- A path that comes back to a variable goes on forever. -/
theorem eraseWithin_of_circle (hpath : IsBoundPath params (v :: path))
    (hcircle : ¬ (v :: path).Nodup) :
    eraseWithin dialect params true hops v.name.toList = object := by
  induction path generalizing v hops with
  | nil => exact absurd (List.nodup_singleton v) hcircle
  | cons q path ih =>
    by_cases hv : v ∈ q :: path
    · -- Up to the second place of the variable, the path is a round.
      obtain ⟨front, back, hsplit⟩ := List.append_of_mem hv
      have happend : v :: q :: path = (v :: (front ++ [v])) ++ back := by simp [hsplit]
      rw [happend] at hpath
      exact h.eraseWithin_of_round ⟨fun p hp => hpath.subset (List.mem_append_left _ hp),
        hpath.bounds.left_of_append⟩
    · -- The first variable is not met again, so that the circle is further on.
      cases hops with
      | zero => exact h.eraseWithin_end (hpath.subset List.mem_cons_self) (.inr rfl)
      | succ hops =>
        obtain ⟨hbound, htail⟩ := hpath.tail
        rw [h.eraseWithin_succ (hpath.subset List.mem_cons_self) hbound]
        exact ih htail fun hnodup => hcircle (List.nodup_cons.2 ⟨hv, hnodup⟩)

theorem eraseWithin_of_class (hpath : IsBoundPath params (v :: path))
    (hbound : (path.getLastD v).bounds.head? = some bound)
    (hclass : NamesClass dialect params name bound.toList) (hlt : path.length < hops) :
    eraseWithin dialect params true hops v.name.toList =
      (erase dialect [] (String.ofList name)).boxed := by
  obtain ⟨left, hleft⟩ := Nat.exists_eq_add_of_lt hlt
  have hlast : path.getLastD v ∈ params := hpath.subset List.getLastD_mem_cons
  have hone : hops - path.length = left + 1 := by omega
  rw [h.eraseWithin_path hpath (Nat.le_of_lt hlt), hone, h.eraseWithin_succ hlast hbound]
  exact hclass.eraseWithin_eq

end WellScoped

end Paths

/-- **Type variables erase along their first bounds.** If at most eight variables lead to the name
of a class, the first of them is erased as the class is, boxed if that is a primitive type. If they
lead to a variable without bounds, or are more than eight, or come back to one of them, then the
first is erased to `Object`. -/
theorem erase_variable (dialect : Dialect) (params : List TypeParameter)
    (hscope : WellScoped dialect params) (v : TypeParameter) (path : List TypeParameter)
    (hpath : IsBoundPath params (v :: path)) :
    (∀ bound name, (path.getLastD v).bounds.head? = some bound →
      NamesClass dialect params name bound.toList → (v :: path).length ≤ 8 →
      erase dialect params v.name = (erase dialect [] (String.ofList name)).boxed) ∧
    ((path.getLastD v).bounds = [] ∨ 8 < (v :: path).length ∨ ¬ (v :: path).Nodup →
      erase dialect params v.name = object) := by
  have hv : v ∈ params := hpath.subset List.mem_cons_self
  rw [erase_eq_eraseWithin, hscope.eraseWithin_boxed hv]
  refine ⟨fun bound name hbound hclass hle => ?_, ?_⟩
  · exact hscope.eraseWithin_of_class hpath hbound hclass hle
  · rintro (hlast | hlt | hcircle)
    · exact hscope.eraseWithin_of_unbounded hpath hlast
    · exact hscope.eraseWithin_of_long hpath (Nat.le_of_lt_succ hlt)
    · exact hscope.eraseWithin_of_circle hpath hcircle

/-- Eight variables in a row and one before them, two that bound each other, one without bounds and
one with a primitive type. -/
def boundedRow : List TypeParameter :=
  [⟨"A", ["B"]⟩, ⟨"B", ["C"]⟩, ⟨"C", ["D"]⟩, ⟨"D", ["E", "X"]⟩, ⟨"E", ["F"]⟩, ⟨"F", ["G"]⟩,
    ⟨"G", ["H"]⟩, ⟨"H", ["Set<A>"]⟩, ⟨"Z", ["A"]⟩, ⟨"X", ["Y"]⟩, ⟨"Y", ["X"]⟩, ⟨"U", []⟩,
    ⟨"P", ["Int"]⟩]

theorem erase_boundedRow :
    erase .kotlin boundedRow "A" = .object "java/util/Set" ∧
      erase .kotlin boundedRow "P" = .object "java/lang/Integer" ∧
      erase .kotlin boundedRow "Z" = object ∧ erase .kotlin boundedRow "X" = object ∧
      erase .kotlin boundedRow "U" = object := by
  have hscope : WellScoped .kotlin boundedRow := by
    constructor <;> decide +kernel
  have hset : NamesClass .kotlin boundedRow "Set".toList "Set<A>".toList :=
    { qualified := by decide +kernel
      spelled := .char (by decide) (.char (by decide) (.char (by decide)
        (.group (.char (by decide) (by decide) (by decide) .nil) .nil)))
      annotations := fun w hw hat => absurd hat (by revert w hw; decide +kernel)
      class_name := by decide +kernel
      not_variable := by decide +kernel }
  have hint : NamesClass .kotlin boundedRow "Int".toList "Int".toList :=
    { IsNamed.of_name (by decide +kernel) with
      class_name := by decide +kernel
      not_variable := by decide +kernel }
  refine ⟨?_, ?_, ?_, ?_, ?_⟩
  · rw [(erase_variable .kotlin boundedRow hscope ⟨"A", ["B"]⟩ ((boundedRow.drop 1).take 7)
      ⟨by decide +kernel, by decide +kernel⟩).1 "Set<A>" _ rfl hset (by decide),
      erase_nil_name hset.qualified hset.class_name]
    decide +kernel
  · rw [(erase_variable .kotlin boundedRow hscope ⟨"P", ["Int"]⟩ []
      ⟨by decide +kernel, by decide +kernel⟩).1 "Int" _ rfl hint (by decide),
      erase_nil_name hint.qualified hint.class_name]
    decide +kernel
  · exact (erase_variable .kotlin boundedRow hscope ⟨"Z", ["A"]⟩ (boundedRow.take 8)
      ⟨by decide +kernel, by decide +kernel⟩).2 (.inr (.inl (by decide)))
  · exact (erase_variable .kotlin boundedRow hscope ⟨"X", ["Y"]⟩ [⟨"Y", ["X"]⟩, ⟨"X", ["Y"]⟩]
      ⟨by decide +kernel, by decide +kernel⟩).2 (.inr (.inr (by decide +kernel)))
  · exact (erase_variable .kotlin boundedRow hscope ⟨"U", []⟩ []
      ⟨by decide +kernel, by decide +kernel⟩).2 (.inl rfl)

end TypeText

end JvmThrows
