import JvmThrows.Assembly.Body
import JvmThrows.Proofs.Descriptors

/-!
# Counting argument slots

The assembler counts the argument slots of a call with a scan of its own over the text of the
descriptor: it skips the names of classes and the dimensions of arrays, and knows nothing of types.
The count is nevertheless that of the types that are read from the text (`argumentSlots_parse`). The
scan over the text of one type adds the slots of this type and stands behind it
(`parameterSlots_chars_append`). It adds in one byte, so the sum has to fit in one.
-/

namespace JvmThrows

namespace FieldType

/-- What an array holds in the end; any other type itself. -/
def element : FieldType → FieldType
  | array component => component.element
  | base type => base type
  | object name => object name

variable {type : FieldType} {rest : List Char}

theorem element_cases (type : FieldType) :
    (∃ primitive, type.element = base primitive) ∨ ∃ name, type.element = object name := by
  induction type with
  | base type => exact .inl ⟨type, rfl⟩
  | object name => exact .inr ⟨name, rfl⟩
  | array component ih => exact ih

theorem IsWritable.element (h : type.IsWritable) : type.element.IsWritable := by
  induction type with
  | base => trivial
  | object => exact h
  | array component ih => exact ih h

/-- The dimensions are the brackets in front of the element. -/
theorem dropWhile_chars_append (type : FieldType) (rest : List Char) :
    (type.chars ++ rest).dropWhile (· = '[') = type.element.chars ++ rest := by
  induction type with
  | base type => cases type <;> rfl
  | object name => rfl
  | array component ih => simpa [chars, element] using ih

/-- Only the name of a class can bring a parenthesis into the text of a type. -/
theorem not_mem_chars (h : ∀ name, type.element = object name → ')' ∉ name.toList) :
    ')' ∉ type.chars := by
  induction type with
  | base type => cases type <;> decide
  | object name => simpa [chars] using h name rfl
  | array component ih => simpa [chars] using ih h

end FieldType

namespace Assembly

open FieldType

variable {type : FieldType} {types : List FieldType} {d : MethodDescriptor}

theorem afterClass_append {name : List Char} (h : ';' ∉ name) (rest : List Char) :
    afterClass (name ++ ';' :: rest) = rest := by
  have hname : ∀ c ∈ name, decide (c ≠ ';') = true := fun c hc =>
    decide_eq_true fun heq => h (heq ▸ hc)
  rw [afterClass, List.dropWhile_append_of_pos hname]
  simp

theorem parameterSlots_base (type : BaseType) (rest : List Char) :
    parameterSlots (type.code :: rest) = UInt8.ofNat type.slots + parameterSlots rest := by
  rw [parameterSlots]
  cases type <;> rfl

theorem parameterSlots_object {name : String} (h : ';' ∉ name.toList) (rest : List Char) :
    parameterSlots ((object name).chars ++ rest) = 1 + parameterSlots rest := by
  have hafter := afterClass_append h rest
  simp [chars, parameterSlots, hafter]

/-- Of an array the scan passes the dimensions, then the element without counting it. -/
theorem parameterSlots_array {component : FieldType} (h : component.IsWritable)
    (rest : List Char) :
    parameterSlots ((array component).chars ++ rest) = 1 + parameterSlots rest := by
  have hdrop := component.dropWhile_chars_append rest
  have helement := h.element
  rw [chars, List.cons_append, parameterSlots]
  simp only [Char.reduceEq, or_self, if_false, if_true]
  split
  · -- Brackets are followed by the element.
    rename_i hnil
    obtain ⟨c, s, hchars, -⟩ := component.element.exists_chars_eq_cons
    rw [hnil, hchars] at hdrop
    cases hdrop
  · rename_i c inner hcons
    rw [hcons] at hdrop
    -- The elements of arrays are skipped: one character, or a name up to its end.
    rcases component.element_cases with ⟨primitive, hprimitive⟩ | ⟨name, hname⟩
    · rw [hprimitive] at hdrop
      obtain ⟨rfl, rfl⟩ := List.cons_eq_cons.1 hdrop
      have hcode : primitive.code ≠ 'L' := by cases primitive <;> decide
      rw [if_neg hcode]
    · rw [hname] at hdrop helement
      obtain ⟨rfl, hinner⟩ := List.cons_eq_cons.1 hdrop
      have hrest : inner = name.toList ++ ';' :: rest := by simpa using hinner
      rw [if_pos rfl, hrest, afterClass_append helement rest]

/-- The scan adds the slots of the type in front and goes on behind it. -/
theorem parameterSlots_chars_append (h : type.IsWritable) (rest : List Char) :
    parameterSlots (type.chars ++ rest) = UInt8.ofNat type.slots + parameterSlots rest := by
  cases type with
  | base type => exact parameterSlots_base type rest
  | object name => exact parameterSlots_object h rest
  | array component =>
    have hcomponent : component.IsWritable := h
    exact parameterSlots_array hcomponent rest

theorem parameterSlots_flatMap (h : ∀ type ∈ types, type.IsWritable) :
    parameterSlots (types.flatMap chars) =
      UInt8.ofNat ((types.map FieldType.slots).foldr (· + ·) 0) := by
  induction types with
  | nil => rw [List.flatMap_nil, parameterSlots]; rfl
  | cons type types ih =>
    obtain ⟨htype, htypes⟩ := List.forall_mem_cons.1 h
    rw [List.flatMap_cons, parameterSlots_chars_append htype, ih htypes, List.map_cons,
      List.foldr_cons, UInt8.ofNat_add]

/-- The parameters end at the first parenthesis, unless the name of a class has one. -/
theorem argumentSlots_eq {text : String} (htext : text.toList = d.chars) (hwritable : d.IsWritable)
    (hnames : ∀ type ∈ d.params, ∀ name, type.element = object name → ')' ∉ name.toList) :
    argumentSlots text = UInt8.ofNat d.slots := by
  have hparams : ∀ c ∈ d.params.flatMap chars, decide (c ≠ ')') = true := by
    intro c hc
    obtain ⟨type, htype, hmem⟩ := List.mem_flatMap.1 hc
    exact decide_eq_true fun heq => not_mem_chars (hnames type htype) (heq ▸ hmem)
  have htake : (d.params.flatMap chars ++ ')' :: d.returnType.chars).takeWhile (· ≠ ')') =
      d.params.flatMap chars := by
    rw [List.takeWhile_append_of_pos hparams]
    simp
  have hcount : argumentSlots text = parameterSlots
      ((d.params.flatMap chars ++ ')' :: d.returnType.chars).takeWhile (· ≠ ')')) := by
    rw [argumentSlots, htext]
    rfl
  rw [hcount, htake, parameterSlots_flatMap hwritable.1, MethodDescriptor.slots]

/-- **The assembler counts what the parameters take.** The slots that it counts in a descriptor are
those of the types that are read from it, two for `long` and `double` and one for every other type.
A call through an interface tells one more, for the receiver, so that the byte it has for this is
just large enough. -/
theorem argumentSlots_parse {text : String} {d : MethodDescriptor}
    (hparse : MethodDescriptor.parse text = .ok d)
    (hnames : ∀ type ∈ d.params, ∀ name, type.element = object name → ')' ∉ name.toList)
    (hslots : d.slots ≤ 254) :
    (argumentSlots text).toNat = d.slots ∧
      ∀ (owner name : String) (constants : List Constant), ∃ index count,
        (Step.encodeInvoke .interface owner name text constants).1 =
          0xb9 :: bytes16 index ++ [count, 0] ∧ count.toNat = d.slots + 1 := by
  obtain ⟨htext, hwritable⟩ := MethodDescriptor.of_parse_eq_ok hparse
  have hcount := argumentSlots_eq htext hwritable hnames
  have hbyte : (argumentSlots text).toNat = d.slots := by
    rw [hcount]
    exact UInt8.toNat_ofNat_of_lt' (Nat.lt_of_le_of_lt hslots (by decide))
  refine ⟨hbyte, fun owner name constants => ⟨_, argumentSlots text + 1, rfl, ?_⟩⟩
  rw [UInt8.toNat_add, hbyte]
  exact Nat.mod_eq_of_lt (Nat.lt_of_le_of_lt (Nat.succ_le_succ hslots) (by decide))

/-- Letters in the names of classes and the elements of arrays do not count. -/
theorem argumentSlots_parse_mixed :
    MethodDescriptor.parse "(J[[DLa/JD;[LD;I)V" =
        .ok ⟨[.base .long, .array (.array (.base .double)), .object "a/JD", .array (.object "D"),
          .base .int], .void⟩ ∧
      (argumentSlots "(J[[DLa/JD;[LD;I)V").toNat = 6 := by
  have hparse : MethodDescriptor.parse "(J[[DLa/JD;[LD;I)V" =
      .ok ⟨[.base .long, .array (.array (.base .double)), .object "a/JD", .array (.object "D"),
        .base .int], .void⟩ := MethodDescriptor.parse_eq_ok_iff.2 (by decide)
  refine ⟨hparse, (argumentSlots_parse hparse ?_ (by decide)).1⟩
  simp [FieldType.element]

end Assembly

end JvmThrows
