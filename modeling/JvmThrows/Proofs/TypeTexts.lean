import JvmThrows.Proofs.Hops
import JvmThrows.Proofs.Keys
import JvmThrows.Proofs.TypeArguments

/-!
# Reading type texts

What either dialect makes of a text that is written as programs are: a qualified name, type
arguments, and the marks of the dialect around them. Names have none of the characters that the
readers look for, so that every step takes off exactly its own mark. In Java the name and the array
dimensions are left (`Java.outline_written`), and in Kotlin the name and whether there was a
question mark (`Kotlin.body_written`), or the element of an array (`Kotlin.unlayered_array`). If
type variables have no bounds, this decides the erasure.
-/

namespace JvmThrows.TypeText

open Text

/-! ### Names -/

/-- A letter, `_` or `$`, and then letters, digits, `_` and `$`. -/
def isIdentifier : List Char → Bool
  | [] => false
  | c :: cs =>
    (isLetter c || c == '_' || c == '$') &&
      cs.all fun c => isLetterOrDigit c || c == '_' || c == '$'

/-- The characters that type texts are taken apart at. -/
def marks : List Char := ['<', '>', ',', '@', '?', '*', '[', ']', ' ']

/-- The characters of qualified names. -/
def isNameChar (c : Char) : Bool := isLetterOrDigit c || c == '_' || c == '$' || c == '.'

section Names

variable {name : List Char} {c : Char}

theorem isLetterOrDigit_of_isLetter (h : isLetter c = true) : isLetterOrDigit c = true := by
  unfold isLetter at h
  unfold isLetterOrDigit
  split
  · -- ASCII characters are told without the tables.
    rw [if_pos ‹_›] at h
    simp [Char.isAlphanum, h]
  · rw [if_neg ‹_›] at h
    simp [h]

theorem isNameChar_of_mem_identifier (h : isIdentifier name = true) (hc : c ∈ name) :
    isNameChar c = true := by
  cases name with
  | nil => cases hc
  | cons d ds =>
    obtain ⟨hhead, htail⟩ := Bool.and_eq_true_iff.1 h
    rcases List.mem_cons.1 hc with rfl | hc
    · rcases Bool.or_eq_true_iff.1 hhead with hhead | hhead
      · rcases Bool.or_eq_true_iff.1 hhead with hletter | hhead
        · simp [isNameChar, isLetterOrDigit_of_isLetter hletter]
        · simp [isNameChar, hhead]
      · simp [isNameChar, hhead]
    · have := List.all_eq_true.1 htail c hc
      simp only [isNameChar, this, Bool.true_or]

theorem isQualifiedName_eq (name : List Char) :
    isQualifiedName name = (pieces '.' name).all isIdentifier := rfl

theorem not_mem_of_isNameChar (h : isQualifiedName name = true) (hc : isNameChar c = false) :
    c ∉ name := by
  have hdot : c ≠ '.' := by
    rintro rfl
    cases hc
  have hpieces : ∀ p ∈ pieces '.' name, c ∉ p := by
    intro p hp hmem
    have hchar := isNameChar_of_mem_identifier (List.all_eq_true.1 h p hp) hmem
    rw [hc] at hchar
    cases hchar
  rw [← intercalate_pieces '.' name]
  exact ClassName.not_mem_intercalate hdot hpieces

theorem isNameChar_of_isBlank (h : isBlank c = true) : isNameChar c = false := by
  have hblanks : ∀ n ∈ [0x9, 0xA, 0xB, 0xC, 0xD, 0x20, 0x85, 0xA0, 0x1680, 0x2000, 0x2001,
      0x2002, 0x2003, 0x2004, 0x2005, 0x2006, 0x2007, 0x2008, 0x2009, 0x200A, 0x2028, 0x2029,
      0x202F, 0x205F, 0x3000], isNameChar (Char.ofNat n) = false := by
    decide +kernel
  rw [← Char.ofNat_toNat c]
  refine hblanks c.toNat ?_
  simp only [isBlank, Bool.or_eq_true, Bool.and_eq_true, decide_eq_true_eq, beq_iff_eq] at h
  simp only [List.mem_cons, List.not_mem_nil, or_false]
  omega

theorem isBlank_of_mem (h : isQualifiedName name = true) (hc : c ∈ name) : isBlank c = false := by
  cases hblank : isBlank c with
  | false => rfl
  | true => exact absurd hc (not_mem_of_isNameChar h (isNameChar_of_isBlank hblank))

theorem not_mem_name (h : isQualifiedName name = true) (hc : c ∈ marks) : c ∉ name := by
  have hmarks : (marks.all fun d => !isNameChar d) = true := by decide +kernel
  exact not_mem_of_isNameChar h (by simpa using List.all_eq_true.1 hmarks c hc)

/-- A name ends in a segment. -/
theorem exists_last_segment (h : isQualifiedName name = true) :
    ∃ p ∈ pieces '.' name, name.getLast? = p.getLast? := by
  have hlast := List.getLast?_eq_some_getLast (pieces_ne_nil '.' name)
  have hmem := List.getLast_mem (pieces_ne_nil '.' name)
  have hne : (pieces '.' name).getLast (pieces_ne_nil '.' name) ≠ [] := by
    intro hnil
    have hidentifier := List.all_eq_true.1 h _ hmem
    rw [hnil] at hidentifier
    cases hidentifier
  refine ⟨_, hmem, ?_⟩
  rw [← ClassName.getLast?_intercalate '.' hlast hne, intercalate_pieces]

theorem name_ne_nil (h : isQualifiedName name = true) : name ≠ [] := by
  rintro rfl
  cases h

theorem getLast?_name_ne_dot (h : isQualifiedName name = true) : name.getLast? ≠ some '.' := by
  obtain ⟨p, hp, hlast⟩ := exists_last_segment h
  intro hdot
  exact not_mem_of_mem_pieces hp (List.mem_of_getLast? (hlast ▸ hdot))

theorem trimmed_name (h : isQualifiedName name = true) : Trimmed name :=
  ⟨fun _ hc => isBlank_of_mem h (List.mem_of_head? hc),
    fun _ hc => isBlank_of_mem h (List.mem_of_getLast? hc)⟩

end Names

/-! ### Texts of types -/

/-- Characters that may stand anywhere in a type. -/
def isInert (c : Char) : Bool := c != '<' && c != '>' && c != ',' && c != '@'

/-- A text as the types of both languages have it. -/
structure IsTypeText (text : List Char) : Prop extends IsArgument text where
  unannotated : '@' ∉ text

section Texts

variable {name text mark : List Char} {args : List (List Char)}

theorem head?_append_of_ne_nil (h : text ≠ []) (mark : List Char) :
    (text ++ mark).head? = text.head? := by
  cases text with
  | nil => exact absurd rfl h
  | cons c text => rfl

theorem getLast?_append_of_ne_nil (h : text ≠ []) (mark : List Char) :
    (mark ++ text).getLast? = text.getLast? := by
  rw [List.getLast?_append, List.getLast?_eq_some_getLast h, Option.some_or]

theorem Balanced.of_inert {commas : Bool} (h : text.all isInert = true) : Balanced commas text := by
  refine .of_plain fun c hc => ?_
  have hinert := List.all_eq_true.1 h c hc
  simp only [isInert, Bool.and_eq_true, bne_iff_ne] at hinert
  exact ⟨hinert.1.1.1, hinert.1.1.2, hinert.1.2⟩

theorem at_not_mem_of_inert (h : text.all isInert = true) : '@' ∉ text := by
  intro hat
  have hinert := List.all_eq_true.1 h '@' hat
  cases hinert

theorem IsTypeText.prepend (h : IsTypeText text) (hmark : mark.all isInert = true)
    (hhead : (mark.head?.all fun c => !isBlank c) = true) : IsTypeText (mark ++ text) where
  balanced := .append (.of_inert hmark) h.balanced
  trimmed := by
    refine ⟨?_, by rw [getLast?_append_of_ne_nil h.ne_nil]; exact h.trimmed.2⟩
    cases mark with
    | nil => exact h.trimmed.1
    | cons c mark => simpa using hhead
  ne_nil := by simp [h.ne_nil]
  unannotated hat := by
    rcases List.mem_append.1 hat with hat | hat
    · exact at_not_mem_of_inert hmark hat
    · exact h.unannotated hat

theorem IsTypeText.append (h : IsTypeText text) (hmark : mark.all isInert = true)
    (hlast : (mark.getLast?.all fun c => !isBlank c) = true) : IsTypeText (text ++ mark) where
  balanced := h.balanced.append (.of_inert hmark)
  trimmed := by
    refine ⟨by rw [head?_append_of_ne_nil h.ne_nil]; exact h.trimmed.1, fun c hc => ?_⟩
    rw [List.getLast?_append] at hc
    -- A mark that is not empty has the last character.
    rcases Option.or_eq_some_iff.1 hc with hc | ⟨-, hc⟩
    · rw [hc] at hlast
      simpa using hlast
    · exact h.trimmed.2 c hc
  ne_nil := by simp [h.ne_nil]
  unannotated hat := by
    rcases List.mem_append.1 hat with hat | hat
    · exact h.unannotated hat
    · exact at_not_mem_of_inert hmark hat

theorem getLast?_append_group (text arg : List Char) (args : List (List Char)) :
    (text ++ group (arg :: args)).getLast? = some '>' := by
  have hsplit : text ++ group (arg :: args) =
      (text ++ '<' :: [',', ' '].intercalate (arg :: args)) ++ ['>'] := by
    rw [group, List.append_assoc, List.cons_append]
  rw [hsplit, List.getLast?_concat]

/-- A name with type arguments ends as the name does, or in a bracket. -/
theorem getLast?_named_ne {c : Char} (hc : c ≠ '>') (hname : name.getLast? ≠ some c)
    (args : List (List Char)) : (name ++ group args).getLast? ≠ some c := by
  cases args with
  | nil => simpa [group] using hname
  | cons arg args =>
    rw [getLast?_append_group]
    exact fun h => hc (Option.some.inj h).symm

theorem not_mem_group (h : ∀ arg ∈ args, '@' ∉ arg) : '@' ∉ group args := by
  have hjoin : '@' ∉ [',', ' '].intercalate args := by
    induction args with
    | nil => simp
    | cons arg args ih =>
      obtain ⟨harg, hargs⟩ := List.forall_mem_cons.1 h
      cases args with
      | nil => simpa using harg
      | cons next args => simp [List.intercalate_cons_cons, harg, ih hargs]
  cases args with
  | nil => simp [group]
  | cons arg args => simpa [group] using hjoin

/-- A name with type arguments, or without. -/
theorem isTypeText_named (hname : isQualifiedName name = true)
    (hargs : ∀ arg ∈ args, IsTypeText arg) : IsTypeText (name ++ group args) where
  balanced := by
    refine .append (.of_plain fun c hc => ⟨?_, ?_, ?_⟩)
      (balanced_group fun arg harg => (hargs arg harg).balanced)
    all_goals
      rintro rfl
      exact not_mem_name hname (by decide) hc
  trimmed := by
    refine ⟨by rw [head?_append_of_ne_nil (name_ne_nil hname)]; exact (trimmed_name hname).1, ?_⟩
    cases args with
    | nil => simpa [group] using (trimmed_name hname).2
    | cons arg args =>
      -- Arguments end in a bracket.
      intro c hc
      rw [getLast?_append_group] at hc
      cases hc
      rfl
  ne_nil := by simp [name_ne_nil hname]
  unannotated hat := by
    rcases List.mem_append.1 hat with hat | hat
    · exact not_mem_name hname (by decide) hat
    · exact not_mem_group (fun arg harg => (hargs arg harg).unannotated) hat

theorem isTypeText_name (hname : isQualifiedName name = true) : IsTypeText name := by
  have hnamed : IsTypeText (name ++ group []) := isTypeText_named hname (by simp)
  rwa [group, List.append_nil] at hnamed

theorem isTypeText_char {c : Char} (hc : isInert c = true) (hblank : isBlank c = false) :
    IsTypeText [c] where
  balanced := .of_inert (by simpa using hc)
  trimmed := by simp [Trimmed, hblank]
  ne_nil := List.cons_ne_nil c []
  unannotated := at_not_mem_of_inert (by simpa using hc)

theorem dropHead?_eq_none {c : Char} (h : c ∉ text) (rest : List Char) :
    dropHead? (c :: rest) text = none := by
  refine Option.eq_none_iff_forall_ne_some.2 fun s hs => h ?_
  rw [dropHead?_eq_some_iff.1 hs]
  exact List.mem_cons_self

theorem dropTail?_eq_none {c : Char} (h : text.getLast? ≠ some c) (rest : List Char) :
    dropTail? (rest ++ [c]) text = none := by
  refine Option.eq_none_iff_forall_ne_some.2 fun s hs => h ?_
  rw [dropTail?_eq_some_iff.1 hs, ← List.append_assoc, List.getLast?_concat]

theorem stripAnnotations_eq_self (h : '@' ∉ text) : stripAnnotations text = text := by
  simp [stripAnnotations, h]

end Texts

/-- Without bounds no variable leads anywhere. -/
theorem hop?_boundsOf? {params : List TypeParameter} (hparams : ∀ p ∈ params, p.bounds = [])
    (name : List Char) (hops : Nat) : hop? (boundsOf? params name) hops = none := by
  refine hop?_eq_none fun bound bounds left h => ?_
  obtain ⟨p, hp, hbounds⟩ := Option.map_eq_some_iff.1 h
  rw [hparams p (List.mem_of_find?_eq_some hp)] at hbounds
  cases hbounds

/-! ### Java -/

namespace Java

/-- The marks of array dimensions. -/
def brackets : Nat → List Char
  | 0 => []
  | n + 1 => brackets n ++ ['[', ']']

/-- A name, type arguments and array dimensions. -/
def written (name : List Char) (args : List (List Char)) (n : Nat) : List Char :=
  name ++ group args ++ brackets n

section Written

variable {params : List TypeParameter} {name : List Char} {args : List (List Char)} {n : Nat}

theorem mem_brackets {c : Char} (h : c ∈ brackets n) : c = '[' ∨ c = ']' := by
  induction n with
  | zero => cases h
  | succ n ih =>
    rcases List.mem_append.1 h with h | h
    · exact ih h
    · simpa using h

theorem isBlank_of_mem_brackets {c : Char} (h : c ∈ brackets n) : isBlank c = false := by
  rcases mem_brackets h with rfl | rfl <;> rfl

theorem isTypeText_brackets {text : List Char} (h : IsTypeText text) (n : Nat) :
    IsTypeText (text ++ brackets n) := by
  induction n with
  | zero => simpa [brackets] using h
  | succ n ih =>
    rw [brackets, ← List.append_assoc]
    exact ih.append (by decide) (by decide)

variable (hname : isQualifiedName name = true)
include hname

theorem stripDims_brackets (n : Nat) : stripDims (name ++ brackets n) = (n, name) := by
  induction n with
  | zero =>
    -- A name does not end in brackets.
    have hnone : dropTail? ['[', ']'] name = none :=
      dropTail?_eq_none (fun h => not_mem_name hname (by decide) (List.mem_of_getLast? h)) ['[']
    rw [brackets, List.append_nil, stripDims]
    split
    · rfl
    · rename_i rest hrest
      rw [hnone] at hrest
      cases hrest
  | succ n ih =>
    have hsome : dropTail? ['[', ']'] (name ++ brackets (n + 1)) = some (name ++ brackets n) :=
      dropTail?_eq_some_iff.2 (by rw [brackets, List.append_assoc])
    have htrim : trimEnd (name ++ brackets n) = name ++ brackets n := by
      refine trimEnd_eq_self fun c hc => ?_
      -- Nothing is trimmed between one pair of brackets and the next.
      rcases List.mem_append.1 (List.mem_of_getLast? hc) with hc | hc
      · exact isBlank_of_mem hname hc
      · exact isBlank_of_mem_brackets hc
    rw [stripDims]
    split
    · rename_i hnone
      rw [hsome] at hnone
      cases hnone
    · rename_i rest hrest
      rw [hsome] at hrest
      cases hrest
      rw [htrim, ih]

/-- Where a name is left, there was no wildcard. -/
theorem shape_of_outline {text : List Char} (h : outline text = (n, name)) :
    shape text = ⟨n, 0, name⟩ := by
  have hbound : bound? text = none := by
    have hnone : upperBound? name = none := dropHead?_eq_none (not_mem_name hname (by decide)) _
    unfold bound?
    split
    · rename_i inner hinner
      rw [h, hnone] at hinner
      cases hinner
    · rfl
  have hlayers : layers text = [text] := chain_of_none hbound
  simp [shape, hlayers, h]

section Keyword

variable (hkeyword : keyword? (String.ofList name) = none)
include hkeyword

theorem isPlain_name : isPlain name = true := by
  have hmark : '?' ∉ name := not_mem_name hname (by decide)
  have hany : name ≠ ['?'] := by
    rintro rfl
    exact hmark List.mem_cons_self
  have hsuper : dropHead? superMark name = none := dropHead?_eq_none hmark _
  simp [isPlain, hkeyword, hany, hsuper]

theorem element_name (params : List TypeParameter) :
    element params name = if (boundsOf? params name).isSome then object else reference name := by
  have hplain := isPlain_name hname hkeyword
  simp only [isPlain, Bool.and_eq_true, bne_iff_ne, Option.isNone_iff_eq_none] at hplain
  obtain ⟨⟨-, hany⟩, hsuper⟩ := hplain
  simp [element, hkeyword, hany, hsuper]

end Keyword

variable (hargs : ∀ arg ∈ args, IsTypeText arg)
include hargs

theorem isTypeText_written (n : Nat) : IsTypeText (written name args n) :=
  isTypeText_brackets (isTypeText_named hname hargs) n

omit hargs in
theorem getLast?_written_ne_dot (args : List (List Char)) (n : Nat) :
    (written name args n).getLast? ≠ some '.' := by
  unfold written
  cases n with
  -- The last character is a bracket.
  | succ n => simp [brackets, ← List.append_assoc]
  | zero =>
    rw [brackets, List.append_nil]
    exact getLast?_named_ne (by decide) (getLast?_name_ne_dot hname) args

/-- The name and the dimensions of a type text. -/
theorem outline_written (n : Nat) : outline (written name args n) = (n, name) := by
  have htext := isTypeText_written hname hargs n
  have hellipsis : stripEllipsis (written name args n) = (0, written name args n) := by
    have hnone : dropTail? ['.', '.', '.'] (written name args n) = none :=
      dropTail?_eq_none (getLast?_written_ne_dot hname args n) ['.', '.']
    simp [stripEllipsis, hnone]
  have hsplit : splitGenerics (written name args n) = (name ++ brackets n, args) := by
    refine splitGenerics_group (not_mem_name hname (by decide)) (fun hmem => ?_) fun arg harg =>
      (hargs arg harg).toIsArgument
    rcases mem_brackets hmem with h | h <;> cases h
  have hbase : trim (name ++ brackets n) = name ++ brackets n :=
    (isTypeText_brackets (isTypeText_name hname) n).trimmed.trim_eq
  rw [outline, stripAnnotations_eq_self htext.unannotated, htext.trimmed.trim_eq, hellipsis]
  simp only [hsplit, hbase, stripDims_brackets hname, Nat.zero_add]

theorem shape_written (n : Nat) : shape (written name args n) = ⟨n, 0, name⟩ :=
  shape_of_outline hname (outline_written hname hargs n)

/-- Without bounds to follow, the name decides. -/
theorem erase_written (hparams : ∀ p ∈ params, p.bounds = []) (n : Nat) :
    erase params (written name args n) = (element params name).arrayOf n := by
  have hnext : Goal.next? params ⟨maxBoundDepth, written name args n⟩ = none :=
    Goal.next?_eq_none (hop?_boundsOf? hparams _ _)
  rw [erase_eq, Goal.erase_of_none hnext, shape_written hname hargs]

end Written

end Java

/-! ### Kotlin -/

namespace Kotlin

/-- What follows a type that may be null. -/
def nullMark (nullable : Bool) : List Char := if nullable then ['?'] else []

/-- What stands before the element of an array that is covariant. -/
def outMark (covariant : Bool) : List Char := if covariant then ['o', 'u', 't', ' '] else []

/-- A name, type arguments and a question mark. -/
def written (name : List Char) (args : List (List Char)) (nullable : Bool) : List Char :=
  name ++ group args ++ nullMark nullable

/-- What a name stands for. -/
def named (params : List TypeParameter) (boxed : Bool) (name : List Char) : FieldType :=
  match primitiveArray? name with
  | some type => (FieldType.base type).arrayOf 1
  | none =>
    match primitive? name with
    | some (type, box) => if boxed then .object box else .base type
    | none =>
      if (boundsOf? params name).isSome then object
      else
        match library? name with
        | some internal => .object internal
        | none => reference name

/-- The erasure of a text with the arrays in it, if there are no bounds to follow. -/
def unlayered (params : List TypeParameter) (boxed : Bool) (text : List Char) : FieldType :=
  (element params (boxed || (layers text).length != 1) ((layers text).getLastD text)).arrayOf
    ((layers text).length - 1)

section Layers

variable {params : List TypeParameter} {boxed : Bool} {text : List Char}

theorem layers_ne_nil (text : List Char) : layers text ≠ [] := by
  rw [layers, chain]
  exact List.cons_ne_nil _ _

theorem unlayered_of_element (h : arrayElement? text = none) :
    unlayered params boxed text = element params boxed text := by
  have hlayers : layers text = [text] := chain_of_none h
  simp [unlayered, hlayers, FieldType.arrayOf]

theorem unlayered_of_array {arg : List Char} (h : (arrayElement? text).map Subtype.val = some arg) :
    unlayered params boxed text = .array (unlayered params true arg) := by
  have hlayers : layers text = text :: layers arg := chain_of_next h
  have hlast : (layers text).getLastD text = (layers arg).getLastD arg := getLastD_chain_of_next h
  have hlength : (layers arg).length ≠ 0 := by simpa using layers_ne_nil arg
  obtain ⟨n, hn⟩ := Nat.exists_eq_succ_of_ne_zero hlength
  rw [unlayered, unlayered, hlast]
  simp [hlayers, hn, FieldType.arrayOf]

theorem erase_eq_unlayered (hparams : ∀ p ∈ params, p.bounds = []) (text : List Char) :
    erase params text = unlayered params false text := by
  have hnext : Goal.next? params ⟨maxBoundDepth, false, text⟩ = none :=
    Goal.next?_eq_none (hop?_boundsOf? hparams _ _)
  have hlength : (layers text).length ≠ 0 := by simpa using layers_ne_nil text
  have hdims : ((layers text).length - 1 != 0) = ((layers text).length != 1) := by
    rw [Bool.eq_iff_iff]
    simp
    omega
  rw [erase_eq, Goal.erase_of_none hnext, unlayered, Goal.dims, Goal.inner, hdims]

end Layers

theorem isTypeText_covariant {text : List Char} (h : IsTypeText text) (covariant : Bool) :
    IsTypeText (outMark covariant ++ text) := by
  cases covariant with
  | false => exact h
  | true => exact h.prepend (by decide) (by decide)

section Written

variable {params : List TypeParameter} {boxed nullable covariant : Bool} {name : List Char}
  {args : List (List Char)} (hname : isQualifiedName name = true)
include hname

/-- No variance is written before the name. -/
theorem dropHead?_named_eq_none (word : List Char) (hword : ' ' ∉ word ∧ '<' ∉ word) :
    dropHead? (word ++ [' ']) (name ++ group args) = none := by
  refine Option.eq_none_iff_forall_ne_some.2 fun rest hrest => ?_
  have heq := dropHead?_eq_some_iff.1 hrest
  rw [List.append_assoc] at heq
  rcases List.append_eq_append_iff.1 heq with ⟨more, hmore, hgroup⟩ | ⟨more, hmore, hspace⟩
  · -- The word goes beyond the name, so that a bracket is part of it.
    cases args with
    | nil => simp [group] at hgroup
    | cons arg args =>
      cases more with
      | nil => simp [group] at hgroup
      | cons c more =>
        obtain rfl : '<' = c := (List.cons.inj hgroup).1
        exact hword.2 (by simp [hmore])
  · -- The name goes beyond the word, so that a blank is part of it.
    cases more with
    | nil =>
      cases args with
      | nil => simp [group] at hspace
      | cons arg args => simp [group] at hspace
    | cons c more =>
      obtain rfl : ' ' = c := (List.cons.inj hspace).1
      exact not_mem_name hname (c := ' ') (by decide) (by simp [hmore])

variable (hargs : ∀ arg ∈ args, IsTypeText arg)
include hargs

theorem isTypeText_written : IsTypeText (written name args nullable) := by
  cases nullable with
  | false => exact (isTypeText_named hname hargs).append (by decide) (by decide)
  | true => exact (isTypeText_named hname hargs).append (by decide) (by decide)

theorem stripNullable_written :
    stripNullable (outMark covariant ++ written name args nullable) =
      (nullable, outMark covariant ++ (name ++ group args)) := by
  have hnamed := isTypeText_named hname hargs
  cases nullable with
  | true =>
    -- The mark is at the end, where it is looked for.
    have hsome : dropTail? ['?'] (outMark covariant ++ written name args true) =
        some (outMark covariant ++ (name ++ group args)) :=
      dropTail?_eq_some_iff.2 (by simp [written, nullMark])
    have htrim := trimEnd_eq_self (isTypeText_covariant hnamed covariant).trimmed.2
    simp only [stripNullable, hsome, htrim]
  | false =>
    -- Without the mark the last character is one of a name or a bracket.
    have hlast : (outMark covariant ++ (name ++ group args)).getLast? ≠ some '?' := by
      have hname' : name.getLast? ≠ some '?' := fun h =>
        not_mem_name hname (by decide) (List.mem_of_getLast? h)
      rw [getLast?_append_of_ne_nil hnamed.ne_nil]
      exact getLast?_named_ne (by decide) hname' args
    have hnone : dropTail? ['?'] (outMark covariant ++ (name ++ group args)) = none :=
      dropTail?_eq_none hlast []
    simp only [stripNullable, written, nullMark, Bool.false_eq_true, if_false, List.append_nil,
      hnone]

theorem stripVariance_named :
    stripVariance (outMark covariant ++ (name ++ group args)) = name ++ group args := by
  cases covariant with
  | true =>
    have hsome : dropHead? ['o', 'u', 't', ' '] (outMark true ++ (name ++ group args)) =
        some (name ++ group args) := dropHead?_eq_some_iff.2 rfl
    simp only [stripVariance, hsome]
    exact trimStart_eq_self (isTypeText_named hname hargs).trimmed.1
  | false =>
    -- Neither of the words for variance fits in front of a name.
    have hout : dropHead? ['o', 'u', 't', ' '] (name ++ group args) = none :=
      dropHead?_named_eq_none hname ['o', 'u', 't'] (by decide)
    have hin : dropHead? ['i', 'n', ' '] (name ++ group args) = none :=
      dropHead?_named_eq_none hname ['i', 'n'] (by decide)
    simp only [outMark, Bool.false_eq_true, if_false, List.nil_append, stripVariance, hout, hin]

/-- What is read of a type text: its question mark, and the text without all marks. -/
theorem body_written :
    isNullable (outMark covariant ++ written name args nullable) = nullable ∧
      body (outMark covariant ++ written name args nullable) = name ++ group args := by
  have htext : IsTypeText (outMark covariant ++ written name args nullable) :=
    isTypeText_covariant (isTypeText_written hname hargs) covariant
  rw [isNullable, body, stripAnnotations_eq_self htext.unannotated, htext.trimmed.trim_eq,
    stripNullable_written hname hargs, stripVariance_named hname hargs]
  exact ⟨rfl, rfl⟩

theorem splitGenerics_named : splitGenerics (name ++ group args) = (name, args) := by
  have hsplit : splitGenerics (name ++ group args ++ []) = (name ++ [], args) :=
    splitGenerics_group (not_mem_name hname (by decide)) (by simp) fun arg harg =>
      (hargs arg harg).toIsArgument
  simpa using hsplit

theorem baseName_written :
    baseName (outMark covariant ++ written name args nullable) = name := by
  rw [baseName, (body_written hname hargs).2, splitGenerics_named hname hargs]
  exact (trimmed_name hname).trim_eq

/-- A text with a name is no star. -/
theorem body_written_ne :
    (body (outMark covariant ++ written name args nullable) == ['*']) = false := by
  rw [(body_written hname hargs).2, beq_eq_false_iff_ne]
  intro hstar
  have hmem : '*' ∈ name := by
    cases name with
    | nil => exact absurd rfl (name_ne_nil hname)
    | cons c cs => simp_all
  exact not_mem_name hname (by decide) hmem

theorem element_written (harray : isArray name = false) :
    element params boxed (outMark covariant ++ written name args nullable) =
      named params (boxed || nullable) name := by
  rw [element, body_written_ne hname hargs, baseName_written hname hargs,
    (body_written hname hargs).1]
  dsimp only
  rw [harray]
  rfl

theorem unlayered_written (harray : isArray name = false) :
    unlayered params boxed (outMark covariant ++ written name args nullable) =
      named params (boxed || nullable) name := by
  have hnone : arrayElement? (outMark covariant ++ written name args nullable) = none := by
    rw [arrayElement?, baseName_written hname hargs, harray, Bool.and_false]
    rfl
  rw [unlayered_of_element hnone, element_written hname hargs harray]

end Written

theorem arrayElement?_array {nullable covariant : Bool} {name arg : List Char}
    (hname : isQualifiedName name = true) (harg : IsTypeText arg) (harray : isArray name = true) :
    (arrayElement? (outMark covariant ++ written name [arg] nullable)).map Subtype.val =
      some arg := by
  have hargs : ∀ a ∈ [arg], IsTypeText a := by simpa using harg
  have hargument : (splitGenerics (body (outMark covariant ++ written name [arg] nullable))).2 =
      [arg] := by
    rw [(body_written hname hargs).2, splitGenerics_named hname hargs]
  have hcond : (body (outMark covariant ++ written name [arg] nullable) != ['*'] &&
      isArray (baseName (outMark covariant ++ written name [arg] nullable))) = true := by
    rw [bne, body_written_ne hname hargs, baseName_written hname hargs, harray]
    rfl
  rw [arrayElement?, if_pos hcond]
  split
  · rename_i hnil
    -- An array has an argument.
    rw [hargument] at hnil
    cases hnil
  · rename_i first rest hcons
    rw [hargument] at hcons
    cases hcons
    rfl

theorem unlayered_array {params : List TypeParameter} {boxed nullable covariant : Bool}
    {name arg : List Char} (hname : isQualifiedName name = true) (harg : IsTypeText arg)
    (harray : isArray name = true) :
    unlayered params boxed (outMark covariant ++ written name [arg] nullable) =
      .array (unlayered params true arg) :=
  unlayered_of_array (arrayElement?_array hname harg harray)

end Kotlin

end JvmThrows.TypeText
