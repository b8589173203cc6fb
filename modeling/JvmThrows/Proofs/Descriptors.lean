import JvmThrows.Descriptor

/-!
# Descriptors and their text

Reading and writing descriptors undo each other: a text is read as a type exactly if it is the text
of this type, and the names of classes in it have no semicolon (`parse_eq_ok_iff_render`). Each
routine that reads is characterised by what it takes off the front of the text, for any rest.
-/

namespace JvmThrows

open Text

theorem BaseType.ofCode?_eq_some_iff {c : Char} {type : BaseType} :
    ofCode? c = some type ↔ c = type.code := by
  constructor
  · intro h
    unfold ofCode? at h
    split at h <;> cases h <;> rfl
  · rintro rfl
    cases type <;> rfl

/-! ### Types of fields -/

namespace FieldType

/-- The name of its class, if it has one, can stand before a semicolon. -/
def IsWritable : FieldType → Prop
  | base _ => True
  | object name => ';' ∉ name.toList
  | array component => component.IsWritable

instance IsWritable.decidable : (type : FieldType) → Decidable type.IsWritable
  | base _ => inferInstanceAs (Decidable True)
  | object name => inferInstanceAs (Decidable (';' ∉ name.toList))
  | array component => IsWritable.decidable component

theorem read_chars_append {type : FieldType} (h : type.IsWritable) (rest : List Char) :
    read (type.chars ++ rest) = .ok (type, rest) := by
  induction type with
  | base type =>
    have hcode := BaseType.ofCode?_eq_some_iff.2 (rfl : type.code = type.code)
    simp [chars, read, hcode]
  | object name =>
    have hcode : BaseType.ofCode? 'L' = none := rfl
    have hcut : cutFirst ';' (name.toList ++ ';' :: rest) = some (name.toList, rest) :=
      cutFirst_append_sep h rest
    simp [chars, read, hcode, hcut]
  | array component ih =>
    have hcode : BaseType.ofCode? '[' = none := rfl
    simp [chars, read, hcode, ih h]

theorem of_read_eq_ok {s rest : List Char} {type : FieldType} (h : read s = .ok (type, rest)) :
    s = type.chars ++ rest ∧ type.IsWritable := by
  fun_induction read s generalizing type with
  | case1 => cases h
  | case2 c s code hcode =>
    obtain rfl := BaseType.ofCode?_eq_some_iff.1 hcode
    cases h
    exact ⟨rfl, trivial⟩
  -- A name ends at the first semicolon, so that none is in it.
  | case3 s name after hcut _ =>
    cases h
    refine ⟨?_, ?_⟩
    · simp [chars, cutFirst_eq hcut]
    · simpa [IsWritable] using not_mem_of_cutFirst hcut
  | case4 => cases h
  | case5 s component after hread _ _ ih =>
    cases h
    obtain ⟨htext, hwritable⟩ := ih hread
    exact ⟨by rw [htext]; rfl, hwritable⟩
  | case6 => cases h
  | case7 => cases h

/-- A type is read off a text if its own text stands at the front. -/
theorem read_eq_ok_iff {s rest : List Char} {type : FieldType} :
    read s = .ok (type, rest) ↔ s = type.chars ++ rest ∧ type.IsWritable := by
  refine ⟨of_read_eq_ok, ?_⟩
  rintro ⟨rfl, hwritable⟩
  exact read_chars_append hwritable rest

/-- What a type starts with is no parenthesis and not the mark of `void`. -/
theorem exists_chars_eq_cons (type : FieldType) :
    ∃ c s, type.chars = c :: s ∧ c ≠ ')' ∧ c ≠ 'V' := by
  cases type with
  | base type => exact ⟨type.code, [], rfl, by cases type <;> decide⟩
  | object name => exact ⟨'L', name.toList ++ [';'], rfl, by decide⟩
  | array component => exact ⟨'[', component.chars, rfl, by decide⟩

theorem parse_eq_ok_iff {text : String} {type : FieldType} :
    parse text = .ok type ↔ type.render = text ∧ type.IsWritable := by
  have hparse : parse text = .ok type ↔ read text.toList = .ok (type, []) := by
    unfold parse
    split <;> simp_all
  rw [hparse, read_eq_ok_iff, List.append_nil, render, ← String.toList_inj, String.toList_ofList,
    eq_comm]

end FieldType

/-! ### Types of methods -/

/-- The name of the returned class can be written. -/
def ReturnType.IsWritable : ReturnType → Prop
  | void => True
  | value type => type.IsWritable

instance ReturnType.IsWritable.decidable : (type : ReturnType) → Decidable type.IsWritable
  | void => inferInstanceAs (Decidable True)
  | value type => FieldType.IsWritable.decidable type

theorem ReturnType.chars_ne_nil (type : ReturnType) : type.chars ≠ [] := by
  cases type with
  | void => exact List.cons_ne_nil _ _
  | value type =>
    obtain ⟨c, s, hchars, -⟩ := type.exists_chars_eq_cons
    simp [chars, hchars]

namespace MethodDescriptor

/-- All names of classes can be written. -/
def IsWritable (d : MethodDescriptor) : Prop :=
  (∀ type ∈ d.params, type.IsWritable) ∧ d.returnType.IsWritable

instance IsWritable.decidable (d : MethodDescriptor) : Decidable d.IsWritable :=
  inferInstanceAs (Decidable (_ ∧ _))

/-- Types are read up to a closing parenthesis, or to the end of the text. -/
theorem of_readParams_eq_ok {s rest : List Char} {types : List FieldType}
    (h : readParams s = .ok (types, rest)) :
    (s = types.flatMap FieldType.chars ++ ')' :: rest ∨
      s = types.flatMap FieldType.chars ∧ rest = []) ∧
      ∀ type ∈ types, type.IsWritable := by
  fun_induction readParams s generalizing types with
  | case1 =>
    -- The text has ended without a parenthesis, which is not an error here.
    cases h
    exact ⟨.inr ⟨rfl, rfl⟩, nofun⟩
  | case2 =>
    cases h
    exact ⟨.inl rfl, nofun⟩
  | case3 => cases h
  | case4 => cases h
  | case5 c s hc type after hread _ more rest' hmore ih =>
    cases h
    obtain ⟨htext, hwritable⟩ := FieldType.of_read_eq_ok hread
    obtain ⟨hcases, hall⟩ := ih hmore
    refine ⟨?_, List.forall_mem_cons.2 ⟨hwritable, hall⟩⟩
    rcases hcases with hclosed | ⟨hopen, hrest⟩
    · -- Whether the parenthesis was found is decided further on.
      exact .inl (by rw [htext, hclosed, List.flatMap_cons, List.append_assoc])
    · exact .inr ⟨by rw [htext, hopen, List.flatMap_cons], hrest⟩

theorem readParams_append {types : List FieldType} (h : ∀ type ∈ types, type.IsWritable)
    (rest : List Char) :
    readParams (types.flatMap FieldType.chars ++ ')' :: rest) = .ok (types, rest) := by
  induction types with
  | nil => simp [readParams]
  | cons type types ih =>
    obtain ⟨htype, htypes⟩ := List.forall_mem_cons.1 h
    obtain ⟨c, s, hchars, hc, -⟩ := type.exists_chars_eq_cons
    have hread : FieldType.read (c :: (s ++ (types.flatMap FieldType.chars ++ ')' :: rest))) =
        .ok (type, types.flatMap FieldType.chars ++ ')' :: rest) := by
      rw [← List.cons_append, ← hchars]
      exact FieldType.read_chars_append htype _
    rw [List.flatMap_cons, List.append_assoc, hchars, List.cons_append, readParams, if_neg hc]
    split
    · simp_all
    · simp_all

theorem readReturn_eq_ok_iff {whole : String} {s : List Char} {type : ReturnType} :
    readReturn whole s = .ok type ↔ s = type.chars ∧ type.IsWritable := by
  constructor
  · intro h
    unfold readReturn at h
    split at h
    · cases h
    · split at h
      · -- `V` is only right if nothing follows.
        split at h
        · cases h
          simp_all [ReturnType.chars, ReturnType.IsWritable]
        · cases h
      · split at h
        · cases h
        · rename_i hread
          cases h
          obtain ⟨htext, hwritable⟩ := FieldType.of_read_eq_ok hread
          exact ⟨by rw [htext, List.append_nil, ReturnType.chars], hwritable⟩
        · cases h
  · rintro ⟨rfl, hwritable⟩
    cases type with
    | void => rfl
    | value type =>
      obtain ⟨c, s, hchars, -, hc⟩ := type.exists_chars_eq_cons
      have hread : FieldType.read (c :: s) = .ok (type, []) := by
        rw [← hchars, ← List.append_nil type.chars]
        exact FieldType.read_chars_append hwritable []
      simp [ReturnType.chars, hchars, readReturn, hc, hread]

theorem of_parse_eq_ok {text : String} {d : MethodDescriptor} (h : parse text = .ok d) :
    text.toList = d.chars ∧ d.IsWritable := by
  unfold parse at h
  split at h
  · rename_i s hs
    split at h
    · cases h
    · rename_i params rest hparams
      split at h
      · cases h
      · rename_i type htype
        cases h
        obtain ⟨hcases, hall⟩ := of_readParams_eq_ok hparams
        obtain ⟨rfl, hreturn⟩ := readReturn_eq_ok_iff.1 htype
        rcases hcases with rfl | ⟨-, hempty⟩
        · exact ⟨by rw [hs, chars], hall, hreturn⟩
        -- A text that ends before the parenthesis has no return type.
        · exact absurd hempty type.chars_ne_nil
  · cases h

theorem parse_render {d : MethodDescriptor} (h : d.IsWritable) : parse d.render = .ok d := by
  have hparams := readParams_append h.1 d.returnType.chars
  have hreturn : readReturn d.render d.returnType.chars = .ok d.returnType :=
    readReturn_eq_ok_iff.2 ⟨rfl, h.2⟩
  have htext : d.render.toList =
      '(' :: (d.params.flatMap FieldType.chars ++ ')' :: d.returnType.chars) := by
    rw [render, String.toList_ofList, chars]
  unfold parse
  simp [htext, hparams, hreturn]

theorem parse_eq_ok_iff {text : String} {d : MethodDescriptor} :
    parse text = .ok d ↔ d.render = text ∧ d.IsWritable := by
  constructor
  · intro h
    obtain ⟨htext, hwritable⟩ := of_parse_eq_ok h
    exact ⟨by rw [render, ← htext, String.ofList_toList], hwritable⟩
  · rintro ⟨rfl, hwritable⟩
    exact parse_render hwritable

end MethodDescriptor

/-- **Reading is the inverse of writing.** A text is read as a type of a field, or of a method,
exactly if it is what is written for this type and no name of a class in it has a semicolon. So the
texts that can be read are the texts of such types, and no others. -/
theorem parse_eq_ok_iff_render :
    (∀ (text : String) (type : FieldType),
      FieldType.parse text = .ok type ↔ type.render = text ∧ type.IsWritable) ∧
    (∀ (text : String) (d : MethodDescriptor),
      MethodDescriptor.parse text = .ok d ↔ d.render = text ∧ d.IsWritable) ∧
    (∀ text : String, (∃ type, FieldType.parse text = .ok type) ↔
      ∃ type : FieldType, type.IsWritable ∧ type.render = text) ∧
    ∀ text : String, (∃ d, MethodDescriptor.parse text = .ok d) ↔
      ∃ d : MethodDescriptor, d.IsWritable ∧ d.render = text := by
  refine ⟨fun _ _ => FieldType.parse_eq_ok_iff, fun _ _ => MethodDescriptor.parse_eq_ok_iff,
    fun text => exists_congr fun type => ?_, fun text => exists_congr fun d => ?_⟩
  · rw [FieldType.parse_eq_ok_iff, and_comm]
  · rw [MethodDescriptor.parse_eq_ok_iff, and_comm]

/-- Parentheses may stand in the name of a class. -/
example : MethodDescriptor.parse "([L)(;)V" = .ok ⟨[.array (.object ")(")], .void⟩ :=
  MethodDescriptor.parse_eq_ok_iff.2 (by decide)

end JvmThrows
