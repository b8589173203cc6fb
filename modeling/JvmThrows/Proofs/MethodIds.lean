import JvmThrows.MethodId
import JvmThrows.Proofs.Descriptors
import JvmThrows.Proofs.Origins

/-!
# Method identities and their text

The written form of a method is cut in three places: before the first parenthesis, at the last dot
in front of it, and by the blanks around it. None of them is ambiguous. A text is read as a method
exactly if the method can be written and the text is its written form with blanks around it
(`MethodId.parse?_iff_display`), so no text stands for two methods and no two methods that can be
written have one text.
-/

namespace JvmThrows

namespace Text

variable {c sep : Char} {s a b : List Char}

theorem cutLast_eq_none (h : sep ∉ s) : cutLast sep s = none := by
  induction s with
  | nil => rfl
  | cons c s ih =>
    obtain ⟨hc, hs⟩ := List.ne_and_not_mem_of_not_mem_cons h
    simp [cutLast, ih hs, Ne.symm hc]

theorem cutLast_append_sep (hb : sep ∉ b) : cutLast sep (a ++ sep :: b) = some (a, b) := by
  induction a with
  | nil => simp [cutLast, cutLast_eq_none hb]
  | cons c a ih => simp [cutLast, ih]

theorem span_append_sep (ha : sep ∉ a) :
    (a ++ sep :: b).span (· != sep) = (a, sep :: b) := by
  have hall : ∀ c ∈ a, (c != sep) = true := by
    intro c hc
    simpa using fun heq : c = sep => ha (heq ▸ hc)
  rw [List.span_eq_takeWhile_dropWhile, List.takeWhile_append_of_pos hall,
    List.dropWhile_append_of_pos hall]
  simp

/-- The part of a text in front of a separator. -/
theorem span_eq_cons {rest : List Char} (h : s.span (· != sep) = (a, c :: rest)) :
    s = a ++ sep :: rest ∧ c = sep ∧ sep ∉ a := by
  rw [List.span_eq_takeWhile_dropWhile, Prod.mk.injEq] at h
  obtain ⟨htake, hdrop⟩ := h
  have hhead := List.head?_dropWhile_not (· != sep) s
  rw [hdrop] at hhead
  obtain rfl : c = sep := by simpa using hhead
  refine ⟨?_, rfl, fun hmem => ?_⟩
  · rw [← htake, ← hdrop, List.takeWhile_append_dropWhile]
  · rw [← htake] at hmem
    simpa using List.all_eq_true.1 List.all_takeWhile c hmem

end Text

open Text

/-- A type does not end in a blank. -/
theorem FieldType.getLast?_chars (type : FieldType) :
    ∃ c, type.chars.getLast? = some c ∧ isBlank c = false := by
  induction type with
  | base type => exact ⟨type.code, rfl, by cases type <;> rfl⟩
  | object name => exact ⟨';', by simp [chars, List.getLast?_cons], rfl⟩
  | array component ih =>
    obtain ⟨c, hlast, hc⟩ := ih
    exact ⟨c, by simp [chars, List.getLast?_cons, hlast], hc⟩

theorem MethodDescriptor.getLast?_chars (d : MethodDescriptor) :
    ∃ c, d.chars.getLast? = some c ∧ isBlank c = false := by
  have hreturn : ∃ c, d.returnType.chars.getLast? = some c ∧ isBlank c = false := by
    cases d.returnType with
    | void => exact ⟨'V', rfl, rfl⟩
    | value type => exact type.getLast?_chars
  obtain ⟨c, hlast, hc⟩ := hreturn
  refine ⟨c, ?_, hc⟩
  simp [chars, List.getLast?_cons, List.getLast?_append, hlast]

namespace MethodId

variable {m : MethodId} {text : String}

/-- A method whose parts can be told apart in its written form. -/
structure IsWritable (m : MethodId) : Prop where
  owner_ne : m.owner ≠ ""
  owner_open : '(' ∉ m.owner.toList
  owner_blank : ∀ c ∈ m.owner.toList.head?, isBlank c = false
  name_ne : m.name ≠ ""
  name_dot : '.' ∉ m.name.toList
  name_open : '(' ∉ m.name.toList
  descriptor_ok : ∃ d, MethodDescriptor.parse m.descriptor = .ok d

theorem toList_display (m : MethodId) :
    m.display.toList = m.owner.toList ++ '.' :: m.name.toList ++ m.descriptor.toList := by
  simp [display]

/-- A descriptor opens with a parenthesis and does not end in a blank. -/
theorem IsWritable.descriptor_eq (h : m.IsWritable) :
    (∃ rest, m.descriptor.toList = '(' :: rest) ∧
      ∃ c, m.descriptor.toList.getLast? = some c ∧ isBlank c = false := by
  obtain ⟨d, hd⟩ := h.descriptor_ok
  rw [(MethodDescriptor.of_parse_eq_ok hd).1]
  exact ⟨⟨_, rfl⟩, d.getLast?_chars⟩

theorem IsWritable.trimmed_display (h : m.IsWritable) : Trimmed m.display.toList := by
  have hne : m.owner.toList ≠ [] := by simpa using h.owner_ne
  obtain ⟨-, last, hlast, hblank⟩ := h.descriptor_eq
  constructor
  · intro c hc
    rw [toList_display, List.append_assoc, List.head?_append_of_ne_nil _ hne] at hc
    exact h.owner_blank c hc
  · intro c hc
    rw [toList_display, List.getLast?_append, hlast] at hc
    cases hc
    exact hblank

/-- What was read can be written, and was written so. -/
theorem of_parse?_eq_some (h : parse? text = some m) :
    m.IsWritable ∧ m.display.toList = trim text.toList := by
  unfold parse? at h
  rcases hspan : (trim text.toList).span (· != '(') with ⟨qualified, - | ⟨c, rest⟩⟩
  · simp only [hspan] at h
    cases h
  · obtain ⟨htext, rfl, hopen⟩ := span_eq_cons hspan
    simp only [hspan] at h
    cases hcut : cutLast '.' qualified with
    | none => simp [hcut] at h
    | some parts =>
      obtain ⟨owner, name⟩ := parts
      obtain ⟨rfl, hdot⟩ := cutLast_eq hcut
      simp only [hcut] at h
      split at h
      · cases h
      · rename_i hempty
        split at h
        · cases h
        · rename_i d hd
          cases h
          simp only [Bool.or_eq_true, List.isEmpty_iff, not_or] at hempty
          simp only [List.mem_append, List.mem_cons, not_or] at hopen
          obtain ⟨hopenOwner, -, hopenName⟩ := hopen
          refine ⟨⟨by simpa using hempty.1, by simpa using hopenOwner, ?_, by simpa using hempty.2,
            by simpa using hdot, by simpa using hopenName, d, hd⟩, ?_⟩
          · -- The owner begins where the trimmed text does.
            intro c hc
            refine (trimmed_trim text.toList).1 c ?_
            rw [String.toList_ofList] at hc
            rw [htext, List.append_assoc, List.head?_append_of_ne_nil _ hempty.1]
            exact hc
          · rw [htext, toList_display]
            simp

/-- What can be written is read from its written form, whatever is around it. -/
theorem IsWritable.parse?_eq (h : m.IsWritable) (htext : m.display.toList = trim text.toList) :
    parse? text = some m := by
  obtain ⟨⟨rest, hrest⟩, -⟩ := h.descriptor_eq
  obtain ⟨d, hd⟩ := h.descriptor_ok
  have hopen : '(' ∉ m.owner.toList ++ '.' :: m.name.toList := by
    simp [h.owner_open, h.name_open]
  have hspan : (trim text.toList).span (· != '(') =
      (m.owner.toList ++ '.' :: m.name.toList, m.descriptor.toList) := by
    rw [← htext, toList_display, hrest]
    exact span_append_sep hopen
  have hempty : (m.owner.toList.isEmpty || m.name.toList.isEmpty) = false := by
    simp [h.owner_ne, h.name_ne]
  unfold parse?
  simp only [hspan, hrest, cutLast_append_sep h.name_dot, hempty]
  rw [← hrest, String.ofList_toList, hd]
  simp

/-- **Methods and their texts.** A text is read as a method exactly if the method can be written and
what is left of the text without the blanks around it is its written form. So a method is read back
from its written form exactly if it can be written, and the texts that can be read are the written
forms of such methods with any blanks around them. -/
theorem parse?_iff_display :
    (∀ (text : String) (m : MethodId), parse? text = some m ↔
      m.IsWritable ∧ m.display = String.ofList (trim text.toList)) ∧
    (∀ m : MethodId, parse? m.display = some m ↔ m.IsWritable) ∧
    ∀ text : String, (∃ m, parse? text = some m) ↔
      ∃ m : MethodId, m.IsWritable ∧ ∃ front back, Surrounds front back ∧
        text = String.ofList (front ++ m.display.toList ++ back) := by
  have hparse (text : String) (m : MethodId) : parse? text = some m ↔
      m.IsWritable ∧ m.display.toList = trim text.toList :=
    ⟨of_parse?_eq_some, fun h => h.1.parse?_eq h.2⟩
  refine ⟨fun text m => ?_, fun m => ?_, fun text => exists_congr fun m => ?_⟩
  · rw [hparse, ← String.toList_inj, String.toList_ofList]
  · rw [hparse, and_iff_left_iff_imp]
    exact fun h => h.trimmed_display.trim_eq.symm
  · rw [hparse]
    refine and_congr_right fun h => ⟨fun htext => ?_, ?_⟩
    · obtain ⟨front, back, hblanks, hall⟩ := exists_surrounds_trim text.toList
      exact ⟨front, back, hblanks, by rw [htext, ← hall, String.ofList_toList]⟩
    · rintro ⟨front, back, hblanks, rfl⟩
      rw [String.toList_ofList, h.trimmed_display.trim_surrounded hblanks]

/-- Dots and dollars in the owner, and parentheses in the name of a class of the descriptor. -/
example : parse? "\t a.b.C$D.m([L)(;)V " = some ⟨"a.b.C$D", "m", "([L)(;)V"⟩ := by decide +kernel

end MethodId

end JvmThrows
