import JvmThrows.Proofs.TypeTexts

/-!
# Names with type arguments

What is read of a text that names a class and has type arguments anywhere in it, as in
`a.Outer<K, @Ann V>.Inner<? super K[]>`. `Spells` is the grammar of such texts. The readers count
the groups that are open: `level` is that count, and `bare` is what stands outside of all groups.
Annotations are taken out first, word by word; if their own brackets match, this changes neither
what is outside nor the count (`bare_unwords_words`). So both dialects read the name
(`IsNamed.shape_eq`, `IsNamed.baseName_eq`).
-/

namespace JvmThrows

namespace Text

theorem words_cons_blank {c : Char} (hc : isBlank c = true) (text : List Char) :
    words (c :: text) = words text := by
  rw [words, if_pos hc]

/-- The first word ends at a blank or with the text. -/
theorem words_append {w rest : List Char} (hne : w ≠ []) (hw : ∀ c ∈ w, isBlank c = false)
    (hrest : rest.head?.all isBlank = true) : words (w ++ rest) = w :: words rest := by
  induction w with
  | nil => exact absurd rfl hne
  | cons c w ih =>
    obtain ⟨hc, hw⟩ := List.forall_mem_cons.1 hw
    rw [List.cons_append, words, if_neg (by simp [hc])]
    cases w with
    -- The word ends where the rest begins, which is at a blank.
    | nil => exact if_pos hrest
    | cons d w =>
      have hd : isBlank d = false := hw d List.mem_cons_self
      rw [ih (List.cons_ne_nil d w) hw, pushChar, if_neg (by simp [hd])]

/-- A text begins with a blank, or with a word and something else after it. -/
theorem eq_nil_or_blank_or_word (text : List Char) :
    text = [] ∨ (∃ c rest, text = c :: rest ∧ isBlank c = true) ∨
      ∃ w rest, text = w ++ rest ∧ w ≠ [] ∧ (∀ c ∈ w, isBlank c = false) ∧
        rest.head?.all isBlank = true := by
  cases text with
  | nil => exact .inl rfl
  | cons c cs =>
    by_cases hc : isBlank c = true
    · exact .inr (.inl ⟨c, cs, rfl, hc⟩)
    · -- The word goes up to the next blank, or to the end.
      refine .inr (.inr ⟨(c :: cs).takeWhile (!isBlank ·), (c :: cs).dropWhile (!isBlank ·),
        List.takeWhile_append_dropWhile.symm, by simp [hc], fun d hd => ?_, ?_⟩)
      · simpa using List.all_eq_true.1 List.all_takeWhile d hd
      · cases hhead : ((c :: cs).dropWhile (!isBlank ·)).head? with
        | none => rfl
        | some d =>
          have hblank := List.head?_dropWhile_not (!isBlank ·) (c :: cs)
          rw [hhead] at hblank
          simpa using hblank

end Text

namespace TypeText

open Text

/-! ### What stands outside of groups -/

/-- The number of open groups after a character. -/
def levelAfter (level : Nat) (c : Char) : Nat :=
  if c = '<' then level + 1 else if c = '>' then level - 1 else level

/-- The number of open groups after a text. -/
def level (start : Nat) (text : List Char) : Nat := text.foldl levelAfter start

/-- The characters outside of all groups. -/
def bare (start : Nat) : List Char → List Char
  | [] => []
  | c :: text =>
    (if start = 0 ∧ c ≠ '<' then [c] else []) ++ bare (levelAfter start c) text

section Levels

variable {start : Nat} {text : List Char} {c : Char}

theorem level_append (start : Nat) (a b : List Char) :
    level start (a ++ b) = level (level start a) b := List.foldl_append

theorem bare_append (start : Nat) (a b : List Char) :
    bare start (a ++ b) = bare start a ++ bare (level start a) b := by
  induction a generalizing start with
  | nil => rfl
  | cons c a ih =>
    rw [List.cons_append, bare, bare, ih, List.append_assoc]
    rfl

theorem levelAfter_of_ne (hopen : c ≠ '<') (hclose : c ≠ '>') : levelAfter start c = start := by
  rw [levelAfter, if_neg hopen, if_neg hclose]

/-- Outside of groups everything is kept up to the next one. -/
theorem bare_zero (h : '<' ∉ text) : bare 0 text = text ∧ level 0 text = 0 := by
  induction text with
  | nil => exact ⟨rfl, rfl⟩
  | cons c text ih =>
    obtain ⟨hc, htext⟩ := List.ne_and_not_mem_of_not_mem_cons h
    obtain ⟨hbare, hlevel⟩ := ih htext
    have hafter : levelAfter 0 c = 0 := by simp [levelAfter, Ne.symm hc]
    have hcons : level 0 (c :: text) = level (levelAfter 0 c) text := rfl
    rw [bare, hcons, hafter, hbare, hlevel]
    exact ⟨by simp [Ne.symm hc], rfl⟩

/-- Inside of a group, text whose brackets match is left out. -/
theorem bare_balanced {commas : Bool} (h : Balanced commas text) (start : Nat) :
    bare (start + 1) text = [] ∧ level (start + 1) text = start + 1 := by
  induction h generalizing start with
  | nil => exact ⟨rfl, rfl⟩
  -- Inside brackets no character is bare.
  | @char _ c text hopen hclose _ _ ih =>
    have hcons : level (start + 1) (c :: text) = level (levelAfter (start + 1) c) text := rfl
    rw [bare, hcons, levelAfter_of_ne hopen hclose]
    simpa using ih start
  | @group _ inner text _ _ ihinner ihtext =>
    -- A group inside goes one level down and comes back.
    obtain ⟨hbare, hlevel⟩ := ihinner (start + 1)
    have hopened : level (start + 1) ['<'] = start + 1 + 1 ∧ bare (start + 1) ['<'] = [] :=
      ⟨rfl, rfl⟩
    have hclosed : level (start + 1 + 1) ['>'] = start + 1 ∧ bare (start + 1 + 1) ['>'] = [] :=
      ⟨rfl, rfl⟩
    have hsplit : '<' :: inner ++ '>' :: text = ['<'] ++ (inner ++ (['>'] ++ text)) := by simp
    rw [hsplit]
    simp only [bare_append, level_append, hopened, hclosed, hbare, hlevel, List.nil_append]
    exact ihtext start

theorem Scan.base_keep (s : Scan) (c : Char) :
    (s.keep c).base = s.base ∧ (s.keep c).depth = s.depth := by
  unfold Scan.keep
  split <;> exact ⟨rfl, rfl⟩

theorem Scan.base_pushArg (s : Scan) : s.pushArg.base = s.base ∧ s.pushArg.depth = s.depth := by
  unfold Scan.pushArg
  split <;> exact ⟨rfl, rfl⟩

theorem Scan.base_step (s : Scan) (c : Char) :
    (s.step c).base = (if s.depth = 0 ∧ c ≠ '<' then [c] else []) ++ s.base ∧
      (s.step c).depth = levelAfter s.depth c := by
  unfold Scan.step levelAfter
  cases hdepth : s.depth with
  -- Outside brackets only the opening bracket is left out.
  | zero => by_cases hopen : c = '<' <;> simp [hopen]
  | succ depth =>
    by_cases hopen : c = '<'
    · simp [hopen, s.base_keep]
    · by_cases hclose : c = '>'
      · cases depth <;> simp [hclose, s.base_keep, s.base_pushArg]
      · by_cases hcomma : c = ',' ∧ depth = 0
        · simp [hcomma, hdepth, s.base_pushArg]
        · simp [hopen, hclose, hcomma, hdepth, s.base_keep]

theorem Scan.base_foldl (s : Scan) (text : List Char) :
    (text.foldl Scan.step s).base = (bare s.depth text).reverse ++ s.base := by
  induction text generalizing s with
  | nil => rfl
  | cons c text ih =>
    obtain ⟨hbase, hdepth⟩ := s.base_step c
    rw [List.foldl_cons, ih, hdepth, hbase, bare]
    split <;> simp

theorem fst_splitGenerics (text : List Char) : (splitGenerics text).1 = bare 0 text := by
  simp [splitGenerics, Scan.base_foldl]

/-- Inside of a group a character that is no bracket changes nothing. -/
theorem bare_cons_inside (hstart : start ≠ 0) (hopen : c ≠ '<') (hclose : c ≠ '>')
    (text : List Char) : bare start (c :: text) = bare start text ∧
      level start (c :: text) = level start text := by
  have hlevel : level start (c :: text) = level (levelAfter start c) text := rfl
  rw [bare, hlevel, levelAfter_of_ne hopen hclose]
  simp [hstart]

theorem head?_bare (hc : text.head? = some c) (hopen : c ≠ '<') : (bare 0 text).head? = some c := by
  cases text with
  | nil => cases hc
  | cons d text =>
    cases hc
    simp [bare, hopen]

theorem getLast?_bare (hc : text.getLast? = some c) (hlevel : level 0 text = 0) (hopen : c ≠ '<')
    (hclose : c ≠ '>') : (bare 0 text).getLast? = some c := by
  obtain ⟨front, rfl⟩ := List.getLast?_eq_some_iff.1 hc
  have hsame : level 0 (front ++ [c]) = level 0 front := by
    rw [level_append]
    exact levelAfter_of_ne hopen hclose
  rw [hsame] at hlevel
  rw [bare_append, hlevel]
  simp [bare, hopen]

end Levels

/-! ### Annotations -/

theorem ne_bracket_of_isBlank {c : Char} (hc : isBlank c = true) : c ≠ '<' ∧ c ≠ '>' := by
  constructor <;> rintro rfl <;> cases hc

/-- The space after a word counts for nothing inside of a group. -/
theorem bare_unwords_cons {start : Nat} {w : List Char} {ws : List (List Char)}
    (hinside : ws ≠ [] → level start w ≠ 0) :
    bare start (unwords (w :: ws)) = bare start w ++ bare (level start w) (unwords ws) ∧
      level start (unwords (w :: ws)) = level (level start w) (unwords ws) := by
  cases ws with
  | nil => exact ⟨(List.append_nil _).symm, rfl⟩
  | cons v ws =>
    -- The word ends inside brackets, so that the blank behind it is not bare.
    have hsplit : unwords (w :: v :: ws) = w ++ ' ' :: unwords (v :: ws) := rfl
    obtain ⟨hbare, hlevel⟩ := bare_cons_inside (hinside (List.cons_ne_nil v ws)) (c := ' ')
      (by decide) (by decide) (unwords (v :: ws))
    rw [hsplit, bare_append, level_append, hbare, hlevel]
    exact ⟨rfl, rfl⟩

/-- Words that are annotations go without a trace, if their brackets match: a blank or an at sign
outside of groups would be kept, so that where there is none, all of them stand inside. -/
theorem bare_unwords_words {start : Nat} {text : List Char}
    (hplain : ∀ c ∈ bare start text, isBlank c = false ∧ c ≠ '@')
    (hwords : ∀ w ∈ words text, w.head? = some '@' → Balanced true w) :
    bare start (unwords ((words text).filter fun w => w.head? != some '@')) = bare start text ∧
      level start (unwords ((words text).filter fun w => w.head? != some '@')) =
        level start text := by
  induction hlength : text.length using Nat.strongRecOn generalizing start text with
  | ind n ih =>
    rcases eq_nil_or_blank_or_word text with rfl | ⟨c, rest, rfl, hc⟩ |
      ⟨w, rest, rfl, hne, hw, hrest⟩
    · exact ⟨rfl, rfl⟩
    · -- A blank is not bare, so that it is inside brackets.
      obtain ⟨hopen, hclose⟩ := ne_bracket_of_isBlank hc
      have hstart : start ≠ 0 := by
        rintro rfl
        have hkept := (hplain c (by simp [bare, hopen])).1
        rw [hc] at hkept
        cases hkept
      obtain ⟨hbare, hlevel⟩ := bare_cons_inside hstart hopen hclose rest
      rw [words_cons_blank hc] at hwords ⊢
      rw [hbare] at hplain ⊢
      rw [hlevel]
      exact ih rest.length (by rw [← hlength]; exact Nat.lt_succ_self _) hplain hwords rfl
    · rw [words_append hne hw hrest] at hwords ⊢
      obtain ⟨hword, hwords⟩ := List.forall_mem_cons.1 hwords
      rw [bare_append] at hplain ⊢
      rw [level_append]
      have hshorter : rest.length < n := by
        rw [← hlength, List.length_append]
        exact Nat.lt_add_of_pos_left (List.length_pos_iff.2 hne)
      obtain ⟨hbare, hlevel⟩ := ih rest.length hshorter
        (fun c hc => hplain c (List.mem_append_right _ hc)) hwords rfl
      by_cases hat : w.head? = some '@'
      · -- An annotation is not bare either; its brackets are balanced, and it can go.
        have hstart : start ≠ 0 := by
          rintro rfl
          have hkept := List.mem_of_head? (head?_bare hat (by decide))
          exact (hplain '@' (List.mem_append_left _ hkept)).2 rfl
        obtain ⟨start, rfl⟩ := Nat.exists_eq_succ_of_ne_zero hstart
        obtain ⟨hnone, hsame⟩ := bare_balanced (hword hat) start
        rw [Nat.succ_eq_add_one, hsame] at hbare hlevel
        rw [List.filter_cons_of_neg (by simp [hat]), Nat.succ_eq_add_one, hnone, hsame, hbare,
          hlevel]
        exact ⟨rfl, rfl⟩
      · have hinside : ((words rest).filter fun w => w.head? != some '@') ≠ [] →
            level start w ≠ 0 := by
          intro hne hzero
          -- The blank behind the word is inside brackets as well.
          cases rest with
          | nil => exact hne rfl
          | cons c rest =>
            have hc : isBlank c = true := by simpa using hrest
            have hopen := (ne_bracket_of_isBlank hc).1
            have hkept := (hplain c (List.mem_append_right _ (by simp [hzero, bare, hopen]))).1
            rw [hc] at hkept
            cases hkept
        obtain ⟨hconsBare, hconsLevel⟩ := bare_unwords_cons hinside
        rw [List.filter_cons_of_pos (by simpa using hat), hconsBare, hconsLevel, hbare, hlevel]
        exact ⟨rfl, rfl⟩

/-! ### Names -/

/-- The text is the name with groups of type arguments put into it. -/
inductive Spells : List Char → List Char → Prop
  | nil : Spells [] []
  | char {c : Char} {name text : List Char} (hopen : c ≠ '<') :
    Spells name text → Spells (c :: name) (c :: text)
  | group {inner name text : List Char} (hinner : Balanced true inner) :
    Spells name text → Spells name ('<' :: inner ++ '>' :: text)

/-- A qualified name with type arguments, or without. Annotations among them are words with
matching brackets. -/
structure IsNamed (name text : List Char) : Prop where
  qualified : isQualifiedName name = true
  spelled : Spells name text
  annotations : ∀ w ∈ words text, w.head? = some '@' → Balanced true w

section Names

variable {name text : List Char}

theorem Spells.refl (h : '<' ∉ name) : Spells name name := by
  induction name with
  | nil => exact .nil
  | cons c name ih =>
    obtain ⟨hc, hname⟩ := List.ne_and_not_mem_of_not_mem_cons h
    exact .char (Ne.symm hc) (ih hname)

theorem Spells.bare_eq (h : Spells name text) : bare 0 text = name ∧ level 0 text = 0 := by
  induction h with
  | nil => exact ⟨rfl, rfl⟩
  | @char c name text hopen _ ih =>
    have hc : '<' ∉ [c] := by simpa using Ne.symm hopen
    obtain ⟨hbare, hlevel⟩ := bare_zero hc
    rw [← List.singleton_append, bare_append, level_append, hbare, hlevel]
    exact ⟨congrArg (c :: ·) ih.1, ih.2⟩
  -- Type arguments are inside brackets, and nothing of them is bare.
  | @group inner name text hinner _ ih =>
    obtain ⟨hbare, hlevel⟩ := bare_balanced hinner 0
    have hsplit : '<' :: inner ++ '>' :: text = ['<'] ++ (inner ++ (['>'] ++ text)) := by simp
    have hopened : level 0 ['<'] = 0 + 1 ∧ bare 0 ['<'] = [] := ⟨rfl, rfl⟩
    have hclosed : level (0 + 1) ['>'] = 0 ∧ bare (0 + 1) ['>'] = [] := ⟨rfl, rfl⟩
    rw [hsplit]
    simp only [bare_append, level_append, hopened, hclosed, hbare, hlevel, List.nil_append]
    exact ih

theorem IsNamed.of_name (h : isQualifiedName name = true) : IsNamed name name where
  qualified := h
  spelled := .refl (not_mem_name h (by decide))
  annotations w hw hat := by
    have hone : words (name ++ []) = [name] :=
      words_append (name_ne_nil h) (fun c hc => isBlank_of_mem h hc) rfl
    rw [List.append_nil] at hone
    rw [hone] at hw
    obtain rfl := List.mem_singleton.1 hw
    exact absurd (List.mem_of_head? hat) (not_mem_name h (by decide))

namespace IsNamed

variable (h : IsNamed name text)
include h

/-- The name is what stands outside of groups, with annotations or without. -/
theorem bare_stripAnnotations :
    bare 0 (stripAnnotations text) = name ∧ level 0 (stripAnnotations text) = 0 := by
  obtain ⟨hbare, hlevel⟩ := h.spelled.bare_eq
  unfold stripAnnotations
  split
  · have hplain : ∀ c ∈ bare 0 text, isBlank c = false ∧ c ≠ '@' := by
      rw [hbare]
      refine fun c hc => ⟨isBlank_of_mem h.qualified hc, ?_⟩
      rintro rfl
      exact not_mem_name h.qualified (by decide) hc
    obtain ⟨hbare', hlevel'⟩ := bare_unwords_words hplain h.annotations
    exact ⟨hbare'.trans hbare, hlevel'.trans hlevel⟩
  · exact ⟨hbare, hlevel⟩

/-- The text ends as the name does, or in a bracket. -/
theorem getLast?_ne {c : Char} (hopen : c ≠ '<') (hclose : c ≠ '>')
    (hc : name.getLast? ≠ some c) : (stripAnnotations text).getLast? ≠ some c := by
  obtain ⟨hbare, hlevel⟩ := h.bare_stripAnnotations
  intro hlast
  rw [← hbare] at hc
  exact hc (getLast?_bare hlast hlevel hopen hclose)

theorem trimmed : Trimmed (stripAnnotations text) := by
  obtain ⟨hbare, hlevel⟩ := h.bare_stripAnnotations
  refine ⟨fun c hc => ?_, fun c hc => ?_⟩
  · rw [← Bool.not_eq_true]
    intro hblank
    have hkept := head?_bare hc (ne_bracket_of_isBlank hblank).1
    rw [hbare] at hkept
    rw [isBlank_of_mem h.qualified (List.mem_of_head? hkept)] at hblank
    cases hblank
  · rw [← Bool.not_eq_true]
    intro hblank
    obtain ⟨hopen, hclose⟩ := ne_bracket_of_isBlank hblank
    have hkept := getLast?_bare hc hlevel hopen hclose
    rw [hbare] at hkept
    rw [isBlank_of_mem h.qualified (List.mem_of_getLast? hkept)] at hblank
    cases hblank

theorem fst_splitGenerics : (splitGenerics (stripAnnotations text)).1 = name :=
  (TypeText.fst_splitGenerics _).trans h.bare_stripAnnotations.1

/-! In Java. -/

theorem outline_eq : Java.outline text = (0, name) := by
  have hnone : dropTail? ['.', '.', '.'] (stripAnnotations text) = none :=
    dropTail?_eq_none (h.getLast?_ne (by decide) (by decide) (getLast?_name_ne_dot h.qualified))
      ['.', '.']
  have hdims : Java.stripDims name = (0, name) := by
    simpa [Java.brackets] using Java.stripDims_brackets h.qualified 0
  rw [Java.outline, h.trimmed.trim_eq, Java.stripEllipsis, hnone]
  simp only [h.fst_splitGenerics, (trimmed_name h.qualified).trim_eq, hdims, Nat.add_zero]

theorem shape_eq : Java.shape text = ⟨0, 0, name⟩ :=
  Java.shape_of_outline h.qualified h.outline_eq

/-! In Kotlin. -/

/-- A word and a space in front would stand outside of groups. -/
theorem dropHead?_eq_none (word : List Char) (hword : '<' ∉ word) :
    dropHead? (word ++ [' ']) (stripAnnotations text) = none := by
  refine Option.eq_none_iff_forall_ne_some.2 fun rest hrest => ?_
  have hbare := h.bare_stripAnnotations.1
  have hfront : '<' ∉ word ++ [' '] := by simpa using hword
  rw [dropHead?_eq_some_iff.1 hrest, bare_append, (bare_zero hfront).1] at hbare
  exact not_mem_name h.qualified (c := ' ') (by decide) (hbare ▸ by simp)

theorem body_eq : Kotlin.isNullable text = false ∧ Kotlin.body text = stripAnnotations text := by
  have hmark : name.getLast? ≠ some '?' := fun hlast =>
    not_mem_name h.qualified (by decide) (List.mem_of_getLast? hlast)
  have hnullable : dropTail? ['?'] (stripAnnotations text) = none :=
    dropTail?_eq_none (h.getLast?_ne (by decide) (by decide) hmark) []
  have hout : dropHead? ['o', 'u', 't', ' '] (stripAnnotations text) = none :=
    h.dropHead?_eq_none ['o', 'u', 't'] (by decide)
  have hin : dropHead? ['i', 'n', ' '] (stripAnnotations text) = none :=
    h.dropHead?_eq_none ['i', 'n'] (by decide)
  simp only [Kotlin.isNullable, Kotlin.body, h.trimmed.trim_eq, Kotlin.stripNullable, hnullable,
    Kotlin.stripVariance, hout, hin, and_self]

theorem baseName_eq : Kotlin.baseName text = name := by
  rw [Kotlin.baseName, h.body_eq.2, h.fst_splitGenerics, (trimmed_name h.qualified).trim_eq]

theorem body_ne : (Kotlin.body text == ['*']) = false := by
  rw [h.body_eq.2, beq_eq_false_iff_ne]
  intro hstar
  have hbare := h.bare_stripAnnotations.1
  rw [hstar] at hbare
  exact not_mem_name h.qualified (c := '*') (by decide) (hbare ▸ List.mem_cons_self)

variable (harray : Kotlin.isArray name = false)
include harray

theorem layers_eq : Kotlin.layers text = [text] := by
  have hnone : Kotlin.arrayElement? text = none := by
    rw [Kotlin.arrayElement?, h.baseName_eq, harray, Bool.and_false]
    rfl
  exact chain_of_none hnone

theorem element_eq (params : List TypeParameter) (boxed : Bool) :
    Kotlin.element params boxed text = Kotlin.named params boxed name := by
  rw [Kotlin.element, h.body_ne, h.baseName_eq, h.body_eq.1, Bool.or_false]
  dsimp only
  rw [harray]
  rfl

end IsNamed

end Names

end TypeText

end JvmThrows
