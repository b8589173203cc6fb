import JvmThrows.Origin
import JvmThrows.Proofs.TypeArguments
import Mathlib.Data.List.Infix

/-!
# Origins and their addresses

An origin that was read from an address is read again from the address that is shown for it
(`Origin.parse_display_parse`). This is so because the container ends at the last `.jar` of the
address (`Text.cutLastText_eq_some_iff`), and neither the mark that is shown behind it nor what is
left of the entry makes another one. So the origins that can be read are those that show themselves
(`Origin.parse_display_iff`).
-/

namespace JvmThrows

namespace Text

variable {c : Char} {sep s a b : List Char}

/-- Nothing is trimmed off a text that ends as a trimmed text does, or with a mark. -/
theorem Trimmed.append_suffix {mark : List Char} (h : Trimmed s) (ha : a <:+ s)
    (hmark : Trimmed mark) (hne : mark ≠ []) : Trimmed (mark ++ a) := by
  constructor
  · intro c hc
    rw [List.head?_append_of_ne_nil _ hne] at hc
    exact hmark.1 c hc
  · intro c hc
    cases a using List.reverseRecOn with
    -- Nothing follows the mark, and the mark is trimmed.
    | nil =>
      rw [List.append_nil] at hc
      exact hmark.2 c hc
    | append_singleton a d =>
      obtain ⟨front, rfl⟩ := ha
      refine h.2 c ?_
      simpa using hc

theorem cutLastText_eq_none_iff : cutLastText (c :: sep) s = none ↔ ¬ c :: sep <:+: s := by
  induction s with
  | nil => simp [cutLastText]
  | cons d s ih =>
    rw [List.infix_cons_iff, not_or, ← ih, cutLastText]
    cases hcut : cutLastText (c :: sep) s with
    | some parts => simp
    | none =>
      have hhead : dropHead? (c :: sep) (d :: s) = none ↔ ¬ c :: sep <+: d :: s := by
        rw [Option.eq_none_iff_forall_ne_some, List.IsPrefix, not_exists]
        refine forall_congr' fun rest => not_congr ?_
        rw [dropHead?_eq_some_iff, eq_comm]
      simpa using hhead

/-- A cut at the last occurrence: no other one begins behind the place where it does. -/
theorem cutLastText_eq_some_iff :
    cutLastText (c :: sep) s = some (a, b) ↔
      s = a ++ (c :: sep) ++ b ∧ ¬ c :: sep <:+: sep ++ b := by
  constructor
  · intro h
    induction s generalizing a with
    | nil => simp [cutLastText] at h
    | cons d s ih =>
      rw [cutLastText] at h
      cases hcut : cutLastText (c :: sep) s with
      | some parts =>
        -- A later place wins.
        obtain ⟨a', b'⟩ := parts
        simp only [hcut, Option.some.injEq, Prod.mk.injEq] at h
        obtain ⟨rfl, rfl⟩ := h
        obtain ⟨hs, hlast⟩ := ih hcut
        exact ⟨congrArg (d :: ·) hs, hlast⟩
      -- There is none later, so that this one is the last.
      | none =>
        simp only [hcut, Option.map_eq_some_iff, Prod.mk.injEq] at h
        obtain ⟨rest, hdrop, rfl, rfl⟩ := h
        have hs : d :: s = c :: sep ++ rest := dropHead?_eq_some_iff.1 hdrop
        obtain ⟨-, rfl⟩ := List.cons.inj hs
        exact ⟨hs, cutLastText_eq_none_iff.1 hcut⟩
  · rintro ⟨rfl, hlast⟩
    induction a with
    | nil =>
      have hnone := cutLastText_eq_none_iff.2 hlast
      have hdrop : dropHead? (c :: sep) (c :: (sep ++ b)) = some b := dropHead?_eq_some_iff.2 rfl
      simp [cutLastText, hnone, hdrop]
    | cons d a ih =>
      rw [List.cons_append, List.cons_append, cutLastText, ih]

theorem cutFirstText_eq (h : cutFirstText sep s = some (a, b)) : s = a ++ sep ++ b := by
  induction s generalizing a with
  | nil =>
    rw [cutFirstText] at h
    split at h
    · simp_all
    · cases h
  | cons d s ih =>
    rw [cutFirstText] at h
    cases hdrop : dropHead? sep (d :: s) with
    | some rest =>
      simp only [hdrop, Option.some.injEq, Prod.mk.injEq] at h
      obtain ⟨rfl, rfl⟩ := h
      exact dropHead?_eq_some_iff.1 hdrop
    | none =>
      simp only [hdrop, Option.map_eq_some_iff, Prod.mk.injEq, Prod.exists] at h
      obtain ⟨a', b', hcut, rfl, rfl⟩ := h
      exact congrArg (d :: ·) (ih hcut)

end Text

open Text

namespace Origin

variable {url container entry stem : List Char}

/-- The container ends at the last `.jar`, and the entry is what stands behind it, without marks. -/
theorem exists_of_archive? (h : archive? url = some (container, entry)) :
    ∃ stem, container = stem ++ jarEnding ∧ ¬ jarEnding <:+: entry ∧ entry.head? ≠ some '/' ∧
      entry <:+ url := by
  simp only [archive?, Option.bind_eq_bind, Option.bind_eq_some_iff, Option.pure_def,
    Option.some.injEq, Prod.mk.injEq] at h
  obtain ⟨_, _, ⟨scheme, rest⟩, hscheme, ⟨stem, tail⟩, hcut, rfl, rfl⟩ := h
  obtain ⟨hrest, hlast⟩ := cutLastText_eq_some_iff.1 hcut
  have hentry : (tail.dropWhile (· == '!')).dropWhile (· == '/') <:+ tail :=
    (List.dropWhile_suffix _).trans (List.dropWhile_suffix _)
  refine ⟨stem, rfl, fun hin => hlast ?_, fun hhead => ?_, ?_⟩
  · exact (hin.trans hentry.isInfix).trans (List.suffix_append _ _).isInfix
  · have hnot := List.head?_dropWhile_not (· == '/') (tail.dropWhile (· == '!'))
    rw [hhead] at hnot
    cases hnot
  · have htail : tail <:+ rest := ⟨stem ++ jarEnding, hrest.symm⟩
    have hurl : rest <:+ url := ⟨_, (cutFirstText_eq hscheme).symm⟩
    exact hentry.trans (htail.trans hurl)

/-- What stands in front of the container of an archive. -/
def archiveMark : List Char := ['j', 'a', 'r', ':', '/', '/']

/-- What stands in front of the path of a source. -/
def sourceMark : List Char := ['f', 'i', 'l', 'e', ':', '/', '/']

/-- What is shown for an archive is cut where it was put together. -/
theorem archive?_shown (hlast : ¬ jarEnding <:+: entry) (hhead : entry.head? ≠ some '/') :
    archive? (archiveMark ++ (stem ++ jarEnding ++ '!' :: '/' :: entry)) =
      some (stem ++ jarEnding, entry) := by
  have hcut : cutLastText jarEnding (stem ++ jarEnding ++ '!' :: '/' :: entry) =
      some (stem, '!' :: '/' :: entry) := by
    refine cutLastText_eq_some_iff.2 ⟨rfl, ?_⟩
    -- A dot can only be met in the entry.
    rw [jarEnding] at hlast
    simpa [List.infix_cons_iff] using hlast
  have hmarks : (('!' :: '/' :: entry).dropWhile (· == '!')).dropWhile (· == '/') = entry := by
    -- The entry does not begin with a slash, so that no more than the marks are dropped.
    cases entry with
    | nil => rfl
    | cons c entry =>
      have hc : (c == '/') = false := by simpa using hhead
      simp [hc]
  have hparts : archive? (archiveMark ++ (stem ++ jarEnding ++ '!' :: '/' :: entry)) =
      (cutLastText jarEnding (stem ++ jarEnding ++ '!' :: '/' :: entry)).bind fun parts =>
        some (parts.1 ++ jarEnding, (parts.2.dropWhile (· == '!')).dropWhile (· == '/')) := rfl
  rw [hparts, hcut, Option.bind_some, hmarks]

theorem parse_of_trimmed_archive {s : List Char} (h : Trimmed s)
    (harchive : archive? s = some (container, entry)) :
    parse (String.ofList s) = .archive ⟨String.ofList container⟩ (String.ofList entry) := by
  simp [parse, h.trim_eq, harchive]

theorem parse_of_trimmed_source {s : List Char} (h : Trimmed (sourceMark ++ s)) :
    parse (String.ofList (sourceMark ++ s)) = .source ⟨String.ofList s⟩ := by
  have harchive : archive? (sourceMark ++ s) = none := rfl
  have hdrop : dropHead? ['f', 'i', 'l', 'e', ':', '/', '/'] (sourceMark ++ s) = some s :=
    dropHead?_eq_some_iff.2 rfl
  simp only [parse, String.toList_ofList, h.trim_eq, harchive, hdrop, Option.getD_some]

theorem display_archive (container entry : List Char) :
    display (.archive ⟨String.ofList container⟩ (String.ofList entry)) =
      String.ofList (archiveMark ++ (container ++ '!' :: '/' :: entry)) := by
  rw [← String.toList_inj]
  simp [display, archiveMark]

theorem display_source (s : List Char) :
    display (.source ⟨String.ofList s⟩) = String.ofList (sourceMark ++ s) := by
  rw [← String.toList_inj]
  simp [display, sourceMark]

/-- Reading, showing and reading again is reading. -/
theorem parse_display_parse (url : String) : parse (parse url).display = parse url := by
  have htrimmed := trimmed_trim url.toList
  cases harchive : archive? (trim url.toList) with
  | some parts =>
    -- The container and the entry are found again in the text.
    obtain ⟨container, entry⟩ := parts
    have hparse : parse url = .archive ⟨String.ofList container⟩ (String.ofList entry) := by
      simp [parse, harchive]
    obtain ⟨stem, rfl, hlast, hhead, hsuffix⟩ := exists_of_archive? harchive
    have hmark : Trimmed (archiveMark ++ (stem ++ jarEnding ++ ['!', '/'])) := by
      refine ⟨by rintro _ ⟨⟩; rfl, ?_⟩
      simp [isBlank]
    have hshown : Trimmed (archiveMark ++ (stem ++ jarEnding ++ '!' :: '/' :: entry)) := by
      simpa using htrimmed.append_suffix hsuffix hmark (List.cons_ne_nil _ _)
    rw [hparse, display_archive, parse_of_trimmed_archive hshown (archive?_shown hlast hhead)]
  | none =>
    -- Anything else is a source file, whose mark is dropped once.
    have hparse : ∃ s, s <:+ trim url.toList ∧ parse url = .source ⟨String.ofList s⟩ := by
      refine ⟨(dropHead? sourceMark (trim url.toList)).getD (trim url.toList), ?_, ?_⟩
      · cases hdrop : dropHead? sourceMark (trim url.toList) with
        | none => exact List.suffix_rfl
        | some s => exact ⟨sourceMark, (dropHead?_eq_some_iff.1 hdrop).symm⟩
      · simp [parse, harchive, sourceMark]
    obtain ⟨s, hsuffix, hs⟩ := hparse
    have hmark : Trimmed sourceMark := ⟨by rintro _ ⟨⟩; rfl, by rintro _ ⟨⟩; rfl⟩
    have hshown : Trimmed (sourceMark ++ s) :=
      htrimmed.append_suffix hsuffix hmark (List.cons_ne_nil _ _)
    rw [hs, display_source, parse_of_trimmed_source hshown]

/-- The origins that can be read are those that are read from what is shown for them. -/
theorem parse_display_iff {o : Origin} : parse o.display = o ↔ ∃ url, o = parse url := by
  constructor
  · exact fun h => ⟨o.display, h.symm⟩
  · rintro ⟨url, rfl⟩
    exact parse_display_parse url

end Origin

end JvmThrows
