/-!
# Cutting text at a character

`pieces` cuts at every separator, `cutFirst` and `cutLast` at one. A text without the separator is
one piece and has no cut.
-/

namespace JvmThrows.Text

/-- The texts between the separators; always at least one. -/
def pieces (sep : Char) : List Char → List (List Char)
  | [] => [[]]
  | c :: cs =>
    if c = sep then [] :: pieces sep cs
    else
      match pieces sep cs with
      | p :: ps => (c :: p) :: ps
      | [] => [[c]]

/-- What stands before and after the first separator. -/
def cutFirst (sep : Char) : List Char → Option (List Char × List Char)
  | [] => none
  | c :: cs =>
    if c = sep then some ([], cs) else (cutFirst sep cs).map fun (a, b) => (c :: a, b)

/-- What stands before and after the last separator. -/
def cutLast (sep : Char) : List Char → Option (List Char × List Char)
  | [] => none
  | c :: cs =>
    match cutLast sep cs with
    | some (a, b) => some (c :: a, b)
    | none => if c = sep then some ([], cs) else none

/-- The text without a given beginning, if it begins so. -/
def dropHead? : List Char → List Char → Option (List Char)
  | [], s => some s
  | _ :: _, [] => none
  | h :: hs, c :: cs => if h = c then dropHead? hs cs else none

/-- The text without a given ending, if it ends so. -/
def dropTail? (tail s : List Char) : Option (List Char) :=
  (dropHead? tail.reverse s.reverse).map List.reverse

/-- What stands before and after the first occurrence of a text. -/
def cutFirstText (sep : List Char) : List Char → Option (List Char × List Char)
  | [] => if sep.isEmpty then some ([], []) else none
  | c :: cs =>
    match dropHead? sep (c :: cs) with
    | some rest => some ([], rest)
    | none => (cutFirstText sep cs).map fun (a, b) => (c :: a, b)

/-- What stands before and after the last occurrence of a text. -/
def cutLastText (sep : List Char) : List Char → Option (List Char × List Char)
  | [] => if sep.isEmpty then some ([], []) else none
  | c :: cs =>
    match cutLastText sep cs with
    | some (a, b) => some (c :: a, b)
    | none => (dropHead? sep (c :: cs)).map fun rest => ([], rest)

/-- Puts one character for another throughout. -/
def replaceChar (old new : Char) (s : List Char) : List Char :=
  s.map fun c => if c = old then new else c

/-- Equality of ASCII letters up to case, of all other characters as they are. -/
def sameIgnoringCase (a b : String) : Bool :=
  a.toList.map Char.toLower == b.toList.map Char.toLower

theorem pieces_ne_nil (sep : Char) (s : List Char) : pieces sep s ≠ [] := by
  cases s with
  | nil => simp [pieces]
  | cons c cs =>
    unfold pieces
    split
    · exact List.cons_ne_nil _ _
    · split <;> exact List.cons_ne_nil _ _

theorem pieces_append_sep {sep : Char} {a : List Char} (ha : sep ∉ a) (b : List Char) :
    pieces sep (a ++ sep :: b) = a :: pieces sep b := by
  induction a with
  | nil => simp [pieces]
  | cons c cs ih =>
    obtain ⟨hc, hcs⟩ := List.ne_and_not_mem_of_not_mem_cons ha
    simp [pieces, Ne.symm hc, ih hcs]

theorem pieces_of_not_mem {sep : Char} {a : List Char} (ha : sep ∉ a) : pieces sep a = [a] := by
  induction a with
  | nil => rfl
  | cons c cs ih =>
    obtain ⟨hc, hcs⟩ := List.ne_and_not_mem_of_not_mem_cons ha
    simp [pieces, Ne.symm hc, ih hcs]

theorem pieces_append (sep : Char) (a b : List Char) :
    pieces sep (a ++ sep :: b) = pieces sep a ++ pieces sep b := by
  induction a with
  | nil => simp [pieces]
  | cons c cs ih =>
    by_cases hc : c = sep
    · simp [pieces, hc, ih]
    · obtain ⟨p, ps, hps⟩ := List.exists_cons_of_ne_nil (pieces_ne_nil sep cs)
      simp [pieces, hc, ih, hps]

/-- Cutting undoes joining. -/
theorem pieces_intercalate {sep : Char} {ps : List (List Char)} (hne : ps ≠ [])
    (hps : ∀ p ∈ ps, sep ∉ p) : pieces sep ([sep].intercalate ps) = ps := by
  induction ps with
  | nil => exact absurd rfl hne
  | cons p ps ih =>
    have hp : sep ∉ p := hps p List.mem_cons_self
    cases ps with
    | nil => simpa using pieces_of_not_mem hp
    | cons q ps =>
      rw [List.intercalate_cons_cons, List.append_assoc, List.singleton_append,
        pieces_append_sep hp, ih (List.cons_ne_nil q ps) fun r hr =>
          hps r (List.mem_cons_of_mem p hr)]

/-- Joining undoes cutting. -/
theorem intercalate_pieces (sep : Char) (s : List Char) : [sep].intercalate (pieces sep s) = s := by
  induction s with
  | nil => simp [pieces]
  | cons c cs ih =>
    unfold pieces
    obtain ⟨p, ps, hps⟩ := List.exists_cons_of_ne_nil (pieces_ne_nil sep cs)
    rw [hps] at ih ⊢
    by_cases hc : c = sep
    · rw [if_pos hc, List.intercalate_cons_cons, ih, hc]
      rfl
    · rw [if_neg hc]
      cases ps with
      | nil => simpa using ih
      | cons q qs =>
        rw [List.intercalate_cons_cons] at ih ⊢
        rw [← ih]
        rfl

theorem not_mem_of_mem_pieces {sep : Char} {s p : List Char} (h : p ∈ pieces sep s) : sep ∉ p := by
  induction s generalizing p with
  | nil => simp_all [pieces]
  | cons c cs ih =>
    unfold pieces at h
    by_cases hc : c = sep
    · rw [if_pos hc] at h
      rcases List.mem_cons.1 h with rfl | h
      · exact List.not_mem_nil
      · exact ih h
    · rw [if_neg hc] at h
      cases hps : pieces sep cs with
      | nil => simp_all [Ne.symm hc]
      | cons q qs =>
        rw [hps] at h ih
        rcases List.mem_cons.1 h with rfl | h
        · simpa [Ne.symm hc] using ih List.mem_cons_self
        · exact ih (List.mem_cons_of_mem q h)

theorem mem_of_mem_pieces {sep c : Char} {s p : List Char} (hp : p ∈ pieces sep s) (hc : c ∈ p) :
    c ∈ s := by
  induction s generalizing p with
  | nil => simp_all [pieces]
  | cons d ds ih =>
    unfold pieces at hp
    split at hp
    · rcases List.mem_cons.1 hp with rfl | hp
      · cases hc
      · exact List.mem_cons_of_mem d (ih hp hc)
    · cases hps : pieces sep ds with
      | nil => simp_all
      | cons q qs =>
        rw [hps] at hp ih
        rcases List.mem_cons.1 hp with rfl | hp
        · rcases List.mem_cons.1 hc with rfl | hc
          · exact List.mem_cons_self
          · exact List.mem_cons_of_mem d (ih List.mem_cons_self hc)
        · exact List.mem_cons_of_mem d (ih (List.mem_cons_of_mem q hp) hc)

theorem cutFirst_append_sep {sep : Char} {a : List Char} (ha : sep ∉ a) (b : List Char) :
    cutFirst sep (a ++ sep :: b) = some (a, b) := by
  induction a with
  | nil => simp [cutFirst]
  | cons c cs ih =>
    obtain ⟨hc, hcs⟩ := List.ne_and_not_mem_of_not_mem_cons ha
    simp [cutFirst, Ne.symm hc, ih hcs]

theorem cutFirst_eq_none {sep : Char} {s : List Char} (h : sep ∉ s) : cutFirst sep s = none := by
  induction s with
  | nil => rfl
  | cons c cs ih =>
    obtain ⟨hc, hcs⟩ := List.ne_and_not_mem_of_not_mem_cons h
    simp [cutFirst, Ne.symm hc, ih hcs]

theorem not_mem_of_cutFirst_eq_none {sep : Char} {s : List Char} (h : cutFirst sep s = none) :
    sep ∉ s := by
  induction s with
  | nil => exact List.not_mem_nil
  | cons c cs ih =>
    unfold cutFirst at h
    by_cases hc : c = sep
    · simp [hc] at h
    · rw [if_neg hc, Option.map_eq_none_iff] at h
      simp [Ne.symm hc, ih h]

theorem not_mem_of_cutFirst {sep : Char} {s a b : List Char} (h : cutFirst sep s = some (a, b)) :
    sep ∉ a := by
  induction s generalizing a with
  | nil => simp [cutFirst] at h
  | cons c cs ih =>
    unfold cutFirst at h
    by_cases hc : c = sep
    · rw [if_pos hc] at h
      cases h
      exact List.not_mem_nil
    · rw [if_neg hc] at h
      obtain ⟨⟨a', b'⟩, h', he⟩ := Option.map_eq_some_iff.1 h
      cases he
      simpa [Ne.symm hc] using ih h'

theorem cutFirst_eq {sep : Char} {s a b : List Char} (h : cutFirst sep s = some (a, b)) :
    s = a ++ sep :: b := by
  induction s generalizing a b with
  | nil => simp [cutFirst] at h
  | cons c cs ih =>
    unfold cutFirst at h
    by_cases hc : c = sep
    · rw [if_pos hc] at h
      cases h
      simp [hc]
    · rw [if_neg hc] at h
      obtain ⟨⟨a', b'⟩, h', he⟩ := Option.map_eq_some_iff.1 h
      cases he
      rw [ih h']
      rfl

theorem cutFirst_eq_some_iff {sep : Char} {s a b : List Char} :
    cutFirst sep s = some (a, b) ↔ s = a ++ sep :: b ∧ sep ∉ a := by
  refine ⟨fun h => ⟨cutFirst_eq h, not_mem_of_cutFirst h⟩, ?_⟩
  rintro ⟨rfl, ha⟩
  exact cutFirst_append_sep ha b

theorem not_mem_of_cutLast_eq_none {sep : Char} {s : List Char} (h : cutLast sep s = none) :
    sep ∉ s := by
  induction s with
  | nil => exact List.not_mem_nil
  | cons c cs ih =>
    unfold cutLast at h
    cases hcs : cutLast sep cs with
    | some parts => simp [hcs] at h
    | none =>
      have hc : c ≠ sep := by simpa [hcs] using h
      simp [Ne.symm hc, ih hcs]

theorem cutLast_eq {sep : Char} {s a b : List Char} (h : cutLast sep s = some (a, b)) :
    s = a ++ sep :: b ∧ sep ∉ b := by
  induction s generalizing a with
  | nil => simp [cutLast] at h
  | cons c cs ih =>
    unfold cutLast at h
    cases hcs : cutLast sep cs with
    | some parts =>
      simp only [hcs, Option.some.injEq, Prod.mk.injEq] at h
      obtain ⟨rfl, rfl⟩ := h
      obtain ⟨heq, hb⟩ := ih hcs
      exact ⟨congrArg (c :: ·) heq, hb⟩
    | none =>
      have hmem := not_mem_of_cutLast_eq_none hcs
      by_cases hc : c = sep
      · simp only [hcs, hc, if_true, Option.some.injEq, Prod.mk.injEq] at h
        obtain ⟨rfl, rfl⟩ := h
        exact ⟨by simp [hc], hmem⟩
      · simp [hcs, hc] at h

theorem not_mem_replaceChar {old new : Char} (h : old ≠ new) (s : List Char) :
    old ∉ replaceChar old new s := by
  simp only [replaceChar, List.mem_map, not_exists, not_and]
  intro c _ hc
  split at hc
  · exact h hc.symm
  · contradiction

theorem replaceChar_of_not_mem {old new : Char} {s : List Char} (h : old ∉ s) :
    replaceChar old new s = s := by
  refine (List.map_congr_left fun c hc => ?_).trans (List.map_id s)
  have hne : c ≠ old := fun heq => h (heq ▸ hc)
  simp [hne]

theorem dropHead?_eq_some_iff {head s rest : List Char} :
    dropHead? head s = some rest ↔ s = head ++ rest := by
  induction head generalizing s with
  | nil => simp [dropHead?]
  | cons h hs ih =>
    cases s with
    | nil => simp [dropHead?]
    | cons c cs =>
      by_cases hc : h = c
      · simp [dropHead?, hc, ih]
      · simp [dropHead?, hc, Ne.symm hc]

theorem dropTail?_eq_some_iff {tail s rest : List Char} :
    dropTail? tail s = some rest ↔ s = rest ++ tail := by
  simp only [dropTail?, Option.map_eq_some_iff, dropHead?_eq_some_iff]
  constructor
  · rintro ⟨r, hr, rfl⟩
    simpa using congrArg List.reverse hr
  · rintro rfl
    exact ⟨rest.reverse, by simp, by simp⟩

theorem isSome_dropHead?_iff {head s : List Char} :
    (dropHead? head s).isSome = true ↔ head <+: s := by
  rw [Option.isSome_iff_exists]
  exact exists_congr fun rest => dropHead?_eq_some_iff.trans eq_comm

theorem isSome_dropTail?_iff {tail s : List Char} :
    (dropTail? tail s).isSome = true ↔ tail <:+ s := by
  rw [Option.isSome_iff_exists]
  exact exists_congr fun rest => dropTail?_eq_some_iff.trans eq_comm

end JvmThrows.Text
