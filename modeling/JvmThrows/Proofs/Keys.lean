import JvmThrows.Cache.Key

/-!
# Keys of keys

The key of a class need not be its own key: what is left of a name when the nested part is cut off
may be read as a qualified name that again has nested parts. It never takes more than two steps. A
name without a dollar is cut behind its first class segment (`outerChars_ofQualifiedChars`), and
that is where it is cut again; a name with a dollar that is not cut stays as it is. So the key of a
key is its own key (`Cache.key_key_key`). What takes the second step is a name that is cut at a
dollar with a class segment left before the last one (`leavesNested`, `topLevel_topLevel_eq_iff`).
-/

namespace JvmThrows

namespace ClassName

open Text

/-- The segments up to the first class segment. -/
def upToClass : List (List Char) → List (List Char)
  | [] => []
  | p :: ps => if startsUpper p then [p] else p :: upToClass ps

theorem upToClass_upToClass (ps : List (List Char)) : upToClass (upToClass ps) = upToClass ps := by
  induction ps with
  | nil => rfl
  | cons p ps ih => by_cases hp : startsUpper p <;> simp [upToClass, hp, ih]

/-- Nothing is left out if only the last segment may be a class segment. -/
theorem upToClass_eq_self_iff {ps : List (List Char)} :
    upToClass ps = ps ↔ ps.dropLast.any startsUpper = false := by
  induction ps with
  | nil => simp [upToClass]
  | cons p ps ih =>
    cases ps with
    | nil => by_cases hp : startsUpper p <;> simp [upToClass, hp]
    | cons q ps =>
      rw [List.dropLast_cons_of_ne_nil (List.cons_ne_nil q ps), List.any_cons, Bool.or_eq_false_iff,
        ← ih, upToClass]
      by_cases hp : startsUpper p <;> simp [hp]

theorem upToClass_ne_nil {ps : List (List Char)} (h : ps ≠ []) : upToClass ps ≠ [] := by
  cases ps with
  | nil => exact absurd rfl h
  | cons p ps => by_cases hp : startsUpper p <;> simp [upToClass, hp]

/-- A class segment that is no longer the last one has left its place. -/
theorem length_filter_upToClass_lt {ps : List (List Char)} (h : upToClass ps ≠ ps) :
    ((upToClass ps).dropLast.filter (!·.isEmpty)).length <
      (ps.dropLast.filter (!·.isEmpty)).length := by
  induction ps with
  | nil => exact absurd rfl h
  | cons p ps ih =>
    have hps : ps ≠ [] := by
      rintro rfl
      exact h (upToClass_eq_self_iff.2 rfl)
    rw [List.dropLast_cons_of_ne_nil hps]
    by_cases hp : startsUpper p
    · -- Everything behind the class is dropped, and the class is last instead.
      have hne : p ≠ [] := by
        rintro rfl
        cases hp
      simp [upToClass, hp, hne]
    · -- The class comes later, and this segment stays.
      have hrest : upToClass ps ≠ ps := fun heq => h (by simp [upToClass, hp, heq])
      have hlt := ih hrest
      rw [upToClass, if_neg hp, List.dropLast_cons_of_ne_nil (upToClass_ne_nil hps)]
      by_cases hne : p.isEmpty <;> simpa [List.filter_cons, hne] using hlt

theorem upToClass_subset {ps : List (List Char)} {p : List Char} (h : p ∈ upToClass ps) :
    p ∈ ps := by
  induction ps with
  | nil => simp [upToClass] at h
  | cons q ps ih =>
    unfold upToClass at h
    split at h
    · simp_all
    · rcases List.mem_cons.1 h with rfl | h
      · exact List.mem_cons_self
      · exact List.mem_cons_of_mem q (ih h)

theorem not_mem_intercalate {c sep : Char} {ps : List (List Char)} (hc : c ≠ sep)
    (h : ∀ p ∈ ps, c ∉ p) : c ∉ [sep].intercalate ps := by
  induction ps with
  | nil => simp
  | cons p ps ih =>
    have hp := h p List.mem_cons_self
    have hps := ih fun q hq => h q (List.mem_cons_of_mem p hq)
    cases ps with
    | nil => simpa using hp
    | cons q ps => simp [List.intercalate_cons_cons, hp, hc, hps]

theorem getLast?_intercalate (sep : Char) {ps : List (List Char)} {p : List Char}
    (hlast : ps.getLast? = some p) (hp : p ≠ []) :
    ([sep].intercalate ps).getLast? = p.getLast? := by
  induction ps with
  | nil => simp at hlast
  | cons q ps ih =>
    cases ps with
    | nil => simp_all
    | cons r ps =>
      have hrest := ih (by simpa using hlast)
      rw [List.intercalate_cons_cons, List.getLast?_append, hrest,
        List.getLast?_eq_some_getLast hp, Option.some_or]

/-- Joining goes on with dots up to the first class segment, and there a dollar follows or the name
ends. -/
theorem joinNested_false_cases (ps : List (List Char)) :
    joinNested false ps = ['.'].intercalate (upToClass ps) ∨
      ∃ p rest, (upToClass ps).getLast? = some p ∧ startsUpper p ∧
        joinNested false ps = ['.'].intercalate (upToClass ps) ++ '$' :: rest := by
  induction ps with
  | nil => exact .inl rfl
  | cons p ps ih =>
    cases ps with
    | nil => by_cases hp : startsUpper p <;> simp [joinNested, upToClass, hp]
    | cons q ps =>
      by_cases hp : startsUpper p
      · -- The first class segment: all that follow are nested in it.
        exact .inr ⟨p, joinNested true (q :: ps), by simp [upToClass, hp], hp, by
          simp [joinNested, upToClass, hp]⟩
      · have hnested :
            joinNested false (p :: q :: ps) = p ++ '.' :: joinNested false (q :: ps) := by
          simp [joinNested, hp]
        have hcut : upToClass (p :: q :: ps) = p :: upToClass (q :: ps) := by simp [upToClass, hp]
        obtain ⟨r, rs, hrs⟩ := List.exists_cons_of_ne_nil (upToClass_ne_nil (List.cons_ne_nil q ps))
        rw [hnested, hcut]
        rw [hrs] at ih ⊢
        rw [List.intercalate_cons_cons, List.append_assoc, List.singleton_append]
        rcases ih with ih | ⟨last, rest, hlast, hupper, ih⟩
        · exact .inl (by rw [ih])
        · exact .inr ⟨last, rest, by simpa using hlast, hupper, by simp [ih]⟩

theorem mem_joinNested {inClass : Bool} {ps : List (List Char)} {c : Char}
    (h : c ∈ joinNested inClass ps) : c = '.' ∨ c = '$' ∨ ∃ p ∈ ps, c ∈ p := by
  fun_induction joinNested inClass ps with
  | case1 => cases h
  | case2 _ p => exact .inr (.inr ⟨p, List.mem_singleton_self p, h⟩)
  | case3 inClass p ps _ inClass' ih =>
    rcases List.mem_append.1 h with hp | hp
    · exact .inr (.inr ⟨p, List.mem_cons_self, hp⟩)
    · rcases List.mem_cons.1 hp with rfl | hrest
      · -- The separator is a dot in front of the class and a dollar behind it.
        split <;> simp
      · rcases ih hrest with hdot | hdollar | ⟨q, hq, hc⟩
        · exact .inl hdot
        · exact .inr (.inl hdollar)
        · exact .inr (.inr ⟨q, List.mem_cons_of_mem p hq, hc⟩)

/-- A name without a dollar is cut behind its first class segment. -/
theorem outerChars_ofQualifiedChars {s : List Char} (h : '$' ∉ s) :
    outerChars (ofQualifiedChars s) = ['.'].intercalate (upToClass (pieces '.' s)) := by
  have hdollar : ∀ p ∈ upToClass (pieces '.' s), '$' ∉ p := fun p hp hc =>
    h (mem_of_mem_pieces (upToClass_subset hp) hc)
  have hclean : '$' ∉ ['.'].intercalate (upToClass (pieces '.' s)) :=
    not_mem_intercalate (by decide) hdollar
  have hqualified : ofQualifiedChars s = joinNested false (pieces '.' s) := by
    simp [ofQualifiedChars, h]
  rw [hqualified]
  rcases joinNested_false_cases (pieces '.' s) with hjoin | ⟨p, rest, hlast, hupper, hjoin⟩
  · rw [hjoin, outerChars, cutFirst_eq_none hclean]
  · -- A class segment is not empty and does not end in a dot.
    have hp : p ≠ [] := by
      rintro rfl
      simp [startsUpper] at hupper
    have hdot : '.' ∉ p :=
      not_mem_of_mem_pieces (upToClass_subset (List.mem_of_getLast? hlast))
    have hend := getLast?_intercalate '.' hlast hp
    have hne : ['.'].intercalate (upToClass (pieces '.' s)) ≠ [] := by
      intro hnil
      rw [hnil, List.getLast?_nil, List.getLast?_eq_some_getLast hp] at hend
      cases hend
    have hnodot : p.getLast? ≠ some '.' := fun hd => hdot (List.mem_of_getLast? hd)
    simp [hjoin, outerChars, cutFirst_append_sep hclean, hne, hend, hnodot]

/-- A cut-off name has no dollar. -/
theorem outerChars_eq_of_mem {s : List Char} (h : '$' ∈ outerChars s) : outerChars s = s := by
  unfold outerChars at h ⊢
  cases hcut : cutFirst '$' s with
  | none => rfl
  | some ab =>
    rw [hcut] at h
    dsimp only at h ⊢
    split at h
    · -- A dollar at the beginning of the simple name is kept.
      rename_i hkeep
      rw [if_pos hkeep]
    · exact absurd h (not_mem_of_cutFirst hcut)

theorem outerChars_subset {s : List Char} {c : Char} (h : c ∈ outerChars s) : c ∈ s := by
  unfold outerChars at h
  cases hcut : cutFirst '$' s with
  | none => rwa [hcut] at h
  | some ab =>
    rw [hcut] at h
    dsimp only at h
    split at h
    · exact h
    · rw [cutFirst_eq hcut]
      exact List.mem_append_left _ h

theorem slash_not_mem_ofQualifiedChars {s : List Char} (h : '/' ∉ s) :
    '/' ∉ ofQualifiedChars s := by
  unfold ofQualifiedChars
  split
  · exact h
  · intro hmem
    rcases mem_joinNested hmem with hc | hc | ⟨p, hp, hc⟩
    · exact absurd hc (by decide)
    · exact absurd hc (by decide)
    · exact h (mem_of_mem_pieces hp hc)

theorem slash_not_mem_topLevel (name : String) : '/' ∉ (topLevel name).toList := by
  rw [topLevel, String.toList_ofList]
  exact fun h => slash_not_mem_ofQualifiedChars (not_mem_replaceChar (by decide) _)
    (outerChars_subset h)

theorem topLevel_of_slash_not_mem {name : String} (h : '/' ∉ name.toList) :
    topLevel name = String.ofList (outerChars (ofQualifiedChars name.toList)) := by
  rw [topLevel, replaceChar_of_not_mem h]

/-- The spelling with dots has the same top-level class. -/
theorem topLevel_toBinary (name : String) : topLevel (toBinary name) = topLevel name := by
  have hslash : '/' ∉ (toBinary name).toList := by
    rw [toBinary, String.toList_ofList]
    exact not_mem_replaceChar (by decide) _
  rw [topLevel_of_slash_not_mem hslash, toBinary, String.toList_ofList, topLevel]

/-- A top-level name with a dollar is one that cannot be cut. -/
theorem topLevel_of_dollar_mem {name : String} (h : '$' ∈ (topLevel name).toList) :
    topLevel (topLevel name) = topLevel name := by
  rw [topLevel_of_slash_not_mem (slash_not_mem_topLevel name)]
  have hqualified : ofQualifiedChars (topLevel name).toList = (topLevel name).toList := by
    simp [ofQualifiedChars, h]
  have huncut : outerChars (topLevel name).toList = (topLevel name).toList := by
    rw [topLevel, String.toList_ofList] at h ⊢
    rw [outerChars_eq_of_mem h, outerChars_eq_of_mem h]
  rw [hqualified, huncut, String.ofList_toList]

theorem topLevel_eq_intercalate {name : String} (hslash : '/' ∉ name.toList)
    (h : '$' ∉ name.toList) :
    (topLevel name).toList = ['.'].intercalate (upToClass (pieces '.' name.toList)) := by
  rw [topLevel_of_slash_not_mem hslash, outerChars_ofQualifiedChars h, String.toList_ofList]

theorem pieces_topLevel {name : String} (hslash : '/' ∉ name.toList) (h : '$' ∉ name.toList) :
    pieces '.' (topLevel name).toList = upToClass (pieces '.' name.toList) := by
  rw [topLevel_eq_intercalate hslash h]
  exact pieces_intercalate (upToClass_ne_nil (pieces_ne_nil _ _)) fun p hp =>
    not_mem_of_mem_pieces (upToClass_subset hp)

theorem topLevel_eq_self_iff {name : String} (hslash : '/' ∉ name.toList) (h : '$' ∉ name.toList) :
    topLevel name = name ↔ upToClass (pieces '.' name.toList) = pieces '.' name.toList := by
  constructor
  · intro heq
    rw [← pieces_topLevel hslash h, heq]
  · intro heq
    rw [← String.toList_inj, topLevel_eq_intercalate hslash h, heq, intercalate_pieces]

theorem topLevel_of_dollar_not_mem {name : String} (hslash : '/' ∉ name.toList)
    (h : '$' ∉ name.toList) : topLevel (topLevel name) = topLevel name := by
  have hdollar : '$' ∉ (topLevel name).toList := by
    rw [topLevel_eq_intercalate hslash h]
    exact not_mem_intercalate (by decide) fun p hp hc =>
      h (mem_of_mem_pieces (upToClass_subset hp) hc)
  rw [topLevel_eq_self_iff (slash_not_mem_topLevel name) hdollar, pieces_topLevel hslash h,
    upToClass_upToClass]

/-- Whether a name is cut at its first dollar and what is left has a class segment before its last
one, so that it reads as a qualified name with nested parts. -/
def leavesNested (name : String) : Bool :=
  match cutFirst '$' (toBinary name).toList with
  | some (outer, _) =>
    !(outer.isEmpty || outer.getLast? == some '.') && (pieces '.' outer).dropLast.any startsUpper
  | none => false

theorem topLevel_topLevel_eq_iff (name : String) :
    topLevel (topLevel name) = topLevel name ↔ leavesNested name = false := by
  have hslash : '/' ∉ (toBinary name).toList := by
    rw [toBinary, String.toList_ofList]
    exact not_mem_replaceChar (by decide) _
  rw [← topLevel_toBinary name]
  cases hcut : cutFirst '$' (toBinary name).toList with
  | none =>
    have hdollar : '$' ∉ (toBinary name).toList := not_mem_of_cutFirst_eq_none hcut
    simp [leavesNested, hcut, topLevel_of_dollar_not_mem hslash hdollar]
  | some parts =>
    obtain ⟨outer, nested⟩ := parts
    have hname := cutFirst_eq hcut
    have hqualified : ofQualifiedChars (toBinary name).toList = (toBinary name).toList := by
      simp [ofQualifiedChars, hname]
    have htop : topLevel (toBinary name) = String.ofList (if outer.isEmpty ||
        outer.getLast? == some '.' then (toBinary name).toList else outer) := by
      rw [topLevel_of_slash_not_mem hslash, hqualified, outerChars, hcut]
    by_cases hkeep : (outer.isEmpty || outer.getLast? == some '.') = true
    · -- At most a package stands in front of the dollar, and the name is left as it is.
      have hdollar : '$' ∈ (topLevel (toBinary name)).toList := by
        rw [htop, if_pos hkeep, String.ofList_toList, hname]
        simp
      simp [leavesNested, hcut, hkeep, topLevel_of_dollar_mem hdollar]
    · -- What stands in front of the dollar may have classes in it again.
      have houter : '/' ∉ outer := fun hmem => hslash (by simp [hname, hmem])
      rw [htop, if_neg hkeep, topLevel_eq_self_iff (by simpa using houter)
        (by simpa using not_mem_of_cutFirst hcut), upToClass_eq_self_iff]
      simp [leavesNested, hcut, hkeep]

end ClassName

/-- The key of a key is its own key. -/
theorem Cache.key_key_key (n : String) : key (key (key n)) = key (key n) := by
  by_cases h : '$' ∈ (key n).toList
  · exact congrArg key (ClassName.topLevel_of_dollar_mem h)
  · exact ClassName.topLevel_of_dollar_not_mem (ClassName.slash_not_mem_topLevel n) h

end JvmThrows
