import JvmThrows.Assembly.Class
import JvmThrows.Proofs.Containers
import Mathlib.Data.List.Induction
import Mathlib.Data.Nat.Digits.Defs

/-!
# Which definition of a class is kept

A jar may define a class several times: outside `META-INF/`, and, if its manifest says so, once more
for each version. The entries are gone through in their order, and of two definitions of a class
one is dropped at once, so nowhere are all definitions of a class seen together. `IsKept` says which
one is to remain: the first one outside, if there is one, and otherwise the first one for the
highest version.

One step changes what is kept under one name only (`getElem?_addRelease_of_ne`). After all steps
the definition under a name is the first one that no other one replaces
(`getElem?_foldl_addRelease_eq_some_iff`). Definitions outside are held as those for version 0, so
this is the one that `IsKept` speaks of where no directory of versions has the number 0
(`IsKept.exists_firstHighest`, `FirstHighest.isKept`). Main statement: a jar is read as the
definitions that are to be kept, in the order of names (`classes_multiRelease`).
-/

namespace JvmThrows.Archive

open Text

section Defs

/-- The entries of an archive that can all be opened and read. -/
def ofFiles (files : List (String × Bytes)) : List ArchiveEntry :=
  files.map fun f => ⟨f.1, .bytes f.2⟩

/-- Decimal digits, and the number that they denote, which has to fit into 32 bits. -/
structure Denotes (digits : List Char) (n : Nat) : Prop where
  ne_nil : digits ≠ []
  isDigit : ∀ c ∈ digits, c.isDigit = true
  value : n = Nat.ofDigits 10 (digits.reverse.map fun c => c.toNat - '0'.toNat)
  lt : n < 4294967296

/-- A number, perhaps after a plus sign. -/
def Numeral (text : List Char) (n : Nat) : Prop :=
  ∃ digits, Denotes digits n ∧ (text = digits ∨ text = '+' :: digits)

/-- A line of a manifest speaks of versions, and says so much. -/
def Says (line value : List Char) : Prop :=
  ∃ name rest, line = name ++ ':' :: rest ∧ ':' ∉ name ∧
    sameIgnoringCase (String.ofList (trim name)) "Multi-Release" = true ∧ value = trim rest

/-- The first line that speaks of versions says `true`. -/
def ManifestAllows (manifest : List Char) : Prop :=
  ∃ before line after value, pieces '\n' manifest = before ++ line :: after ∧
    (∀ l ∈ before, ∀ v, ¬ Says l v) ∧ Says line value ∧
    sameIgnoringCase (String.ofList value) "true" = true

/-- The manifest, the last one of the name, is a text that allows versions. -/
def AllowsVersions (files : List (String × Bytes)) : Prop :=
  ∃ before data after manifest, files = before ++ (manifestName, data) :: after ∧
    (∀ f ∈ after, f.1 ≠ manifestName) ∧ String.fromUTF8? ⟨data.toArray⟩ = some manifest ∧
    ManifestAllows manifest.toList

/-- An entry of the name is to be read, for a version or (`none`) for all. -/
inductive Eligible (versions : Prop) (name : List Char) : Option Nat → Prop
  | base (hclass : ".class".toList <:+ name) (hbase : ¬ "META-INF/".toList <+: name) :
    Eligible versions name none
  | version {directory path : List Char} {n : Nat} (h : versions)
    (hclass : ".class".toList <:+ name)
    (hname : name = "META-INF/versions/".toList ++ (directory ++ '/' :: path))
    (hslash : '/' ∉ directory) (hn : Numeral directory n) : Eligible versions name (some n)

/-- An entry defines a class. -/
structure Defines (versions : Prop) (f : String × Bytes) (v : Option Nat) (c : ClassFile) :
    Prop where
  eligible : Eligible versions f.1.toList v
  reads : ClassFile.ofBytes f.2 = .ok c
  notModule : c.name ≠ "module-info"
  notPackage : c.name ≠ "package-info"
  notBelow : ¬ "/package-info".toList <:+ c.name.toList

/-- The definition of a class that is kept: the first one for all versions, if there is one, and
otherwise the first one for the highest version. -/
inductive IsKept (versions : Prop) (files : List (String × Bytes)) (c : ClassFile) : Prop
  | base {before after : List (String × Bytes)} {f : String × Bytes}
    (hfiles : files = before ++ f :: after) (hc : Defines versions f none c)
    (hfirst : ∀ g ∈ before, ∀ c', Defines versions g none c' → c'.name ≠ c.name)
  | version {before after : List (String × Bytes)} {f : String × Bytes} {n : Nat}
    (hfiles : files = before ++ f :: after) (hc : Defines versions f (some n) c)
    (hbase : ∀ g ∈ files, ∀ c', Defines versions g none c' → c'.name ≠ c.name)
    (hhighest : ∀ g ∈ files, ∀ k c', Defines versions g (some k) c' → c'.name = c.name → k ≤ n)
    (hfirst : ∀ g ∈ before, ∀ k c', Defines versions g (some k) c' → c'.name = c.name → k < n)

/-- The first of the definitions of a class that no other one replaces. -/
def FirstHighest (n : String) (found : List Release) (r : Release) : Prop :=
  r.definition.name = n ∧ ∃ before after, found = before ++ r :: after ∧
    (∀ o ∈ before, o.definition.name = n → r.replaces o = true) ∧
    ∀ o ∈ after, o.definition.name = n → o.replaces r = false

end Defs

variable {found : List Release} {new old r r' : Release} {n : String}

/-! ### The definitions, one after the other -/

theorem replaces_iff : new.replaces old = true ↔
    old.version ≠ 0 ∧ (new.version = 0 ∨ old.version < new.version) := by
  simp [Release.replaces]

theorem not_replaces_iff : new.replaces old = false ↔
    old.version = 0 ∨ new.version ≠ 0 ∧ new.version ≤ old.version := by
  rw [← Bool.not_eq_true, replaces_iff]
  omega

theorem FirstHighest.unique (h : FirstHighest n found r) (h' : FirstHighest n found r') :
    r = r' := by
  obtain ⟨hr, before, after, rfl, hbefore, hafter⟩ := h
  obtain ⟨hr', before', after', heq, hbefore', hafter'⟩ := h'
  rcases List.append_eq_append_iff.1 heq with ⟨between, rfl, hbetween⟩ | ⟨between, rfl, hbetween⟩
  · -- Of two candidates, the later one would have to replace the earlier one, and must not.
    cases between with
    | nil => exact (List.cons.inj hbetween).1
    | cons o between =>
      obtain ⟨rfl, rfl⟩ := List.cons.inj hbetween
      have h1 := hbefore' r (by simp) hr
      have h2 := hafter r' (by simp) hr'
      exact absurd (h1.symm.trans h2) (by decide)
  · cases between with
    | nil => exact (List.cons.inj hbetween).1.symm
    | cons o between =>
      obtain ⟨rfl, rfl⟩ := List.cons.inj hbetween
      have h1 := hbefore r' (by simp) hr'
      have h2 := hafter' r (by simp) hr
      exact absurd (h1.symm.trans h2) (by decide)

/-- A definition at the end counts if it replaces the one that counted. -/
theorem FirstHighest.of_replaces (h : FirstHighest n found old) (hnew : new.definition.name = n)
    (hreplaces : new.replaces old = true) : FirstHighest n (found ++ [new]) new := by
  obtain ⟨hold, before, after, rfl, hbefore, hafter⟩ := h
  refine ⟨hnew, before ++ old :: after, [], rfl, fun o ho hname => ?_, by simp⟩
  rw [replaces_iff] at hreplaces ⊢
  rw [List.mem_append, List.mem_cons] at ho
  rcases ho with ho | rfl | ho
  · -- What the old one had replaced, the new one replaces as well.
    have hlower := replaces_iff.1 (hbefore o ho hname)
    omega
  · exact hreplaces
  · have hlower := not_replaces_iff.1 (hafter o ho hname)
    omega

theorem FirstHighest.append (h : FirstHighest n found r)
    (hnew : new.definition.name = n → new.replaces r = false) :
    FirstHighest n (found ++ [new]) r := by
  obtain ⟨hr, before, after, rfl, hbefore, hafter⟩ := h
  refine ⟨hr, before, after ++ [new], by simp, hbefore, fun o ho => ?_⟩
  rcases List.mem_append.1 ho with ho | ho
  · exact hafter o ho
  · obtain rfl := List.mem_singleton.1 ho
    exact hnew

section Step

variable {definitions : Std.ExtTreeMap String Release}

/-- One definition changes what is kept under its own name only. -/
theorem getElem?_addRelease_of_ne (h : new.definition.name ≠ n) :
    (addRelease definitions new)[n]? = definitions[n]? := by
  unfold addRelease
  split
  · split
    · rw [Std.ExtTreeMap.getElem?_insert, if_neg (by simpa using h)]
    · rfl
  · rw [Std.ExtTreeMap.getElem?_insert, if_neg (by simpa using h)]

theorem getElem?_addRelease_of_none (hnew : new.definition.name = n)
    (h : definitions[n]? = none) : (addRelease definitions new)[n]? = some new := by
  subst hnew
  simp [addRelease, h]

theorem getElem?_addRelease_of_some (hnew : new.definition.name = n)
    (h : definitions[n]? = some old) :
    (addRelease definitions new)[n]? = some (if new.replaces old then new else old) := by
  subst hnew
  by_cases hreplaces : new.replaces old = true
  · simp [addRelease, h, hreplaces]
  · simp [addRelease, h, hreplaces]

end Step

/-- What is kept in the end is the first definition that no other one replaces, and nothing is kept
where there is none. -/
theorem firstHighest_foldl_addRelease (found : List Release) (n : String) :
    (∀ r, (found.foldl addRelease ∅)[n]? = some r → FirstHighest n found r) ∧
      ((found.foldl addRelease ∅)[n]? = none → ∀ o ∈ found, o.definition.name ≠ n) := by
  induction found using List.reverseRecOn with
  | nil => simp
  | append_singleton found new ih =>
    obtain ⟨ihsome, ihnone⟩ := ih
    rw [List.foldl_append, List.foldl_cons, List.foldl_nil]
    by_cases hnew : new.definition.name = n
    · cases hold : (found.foldl addRelease ∅)[n]? with
      | none =>
        -- It is the first definition of the class, and has nothing to replace.
        rw [getElem?_addRelease_of_none hnew hold]
        refine ⟨fun r hr => ?_, fun hnone => by cases hnone⟩
        obtain rfl := Option.some.inj hr
        exact ⟨hnew, found, [], rfl, fun o ho hname => absurd hname (ihnone hold o ho), by simp⟩
      | some old =>
        rw [getElem?_addRelease_of_some hnew hold]
        refine ⟨fun r hr => ?_, fun hnone => by cases hnone⟩
        obtain rfl := Option.some.inj hr
        split
        next hreplaces => exact (ihsome old hold).of_replaces hnew hreplaces
        next hreplaces => exact (ihsome old hold).append fun _ => by simpa using hreplaces
    · rw [getElem?_addRelease_of_ne hnew]
      refine ⟨fun r hr => (ihsome r hr).append fun hname => absurd hname hnew, fun hnone o ho => ?_⟩
      rcases List.mem_append.1 ho with ho | ho
      · exact ihnone hnone o ho
      · exact List.mem_singleton.1 ho ▸ hnew

theorem getElem?_foldl_addRelease_eq_some_iff :
    (found.foldl addRelease ∅)[n]? = some r ↔ FirstHighest n found r := by
  obtain ⟨hsome, hnone⟩ := firstHighest_foldl_addRelease found n
  refine ⟨hsome r, fun h => ?_⟩
  cases hkept : (found.foldl addRelease ∅)[n]? with
  | some r' => rw [(hsome r' hkept).unique h]
  | none =>
    -- The candidate itself is a definition of the class.
    obtain ⟨hr, before, after, rfl, -⟩ := h
    exact absurd hr (hnone hkept r (by simp))

/-- Where no two definitions of a class are for one version, their order does not count. -/
theorem firstHighest_iff_of_distinct
    (h : found.Pairwise fun a b => a.definition.name = b.definition.name → a.version ≠ b.version) :
    FirstHighest n found r ↔ r ∈ found ∧ r.definition.name = n ∧
      ∀ o ∈ found, o.definition.name = n → o.replaces r = false := by
  constructor
  · rintro ⟨hr, before, after, rfl, hbefore, hafter⟩
    refine ⟨by simp, hr, fun o ho hname => ?_⟩
    rw [List.mem_append, List.mem_cons] at ho
    rcases ho with ho | rfl | ho
    · -- What was replaced does not replace in return, as the versions differ.
      have hlower := replaces_iff.1 (hbefore o ho hname)
      rw [not_replaces_iff]
      omega
    · rw [not_replaces_iff]
      omega
    · exact hafter o ho hname
  · rintro ⟨hmem, hr, hall⟩
    obtain ⟨before, after, rfl⟩ := List.append_of_mem hmem
    refine ⟨hr, before, after, rfl, fun o ho hname => ?_, fun o ho => hall o (by simp [ho])⟩
    have hdistinct : o.version ≠ r.version :=
      (List.pairwise_append.1 h).2.2 o ho r List.mem_cons_self (hname.trans hr.symm)
    have hnot := not_replaces_iff.1 (hall o (by simp [ho]) hname)
    rw [replaces_iff]
    omega

theorem foldl_addRelease_perm {found' : List Release} (hperm : found'.Perm found)
    (h : found.Pairwise fun a b => a.definition.name = b.definition.name → a.version ≠ b.version) :
    found'.foldl addRelease ∅ = found.foldl addRelease ∅ := by
  have h' : found'.Pairwise fun a b =>
      a.definition.name = b.definition.name → a.version ≠ b.version :=
    (hperm.pairwise_iff fun hab hname => (hab hname.symm).symm).2 h
  refine Std.ExtTreeMap.ext_getElem? fun n => Option.ext fun r => ?_
  rw [getElem?_foldl_addRelease_eq_some_iff, getElem?_foldl_addRelease_eq_some_iff,
    firstHighest_iff_of_distinct h, firstHighest_iff_of_distinct h']
  simp only [hperm.mem_iff]

/-! ### Names and manifests -/

section Names

variable {text name line manifest : List Char} {k : Nat} {v : Option Nat}

theorem foldl_digits (digits : List Char) :
    digits.foldl (fun k c => k * 10 + (c.toNat - '0'.toNat)) 0 =
      Nat.ofDigits 10 (digits.reverse.map fun c => c.toNat - '0'.toNat) := by
  induction digits using List.reverseRecOn with
  | nil => rfl
  | append_singleton digits c ih =>
    rw [List.foldl_append, List.foldl_cons, List.foldl_nil, ih, List.reverse_append,
      List.reverse_singleton, List.singleton_append, List.map_cons, Nat.ofDigits_cons,
      Nat.mul_comm, Nat.add_comm]

theorem decimal?_eq_some_iff {digits : List Char} :
    decimal? digits = some k ↔ Denotes digits k := by
  have hdigits : (digits.isEmpty || !digits.all Char.isDigit) = true ↔
      ¬ (digits ≠ [] ∧ ∀ c ∈ digits, c.isDigit = true) := by
    simp only [Bool.or_eq_true, List.isEmpty_iff, Bool.not_eq_true', List.all_eq_false]
    grind
  unfold decimal?
  dsimp only
  rw [foldl_digits, if_congr hdigits rfl rfl]
  constructor
  · intro h
    split at h
    next => cases h
    next hall =>
      split at h
      next hlt =>
        obtain rfl := Option.some.inj h
        obtain ⟨hne, hdigit⟩ := not_not.1 hall
        exact ⟨hne, hdigit, rfl, hlt⟩
      next => cases h
  · rintro ⟨hne, hdigit, rfl, hlt⟩
    rw [if_neg (not_not.2 ⟨hne, hdigit⟩), if_pos hlt]

theorem versionNumber?_eq_some_iff : versionNumber? text = some k ↔ Numeral text k := by
  unfold versionNumber?
  split
  next rest =>
    refine decimal?_eq_some_iff.trans ⟨fun h => ⟨rest, h, .inr rfl⟩, ?_⟩
    rintro ⟨digits, h, rfl | heq⟩
    -- A plus sign is no digit, so the sign is read in one way only.
    · exact absurd (h.isDigit '+' List.mem_cons_self) (by decide)
    · rwa [(List.cons.inj heq).2]
  next hplus =>
    refine decimal?_eq_some_iff.trans ⟨fun h => ⟨text, h, .inl rfl⟩, ?_⟩
    rintro ⟨digits, h, rfl | rfl⟩
    · exact h
    · exact absurd rfl (hplus digits)

theorem isClassName_iff : isClassName name = true ↔ ".class".toList <:+ name :=
  isSome_dropTail?_iff

/-- Which entries are read, and for which version. -/
theorem versionOf?_eq_some_iff {multiRelease : Bool} :
    versionOf? multiRelease name = some k ↔
      ∃ v, Eligible (multiRelease = true) name v ∧ k = v.getD 0 := by
  constructor
  · intro h
    unfold versionOf? at h
    split at h
    next => cases h
    next hclass =>
      have hclass' : ".class".toList <:+ name := isClassName_iff.1 (by simpa using hclass)
      split at h
      next rest hrest =>
        split at h
        next hmulti =>
          obtain ⟨⟨directory, path⟩, hcut, hnumber⟩ := Option.bind_eq_some_iff.1 h
          obtain ⟨rfl, hslash⟩ := cutFirst_eq_some_iff.1 hcut
          exact ⟨some k, .version hmulti hclass' (dropHead?_eq_some_iff.1 hrest) hslash
            (versionNumber?_eq_some_iff.1 hnumber), rfl⟩
        next => cases h
      -- Outside of the directories of versions, nothing below `META-INF` is read.
      next =>
        split at h
        next => cases h
        next hbase =>
          obtain rfl := Option.some.inj h
          exact ⟨none, .base hclass' fun hmeta => hbase (isSome_dropHead?_iff.2 hmeta), rfl⟩
  · rintro ⟨v, hv, rfl⟩
    unfold versionOf?
    cases hv with
    | base hclass hbase =>
      -- What is not below `META-INF` is not in a directory of versions either.
      have hversions : dropHead? "META-INF/versions/".toList name = none := by
        rw [← Option.not_isSome_iff_eq_none, isSome_dropHead?_iff]
        exact fun h => hbase (List.IsPrefix.trans (by decide) h)
      rw [isClassName_iff.2 hclass, hversions, if_neg (by decide)]
      exact if_neg fun hmeta => hbase (isSome_dropHead?_iff.1 hmeta)
    | version hmulti hclass hname hslash hn =>
      rw [isClassName_iff.2 hclass, dropHead?_eq_some_iff.2 hname, if_neg (by decide)]
      refine (if_pos hmulti).trans ?_
      rw [cutFirst_append_sep hslash]
      exact versionNumber?_eq_some_iff.2 hn

/-- A name that is read for a version is below the directory of the version. -/
theorem Eligible.versionOf?_eq {versions : Prop} (h : Eligible versions name (some k)) :
    "META-INF/versions/".toList <+: name ∧ versionOf? true name = some k := by
  cases h with
  | version _ hclass hname hslash hn =>
    exact ⟨⟨_, hname.symm⟩,
      versionOf?_eq_some_iff.2 ⟨some k, .version rfl hclass hname hslash hn, rfl⟩⟩

theorem versionsValue?_eq_some_iff {value : List Char} :
    versionsValue? line = some value ↔ Says line value := by
  unfold versionsValue? Says
  constructor
  · intro h
    split at h
    next name rest hcut =>
      split at h
      next hsame =>
        obtain ⟨hline, hcolon⟩ := cutFirst_eq_some_iff.1 hcut
        exact ⟨name, rest, hline, hcolon, hsame, (Option.some.inj h).symm⟩
      next => cases h
    next => cases h
  · rintro ⟨name, rest, rfl, hcolon, hsame, rfl⟩
    rw [cutFirst_append_sep hcolon]
    exact if_pos hsame

theorem manifestAllowsVersions_iff :
    manifestAllowsVersions manifest = true ↔ ManifestAllows manifest := by
  unfold manifestAllowsVersions ManifestAllows
  constructor
  · intro h
    split at h
    next value rest hvalues =>
      obtain ⟨before, line, after, hlines, hbefore, hline, -⟩ :=
        List.filterMap_eq_cons_iff.1 hvalues
      -- Lines in front of the first one that names the attribute have no value.
      refine ⟨before, line, after, value, hlines, fun l hl v hsays => ?_,
        versionsValue?_eq_some_iff.1 hline, h⟩
      rw [← versionsValue?_eq_some_iff, hbefore l hl] at hsays
      cases hsays
    next => cases h
  · rintro ⟨before, line, after, value, hlines, hbefore, hline, htrue⟩
    have hvalues : (pieces '\n' manifest).filterMap versionsValue? =
        value :: after.filterMap versionsValue? := by
      refine List.filterMap_eq_cons_iff.2 ⟨before, line, after, hlines, fun l hl => ?_,
        versionsValue?_eq_some_iff.2 hline, rfl⟩
      exact Option.eq_none_iff_forall_ne_some.2 fun v hv =>
        hbefore l hl v (versionsValue?_eq_some_iff.1 hv)
    rw [hvalues]
    exact htrue

end Names

/-! ### The definitions in a jar -/

section Jar

variable {files files' : List (String × Bytes)} {f g : String × Bytes} {multiRelease : Bool}
  {c c' : ClassFile}

theorem filter_ofFiles (files : List (String × Bytes)) :
    (ofFiles files).filter (·.name == manifestName) =
      ofFiles (files.filter (·.1 == manifestName)) := by
  rw [ofFiles, List.filter_map]
  rfl

theorem getLast?_filter_ofFiles {e : ArchiveEntry} :
    ((ofFiles files).filter (·.name == manifestName)).getLast? = some e ↔
      ∃ before data after, files = before ++ (manifestName, data) :: after ∧
        (∀ f ∈ after, f.1 ≠ manifestName) ∧ e = ⟨manifestName, .bytes data⟩ := by
  rw [filter_ofFiles, ofFiles, List.getLast?_map, List.getLast?_filter, Option.map_eq_some_iff]
  constructor
  · rintro ⟨⟨name, data⟩, hfind, rfl⟩
    -- The last manifest counts, which is the first one from the end.
    obtain ⟨hname, after, before, hfiles, hafter⟩ := List.find?_eq_some_iff_append.1 hfind
    obtain rfl : name = manifestName := by simpa using hname
    refine ⟨before.reverse, data, after.reverse, ?_, by simpa using hafter, rfl⟩
    simpa using congrArg List.reverse hfiles
  · rintro ⟨before, data, after, rfl, hafter, rfl⟩
    refine ⟨(manifestName, data), List.find?_eq_some_iff_append.2 ⟨by simp, ?_⟩, rfl⟩
    exact ⟨after.reverse, before.reverse, by simp, by simpa using hafter⟩

theorem isMultiRelease_ofFiles : isMultiRelease (ofFiles files) = true ↔ AllowsVersions files := by
  unfold isMultiRelease AllowsVersions
  constructor
  · intro h
    split at h
    next => cases h
    next data hlast =>
      split at h
      next manifest hmanifest =>
        obtain ⟨before, data', after, hfiles, hafter, heq⟩ := getLast?_filter_ofFiles.1 hlast
        cases heq
        exact ⟨before, data, after, manifest, hfiles, hafter, hmanifest,
          manifestAllowsVersions_iff.1 h⟩
      next => cases h
    next => cases h
  · rintro ⟨before, data, after, manifest, hfiles, hafter, hmanifest, hallows⟩
    rw [getLast?_filter_ofFiles.2 ⟨before, data, after, hfiles, hafter, rfl⟩]
    dsimp only
    rw [hmanifest]
    exact manifestAllowsVersions_iff.2 hallows

theorem isDescriptive_eq_false_iff : isDescriptive n = false ↔
    n ≠ "module-info" ∧ n ≠ "package-info" ∧ ¬ "/package-info".toList <:+ n.toList := by
  simp only [isDescriptive, Bool.or_eq_false_iff, beq_eq_false_iff_ne, and_assoc,
    ← isSome_dropTail?_iff, Bool.not_eq_true]

theorem class?_eq_some_iff {data : Bytes} :
    class? data = some c ↔ ClassFile.ofBytes data = .ok c ∧ isDescriptive c.name = false := by
  unfold class?
  split
  next c' hc' =>
    rw [hc', Except.ok.injEq]
    split
    next hdescriptive =>
      constructor
      · intro h
        cases h
      · rintro ⟨rfl, hkeeps⟩
        exact absurd (hdescriptive.symm.trans hkeeps) (by decide)
    next hkeeps =>
      rw [Option.some.injEq]
      refine ⟨fun h => ⟨h, ?_⟩, And.left⟩
      rw [← h]
      simpa using hkeeps
  next e he =>
    rw [he]
    constructor
    · intro h
      cases h
    · rintro ⟨h, -⟩
      cases h

theorem pick_ofFiles {β : Type} (select? : List Char → Option β) (files : List (String × Bytes)) :
    pick select? (ofFiles files) = .ok (files.filterMap fun f =>
      (select? f.1.toList).bind fun b => (class? f.2).map (b, ·)) := by
  induction files with
  | nil => rfl
  | cons f files ih =>
    rw [ofFiles, List.map_cons, ← ofFiles, pick, ih]
    cases hselect : select? f.1.toList with
    | none => simp [hselect]
    | some b =>
      cases hclass : class? f.2 with
      | none => simp [hselect, hclass]
      | some c => simp [hselect, hclass, Except.map]

/-- The definition in an entry, if there is one. -/
def release? (multiRelease : Bool) (f : String × Bytes) : Option Release :=
  (versionOf? multiRelease f.1.toList).bind fun v => (class? f.2).map (Release.mk v)

theorem releases_ofFiles (files : List (String × Bytes)) :
    releases (ofFiles files) =
      .ok (files.filterMap (release? (isMultiRelease (ofFiles files)))) := by
  rw [releases, pick_ofFiles, Except.map, List.map_filterMap]
  simp only [Option.map_bind, Option.map_map, Function.comp_def]
  rfl

theorem release?_eq_some_iff : release? multiRelease f = some r ↔
    ∃ v, Defines (multiRelease = true) f v r.definition ∧ r.version = v.getD 0 := by
  simp only [release?, Option.bind_eq_some_iff, Option.map_eq_some_iff, versionOf?_eq_some_iff,
    class?_eq_some_iff, isDescriptive_eq_false_iff]
  constructor
  · rintro ⟨k, ⟨v, hv, rfl⟩, c, ⟨hreads, hmodule, hpackage, hbelow⟩, rfl⟩
    exact ⟨v, ⟨hv, hreads, hmodule, hpackage, hbelow⟩, rfl⟩
  · rintro ⟨v, hdefines, hversion⟩
    exact ⟨r.version, ⟨v, hdefines.eligible, hversion⟩, r.definition,
      ⟨hdefines.reads, hdefines.notModule, hdefines.notPackage, hdefines.notBelow⟩, rfl⟩

theorem release?_of_defines {v : Option Nat} (h : Defines (multiRelease = true) f v c) :
    release? multiRelease f = some ⟨v.getD 0, c⟩ :=
  release?_eq_some_iff.2 ⟨v, h, rfl⟩

/-- The first definition that no other one replaces, seen from the entries. -/
theorem firstHighest_filterMap_iff {read? : String × Bytes → Option Release} :
    FirstHighest n (files.filterMap read?) r ↔ r.definition.name = n ∧
      ∃ before f after, files = before ++ f :: after ∧ read? f = some r ∧
        (∀ g ∈ before, ∀ o, read? g = some o → o.definition.name = n → r.replaces o = true) ∧
        ∀ g ∈ after, ∀ o, read? g = some o → o.definition.name = n → o.replaces r = false := by
  refine and_congr_right fun _ => ⟨?_, ?_⟩
  · rintro ⟨before, after, hfound, hbefore, hafter⟩
    obtain ⟨earlier, later, rfl, rfl, hlater⟩ := List.filterMap_eq_append_iff.1 hfound
    obtain ⟨skipped, f, rest, rfl, hskipped, hf, rfl⟩ := List.filterMap_eq_cons_iff.1 hlater
    refine ⟨earlier ++ skipped, f, rest, by simp, hf, fun g hg o ho => ?_, fun g hg o ho => ?_⟩
    · -- Entries that define nothing may stand between the last definition and this one.
      rcases List.mem_append.1 hg with hg | hg
      · exact hbefore o (List.mem_filterMap.2 ⟨g, hg, ho⟩)
      · cases (hskipped g hg).symm.trans ho
    · exact hafter o (List.mem_filterMap.2 ⟨g, hg, ho⟩)
  · rintro ⟨before, f, after, rfl, hf, hbefore, hafter⟩
    refine ⟨before.filterMap read?, after.filterMap read?, by simp [hf], fun o ho => ?_,
      fun o ho => ?_⟩
    · obtain ⟨g, hg, ho⟩ := List.mem_filterMap.1 ho
      exact hbefore g hg o ho
    · obtain ⟨g, hg, ho⟩ := List.mem_filterMap.1 ho
      exact hafter g hg o ho

/-- A definition for a version, where there is none for all. -/
theorem defines_of_release?
    (hversions : ∀ f ∈ files, ¬ Eligible (multiRelease = true) f.1.toList (some 0))
    (hbase : ∀ g ∈ files, ∀ c', Defines (multiRelease = true) g none c' → c'.name ≠ n)
    (hg : g ∈ files) (hr : release? multiRelease g = some r) (hname : r.definition.name = n) :
    Defines (multiRelease = true) g (some r.version) r.definition ∧ r.version ≠ 0 := by
  obtain ⟨v, hv, hversion⟩ := release?_eq_some_iff.1 hr
  cases v with
  | none => exact absurd hname (hbase g hg r.definition hv)
  | some k =>
    obtain rfl : r.version = k := hversion
    exact ⟨hv, fun hzero => hversions g hg (hzero ▸ hv.eligible)⟩

theorem IsKept.exists_firstHighest
    (hversions : ∀ f ∈ files, ¬ Eligible (multiRelease = true) f.1.toList (some 0))
    (h : IsKept (multiRelease = true) files c) :
    ∃ r, FirstHighest c.name (files.filterMap (release? multiRelease)) r ∧ r.definition = c := by
  simp only [firstHighest_filterMap_iff]
  cases h with
  | @base before after f hfiles hc hfirst =>
    refine ⟨⟨0, c⟩, ⟨rfl, before, f, after, hfiles, release?_of_defines hc,
      fun g hg o ho hname => ?_, fun g hg o ho hname => not_replaces_iff.2 (.inl rfl)⟩, rfl⟩
    -- All earlier definitions are for versions, and give way to one for all.
    obtain ⟨-, hzero⟩ := defines_of_release?
      (fun f hf => hversions f (hfiles ▸ List.mem_append_left _ hf)) hfirst hg ho hname
    exact replaces_iff.2 ⟨hzero, .inl rfl⟩
  | @version before after f k hfiles hc hbase hhighest hfirst =>
    refine ⟨⟨k, c⟩, ⟨rfl, before, f, after, hfiles, release?_of_defines hc,
      fun g hg o ho hname => ?_, fun g hg o ho hname => ?_⟩, rfl⟩
    · obtain ⟨hv, hzero⟩ :=
        defines_of_release? hversions hbase (by simp [hfiles, hg]) ho hname
      exact replaces_iff.2 ⟨hzero, .inr (hfirst g hg _ _ hv hname)⟩
    · have hmem : g ∈ files := by simp [hfiles, hg]
      obtain ⟨hv, hzero⟩ := defines_of_release? hversions hbase hmem ho hname
      exact not_replaces_iff.2 (.inr ⟨hzero, hhighest g hmem _ _ hv hname⟩)

theorem FirstHighest.isKept
    (hversions : ∀ f ∈ files, ¬ Eligible (multiRelease = true) f.1.toList (some 0))
    (h : FirstHighest n (files.filterMap (release? multiRelease)) r) :
    IsKept (multiRelease = true) files r.definition := by
  obtain ⟨hr, before, f, after, hfiles, hf, hbefore, hafter⟩ := firstHighest_filterMap_iff.1 h
  obtain ⟨v, hv, hversion⟩ := release?_eq_some_iff.1 hf
  cases v with
  | none =>
    refine .base hfiles hv fun g hg c' hc' hname => ?_
    exact (replaces_iff.1 (hbefore g hg _ (release?_of_defines hc') (hname.trans hr))).1 rfl
  | some k =>
    obtain rfl : r.version = k := hversion
    have hne : r.version ≠ 0 := fun hzero => hversions f (by simp [hfiles]) (hzero ▸ hv.eligible)
    -- No definition is for version 0, before or after: it would have stayed or taken the place.
    have hother (g : String × Bytes) (hg : g ∈ files) (v : Option Nat) (c' : ClassFile)
        (hc' : Defines (multiRelease = true) g v c') (hname : c'.name = r.definition.name) :
        v.getD 0 ≠ 0 ∧ v.getD 0 ≤ r.version := by
      have hread := release?_of_defines hc'
      rw [hfiles, List.mem_append, List.mem_cons] at hg
      rcases hg with hg | rfl | hg
      · have hlower := replaces_iff.1 (hbefore g hg _ hread (hname.trans hr))
        dsimp only at hlower
        omega
      · have hsame : v.getD 0 = r.version :=
          congrArg Release.version (Option.some.inj (hread.symm.trans hf))
        omega
      · have hlower := not_replaces_iff.1 (hafter g hg _ hread (hname.trans hr))
        dsimp only at hlower
        omega
    refine .version hfiles hv (fun g hg c' hc' hname => (hother g hg none c' hc' hname).1 rfl)
      (fun g hg m c' hc' hname => (hother g hg (some m) c' hc' hname).2)
      fun g hg m c' hc' hname => ?_
    have hlower := replaces_iff.1 (hbefore g hg _ (release?_of_defines hc') (hname.trans hr))
    exact hlower.2.resolve_left hne

/-! ### The classes of a jar -/

/-- What is kept for every name. -/
def kept (files : List (String × Bytes)) : Std.ExtTreeMap String Release :=
  (files.filterMap (release? (isMultiRelease (ofFiles files)))).foldl addRelease ∅

theorem jarClasses_ofFiles (files : List (String × Bytes)) :
    jarClasses (ofFiles files) = .ok ((kept files).toList.map (·.2.definition)) := by
  rw [jarClasses, releases_ofFiles]
  rfl

theorem name_of_mem_toList_kept {p : String × Release} (h : p ∈ (kept files).toList) :
    p.2.definition.name = p.1 :=
  (getElem?_foldl_addRelease_eq_some_iff.1 (Std.ExtTreeMap.mem_toList_iff_getElem?_eq_some.1 h)).1

theorem pairwise_kept (files : List (String × Bytes)) :
    ((kept files).toList.map (·.2.definition)).Pairwise (·.name < ·.name) := by
  rw [List.pairwise_map]
  refine Std.ExtTreeMap.ordered_keys_toList.imp_of_mem fun {p q} hp hq hlt => ?_
  rw [name_of_mem_toList_kept hp, name_of_mem_toList_kept hq]
  exact compareOfLessAndEq_eq_lt.1 hlt

theorem mem_kept_iff : c ∈ (kept files).toList.map (·.2.definition) ↔
    ∃ r, FirstHighest c.name (files.filterMap (release? (isMultiRelease (ofFiles files)))) r ∧
      r.definition = c := by
  rw [List.mem_map]
  constructor
  · rintro ⟨p, hp, rfl⟩
    refine ⟨p.2, ?_, rfl⟩
    rw [name_of_mem_toList_kept hp]
    exact getElem?_foldl_addRelease_eq_some_iff.1
      (Std.ExtTreeMap.mem_toList_iff_getElem?_eq_some.1 hp)
  · rintro ⟨r, hr, rfl⟩
    exact ⟨(r.definition.name, r), Std.ExtTreeMap.mem_toList_iff_getElem?_eq_some.2
      (getElem?_foldl_addRelease_eq_some_iff.2 hr), rfl⟩

/-- There is a class for each name that an entry defines. -/
theorem exists_mem_kept_iff : (∃ c ∈ (kept files).toList.map (·.2.definition), c.name = n) ↔
    ∃ f ∈ files, ∃ v c, Defines (isMultiRelease (ofFiles files) = true) f v c ∧ c.name = n := by
  constructor
  · rintro ⟨c, hc, rfl⟩
    obtain ⟨r, hr, rfl⟩ := mem_kept_iff.1 hc
    obtain ⟨-, before, f, after, hfiles, hf, -⟩ := firstHighest_filterMap_iff.1 hr
    obtain ⟨v, hv, -⟩ := release?_eq_some_iff.1 hf
    exact ⟨f, by simp [hfiles], v, r.definition, hv, rfl⟩
  · rintro ⟨f, hf, v, c, hc, rfl⟩
    have hread := List.mem_filterMap.2 ⟨f, hf, release?_of_defines hc⟩
    obtain ⟨hsome, hnone⟩ := firstHighest_foldl_addRelease
      (files.filterMap (release? (isMultiRelease (ofFiles files)))) c.name
    -- Something is kept for the name, though it need not be this definition.
    cases hkept : (kept files)[c.name]? with
    | none => exact absurd rfl (hnone hkept _ hread)
    | some r =>
      have hr := hsome r hkept
      exact ⟨r.definition, mem_kept_iff.2 ⟨r, hr.1 ▸ hr, rfl⟩, hr.1⟩

/-- Without a version 0, the number tells a definition for a version from one for all. -/
theorem eq_of_getD_eq {v w : Option Nat} (hv : v ≠ some 0) (hw : w ≠ some 0)
    (h : v.getD 0 = w.getD 0) : v = w := by
  cases v with
  | none =>
    cases w with
    | none => rfl
    | some k => exact absurd (congrArg some h.symm) hw
  | some k =>
    cases w with
    | none => exact absurd (congrArg some h) hv
    | some m => exact congrArg some h

/-- The order of the entries does not count where no two of them define one class for one
version. -/
theorem kept_perm (hperm : files'.Perm files)
    (hmanifest : files'.filter (·.1 == manifestName) = files.filter (·.1 == manifestName))
    (hdistinct : files.Pairwise fun f g => ∀ v c c',
      Defines (isMultiRelease (ofFiles files) = true) f v c →
        Defines (isMultiRelease (ofFiles files) = true) g v c' → c.name ≠ c'.name)
    (hversions : ∀ f ∈ files,
      ¬ Eligible (isMultiRelease (ofFiles files) = true) f.1.toList (some 0)) :
    kept files' = kept files := by
  have hmulti : isMultiRelease (ofFiles files') = isMultiRelease (ofFiles files) := by
    rw [isMultiRelease, filter_ofFiles, hmanifest, ← filter_ofFiles, ← isMultiRelease]
  rw [kept, kept, hmulti]
  refine foldl_addRelease_perm (hperm.filterMap _) (List.pairwise_filterMap.2 ?_)
  refine hdistinct.imp_of_mem fun {f g} hf hg hdiffer a ha b hb hname hversion => ?_
  obtain ⟨v, hv, hav⟩ := release?_eq_some_iff.1 ha
  obtain ⟨w, hw, hbw⟩ := release?_eq_some_iff.1 hb
  have hvw : v.getD 0 = w.getD 0 := hav.symm.trans (hversion.trans hbw)
  obtain rfl : v = w := eq_of_getD_eq (fun h => hversions f hf (h ▸ hv.eligible))
    (fun h => hversions g hg (h ▸ hw.eligible)) hvw
  exact hdiffer v _ _ hv hw hname

end Jar

end JvmThrows.Archive

namespace JvmThrows.ClasspathEntry

open Archive

theorem classes_of_ofFiles {tree : FileTree} {path : Path} {files : List (String × Bytes)}
    (h : archiveEntries tree path = .ok (ofFiles files)) :
    classes tree ⟨.jar, path⟩ = .ok ((kept files).toList.map (·.2.definition)) := by
  -- The classes are sorted by name already, so that sorting leaves them as they are.
  have hsorted := (pairwise_kept files).imp fun {a b : ClassFile} hlt => Std.le_of_lt hlt
  rw [classes, unsortedClasses, h]
  change (jarClasses (ofFiles files)).map _ = _
  rw [jarClasses_ofFiles, Except.map, List.mergeSort_of_pairwise (by simpa using hsorted)]

/-- A jar whose directories of versions are numbered from 1 is read as a list of classes in the
order of their names, one for each name that an entry defines, and each is the definition that is
to be kept. The order of the entries does not count where no two of them define one class for one
version. -/
theorem classes_multiRelease {tree : FileTree} {path : Path} {files : List (String × Bytes)}
    (hopen : archiveEntries tree path = .ok (ofFiles files))
    (hversions : ∀ f ∈ files, ¬ Eligible (AllowsVersions files) f.1.toList (some 0)) :
    ∃ cs, classes tree ⟨.jar, path⟩ = .ok cs ∧ cs.Pairwise (·.name < ·.name) ∧
      (∀ n, (∃ c ∈ cs, c.name = n) ↔
        ∃ f ∈ files, ∃ v c, Defines (AllowsVersions files) f v c ∧ c.name = n) ∧
      (∀ c, c ∈ cs ↔ IsKept (AllowsVersions files) files c) ∧
      ∀ (tree' : FileTree) (path' : Path) (files' : List (String × Bytes)),
        archiveEntries tree' path' = .ok (ofFiles files') → files'.Perm files →
        files'.filter (·.1 == manifestName) = files.filter (·.1 == manifestName) →
        (files.Pairwise fun f g => ∀ v c c', Defines (AllowsVersions files) f v c →
          Defines (AllowsVersions files) g v c' → c.name ≠ c'.name) →
        classes tree' ⟨.jar, path'⟩ = .ok cs := by
  rw [← propext isMultiRelease_ofFiles] at hversions ⊢
  refine ⟨_, classes_of_ofFiles hopen, pairwise_kept files, fun n => exists_mem_kept_iff,
    fun c => ⟨fun hc => ?_, fun hc => mem_kept_iff.2 (hc.exists_firstHighest hversions)⟩,
    fun tree' path' files' hopen' hperm hmanifest hdistinct => ?_⟩
  · obtain ⟨r, hr, rfl⟩ := mem_kept_iff.1 hc
    exact hr.isKept hversions
  · rw [classes_of_ofFiles hopen', kept_perm hperm hmanifest hdistinct hversions]

/-! ### A jar with versions -/

/-- A class with one method. -/
def marked (name method : String) : Bytes :=
  Assembly.ClassSpec.encode { name, methods := [.concrete method "()V"] }

/-- The definition for all versions comes after one for a version, and of the others the highest
comes first. Three further entries of classes define nothing. -/
def versionedFiles : List (String × Bytes) :=
  [("META-INF/versions/11/mr/Base.class", marked "mr/Base" "v11"),
    ("META-INF/mr/Base.class", marked "mr/Base" "hidden"),
    ("mr/package-info.class", marked "mr/package-info" "note"),
    ("mr/Broken.class", [0xca, 0xfe]),
    ("META-INF/versions/17/mr/Only.class", marked "mr/Only" "v17"),
    ("META-INF/versions/9/mr/Only.class", marked "mr/Only" "v9"),
    ("mr/Base.class", marked "mr/Base" "base"),
    (manifestName, "Manifest-Version: 1.0\nMulti-Release: true\n".toUTF8.toList)]

/-- The jar, and one with the same entries the other way round. -/
def versionedTree : FileTree :=
  let nodes : Std.ExtTreeMap Location Node := ∅
  ⟨(nodes.insert ["a.jar"] (.file (.ofEntries (ofFiles versionedFiles)))).insert ["b.jar"]
    (.file (.ofEntries (ofFiles versionedFiles.reverse))), []⟩

theorem not_eligible_zero_versionedFiles : ∀ f ∈ versionedFiles,
    ¬ Eligible (AllowsVersions versionedFiles) f.1.toList (some 0) := by
  have hnames : ∀ f ∈ versionedFiles, ¬ ("META-INF/versions/".toList <+: f.1.toList ∧
      versionOf? true f.1.toList = some 0) := by
    decide +kernel
  exact fun f hf h => hnames f hf h.versionOf?_eq

/-- No two entries define one class for one version. -/
theorem pairwise_versionedFiles : versionedFiles.Pairwise fun f g => ∀ v c c',
    Defines (AllowsVersions versionedFiles) f v c →
      Defines (AllowsVersions versionedFiles) g v c' → c.name ≠ c'.name := by
  have hmulti : isMultiRelease (ofFiles versionedFiles) = true := by decide +kernel
  have hread : versionedFiles.map (fun f =>
      (release? true f).map fun r => (r.version, r.definition.name)) =
        [some (11, "mr/Base"), none, none, none, some (17, "mr/Only"), some (9, "mr/Only"),
          some (0, "mr/Base"), none] := by
    decide +kernel
  have hdiffer : (versionedFiles.map fun f =>
      (release? true f).map fun r => (r.version, r.definition.name)).Pairwise fun a b =>
        a.isSome = true → a ≠ b := by
    rw [hread]
    decide
  rw [← propext isMultiRelease_ofFiles, hmulti]
  refine (List.pairwise_map.1 hdiffer).imp fun {f g} hfg v c c' hc hc' hname => hfg ?_ ?_
  · rw [release?_of_defines hc]
    rfl
  · rw [release?_of_defines hc, release?_of_defines hc']
    exact congrArg (fun n => some (v.getD 0, n)) hname

/-- Both jars are read as the definition for all versions of one class and as the highest one of
the other. -/
theorem classes_multiRelease_reversed :
    archiveEntries versionedTree (FileTree.pathOf ["a.jar"]) = .ok (ofFiles versionedFiles) ∧
    archiveEntries versionedTree (FileTree.pathOf ["b.jar"]) =
      .ok (ofFiles versionedFiles.reverse) ∧
    ∃ base only, base.name = "mr/Base" ∧ base.methods.map (·.name) = ["base"] ∧
      only.name = "mr/Only" ∧ only.methods.map (·.name) = ["v17"] ∧
      classes versionedTree ⟨.jar, FileTree.pathOf ["a.jar"]⟩ = .ok [base, only] ∧
      classes versionedTree ⟨.jar, FileTree.pathOf ["b.jar"]⟩ = .ok [base, only] ∧
      IsKept (AllowsVersions versionedFiles) versionedFiles base ∧
      IsKept (AllowsVersions versionedFiles) versionedFiles only := by
  have ha : versionedTree.nodes[["a.jar"]]? =
      some (.file (.ofEntries (ofFiles versionedFiles))) := by
    rw [versionedTree, Std.ExtTreeMap.getElem?_insert, if_neg (by decide)]
    simp
  have hb : versionedTree.nodes[["b.jar"]]? =
      some (.file (.ofEntries (ofFiles versionedFiles.reverse))) := by
    simp [versionedTree]
  have hopen := archiveEntries_pathOf_singleton (by decide +kernel) (by decide +kernel)
    (by decide +kernel) ha
  have hopen' := archiveEntries_pathOf_singleton (by decide +kernel) (by decide +kernel)
    (by decide +kernel) hb
  obtain ⟨cs, hcs, -, -, hkept, hreordered⟩ :=
    classes_multiRelease hopen not_eligible_zero_versionedFiles
  have hreversed := hreordered _ _ _ hopen' (List.reverse_perm _) (by decide +kernel)
    pairwise_versionedFiles
  -- The two classes, by evaluation.
  have hshown : (jarClasses (ofFiles versionedFiles)).toOption.map (fun cs =>
      cs.map fun c => (c.name, c.methods.map (·.name))) =
        some [("mr/Base", ["base"]), ("mr/Only", ["v17"])] := by
    decide +kernel
  rw [jarClasses_ofFiles, ← classes_of_ofFiles hopen, hcs] at hshown
  obtain ⟨base, rest, rfl, hbase, hrest⟩ := List.map_eq_cons_iff.1 (Option.some.inj hshown)
  obtain ⟨only, rest, rfl, honly, hrest⟩ := List.map_eq_cons_iff.1 hrest
  obtain rfl := List.map_eq_nil_iff.1 hrest
  obtain ⟨hbase, hbaseMethods⟩ := Prod.ext_iff.1 hbase
  obtain ⟨honly, honlyMethods⟩ := Prod.ext_iff.1 honly
  exact ⟨hopen, hopen', base, only, hbase, hbaseMethods, honly, honlyMethods, hcs, hreversed,
    (hkept base).1 (by simp), (hkept only).1 (by simp)⟩

end JvmThrows.ClasspathEntry
