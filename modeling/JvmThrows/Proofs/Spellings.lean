import JvmThrows.Proofs.Keys

/-!
# Spellings of a nested class

A class nested in a top-level class is known by three spellings: class files write `a/b/Top$X$Y`,
results are for `a.b.Top$X$Y`, and source texts say `a.b.Top.X.Y`. Only the first capital tells
where the package of a source text ends. All three have the key `a.b.Top` (`Cache.key_nestedClass`).
-/

namespace JvmThrows

open Text

/-- A class by the segments of its package, its top-level class and the classes nested in it. -/
structure NestedClass where
  package : List (List Char)
  top : List Char
  nested : List (List Char)
  segments : ∀ s ∈ package ++ top :: nested, '.' ∉ s ∧ '/' ∉ s ∧ '$' ∉ s
  package_lower : ∀ s ∈ package, ClassName.startsUpper s = false
  top_upper : ClassName.startsUpper top = true

namespace NestedClass

/-- The name without its package. -/
def simpleName (c : NestedClass) : List Char := ['$'].intercalate (c.top :: c.nested)

def internal (c : NestedClass) : String :=
  String.ofList (['/'].intercalate (c.package ++ [c.simpleName]))

def binary (c : NestedClass) : String :=
  String.ofList (['.'].intercalate (c.package ++ [c.simpleName]))

def qualified (c : NestedClass) : String :=
  String.ofList (['.'].intercalate (c.package ++ c.top :: c.nested))

def topLevel (c : NestedClass) : String :=
  String.ofList (['.'].intercalate (c.package ++ [c.top]))

end NestedClass

/-! ### Segments and what stands between them -/

theorem Text.replaceChar_intercalate {old new : Char} {ps : List (List Char)}
    (h : ∀ p ∈ ps, old ∉ p) :
    replaceChar old new ([old].intercalate ps) = [new].intercalate ps := by
  induction ps with
  | nil => rfl
  | cons p ps ih =>
    obtain ⟨hp, hps⟩ := List.forall_mem_cons.1 h
    cases ps with
    | nil => simpa using replaceChar_of_not_mem hp
    -- Separators are replaced one by one, and the pieces have none.
    | cons q ps =>
      have happend (a b : List Char) :
          replaceChar old new (a ++ b) = replaceChar old new a ++ replaceChar old new b :=
        List.map_append
      rw [List.intercalate_cons_cons, List.intercalate_cons_cons, happend, happend,
        replaceChar_of_not_mem hp, ih hps]
      simp [replaceChar]

namespace ClassName

theorem joinNested_true (ps : List (List Char)) : joinNested true ps = ['$'].intercalate ps := by
  induction ps with
  | nil => rfl
  | cons p ps ih =>
    cases ps with
    | nil => simp [joinNested]
    | cons q ps => simp [joinNested, ih, List.intercalate_cons_cons]

/-- Dots stay up to the top-level class, and dollars follow it. -/
theorem joinNested_append {package nested : List (List Char)} {top : List Char}
    (hpackage : ∀ p ∈ package, startsUpper p = false) (htop : startsUpper top = true) :
    joinNested false (package ++ top :: nested) =
      ['.'].intercalate (package ++ [['$'].intercalate (top :: nested)]) := by
  induction package with
  | nil =>
    cases nested with
    -- Only a top-level class: nothing is nested.
    | nil => simp [joinNested]
    | cons n nested => simp [joinNested, htop, joinNested_true, List.intercalate_cons_cons]
  | cons p package ih =>
    obtain ⟨hp, hrest⟩ := List.forall_mem_cons.1 hpackage
    obtain ⟨q, qs, hqs⟩ := List.exists_cons_of_ne_nil
      (List.append_ne_nil_of_right_ne_nil package (List.cons_ne_nil top nested))
    obtain ⟨r, rs, hrs⟩ := List.exists_cons_of_ne_nil
      (List.append_ne_nil_of_right_ne_nil package
        (List.cons_ne_nil (['$'].intercalate (top :: nested)) []))
    have hjoin := ih hrest
    rw [hqs, hrs] at hjoin
    rw [List.cons_append, List.cons_append, hqs, hrs, List.intercalate_cons_cons, ← hjoin]
    simp [joinNested, hp]

theorem upToClass_append {package nested : List (List Char)} {top : List Char}
    (hpackage : ∀ p ∈ package, startsUpper p = false) (htop : startsUpper top = true) :
    upToClass (package ++ top :: nested) = package ++ [top] := by
  induction package with
  | nil => simp [upToClass, htop]
  | cons p package ih =>
    obtain ⟨hp, hrest⟩ := List.forall_mem_cons.1 hpackage
    simp [upToClass, hp, ih hrest]

end ClassName

/-! ### From one spelling to another -/

namespace NestedClass

variable (c : NestedClass)

theorem dollar_not_mem_qualified : '$' ∉ c.qualified.toList := by
  rw [qualified, String.toList_ofList]
  exact ClassName.not_mem_intercalate (by decide) fun s hs => (c.segments s hs).2.2

theorem slash_not_mem_qualified : '/' ∉ c.qualified.toList := by
  rw [qualified, String.toList_ofList]
  exact ClassName.not_mem_intercalate (by decide) fun s hs => (c.segments s hs).2.1

theorem separators_not_mem_simpleName : '.' ∉ c.simpleName ∧ '/' ∉ c.simpleName := by
  have hsegments : ∀ n ∈ c.top :: c.nested, '.' ∉ n ∧ '/' ∉ n ∧ '$' ∉ n := fun n hn =>
    c.segments n (List.mem_append_right _ hn)
  exact ⟨ClassName.not_mem_intercalate (by decide) fun n hn => (hsegments n hn).1,
    ClassName.not_mem_intercalate (by decide) fun n hn => (hsegments n hn).2.1⟩

theorem separators_not_mem_joined : ∀ s ∈ c.package ++ [c.simpleName], '.' ∉ s ∧ '/' ∉ s := by
  intro s hs
  -- The names of packages have no separators, nor has the class with all that is nested in it.
  rcases List.mem_append.1 hs with hs | hs
  · obtain ⟨hdot, hslash, -⟩ := c.segments s (List.mem_append_left _ hs)
    exact ⟨hdot, hslash⟩
  · obtain rfl := List.mem_singleton.1 hs
    exact c.separators_not_mem_simpleName

theorem slash_not_mem_binary : '/' ∉ c.binary.toList := by
  rw [binary, String.toList_ofList]
  exact ClassName.not_mem_intercalate (by decide) fun s hs => (c.separators_not_mem_joined s hs).2

theorem pieces_qualified : pieces '.' c.qualified.toList = c.package ++ c.top :: c.nested := by
  rw [qualified, String.toList_ofList]
  exact pieces_intercalate (by simp) fun s hs => (c.segments s hs).1

theorem pieces_binary : pieces '.' c.binary.toList = c.package ++ [c.simpleName] := by
  rw [binary, String.toList_ofList]
  exact pieces_intercalate (by simp) fun s hs => (c.separators_not_mem_joined s hs).1

theorem toBinary_internal : ClassName.toBinary c.internal = c.binary := by
  rw [ClassName.toBinary, internal, String.toList_ofList,
    replaceChar_intercalate fun s hs => (c.separators_not_mem_joined s hs).2]
  rfl

theorem ofQualified_qualified : ClassName.ofQualified c.qualified = c.binary := by
  have hdollar := c.dollar_not_mem_qualified
  rw [ClassName.ofQualified, ClassName.ofQualifiedChars, if_neg (by simpa using hdollar),
    pieces_qualified, ClassName.joinNested_append c.package_lower c.top_upper]
  rfl

/-- Without nested classes the spellings with dots are the same, and otherwise there is a dollar. -/
theorem ofQualified_binary : ClassName.ofQualified c.binary = c.binary := by
  cases hnested : c.nested with
  | nil =>
    -- A class that is not nested is spelled in one way.
    have hsame : c.qualified = c.binary := by
      simp [qualified, binary, simpleName, hnested]
    rw [← hsame, ofQualified_qualified, hsame]
  | cons n nested =>
    -- The nested part keeps its `$`, which stops the conversion.
    have hsegment : c.simpleName ∈ pieces '.' c.binary.toList := by
      rw [pieces_binary]
      simp
    have hdollar : '$' ∈ c.binary.toList := by
      refine mem_of_mem_pieces hsegment ?_
      simp [simpleName, hnested, List.intercalate_cons_cons]
    rw [ClassName.ofQualified, ClassName.ofQualifiedChars, if_pos (by simpa using hdollar),
      String.ofList_toList]

theorem topLevel_qualified : ClassName.topLevel c.qualified = c.topLevel := by
  have htop := ClassName.topLevel_eq_intercalate c.slash_not_mem_qualified
    c.dollar_not_mem_qualified
  rw [pieces_qualified, ClassName.upToClass_append c.package_lower c.top_upper] at htop
  rw [← String.toList_inj, htop, topLevel, String.toList_ofList]

/-- Reading a name as qualified comes before its nested part is cut off. -/
theorem topLevel_binary : ClassName.topLevel c.binary = c.topLevel := by
  have hread : ClassName.ofQualifiedChars c.binary.toList =
      ClassName.ofQualifiedChars c.qualified.toList := by
    rw [← String.ofList_inj]
    exact c.ofQualified_binary.trans c.ofQualified_qualified.symm
  rw [ClassName.topLevel_of_slash_not_mem c.slash_not_mem_binary, hread,
    ← ClassName.topLevel_of_slash_not_mem c.slash_not_mem_qualified, topLevel_qualified]

theorem topLevel_internal : ClassName.topLevel c.internal = c.topLevel := by
  rw [← ClassName.topLevel_toBinary, toBinary_internal, topLevel_binary]

/-- The class that the others are nested in. -/
def outermost : NestedClass where
  package := c.package
  top := c.top
  nested := []
  segments s hs := c.segments s (by
    rcases List.mem_append.1 hs with hs | hs
    · exact List.mem_append_left _ hs
    · exact List.mem_append_right _ (by simp_all))
  package_lower := c.package_lower
  top_upper := c.top_upper

theorem topLevel_topLevel : ClassName.topLevel c.topLevel = c.topLevel :=
  c.outermost.topLevel_qualified

end NestedClass

/-- **One key for all spellings.** The internal, the binary and the qualified spelling of a class
have the name of its top-level class as their key, and that name is its own key. The qualified
spelling is read as the binary one, which is left as it is. -/
theorem Cache.key_nestedClass (c : NestedClass) :
    Cache.key c.internal = c.topLevel ∧ Cache.key c.binary = c.topLevel ∧
      Cache.key c.qualified = c.topLevel ∧ Cache.key c.topLevel = c.topLevel ∧
      ClassName.ofQualified c.qualified = c.binary ∧ ClassName.ofQualified c.binary = c.binary :=
  ⟨c.topLevel_internal, c.topLevel_binary, c.topLevel_qualified, c.topLevel_topLevel,
    c.ofQualified_qualified, c.ofQualified_binary⟩

/-- The four names of a class that is nested twice. -/
example :
    let c : NestedClass := ⟨["a".toList, "b".toList], "Top".toList, ["X".toList, "y".toList],
      by decide, by decide, by decide⟩
    c.internal = "a/b/Top$X$y" ∧ c.binary = "a.b.Top$X$y" ∧ c.qualified = "a.b.Top.X.y" ∧
      c.topLevel = "a.b.Top" := by
  decide +kernel

end JvmThrows
