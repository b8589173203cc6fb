import Mathlib.Data.List.ReduceOption
import Mathlib.Order.WellFoundedSet
import JvmThrows.Analysis.Dispatch
import JvmThrows.Assembly.Class
import JvmThrows.Proofs.Attempts
import JvmThrows.Proofs.Containers

/-!
# Targets are what dispatch runs

`Dispatches m n d` says that a call of `m` on an instance of `n` runs the declaration of `d`: the
nearest class on the chain of superclasses of `n` that declares the method for its instances. The
resolver never computes this. It takes the subtypes of the owner that declare the method, and for
the others looks upwards, but only as long as it stays outside the owner's subtree. The main
statement, `targets_eq_dispatch`, says that nothing is lost: where the look upwards ends at a class
of the subtree, that class, or the owner's own declaration, accounts for the implementation
(`Dispatches.found`).

A look upwards ends if some class answers or has no known superclass (`climb_eq_none_iff`). So it
ends if no class is a superclass of itself, and only then can targets be counted on
(`Acyclic.exists_targets`). What it finds when it ends does not depend on that.
-/

namespace JvmThrows

namespace ClasspathIndex

section Defs

variable (index : ClasspathIndex)

def HasSuperclass (n s : String) : Prop := ∃ c, index.class? n = some c ∧ c.superclass = some s

/-- No class is a superclass of itself. -/
def Acyclic : Prop := ∀ n, ¬ Relation.TransGen index.HasSuperclass n n

/-- What a question that goes up from a class comes to. -/
inductive Climbs {α : Type} (ask : String → Reply α) : String → Option α → Prop
  | answered {n : String} {found : Option α} (h : ask n = .answer found) : Climbs ask n found
  | top {n : String} (h : ask n = .passOn) (hs : index.superclass? n = none) : Climbs ask n none
  | up {n s : String} {found : Option α} (h : ask n = .passOn) (hs : index.superclass? n = some s)
    (hup : Climbs ask s found) : Climbs ask n found

/-- The nearest class from `n` upwards that declares the method for its instances. -/
inductive Dispatches (m : MethodId) : String → String → Prop
  | own {n : String} {c : ClassStub} (hc : index.class? n = some c)
    (hm : declaresInstance c m = true) : Dispatches m n n
  | inherited {n s d : String} {c : ClassStub} (hc : index.class? n = some c)
    (hm : declaresInstance c m = false) (hs : c.superclass = some s) (hd : Dispatches m s d) :
    Dispatches m n d

/-- A class declares the method. -/
def Declares (m : MethodId) (n : String) : Prop :=
  ∃ c d, index.class? n = some c ∧ c.method? m.name m.descriptor = some d

end Defs

variable {index : ClasspathIndex} {m : MethodId} {n s d : String} {c : ClassStub}

/-! ### Going up -/

section Climb

variable {α : Type} {ask : String → Reply α} {found : Option α}

theorem superclass?_eq_some_iff : index.superclass? n = some s ↔ index.HasSuperclass n s := by
  simp [superclass?, HasSuperclass, Option.bind_eq_some_iff]

theorem climb_of_answer (h : ask n = .answer found) : index.climb ask n = some found := by
  rw [climb, h]

theorem climb_of_top (h : ask n = .passOn) (hs : index.superclass? n = none) :
    index.climb ask n = some none := by
  rw [climb, h, hs]

theorem climb_of_superclass (h : ask n = .passOn) (hs : index.superclass? n = some s) :
    index.climb ask n = index.climb ask s := by
  rw [climb, h, hs]

theorem climb_eq_some_iff : index.climb ask n = some found ↔ index.Climbs ask n found := by
  constructor
  · intro h
    -- The walk is the least solution of its equation, so what it gives has a finite derivation.
    refine climb.partial_correctness index ask (fun n found => index.Climbs ask n found)
      (fun rec ih n found h => ?_) n found h
    cases hask : ask n with
    | answer found' =>
      obtain rfl : found' = found := by simpa [hask] using h
      exact .answered hask
    | passOn =>
      cases hs : index.superclass? n with
      | none =>
        obtain rfl : none = found := by simpa [hask, hs] using h
        exact .top hask hs
      | some s => exact .up hask hs (ih s found (by simpa [hask, hs] using h))
  · intro h
    induction h with
    | answered h => exact climb_of_answer h
    | top h hs => exact climb_of_top h hs
    | up h hs _ ih => rw [climb_of_superclass h hs, ih]

/-- A question goes up for ever exactly if everybody passes it on and has a superclass. -/
theorem climb_eq_none_iff :
    index.climb ask n = none ↔ ∀ s, Relation.ReflTransGen index.HasSuperclass n s →
      ask s = .passOn ∧ ∃ above, index.HasSuperclass s above := by
  constructor
  · intro h s hs
    have hnone : index.climb ask s = none := by
      induction hs with
      | refl => exact h
      | @tail b s _ hbs ih =>
        cases hask : ask b with
        | answer found => simp [climb_of_answer hask] at ih
        | passOn => rw [← climb_of_superclass hask (superclass?_eq_some_iff.2 hbs), ih]
    cases hask : ask s with
    | answer found => simp [climb_of_answer hask] at hnone
    | passOn =>
      cases hup : index.superclass? s with
      | none => simp [climb_of_top hask hup] at hnone
      | some above => exact ⟨rfl, above, superclass?_eq_some_iff.1 hup⟩
  · intro h
    refine Option.eq_none_iff_forall_ne_some.2 fun found hfound => ?_
    have hclimbs := climb_eq_some_iff.1 hfound
    clear hfound
    -- No step of a derivation can be the last one.
    induction hclimbs with
    | @answered n found hask =>
      obtain ⟨hpass, -⟩ := h n .refl
      simp [hask] at hpass
    | @top n hask hs =>
      obtain ⟨-, above, habove⟩ := h n .refl
      simp [superclass?_eq_some_iff.2 habove] at hs
    | up hask hs _ ih => exact ih fun s hs' => h s (.head (superclass?_eq_some_iff.1 hs) hs')

/-- Without cycles, every question comes to an end: only finitely many classes are known. -/
theorem Acyclic.exists_climb (hacyclic : index.Acyclic) (ask : String → Reply α) (n : String) :
    ∃ found, index.climb ask n = some found := by
  refine Option.ne_none_iff_exists'.1 fun hnone => ?_
  have hup := climb_eq_none_iff.1 hnone
  let chain : Set String := { s | Relation.ReflTransGen index.HasSuperclass n s }
  have hfinite : chain.Finite := by
    refine (List.finite_toSet index.classes.keys).subset fun s hs => ?_
    obtain ⟨-, above, c, hc, -⟩ := hup s hs
    obtain ⟨ic, hic, -⟩ := Option.map_eq_some_iff.1 hc
    exact Std.ExtTreeMap.mem_keys.2 (Std.ExtTreeMap.mem_iff_isSome_getElem?.2 (by simp [hic]))
  have : IsStrictOrder String fun s n => Relation.TransGen index.HasSuperclass n s :=
    { irrefl := hacyclic, trans := fun _ _ _ hab hbc => hbc.trans hab }
  -- The last class of the chain would have a superclass, too.
  obtain ⟨⟨last, hlast⟩, -, hmin⟩ :=
    (hfinite.wellFoundedOn (r := fun s n => Relation.TransGen index.HasSuperclass n s)).has_min
      Set.univ ⟨⟨n, Relation.ReflTransGen.refl⟩, trivial⟩
  obtain ⟨-, above, habove⟩ := hup last hlast
  exact hmin ⟨above, hlast.tail habove⟩ trivial (.single habove)

end Climb

/-! ### The declaration -/

theorem declaredIn?_eq_none_iff : index.declaredIn? m n = none ↔ ¬ index.Declares m n := by
  unfold declaredIn? Declares
  cases index.class? n with
  | none => simp
  | some c => simp [Option.eq_none_iff_forall_ne_some]

theorem declaredIn?_eq_some {x : ClassStub × MethodStub} (h : index.declaredIn? m n = some x) :
    index.class? n = some x.1 ∧ x.1.method? m.name m.descriptor = some x.2 := by
  obtain ⟨c, hc, hx⟩ := Option.bind_eq_some_iff.1 h
  obtain ⟨d, hd, rfl⟩ := Option.map_eq_some_iff.1 hx
  exact ⟨hc, hd⟩

theorem HasSuperclass.extends (h : index.HasSuperclass n s) : index.Extends n s := by
  obtain ⟨c, hc, hs⟩ := h
  exact ⟨c, hc, by simp [hs]⟩

section Declaration

variable {owner : ClassStub} {x : ClassStub × MethodStub} {found : Option (ClassStub × MethodStub)}

theorem askDeclaration_eq_answer_iff :
    index.askDeclaration m n = .answer found ↔
      ∃ x, index.declaredIn? m n = some x ∧ some x = found := by
  unfold askDeclaration
  cases index.declaredIn? m n <;> simp

theorem askDeclaration_eq_passOn_iff :
    index.askDeclaration m n = .passOn ↔ ¬ index.Declares m n := by
  rw [← declaredIn?_eq_none_iff, askDeclaration]
  cases index.declaredIn? m n <;> simp

/-- What is found by going up is declared by the class or a superclass. -/
theorem Climbs.exists_declaredIn? (h : index.Climbs (index.askDeclaration m) n (some x)) :
    ∃ s, Relation.ReflTransGen index.HasSuperclass n s ∧ index.declaredIn? m s = some x := by
  generalize hfound : some x = found at h
  induction h with
  | answered h =>
    obtain ⟨y, hy, rfl⟩ := askDeclaration_eq_answer_iff.1 h
    exact ⟨_, .refl, hy⟩
  | top _ _ => cases hfound
  | up _ hs _ ih =>
    obtain ⟨s, habove, hdecl⟩ := ih hfound
    exact ⟨s, .head (superclass?_eq_some_iff.1 hs) habove, hdecl⟩

/-- If nothing is found, nobody up there declares the method. -/
theorem Climbs.not_declares (h : index.Climbs (index.askDeclaration m) n none)
    (hs : Relation.ReflTransGen index.HasSuperclass n s) : ¬ index.Declares m s := by
  generalize hfound : none = found at h
  induction h with
  | answered h =>
    obtain ⟨y, -, rfl⟩ := askDeclaration_eq_answer_iff.1 h
    cases hfound
  | top h htop =>
    rcases hs.cases_head with rfl | ⟨above, habove, -⟩
    · exact askDeclaration_eq_passOn_iff.1 h
    · simp [superclass?_eq_some_iff.2 habove] at htop
  | up h hup _ ih =>
    rcases hs.cases_head with rfl | ⟨above, habove, hrest⟩
    · exact askDeclaration_eq_passOn_iff.1 h
    · obtain rfl := Option.some.inj (hup.symm.trans (superclass?_eq_some_iff.2 habove))
      exact ih hrest hfound

/-- The superclasses are asked first, and all supertypes only if that ends with nothing. -/
theorem declaration?_eq_some_iff :
    index.declaration? owner m = some found ↔
      (∃ x, index.Climbs (index.askDeclaration m) owner.name (some x) ∧ some x = found) ∨
      (index.Climbs (index.askDeclaration m) owner.name none ∧
        (index.hierarchy.allSupertypes owner.name).findSome? (index.declaredIn? m) = found) := by
  simp only [← climb_eq_some_iff, declaration?, Option.bind_eq_bind, Option.bind_eq_some_iff]
  constructor
  · rintro ⟨up, hup, hfound⟩
    cases up with
    | some x => exact .inl ⟨x, hup, Option.some.inj hfound⟩
    | none => exact .inr ⟨hup, Option.some.inj hfound⟩
  · rintro (⟨x, hup, rfl⟩ | ⟨hup, rfl⟩)
    · exact ⟨some x, hup, rfl⟩
    · exact ⟨none, hup, rfl⟩

/-- A class that declares the method itself is where its declaration is found. -/
theorem declaration?_of_declaredIn? (h : index.declaredIn? m owner.name = some x) :
    index.declaration? owner m = some (some x) :=
  declaration?_eq_some_iff.2 (.inl ⟨x, .answered (askDeclaration_eq_answer_iff.2 ⟨x, h, rfl⟩), rfl⟩)

theorem Acyclic.exists_declaration? (hacyclic : index.Acyclic) (owner : ClassStub) (m : MethodId) :
    ∃ found, index.declaration? owner m = some found := by
  obtain ⟨up, hup⟩ := hacyclic.exists_climb (index.askDeclaration m) owner.name
  cases up with
  | some x => exact ⟨_, declaration?_eq_some_iff.2 (.inl ⟨x, climb_eq_some_iff.1 hup, rfl⟩)⟩
  | none => exact ⟨_, declaration?_eq_some_iff.2 (.inr ⟨climb_eq_some_iff.1 hup, rfl⟩)⟩

end Declaration

theorem Dispatches.isSome_class? (h : index.Dispatches m n d) :
    (index.class? n).isSome = true := by
  cases h with
  | own hc _ => simp [hc]
  | inherited hc _ _ _ => simp [hc]

theorem Dispatches.declares (h : index.Dispatches m n d) :
    Relation.ReflTransGen index.HasSuperclass n d ∧ index.Declares m d := by
  induction h with
  | own hc hm =>
    obtain ⟨decl, hdecl, -⟩ := (Option.any_eq_true _ _).1 hm
    exact ⟨.refl, _, decl, hc, hdecl⟩
  | inherited hc _ hs _ ih => exact ⟨.head ⟨_, hc, hs⟩ ih.1, ih.2⟩

/-- Where dispatch runs a declaration, the nearest one is either it or a static one. -/
theorem Dispatches.class?_eq_of_climbs (h : index.Dispatches m n d) {declaring : ClassStub}
    {decl : MethodStub} (hup : index.Climbs (index.askDeclaration m) n (some (declaring, decl)))
    (hstatic : decl.access.isStatic = false) : index.class? d = some declaring := by
  induction h with
  | @own n c hc hm =>
    obtain ⟨d0, hd0, -⟩ := (Option.any_eq_true _ _).1 hm
    have hin : index.declaredIn? m n = some (c, d0) := by simp [declaredIn?, hc, hd0]
    have hask := askDeclaration_eq_answer_iff.2 ⟨_, hin, rfl⟩
    rw [← climb_eq_some_iff, climb_of_answer hask] at hup
    obtain ⟨rfl, -⟩ : c = declaring ∧ d0 = decl := by simpa using hup
    exact hc
  | @inherited n s d c hc hm hs hd ih =>
    cases hup with
    | answered hask =>
      -- A declaration that instances do not run is static, unlike the one that was found.
      obtain ⟨x, hin, hx⟩ := askDeclaration_eq_answer_iff.1 hask
      obtain ⟨hc', hdecl⟩ := declaredIn?_eq_some hin
      obtain rfl : x = (declaring, decl) := Option.some.inj hx
      obtain rfl : c = declaring := Option.some.inj (hc.symm.trans hc')
      simp [declaresInstance, hdecl, hstatic] at hm
    | up _ hs' hup =>
      obtain rfl := Option.some.inj (hs'.symm.trans (superclass?_eq_some_iff.2 ⟨c, hc, hs⟩))
      exact ih hup

section Coherent

variable (h : index.Coherent) {owner : ClassStub}
include h

/-- Superclasses and all supertypes, together, are the types above a class. -/
theorem Coherent.above_iff {owner : String} :
    Relation.ReflTransGen index.Extends owner n ↔
      Relation.ReflTransGen index.HasSuperclass owner n ∨
        n ∈ index.hierarchy.allSupertypes owner := by
  rw [h.mem_allSupertypes_iff]
  constructor
  · intro hn
    rcases Relation.reflTransGen_iff_eq_or_transGen.1 hn with rfl | hn
    · exact .inl .refl
    · exact .inr hn
  · rintro (hn | hn)
    · exact Relation.ReflTransGen.mono (fun _ _ => HasSuperclass.extends) _ _ hn
    · exact hn.to_reflTransGen

theorem Coherent.not_declares_of_declaration? (howner : index.class? m.owner = some owner)
    (hdecl : index.declaration? owner m = some none)
    (hn : Relation.ReflTransGen index.Extends m.owner n) : ¬ index.Declares m n := by
  rw [← h.name_eq howner] at hn
  rcases declaration?_eq_some_iff.1 hdecl with ⟨x, -, hx⟩ | ⟨hup, hall⟩
  · cases hx
  · rcases h.above_iff.1 hn with hn | hn
    · exact hup.not_declares hn
    · exact declaredIn?_eq_none_iff.1 (List.findSome?_eq_none_iff.1 hall n hn)

theorem Coherent.exists_declaredIn?_of_declaration? {x : ClassStub × MethodStub}
    (howner : index.class? m.owner = some owner)
    (hdecl : index.declaration? owner m = some (some x)) :
    ∃ n, Relation.ReflTransGen index.Extends m.owner n ∧ index.declaredIn? m n = some x := by
  rw [← h.name_eq howner]
  rcases declaration?_eq_some_iff.1 hdecl with ⟨y, hup, hy⟩ | ⟨-, hall⟩
  · cases hy
    obtain ⟨n, hn, hin⟩ := hup.exists_declaredIn?
    exact ⟨n, h.above_iff.2 (.inl hn), hin⟩
  · obtain ⟨n, hn, hin⟩ := List.exists_of_findSome?_eq_some hall
    exact ⟨n, h.above_iff.2 (.inr hn), hin⟩

/-- If the search ends, it has found nothing exactly if there is nothing. -/
theorem Coherent.declaration?_eq_none_iff {found : Option (ClassStub × MethodStub)}
    (howner : index.class? m.owner = some owner)
    (hdecl : index.declaration? owner m = some found) :
    found = none ↔ ∀ n, Relation.ReflTransGen index.Extends m.owner n → ¬ index.Declares m n := by
  cases found with
  | none => simpa using fun n hn => h.not_declares_of_declaration? howner hdecl hn
  | some x =>
    obtain ⟨n, hn, hin⟩ := h.exists_declaredIn?_of_declaration? howner hdecl
    have hdeclares : index.Declares m n := by
      obtain ⟨hc, hd⟩ := declaredIn?_eq_some hin
      exact ⟨_, _, hc, hd⟩
    simpa using ⟨n, hn, hdeclares⟩

end Coherent

/-! ### Implementations -/

section Implementations

variable {subtree : List String} {t : MethodId}

/-- A class below others runs what it declares itself or what is found by going up. -/
theorem implementation?_eq_some_iff :
    index.implementation? m subtree n = some (some t) ↔ ∃ c, index.class? n = some c ∧
      (declaresInstance c m = true ∧ m.withOwner n = t ∨
        declaresInstance c m = false ∧ ∃ s d, c.superclass = some s ∧
          index.climb (index.askInherited m subtree) s = some (some d) ∧ m.withOwner d = t) := by
  unfold implementation?
  cases index.class? n with
  | none => simp
  | some c =>
    cases hm : declaresInstance c m with
    | true => simp [hm]
    | false =>
      cases hs : c.superclass with
      | none => simp [hm, hs]
      | some s => simp [hm, hs, Option.bind_eq_some_iff]

theorem Acyclic.exists_implementation? (hacyclic : index.Acyclic) (m : MethodId)
    (subtree : List String) (n : String) :
    ∃ found, index.implementation? m subtree n = some found := by
  unfold implementation?
  cases index.class? n with
  | none => exact ⟨none, rfl⟩
  | some c =>
    cases hm : declaresInstance c m with
    | true => exact ⟨m.withOwner n, by simp [hm]⟩
    | false =>
      cases hs : c.superclass with
      | none => exact ⟨none, by simp [hm, hs]⟩
      | some s =>
        obtain ⟨found, hfound⟩ := hacyclic.exists_climb (index.askInherited m subtree) s
        exact ⟨found.map m.withOwner, by simp [hm, hs, hfound]⟩

variable (hnames : ∀ {n c}, index.class? n = some c → c.name = n)
include hnames

/-- What is found by going up is what dispatch runs. -/
theorem Climbs.dispatches (h : index.Climbs (index.askInherited m subtree) n (some d)) :
    index.Dispatches m n d := by
  generalize hfound : some d = found at h
  have hask {n found} (h : index.askInherited m subtree n = found) (hne : found ≠ .answer none) :
      ∃ c, index.class? n = some c ∧
        found = if declaresInstance c m then .answer (some c.name) else .passOn := by
    unfold askInherited at h
    split at h
    · exact absurd h.symm hne
    · cases hc : index.class? n with
      | none => exact absurd (by simpa [hc] using h.symm) hne
      | some c => exact ⟨c, rfl, by simpa [hc] using h.symm⟩
  induction h with
  | answered h =>
    subst hfound
    obtain ⟨c, hc, heq⟩ := hask h (by simp)
    split at heq
    · rename_i hm
      obtain rfl : d = c.name := by simpa using heq
      rw [hnames hc]
      exact .own hc hm
    · cases heq
  | top h _ => cases hfound
  | up h hs _ ih =>
    obtain ⟨c, hc, heq⟩ := hask h (by simp)
    split at heq
    · cases heq
    · rename_i hm
      obtain ⟨c', hc', hs⟩ := superclass?_eq_some_iff.1 hs
      obtain rfl := Option.some.inj (hc.symm.trans hc')
      exact .inherited hc (by simpa using hm) hs (ih hfound)

theorem dispatches_of_implementation? (h : index.implementation? m subtree n = some (some t)) :
    ∃ d, index.Dispatches m n d ∧ t = m.withOwner d := by
  obtain ⟨c, hc, ⟨hm, rfl⟩ | ⟨hm, s, d, hs, hup, rfl⟩⟩ := implementation?_eq_some_iff.1 h
  · exact ⟨n, .own hc hm, rfl⟩
  · exact ⟨d, .inherited hc hm hs ((climb_eq_some_iff.1 hup).dispatches hnames), rfl⟩

/-- Nothing that dispatch runs is missed: for a class of the subtree it is the owner's declaration
or found for some subtype, and outside the subtree it is found by going up unless it is one of
these. -/
theorem Dispatches.found {owner : String} {subtypes : List String} {declaring : ClassStub}
    (howner : ∀ d, index.Dispatches m owner d → declaring.name = d)
    (h : index.Dispatches m n d) :
    (n ∈ owner :: subtypes → declaring.name = d ∨ ∃ sub ∈ subtypes,
      index.implementation? m (owner :: subtypes) sub = some (some (m.withOwner d))) ∧
    (n ∉ owner :: subtypes →
      index.climb (index.askInherited m (owner :: subtypes)) n = some (some d) ∨
      declaring.name = d ∨ ∃ sub ∈ subtypes,
        index.implementation? m (owner :: subtypes) sub = some (some (m.withOwner d))) := by
  induction h with
  | @own n c hc hm =>
    refine ⟨fun hn => ?_, fun hn => .inl (climb_of_answer ?_)⟩
    · rcases List.mem_cons.1 hn with rfl | hn
      · exact .inl (howner n (.own hc hm))
      · exact .inr ⟨n, hn, implementation?_eq_some_iff.2 ⟨c, hc, .inl ⟨hm, rfl⟩⟩⟩
    · simp [askInherited, hn, hc, hm, hnames hc]
  | @inherited n s d c hc hm hs hd ih =>
    refine ⟨fun hn => ?_, fun hn => ?_⟩
    · rcases List.mem_cons.1 hn with rfl | hn
      · exact .inl (howner d (.inherited hc hm hs hd))
      · by_cases hsub : s ∈ owner :: subtypes
        · exact ih.1 hsub
        · -- Only from here does the search for this subtype leave the subtree.
          rcases ih.2 hsub with hup | hfound
          · exact .inr ⟨n, hn,
              implementation?_eq_some_iff.2 ⟨c, hc, .inr ⟨hm, s, d, hs, hup, rfl⟩⟩⟩
          · exact hfound
    · have hask : index.askInherited m (owner :: subtypes) n = .passOn := by
        simp [askInherited, hn, hc, hm]
      rw [climb_of_superclass hask (superclass?_eq_some_iff.2 ⟨c, hc, hs⟩)]
      by_cases hsub : s ∈ owner :: subtypes
      · exact .inr (ih.1 hsub)
      · exact ih.2 hsub

end Implementations

/-! ### Targets -/

section Targets

variable {owner declaring : ClassStub} {decl : MethodStub}

theorem targets?_of_fixed (howner : index.class? m.owner = some owner)
    (hdecl : index.declaration? owner m = some (some (declaring, decl)))
    (hfixed : isOverridable owner decl = false) :
    index.targets? m = some (some (.ofList [m.withOwner declaring.name])) := by
  simp [targets?, howner, hdecl, hfixed]

/-- The targets of a call that can be overridden, once the search has ended for all subtypes. -/
theorem targets?_of_overridable (howner : index.class? m.owner = some owner)
    (hdecl : index.declaration? owner m = some (some (declaring, decl)))
    (hfree : isOverridable owner decl = true) {targets : Option (Std.ExtTreeSet MethodId)} :
    index.targets? m = some targets ↔ ∃ found,
      (index.hierarchy.allSubtypes owner.name).mapM (index.implementation? m
        (owner.name :: index.hierarchy.allSubtypes owner.name)) = some found ∧
      some (.ofList (m.withOwner declaring.name :: found.reduceOption)) = targets := by
  simp [targets?, howner, hdecl, hfree, Option.bind_eq_some_iff]

theorem targets?_eq_none_iff :
    index.targets? m = some none ↔ ∀ owner, index.class? m.owner = some owner →
      index.declaration? owner m = some none := by
  cases howner : index.class? m.owner with
  | none => simp [targets?, howner]
  | some owner =>
    simp only [Option.some.injEq, forall_eq']
    cases hdecl : index.declaration? owner m with
    | none => simp [targets?, howner, hdecl]
    | some found =>
      cases found with
      | none => simp [targets?, howner, hdecl]
      | some x =>
        cases hfree : isOverridable owner x.2 with
        | true => simp [targets?_of_overridable howner hdecl hfree]
        | false => simp [targets?_of_fixed howner hdecl hfree]

/-- Where there are targets, a declaration was found. -/
theorem exists_declaration?_of_targets? {targets : Std.ExtTreeSet MethodId}
    (h : index.targets? m = some (some targets)) :
    ∃ owner x, index.class? m.owner = some owner ∧ index.declaration? owner m = some (some x) := by
  cases howner : index.class? m.owner with
  | none => simp [targets?, howner] at h
  | some owner =>
    cases hdecl : index.declaration? owner m with
    | none => simp [targets?, howner, hdecl] at h
    | some found =>
      cases found with
      | none => simp [targets?, howner, hdecl] at h
      | some x => exact ⟨owner, x, rfl, hdecl⟩

/-- **Looking for targets ends** if no class is a superclass of itself. -/
theorem Acyclic.exists_targets? (hacyclic : index.Acyclic) (m : MethodId) :
    ∃ targets, index.targets? m = some targets := by
  cases howner : index.class? m.owner with
  | none => exact ⟨none, by simp [targets?, howner]⟩
  | some owner =>
    obtain ⟨found, hdecl⟩ := hacyclic.exists_declaration? owner m
    cases found with
    | none => exact ⟨none, by simp [targets?, howner, hdecl]⟩
    | some x =>
      cases hfree : isOverridable owner x.2 with
      | false => exact ⟨_, targets?_of_fixed howner hdecl hfree⟩
      | true =>
        have hall := isSome_mapM_iff.2 fun n (_ : n ∈ index.hierarchy.allSubtypes owner.name) =>
          Option.isSome_iff_exists.2 (hacyclic.exists_implementation? m
            (owner.name :: index.hierarchy.allSubtypes owner.name) n)
        obtain ⟨found, hfound⟩ := Option.isSome_iff_exists.1 hall
        exact ⟨_, (targets?_of_overridable howner hdecl hfree).2 ⟨found, hfound, rfl⟩⟩

/-- In a cycle of superclasses none of which declares the method, the search goes on for ever. -/
theorem targets?_of_cycle (howner : index.class? m.owner = some owner)
    (hname : owner.name = m.owner) (hcycle : Relation.TransGen index.HasSuperclass m.owner m.owner)
    (hnone : ∀ s, Relation.ReflTransGen index.HasSuperclass m.owner s → ¬ index.Declares m s) :
    index.targets? m = none := by
  -- Wherever the search gets to, it is still in the cycle.
  have hstay {s} (hs : Relation.ReflTransGen index.HasSuperclass m.owner s) :
      Relation.TransGen index.HasSuperclass s s := by
    induction hs with
    | refl => exact hcycle
    | @tail b s _ hbs ih =>
      obtain ⟨c, hbc, hcb⟩ := Relation.TransGen.head'_iff.1 ih
      obtain rfl : s = c := Option.some.inj
        ((superclass?_eq_some_iff.2 hbs).symm.trans (superclass?_eq_some_iff.2 hbc))
      exact Relation.TransGen.tail' hcb hbs
  have hclimb : index.climb (index.askDeclaration m) owner.name = none := by
    rw [hname, climb_eq_none_iff]
    intro s hs
    obtain ⟨above, habove, -⟩ := Relation.TransGen.head'_iff.1 (hstay hs)
    exact ⟨askDeclaration_eq_passOn_iff.2 (hnone s hs), above, habove⟩
  simp [targets?, howner, declaration?, hclimb]

/-- Targets are the declaration that was found and, if it can be overridden, what was found for the
subtypes. -/
theorem mem_targets_iff {targets : Std.ExtTreeSet MethodId}
    (howner : index.class? m.owner = some owner)
    (hdecl : index.declaration? owner m = some (some (declaring, decl)))
    (h : index.targets? m = some (some targets)) (t : MethodId) :
    t ∈ targets ↔ t = m.withOwner declaring.name ∨
      isOverridable owner decl = true ∧ ∃ n ∈ index.hierarchy.allSubtypes owner.name,
        index.implementation? m (owner.name :: index.hierarchy.allSubtypes owner.name) n =
          some (some t) := by
  cases hfree : isOverridable owner decl with
  | false =>
    obtain rfl : .ofList [m.withOwner declaring.name] = targets := by
      simpa [targets?_of_fixed howner hdecl hfree] using h
    simp [eq_comm (a := t)]
  | true =>
    obtain ⟨found, hfound, htargets⟩ := (targets?_of_overridable howner hdecl hfree).1 h
    obtain rfl := Option.some.inj htargets
    have hmem : some t ∈ found ↔ ∃ n ∈ index.hierarchy.allSubtypes owner.name,
        index.implementation? m (owner.name :: index.hierarchy.allSubtypes owner.name) n =
          some (some t) := by
      rw [← List.mem_map, mapM_eq_some_iff.1 hfound]
      simp
    simp [Std.ExtTreeSet.mem_ofList, List.reduceOption_mem_iff, hmem]

end Targets

theorem isOverridable_iff {owner : ClassStub} {decl : MethodStub} :
    isOverridable owner decl = true ↔
      ¬ (decl.access.isStatic ∨ decl.access.isPrivate ∨ decl.access.isFinal ∨
        isInitializerName decl.name ∨ owner.access.isFinal) := by
  simp [isOverridable, and_assoc]

/-- The owner's declaration and what is found for subtypes, together, are that declaration and what
dispatch runs for subtypes. -/
theorem implementations_eq_dispatch
    (hnames : ∀ {n c}, index.class? n = some c → c.name = n) {owner : String}
    {subtypes : List String} {declaring : ClassStub}
    (howner : ∀ d, index.Dispatches m owner d → declaring.name = d) (t : MethodId) :
    (t = m.withOwner declaring.name ∨
        ∃ n ∈ subtypes, index.implementation? m (owner :: subtypes) n = some (some t)) ↔
      t = m.withOwner declaring.name ∨
        ∃ n ∈ subtypes, ∃ d, index.Dispatches m n d ∧ t = m.withOwner d := by
  constructor
  · rintro (rfl | ⟨n, hn, himp⟩)
    · exact .inl rfl
    · exact .inr ⟨n, hn, dispatches_of_implementation? hnames himp⟩
  · rintro (rfl | ⟨n, hn, d, hd, rfl⟩)
    · exact .inl rfl
    · rcases (hd.found hnames howner).1 (List.mem_cons_of_mem _ hn) with rfl | hsub
      · exact .inl rfl
      · exact .inr hsub

/-- If the search ends, the targets are the declaration that is found and, if it can be overridden,
what dispatch runs for subtypes. -/
theorem Coherent.mem_targets_iff (h : index.Coherent) {owner declaring : ClassStub}
    {decl : MethodStub} {targets : Std.ExtTreeSet MethodId}
    (howner : index.class? m.owner = some owner)
    (hdecl : index.declaration? owner m = some (some (declaring, decl)))
    (htargets : index.targets? m = some (some targets)) (t : MethodId) :
    t ∈ targets ↔ t = m.withOwner declaring.name ∨
      isOverridable owner decl = true ∧ ∃ n ∈ index.hierarchy.allSubtypes m.owner,
        ∃ d, index.Dispatches m n d ∧ t = m.withOwner d := by
  rw [ClasspathIndex.mem_targets_iff howner hdecl htargets, h.name_eq howner]
  by_cases hfree : isOverridable owner decl = true
  · have hstatic : decl.access.isStatic = false := by
      simpa using (not_or.1 (isOverridable_iff.1 hfree)).1
    -- For the owner itself, dispatch runs the declaration that is found.
    have howns : ∀ d, index.Dispatches m m.owner d → declaring.name = d := by
      intro d hd
      rw [← h.name_eq howner] at hd
      rcases declaration?_eq_some_iff.1 hdecl with ⟨x, hup, hx⟩ | ⟨hup, -⟩
      · cases hx
        exact h.name_eq (hd.class?_eq_of_climbs hup hstatic)
      · exact absurd hd.declares.2 (hup.not_declares hd.declares.1)
    simp only [hfree, true_and]
    exact implementations_eq_dispatch h.name_eq howns t
  · simp [hfree]

section Build

variable {tree : FileTree} {entries : List ClasspathEntry} {owner declaring : ClassStub}
  {decl : MethodStub}

theorem declaration?_found (howner : (build tree entries).class? m.owner = some owner)
    (hdecl : (build tree entries).declaration? owner m = some (some (declaring, decl))) :
    (build tree entries).class? declaring.name = some declaring ∧
      declaring.method? m.name m.descriptor = some decl ∧
      Relation.ReflTransGen (build tree entries).Extends m.owner declaring.name := by
  obtain ⟨n, hn, hin⟩ :=
    (coherent_build tree entries).exists_declaredIn?_of_declaration? howner hdecl
  obtain ⟨hc, hd⟩ := declaredIn?_eq_some hin
  obtain rfl : declaring.name = n := name_eq_of_class? hc
  exact ⟨hc, hd, hn⟩

/-- A target is declared where it says. -/
theorem declares_of_mem_targets {targets : Std.ExtTreeSet MethodId} {t : MethodId}
    (h : (build tree entries).targets? m = some (some targets)) (ht : t ∈ targets) :
    ∃ d, t = m.withOwner d ∧ (build tree entries).Declares m d := by
  obtain ⟨owner, ⟨declaring, decl⟩, howner, hdecl⟩ := exists_declaration?_of_targets? h
  rcases ((coherent_build tree entries).mem_targets_iff howner hdecl h t).1 ht with
    rfl | ⟨-, n, -, d, hd, rfl⟩
  · obtain ⟨hc, hd, -⟩ := declaration?_found howner hdecl
    exact ⟨_, rfl, declaring, decl, hc, hd⟩
  · exact ⟨d, rfl, hd.declares.2⟩

end Build

/-- **Targets are the image of dispatch.** If no superclass chain is a cycle, looking for targets
ends. A call has none exactly if its class is unknown or nobody from there upwards declares the
method. The only target of a call that cannot be overridden is the declaration that is found, and
otherwise the targets are this declaration and what dispatch runs for the known subtypes of the
owner. -/
theorem targets_eq_dispatch (tree : FileTree) (entries : List ClasspathEntry) (m : MethodId)
    (hacyclic : (build tree entries).Acyclic) :
    let index := build tree entries
    (∃ targets, index.targets? m = some targets) ∧
    (index.targets? m = some none ↔
      index.class? m.owner = none ∨
        ∀ n, Relation.ReflTransGen index.Extends m.owner n → ¬ index.Declares m n) ∧
    ∀ owner declaring decl, index.class? m.owner = some owner →
      index.declaration? owner m = some (some (declaring, decl)) →
      (index.class? declaring.name = some declaring ∧
        declaring.method? m.name m.descriptor = some decl ∧
        Relation.ReflTransGen index.Extends m.owner declaring.name) ∧
      ((decl.access.isStatic ∨ decl.access.isPrivate ∨ decl.access.isFinal ∨
          isInitializerName decl.name ∨ owner.access.isFinal) →
        index.targets? m = some (some (.ofList [m.withOwner declaring.name]))) ∧
      (¬ (decl.access.isStatic ∨ decl.access.isPrivate ∨ decl.access.isFinal ∨
          isInitializerName decl.name ∨ owner.access.isFinal) →
        ∃ targets, index.targets? m = some (some targets) ∧ ∀ t, t ∈ targets ↔
          t = m.withOwner declaring.name ∨
          ∃ n ∈ index.hierarchy.allSubtypes m.owner, (index.class? n).isSome ∧
            ∃ d, index.Dispatches m n d ∧ t = m.withOwner d) := by
  intro index
  have hcoherent : index.Coherent := coherent_build tree entries
  obtain ⟨targets, htargets⟩ := hacyclic.exists_targets? m
  refine ⟨⟨targets, htargets⟩, ?_, fun owner declaring decl howner hdecl => ?_⟩
  · rw [targets?_eq_none_iff]
    cases howner : index.class? m.owner with
    | none => simp
    | some owner =>
      obtain ⟨found, hdecl⟩ := hacyclic.exists_declaration? owner m
      have hnone := hcoherent.declaration?_eq_none_iff howner hdecl
      simpa [index, hdecl] using hnone
  · refine ⟨declaration?_found howner hdecl, fun hfixed => ?_, fun hfree => ?_⟩
    · have hover : ¬ isOverridable owner decl = true := fun h => isOverridable_iff.1 h hfixed
      exact targets?_of_fixed howner hdecl (by simpa using hover)
    · cases targets with
      | none =>
        have hnone := targets?_eq_none_iff.1 htargets owner howner
        rw [hdecl] at hnone
        cases hnone
      | some targets =>
        refine ⟨targets, htargets, fun t => ?_⟩
        rw [hcoherent.mem_targets_iff howner hdecl htargets]
        simp only [isOverridable_iff.2 hfree, true_and]
        refine or_congr_right (exists_congr fun n => and_congr_right fun _ => ?_)
        exact ⟨fun hd => ⟨by obtain ⟨d, hd, -⟩ := hd; exact hd.isSome_class?, hd⟩, And.right⟩

/-! ### Indexes of given classes -/

section Stubs

variable {tree : FileTree} {entries : List ClasspathEntry} {stubs : List ClassStub}

/-- A jar with the given classes can be read. They are to come in the order of names. -/
theorem load_jar_of_stubs {name : String} {content : List ArchiveEntry}
    (hname : FileTree.isName name = true) (hnul : '\x00' ∉ name.toList)
    (hsize : name.utf8ByteSize ≤ FileTree.maxName)
    (hnode : tree.nodes[[name]]? = some (.file (.ofEntries content)))
    (h : (Archive.jarClasses content).toOption.any (fun cs =>
      cs.map ClassStub.ofClass = stubs ∧ cs.Pairwise fun a b => a.name ≤ b.name) = true) :
    ∃ cs, load tree ⟨.jar, FileTree.pathOf [name]⟩ = .ok (⟨.jar, FileTree.pathOf [name]⟩, cs) ∧
      cs.map ClassStub.ofClass = stubs := by
  cases hcs : Archive.jarClasses content with
  | error cause => simp [hcs, Except.toOption] at h
  | ok cs =>
    obtain ⟨hstubs, hsorted⟩ : cs.map ClassStub.ofClass = stubs ∧
        cs.Pairwise fun a b => a.name ≤ b.name := by
      simpa [hcs, Except.toOption] using h
    refine ⟨cs, ?_, hstubs⟩
    rw [load_jar hname hnul hsize hnode, hcs]
    simp [Except.map, List.mergeSort_of_pairwise, hsorted]

theorem class?_of_stubs (h : ((loaded tree entries).flatMap (·.2)).map ClassStub.ofClass = stubs)
    (n : String) : (build tree entries).class? n = stubs.find? (·.name == n) := by
  rw [class?_build, ← h, List.find?_map]
  rfl

/-- There is no cycle if superclasses are lower, for some measure of height. -/
theorem acyclic_of_stubs (h : ∀ n, index.class? n = stubs.find? (·.name == n))
    (height : String → Nat)
    (hlower : stubs.all (fun c => c.superclass.all fun s => height s < height c.name) = true) :
    index.Acyclic := by
  have hstep {n s} (hs : index.HasSuperclass n s) : height s < height n := by
    obtain ⟨c, hc, hs⟩ := hs
    rw [h] at hc
    have hlt := List.all_eq_true.1 hlower c (List.mem_of_find?_eq_some hc)
    obtain rfl : c.name = n := by simpa using List.find?_some hc
    simpa [hs] using hlt
  have hchain {n s} (hs : Relation.TransGen index.HasSuperclass n s) : height s < height n := by
    induction hs with
    | single hs => exact hstep hs
    | tail _ hs ih => exact Nat.lt_trans (hstep hs) ih
  exact fun n hn => Nat.lt_irrefl _ (hchain hn)

end Stubs

/-! ### A method that is inherited from outside -/

/-- A job does its task by a method of a class that knows nothing of tasks. -/
def jobSpecs : List Assembly.ClassSpec :=
  [{ name := "p/Base", methods := [.concrete "run" "()V"] },
    { name := "p/Job", superclass := "p/Base", interfaces := ["p/Task"] },
    { name := "p/Task", access := Assembly.ClassSpec.interfaceAccess,
      methods := [.abstract "run" "()V"] }]

def jobArchive : List ArchiveEntry :=
  jobSpecs.map fun c => ⟨c.name ++ ".class", .bytes c.encode⟩

def jobTree : FileTree := ⟨.ofList [(["p.jar"], Node.file (.ofEntries jobArchive))], []⟩

def jobIndex : ClasspathIndex := build jobTree [⟨.jar, FileTree.pathOf ["p.jar"]⟩]

def jobBase : ClassStub :=
  ⟨"p.Base", "p/Base", ⟨0x0021⟩, some "java.lang.Object", [], [⟨"run", "()V", ⟨0x0001⟩⟩]⟩

def jobClass : ClassStub := ⟨"p.Job", "p/Job", ⟨0x0021⟩, some "p.Base", ["p.Task"], []⟩

def jobTask : ClassStub :=
  ⟨"p.Task", "p/Task", ⟨0x0601⟩, some "java.lang.Object", [], [⟨"run", "()V", ⟨0x0401⟩⟩]⟩

def jobStubs : List ClassStub := [jobBase, jobClass, jobTask]

theorem class?_jobIndex (n : String) : jobIndex.class? n = jobStubs.find? (·.name == n) := by
  have hnode : jobTree.nodes[["p.jar"]]? = some (.file (.ofEntries jobArchive)) := by
    simp [jobTree]
  obtain ⟨cs, hload, hstubs⟩ : ∃ cs, load jobTree ⟨.jar, FileTree.pathOf ["p.jar"]⟩ =
      .ok (⟨.jar, FileTree.pathOf ["p.jar"]⟩, cs) ∧ cs.map ClassStub.ofClass = jobStubs :=
    load_jar_of_stubs (by decide +kernel) (by decide +kernel) (by decide +kernel) hnode
      (by decide +kernel)
  refine class?_of_stubs ?_ n
  simp [loaded, hload, Except.toOption, hstubs]

theorem acyclic_jobIndex : jobIndex.Acyclic :=
  acyclic_of_stubs class?_jobIndex
    (fun n => if n = "p.Job" then 2 else if n = "java.lang.Object" then 0 else 1) (by decide)

/-- A call of the task may run the method that the job inherits. -/
theorem mem_targets_jobIndex :
    jobIndex.Acyclic ∧
    ∃ targets, jobIndex.targets? ⟨"p.Task", "run", "()V"⟩ = some (some targets) ∧
      ⟨"p.Base", "run", "()V"⟩ ∈ targets := by
  refine ⟨acyclic_jobIndex, ?_⟩
  have htask : jobIndex.class? "p.Task" = some jobTask := by
    rw [class?_jobIndex]
    decide
  have hjob : jobIndex.class? "p.Job" = some jobClass := by
    rw [class?_jobIndex]
    decide
  have hbase : jobIndex.class? "p.Base" = some jobBase := by
    rw [class?_jobIndex]
    decide
  have hdecl : jobIndex.declaration? jobTask ⟨"p.Task", "run", "()V"⟩ =
      some (some (jobTask, ⟨"run", "()V", ⟨0x0401⟩⟩)) := by
    refine declaration?_of_declaredIn? ?_
    simp [declaredIn?, jobTask, htask, ClassStub.method?]
  obtain ⟨-, -, hfound⟩ := targets_eq_dispatch jobTree [⟨.jar, FileTree.pathOf ["p.jar"]⟩]
    ⟨"p.Task", "run", "()V"⟩ acyclic_jobIndex
  obtain ⟨-, -, hfree⟩ := hfound jobTask jobTask _ htask hdecl
  obtain ⟨targets, htargets, hmem⟩ := hfree (by decide)
  refine ⟨targets, htargets, (hmem _).2 (.inr ⟨"p.Job", ?_, ?_, "p.Base", ?_, rfl⟩)⟩
  · exact mem_allSubtypes_iff.2 (.single ⟨jobClass, hjob, by simp [jobClass]⟩)
  · exact Option.isSome_of_eq_some hjob
  · exact .inherited hjob (by decide) rfl (.own hbase (by decide))

end ClasspathIndex

end JvmThrows
