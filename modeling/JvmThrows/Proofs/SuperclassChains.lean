import JvmThrows.Proofs.Lookups
import Mathlib.Data.Set.Card
import Mathlib.Logic.Relation

/-!
# Handlers and chains of superclasses

A handler catches an exception if the class it names is the class of the exception or one of its
superclasses. `IsParent` tells superclasses by the class files alone: a class of the container has
the superclass that its file names, if any, and only for other classes the platform is asked. The
look-up goes up to 64 classes of the chain. That is enough for chains with at most 64 names, also
for such as run in circles (`isCaught_iff_chain`), since a name is first met after fewer steps than
there are names (`exists_superclassAt?_lt_encard`).
-/

namespace JvmThrows

/-- The class that counts for a name: the last one. -/
def definition? (classes : List ClassFile) (name : String) : Option ClassFile :=
  classes.reverse.find? (·.name == name)

/-- A class that the files define has the superclass of its file, another one that of the
platform. -/
inductive IsParent (classes : List ClassFile) (name parent : String) : Prop
  | defined {c : ClassFile} (hc : definition? classes name = some c)
    (hparent : c.superclass = some parent)
  | platform (hnone : ∀ c ∈ classes, c.name ≠ name)
    (hparent : (name, parent) ∈ platformSuperclasses)

/-- A class is on the chain of superclasses of another one, which begins with the class itself. -/
def OnChain (classes : List ClassFile) : String → String → Prop :=
  Relation.ReflTransGen (IsParent classes)

namespace Container

/-! ### One step -/

theorem definition?_eq_none_iff {classes : List ClassFile} {name : String} :
    definition? classes name = none ↔ ∀ c ∈ classes, c.name ≠ name := by
  simp [definition?]

/-- No class has two rows in the table. -/
theorem lookup_platformSuperclasses {name parent : String} :
    platformSuperclasses.lookup name = some parent ↔ (name, parent) ∈ platformSuperclasses := by
  have hnodup : (platformSuperclasses.map Prod.fst).Nodup := by decide +kernel
  rw [List.lookup_eq_some_iff]
  constructor
  · rintro ⟨front, back, heq, -⟩
    simp [heq]
  · intro hmem
    obtain ⟨front, back, heq⟩ := List.append_of_mem hmem
    refine ⟨front, back, heq, fun row hrow => ?_⟩
    rw [heq, List.map_append, List.map_cons, List.nodup_append] at hnodup
    have hne := hnodup.2.2 row.1 (List.mem_map_of_mem hrow) name List.mem_cons_self
    exact bne_iff_ne.2 hne.symm

theorem superclass?_ofList (classes : List ClassFile) (name : String) :
    (ofList classes).superclass? name =
      (definition? classes name).elim (platformSuperclasses.lookup name) (·.superclass) := by
  unfold superclass? definition?
  rw [getElem?_ofList]
  cases classes.reverse.find? (·.name == name) <;> rfl

theorem superclass?_ofList_eq_some_iff {classes : List ClassFile} {name parent : String} :
    (ofList classes).superclass? name = some parent ↔ IsParent classes name parent := by
  rw [superclass?_ofList]
  cases hc : definition? classes name with
  | some c =>
    refine ⟨fun h => .defined hc h, fun h => ?_⟩
    cases h with
    | defined hc' hparent =>
      rw [hc, Option.some.injEq] at hc'
      rwa [hc']
    -- A class that is defined is not looked up in the table.
    | platform hnone _ =>
      rw [definition?_eq_none_iff.2 hnone] at hc
      cases hc
  | none =>
    refine ⟨fun h => .platform (definition?_eq_none_iff.1 hc) (lookup_platformSuperclasses.1 h),
      fun h => ?_⟩
    cases h with
    | defined hc' _ =>
      rw [hc] at hc'
      cases hc'
    | platform _ hparent => exact lookup_platformSuperclasses.2 hparent

/-! ### The chain, step by step -/

/-- The class some steps up the chain. -/
def superclassAt? (container : Container) : Nat → String → Option String
  | 0, name => some name
  | n + 1, name => (container.superclass? name).bind (container.superclassAt? n)

variable {container : Container} {name ancestor : String} {i j k : Nat}

theorem superclassAt?_add (i j : Nat) (name : String) :
    container.superclassAt? (i + j) name =
      (container.superclassAt? i name).bind (container.superclassAt? j) := by
  induction i generalizing name with
  | zero => simp [superclassAt?]
  | succ i ih =>
    rw [Nat.succ_add, superclassAt?, superclassAt?, Option.bind_assoc]
    exact congrArg _ (funext ih)

theorem isOnChain_succ :
    container.isOnChain ancestor (k + 1) name =
      (name == ancestor || (container.superclass? name).any (container.isOnChain ancestor k)) := by
  rw [isOnChain]
  cases container.superclass? name <;> rfl

/-- The walk meets the classes that are fewer steps away than it looks at. -/
theorem isOnChain_iff :
    container.isOnChain ancestor k name = true ↔
      ∃ i < k, container.superclassAt? i name = some ancestor := by
  induction k generalizing name with
  | zero => simp [isOnChain]
  | succ k ih =>
    rw [isOnChain_succ, Bool.or_eq_true, beq_iff_eq, Option.any_eq_true]
    constructor
    · rintro (rfl | ⟨parent, hparent, hchain⟩)
      · exact ⟨0, Nat.succ_pos k, rfl⟩
      · -- One step more, at the front of the chain.
        obtain ⟨i, hi, hat⟩ := ih.1 hchain
        exact ⟨i + 1, Nat.succ_lt_succ hi, by rw [superclassAt?, hparent]; exact hat⟩
    · rintro ⟨i, hi, hat⟩
      cases i with
      | zero => exact .inl (Option.some.inj hat)
      | succ i =>
        obtain ⟨parent, hparent, hat⟩ := Option.bind_eq_some_iff.1 hat
        exact .inr ⟨parent, hparent, ih.2 ⟨i, Nat.lt_of_succ_lt_succ hi, hat⟩⟩

theorem onChain_iff_exists {classes : List ClassFile} :
    OnChain classes name ancestor ↔
      ∃ i, (ofList classes).superclassAt? i name = some ancestor := by
  constructor
  · intro h
    induction h using Relation.ReflTransGen.head_induction_on with
    | refl => exact ⟨0, rfl⟩
    | head hparent _ ih =>
      obtain ⟨i, hi⟩ := ih
      exact ⟨i + 1, by rw [superclassAt?, superclass?_ofList_eq_some_iff.2 hparent]; exact hi⟩
  · rintro ⟨i, hi⟩
    induction i generalizing name with
    | zero =>
      cases hi
      exact .refl
    | succ i ih =>
      obtain ⟨parent, hparent, hi⟩ := Option.bind_eq_some_iff.1 hi
      exact .head (superclass?_ofList_eq_some_iff.1 hparent) (ih hi)

/-! ### Chains with few names -/

/-- On the way to the first place of a class no class is met twice: from the second place on, the
chain goes on as from the first, so that the class would stand further down. -/
theorem superclassAt?_injective (hi : container.superclassAt? i name = some ancestor)
    (hfirst : ∀ j < i, container.superclassAt? j name ≠ some ancestor) (hjk : j < k) (hk : k ≤ i) :
    container.superclassAt? j name ≠ container.superclassAt? k name := by
  intro heq
  refine hfirst (j + (i - k)) (by omega) ?_
  rw [superclassAt?_add, heq, ← superclassAt?_add, Nat.add_sub_cancel' hk, hi]

theorem exists_superclassAt? (hi : container.superclassAt? i name = some ancestor) (hj : j ≤ i) :
    ∃ s, container.superclassAt? j name = some s := by
  rw [← Nat.add_sub_cancel' hj, superclassAt?_add] at hi
  obtain ⟨s, hs, -⟩ := Option.bind_eq_some_iff.1 hi
  exact ⟨s, hs⟩

/-- A class on the chain is met after fewer steps than there are names on it. -/
theorem exists_superclassAt?_lt_encard {classes : List ClassFile}
    (h : OnChain classes name ancestor) :
    ∃ i, (ofList classes).superclassAt? i name = some ancestor ∧
      ((i + 1 : ℕ) : ℕ∞) ≤ {s | OnChain classes name s}.encard := by
  classical
  have hexists := onChain_iff_exists.1 h
  have hfind := Nat.find_spec hexists
  refine ⟨Nat.find hexists, hfind, ?_⟩
  -- The classes up to the first place are on the chain, and no two of them are the same.
  let met : Finset (Option String) :=
    (Finset.range (Nat.find hexists + 1)).image ((ofList classes).superclassAt? · name)
  have hcard : met.card = Nat.find hexists + 1 := by
    refine (Finset.card_image_of_injOn fun j hj k hk heq => ?_).trans (Finset.card_range _)
    rw [Finset.coe_range, Set.mem_Iio, Nat.lt_succ_iff] at hj hk
    have hfirst : ∀ j < Nat.find hexists, (ofList classes).superclassAt? j name ≠ some ancestor :=
      fun j hj => Nat.find_min hexists hj
    -- Of two equal members the later one would have been met before.
    rcases Nat.lt_trichotomy j k with hlt | rfl | hlt
    · exact absurd heq (superclassAt?_injective hfind hfirst hlt hk)
    · rfl
    · exact absurd heq.symm (superclassAt?_injective hfind hfirst hlt hj)
  have hsub : (met : Set (Option String)) ⊆ some '' {s | OnChain classes name s} := by
    intro x hx
    obtain ⟨j, hj, rfl⟩ := Finset.mem_image.1 hx
    obtain ⟨s, hs⟩ := exists_superclassAt? hfind (Nat.lt_succ_iff.1 (Finset.mem_range.1 hj))
    exact ⟨s, onChain_iff_exists.2 ⟨j, hs⟩, hs.symm⟩
  have hle := Set.encard_le_encard hsub
  rwa [Set.encard_coe_eq_coe_finsetCard, hcard, (Option.some_injective _).encard_image] at hle

theorem isSubclass_iff_onChain {classes : List ClassFile}
    (hshort : {s | OnChain classes name s}.encard ≤ 64) :
    (ofList classes).isSubclass name ancestor = true ↔ OnChain classes name ancestor := by
  rw [isSubclass, isOnChain_iff]
  constructor
  · rintro ⟨i, -, hi⟩
    exact onChain_iff_exists.2 ⟨i, hi⟩
  · intro h
    obtain ⟨i, hi, hle⟩ := exists_superclassAt?_lt_encard h
    exact ⟨i, Nat.cast_le.1 (hle.trans hshort), hi⟩

/-- **Handlers go by the chain of superclasses.** If at most 64 names are on the chain of a class,
also if it runs in circles, then the class counts as a subclass of exactly those. So an exception
is caught if and only if some handler names one of them and covers the position. -/
theorem isCaught_iff_chain (classes : List ClassFile) (exception : String)
    (hshort : {s | OnChain classes exception s}.encard ≤ 64) :
    (∀ ancestor, (ofList classes).isSubclass exception ancestor = true ↔
      OnChain classes exception ancestor) ∧
    ∀ (handlers : List Handler) (pc : Nat),
      (ofList classes).isCaught handlers pc exception = true ↔
        ∃ h ∈ handlers, ∃ caught, h.catchType = some caught ∧ h.start ≤ pc ∧ pc < h.stop ∧
          OnChain classes exception caught := by
  refine ⟨fun ancestor => isSubclass_iff_onChain hshort, fun handlers pc => ?_⟩
  simp only [isCaught, List.any_eq_true, Bool.and_eq_true, Option.any_eq_true,
    isSubclass_iff_onChain hshort, Handler.covers, decide_eq_true_eq]
  refine exists_congr fun h => and_congr_right fun _ => ?_
  constructor
  · rintro ⟨⟨hstart, hstop⟩, caught, hcaught, hchain⟩
    exact ⟨caught, hcaught, hstart, hstop, hchain⟩
  · rintro ⟨caught, hcaught, hstart, hstop, hchain⟩
    exact ⟨⟨hstart, hstop⟩, caught, hcaught, hchain⟩

def bareClass (name superclass : String) : ClassFile :=
  ⟨0, 52, ⟨0x0021⟩, name, some superclass, [], []⟩

/-- A class of the platform is defined anew, and extends the one that extends it. -/
def redefined : List ClassFile :=
  [bareClass "q/A" "java/lang/IllegalStateException",
    bareClass "java/lang/RuntimeException" "q/A"]

def redefinedChain : List String :=
  ["q/A", "java/lang/IllegalStateException", "java/lang/RuntimeException"]

theorem onChain_redefined_iff {s : String} :
    OnChain redefined "q/A" s ↔ s ∈ redefinedChain := by
  have hsteps : (redefinedChain.all fun n => ((definition? redefined n).elim
      (platformSuperclasses.lookup n) (·.superclass)).all redefinedChain.contains) = true := by
    decide +kernel
  constructor
  · intro h
    induction h with
    | refl => exact List.mem_cons_self
    | tail _ hparent ih =>
      have hstep := List.all_eq_true.1 hsteps _ ih
      rw [← superclass?_ofList, superclass?_ofList_eq_some_iff.2 hparent] at hstep
      simpa using hstep
  · intro h
    have hfirst : IsParent redefined "q/A" "java/lang/IllegalStateException" :=
      .defined (c := bareClass "q/A" "java/lang/IllegalStateException") (by decide +kernel) rfl
    have hsecond : IsParent redefined "java/lang/IllegalStateException"
        "java/lang/RuntimeException" := .platform (by decide +kernel) (by decide +kernel)
    simp only [redefinedChain, List.mem_cons, List.not_mem_nil, or_false] at h
    rcases h with rfl | rfl | rfl
    · exact .refl
    · exact .single hfirst
    · exact .tail (.single hfirst) hsecond

/-- The platform would take the redefined class for an `Exception`; the container does not. -/
theorem isCaught_redefined :
    {s | OnChain redefined "q/A" s}.encard ≤ 64 ∧
      (ofList redefined).isCaught [⟨3, 9, 20, some "java/lang/RuntimeException"⟩] 8 "q/A" = true ∧
      (ofList redefined).isCaught [⟨3, 9, 20, some "java/lang/Exception"⟩] 8 "q/A" = false := by
  have hshort : {s | OnChain redefined "q/A" s}.encard ≤ 64 := by
    have hset : {s | OnChain redefined "q/A" s} = (redefinedChain.toFinset : Set String) := by
      ext s
      simp [onChain_redefined_iff]
    rw [hset, Set.encard_coe_eq_coe_finsetCard]
    exact Nat.cast_le.2 ((List.toFinset_card_le _).trans (by decide))
  obtain ⟨-, hcaught⟩ := isCaught_iff_chain redefined "q/A" hshort
  refine ⟨hshort, (hcaught _ _).2 ⟨_, List.mem_cons_self, _, rfl, by decide, by decide, ?_⟩, ?_⟩
  · exact onChain_redefined_iff.2 (by decide +kernel)
  · rw [← Bool.not_eq_true, hcaught]
    rintro ⟨h, hh, caught, hname, -, -, hchain⟩
    obtain rfl := List.mem_singleton.1 hh
    cases hname
    exact absurd (onChain_redefined_iff.1 hchain) (by decide +kernel)

end Container

end JvmThrows
