import JvmThrows.Proofs.Hierarchy
import Mathlib.Data.List.Destutter
import Mathlib.Data.String.Basic
import Mathlib.Data.List.Sort

/-!
# The inheritance graph depends on its edges only

Edges may be added in any batches, in any order and more than once: what counts is which edges there
are (`ofBatches_edges`). A name is kept only if it is related to some name, and the names that it is
related to are kept in order, each once.

Plain lists do as well as sets (`EdgeLists`): new names are put at the end, and after each batch the
lists of the names that occur in it are sorted and freed of repetitions. Lists that the batch does
not touch need not be looked at, since they are in order already (`EdgeLists.extend_ofHierarchy`).
-/

namespace JvmThrows

/-! ### Names in order -/

theorem pairwise_lt_toList (names : Std.ExtTreeSet String) : names.toList.Pairwise (· < ·) := by
  have hordered : names.toList.Pairwise fun a b => compare a b = .lt :=
    Std.ExtTreeSet.ordered_toList
  exact hordered.imp compareOfLessAndEq_eq_lt.1

/-- Lists in order with the same names are the same. -/
theorem eq_of_pairwise_lt {l l' : List String} (h : l.Pairwise (· < ·)) (h' : l'.Pairwise (· < ·))
    (hmem : ∀ b, b ∈ l ↔ b ∈ l') : l = l' := by
  have hperm : l.Perm l' :=
    (List.perm_ext_iff_of_nodup (h.imp ne_of_lt) (h'.imp ne_of_lt)).2 hmem
  exact hperm.eq_of_pairwise (fun a b _ _ hab hba => absurd hab hba.not_gt) h h'

/-- Sorted, and without repetitions. -/
def inOrder (names : List String) : List String :=
  (names.mergeSort (· ≤ ·)).destutter (· ≠ ·)

theorem mem_destutter {names : List String} {b : String} :
    b ∈ names.destutter (· ≠ ·) ↔ b ∈ names := by
  have hcons (a : String) (l : List String) : b ∈ l.destutter' (· ≠ ·) a ↔ b ∈ a :: l := by
    induction l generalizing a with
    | nil => rfl
    | cons c l ih =>
      by_cases hac : a ≠ c
      · rw [List.destutter'_cons_pos _ hac, List.mem_cons, ih, ← List.mem_cons]
      · -- A repeated name is dropped, and is still in the list in front.
        obtain rfl : a = c := not_not.1 hac
        rw [List.destutter'_cons_neg _ hac, ih]
        simp
  cases names with
  | nil => rfl
  | cons a l => exact hcons a l

theorem pairwise_inOrder (names : List String) : (inOrder names).Pairwise (· < ·) := by
  have hle : (inOrder names).Pairwise (· ≤ ·) :=
    (List.pairwise_mergeSort' (· ≤ ·) names).sublist (List.destutter_sublist _ _)
  have hne : (inOrder names).IsChain (· ≠ ·) := List.isChain_destutter _ _
  refine (List.isChain_iff_getElem.2 fun i hi => ?_).pairwise
  exact lt_of_le_of_ne (List.isChain_iff_getElem.1 hle.isChain i hi)
    (List.isChain_iff_getElem.1 hne i hi)

theorem mem_inOrder {names : List String} {b : String} : b ∈ inOrder names ↔ b ∈ names := by
  rw [inOrder, mem_destutter, List.mem_mergeSort]

/-- Putting names in order is what keeping them in a set does. -/
theorem inOrder_eq_toList {names : List String} {set : Std.ExtTreeSet String}
    (h : ∀ b, b ∈ names ↔ b ∈ set) : inOrder names = set.toList :=
  eq_of_pairwise_lt (pairwise_inOrder names) (pairwise_lt_toList set) fun b => by
    rw [mem_inOrder, h, Std.ExtTreeSet.mem_toList]

/-! ### Relations without idle names -/

namespace Relation

variable {r r' : Relation} {a b : String}

/-- Every name that is kept is related to some name. -/
def NoneIdle (r : Relation) : Prop :=
  ∀ (a : String) (names : Std.ExtTreeSet String), r[a]? = some names → names.toList ≠ []

theorem pairwise_lt_related (r : Relation) (a : String) : (r.related a).Pairwise (· < ·) := by
  unfold related
  split
  · exact pairwise_lt_toList _
  · exact .nil

theorem NoneIdle.relate (h : r.NoneIdle) (a b : String) : (r.relate a b).NoneIdle := by
  intro x names hx
  rw [Relation.relate, Std.ExtTreeMap.getElem?_insert] at hx
  split at hx
  · -- The list of the edge's own class is not empty.
    cases hx
    exact List.ne_nil_of_mem (Std.ExtTreeSet.mem_toList.2 Std.ExtTreeSet.mem_insert_self)
  · exact h x names hx

theorem NoneIdle.getElem?_eq (h : r.NoneIdle) (a : String) :
    r[a]? = if r.related a = [] then none else some (.ofList (r.related a)) := by
  unfold related
  cases hr : r[a]? with
  | none => rfl
  | some names =>
    -- A list that is kept is rebuilt from its names, which are sorted.
    rw [if_neg (h a names hr)]
    exact congrArg some (Std.ExtTreeSet.ext_mem fun b => by simp)

/-- Without idle names, a relation is given by what is related to what. -/
theorem NoneIdle.ext (h : r.NoneIdle) (h' : r'.NoneIdle)
    (hmem : ∀ a b, b ∈ r.related a ↔ b ∈ r'.related a) : r = r' := by
  refine Std.ExtTreeMap.ext_getElem? fun a => ?_
  have hrelated : r.related a = r'.related a :=
    eq_of_pairwise_lt (r.pairwise_lt_related a) (r'.pairwise_lt_related a) (hmem a)
  rw [h.getElem?_eq, h'.getElem?_eq, hrelated]

end Relation

/-! ### Batches -/

/-- A subtype and its supertype. -/
abbrev Edge := String × String

namespace Hierarchy

variable {h h' : Hierarchy} {edges edges' : List Edge} {batches : List (List Edge)} {s t : String}

/-- Adds batches of edges, one after the other, to an empty hierarchy. -/
def ofBatches (batches : List (List Edge)) : Hierarchy := batches.foldl extend {}

theorem ofBatches_eq (batches : List (List Edge)) : ofBatches batches = extend {} batches.flatten :=
  List.foldl_flatten.symm

theorem noneIdle_extend (hsub : h.subtypes.NoneIdle) (hsup : h.supertypes.NoneIdle) :
    (h.extend edges).subtypes.NoneIdle ∧ (h.extend edges).supertypes.NoneIdle := by
  unfold extend
  induction edges generalizing h with
  | nil => exact ⟨hsub, hsup⟩
  | cons e edges ih => exact ih (hsub.relate e.2 e.1) (hsup.relate e.1 e.2)

theorem noneIdle_ofBatches (batches : List (List Edge)) :
    (ofBatches batches).subtypes.NoneIdle ∧ (ofBatches batches).supertypes.NoneIdle := by
  rw [ofBatches_eq]
  exact noneIdle_extend (by simp [Relation.NoneIdle]) (by simp [Relation.NoneIdle])

theorem mem_directSupertypes_ofBatches :
    t ∈ (ofBatches batches).directSupertypes s ↔ (s, t) ∈ batches.flatten := by
  rw [ofBatches_eq, mem_directSupertypes_extend]
  simp [directSupertypes, Relation.related]

theorem mem_directSubtypes_ofBatches :
    s ∈ (ofBatches batches).directSubtypes t ↔ (s, t) ∈ batches.flatten := by
  rw [ofBatches_eq, mem_directSubtypes_extend]
  simp [directSubtypes, Relation.related]

/-- Which edges there are decides what the hierarchy is. -/
theorem ofBatches_congr {batches' : List (List Edge)}
    (hmem : ∀ e, e ∈ batches.flatten ↔ e ∈ batches'.flatten) :
    ofBatches batches = ofBatches batches' := by
  obtain ⟨hsub, hsup⟩ := noneIdle_ofBatches batches
  obtain ⟨hsub', hsup'⟩ := noneIdle_ofBatches batches'
  have hsubtypes := hsub.ext hsub' fun t s =>
    mem_directSubtypes_ofBatches.trans ((hmem (s, t)).trans mem_directSubtypes_ofBatches.symm)
  have hsupertypes := hsup.ext hsup' fun s t =>
    mem_directSupertypes_ofBatches.trans ((hmem (s, t)).trans mem_directSupertypes_ofBatches.symm)
  cases h : ofBatches batches
  cases h' : ofBatches batches'
  rw [h, h'] at hsubtypes hsupertypes
  exact congrArg₂ Hierarchy.mk hsubtypes hsupertypes

theorem extend_congr (hmem : ∀ e, e ∈ edges ↔ e ∈ edges') : extend {} edges = extend {} edges' := by
  have hsame : ofBatches [edges] = ofBatches [edges'] :=
    ofBatches_congr fun e => by simpa using hmem e
  simpa only [ofBatches_eq, List.flatten_singleton] using hsame

/-- A way up is a way down in the other direction. -/
theorem mem_allSubtypes_iff_mem_allSupertypes
    (hdual : ∀ s t, s ∈ h.directSubtypes t ↔ t ∈ h.directSupertypes s) :
    s ∈ h.allSubtypes t ↔ t ∈ h.allSupertypes s := by
  have hswap : (fun t s => s ∈ h.subtypes.related t) =
      Function.swap fun s t => t ∈ h.supertypes.related s :=
    funext fun t => funext fun s => propext (hdual s t)
  rw [allSubtypes, allSupertypes, Relation.mem_reachable_iff, Relation.mem_reachable_iff, hswap,
    Relation.transGen_swap]

end Hierarchy

/-! ### Plain lists -/

/-- The names related to a name, as a list. -/
abbrev NameLists := Std.ExtTreeMap String (List String)

namespace NameLists

/-- Puts a name at the end of a list. -/
def push (l : NameLists) (a b : String) : NameLists := l.insert a ((l[a]?).getD [] ++ [b])

/-- Puts the lists of some names in order and leaves all other lists alone. -/
def tidy (l : NameLists) (touched : List String) : NameLists :=
  l.map fun name names => if name ∈ touched then inOrder names else names

end NameLists

structure EdgeLists where
  subtypes : NameLists := ∅
  supertypes : NameLists := ∅

namespace EdgeLists

def addEdge (l : EdgeLists) (edge : Edge) : EdgeLists where
  subtypes := l.subtypes.push edge.2 edge.1
  supertypes := l.supertypes.push edge.1 edge.2

/-- Adds a batch of edges. Only lists of names that occur in the batch are put in order. -/
def extend (l : EdgeLists) (edges : List Edge) : EdgeLists :=
  let touched := edges.flatMap fun e => [e.1, e.2]
  let added := edges.foldl addEdge l
  ⟨added.subtypes.tidy touched, added.supertypes.tidy touched⟩

def ofBatches (batches : List (List Edge)) : EdgeLists := batches.foldl extend {}

end EdgeLists

namespace Relation

variable {r : Relation} {l : NameLists} {touched : List String} {a b : String}

/-- The sets of a relation as lists. -/
def lists (r : Relation) : NameLists := r.map fun _ names => names.toList

theorem getElem?_lists (r : Relation) (a : String) : r.lists[a]? = (r[a]?).map (·.toList) := by
  rw [lists, Std.ExtTreeMap.getElem?_map]

theorem NoneIdle.of_lists {names : List String} (h : r.NoneIdle)
    (hnames : r.lists[a]? = some names) : names ≠ [] ∧ names.Pairwise (· < ·) := by
  rw [getElem?_lists] at hnames
  obtain ⟨set, hset, rfl⟩ := Option.map_eq_some_iff.1 hnames
  exact ⟨h a set hset, pairwise_lt_toList set⟩

/-- Within a batch: lists hold the names of the relation, and those that the batch does not touch
hold them in order. -/
structure Pending (touched : List String) (r : Relation) (l : NameLists) : Prop where
  mem_iff : ∀ a b, b ∈ (l[a]?).getD [] ↔ b ∈ r.related a
  isSome_eq : ∀ a : String, (l[a]?).isSome = (r[a]?).isSome
  eq_of_not_mem : ∀ a : String, a ∉ touched → l[a]? = (r[a]?).map (·.toList)

theorem pending_lists (touched : List String) (r : Relation) : Pending touched r r.lists where
  mem_iff a b := by
    rw [getElem?_lists, related]
    cases r[a]? <;> rfl
  isSome_eq a := by rw [getElem?_lists, Option.isSome_map]
  eq_of_not_mem a _ := getElem?_lists r a

theorem Pending.push (h : Pending touched r l) (ha : a ∈ touched) (b : String) :
    Pending touched (r.relate a b) (l.push a b) where
  mem_iff x y := by
    rw [mem_related_relate, NameLists.push, Std.ExtTreeMap.getElem?_insert]
    -- Only the list of `a` has a new name.
    by_cases hx : a = x
    · subst hx
      simp [h.mem_iff, or_comm, eq_comm]
    · simp [hx, h.mem_iff]
  isSome_eq x := by
    rw [NameLists.push, relate, Std.ExtTreeMap.getElem?_insert, Std.ExtTreeMap.getElem?_insert]
    split
    · rfl
    · exact h.isSome_eq x
  eq_of_not_mem x hx := by
    have hne : a ≠ x := fun heq => hx (heq ▸ ha)
    rw [NameLists.push, relate, Std.ExtTreeMap.getElem?_insert, Std.ExtTreeMap.getElem?_insert]
    simp [hne, h.eq_of_not_mem x hx]

/-- What the batch has touched is put in order, and all else is. -/
theorem Pending.tidy (h : Pending touched r l) : l.tidy touched = r.lists := by
  refine Std.ExtTreeMap.ext_getElem? fun a => ?_
  rw [NameLists.tidy, Std.ExtTreeMap.getElem?_map, getElem?_lists]
  by_cases ha : a ∈ touched
  · -- A list that was touched is sorted, and repetitions are dropped.
    have hsome := h.isSome_eq a
    have hmem := h.mem_iff a
    unfold related at hmem
    cases hl : l[a]? with
    | none =>
      rw [hl] at hsome
      rw [Option.isNone_iff_eq_none.1 (Option.isSome_eq_false_iff.1 hsome.symm)]
      rfl
    | some names =>
      rw [hl] at hsome hmem
      obtain ⟨set, hset⟩ := Option.isSome_iff_exists.1 hsome.symm
      rw [hset] at hmem ⊢
      simp only [Option.map_some, if_pos ha]
      exact congrArg some (inOrder_eq_toList fun b => by simpa using hmem b)
  · -- Other lists are sorted already.
    simp only [if_neg ha, Option.map_id']
    exact h.eq_of_not_mem a ha

end Relation

namespace EdgeLists

/-- The lists of a hierarchy. -/
def ofHierarchy (h : Hierarchy) : EdgeLists := ⟨h.subtypes.lists, h.supertypes.lists⟩

/-- One batch, edge by edge: both sides keep pace. -/
theorem pending_addEdge {touched : List String} {h : Hierarchy} {l : EdgeLists} {edges : List Edge}
    (htouched : ∀ e ∈ edges, e.1 ∈ touched ∧ e.2 ∈ touched)
    (hsub : Relation.Pending touched h.subtypes l.subtypes)
    (hsup : Relation.Pending touched h.supertypes l.supertypes) :
    Relation.Pending touched (h.extend edges).subtypes (edges.foldl addEdge l).subtypes ∧
      Relation.Pending touched (h.extend edges).supertypes (edges.foldl addEdge l).supertypes := by
  unfold Hierarchy.extend
  induction edges generalizing h l with
  | nil => exact ⟨hsub, hsup⟩
  | cons e edges ih =>
    obtain ⟨⟨he1, he2⟩, hedges⟩ := List.forall_mem_cons.1 htouched
    exact ih hedges (hsub.push he2 e.1) (hsup.push he1 e.2)

theorem extend_ofHierarchy (h : Hierarchy) (edges : List Edge) :
    (ofHierarchy h).extend edges = ofHierarchy (h.extend edges) := by
  have htouched : ∀ e ∈ edges, e.1 ∈ edges.flatMap (fun e => [e.1, e.2]) ∧
      e.2 ∈ edges.flatMap fun e => [e.1, e.2] := fun e he =>
    ⟨List.mem_flatMap.2 ⟨e, he, by simp⟩, List.mem_flatMap.2 ⟨e, he, by simp⟩⟩
  obtain ⟨hsub, hsup⟩ := pending_addEdge (l := ofHierarchy h) htouched
    (Relation.pending_lists _ h.subtypes) (Relation.pending_lists _ h.supertypes)
  exact congrArg₂ EdgeLists.mk hsub.tidy hsup.tidy

/-- Lists kept batch by batch are those of the hierarchy. -/
theorem ofBatches_eq_ofHierarchy (batches : List (List Edge)) :
    ofBatches batches = ofHierarchy (Hierarchy.ofBatches batches) := by
  have hrun (h : Hierarchy) :
      batches.foldl extend (ofHierarchy h) = ofHierarchy (batches.foldl Hierarchy.extend h) := by
    induction batches generalizing h with
    | nil => rfl
    | cons edges batches ih => rw [List.foldl_cons, extend_ofHierarchy, ih, List.foldl_cons]
  have hempty : ofHierarchy {} = {} := by
    simp [ofHierarchy, Relation.lists]
  rw [ofBatches, ← hempty, hrun]
  rfl

end EdgeLists

namespace Hierarchy

/-- **The inheritance graph is a function of its set of edges.** However edges come in batches,
names are related if and only if the edge between them has been added; every list that is kept is in
order and not empty, also where only the lists touched by a batch are put in order; the same edges
give the same graph, so that an index does not depend on the order of its classes; and all subtypes
are what all supertypes say. -/
theorem ofBatches_edges (batches : List (List Edge)) :
    EdgeLists.ofBatches batches = EdgeLists.ofHierarchy (ofBatches batches) ∧
      (∀ s t, t ∈ (ofBatches batches).directSupertypes s ↔ ∃ batch ∈ batches, (s, t) ∈ batch) ∧
      (∀ s t, s ∈ (ofBatches batches).directSubtypes t ↔ ∃ batch ∈ batches, (s, t) ∈ batch) ∧
      (∀ (name : String) (names : List String),
        (EdgeLists.ofBatches batches).subtypes[name]? = some names ∨
          (EdgeLists.ofBatches batches).supertypes[name]? = some names →
            names ≠ [] ∧ names.Pairwise (· < ·)) ∧
      (∀ batches', (∀ e, (∃ batch ∈ batches, e ∈ batch) ↔ ∃ batch ∈ batches', e ∈ batch) →
        ofBatches batches = ofBatches batches' ∧
          EdgeLists.ofBatches batches = EdgeLists.ofBatches batches') ∧
      (∀ tree entries, ∀ order : List (String × IndexedClass),
        order.Perm (ClasspathIndex.build tree entries).classes.toList →
          extend {} (order.flatMap (·.2.stub.edges)) =
            (ClasspathIndex.build tree entries).hierarchy) ∧
      ∀ s t, s ∈ (ofBatches batches).allSubtypes t ↔ t ∈ (ofBatches batches).allSupertypes s := by
  have hlists := EdgeLists.ofBatches_eq_ofHierarchy
  obtain ⟨hsub, hsup⟩ := noneIdle_ofBatches batches
  refine ⟨hlists batches, fun s t => mem_directSupertypes_ofBatches.trans List.mem_flatten,
    fun s t => mem_directSubtypes_ofBatches.trans List.mem_flatten, ?_, ?_, ?_, ?_⟩
  · intro name names hnames
    rw [hlists] at hnames
    rcases hnames with hnames | hnames
    · exact hsub.of_lists hnames
    · exact hsup.of_lists hnames
  · intro batches' hmem
    have hsame : ofBatches batches = ofBatches batches' :=
      ofBatches_congr fun e => by rw [List.mem_flatten, List.mem_flatten, hmem]
    exact ⟨hsame, by rw [hlists, hlists, hsame]⟩
  · intro tree entries order hperm
    rw [ClasspathIndex.hierarchy_build]
    exact extend_congr fun e => by simp only [List.mem_flatMap, hperm.mem_iff]
  · exact fun s t => mem_allSubtypes_iff_mem_allSupertypes fun s t =>
      mem_directSubtypes_ofBatches.trans mem_directSupertypes_ofBatches.symm

end Hierarchy

end JvmThrows
