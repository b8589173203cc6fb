import JvmThrows.Cache.Store
import JvmThrows.Proofs.Attempts
import Mathlib.Data.Set.Insert

/-!
# Adding to what a store keeps

Entries add up as sets do: a method is known if some part knows it, and has the exceptions that some
part has for it (`IsUnion`). What a run of merges leaves under a key is the union of what was there
and of what was added under the key (`Store.sums_mergeAll`), so all that counts about a run is what
its additions say together (`Rearranges.agree`).
-/

namespace JvmThrows

open Cache

namespace Entries

variable {a b es total total' : Entries} {m : MethodId} {e : String} {p q r : Set Entries}

/-! ### Unions of entries -/

theorem mem_exceptionsOf_union :
    e ∈ (a.union b).exceptionsOf m ↔ e ∈ a.exceptionsOf m ∨ e ∈ b.exceptionsOf m := by
  unfold exceptionsOf
  rw [getElem?_union]
  cases b[m]? with
  | none => simp
  | some x => simp [mem_foldl_insert, exceptionsOf]

theorem mem_union : m ∈ a.union b ↔ m ∈ a ∨ m ∈ b := by
  simp only [Std.ExtTreeMap.mem_iff_isSome_getElem?, getElem?_union]
  cases b[m]? with
  | none => simp
  | some x => simp

/-- Entries are what they say about methods and exceptions. -/
theorem ext_exceptionsOf (hmem : ∀ m, m ∈ a ↔ m ∈ b)
    (hexceptions : ∀ m e, e ∈ a.exceptionsOf m ↔ e ∈ b.exceptionsOf m) : a = b := by
  refine Std.ExtTreeMap.ext_getElem? fun m => ?_
  have hm := hmem m
  have hsame : a.exceptionsOf m = b.exceptionsOf m := Std.ExtTreeSet.ext_mem (hexceptions m)
  simp only [Std.ExtTreeMap.mem_iff_isSome_getElem?] at hm
  unfold exceptionsOf at hsame
  cases ha : a[m]? <;> cases hb : b[m]? <;> simp_all

/-- Everything in `a` is in `b`. -/
structure Within (a b : Entries) : Prop where
  mem : ∀ m, m ∈ a → m ∈ b
  mem_exceptionsOf : ∀ m e, e ∈ a.exceptionsOf m → e ∈ b.exceptionsOf m

theorem Within.union_eq (h : Within a b) : b.union a = b :=
  ext_exceptionsOf (fun m => mem_union.trans (or_iff_left_of_imp (h.mem m)))
    fun m e => mem_exceptionsOf_union.trans (or_iff_left_of_imp (h.mem_exceptionsOf m e))

/-- The methods of all parts, also those without exceptions, each with all its exceptions. -/
structure IsUnion (total : Entries) (p : Set Entries) : Prop where
  mem_iff : ∀ m, m ∈ total ↔ ∃ es ∈ p, m ∈ es
  mem_exceptionsOf_iff : ∀ m e, e ∈ total.exceptionsOf m ↔ ∃ es ∈ p, e ∈ es.exceptionsOf m

theorem isUnion_singleton (es : Entries) : IsUnion es {es} := ⟨by simp, by simp⟩

theorem IsUnion.insert (h : IsUnion total p) (es : Entries) :
    IsUnion (total.union es) (insert es p) := by
  refine ⟨fun m => ?_, fun m e => ?_⟩
  · rw [mem_union, h.mem_iff, Set.exists_mem_insert, or_comm]
  · rw [mem_exceptionsOf_union, h.mem_exceptionsOf_iff, Set.exists_mem_insert, or_comm]

/-- What is found is the union of parts; without parts there is nothing, not even empty entries. -/
def Sums (found : Option Entries) (p : Set Entries) : Prop :=
  (found.isSome ↔ p.Nonempty) ∧ ∀ total, found = some total → IsUnion total p

theorem sums_self (found : Option Entries) : Sums found {es | found = some es} := by
  cases found with
  | none => exact ⟨by simp, nofun⟩
  | some total =>
    have hset : {es | some total = some es} = {total} := by
      ext es
      simp [eq_comm]
    rw [hset]
    refine ⟨by simp, ?_⟩
    rintro _ ⟨⟩
    exact isUnion_singleton total

theorem Sums.insert {found : Option Entries} (h : Sums found p) (es : Entries) :
    Sums (some ((found.getD ∅).union es)) (insert es p) := by
  refine ⟨by simp, ?_⟩
  rintro _ ⟨⟩
  cases found with
  | some total => exact (h.2 total rfl).insert es
  | none =>
    -- Nothing was there, so that there are no parts yet.
    have hnone : p = ∅ := Set.not_nonempty_iff_eq_empty.1 fun hp => by simpa using h.1.2 hp
    rw [hnone, Option.getD_none, empty_union, insert_empty_eq]
    exact isUnion_singleton es

/-! ### Parts that say the same -/

/-- A question about entries that a union answers as its parts do. -/
def Additive (f : Entries → Prop) : Prop := ∀ a b, f (a.union b) ↔ f a ∨ f b

/-- Parts that say the same together. -/
def Agree (p q : Set Entries) : Prop := ∀ f, Additive f → ((∃ es ∈ p, f es) ↔ ∃ es ∈ q, f es)

theorem Agree.union (h : Agree p q) (r : Set Entries) : Agree (r ∪ p) (r ∪ q) := by
  intro f hf
  simp only [Set.mem_union, or_and_right, exists_or, h f hf]

theorem Agree.nonempty_iff (h : Agree p q) : p.Nonempty ↔ q.Nonempty := by
  simpa [Set.Nonempty] using h (fun _ => True) (by simp [Additive])

theorem IsUnion.eq_of_agree (h : IsUnion total p) (h' : IsUnion total' q) (hsame : Agree p q) :
    total = total' := by
  refine ext_exceptionsOf (fun m => ?_) fun m e => ?_
  · rw [h.mem_iff, h'.mem_iff]
    exact hsame (m ∈ ·) fun _ _ => mem_union
  · rw [h.mem_exceptionsOf_iff, h'.mem_exceptionsOf_iff]
    exact hsame (e ∈ exceptionsOf · m) fun _ _ => mem_exceptionsOf_union

/-- There is one sum only. -/
theorem Sums.eq_of_agree {found found' : Option Entries} (h : Sums found p) (h' : Sums found' q)
    (hsame : Agree p q) : found = found' := by
  have hsome : found.isSome ↔ found'.isSome := h.1.trans (hsame.nonempty_iff.trans h'.1.symm)
  cases found with
  | none =>
    cases found' with
    | none => rfl
    | some total' => simp at hsome
  | some total =>
    cases found' with
    | none => simp at hsome
    | some total' => rw [(h.2 total rfl).eq_of_agree (h'.2 total' rfl) hsame]

end Entries

open Entries

/-! ### Runs of merges -/

/-- Entries that are to be added for a class. -/
abbrev Addition := String × Entries

variable {k : String} {x : Addition} {adds adds' : List Addition}

/-- What is added under a key. -/
def addedUnder (k : String) (adds : List Addition) : Set Entries :=
  {es | ∃ c, (c, es) ∈ adds ∧ key c = k}

/-- The parts of what there is under a key: what was there before, and what is added. -/
def partsOf (before : Option Entries) (k : String) (adds : List Addition) : Set Entries :=
  {es | before = some es} ∪ addedUnder k adds

theorem mem_addedUnder_cons {es : Entries} :
    es ∈ addedUnder k (x :: adds) ↔ (key x.1 = k ∧ es = x.2) ∨ es ∈ addedUnder k adds := by
  obtain ⟨c, es'⟩ := x
  simp only [addedUnder, Set.mem_ofPred_eq, List.mem_cons, Prod.mk.injEq]
  constructor
  · rintro ⟨c', ⟨rfl, rfl⟩ | hmem, hkey⟩
    · exact .inl ⟨hkey, rfl⟩
    · exact .inr ⟨c', hmem, hkey⟩
  · rintro (⟨hkey, rfl⟩ | ⟨c', hmem, hkey⟩)
    · exact ⟨c, .inl ⟨rfl, rfl⟩, hkey⟩
    · exact ⟨c', .inr hmem, hkey⟩

theorem addedUnder_cons_of_eq (h : key x.1 = k) :
    addedUnder k (x :: adds) = insert x.2 (addedUnder k adds) := by
  ext es
  simp only [mem_addedUnder_cons, h, true_and, Set.mem_insert_iff]

theorem addedUnder_cons_of_ne (h : key x.1 ≠ k) : addedUnder k (x :: adds) = addedUnder k adds := by
  ext es
  simp only [mem_addedUnder_cons, h, false_and, false_or]

theorem exists_mem_addedUnder_cons {f : Entries → Prop} :
    (∃ es ∈ addedUnder k (x :: adds), f es) ↔
      (key x.1 = k ∧ f x.2) ∨ ∃ es ∈ addedUnder k adds, f es := by
  simp only [mem_addedUnder_cons, or_and_right, exists_or, and_assoc, exists_and_left,
    exists_eq_left]

/-- Additions in another order, more often, or put together. -/
inductive Rearranges : List Addition → List Addition → Prop
  | permute {l l' : List Addition} : l.Perm l' → Rearranges l l'
  | again {y : Addition} {l : List Addition} : y ∈ l → Rearranges l (y :: l)
  | regroup {c c' : String} {es es' : Entries} {l : List Addition} : key c = key c' →
    Rearranges ((c, es) :: (c', es') :: l) ((c, es.union es') :: l)
  | symm {l l' : List Addition} : Rearranges l l' → Rearranges l' l
  | trans {l l' l'' : List Addition} : Rearranges l l' → Rearranges l' l'' → Rearranges l l''

/-- Rearranged additions say the same under every key. -/
theorem Rearranges.agree (h : Rearranges adds adds') (k : String) :
    Agree (addedUnder k adds) (addedUnder k adds') := by
  intro f hf
  induction h with
  | permute hperm => simp only [addedUnder, Set.mem_ofPred_eq, hperm.mem_iff]
  | @again y _ hmem =>
    rw [exists_mem_addedUnder_cons]
    refine ⟨.inr, ?_⟩
    rintro (⟨hkey, hy⟩ | hrest)
    · -- What is added again is one of the parts already.
      exact ⟨y.2, ⟨y.1, hmem, hkey⟩, hy⟩
    · exact hrest
  | regroup hkey =>
    simp only [exists_mem_addedUnder_cons, hf _ _, and_or_left, hkey, or_assoc]
  | symm _ ih => exact ih.symm
  | trans _ _ ih ih' => exact ih.trans ih'

namespace Store

variable {σ : Type} {store : Store σ} {s s' : σ} {p : Set Entries}

/-- Adds one after the other, and tells which additions could be made. -/
def mergeAll (store : Store σ) : List Addition → StateM σ (List Addition)
  | [] => pure []
  | x :: adds => do
    match ← (store.merge x.1 x.2).run with
    | .ok _ => return x :: (← store.mergeAll adds)
    | .error _ => store.mergeAll adds

theorem mergeAll_of_ok (h : store.merge x.1 x.2 s = (.ok (), s')) (adds : List Addition) :
    store.mergeAll (x :: adds) s =
      (x :: (store.mergeAll adds s').1, (store.mergeAll adds s').2) := by
  have hrun : (store.merge x.1 x.2).run s = (.ok (), s') := h
  rw [mergeAll, bind_eq hrun]
  rfl

theorem mergeAll_of_error {e : CacheError} (h : store.merge x.1 x.2 s = (.error e, s'))
    (adds : List Addition) : store.mergeAll (x :: adds) s = store.mergeAll adds s' := by
  have hrun : (store.merge x.1 x.2).run s = (.error e, s') := h
  rw [mergeAll, bind_eq hrun]

theorem snd_mergeAll_cons (x : Addition) (adds : List Addition) (s : σ) :
    (store.mergeAll (x :: adds) s).2 = (store.mergeAll adds (store.merge x.1 x.2 s).2).2 := by
  rcases h : store.merge x.1 x.2 s with ⟨e | ⟨⟩, s'⟩
  · rw [mergeAll_of_error h]
  · rw [mergeAll_of_ok h]

theorem mem_of_mem_mergeAll (h : x ∈ (store.mergeAll adds s).1) : x ∈ adds := by
  induction adds generalizing s with
  | nil => exact h
  | cons y adds ih =>
    rcases hmerge : store.merge y.1 y.2 s with ⟨e | ⟨⟩, s'⟩
    · -- What was not added is left out.
      rw [mergeAll_of_error hmerge] at h
      exact List.mem_cons_of_mem y (ih h)
    · rw [mergeAll_of_ok hmerge] at h
      rcases List.mem_cons.1 h with rfl | hrest
      · exact List.mem_cons_self
      · exact List.mem_cons_of_mem y (ih hrest)

/-- A merge adds to what is found under the key of its class, or fails and changes nothing there. -/
structure AddsUnder (store : Store σ) (k : String) (look : σ → Option Entries) (x : Addition)
    (s : σ) : Prop where
  of_ok : ∀ {s'}, store.merge x.1 x.2 s = (.ok (), s') →
    look s' = if key x.1 = k then some (((look s).getD ∅).union x.2) else look s
  of_error : ∀ {e s'}, store.merge x.1 x.2 s = (.error e, s') → look s' = look s

/-- What is found after a run is the sum of what was found before and of all additions that could be
made. -/
theorem sums_mergeAll (look : σ → Option Entries) (ready : List Addition → σ → Prop)
    (hstep : ∀ {x adds s}, ready (x :: adds) s →
      store.AddsUnder k look x s ∧ ready adds (store.merge x.1 x.2 s).2)
    (adds : List Addition) (hready : ready adds s) (h : Sums (look s) p) :
    Sums (look (store.mergeAll adds s).2) (p ∪ addedUnder k (store.mergeAll adds s).1) := by
  induction adds generalizing s p with
  | nil =>
    have hnone : addedUnder k [] = ∅ := by simp [addedUnder]
    show Sums (look s) (p ∪ addedUnder k [])
    rwa [hnone, Set.union_empty]
  | cons x adds ih =>
    obtain ⟨hadds, hnext⟩ := hstep hready
    rcases hmerge : store.merge x.1 x.2 s with ⟨e | ⟨⟩, s'⟩
    · rw [hmerge] at hnext
      -- A failed merge changes nothing under the key.
      rw [mergeAll_of_error hmerge]
      exact ih hnext (hadds.of_error hmerge ▸ h)
    · have hfound := hadds.of_ok hmerge
      rw [hmerge] at hnext
      rw [mergeAll_of_ok hmerge]
      by_cases hkey : key x.1 = k
      · rw [if_pos hkey] at hfound
        -- The addition is a new part of the sum.
        rw [addedUnder_cons_of_eq hkey, Set.union_insert, ← Set.insert_union]
        exact ih hnext (hfound ▸ h.insert x.2)
      · rw [if_neg hkey] at hfound
        rw [addedUnder_cons_of_ne hkey]
        exact ih hnext (hfound ▸ h)

end Store

/-! ### Merges in memory -/

namespace Memory

variable (memory : Memory)

theorem store_merge (x : Addition) :
    store.merge x.1 x.2 memory =
      (.ok (), memory.insert (key x.1) (((memory[key x.1]?).getD ∅).union x.2)) := rfl

/-- In memory all additions can be made. -/
theorem fst_mergeAll (adds : List Addition) : (store.mergeAll adds memory).1 = adds := by
  induction adds generalizing memory with
  | nil => rfl
  | cons x adds ih => rw [Store.mergeAll_of_ok (store_merge memory x), ih]

theorem addsUnder (k : String) (x : Addition) : store.AddsUnder k (·[k]?) x memory where
  of_ok := by
    rintro _ ⟨⟩
    by_cases hkey : key x.1 = k
    · simp [hkey]
    · simp [hkey, Std.ExtTreeMap.getElem?_insert]
  of_error := nofun

theorem sums_mergeAll (adds : List Addition) (k : String) :
    Sums (store.mergeAll adds memory).2[k]? (partsOf memory[k]? k adds) := by
  have hsum := Store.sums_mergeAll (·[k]?) (fun _ _ => True)
    (fun _ => ⟨addsUnder _ k _, trivial⟩) adds trivial (sums_self memory[k]?)
  rwa [fst_mergeAll] at hsum

theorem mergeAll_eq_of_rearranges (h : Rearranges adds adds') :
    (store.mergeAll adds memory).2 = (store.mergeAll adds' memory).2 :=
  Std.ExtTreeMap.ext_getElem? fun k =>
    (sums_mergeAll memory adds k).eq_of_agree (sums_mergeAll memory adds' k) ((h.agree k).union _)

end Memory

end JvmThrows
