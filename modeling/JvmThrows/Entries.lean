import JvmThrows.MethodId
import Std.Data.ExtTreeMap
import Std.Data.ExtTreeSet

/-!
# Exceptions per method

The results of analysis: for each method, the names of the exceptions that may escape from it. A
method without exceptions is a result, too.
-/

namespace JvmThrows

abbrev Exceptions := Std.ExtTreeSet String

abbrev Entries := Std.ExtTreeMap MethodId Exceptions

namespace Entries

/-- The exceptions of a method; none of an unknown method. -/
def exceptionsOf (entries : Entries) (m : MethodId) : Exceptions := (entries[m]?).getD ∅

/-- Adds exceptions to those of a method. -/
def add (entries : Entries) (m : MethodId) (exceptions : Exceptions) : Entries :=
  entries.insert m (exceptions.foldl (·.insert ·) (entries.exceptionsOf m))

/-- The methods of both, each with all its exceptions. -/
def union (a b : Entries) : Entries := b.foldl add a

/-- Builds entries from a list; of a repeated method the last counts. -/
def ofLast (rows : List (MethodId × List String)) : Entries :=
  rows.foldl (fun entries row => entries.insert row.1 (.ofList row.2)) ∅

/-- The rows in the order of methods. -/
def rows (entries : Entries) : List (MethodId × List String) :=
  entries.toList.map fun (m, exceptions) => (m, exceptions.toList)

theorem mem_foldl_insert {s t : Exceptions} {e : String} :
    e ∈ t.foldl (·.insert ·) s ↔ e ∈ s ∨ e ∈ t := by
  rw [Std.ExtTreeSet.foldl_eq_foldl_toList, ← Std.ExtTreeSet.insertMany_list_eq_foldl,
    Std.ExtTreeSet.mem_insertMany_list, List.contains_iff_mem, Std.ExtTreeSet.mem_toList]

theorem exceptionsOf_insert (entries : Entries) (m m' : MethodId) (s : Exceptions) :
    exceptionsOf (entries.insert m s) m' = if m = m' then s else entries.exceptionsOf m' := by
  unfold exceptionsOf
  rw [Std.ExtTreeMap.getElem?_insert]
  by_cases h : m = m' <;> simp [h]

theorem mem_exceptionsOf_add {entries : Entries} {m m' : MethodId} {s : Exceptions} {e : String} :
    e ∈ (entries.add m s).exceptionsOf m' ↔ (m = m' ∧ e ∈ s) ∨ e ∈ entries.exceptionsOf m' := by
  rw [add, exceptionsOf_insert]
  by_cases h : m = m'
  · subst h
    rw [if_pos rfl, mem_foldl_insert]
    simp [or_comm]
  · rw [if_neg h]
    simp [h]

theorem find?_toList (entries : Entries) (m : MethodId) :
    entries.toList.find? (·.1 == m) = (entries[m]?).map (m, ·) := by
  cases hfind : entries.toList.find? (·.1 == m) with
  | none =>
    cases hx : entries[m]? with
    | none => rfl
    | some x =>
      have hmem := Std.ExtTreeMap.mem_toList_iff_getElem?_eq_some.2 hx
      simpa using List.find?_eq_none.1 hfind _ hmem
  | some p =>
    obtain rfl : p.1 = m := by simpa using List.find?_some hfind
    have hmem := List.mem_of_find?_eq_some hfind
    rw [Std.ExtTreeMap.mem_toList_iff_getElem?_eq_some.1 hmem]
    rfl

/-- What a pass over entries makes of a state, seen through one method: if a step changes the view
of its own method only, then all that counts is the entry of the method. -/
theorem view_foldl {σ β : Type} {f : σ → MethodId → Exceptions → σ} (view : σ → MethodId → β)
    (step : MethodId → Exceptions → β → β)
    (hf : ∀ s m x m', view (f s m x) m' = if m = m' then step m x (view s m') else view s m')
    (entries : Entries) (s : σ) (m : MethodId) :
    view (entries.foldl f s) m =
      ((entries[m]?).map fun x => step m x (view s m)).getD (view s m) := by
  have hlist (l : List (MethodId × Exceptions)) (hl : l.Pairwise fun p q => p.1 ≠ q.1) (s : σ) :
      view (l.foldl (fun s p => f s p.1 p.2) s) m =
        ((l.find? (·.1 == m)).map fun p => step m p.2 (view s m)).getD (view s m) := by
    induction l generalizing s with
    | nil => rfl
    | cons p l ih =>
      obtain ⟨hp, hl⟩ := List.pairwise_cons.1 hl
      rw [List.foldl_cons, ih hl, hf]
      by_cases hm : p.1 = m
      · -- No later entry is of this method.
        have hnone : l.find? (·.1 == m) = none :=
          List.find?_eq_none.2 fun q hq => by simpa [← hm] using Ne.symm (hp q hq)
        simp [hnone, hm]
      · rw [List.find?_cons_of_neg (by simpa using hm), if_neg hm]
  have hdistinct : entries.toList.Pairwise fun p q => p.1 ≠ q.1 :=
    Std.ExtTreeMap.distinct_keys_toList.imp fun h => by simpa using h
  rw [Std.ExtTreeMap.foldl_eq_foldl_toList, hlist _ hdistinct, find?_toList, Option.map_map]
  rfl

theorem getElem?_union (a b : Entries) (m : MethodId) :
    (a.union b)[m]? =
      ((b[m]?).map fun x => some (x.foldl (·.insert ·) (a.exceptionsOf m))).getD a[m]? := by
  refine view_foldl (fun e m => e[m]?) (fun _ x old => some (x.foldl (·.insert ·) (old.getD ∅)))
    (fun s m x m' => ?_) b a m
  simp only [add, Std.ExtTreeMap.getElem?_insert, Std.compare_eq_iff_eq]
  split
  · simp_all [exceptionsOf]
  · rfl

theorem empty_union (b : Entries) : union ∅ b = b := by
  refine Std.ExtTreeMap.ext_getElem? fun m => ?_
  rw [getElem?_union]
  cases hx : b[m]? with
  | none => simp
  | some x =>
    have hself : x.foldl (·.insert ·) (exceptionsOf ∅ m) = x :=
      Std.ExtTreeSet.ext_mem fun e => by simp [mem_foldl_insert, exceptionsOf]
    simp [hself]

end Entries

end JvmThrows
