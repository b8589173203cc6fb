import JvmThrows.Analysis.Scan
import JvmThrows.Proofs.CallChains
import JvmThrows.Proofs.Keys

/-!
# Results by key

Grouping the results for the classes of a container loses nothing and adds nothing: the groups are
for the keys of the classes (`mem_ofClasses_iff`), and a method has its result in the group of its
class and in no other (`getElem?_ofClasses`).
-/

namespace JvmThrows

variable {sources : Sources} {classes : List ClassFile}

namespace Groups

/-- The result for a method in a group. -/
def result? (groups : Groups) (key : String) (m : MethodId) : Option Exceptions :=
  (groups[key]?).bind (·[m]?)

theorem result?_reserve (groups : Groups) (k key : String) (m : MethodId) :
    (groups.reserve k).result? key m = groups.result? key m := by
  unfold result? reserve
  rw [Std.ExtTreeMap.getElem?_insert]
  -- A key that is there keeps its results, and a new one has none yet.
  by_cases hk : k = key
  · subst hk
    cases groups[k]? <;> simp
  · simp [hk]

theorem result?_record (groups : Groups) (key : String) (m m' : MethodId) (x : Exceptions) :
    (groups.record m x).result? key m' =
      if m = m' then (if Cache.key m.owner = key then some x else groups.result? key m')
      else groups.result? key m' := by
  unfold result? record
  rw [Std.ExtTreeMap.getElem?_insert]
  -- A result is recorded under the key of its method only.
  by_cases hk : Cache.key m.owner = key
  · subst hk
    by_cases hm : m = m'
    · simp [hm]
    · cases groups[Cache.key m.owner]? <;> simp [hm, Std.ExtTreeMap.getElem?_insert]
  · simp [hk]

theorem mem_reserve_iff {groups : Groups} {k key : String} :
    key ∈ groups.reserve k ↔ k = key ∨ key ∈ groups := by
  simp [reserve]

theorem mem_record_iff {groups : Groups} {m : MethodId} {x : Exceptions} {key : String} :
    key ∈ groups.record m x ↔ Cache.key m.owner = key ∨ key ∈ groups := by
  simp [record]

theorem mem_foldl_reserve_iff {groups : Groups} {key : String} (cs : List ClassFile) :
    key ∈ cs.foldl (fun g c => reserve g (Cache.key (ClassName.toBinary c.name))) groups ↔
      (∃ c ∈ cs, Cache.key (ClassName.toBinary c.name) = key) ∨ key ∈ groups := by
  induction cs generalizing groups with
  | nil => simp
  | cons c cs ih => simp [ih, mem_reserve_iff, or_assoc, or_left_comm]

theorem mem_foldl_record_iff {groups : Groups} {key : String} (entries : Entries) :
    key ∈ entries.foldl record groups ↔
      (∃ m ∈ entries, Cache.key m.owner = key) ∨ key ∈ groups := by
  have hlist (l : List (MethodId × Exceptions)) (groups : Groups) :
      key ∈ l.foldl (fun g p => record g p.1 p.2) groups ↔
        (∃ p ∈ l, Cache.key p.1.owner = key) ∨ key ∈ groups := by
    induction l generalizing groups with
    | nil => simp
    | cons p l ih => simp [ih, mem_record_iff, or_assoc, or_left_comm]
  rw [Std.ExtTreeMap.foldl_eq_foldl_toList, hlist]
  simp only [Prod.exists, Std.ExtTreeMap.mem_toList_iff_getElem?_eq_some, exists_and_right,
    Std.ExtTreeMap.mem_iff_isSome_getElem?, Option.isSome_iff_exists]

/-- The groups are for the keys of the classes. -/
theorem mem_ofClasses_iff {key : String} :
    key ∈ ofClasses sources classes ↔
      ∃ c ∈ classes, Cache.key (ClassName.toBinary c.name) = key := by
  unfold ofClasses
  rw [mem_foldl_record_iff, mem_foldl_reserve_iff]
  constructor
  · rintro (⟨m, hm, rfl⟩ | h | h)
    · -- Methods have the keys of their classes, which are all reserved.
      obtain ⟨c, hc, m, -, rfl⟩ := mem_extract_iff.1 hm
      exact ⟨c, hc, rfl⟩
    · exact h
    · simp at h
  · exact fun h => .inr (.inl h)

/-- A method has its result in the group of its class and in no other. -/
theorem result?_ofClasses (sources : Sources) (classes : List ClassFile) (key : String)
    (m : MethodId) :
    (ofClasses sources classes).result? key m =
      if Cache.key m.owner = key then (extract sources classes)[m]? else none := by
  have hempty (cs : List ClassFile) (groups : Groups) :
      (cs.foldl (fun g c => reserve g (Cache.key (ClassName.toBinary c.name))) groups).result?
        key m = groups.result? key m := by
    induction cs generalizing groups with
    | nil => rfl
    | cons c cs ih => rw [List.foldl_cons, ih, result?_reserve]
  unfold ofClasses
  rw [Entries.view_foldl (fun g m => result? g key m)
    (fun m x old => if Cache.key m.owner = key then some x else old)
    (fun g m x m' => result?_record g key m m' x), hempty]
  have hnone : result? (∅ : Groups) key m = none := by simp [result?]
  rw [hnone]
  by_cases hk : Cache.key m.owner = key
  · cases (extract sources classes)[m]? <;> simp [hk]
  · cases (extract sources classes)[m]? <;> simp [hk]

/-- What the group of a key has for a method. -/
theorem getElem?_group (sources : Sources) (classes : List ClassFile) (key : String)
    (m : MethodId) :
    (((ofClasses sources classes)[key]?).getD ∅)[m]? =
      if Cache.key m.owner = key then (extract sources classes)[m]? else none := by
  rw [← result?_ofClasses, result?]
  cases (ofClasses sources classes)[key]? <;> simp

theorem mem_group {sources : Sources} {classes : List ClassFile} {key : String} {m : MethodId} :
    m ∈ ((ofClasses sources classes)[key]?).getD ∅ ↔
      Cache.key m.owner = key ∧ m ∈ extract sources classes := by
  simp only [Std.ExtTreeMap.mem_iff_isSome_getElem?, getElem?_group]
  by_cases hm : Cache.key m.owner = key <;> simp [hm]

theorem mem_exceptionsOf_group {sources : Sources} {classes : List ClassFile} {key : String}
    {m : MethodId} {e : String} :
    e ∈ (((ofClasses sources classes)[key]?).getD ∅).exceptionsOf m ↔
      Cache.key m.owner = key ∧ e ∈ (extract sources classes).exceptionsOf m := by
  simp only [Entries.exceptionsOf, getElem?_group]
  by_cases hm : Cache.key m.owner = key <;> simp [hm]

/-- The group of its class has the exceptions of a method. -/
theorem exceptionsOf_ofClasses (sources : Sources) (classes : List ClassFile) (m : MethodId) :
    (((ofClasses sources classes)[Cache.key m.owner]?).getD ∅).exceptionsOf m =
      (extract sources classes).exceptionsOf m := by
  rw [Entries.exceptionsOf, Entries.exceptionsOf, getElem?_group, if_pos rfl]

end Groups

end JvmThrows
