import JvmThrows.Analysis.CallSites
import JvmThrows.Proofs.LazyResolution

/-!
# What is discovered at calls

An analysis goes through the calls of a range one by one, asks a resolver that remembers what it
was asked before, and groups the answers by exception. `Reported` says what that is to amount to,
call by call and without a resolver: a discovery is reported if its call stands in the range, its
target is compiled, and its exception is one of the eager answer for the target.

The main statement, `analyze_eq_reported`, is that the discoveries are those that are reported, each
under its exception, if answers are eager answers (as in `answers_eq_eager`) and the index knows the
targets. So the order of the calls does not matter. There are discoveries at all only if none of the
searches for targets goes on for ever.

Discoveries are compared up to the spelling of paths. Of two that are the same in this sense the
first one is kept.
-/

namespace JvmThrows

/-! ### Grouping -/

namespace Discoveries

variable {found : Discoveries} {ds : List Discovery} {d x : Discovery} {e : String}

/-- What was discovered of an exception. -/
def of (found : Discoveries) (e : String) : Std.ExtTreeSet Discovery := (found[e]?).getD ∅

/-- The same exceptions with the same discoveries, up to the spelling of paths. -/
def Same (found found' : Discoveries) : Prop :=
  ∀ e, (e ∈ found ↔ e ∈ found') ∧ ∀ d, d ∈ found.of e ↔ d ∈ found'.of e

theorem mem_add_iff : e ∈ found.add d ↔ d.exception = e ∨ e ∈ found := by
  simp [add]

theorem of_add : (found.add d).of e =
    if d.exception = e then (found.of e).insert d else found.of e := by
  unfold add of
  rw [Std.ExtTreeMap.getElem?_insert]
  by_cases h : d.exception = e
  · subst h
    simp
  · simp [h]

theorem mem_foldl_add_iff :
    e ∈ ds.foldl add found ↔ (∃ d ∈ ds, d.exception = e) ∨ e ∈ found := by
  induction ds generalizing found with
  | nil => simp
  | cons d ds ih => simp [ih, mem_add_iff, or_assoc, or_left_comm]

theorem mem_of_foldl_add_iff :
    x ∈ (ds.foldl add found).of e ↔
      (∃ d ∈ ds, d.exception = e ∧ compare d x = .eq) ∨ x ∈ found.of e := by
  induction ds generalizing found with
  | nil => simp
  | cons d ds ih =>
    rw [List.foldl_cons, ih, of_add, List.exists_mem_cons_iff, or_assoc, or_left_comm]
    refine or_congr_right ?_
    by_cases h : d.exception = e
    · simp [h, Std.ExtTreeSet.mem_insert]
    · simp [h]

/-- What is kept was added as it is. -/
theorem mem_of_get?_foldl_add (h : ((ds.foldl add found).of e).get? x = some d) :
    d ∈ ds ∧ d.exception = e ∨ (found.of e).get? x = some d := by
  induction ds generalizing found with
  | nil => exact .inr h
  | cons a ds ih =>
    rcases ih h with ⟨hmem, he⟩ | hget
    · exact .inl ⟨List.mem_cons_of_mem a hmem, he⟩
    · rw [of_add] at hget
      split at hget
      · rename_i he
        rw [Std.ExtTreeSet.get?_insert] at hget
        split at hget
        · -- The new discovery takes the place of an equivalent one, with its own spelling.
          obtain rfl := Option.some.inj hget
          exact .inl ⟨List.mem_cons_self, he⟩
        · exact .inr hget
      · exact .inr hget

theorem get?_of_mem_toList {set : Std.ExtTreeSet Discovery} (h : d ∈ set.toList) :
    set.get? d = some d := by
  have hkeys : d ∈ set.inner.toList.map Prod.fst := by
    rw [Std.ExtTreeMap.map_fst_toList_eq_keys]
    exact h
  obtain ⟨row, hrow, rfl⟩ := List.mem_map.1 hkeys
  exact (Std.ExtTreeMap.mem_toList_iff_getKey?_eq_some_and_getElem?_eq_some.1 hrow).1

theorem compare_of_get? {set : Std.ExtTreeSet Discovery} (h : set.get? x = some d) :
    compare d x = .eq := by
  have hself := Std.ExtTreeSet.compare_get?_self (t := set) (k := x)
  rw [h] at hself
  simpa using hself

/-- Discoveries that are the same are equal if what they keep is. -/
theorem Same.eq {found' : Discoveries} (h : found.Same found')
    (hkept : ∀ e x d d', (found.of e).get? x = some d → (found'.of e).get? x = some d' → d = d') :
    found = found' := by
  have hof (e : String) : found.of e = found'.of e := by
    refine Std.ExtTreeSet.ext_get? fun x => ?_
    have hx := (h e).2 x
    rw [Std.ExtTreeSet.mem_iff_isSome_get?, Std.ExtTreeSet.mem_iff_isSome_get?] at hx
    cases hd : (found.of e).get? x with
    | none =>
      cases hd' : (found'.of e).get? x with
      | none => rfl
      -- Kept on one side only, against the hypothesis.
      | some d' => simp [hd, hd'] at hx
    | some d =>
      cases hd' : (found'.of e).get? x with
      | none => simp [hd, hd'] at hx
      | some d' => rw [hkept e x d d' hd hd']
  refine Std.ExtTreeMap.ext_getElem? fun e => ?_
  have he := (h e).1
  have hofe := hof e
  rw [Std.ExtTreeMap.mem_iff_isSome_getElem?, Std.ExtTreeMap.mem_iff_isSome_getElem?] at he
  unfold of at hofe
  -- The same sets do not suffice: an exception could have an empty one or none.
  cases hset : found[e]? with
  | none =>
    cases hset' : found'[e]? with
    | none => rfl
    | some set' => simp [hset, hset'] at he
  | some set =>
    cases hset' : found'[e]? with
    | none => simp [hset, hset'] at he
    | some set' => simpa [hset, hset'] using hofe

end Discoveries

namespace Analysis

/-! ### Contributions -/

section Contributions

variable {answer : MethodId → Eventually (Option Exceptions)} {call : Call} {target : Callable}
  {m : MethodId} {d : Discovery}

/-- What a call contributes, if questions have the given answers. -/
def contributions (answer : MethodId → Eventually (Option Exceptions)) (call : Call) :
    Eventually (List Discovery) :=
  match call.compiledTarget? with
  | none => some []
  | some (target, m, _) => do
    let exceptions ← answer m
    return (exceptions.getD ∅).toList.map fun e => ⟨e, call, target⟩

theorem compiledTarget?_eq_some_iff {container : Path} :
    call.compiledTarget? = some (target, m, container) ↔
      call.target = some target ∧ target.identity? = some m ∧
        target.origin.container? = some container := by
  simp only [Call.compiledTarget?, Option.bind_eq_bind, Option.bind_eq_some_iff, Option.pure_def,
    Option.some.injEq, Prod.mk.injEq]
  constructor
  · rintro ⟨target, ht, m, hm, container, hc, rfl, rfl, rfl⟩
    exact ⟨ht, hm, hc⟩
  · rintro ⟨ht, hm, hc⟩
    exact ⟨target, ht, m, hm, container, hc, rfl, rfl, rfl⟩

theorem isSome_contributions_iff :
    (contributions answer call).isSome = true ↔ ∀ target m container,
      call.compiledTarget? = some (target, m, container) → (answer m).isSome = true := by
  unfold contributions
  cases call.compiledTarget? with
  | none => simp
  | some row =>
    obtain ⟨target, m, container⟩ := row
    cases hanswer : answer m <;> simp [hanswer]

/-- What a call contributes, once the answer is there. -/
theorem mem_contributions_iff {ds : List Discovery} (hds : contributions answer call = some ds) :
    d ∈ ds ↔ d.call = call ∧ ∃ m container exceptions,
      call.compiledTarget? = some (d.target, m, container) ∧
        answer m = some (some exceptions) ∧ d.exception ∈ exceptions := by
  obtain ⟨e, call', target'⟩ := d
  unfold contributions at hds
  cases htarget : call.compiledTarget? with
  | none =>
    obtain rfl : [] = ds := by simpa [htarget] using hds
    simp
  | some row =>
    obtain ⟨target, m, container⟩ := row
    cases hanswer : answer m with
    | none => simp [htarget, hanswer] at hds
    | some found =>
      obtain rfl : ((found.getD ∅).toList.map fun e => (⟨e, call, target⟩ : Discovery)) = ds := by
        simpa [htarget, hanswer] using hds
      cases found with
      -- No answer and an empty one contribute the same.
      | none => simp [hanswer]
      | some exceptions =>
        simp only [Option.getD_some, List.mem_map, Std.ExtTreeSet.mem_toList,
          Discovery.mk.injEq, Option.some.injEq, Prod.mk.injEq]
        constructor
        · rintro ⟨e, he, rfl, rfl, rfl⟩
          exact ⟨rfl, m, container, exceptions, ⟨rfl, rfl, rfl⟩, hanswer, he⟩
        · rintro ⟨rfl, m', container', exceptions', ⟨rfl, rfl, rfl⟩, hanswer', he⟩
          obtain rfl := Option.some.inj (Option.some.inj (hanswer.symm.trans hanswer'))
          exact ⟨e, he, rfl, rfl, rfl⟩

end Contributions

/-! ### The run -/

section Run

variable {files : FileTree} {sources : Sources} {classpath : List ClasspathEntry}
  {index : ClasspathIndex} {s : Session} {m : MethodId}

section Unshared

variable (hindex : index = ClasspathIndex.build files classpath)
  (hunshared : Unshared files sources index)
include hindex hunshared

/-- A method that the index does not miss gets its answer, and its container is not looked into. -/
theorem Answering.exceptionsFor
    (h : Answering files sources classpath (keptAnswer files sources index) s)
    (hknown : keptAnswer files sources index m ≠ some none) (container : Option Path) :
    (Inquiry.exceptionsFor (inMemory sources) classpath m container s).map (·.1) =
        (keptAnswer files sources index m).map (·.getD ∅) ∧
      ∀ exceptions s',
        Inquiry.exceptionsFor (inMemory sources) classpath m container s = some (exceptions, s') →
        Answering files sources classpath (keptAnswer files sources index) s' := by
  obtain ⟨r, hr, -⟩ := h.resolver
  obtain ⟨hanswer, hnext⟩ := h.resolve hindex hunshared m
  have hindexed : ((ensureIndexed classpath : Analysis Unit) : Inquiry Unit) s = some ((), s) :=
    congrArg some (ensureIndexed_of_resolver hr classpath)
  rw [Inquiry.exceptionsFor, bind_some hindexed]
  cases hrun : Inquiry.resolve (inMemory sources) m s with
  | none =>
    rw [← hanswer, bind_none hrun, hrun]
    exact ⟨rfl, nofun⟩
  | some p =>
    obtain ⟨a, s1⟩ := p
    cases a with
    | none =>
      -- Without an answer the container would be scanned, and the session be another.
      rw [← hanswer, hrun] at hknown
      exact absurd rfl hknown
    | some exceptions =>
      rw [← hanswer, bind_some hrun, hrun]
      refine ⟨rfl, ?_⟩
      rintro _ _ ⟨⟩
      exact hnext _ _ hrun

/-- Going through calls adds what they contribute, whatever was asked before. -/
theorem Answering.discover
    (h : Answering files sources classpath (keptAnswer files sources index) s) (calls : List Call)
    (hknown : ∀ call ∈ calls, ∀ target m container,
      call.compiledTarget? = some (target, m, container) →
        keptAnswer files sources index m ≠ some none) (found : Discoveries) :
    (Inquiry.discover (inMemory sources) classpath found calls s).map (·.1) =
      (calls.mapM (contributions (keptAnswer files sources index))).map
        fun ds => ds.flatten.foldl .add found := by
  induction calls generalizing s found with
  | nil => rfl
  | cons call calls ih =>
    obtain ⟨hcall, hcalls⟩ := List.forall_mem_cons.1 hknown
    rw [Inquiry.discover, List.mapM_cons, contributions]
    cases htarget : call.compiledTarget? with
    | none =>
      dsimp only
      rw [ih h hcalls found]
      cases calls.mapM (contributions (keptAnswer files sources index)) <;> rfl
    | some row =>
      obtain ⟨target, m, container⟩ := row
      obtain ⟨hanswer, hnext⟩ := h.exceptionsFor hindex hunshared
        (hcall target m container htarget) (some container)
      dsimp only
      -- The calls behind this one are gone through only if it gets its answer.
      cases hrun : Inquiry.exceptionsFor (inMemory sources) classpath m (some container) s with
      | none =>
        rw [hrun, Option.map_none, eq_comm, Option.map_eq_none_iff] at hanswer
        rw [bind_none hrun, hanswer]
        rfl
      | some p =>
        obtain ⟨exceptions, s1⟩ := p
        rw [hrun, Option.map_some, eq_comm, Option.map_eq_some_iff] at hanswer
        obtain ⟨a, hanswer, rfl⟩ := hanswer
        rw [bind_some hrun, ih (hnext _ s1 hrun) hcalls, hanswer]
        cases calls.mapM (contributions (keptAnswer files sources index)) with
        | none => rfl
        | some ds => simp [List.foldl_map]

end Unshared

/-- The index knows a declaration for each compiled target of a call in the range. -/
def KnowsTargets (index : ClasspathIndex) (manifest : CallManifest) (start stop : Nat) : Prop :=
  ∀ call ∈ manifest.calls, start ≤ call.offset → call.offset < stop →
    ∀ target m, call.target = some target → target.identity? = some m →
      target.origin.isCompiled = true →
      (index.class? m.owner).isSome = true ∧
        ∃ n, Relation.ReflTransGen index.Extends m.owner n ∧ index.Declares m n

variable {manifest : CallManifest} {start stop : Nat}

theorem mem_callsIn_iff {call : Call} :
    call ∈ manifest.callsIn start stop ↔
      call ∈ manifest.calls ∧ start ≤ call.offset ∧ call.offset < stop := by
  simp [CallManifest.callsIn]

/-- A declaration that is known is found, if the search for it ends. -/
theorem unionFor_ne_none (hindex : index = ClasspathIndex.build files classpath)
    (results : MethodId → Exceptions) (howner : (index.class? m.owner).isSome = true) {n : String}
    (hn : Relation.ReflTransGen index.Extends m.owner n) (hdecl : index.Declares m n) :
    unionFor index results m ≠ some none := by
  subst hindex
  intro h
  have htargets : (ClasspathIndex.build files classpath).targets? m = some none := by
    obtain ⟨found, hfound, hnone⟩ := Option.bind_eq_some_iff.1 h
    rw [hfound, Option.map_eq_none_iff.1 (Option.some.inj hnone)]
  obtain ⟨owner, howner⟩ := Option.isSome_iff_exists.1 howner
  exact (ClasspathIndex.coherent_build files classpath).not_declares_of_declaration? howner
    (ClasspathIndex.targets?_eq_none_iff.1 htargets owner howner) hn hdecl

/-- An analysis collects what the calls of the range contribute with eager answers. -/
theorem analyze_eq_contributions
    (hkeys : ∀ n ∈ (ClasspathIndex.build files classpath).classes,
      Cache.key (Cache.key n) = Cache.key n)
    (hapart : ∀ n n' e e',
      (ClasspathIndex.build files classpath).containerOf? n = some e →
      (ClasspathIndex.build files classpath).containerOf? n' = some e' →
      Cache.key n = Cache.key n' → e = e')
    (hknown : KnowsTargets (ClasspathIndex.build files classpath) manifest start stop) :
    (Inquiry.analyze (inMemory sources) classpath manifest start stop
        { world := { files } }).map (·.1) =
      ((manifest.callsIn start stop).mapM (contributions
        (eager files sources (ClasspathIndex.build files classpath)))).map
          fun ds => ds.flatten.foldl .add ∅ := by
  have hstart := answering_started files sources classpath
    (keptAnswer files sources (ClasspathIndex.build files classpath))
  have hrun := hstart.discover rfl (unshared_of_apart hkeys hapart)
    (manifest.callsIn start stop) (fun call hcall target m container htarget => by
      obtain ⟨hmem, hle, hlt⟩ := mem_callsIn_iff.1 hcall
      obtain ⟨ht, hm, hc⟩ := compiledTarget?_eq_some_iff.1 htarget
      obtain ⟨howner, n, hn, hdecl⟩ :=
        hknown call hmem hle hlt target m ht hm (by simp [Origin.isCompiled, hc])
      exact unionFor_ne_none rfl _ howner hn hdecl) ∅
  rw [keptAnswer_eq_eager hkeys] at hrun
  unfold Inquiry.analyze
  split
  · -- Without calls the index is not even built.
    rename_i hempty
    rw [List.isEmpty_iff.1 hempty]
    rfl
  · exact hrun

/-- A discovery at a call of the range, whose target is compiled and may throw the exception. -/
structure Reported (files : FileTree) (sources : Sources) (index : ClasspathIndex)
    (manifest : CallManifest) (start stop : Nat) (d : Discovery) : Prop where
  mem_calls : d.call ∈ manifest.calls
  start_le : start ≤ d.call.offset
  lt_stop : d.call.offset < stop
  target_eq : d.call.target = some d.target
  archive : ∃ container entry, d.target.origin = .archive container entry
  mem_eager : ∃ m exceptions, d.target.identity? = some m ∧
    eager files sources index m = some (some exceptions) ∧ d.exception ∈ exceptions

theorem reported_iff {ds : List (List Discovery)}
    (hds : (manifest.callsIn start stop).mapM (contributions (eager files sources index)) =
      some ds) {d : Discovery} :
    Reported files sources index manifest start stop d ↔ d ∈ ds.flatten := by
  have hmem : d ∈ ds.flatten ↔ ∃ call ∈ manifest.callsIn start stop, d.call = call ∧
      ∃ m container exceptions, call.compiledTarget? = some (d.target, m, container) ∧
        eager files sources index m = some (some exceptions) ∧ d.exception ∈ exceptions := by
    rw [mapM_eq_some_iff] at hds
    constructor
    · intro hd
      obtain ⟨row, hrow, hd⟩ := List.mem_flatten.1 hd
      obtain ⟨call, hcall, hcontributes⟩ := List.mem_map.1 (hds ▸ List.mem_map_of_mem hrow)
      exact ⟨call, hcall, (mem_contributions_iff hcontributes).1 hd⟩
    · rintro ⟨call, hcall, hd⟩
      obtain ⟨row, hrow, hcontributes⟩ := List.mem_map.1 (hds ▸ List.mem_map_of_mem hcall)
      exact List.mem_flatten.2 ⟨row, hrow, (mem_contributions_iff hcontributes.symm).2 hd⟩
  rw [hmem]
  simp only [mem_callsIn_iff, compiledTarget?_eq_some_iff]
  constructor
  · rintro ⟨hmem, hle, hlt, ht, ⟨container, entry, horigin⟩, m, exceptions, hm, hanswer, he⟩
    exact ⟨d.call, ⟨hmem, hle, hlt⟩, rfl, m, container, exceptions,
      ⟨ht, hm, by rw [horigin]; rfl⟩, hanswer, he⟩
  · rintro ⟨call, ⟨hmem, hle, hlt⟩, rfl, m, container, exceptions, ⟨ht, hm, hc⟩, hanswer, he⟩
    refine ⟨hmem, hle, hlt, ht, ?_, m, exceptions, hm, hanswer, he⟩
    cases horigin : d.target.origin with
    | archive container entry => exact ⟨container, entry, rfl⟩
    -- Source files have no container.
    | source path =>
      rw [horigin] at hc
      cases hc

/-- Reported discoveries that are the same are equal if calls that are the same are. -/
theorem Reported.eq {d d' : Discovery}
    (hcalls : ∀ c ∈ manifest.calls, ∀ c' ∈ manifest.calls, compare c c' = .eq → c = c')
    (h : Reported files sources index manifest start stop d)
    (h' : Reported files sources index manifest start stop d') (heq : compare d d' = .eq) :
    d = d' := by
  obtain ⟨e, call, target⟩ := d
  obtain ⟨e', call', target'⟩ := d'
  have heq : (compare e e').then ((compare call call').then (compare target target')) = .eq := heq
  rw [Ordering.then_eq_eq, Ordering.then_eq_eq] at heq
  obtain ⟨hexception, hcall, -⟩ := heq
  obtain rfl : e = e' := Std.LawfulEqOrd.eq_of_compare hexception
  obtain rfl : call = call' := hcalls call h.mem_calls call' h'.mem_calls hcall
  obtain rfl : target = target' := Option.some.inj (h.target_eq.symm.trans h'.target_eq)
  rfl

theorem Reported.perm {d : Discovery} {calls : List Call} (hperm : calls.Perm manifest.calls) :
    Reported files sources index ⟨calls⟩ start stop d ↔
      Reported files sources index manifest start stop d := by
  constructor
  · rintro ⟨hmem, hle, hlt, ht, harchive, heager⟩
    exact ⟨hperm.mem_iff.1 hmem, hle, hlt, ht, harchive, heager⟩
  · rintro ⟨hmem, hle, hlt, ht, harchive, heager⟩
    exact ⟨hperm.mem_iff.2 hmem, hle, hlt, ht, harchive, heager⟩

/-- Discoveries are those that are reported, up to the spelling of paths. -/
structure Collects (found : Discoveries) (reported : Discovery → Prop) : Prop where
  mem_iff : ∀ e, e ∈ found ↔ ∃ d, reported d ∧ d.exception = e
  mem_of_iff : ∀ e d, d ∈ found.of e ↔ ∃ d', reported d' ∧ d'.exception = e ∧ compare d' d = .eq
  kept : ∀ e d d', (found.of e).get? d = some d' → reported d' ∧ d'.exception = e

theorem collects_foldl_add (ds : List Discovery) : Collects (ds.foldl .add ∅) (· ∈ ds) where
  mem_iff e := by simp [Discoveries.mem_foldl_add_iff]
  mem_of_iff e d := by
    rw [Discoveries.mem_of_foldl_add_iff]
    simp [Discoveries.of]
  kept e d d' h := (Discoveries.mem_of_get?_foldl_add h).resolve_right (by simp [Discoveries.of])

theorem Collects.same {found found' : Discoveries} {reported reported' : Discovery → Prop}
    (h : Collects found reported) (h' : Collects found' reported')
    (hiff : ∀ d, reported d ↔ reported' d) : found.Same found' := by
  intro e
  refine ⟨?_, fun d => ?_⟩
  · rw [h.mem_iff, h'.mem_iff]
    simp only [hiff]
  · rw [h.mem_of_iff, h'.mem_of_iff]
    simp only [hiff]

theorem KnowsTargets.perm {calls : List Call} (hperm : calls.Perm manifest.calls)
    (h : KnowsTargets index manifest start stop) : KnowsTargets index ⟨calls⟩ start stop :=
  fun call hcall => h call (hperm.mem_iff.1 hcall)

/-- All searches for targets of compiled calls in the range come to an end. -/
def SearchesEnd (index : ClasspathIndex) (manifest : CallManifest) (start stop : Nat) : Prop :=
  ∀ call ∈ manifest.calls, start ≤ call.offset → call.offset < stop →
    ∀ target m, call.target = some target → target.identity? = some m →
      target.origin.isCompiled = true → (index.targets? m).isSome = true

/-- What a call contributes is known if the search for its targets ends. -/
theorem isSome_mapM_contributions_iff (files : FileTree) (sources : Sources) :
    ((manifest.callsIn start stop).mapM (contributions (eager files sources index))).isSome = true ↔
      SearchesEnd index manifest start stop := by
  simp only [isSome_mapM_iff, isSome_contributions_iff, eager, isSome_unionFor, mem_callsIn_iff,
    compiledTarget?_eq_some_iff]
  constructor
  · intro h call hmem hle hlt target m ht hm hcompiled
    obtain ⟨container, hc⟩ := Option.isSome_iff_exists.1 hcompiled
    exact h call ⟨hmem, hle, hlt⟩ target m container ⟨ht, hm, hc⟩
  · rintro h call ⟨hmem, hle, hlt⟩ target m container ⟨ht, hm, hc⟩
    exact h call hmem hle hlt target m ht hm (by simp [Origin.isCompiled, hc])

/-- **What is discovered at calls.** If answers are eager answers and the index knows the compiled
targets of a range, an analysis that starts with nothing comes to an end exactly if all searches for
targets do, as they always do if no class is a superclass of itself. It then has discoveries of
exactly the exceptions that are reported, these are exactly the reported ones up to the spelling of
paths, and what is kept was reported as it is. Calls may be listed in any order: the discoveries are
the same, and they are equal unless calls differ in the spelling of paths only. -/
theorem analyze_eq_reported (files : FileTree) (sources : Sources)
    (classpath : List ClasspathEntry) (manifest : CallManifest) (start stop : Nat)
    (hkeys : ∀ n ∈ (ClasspathIndex.build files classpath).classes,
      Cache.key (Cache.key n) = Cache.key n)
    (hapart : ∀ n n' e e',
      (ClasspathIndex.build files classpath).containerOf? n = some e →
      (ClasspathIndex.build files classpath).containerOf? n' = some e' →
      Cache.key n = Cache.key n' → e = e')
    (hknown : KnowsTargets (ClasspathIndex.build files classpath) manifest start stop) :
    let index := ClasspathIndex.build files classpath
    let found (manifest : CallManifest) : Eventually Discoveries :=
      (Inquiry.analyze (inMemory sources) classpath manifest start stop
        { world := { files } }).map (·.1)
    let reported := Reported files sources index manifest start stop
    (index.Acyclic → SearchesEnd index manifest start stop) ∧
    (SearchesEnd index manifest start stop ↔ ∃ ds, found manifest = some ds) ∧
    ∀ ds, found manifest = some ds →
      (∀ e, e ∈ ds ↔ ∃ d, reported d ∧ d.exception = e) ∧
      (∀ e d, d ∈ ds.of e ↔ ∃ d', reported d' ∧ d'.exception = e ∧ compare d' d = .eq) ∧
      (∀ e, ∀ d ∈ (ds.of e).toList, reported d ∧ d.exception = e) ∧
      ∀ calls, calls.Perm manifest.calls → ∃ ds', found ⟨calls⟩ = some ds' ∧ ds'.Same ds ∧
        ((∀ c ∈ manifest.calls, ∀ c' ∈ manifest.calls, compare c c' = .eq → c = c') →
          ds' = ds) := by
  intro index found reported
  have hends (manifest : CallManifest) (hknown : KnowsTargets index manifest start stop) :
      SearchesEnd index manifest start stop ↔ ∃ ds, found manifest = some ds := by
    rw [← isSome_mapM_contributions_iff files sources, ← Option.isSome_iff_exists,
      show found manifest = _ from analyze_eq_contributions hkeys hapart hknown, Option.isSome_map]
  have hcollects (manifest : CallManifest) (hknown : KnowsTargets index manifest start stop)
      (ds : Discoveries) (hds : found manifest = some ds) :
      Collects ds (Reported files sources index manifest start stop) := by
    rw [show found manifest = _ from analyze_eq_contributions hkeys hapart hknown] at hds
    obtain ⟨rows, hrows, rfl⟩ := Option.map_eq_some_iff.1 hds
    have hreported : Reported files sources index manifest start stop = (· ∈ rows.flatten) :=
      funext fun _ => propext (reported_iff hrows)
    rw [hreported]
    exact collects_foldl_add _
  refine ⟨fun hacyclic call _ _ _ target m _ _ _ =>
      Option.isSome_iff_exists.2 (hacyclic.exists_targets? m),
    hends manifest hknown, fun ds hds => ?_⟩
  have hmanifest := hcollects manifest hknown ds hds
  refine ⟨hmanifest.mem_iff, hmanifest.mem_of_iff, fun e d hd =>
    hmanifest.kept e d d (Discoveries.get?_of_mem_toList hd), fun calls hperm => ?_⟩
  obtain ⟨ds', hds'⟩ := (hends ⟨calls⟩ (hknown.perm hperm)).1 fun call hcall =>
    (hends manifest hknown).2 ⟨ds, hds⟩ call (hperm.mem_iff.1 hcall)
  have hcalls := hcollects ⟨calls⟩ (hknown.perm hperm) ds' hds'
  have hsame := hcalls.same hmanifest fun _ => Reported.perm hperm
  refine ⟨ds', hds', hsame, fun hdistinct => hsame.eq fun e x d d' hd hd' => ?_⟩
  have heq : compare d d' = .eq :=
    Std.TransCmp.eq_trans (Discoveries.compare_of_get? hd)
      (Std.OrientedCmp.eq_symm (Discoveries.compare_of_get? hd'))
  exact Reported.eq hdistinct ((Reported.perm hperm).1 (hcalls.kept e x d hd).1)
    (hmanifest.kept e x d' hd').1 heq

end Run

/-! ### Calls into two jars -/

/-- A static method of a class in a jar, as an editor gives it. -/
def nativeTarget (owner jar : String) : Callable where
  dialect := .java
  owner := some owner
  name := "f"
  parameterTypes := []
  returnType := none
  typeParameters := []
  modifiers := { isStatic := true }
  origin := .archive ⟨jar⟩ (owner ++ ".class")

def nativeCalls : List Call :=
  [⟨30, "B.f()", some (nativeTarget "a.B" "/a.jar")⟩,
    ⟨10, "D.f()", some (nativeTarget "c.D" "/b.jar")⟩]

theorem target_of_mem_nativeCalls {call : Call} (h : call ∈ nativeCalls) :
    ∃ target n, (n = "a/B" ∨ n = "c/D") ∧ call.offset < 50 ∧ call.target = some target ∧
      target.identity? = some (nativeMethod (ClassName.toBinary n)) ∧
      ∃ container entry, target.origin = .archive container entry := by
  simp only [nativeCalls, List.mem_cons, List.not_mem_nil, or_false] at h
  rcases h with rfl | rfl
  · exact ⟨_, "a/B", .inl rfl, by decide, rfl, by decide +kernel, _, _, rfl⟩
  · exact ⟨_, "c/D", .inr rfl, by decide, rfl, by decide +kernel, _, _, rfl⟩

theorem knowsTargets_twoJars :
    KnowsTargets (ClasspathIndex.build (twoJars "a/B" "c/D") twoEntries) ⟨nativeCalls⟩ 0 50 := by
  intro call hcall _ _ target m htarget hm _
  obtain ⟨target', n, hn, -, htarget', hm', -⟩ := target_of_mem_nativeCalls hcall
  obtain rfl : target = target' := Option.some.inj (htarget.symm.trans htarget')
  obtain rfl := Option.some.inj (hm.symm.trans hm')
  obtain ⟨owner, x, howner, hx⟩ := ClasspathIndex.exists_declaration?_of_targets? (targets?_twoJars
    (jarClasses_nativeJar (by decide)) (jarClasses_nativeJar (by decide)) (by decide +kernel) hn)
  obtain ⟨hc, hdecl, hup⟩ := ClasspathIndex.declaration?_found howner hx
  exact ⟨Option.isSome_of_eq_some howner, _, hup, _, _, hc, hdecl⟩

theorem reported_twoJars {call : Call} (h : call ∈ nativeCalls) :
    ∃ target, call.target = some target ∧
      Reported (twoJars "a/B" "c/D") {} (ClasspathIndex.build (twoJars "a/B" "c/D") twoEntries)
        ⟨nativeCalls⟩ 0 50 ⟨"x.E", call, target⟩ := by
  obtain ⟨target, n, hn, hoffset, htarget, hm, harchive⟩ := target_of_mem_nativeCalls h
  have heager := eager_twoJars (jarClasses_nativeJar (by decide))
    (jarClasses_nativeJar (by decide)) (by decide +kernel) hn
  exact ⟨target, htarget, h, Nat.zero_le _, hoffset, htarget, harchive, _, _, hm, heager, by simp⟩

/-- Both jars are asked, and each call is a discovery of its own. -/
theorem analyze_twoJars :
    (∀ n ∈ (ClasspathIndex.build (twoJars "a/B" "c/D") twoEntries).classes,
      Cache.key (Cache.key n) = Cache.key n) ∧
    (∀ n n' e e',
      (ClasspathIndex.build (twoJars "a/B" "c/D") twoEntries).containerOf? n = some e →
      (ClasspathIndex.build (twoJars "a/B" "c/D") twoEntries).containerOf? n' = some e' →
      Cache.key n = Cache.key n' → e = e') ∧
    KnowsTargets (ClasspathIndex.build (twoJars "a/B" "c/D") twoEntries) ⟨nativeCalls⟩ 0 50 ∧
    ∃ ds, (Inquiry.analyze (inMemory {}) twoEntries ⟨nativeCalls⟩ 0 50
        { world := { files := twoJars "a/B" "c/D" } }).map (·.1) = some ds ∧
      "x.E" ∈ ds ∧
      ∀ call ∈ nativeCalls, ∃ target, call.target = some target ∧
        ⟨"x.E", call, target⟩ ∈ ds.of "x.E" := by
  obtain ⟨hkeys, hapart⟩ := apart_twoJars
  obtain ⟨hends, hiff, hfound⟩ := analyze_eq_reported (twoJars "a/B" "c/D") {} twoEntries
    ⟨nativeCalls⟩ 0 50 hkeys hapart knowsTargets_twoJars
  obtain ⟨ds, hds⟩ := hiff.1 (hends (acyclic_twoJars (jarClasses_nativeJar (by decide))
    (jarClasses_nativeJar (by decide)) (by decide +kernel) (by decide +kernel)))
  obtain ⟨hexceptions, hdiscoveries, -⟩ := hfound ds hds
  refine ⟨hkeys, hapart, knowsTargets_twoJars, ds, hds, ?_, fun call hcall => ?_⟩
  · obtain ⟨target, -, h⟩ := reported_twoJars List.mem_cons_self
    exact (hexceptions "x.E").2 ⟨_, h, rfl⟩
  · obtain ⟨target, htarget, h⟩ := reported_twoJars hcall
    exact ⟨target, htarget, (hdiscoveries "x.E" _).2 ⟨_, h, rfl, Std.ReflCmp.compare_self⟩⟩

end Analysis

end JvmThrows
