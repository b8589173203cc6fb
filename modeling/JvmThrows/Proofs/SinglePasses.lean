import JvmThrows.Proofs.HeaderChecks
import JvmThrows.Proofs.LazyResolution

/-!
# Containers are passed through once

A resolver passes through a container when it misses results, and notes it whether or not the pass
succeeds. A session has the list of all passes, failed ones included (`Session.reads`). The main
statement, `passes_once`, is about runs of a resolver between indexing and forgetting, in which
others may change the world at any time: no container is added to the list twice. A question adds
nothing if the keys of its targets were ensured or are found in the store, as long as finding
something leaves the store as it is (`Store.Quiet`), which holds of both kinds of stores.

A question whose targets are looked for for ever passes through nothing, since targets come first.
So it is enough to speak of runs that come to an end, and of any run up to such a question.
-/

namespace JvmThrows

/-! ### Finding something -/

/-- To find something changes nothing. -/
def Store.Quiet {σ : Type} (store : Store σ) : Prop :=
  ∀ c s, (store.contains c s).1 = true → store.contains c s = (true, s)

theorem Store.Quiet.within {σ τ : Type} {store : Store σ} (h : store.Quiet) {part : τ → σ}
    {update : σ → τ → τ} (hupdate : ∀ t, update (part t) t = t) :
    (store.within part update).Quiet := by
  intro c t hfound
  have hrun := h c (part t) hfound
  show onPart part update (store.contains c) t = (true, t)
  rw [onPart, hrun]
  exact congrArg (Prod.mk true) (hupdate t)

theorem Memory.quiet_store : Memory.store.inMemory.Quiet :=
  Store.Quiet.within (fun _ _ h => Prod.ext h rfl) fun _ => rfl

theorem Cache.Directory.quiet_store (root : Path) : (Directory.store root).inFiles.Quiet := by
  refine Store.Quiet.within (fun c tree h => ?_) fun _ => rfl
  rcases contains_cases root c tree with ⟨-, hrun⟩ | ⟨-, hrun⟩
  · exact hrun
  · -- The tree changes only where a document is refused, and nothing is found.
    have hfound : (contains root c tree).1 = true := h
    rw [hrun] at hfound
    cases hfound

namespace Analysis

variable {α β ε : Type} {setup : Setup} {r : Resolver} {s : Session}

/-! ### What is read -/

/-- Reads no container. -/
def Scanless (x : Analysis α) : Prop := ∀ s, (x s).2.reads = s.reads

theorem scanless_pure (a : α) : Scanless (pure a) := fun _ => rfl

theorem scanless_onWorld (run : StateM World α) : Scanless (onWorld run) := fun _ => rfl

theorem Scanless.bind {x : Analysis α} {f : α → Analysis β} (hx : Scanless x)
    (hf : ∀ a, Scanless (f a)) : Scanless (x >>= f) :=
  fun s => (hf _ _).trans (hx s)

theorem Scanless.bind_attempt {x : ExceptT ε Analysis α} {f : α → ExceptT ε Analysis β}
    (hx : Scanless x.run) (hf : ∀ a, Scanless (f a).run) : Scanless (x >>= f).run := by
  have hnext (result : Except ε α) : Scanless (ExceptT.bindCont f result) := by
    cases result with
    | error e => exact scanless_pure _
    | ok a => exact hf a
  exact Scanless.bind hx hnext

theorem scanless_keysToWrite (setup : Setup) (wanted keys : List String) :
    Scanless (keysToWrite setup wanted keys) := by
  induction keys with
  | nil => exact scanless_pure _
  | cons key keys ih =>
    have hrest (needed : Bool) : Scanless (do
        let keys ← keysToWrite setup wanted keys
        return if needed then key :: keys else keys) := ih.bind fun _ => scanless_pure _
    unfold keysToWrite
    dsimp only
    -- Wanted keys are written without looking them up.
    split
    · exact (scanless_pure _).bind hrest
    · exact (scanless_onWorld _).bind fun _ => (scanless_pure _).bind hrest

theorem scanless_unionOf (setup : Setup) (found : Exceptions) (targets : List MethodId) :
    Scanless (unionOf setup found targets) := by
  induction targets generalizing found with
  | nil => exact scanless_pure _
  | cons t targets ih => exact (scanless_onWorld _).bind fun _ => ih _

theorem scanless_findMissing (setup : Setup) (r : Resolver) (missing : Missing)
    (targets : List MethodId) :
    Scanless (findMissing setup r missing targets) := by
  induction targets generalizing r missing with
  | nil => exact scanless_pure _
  | cons t targets ih =>
    unfold findMissing
    dsimp only
    split
    · exact ih _ _
    · refine (scanless_onWorld _).bind fun cached => ?_
      split
      · exact ih _ _
      · exact ih _ _

theorem scanless_write (setup : Setup) (rows : List (String × Entries)) :
    Scanless (write setup rows).run := by
  induction rows with
  | nil => exact scanless_pure _
  | cons row rows ih =>
    refine Scanless.bind_attempt (Scanless.bind_attempt ?_ fun result => ?_) fun _ => ih
    · exact (scanless_onWorld _).bind fun _ => scanless_pure _
    · cases result with
      | error e => exact scanless_pure _
      | ok _ => exact scanless_pure _

/-- A pass reads its container once, whether or not it succeeds. -/
theorem reads_scanClasses (setup : Setup) (container : ClasspathEntry) (keys : List String)
    (s : Session) :
    (scanClasses setup container keys false s).2.reads = s.reads ++ [container] := by
  unfold scanClasses
  cases hclasses : container.classes s.world.files with
  -- The container counts as read even if reading it fails.
  | error cause =>
    have hread : readContainer container s =
        (.error (.containerUnavailable container.path cause),
          { s with reads := s.reads ++ [container] }) := by
      simp [readContainer, hclasses]
    rw [bind_error hread]
  | ok classes =>
    have hread : readContainer container s =
        (.ok classes, { s with reads := s.reads ++ [container] }) := by
      simp [readContainer, hclasses]
    rw [bind_ok hread, if_neg Bool.false_ne_true]
    -- From here on the store is written to, and no container is read.
    exact Scanless.bind_attempt (scanless_pure _)
      (fun more => Scanless.bind_attempt (scanless_write setup _) fun _ => scanless_pure _)
      { s with reads := s.reads ++ [container] }

/-! ### What is missing -/

section Missing

/-- The containers that are missing for targets. -/
def missingFor (setup : Setup) (r : Resolver) (targets : List MethodId) (s : Session) :
    List ClasspathEntry :=
  (findMissing setup r ∅ targets s).1.2.toList.map (·.1)

/-- What passes through containers do to a resolver and its session. -/
structure Passed (r : Resolver) (s : Session) (containers : List ClasspathEntry) (r' : Resolver)
    (s' : Session) : Prop where
  mem_scanned_iff : ∀ e, e ∈ r'.scanned ↔ e ∈ r.scanned ∨ ∃ c ∈ containers, compare c e = .eq
  reads_eq : s'.reads = s.reads ++ containers

theorem Passed.trans {r' r'' : Resolver} {s' s'' : Session} {cs cs' : List ClasspathEntry}
    (h : Passed r s cs r' s') (h' : Passed r' s' cs' r'' s'') : Passed r s (cs ++ cs') r'' s'' where
  mem_scanned_iff e := by
    rw [h'.mem_scanned_iff, h.mem_scanned_iff]
    simp only [List.mem_append, or_and_right, exists_or, or_assoc]
  reads_eq := by
    rw [h'.reads_eq, h.reads_eq, List.append_assoc]

theorem passed_scanMissing (setup : Setup) (r : Resolver) (container : ClasspathEntry)
    (wanted : List String) (s : Session) :
    Passed r s [container] (scanMissing setup r container wanted s).1
      (scanMissing setup r container wanted s).2 := by
  obtain ⟨keys, s1, hkeys⟩ : ∃ keys s1, keysToWrite setup wanted (dropRepeats
      (((r.index.classesIn container).map Cache.key).filter (!r.ensured.contains ·))) s =
        (keys, s1) := ⟨_, _, rfl⟩
  obtain ⟨result, s2, hresult⟩ : ∃ result s2,
      (scanClasses setup container keys false).run s1 = (result, s2) := ⟨_, _, rfl⟩
  have hreads : s2.reads = s.reads ++ [container] := by
    have hkeep : s1.reads = s.reads :=
      (congrArg (·.2.reads) hkeys).symm.trans (scanless_keysToWrite setup wanted _ s)
    rw [← hkeep]
    exact (congrArg (·.2.reads) hresult).symm.trans (reads_scanClasses setup container keys s1)
  have hmem (e : ClasspathEntry) : e ∈ r.scanned.insert container ↔
      e ∈ r.scanned ∨ ∃ c ∈ [container], compare c e = .eq := by
    simp [Std.ExtTreeSet.mem_insert, or_comm]
  unfold scanMissing
  rw [bind_eq hkeys, bind_eq hresult]
  cases result with
  -- A failed scan is noted like one that is done.
  | error cause => exact ⟨hmem, hreads⟩
  | ok written => exact ⟨hmem, hreads⟩

theorem passed_scanAllMissing (setup : Setup) (r : Resolver)
    (missing : List (ClasspathEntry × List String)) (s : Session) :
    Passed r s (missing.map (·.1)) (scanAllMissing setup r missing s).1
      (scanAllMissing setup r missing s).2 := by
  induction missing generalizing r s with
  | nil => exact ⟨fun e => ⟨.inl, fun h => h.resolve_right (by simp)⟩, (List.append_nil _).symm⟩
  | cons a missing ih => exact (passed_scanMissing setup r a.1 a.2 s).trans (ih _ _)

/-- The search notes only what was not scanned. -/
theorem findMissing_new (setup : Setup) (r : Resolver) (missing : Missing)
    (targets : List MethodId) (s : Session) :
    (findMissing setup r missing targets s).1.1.scanned = r.scanned ∧
      ∀ e, (findMissing setup r missing targets s).1.2.getKey? e = some e →
        missing.getKey? e = some e ∨ e ∉ r.scanned := by
  induction targets generalizing r missing s with
  | nil => exact ⟨rfl, fun e he => .inl he⟩
  | cons t targets ih =>
    obtain ⟨cached, s1, hcached⟩ : ∃ cached s1,
        isCached setup (Cache.key t.owner) s = (cached, s1) := ⟨_, _, rfl⟩
    unfold findMissing
    dsimp only
    split
    · exact ih r missing s
    · rw [bind_eq hcached]
      -- Only keys that are not found make their container go onto the list.
      split
      · exact ih { r with ensured := r.ensured.insert (Cache.key t.owner) } missing s1
      · obtain ⟨hscanned, hnew⟩ := ih r (missingOf r missing t) s1
        refine ⟨hscanned, fun e he => ?_⟩
        -- Neither this target nor the others add a container that was scanned before.
        rcases hnew e he with he | he
        · exact (getKey?_missingOf he).imp_right And.right
        · exact .inr he

/-- Where every key is ensured or found, nothing is missing. -/
theorem findMissing_of_found (r : Resolver) (missing : Missing) (targets : List MethodId)
    (h : ∀ t ∈ targets, Cache.key t.owner ∈ r.ensured ∨
      setup.store.contains (Cache.key t.owner) s.world = (true, s.world)) :
    (findMissing setup r missing targets s).1.2 = missing := by
  induction targets generalizing r with
  | nil => rfl
  | cons t targets ih =>
    obtain ⟨ht, htargets⟩ := List.forall_mem_cons.1 h
    unfold findMissing
    dsimp only
    split
    · exact ih r htargets
    · rename_i hensured
      have hfound := ht.resolve_left fun hmem => hensured (by simpa using hmem)
      have hcached : isCached setup (Cache.key t.owner) s = (true, s) := by
        rw [isCached, onWorld, onPart, hfound]
      rw [bind_eq hcached, if_pos rfl]
      refine ih _ fun t' ht' => (htargets t' ht').imp_left fun hmem => ?_
      exact Std.ExtTreeSet.mem_insert.2 (.inr hmem)

theorem pairwise_missingFor (targets : List MethodId) :
    (missingFor setup r targets s).Pairwise fun a b => compare a b ≠ .eq :=
  List.pairwise_map.2 Std.ExtTreeMap.distinct_keys_toList

theorem not_mem_scanned_of_mem_missingFor {targets : List MethodId} {e : ClasspathEntry}
    (he : e ∈ missingFor setup r targets s) : e ∉ r.scanned := by
  obtain ⟨a, ha, rfl⟩ := List.mem_map.1 he
  have hkey := (Std.ExtTreeMap.mem_toList_iff_getKey?_eq_some_and_getElem?_eq_some.1 ha).1
  exact ((findMissing_new setup r ∅ targets s).2 a.1 hkey).resolve_left (by simp)

theorem missingFor_of_found {targets : List MethodId}
    (h : ∀ t ∈ targets, Cache.key t.owner ∈ r.ensured ∨
      setup.store.contains (Cache.key t.owner) s.world = (true, s.world)) :
    missingFor setup r targets s = [] := by
  rw [missingFor, findMissing_of_found r ∅ targets h]
  simp

theorem passed_ensureCached (setup : Setup) (r : Resolver) (targets : List MethodId)
    (s : Session) :
    Passed r s (missingFor setup r targets s) (ensureCached setup r targets s).1
      (ensureCached setup r targets s).2 := by
  obtain ⟨r1, missing, s1, hfind⟩ : ∃ r1 missing s1,
      findMissing setup r ∅ targets s = ((r1, missing), s1) := ⟨_, _, _, rfl⟩
  have hscanned := (findMissing_new setup r ∅ targets s).1
  have hreads := scanless_findMissing setup r ∅ targets s
  rw [hfind] at hscanned hreads
  have hall := passed_scanAllMissing setup r1 missing.toList s1
  unfold ensureCached missingFor
  rw [bind_eq hfind, hfind]
  exact ⟨fun e => hscanned ▸ hall.mem_scanned_iff e, hreads ▸ hall.reads_eq⟩

end Missing

/-! ### Questions -/

section Questions

variable {m : MethodId} {a : Option Exceptions} {s' : Session}

/-- To answer from targets is to see to them. -/
theorem passed_answer (setup : Setup) (r : Resolver) (m : MethodId) (targets : List MethodId)
    (s : Session) :
    ∃ r', (answer setup r m targets s).2.resolver = some r' ∧
      Passed r s (missingFor setup r targets s) r' (answer setup r m targets s).2 := by
  obtain ⟨r1, s1, hensure⟩ : ∃ r1 s1, ensureCached setup r targets s = (r1, s1) := ⟨_, _, rfl⟩
  obtain ⟨exceptions, s2, hunion⟩ : ∃ exceptions s2,
      unionOf setup ∅ targets s1 = (exceptions, s2) := ⟨_, _, rfl⟩
  have hpassed := passed_ensureCached setup r targets s
  have hreads : s2.reads = s1.reads :=
    (congrArg (·.2.reads) hunion).symm.trans (scanless_unionOf setup ∅ targets s1)
  rw [hensure] at hpassed
  rw [answer_of_ensured hensure hunion]
  exact ⟨_, rfl, hpassed.mem_scanned_iff, hreads.trans hpassed.reads_eq⟩

/-- A question passes through containers that were not scanned, each once. -/
theorem passed_resolve (hr : s.resolver = some r)
    (hrun : Inquiry.resolve setup m s = some (a, s')) :
    ∃ r' containers, s'.resolver = some r' ∧ Passed r s containers r' s' ∧
      containers.Pairwise (fun a b => compare a b ≠ .eq) ∧ ∀ c ∈ containers, c ∉ r.scanned := by
  cases resolves_of_eq_some hr hrun with
  | known | undeclared =>
    exact ⟨r, [], hr, ⟨by simp, (List.append_nil _).symm⟩, .nil, fun c hc => by cases hc⟩
  | @union targets =>
    obtain ⟨r', hr', hpassed⟩ := passed_answer setup r m targets.toList s
    exact ⟨r', _, hr', hpassed, pairwise_missingFor targets.toList,
      fun c hc => not_mem_scanned_of_mem_missingFor hc⟩

/-- A question passes through nothing if all its keys are ensured or found. -/
theorem resolve_of_found (hquiet : setup.store.Quiet) (hr : s.resolver = some r)
    {targets : Std.ExtTreeSet MethodId} (htargets : r.index.targets? m = some (some targets))
    (hfound : ∀ t : MethodId, t ∈ targets → Cache.key t.owner ∈ r.ensured ∨
      (setup.store.contains (Cache.key t.owner) s.world).1 = true) :
    ∃ a s', Inquiry.resolve setup m s = some (a, s') ∧ s'.reads = s.reads := by
  have hindexed : Indexed r.index s := ⟨r, hr, rfl⟩
  obtain ⟨a, s', hrun, -⟩ := hindexed.resolve setup (m := m) (by simp [htargets])
  refine ⟨a, s', hrun, ?_⟩
  cases resolves_of_eq_some hr hrun with
  | known | undeclared => rfl
  | union _ htargets' =>
    -- With every target found the list of containers to scan is empty.
    obtain rfl := Option.some.inj (Option.some.inj (htargets.symm.trans htargets'))
    have hnothing : missingFor setup r targets.toList s = [] :=
      missingFor_of_found fun t ht =>
        (hfound t (Std.ExtTreeSet.mem_toList.1 ht)).imp_right (hquiet _ _)
    obtain ⟨r', -, hpassed⟩ := passed_answer setup r m targets.toList s
    rw [hpassed.reads_eq, hnothing, List.append_nil]

end Questions

/-! ### Runs -/

/-- What can happen between indexing and forgetting: questions, further attempts to index, and
changes that others make. -/
inductive Event where
  | ask (m : MethodId)
  | index (classpath : List ClasspathEntry)
  | change (world : World)

def Event.run (setup : Setup) : Event → Inquiry (Option Exceptions)
  | ask m => Inquiry.resolve setup m
  | index classpath => do
    ensureIndexed classpath
    return none
  | change world => do
    modify fun s => { s with world }
    return none

section Run

variable {a : Option Exceptions} {s' : Session} {before : List ClasspathEntry}

theorem run_index (hr : s.resolver = some r) (setup : Setup) (classpath : List ClasspathEntry) :
    (Event.index classpath).run setup s = some (none, s) := by
  have hrun : ((ensureIndexed classpath : Analysis Unit) : Inquiry Unit) s = some ((), s) :=
    congrArg some (ensureIndexed_of_resolver hr classpath)
  exact bind_some hrun _

/-- The passes since some time are noted, and none is repeated. -/
def Tracked (before : List ClasspathEntry) (s : Session) : Prop :=
  ∃ r passed, s.resolver = some r ∧ s.reads = before ++ passed ∧ (∀ e ∈ passed, e ∈ r.scanned) ∧
    passed.Pairwise fun a b => compare a b ≠ .eq

/-- One event: what it passes through is new, and is noted. -/
theorem Tracked.event (h : Tracked before s) {e : Event} (hrun : e.run setup s = some (a, s')) :
    Tracked before s' := by
  obtain ⟨r, passed, hr, hreads, hnoted, hdistinct⟩ := h
  cases e with
  | ask m =>
    obtain ⟨r', containers, hr', hpassed, hpairwise, hnew⟩ := passed_resolve hr hrun
    refine ⟨r', passed ++ containers, hr', ?_, fun c hc => ?_,
      List.pairwise_append.2 ⟨hdistinct, hpairwise, fun c hc c' hc' heq => ?_⟩⟩
    · -- What was read before stands in front.
      rw [hpassed.reads_eq, hreads, List.append_assoc]
    · rw [hpassed.mem_scanned_iff]
      rcases List.mem_append.1 hc with hc | hc
      · exact .inl (hnoted c hc)
      · exact .inr ⟨c, hc, Std.ReflCmp.compare_self⟩
    · -- A container that was scanned is not on the list of this question.
      exact hnew c' hc' ((Std.ExtTreeSet.mem_congr heq).1 (hnoted c hc))
  | index classpath =>
    -- The resolver is there, and its index is not built again.
    rw [run_index hr] at hrun
    cases hrun
    exact ⟨r, passed, hr, hreads, hnoted, hdistinct⟩
  | change world =>
    cases hrun
    exact ⟨r, passed, hr, hreads, hnoted, hdistinct⟩

/-- A whole run. -/
theorem Tracked.run (h : Tracked before s) {events : List Event}
    {answered : List (Option Exceptions)}
    (hrun : (events.mapM (·.run setup) : Inquiry _) s = some (answered, s')) :
    Tracked before s' := by
  induction events generalizing s answered with
  | nil =>
    cases hrun
    exact h
  | cons e events ih =>
    rw [List.mapM_cons] at hrun
    obtain ⟨a, s1, hrun1, hrun⟩ := bind_eq_some.1 hrun
    obtain ⟨rest, s2, hrun2, hrun⟩ := bind_eq_some.1 hrun
    cases hrun
    exact ih (h.event hrun1) hrun2

/-- Without cycles, nothing that happens takes for ever. -/
theorem Indexed.run {index : ClasspathIndex} (hacyclic : index.Acyclic) (h : Indexed index s)
    (setup : Setup) (events : List Event) :
    ∃ answered s', (events.mapM (·.run setup) : Inquiry _) s = some (answered, s') := by
  have hevent {s} (h : Indexed index s) (e : Event) :
      ∃ a s', e.run setup s = some (a, s') ∧ Indexed index s' := by
    cases e with
    | ask m => exact h.resolve setup (Option.isSome_iff_exists.2 (hacyclic.exists_targets? m))
    | index classpath =>
      obtain ⟨r, hr, hindex⟩ := h
      exact ⟨_, _, run_index hr setup classpath, r, hr, hindex⟩
    | change world => exact ⟨_, _, rfl, h⟩
  induction events generalizing s with
  | nil => exact ⟨_, _, rfl⟩
  | cons e events ih =>
    obtain ⟨a, s1, hrun, h1⟩ := hevent h e
    obtain ⟨answered, s2, hrest⟩ := ih h1
    refine ⟨a :: answered, s2, ?_⟩
    rw [List.mapM_cons, bind_some hrun, bind_some hrest]
    rfl

end Run

/-- **One pass for each container.** Let a resolver be indexed anew and then asked any questions,
while others change the world as they like. Of the passes that the session has made when this has
come to an end, failed ones included, no two are through the same container. At any time a question
passes through nothing if the key of each target was ensured or is found in a store that finding
leaves as it is, as it does for results in memory and in a directory. If no class is a superclass of
itself, everything comes to an end. -/
theorem passes_once (setup : Setup) (classpath : List ClasspathEntry) (events : List Event)
    (s : Session) :
    let start := (ensureIndexed classpath (reset s).2).2
    (∀ answered finish,
      (events.mapM (·.run setup) : Inquiry _) start = some (answered, finish) →
      (∃ passed, finish.reads = start.reads ++ passed ∧
        passed.Pairwise fun a b => compare a b ≠ .eq) ∧
      (setup.store.Quiet → ∀ m r targets, finish.resolver = some r →
        r.index.targets? m = some (some targets) →
        (∀ t : MethodId, t ∈ targets → Cache.key t.owner ∈ r.ensured ∨
          (setup.store.contains (Cache.key t.owner) finish.world).1 = true) →
        ∃ a s', Inquiry.resolve setup m finish = some (a, s') ∧ s'.reads = finish.reads)) ∧
    ((ClasspathIndex.build s.world.files classpath).Acyclic →
      ∃ answered finish,
        (events.mapM (·.run setup) : Inquiry _) start = some (answered, finish)) ∧
    Memory.store.inMemory.Quiet ∧ ∀ root, (Cache.Directory.store root).inFiles.Quiet := by
  intro start
  refine ⟨fun answered finish hrun => ⟨?_, fun hquiet m r targets hr htargets hfound =>
    resolve_of_found hquiet hr htargets hfound⟩, fun hacyclic => ?_, Memory.quiet_store,
    Cache.Directory.quiet_store⟩
  · have hstart : Tracked start.reads start :=
      ⟨_, [], rfl, (List.append_nil _).symm, fun e he => absurd he List.not_mem_nil, .nil⟩
    obtain ⟨r, passed, -, hreads, -, hdistinct⟩ := hstart.run hrun
    exact ⟨passed, hreads, hdistinct⟩
  · have hstart : Indexed (ClasspathIndex.build s.world.files classpath) start := ⟨_, rfl, rfl⟩
    exact hstart.run hacyclic setup events

/-- Two jars, and the results for a class of the second one. -/
def heldWorld : World := { files := twoJars "a/B" "c/D", memory := .ofList [("c.D", ∅)] }

/-- Others have put the results for a class into memory; then its jar is not passed through. -/
theorem passes_once_twoJars :
    ∃ answered finish,
      ([.change heldWorld].mapM (Event.run (inMemory {})) : Inquiry _)
        (started (twoJars "a/B" "c/D") twoEntries ∅) = some (answered, finish) ∧
      "c.D" ∈ finish.world.memory ∧
      ∃ a s', Inquiry.resolve (inMemory {}) (nativeMethod "c.D") finish = some (a, s') ∧
        s'.scans = 0 := by
  obtain ⟨hrun, -, hquiet, -⟩ := passes_once (inMemory {}) twoEntries [.change heldWorld]
    { world := { files := twoJars "a/B" "c/D" } }
  obtain ⟨-, hfound⟩ := hrun [none]
    { started (twoJars "a/B" "c/D") twoEntries ∅ with world := heldWorld } rfl
  have hcd : ClassName.toBinary "c/D" = "c.D" := by decide +kernel
  have hne : ClassName.toBinary "a/B" ≠ ClassName.toBinary "c/D" := by decide +kernel
  have htargets := targets?_twoJars (jarClasses_nativeJar (by decide))
    (jarClasses_nativeJar (by decide)) hne (.inr rfl)
  rw [hcd] at htargets
  have hkey : heldWorld.memory.contains (Cache.key (Cache.key "c.D")) = true := by decide +kernel
  obtain ⟨a, s', hanswer, hreads⟩ := hfound hquiet (nativeMethod "c.D") _ _ rfl htargets
    fun t ht => .inr (by
      obtain rfl : nativeMethod "c.D" = t := by simpa using ht
      exact hkey)
  exact ⟨_, _, rfl, by decide +kernel, a, s', hanswer, congrArg List.length hreads⟩

end Analysis

end JvmThrows
