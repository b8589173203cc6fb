import JvmThrows.Proofs.LazyResolution

/-!
# The order of questions

If no two containers offer the same key, questions may be asked in any order. If they do, the order
counts: the container that is scanned first has its results kept, and then the other one is not
asked. `answers_pair` says this for two questions that each have one target: the first is answered
from its own container, the second one from the container of the first, if that offers the key of
the second. So both orders agree exactly if the results are the same in both containers
(`answers_order`).

Where superclasses form a cycle, a question may never be answered, and those that come after it are
not asked at all. So the order counts there, too, and is left out of account.
-/

namespace JvmThrows

namespace Analysis

/-- Two runs answer each question that is asked in both alike. -/
def Agree (ms ms' : List MethodId) (answers answers' : List (Option Exceptions)) : Prop :=
  ∀ m a b, (m, a) ∈ ms.zip answers → (m, b) ∈ ms'.zip answers' → a = b

variable {files : FileTree} {sources : Sources} {classpath : List ClasspathEntry} {r r' : Resolver}
  {memory : Memory} {s : Session} {p q t t' : MethodId} {e e' : ClasspathEntry}

theorem eq_of_mem_zip {answer : MethodId → Eventually (Option Exceptions)} {ms : List MethodId}
    {answered : List (Option Exceptions)} (hall : ms.mapM answer = some answered) {m : MethodId}
    {a : Option Exceptions} (h : (m, a) ∈ ms.zip answered) : answer m = some a := by
  rw [mapM_eq_some_iff] at hall
  have hmem : (m, some a) ∈ ms.zip (answered.map some) := by
    rw [List.zip_map_right]
    exact List.mem_map.2 ⟨(m, a), h, rfl⟩
  rw [← hall, ← List.map_prod_left_eq_zip] at hmem
  obtain ⟨x, -, heq⟩ := List.mem_map.1 hmem
  obtain ⟨rfl, hanswer⟩ := Prod.mk.inj heq
  exact hanswer

/-! ### One target -/

/-- If a scanned container has offered the key of a single target, its results are read. -/
theorem Ensured.exceptionsOf_of_offered (h : Consistent files sources classpath r memory)
    (h' : Ensured files sources classpath r memory [t] r' s) (he : r.HasScanned e)
    (hoffers : Offers files sources r.index e (Cache.key t.owner))
    (huniq : ∀ x, r.HasScanned x → Offers files sources r.index x (Cache.key t.owner) → x = e) :
    s.world.memory.exceptionsOf t =
      (entriesOf files sources e).exceptionsOf t := by
  have hindex : r'.index = r.index := h'.consistent.index_eq.trans h.index_eq.symm
  refine h'.consistent.exceptionsOf_eq (h'.scanned_old he) (hindex ▸ hoffers)
    fun x hx hxoffers => ?_
  rw [hindex] at hxoffers
  rcases h'.scanned_found hx with hx | ⟨t', ht', -, hnew⟩
  · exact huniq x hx hxoffers
  · -- The key is kept, so that nothing was scanned for it.
    obtain rfl := List.mem_singleton.1 ht'
    rw [hoffers.key_eq] at hnew
    exact absurd (h.kept he hoffers) hnew

/-- If no scanned container has offered the key of a single target, the results of its own container
are read. -/
theorem Ensured.exceptionsOf_of_not_offered (h : Consistent files sources classpath r memory)
    (h' : Ensured files sources classpath r memory [t] r' s)
    (hc : r.index.containerOf? t.owner = some e)
    (hnone : ∀ x, r.HasScanned x → ¬ Offers files sources r.index x (Cache.key t.owner)) :
    s.world.memory.exceptionsOf t =
      keptFor files sources r.index t := by
  have hindex : r'.index = r.index := h'.consistent.index_eq.trans h.index_eq.symm
  rw [h'.consistent.exceptionsOf_eq_keptFor (hindex ▸ hc) (fun hkey => ?_) (fun x hx hoffers => ?_),
    hindex]
  · refine (h'.scanned_or_kept (List.mem_singleton_self t) hc).resolve_right fun hkept => ?_
    rw [hkey] at hkept
    obtain ⟨x, hx, hoffers⟩ := h.offered hkept
    exact hnone x hx hoffers
  · rcases h'.scanned_found hx with hx | ⟨t', ht', hc', -⟩
    · exact absurd (hindex ▸ hoffers) (hnone x hx)
    · obtain rfl := List.mem_singleton.1 ht'
      exact Option.some.inj (hc'.symm.trans hc)

/-- A new question with a single target. -/
theorem Consistent.resolve_of_target (h : Consistent files sources classpath r s.world.memory)
    (hfiles : s.world.files = files) (hr : s.resolver = some r) (hknown : r.known[p]? = none)
    (htarget : r.index.targets? p = some (some (.ofList [t]))) :
    ∃ r' s', Inquiry.resolve (inMemory sources) p s =
        some (some (s'.world.memory.exceptionsOf t),
          s'.withResolver (r'.learn p (s'.world.memory.exceptionsOf t))) ∧
      Ensured files sources classpath r s.world.memory [t] r' s' := by
  obtain ⟨exceptions, r', s', hrun, hensured, hmem⟩ :=
    h.resolve_of_targets hfiles hr hknown htarget
  have hexceptions : exceptions = s'.world.memory.exceptionsOf t :=
    Std.ExtTreeSet.ext_mem fun x => by simp [hmem]
  refine ⟨r', s', ?_, hensured⟩
  rw [hrun, hexceptions]

section Pair

variable (sources) {index : ClasspathIndex} (hindex : index = ClasspathIndex.build files classpath)
  (hp : index.targets? p = some (some (.ofList [t]))) (hc : index.containerOf? t.owner = some e)
include hindex hp hc

/-- The first question is answered from the container of its target, which is then the only one
that was scanned. -/
theorem resolve_first :
    ∃ r s, Inquiry.resolve (inMemory sources) p (started files classpath ∅) =
        some (some (keptFor files sources index t), s) ∧
      s.world.files = files ∧ s.resolver = some r ∧
      Consistent files sources classpath r s.world.memory ∧ (∀ x, r.HasScanned x ↔ x = e) ∧
      ∀ m, r.known[m]? = if p = m then some (keptFor files sources index t) else none := by
  subst hindex
  have h := consistent_started files sources classpath
  have hnone : ∀ x, ¬ (⟨ClasspathIndex.build files classpath, ∅, ∅, ∅⟩ : Resolver).HasScanned x :=
    fun x hx => absurd hx.2 (by simp)
  obtain ⟨r, s, hrun, hensured⟩ := h.resolve_of_target rfl rfl (by simp) hp
  rw [hensured.exceptionsOf_of_not_offered h hc fun x hx => absurd hx (hnone x)] at hrun
  refine ⟨_, _, hrun, hensured.files_eq, rfl, hensured.consistent.learn _ _, fun x => ⟨?_, ?_⟩,
    fun m => ?_⟩
  · intro hx
    rcases hensured.scanned_found hx with hold | ⟨t1, ht1, hc1, -⟩
    · exact absurd hold (hnone x)
    · obtain rfl := List.mem_singleton.1 ht1
      exact Option.some.inj (hc1.symm.trans hc)
  · rintro rfl
    exact (hensured.scanned_or_kept (List.mem_singleton_self t) hc).resolve_right
      (by simp [started])
  · rw [Resolver.learn, Std.ExtTreeMap.getElem?_insert, hensured.known_eq]
    simp

/-- The second question is answered from the container of the first, if that offers its key. -/
theorem answers_pair (hq : index.targets? q = some (some (.ofList [t'])))
    (hc' : index.containerOf? t'.owner = some e') (hne : p ≠ q) :
    ∃ exceptions, answers files sources classpath [p, q] =
        some [some (keptFor files sources index t), some exceptions] ∧
      (Offers files sources index e (Cache.key t'.owner) →
        exceptions = (entriesOf files sources e).exceptionsOf t') ∧
      (¬ Offers files sources index e (Cache.key t'.owner) →
        exceptions = keptFor files sources index t') := by
  obtain ⟨r, s, hfirst, hfiles, hr, h, hscanned, hknown⟩ :=
    resolve_first sources hindex hp hc
  have hrindex : r.index = index := h.index_eq.trans hindex.symm
  obtain ⟨r', s', hsecond, hensured⟩ :=
    h.resolve_of_target hfiles hr (by rw [hknown, if_neg hne]) (hrindex ▸ hq)
  refine ⟨s'.world.memory.exceptionsOf t', ?_, fun hoffers => ?_, fun hoffers => ?_⟩
  · rw [answers, session_eq_mapM, List.mapM_cons, bind_some hfirst, List.mapM_cons, bind_assoc,
      bind_some hsecond]
    rfl
  · exact hensured.exceptionsOf_of_offered h ((hscanned e).2 rfl) (hrindex ▸ hoffers)
      fun x hx _ => (hscanned x).1 hx
  · rw [hensured.exceptionsOf_of_not_offered h (hrindex ▸ hc'), hrindex]
    intro x hx
    rw [hrindex, (hscanned x).1 hx]
    exact hoffers

/-- A question that is asked again is answered as before. -/
theorem answers_twice :
    answers files sources classpath [p, p] =
      [p, p].mapM fun _ => some (some (keptFor files sources index t)) := by
  obtain ⟨r, s, hfirst, -, hr, -, -, hknown⟩ := resolve_first sources hindex hp hc
  have hsecond : Inquiry.resolve (inMemory sources) p s = _ :=
    resolve_of_known hr ((hknown p).trans (if_pos rfl))
  rw [answers, session_eq_mapM, List.mapM_cons, bind_some hfirst, List.mapM_cons, bind_assoc,
    bind_some hsecond]
  rfl

end Pair

/-! ### The order -/

theorem agree_swap_iff (hne : p ≠ q) {a a' b b' : Option Exceptions} :
    Agree [p, q] [q, p] [a, b] [b', a'] ↔ a = a' ∧ b = b' := by
  constructor
  · intro h
    exact ⟨h p a a' (by simp) (by simp), h q b b' (by simp) (by simp)⟩
  · rintro ⟨rfl, rfl⟩ m x y hx hy
    simp only [List.zip_cons_cons, List.zip_nil_right, List.mem_cons, Prod.mk.injEq,
      List.not_mem_nil, or_false] at hx hy
    rcases hx with ⟨rfl, rfl⟩ | ⟨rfl, rfl⟩ <;> rcases hy with ⟨h, rfl⟩ | ⟨h, rfl⟩
    · exact absurd h hne
    · rfl
    · rfl
    · exact absurd h.symm hne

/-- The answer after a question about another container is the same as at first exactly if the
results are the same there. -/
theorem eq_keptFor_iff {index : ClasspathIndex} {exceptions : Exceptions}
    (hc : index.containerOf? t.owner = some e)
    (hyes : Offers files sources index e' (Cache.key t.owner) →
      exceptions = (entriesOf files sources e').exceptionsOf t)
    (hno : ¬ Offers files sources index e' (Cache.key t.owner) →
      exceptions = keptFor files sources index t) :
    exceptions = keptFor files sources index t ↔
      (Offers files sources index e' (Cache.key t.owner) →
        (entriesOf files sources e').exceptionsOf t =
          (entriesOf files sources e).exceptionsOf t) := by
  by_cases hoffers : Offers files sources index e' (Cache.key t.owner)
  · have hkept : keptFor files sources index t = (entriesOf files sources e).exceptionsOf t := by
      rw [keptFor, if_pos hoffers.key_eq]
      simp [extractedFor, hc]
    simp [hoffers, hyes hoffers, hkept]
  · simp [hoffers, hno hoffers]

/-- **The order of questions.** Let no class be a superclass of itself. Then every question is
answered, and as long as no two containers offer the same key, two runs answer what is asked in both
of them alike, in whatever order. Otherwise the order counts: of two questions with one target each,
both orders agree exactly if the container of each target that offers the key of the other has the
same results for that other. -/
theorem answers_order (files : FileTree) (sources : Sources) (classpath : List ClasspathEntry)
    (hacyclic : (ClasspathIndex.build files classpath).Acyclic) :
    let index := ClasspathIndex.build files classpath
    (∀ ms, ∃ answered, answers files sources classpath ms = some answered ∧
      answered.length = ms.length) ∧
    (Unshared files sources index → ∀ ms ms' answered answered',
      answers files sources classpath ms = some answered →
      answers files sources classpath ms' = some answered' →
      Agree ms ms' answered answered') ∧
    ∀ p q t t' e e',
      index.targets? p = some (some (.ofList [t])) →
      index.targets? q = some (some (.ofList [t'])) →
      index.containerOf? t.owner = some e → index.containerOf? t'.owner = some e' →
      ∀ answered answered', answers files sources classpath [p, q] = some answered →
        answers files sources classpath [q, p] = some answered' →
        (Agree [p, q] [q, p] answered answered' ↔
          (Offers files sources index e' (Cache.key t.owner) →
            (entriesOf files sources e').exceptionsOf t =
              (entriesOf files sources e).exceptionsOf t) ∧
          (Offers files sources index e (Cache.key t'.owner) →
            (entriesOf files sources e).exceptionsOf t' =
              (entriesOf files sources e').exceptionsOf t')) := by
  intro index
  refine ⟨fun ms => ?_, fun hunshared ms ms' answered answered' hrun hrun' m a b ha hb => ?_,
    fun p q t t' e e' hp hq hc hc' answered answered' hrun hrun' => ?_⟩
  · obtain ⟨answered, s, hrun, hlength⟩ := exists_session hacyclic sources ∅ ms
    exact ⟨answered, by rw [answers, hrun]; rfl, hlength⟩
  · rw [answers_of_unshared rfl hunshared] at hrun hrun'
    exact Option.some.inj ((eq_of_mem_zip hrun ha).symm.trans (eq_of_mem_zip hrun' hb))
  · by_cases hpq : p = q
    · -- The same question twice has one target, and the second answer is the first.
      subst hpq
      have htargets : (Std.ExtTreeSet.ofList [t] : Std.ExtTreeSet MethodId) = .ofList [t'] :=
        Option.some.inj (Option.some.inj (hp.symm.trans hq))
      obtain rfl : t' = t := by
        have hmem : t ∈ (Std.ExtTreeSet.ofList [t'] : Std.ExtTreeSet MethodId) := by
          simp [← htargets]
        simpa using hmem
      obtain rfl := Option.some.inj (hc.symm.trans hc')
      refine ⟨fun _ => ⟨fun _ => rfl, fun _ => rfl⟩, fun _ m a b ha hb => ?_⟩
      rw [answers_twice sources rfl hp hc] at hrun hrun'
      exact Option.some.inj ((eq_of_mem_zip hrun ha).symm.trans (eq_of_mem_zip hrun' hb))
    · obtain ⟨second, hpair, hyes, hno⟩ := answers_pair sources rfl hp hc hq hc' hpq
      obtain ⟨second', hpair', hyes', hno'⟩ :=
        answers_pair sources rfl hq hc' hp hc (Ne.symm hpq)
      obtain rfl := Option.some.inj (hpair.symm.trans hrun)
      obtain rfl := Option.some.inj (hpair'.symm.trans hrun')
      rw [agree_swap_iff hpq, Option.some.injEq, Option.some.injEq,
        eq_keptFor_iff hc' hyes hno, eq_comm, eq_keptFor_iff hc hyes' hno']

/-- Two jars may be asked in any order if they hold unrelated classes, but not if one holds a class
and the other one a class nested in it. -/
theorem not_agree_twoJars :
    ((ClasspathIndex.build (twoJars "a/B" "c/D") twoEntries).Acyclic ∧
      Unshared (twoJars "a/B" "c/D") {} (ClasspathIndex.build (twoJars "a/B" "c/D") twoEntries) ∧
      ∃ answered answered',
        answers (twoJars "a/B" "c/D") {} twoEntries [nativeMethod "a.B", nativeMethod "c.D"] =
          some answered ∧
        answers (twoJars "a/B" "c/D") {} twoEntries [nativeMethod "c.D", nativeMethod "a.B"] =
          some answered' ∧
        Agree [nativeMethod "a.B", nativeMethod "c.D"] [nativeMethod "c.D", nativeMethod "a.B"]
          answered answered') ∧
    (ClasspathIndex.build (twoJars "a/B" "a/B$C") twoEntries).Acyclic ∧
    ∃ answered answered',
      answers (twoJars "a/B" "a/B$C") {} twoEntries [nativeMethod "a.B", nativeMethod "a.B$C"] =
        some answered ∧
      answers (twoJars "a/B" "a/B$C") {} twoEntries [nativeMethod "a.B$C", nativeMethod "a.B"] =
        some answered' ∧
      ¬ Agree [nativeMethod "a.B", nativeMethod "a.B$C"] [nativeMethod "a.B$C", nativeMethod "a.B"]
        answered answered' := by
  have hfirst : Archive.jarClasses (nativeJar "a/B") = .ok [nativeClass "a/B"] :=
    jarClasses_nativeJar (by decide)
  have hsecond : Archive.jarClasses (nativeJar "a/B$C") = .ok [nativeClass "a/B$C"] :=
    jarClasses_nativeJar (by decide)
  have hother : Archive.jarClasses (nativeJar "c/D") = .ok [nativeClass "c/D"] :=
    jarClasses_nativeJar (by decide)
  have hunshared : Unshared (twoJars "a/B" "c/D") {}
      (ClasspathIndex.build (twoJars "a/B" "c/D") twoEntries) :=
    unshared_of_apart apart_twoJars.1 apart_twoJars.2
  have hb : ClassName.toBinary "a/B" = "a.B" := by decide +kernel
  have hbc : ClassName.toBinary "a/B$C" = "a.B$C" := by decide +kernel
  have hd : ClassName.toBinary "c/D" = "c.D" := by decide +kernel
  have hapart := acyclic_twoJars hfirst hother (by rw [hb]; decide) (by rw [hd]; decide)
  have hnested := acyclic_twoJars hfirst hsecond (by rw [hb]; decide) (by rw [hbc]; decide)
  refine ⟨⟨hapart, hunshared, ?_⟩, hnested, ?_⟩
  · obtain ⟨hall, hagree, -⟩ := answers_order (twoJars "a/B" "c/D") {} twoEntries hapart
    obtain ⟨answered, hrun, -⟩ := hall [nativeMethod "a.B", nativeMethod "c.D"]
    obtain ⟨answered', hrun', -⟩ := hall [nativeMethod "c.D", nativeMethod "a.B"]
    exact ⟨answered, answered', hrun, hrun', hagree hunshared _ _ _ _ hrun hrun'⟩
  · obtain ⟨hall, -, hpair⟩ := answers_order (twoJars "a/B" "a/B$C") {} twoEntries hnested
    obtain ⟨answered, hrun, -⟩ := hall [nativeMethod "a.B", nativeMethod "a.B$C"]
    obtain ⟨answered', hrun', -⟩ := hall [nativeMethod "a.B$C", nativeMethod "a.B"]
    refine ⟨answered, answered', hrun, hrun', fun hagree => ?_⟩
    have hne : ClassName.toBinary "a/B" ≠ ClassName.toBinary "a/B$C" := by
      rw [hb, hbc]
      decide
    have hp := targets?_twoJars hfirst hsecond hne (.inl rfl)
    have hq := targets?_twoJars hfirst hsecond hne (.inr rfl)
    have hc := containerOf?_twoJars hfirst hsecond "a.B"
    have hc' := containerOf?_twoJars hfirst hsecond "a.B$C"
    obtain ⟨ha, hb'⟩ := entriesOf_twoJars hfirst hsecond
    rw [hb] at hp
    rw [hbc] at hq
    rw [if_pos hb] at hc
    rw [if_neg (by rw [hb]; decide), if_pos hbc] at hc'
    have hkey : Cache.key "a.B$C" = Cache.key "a.B" := by decide +kernel
    have hoffers := offers_key {} rfl hc' (by decide +kernel)
    rw [hkey] at hoffers
    have heq := ((hpair _ _ _ _ _ _ hp hq hc hc' _ _ hrun hrun').1 hagree).1 hoffers
    have hempty : nativeMethod "a.B" ∉ extract {} [nativeClass "a/B$C"] := by
      rw [mem_extract_iff]
      simp [nativeClass, nativeMethod, hbc]
    have hfull := exceptionsOf_nativeClass "a/B"
    rw [hb] at hfull
    rw [ha, hb', hfull, Entries.exceptionsOf, Std.ExtTreeMap.getElem?_eq_none hempty] at heq
    have hmem : "x.E" ∈ (Std.ExtTreeSet.ofList ["x.E"] : Exceptions) := by simp
    rw [← heq] at hmem
    simp at hmem

end Analysis

end JvmThrows
