import JvmThrows.Proofs.AssembledClasses

/-!
# Where class files end

No class file is the beginning of another one. A file that is cut off is refused because it ends too
early, and not for another reason; a file with something behind it is refused for that
(`ofBytes_strict_prefix`).

A reader is `Steady` if the bytes that it took decide what it gives: it takes them whatever follows,
and if they are cut off it meets the end. Steps that read are steady, checks of what was read take
nothing, and so all that is made of them is steady. Only the check that nothing is left looks at
what follows; a reader that closes with it is `Exact`.
-/

namespace JvmThrows

namespace Parse

section Defs

variable {α : Type}

/-- Without its end the reader meets the end too early. -/
def NeedsAll (p : Parse α) (bytes : Bytes) : Prop :=
  ∀ front cut, bytes = front ++ cut → cut ≠ [] → p.run front = .error .unexpectedEnd

/-- What is taken decides what is read, and is needed. -/
def Steady (p : Parse α) : Prop :=
  ∀ bytes a rest, p.run bytes = .ok (a, rest) →
    ∃ used, bytes = used ++ rest ∧ Reads p used a ∧ NeedsAll p used

/-- What is read is all there is: a part of it ends too early, and more than it is too much. -/
def Exact (p : Parse α) : Prop :=
  ∀ bytes a rest, p.run bytes = .ok (a, rest) →
    NeedsAll p bytes ∧ ∀ more, more ≠ [] → p.run (bytes ++ more) = .error .trailingBytes

end Defs

section Rules

variable {α β : Type} {p : Parse α} {f : α → Parse β} {bytes used rest : Bytes} {a : α} {b : β}

theorem run_bind_eq_ok (h : (p >>= f).run bytes = .ok (b, rest)) :
    ∃ a between, p.run bytes = .ok (a, between) ∧ (f a).run between = .ok (b, rest) := by
  rw [StateT.run_bind] at h
  rcases hp : p.run bytes with e | ⟨a, between⟩
  · rw [hp] at h
    cases h
  · rw [hp] at h
    exact ⟨a, between, rfl, h⟩

theorem Reads.run_bind (h : Reads p used a) (rest : Bytes) :
    (p >>= f).run (used ++ rest) = (f a).run rest := by
  rw [StateT.run_bind, h rest]
  rfl

theorem needsAll_nil (p : Parse α) : NeedsAll p [] := by
  intro front cut h hcut
  exact absurd (List.append_eq_nil_iff.1 h.symm).2 hcut

theorem NeedsAll.bind (h : NeedsAll p used) (hreads : Reads p used a) (hf : NeedsAll (f a) rest) :
    NeedsAll (p >>= f) (used ++ rest) := by
  intro front cut hbytes hcut
  -- The cut is either behind what the first reader takes or within it.
  rcases List.append_eq_append_iff.1 hbytes with ⟨front', rfl, hrest⟩ | ⟨cut', hused, rfl⟩
  · rw [hreads.run_bind]
    exact hf front' cut hrest hcut
  · rcases eq_or_ne cut' [] with rfl | hne
    · have hfront : front = used ++ [] := by simpa using hused.symm
      rw [hfront, hreads.run_bind]
      exact hf [] rest rfl hcut
    · rw [StateT.run_bind, h front cut' hused hne]
      rfl

theorem Steady.bind (h : Steady p) (hf : ∀ a, Steady (f a)) : Steady (p >>= f) := by
  intro bytes b rest hrun
  obtain ⟨a, between, hp, hfa⟩ := run_bind_eq_ok hrun
  obtain ⟨used, rfl, hreads, hneeds⟩ := h bytes a between hp
  obtain ⟨used', rfl, hreads', hneeds'⟩ := hf a between b rest hfa
  exact ⟨used ++ used', (List.append_assoc ..).symm, hreads.bind hreads',
    hneeds.bind hreads hneeds'⟩

/-- A reader that is exact stays so behind a steady one. -/
theorem Steady.bind_exact (h : Steady p) (hf : ∀ a, Exact (f a)) : Exact (p >>= f) := by
  intro bytes b rest hrun
  obtain ⟨a, between, hp, hfa⟩ := run_bind_eq_ok hrun
  obtain ⟨used, rfl, hreads, hneeds⟩ := h bytes a between hp
  obtain ⟨hneeds', hlong⟩ := hf a between b rest hfa
  refine ⟨hneeds.bind hreads hneeds', fun more hmore => ?_⟩
  rw [List.append_assoc, hreads.run_bind]
  exact hlong more hmore

theorem Steady.pure (a : α) : Steady (pure a) := by
  rintro bytes a rest ⟨⟩
  exact ⟨[], rfl, .pure a, needsAll_nil _⟩

theorem Steady.throw (e : ClassFileError) : Steady (throw e : Parse α) := by
  rintro bytes a rest ⟨⟩

/-- A check of what was read takes nothing. -/
theorem Steady.lift (result : Except ClassFileError α) : Steady (lift result) := by
  cases result with
  | error e => exact Steady.throw e
  | ok a => exact Steady.pure a

theorem exact_finish (a : α) : Exact (finish >>= fun _ => pure a) := by
  intro bytes b rest hrun
  obtain ⟨⟨⟩, between, hfinish, -⟩ := run_bind_eq_ok hrun
  cases bytes with
  | cons byte bytes => cases hfinish
  | nil =>
    refine ⟨needsAll_nil _, fun more hmore => ?_⟩
    obtain ⟨byte, more, rfl⟩ := List.exists_cons_of_ne_nil hmore
    rfl

/-! ### Steps that read -/

/-- A reader that takes a number of bytes, whatever they are. -/
theorem steady_of_length {n : Nat} (hlong : ∀ bytes, bytes.length = n → ∃ a, Reads p bytes a)
    (hshort : ∀ bytes, bytes.length < n → p.run bytes = .error .unexpectedEnd) : Steady p := by
  intro bytes a rest hrun
  have hle : n ≤ bytes.length := by
    refine Nat.le_of_not_lt fun hlt => ?_
    rw [hshort bytes hlt] at hrun
    cases hrun
  have hlength : (bytes.take n).length = n := List.length_take_of_le hle
  obtain ⟨b, hreads⟩ := hlong _ hlength
  have hbytes := hreads (bytes.drop n)
  rw [List.take_append_drop, hrun] at hbytes
  cases hbytes
  refine ⟨bytes.take n, (List.take_append_drop n bytes).symm, hreads, ?_⟩
  intro front cut hused hcut
  refine hshort front ?_
  have hpos := List.length_pos_of_ne_nil hcut
  rw [hused, List.length_append] at hlength
  omega

theorem steady_take (n : Nat) : Steady (take n) := by
  refine steady_of_length (fun bytes hlength => ⟨bytes, reads_take hlength⟩) fun bytes hlt => ?_
  have hne : (bytes.take n).length ≠ n := by
    rw [List.length_take]
    omega
  exact if_neg hne

theorem steady_u1 : Steady u1 := by
  refine steady_of_length (n := 1) (fun bytes hlength => ?_) fun bytes hlt => ?_
  · obtain ⟨a, rfl⟩ := List.length_eq_one_iff.1 hlength
    exact ⟨a, reads_u1 a⟩
  · rw [List.length_eq_zero_iff.1 (Nat.lt_one_iff.1 hlt)]
    rfl

theorem steady_u2 : Steady u2 := by
  refine steady_of_length (n := 2) (fun bytes hlength => ?_) fun bytes hlt => ?_
  · obtain ⟨a, b, rfl⟩ := List.length_eq_two.1 hlength
    exact ⟨word16 a b, fun _ => rfl⟩
  · rcases bytes with - | ⟨a, - | ⟨b, bytes⟩⟩
    · rfl
    · rfl
    · simp only [List.length_cons] at hlt
      omega

theorem steady_u4 : Steady u4 := by
  refine steady_of_length (n := 4) (fun bytes hlength => ?_) fun bytes hlt => ?_
  · rcases bytes with - | ⟨a, - | ⟨b, - | ⟨c, - | ⟨d, - | ⟨e, bytes⟩⟩⟩⟩⟩
    all_goals simp only [List.length_cons, List.length_nil] at hlength
    all_goals try omega
    exact ⟨word32 a b c d, fun _ => rfl⟩
  · rcases bytes with - | ⟨a, - | ⟨b, - | ⟨c, - | ⟨d, bytes⟩⟩⟩⟩
    · rfl
    · rfl
    · rfl
    · rfl
    · simp only [List.length_cons] at hlt
      omega

/-- What is steady is steady any number of times. -/
theorem Steady.times (h : Steady p) (n : Nat) : Steady (times n p) := by
  have hfrom (acc : List α) : Steady (timesFrom p n acc) := by
    induction n generalizing acc with
    | zero => exact .pure _
    | succ n ih => exact h.bind fun a => ih (a :: acc)
  exact hfrom []

end Rules

end Parse

open Parse

/-! ### The parts of a class file -/

theorem Constant.steady_read : Steady Constant.read := by
  refine steady_u1.bind fun tag => ?_
  split
  case h_1 =>
    exact steady_u2.bind fun length => (steady_take _).bind fun bytes =>
      (Steady.lift _).bind fun text => .pure _
  case h_18 => exact .throw _
  -- All other constants are a word or two.
  all_goals
    first
    | exact steady_u4.bind fun _ => .pure _
    | exact steady_u2.bind fun _ => .pure _
    | exact steady_u4.bind fun _ => steady_u4.bind fun _ => .pure _
    | exact steady_u2.bind fun _ => steady_u2.bind fun _ => .pure _
    | exact steady_u1.bind fun _ => steady_u2.bind fun _ => .pure _

theorem ConstantPool.steady_readFrom (left : Nat) (slots : Array (Option Constant)) :
    Steady (readFrom left slots) := by
  induction left using Nat.strongRecOn generalizing slots with
  | ind left ih =>
    cases left with
    | zero => exact .pure slots
    | succ left =>
      rw [readFrom]
      refine Constant.steady_read.bind fun c => ?_
      split
      · cases left with
        | zero => exact .pure _
        | succ left => exact ih left (by omega) _
      · exact ih left (by omega) _

theorem ConstantPool.steady_read : Steady ConstantPool.read :=
  steady_u2.bind fun _ => (steady_readFrom _ _).bind fun _ => .pure _

theorem RawAttribute.steady_read : Steady RawAttribute.read :=
  steady_u2.bind fun _ => steady_u4.bind fun _ => (steady_take _).bind fun _ => .pure _

theorem RawAttribute.steady_skipAll : Steady RawAttribute.skipAll :=
  steady_u2.bind fun count => (RawAttribute.steady_read.times count.toNat).bind fun _ => .pure _

theorem ClassFile.steady_skipField : Steady ClassFile.skipField :=
  (steady_take 6).bind fun _ => RawAttribute.steady_skipAll

/-- What an attribute holds is read by itself: for the file it is a check. -/
theorem MethodAttribute.steady_read (pool : ConstantPool) : Steady (MethodAttribute.read pool) :=
  RawAttribute.steady_read.bind fun raw => .lift (MethodAttribute.ofRaw pool raw)

theorem Method.steady_read (pool : ConstantPool) : Steady (Method.read pool) :=
  steady_u2.bind fun _ => steady_u2.bind fun _ => (Steady.lift _).bind fun _ =>
    steady_u2.bind fun _ => (Steady.lift _).bind fun _ => steady_u2.bind fun count =>
      ((MethodAttribute.steady_read pool).times count.toNat).bind fun _ => .pure _

namespace ClassFile

/-- Up to its last check a file is read by steady steps. -/
theorem exact_read : Exact ClassFile.read := by
  refine steady_u4.bind_exact fun found => ?_
  dsimp only
  split
  · rintro bytes c rest ⟨⟩
  · refine steady_u2.bind_exact fun _ => steady_u2.bind_exact fun _ =>
      ConstantPool.steady_read.bind_exact fun pool => ?_
    have hclass (index : UInt16) : Steady (lift (pool.className index)) := .lift _
    exact steady_u2.bind_exact fun _ => steady_u2.bind_exact fun index =>
      (hclass index).bind_exact fun _ => steady_u2.bind_exact fun _ =>
        (Steady.lift _).bind_exact fun _ => steady_u2.bind_exact fun interfaces =>
          ((steady_u2.bind hclass).times interfaces.toNat).bind_exact fun _ =>
            steady_u2.bind_exact fun fields =>
              (steady_skipField.times fields.toNat).bind_exact fun _ =>
                steady_u2.bind_exact fun methods =>
                  ((Method.steady_read pool).times methods.toNat).bind_exact fun _ =>
                    RawAttribute.steady_skipAll.bind_exact fun _ => exact_finish _

/-- **No class file begins another one.** What is left of a file when its end is cut off is refused
for ending too early, and a file that is followed by anything for what follows. -/
theorem ofBytes_strict_prefix {bytes : Bytes} {c : ClassFile} (h : ofBytes bytes = .ok c) :
    (∀ front, front <+: bytes → front ≠ bytes → ofBytes front = .error .unexpectedEnd) ∧
      ∀ more, more ≠ [] → ofBytes (bytes ++ more) = .error .trailingBytes := by
  have hrun : ∃ rest, read.run bytes = .ok (c, rest) := by
    unfold ofBytes at h
    rcases hread : read.run bytes with e | ⟨c', rest⟩
    · rw [hread] at h
      cases h
    · rw [hread] at h
      cases h
      exact ⟨rest, rfl⟩
  obtain ⟨rest, hrun⟩ := hrun
  obtain ⟨hneeds, hlong⟩ := exact_read bytes c rest hrun
  constructor
  · rintro front ⟨cut, rfl⟩ hne
    rw [ofBytes, hneeds front cut rfl fun hcut => hne (by simp [hcut])]
    rfl
  · intro more hmore
    rw [ofBytes, hlong more hmore]
    rfl

open Assembly in
/-- The file of a class with interfaces, methods, a body and handlers, cut off in its body and with
a byte too much. -/
theorem ofBytes_openerClass :
    ofBytes ClassSpec.openerClass.encode = .ok ClassSpec.openerClass.classFile ∧
      ofBytes (ClassSpec.openerClass.encode.take 250) = .error .unexpectedEnd ∧
      ofBytes (ClassSpec.openerClass.encode ++ [0]) = .error .trailingBytes := by
  have hfile : ofBytes ClassSpec.openerClass.encode = .ok ClassSpec.openerClass.classFile := by
    decide +kernel
  have hne : ClassSpec.openerClass.encode.take 250 ≠ ClassSpec.openerClass.encode := by
    decide +kernel
  obtain ⟨hshort, hlong⟩ := ofBytes_strict_prefix hfile
  exact ⟨hfile, hshort _ (List.take_prefix 250 _) hne, hlong [0] (by decide)⟩

end ClassFile

end JvmThrows
