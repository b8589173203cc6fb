import JvmThrows.Proofs.ConstantPools

/-!
# Indices of constants

The constants of a class file refer to each other by index, forward and backward. Indices count
from one; a `Long` or `Double` takes two, of which the second leads nowhere, and so do zero and all
indices past the last slot. A pool that is read from written constants (`WrittenAs`) whose
references lead to constants of the expected kinds (`Linked`) answers by these rules, whatever the
order and the widths of the constants: `read_answers`.
-/

namespace JvmThrows

open Parse

namespace Constant

/-- The bytes write the constant; a text can be written in more than one way. -/
inductive WrittenAs : Bytes → Constant → Prop
  | text {payload : Bytes} {text : String} (hsize : payload.length ≤ 0xFFFF)
      (hdecode : ModifiedUtf8.decode payload = .ok text) :
      WrittenAs (1 :: bytes16 (UInt16.ofNat payload.length) ++ payload) (utf8 text)
  | other {c : Constant} (hkind : c.kind ≠ .utf8) : WrittenAs c.encode c

/-- The references that look-ups follow, with the kinds of constants they must lead to. -/
def references : Constant → List (UInt16 × ConstantKind)
  | classRef name => [(name, .utf8)]
  | nameAndType name descriptor => [(name, .utf8), (descriptor, .utf8)]
  | member _ owner signature => [(owner, .classRef), (signature, .nameAndType)]
  | _ => []

section Indices

variable (constants : List Constant)

/-- References lead to constants of the expected kinds. -/
def Linked : Prop := ∀ c ∈ constants, ∀ r ∈ c.references,
  ∃ d, Indexed constants r.1.toNat d ∧ d.kind = r.2

/-- The index is zero, belongs to the second slot of a wide constant, or is past all slots. -/
def Unusable (index : Nat) : Prop :=
  index = 0 ∨ (∃ i c, Indexed constants i c ∧ c.isWide = true ∧ index = i + 1) ∨
    1 + totalSlots constants ≤ index

/-- The name of a class constant. -/
def ClassNamed (index : UInt16) (name : String) : Prop :=
  ∃ n : UInt16, Indexed constants index.toNat (classRef n) ∧
    Indexed constants n.toNat (utf8 name)

/-- What a member constant refers to. -/
def Refers (index : UInt16) (ref : MemberRef) : Prop :=
  ∃ (kind : MemberKind) (o s n d : UInt16), Indexed constants index.toNat (member kind o s) ∧
    Indexed constants s.toNat (nameAndType n d) ∧ ClassNamed constants o ref.owner ∧
    Indexed constants n.toNat (utf8 ref.name) ∧ Indexed constants d.toNat (utf8 ref.descriptor) ∧
    ref.isInterface = (kind == .interfaceMethod)

end Indices

variable {constants : List Constant} {c d : Constant} {i : Nat}

theorem WrittenAs.reads {part : Bytes} (h : WrittenAs part c) : Reads read part c := by
  cases h with
  | text hsize hdecode => exact reads_payload hsize hdecode
  | other hkind =>
    -- Only texts have several encodings.
    refine reads_encode ?_
    cases c with
    | utf8 text => exact absurd rfl hkind
    | _ => trivial

/-! ### Indices that lead nowhere -/

theorem getElem?_slots_eq_none_iff {j : Nat} :
    c.slots[j]? = some none ↔ c.isWide = true ∧ j = 1 := by
  unfold slots
  split
  next hwide => rcases j with _ | _ | j <;> simp [hwide]
  next hwide => rcases j with _ | j <;> simp [hwide]

/-- Exactly the indices that are of no constant lead nowhere. -/
theorem unusable_iff : Unusable constants i ↔ ∀ c, ¬ Indexed constants i c := by
  cases i with
  | zero => simp [Unusable, not_indexed_zero]
  | succ i =>
    -- The index behind a wide constant has a slot without a constant.
    have hsecond : (∃ j c, Indexed constants j c ∧ c.isWide = true ∧ i + 1 = j + 1) ↔
        (constants.flatMap slots)[i]? = some none := by
      simp only [getElem?_flatMap_slots_iff, getElem?_slots_eq_none_iff]
      constructor
      · rintro ⟨_, c, ⟨k, hk, rfl⟩, hwide, heq⟩
        exact ⟨k, c, 1, hk, ⟨hwide, rfl⟩, by omega⟩
      · rintro ⟨k, c, _, hk, ⟨hwide, rfl⟩, rfl⟩
        exact ⟨_, c, ⟨k, hk, rfl⟩, hwide, by omega⟩
    have hpast : 1 + totalSlots constants ≤ i + 1 ↔ (constants.flatMap slots)[i]? = none := by
      rw [List.getElem?_eq_none_iff, length_flatMap_slots]
      omega
    rw [Unusable, hsecond, hpast]
    simp only [indexed_succ_iff]
    rcases (constants.flatMap slots)[i]? with _ | _ | c
    · simp
    · simp
    · simp

/-! ### Constants of a kind -/

theorem eq_utf8_of_kind (h : c.kind = .utf8) : ∃ text, c = utf8 text := by
  cases c with
  | utf8 text => exact ⟨text, rfl⟩
  -- Each kind of member has a kind of constant of its own.
  | member kind o s => cases kind <;> cases h
  | _ => cases h

theorem eq_classRef_of_kind (h : c.kind = .classRef) : ∃ name, c = classRef name := by
  cases c with
  | classRef name => exact ⟨name, rfl⟩
  | member kind o s => cases kind <;> cases h
  | _ => cases h

theorem eq_nameAndType_of_kind (h : c.kind = .nameAndType) :
    ∃ name descriptor, c = nameAndType name descriptor := by
  cases c with
  | nameAndType name descriptor => exact ⟨name, descriptor, rfl⟩
  | member kind o s => cases kind <;> cases h
  | _ => cases h

theorem Linked.reference (h : Linked constants) (hc : Indexed constants i c)
    {r : UInt16 × ConstantKind} (hr : r ∈ c.references) :
    ∃ d, Indexed constants r.1.toNat d ∧ d.kind = r.2 := by
  obtain ⟨k, hk, -⟩ := hc
  exact h c (List.mem_of_getElem? hk) r hr

theorem Linked.text (h : Linked constants) (hc : Indexed constants i c) {index : UInt16}
    (hr : (index, .utf8) ∈ c.references) : ∃ text, Indexed constants index.toNat (utf8 text) := by
  obtain ⟨d, hd, hkind⟩ := h.reference hc hr
  obtain ⟨text, rfl⟩ := eq_utf8_of_kind hkind
  exact ⟨text, hd⟩

theorem Linked.classNamed (h : Linked constants) {index n : UInt16}
    (hc : Indexed constants index.toNat (classRef n)) :
    ∃ name, ClassNamed constants index name := by
  obtain ⟨name, hname⟩ := h.text hc List.mem_cons_self
  exact ⟨name, n, hc, hname⟩

theorem Linked.refers (h : Linked constants) {index o s : UInt16} {kind : MemberKind}
    (hc : Indexed constants index.toNat (member kind o s)) : ∃ ref, Refers constants index ref := by
  have hclass : (o, ConstantKind.classRef) ∈ (member kind o s).references := by simp [references]
  have hpair : (s, ConstantKind.nameAndType) ∈ (member kind o s).references := by simp [references]
  obtain ⟨_, howner, hkind⟩ := h.reference hc hclass
  obtain ⟨_, rfl⟩ := eq_classRef_of_kind hkind
  obtain ⟨owner, howner⟩ := h.classNamed howner
  obtain ⟨_, hsignature, hkind⟩ := h.reference hc hpair
  obtain ⟨n, d, rfl⟩ := eq_nameAndType_of_kind hkind
  have hfirst : (n, ConstantKind.utf8) ∈ (nameAndType n d).references := by simp [references]
  have hsecond : (d, ConstantKind.utf8) ∈ (nameAndType n d).references := by simp [references]
  obtain ⟨name, hname⟩ := h.text hsignature hfirst
  obtain ⟨descriptor, hdescriptor⟩ := h.text hsignature hsecond
  exact ⟨⟨owner, name, descriptor, kind == .interfaceMethod⟩, kind, o, s, n, d, hc, hsignature,
    howner, hname, hdescriptor, rfl⟩

end Constant

open Constant

/-- The pool answers for the constants: each index that leads nowhere is refused, a constant of the
right kind gives what it stands for, and one of another kind is named in the refusal. -/
structure ConstantPool.Answers (pool : ConstantPool) (constants : List Constant) : Prop where
  get : ∀ index : UInt16, (Unusable constants index.toNat ∧
      pool.get index = .error (.invalidIndex index)) ∨
    ∃ c, Indexed constants index.toNat c ∧ pool.get index = .ok c
  unusable : ∀ index : UInt16, Unusable constants index.toNat →
    pool.text index = .error (.invalidIndex index) ∧
    pool.className index = .error (.invalidIndex index) ∧
    pool.memberRef index = .error (.invalidIndex index)
  text : ∀ (index : UInt16) t, Indexed constants index.toNat (utf8 t) → pool.text index = .ok t
  className : ∀ (index n : UInt16), Indexed constants index.toNat (classRef n) →
    ∃ name, ClassNamed constants index name ∧ pool.className index = .ok name
  memberRef : ∀ (index : UInt16) kind o s, Indexed constants index.toNat (member kind o s) →
    ∃ ref, Refers constants index ref ∧ pool.memberRef index = .ok ref
  text_mismatch : ∀ (index : UInt16) c, Indexed constants index.toNat c → c.kind ≠ .utf8 →
    pool.text index = .error (.kindMismatch index .utf8 c.kind)
  className_mismatch : ∀ (index : UInt16) c, Indexed constants index.toNat c →
    c.kind ≠ .classRef → pool.className index = .error (.kindMismatch index .classRef c.kind)
  memberRef_mismatch : ∀ (index : UInt16) c, Indexed constants index.toNat c →
    (∀ kind : MemberKind, c.kind ≠ kind.constantKind) →
    pool.memberRef index = .error (.kindMismatch index .methodRef c.kind)

namespace ConstantPool

/-! ### Look-ups -/

section LookUp

variable {pool : ConstantPool} {index : UInt16} {c : Constant} {e : ClassFileError}

theorem lookUp_of_get_error (h : pool.get index = .error e) :
    pool.text index = .error e ∧ pool.className index = .error e ∧
      pool.memberRef index = .error e := by
  refine ⟨?_, ?_, ?_⟩
  · rw [text, h]
    rfl
  · rw [className, h]
    rfl
  · rw [memberRef, h]
    rfl

theorem text_of_get_other (h : pool.get index = .ok c) (hkind : c.kind ≠ .utf8) :
    pool.text index = .error (.kindMismatch index .utf8 c.kind) := by
  rw [text, h]
  cases c with
  | utf8 text => exact absurd rfl hkind
  | _ => rfl

theorem className_of_get_other (h : pool.get index = .ok c) (hkind : c.kind ≠ .classRef) :
    pool.className index = .error (.kindMismatch index .classRef c.kind) := by
  rw [className, h]
  cases c with
  | classRef name => exact absurd rfl hkind
  | _ => rfl

theorem memberRef_of_get_other (h : pool.get index = .ok c)
    (hkind : ∀ kind : MemberKind, c.kind ≠ kind.constantKind) :
    pool.memberRef index = .error (.kindMismatch index .methodRef c.kind) := by
  rw [memberRef, h]
  cases c with
  | member kind o s => exact absurd rfl (hkind kind)
  | _ => rfl

end LookUp

section OfConstants

variable {constants : List Constant} {index : UInt16}

theorem get_eq_error_of_unusable (h : Unusable constants index.toNat) :
    (ofConstants constants).get index = .error (.invalidIndex index) := by
  cases hget : (ofConstants constants).get index with
  | ok c => exact absurd (get_ofConstants_eq_ok_iff.1 hget) (unusable_iff.1 h c)
  | error e =>
    unfold get at hget
    split at hget
    · -- An index in use gives its constant.
      cases hget
    · exact hget.symm

theorem className_of_classNamed {name : String} (h : ClassNamed constants index name) :
    (ofConstants constants).className index = .ok name := by
  obtain ⟨n, hclass, hname⟩ := h
  exact className_of_get (get_ofConstants_eq_ok_iff.2 hclass)
    (text_of_get (get_ofConstants_eq_ok_iff.2 hname))

theorem memberRef_of_refers {ref : MemberRef} (h : Refers constants index ref) :
    (ofConstants constants).memberRef index = .ok ref := by
  obtain ⟨kind, o, s, n, d, hmember, hsignature, howner, hname, hdescriptor, hinterface⟩ := h
  obtain ⟨owner, name, descriptor, isInterface⟩ := ref
  dsimp only at howner hname hdescriptor hinterface
  rw [hinterface]
  exact memberRef_of_get (get_ofConstants_eq_ok_iff.2 hmember)
    (get_ofConstants_eq_ok_iff.2 hsignature) (className_of_classNamed howner)
    (text_of_get (get_ofConstants_eq_ok_iff.2 hname))
    (text_of_get (get_ofConstants_eq_ok_iff.2 hdescriptor))

theorem answers_ofConstants (h : Linked constants) : (ofConstants constants).Answers constants where
  get index := by
    by_cases hindex : ∃ c, Indexed constants index.toNat c
    · obtain ⟨c, hc⟩ := hindex
      exact .inr ⟨c, hc, get_ofConstants_eq_ok_iff.2 hc⟩
    · have hnone := unusable_iff.2 (not_exists.1 hindex)
      exact .inl ⟨hnone, get_eq_error_of_unusable hnone⟩
  unusable index hindex := lookUp_of_get_error (get_eq_error_of_unusable hindex)
  text index t ht := text_of_get (get_ofConstants_eq_ok_iff.2 ht)
  className index n hn := by
    obtain ⟨name, hname⟩ := h.classNamed hn
    exact ⟨name, hname, className_of_classNamed hname⟩
  memberRef index kind o s hc := by
    obtain ⟨ref, href⟩ := h.refers hc
    exact ⟨ref, href, memberRef_of_refers href⟩
  text_mismatch index c hc := text_of_get_other (get_ofConstants_eq_ok_iff.2 hc)
  className_mismatch index c hc := className_of_get_other (get_ofConstants_eq_ok_iff.2 hc)
  memberRef_mismatch index c hc := memberRef_of_get_other (get_ofConstants_eq_ok_iff.2 hc)

end OfConstants

/-- **Indices stay aligned.** Constants that are written in order, after the number of their slots
and one, are read up to the last byte, whatever follows, if their texts decode and the slots can be
counted. If their references lead to constants of the expected kinds, then the pool answers for
them by their indices. -/
theorem read_answers {constants : List Constant} {parts : List Bytes}
    (hparts : List.Forall₂ WrittenAs parts constants)
    (hcount : 1 + totalSlots constants ≤ 0xFFFF) (hlinked : Linked constants) :
    ∃ pool : ConstantPool, pool.Answers constants ∧
      Reads read (bytes16 (UInt16.ofNat (1 + totalSlots constants)) ++ parts.flatten) pool := by
  refine ⟨ofConstants constants, answers_ofConstants hlinked, reads_read ?_ hcount⟩
  exact hparts.imp fun part c h => h.reads

/-- A call through an interface: its references lead forward, past constants of two slots, and
another such constant ends the pool. -/
def interfaceCall : List Constant :=
  [member .interfaceMethod 4 8, long 0 1, classRef 5, utf8 "a\x00B", double 0 0, nameAndType 9 10,
    utf8 "m", utf8 "()V", long 0 2]

/-- The constants as they are written, with the first text in two-byte form. -/
def interfaceCallParts : List Bytes :=
  [(member .interfaceMethod 4 8).encode, (long 0 1).encode, (classRef 5).encode,
    [1, 0, 4, 0x61, 0xC0, 0x80, 0x42], (double 0 0).encode, (nameAndType 9 10).encode,
    [1, 0, 1, 0x6D], [1, 0, 3, 0x28, 0x29, 0x56], (long 0 2).encode]

theorem read_interfaceCall :
    List.Forall₂ WrittenAs interfaceCallParts interfaceCall ∧ Linked interfaceCall ∧
      ∃ pool : ConstantPool, pool.Answers interfaceCall ∧
        Reads read (bytes16 13 ++ interfaceCallParts.flatten) pool := by
  have hfirst : ModifiedUtf8.decode [0x61, 0xC0, 0x80, 0x42] = .ok "a\x00B" := by decide +kernel
  have hname : ModifiedUtf8.decode [0x6D] = .ok "m" := by decide +kernel
  have hdescriptor : ModifiedUtf8.decode [0x28, 0x29, 0x56] = .ok "()V" := by decide +kernel
  have hparts : List.Forall₂ WrittenAs interfaceCallParts interfaceCall :=
    .cons (.other (by decide)) (.cons (.other (by decide)) (.cons (.other (by decide))
      (.cons (.text (by decide) hfirst) (.cons (.other (by decide)) (.cons (.other (by decide))
        (.cons (.text (by decide) hname) (.cons (.text (by decide) hdescriptor)
          (.cons (.other (by decide)) .nil))))))))
  have hat {k : Nat} {c : Constant} (hc : interfaceCall[k]? = some c) :
      Indexed interfaceCall (1 + totalSlots (interfaceCall.take k)) c := ⟨k, hc, rfl⟩
  have hlinked : Linked interfaceCall := by
    rintro c hc ⟨i, kind⟩ hr
    simp only [interfaceCall, List.mem_cons, List.not_mem_nil, or_false] at hc
    rcases hc with rfl | rfl | rfl | rfl | rfl | rfl | rfl | rfl | rfl <;>
      simp only [references, List.mem_cons, List.not_mem_nil, or_false, Prod.mk.injEq] at hr
    · rcases hr with ⟨rfl, rfl⟩ | ⟨rfl, rfl⟩
      · exact ⟨_, hat (k := 2) rfl, rfl⟩
      · exact ⟨_, hat (k := 5) rfl, rfl⟩
    · obtain ⟨rfl, rfl⟩ := hr
      exact ⟨_, hat (k := 3) rfl, rfl⟩
    · rcases hr with ⟨rfl, rfl⟩ | ⟨rfl, rfl⟩
      · exact ⟨_, hat (k := 6) rfl, rfl⟩
      · exact ⟨_, hat (k := 7) rfl, rfl⟩
  exact ⟨hparts, hlinked, read_answers hparts (by decide) hlinked⟩

end ConstantPool

end JvmThrows
