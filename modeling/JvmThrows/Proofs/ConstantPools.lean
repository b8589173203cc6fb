import JvmThrows.Assembly.Pool
import JvmThrows.Proofs.Reading
import JvmThrows.Proofs.Utf8

/-!
# Constant pools that are built and read

A constant reads back if its text can be stored (`Constant.reads_encode`), and so does a pool of
constants, in which each is found by its index (`get_ofConstants_eq_ok_iff`). While a pool is built
it only grows, so an index that was given out leads to the same constant in every later pool.
`Yields` is the rule for computations that ask for indices: what it says of a result holds in every
pool that the final one can be.
-/

namespace JvmThrows

open Parse

/-- Texts that a constant can hold as plain UTF-8. -/
structure IsStorable (text : String) : Prop where
  noNull : '\x00' ∉ text.toList
  size_le : text.utf8ByteSize ≤ 0xFFFF

instance (text : String) : Decidable (IsStorable text) :=
  decidable_of_iff ('\x00' ∉ text.toList ∧ text.utf8ByteSize ≤ 0xFFFF)
    ⟨fun h => ⟨h.1, h.2⟩, fun h => ⟨h.noNull, h.size_le⟩⟩

theorem ModifiedUtf8.decode_bytes {text : String} (h : '\x00' ∉ text.toList) :
    decode (Utf8.bytes text.toList) = .ok text := by
  simp [decode, Utf8.fromUTF8?_bytes, h]

namespace Constant

/-- Whether the content of a constant fits its written form. -/
def Storable : Constant → Prop
  | utf8 text => IsStorable text
  | _ => True

/-- A text constant can be written with any bytes that decode to its text. -/
theorem reads_payload {payload : Bytes} {text : String} (hsize : payload.length ≤ 0xFFFF)
    (hdecode : ModifiedUtf8.decode payload = .ok text) :
    Reads read (1 :: bytes16 (UInt16.ofNat payload.length) ++ payload) (utf8 text) := by
  have hlength : payload.length = (UInt16.ofNat payload.length).toNat := (toNat_ofNat16 hsize).symm
  have hread : Reads read
      ([1] ++ (bytes16 (UInt16.ofNat payload.length) ++ (payload ++ []))) (utf8 text) :=
    (reads_u1 1).bind ((reads_u2 _).bind ((reads_take hlength).bind
      (.lift_bind hdecode (.pure _))))
  rwa [List.append_nil] at hread

theorem reads_utf8 {text : String} (h : IsStorable text) :
    Reads read (utf8 text).encode (utf8 text) := by
  have hlength : (Utf8.bytes text.toList).length = text.toUTF8.size := Utf8.length_bytes text
  have hread := reads_payload (hlength ▸ h.size_le) (ModifiedUtf8.decode_bytes h.noNull)
  rwa [hlength, ← Utf8.toList_toUTF8] at hread

/-- A constant reads back. -/
theorem reads_encode {c : Constant} (h : c.Storable) : Reads read c.encode c := by
  cases c with
  | utf8 text => exact reads_utf8 h
  | integer bits => exact (reads_u1 3).bind ((reads_u4 bits).bind (.pure _))
  | float bits => exact (reads_u1 4).bind ((reads_u4 bits).bind (.pure _))
  | long high low => exact (reads_u1 5).bind ((reads_u4 high).bind ((reads_u4 low).bind (.pure _)))
  | double high low =>
    exact (reads_u1 6).bind ((reads_u4 high).bind ((reads_u4 low).bind (.pure _)))
  | classRef name => exact (reads_u1 7).bind ((reads_u2 name).bind (.pure _))
  | string text => exact (reads_u1 8).bind ((reads_u2 text).bind (.pure _))
  | member kind owner signature =>
    -- The three kinds of members differ in their tags only.
    have hcontent (g : UInt16 → UInt16 → Constant) :
        Reads (u2 >>= fun a => u2 >>= fun b => pure (g a b)) (bytes16 owner ++ bytes16 signature)
          (g owner signature) :=
      (reads_u2 owner).bind ((reads_u2 signature).bind (.pure _))
    cases kind with
    | field => exact (reads_u1 9).bind (hcontent (member .field))
    | method => exact (reads_u1 10).bind (hcontent (member .method))
    | interfaceMethod => exact (reads_u1 11).bind (hcontent (member .interfaceMethod))
  | nameAndType name descriptor =>
    exact (reads_u1 12).bind ((reads_u2 name).bind ((reads_u2 descriptor).bind (.pure _)))
  | methodHandle kind reference =>
    exact (reads_u1 15).bind ((reads_u1 kind).bind ((reads_u2 reference).bind (.pure _)))
  | methodType descriptor => exact (reads_u1 16).bind ((reads_u2 descriptor).bind (.pure _))
  | dynamic bootstrap signature =>
    exact (reads_u1 17).bind ((reads_u2 bootstrap).bind ((reads_u2 signature).bind (.pure _)))
  | invokeDynamic bootstrap signature =>
    exact (reads_u1 18).bind ((reads_u2 bootstrap).bind ((reads_u2 signature).bind (.pure _)))
  | moduleRef name => exact (reads_u1 19).bind ((reads_u2 name).bind (.pure _))
  | packageRef name => exact (reads_u1 20).bind ((reads_u2 name).bind (.pure _))

/-- Whether the assembler may put a constant into a pool: it fits its form and takes one index. -/
structure Poolable (c : Constant) : Prop where
  storable : c.Storable
  narrow : c.isWide = false

/-- How many indices a constant takes. -/
def slotCount (c : Constant) : Nat := if c.isWide then 2 else 1

def totalSlots (constants : List Constant) : Nat := constants.foldr (·.slotCount + ·) 0

@[simp] theorem totalSlots_cons (c : Constant) (constants : List Constant) :
    totalSlots (c :: constants) = c.slotCount + totalSlots constants := rfl

theorem totalSlots_of_narrow {constants : List Constant} (h : ∀ c ∈ constants, c.isWide = false) :
    totalSlots constants = constants.length := by
  induction constants with
  | nil => rfl
  | cons c constants ih =>
    obtain ⟨hc, hconstants⟩ := List.forall_mem_cons.1 h
    rw [totalSlots_cons, ih hconstants, slotCount, hc, List.length_cons]
    exact Nat.add_comm 1 constants.length

/-- What a constant puts into the pool; the second slot of a wide one cannot be asked for. -/
def slots (c : Constant) : List (Option Constant) := if c.isWide then [some c, none] else [some c]

@[simp] theorem length_slots (c : Constant) : c.slots.length = c.slotCount := by
  unfold slots slotCount
  split <;> rfl

theorem length_flatMap_slots (constants : List Constant) :
    (constants.flatMap slots).length = totalSlots constants := by
  induction constants with
  | nil => rfl
  | cons c constants ih => rw [List.flatMap_cons, List.length_append, length_slots, ih,
      totalSlots_cons]

/-- Of the constants, one has the index: indices count from one, and each constant before it takes
its slots. -/
def Indexed (constants : List Constant) (index : Nat) (c : Constant) : Prop :=
  ∃ k, constants[k]? = some c ∧ index = 1 + totalSlots (constants.take k)

/-- A slot is one of a constant, behind those of the constants before it. -/
theorem getElem?_flatMap_slots_iff {constants : List Constant} {slot : Option Constant} {i : Nat} :
    (constants.flatMap slots)[i]? = some slot ↔ ∃ k c j, constants[k]? = some c ∧
      c.slots[j]? = some slot ∧ i = totalSlots (constants.take k) + j := by
  induction constants generalizing i with
  | nil => simp
  | cons d constants ih =>
    rw [List.flatMap_cons]
    by_cases hi : i < d.slots.length
    · -- The slot is one of the first constant.
      rw [List.getElem?_append_left hi]
      constructor
      · intro hslot
        exact ⟨0, d, i, rfl, hslot, (Nat.zero_add i).symm⟩
      · rintro ⟨k, c, j, hk, hslot, rfl⟩
        cases k with
        | zero =>
          obtain rfl : d = c := Option.some.inj hk
          rwa [List.take_zero, totalSlots, List.foldr_nil, Nat.zero_add]
        -- The slots of later constants begin behind those of the first.
        | succ k =>
          rw [List.take_succ_cons, totalSlots_cons, ← length_slots] at hi
          omega
    · rw [List.getElem?_append_right (Nat.le_of_not_lt hi), ih, length_slots]
      rw [length_slots] at hi
      constructor
      · rintro ⟨k, c, j, hk, hslot, heq⟩
        exact ⟨k + 1, c, j, hk, hslot, by rw [List.take_succ_cons, totalSlots_cons]; omega⟩
      · rintro ⟨k, c, j, hk, hslot, rfl⟩
        cases k with
        | zero =>
          obtain rfl : d = c := Option.some.inj hk
          have hj := (List.getElem?_eq_some_iff.1 hslot).1
          rw [length_slots] at hj
          rw [List.take_zero, totalSlots, List.foldr_nil] at hi
          omega
        | succ k =>
          exact ⟨k, c, j, hk, hslot, by rw [List.take_succ_cons, totalSlots_cons]; omega⟩

theorem getElem?_slots_eq_some_iff {c d : Constant} {j : Nat} :
    d.slots[j]? = some (some c) ↔ d = c ∧ j = 0 := by
  unfold slots
  split
  · rcases j with _ | _ | j <;> simp
  · rcases j with _ | j <;> simp

theorem indexed_succ_iff {constants : List Constant} {c : Constant} {i : Nat} :
    Indexed constants (i + 1) c ↔ (constants.flatMap slots)[i]? = some (some c) := by
  rw [getElem?_flatMap_slots_iff, Indexed]
  simp only [getElem?_slots_eq_some_iff]
  constructor
  · rintro ⟨k, hk, heq⟩
    exact ⟨k, c, 0, hk, ⟨rfl, rfl⟩, by omega⟩
  · rintro ⟨k, _, _, hk, ⟨rfl, rfl⟩, rfl⟩
    exact ⟨k, hk, by omega⟩

theorem not_indexed_zero {constants : List Constant} {c : Constant} : ¬ Indexed constants 0 c := by
  rintro ⟨k, -, hzero⟩
  omega

end Constant

namespace ConstantPool

/-- The pool of constants in order. -/
def ofConstants (constants : List Constant) : ConstantPool := ⟨constants.foldl pushConstant #[none]⟩

theorem reads_readFrom {parts : List Bytes} {constants : List Constant}
    (h : List.Forall₂ (Reads Constant.read) parts constants) (slots : Array (Option Constant)) :
    Reads (readFrom (Constant.totalSlots constants) slots) parts.flatten
      (constants.foldl pushConstant slots) := by
  induction h generalizing slots with
  | nil => exact .pure slots
  | @cons part c parts constants hc _ ih =>
    have hrest := ih (pushConstant slots c)
    rw [Constant.totalSlots_cons, List.flatten_cons, List.foldl_cons]
    by_cases hwide : c.isWide = true
    · -- A wide constant uses up the index behind it, which reading skips.
      rw [Constant.slotCount, if_pos hwide, Nat.add_comm 2, readFrom]
      refine hc.bind ?_
      rw [if_pos hwide]
      exact hrest
    · rw [Constant.slotCount, if_neg hwide, Nat.add_comm 1, readFrom]
      refine hc.bind ?_
      rw [if_neg hwide]
      exact hrest

/-- Constants read back if the count before them tells their slots. -/
theorem reads_read {parts : List Bytes} {constants : List Constant}
    (h : List.Forall₂ (Reads Constant.read) parts constants)
    (hcount : 1 + Constant.totalSlots constants ≤ 0xFFFF) :
    Reads read (bytes16 (UInt16.ofNat (1 + Constant.totalSlots constants)) ++ parts.flatten)
      (.ofConstants constants) := by
  have hleft : (UInt16.ofNat (1 + Constant.totalSlots constants)).toNat - 1 =
      Constant.totalSlots constants := by
    rw [toNat_ofNat16 hcount]
    omega
  have hread := reads_readFrom h #[none]
  rw [← hleft] at hread
  rw [← List.append_nil parts.flatten]
  exact (reads_u2 _).bind (hread.bind (.pure _))

theorem foldl_pushConstant (constants : List Constant) (slots : Array (Option Constant)) :
    constants.foldl pushConstant slots = slots ++ (constants.flatMap Constant.slots).toArray := by
  induction constants generalizing slots with
  | nil => simp
  | cons c constants ih =>
    rw [List.foldl_cons, ih, pushConstant, List.flatMap_cons, Constant.slots]
    split <;> simp

theorem slots_ofConstants (constants : List Constant) (i : Nat) :
    (ofConstants constants).slots[i]? = (none :: constants.flatMap Constant.slots)[i]? := by
  rw [ofConstants, foldl_pushConstant]
  simp

/-- Look-ups find the constants by their indices. -/
theorem get_ofConstants_eq_ok_iff {constants : List Constant} {index : UInt16} {c : Constant} :
    (ofConstants constants).get index = .ok c ↔ Constant.Indexed constants index.toNat c := by
  have hget : (ofConstants constants).get index = .ok c ↔
      (ofConstants constants).slots[index.toNat]? = some (some c) := by
    unfold get
    split
    next d hd => simp [hd]
    next hnone => simpa using hnone c
  rw [hget, slots_ofConstants]
  cases index.toNat with
  -- Index 0 is never used.
  | zero => simp [Constant.not_indexed_zero]
  | succ i => rw [List.getElem?_cons_succ, Constant.indexed_succ_iff]

section LookUp

variable {pool : ConstantPool} {i o n d s : UInt16}

theorem text_of_get {text : String} (h : pool.get i = .ok (.utf8 text)) :
    pool.text i = .ok text := by
  unfold ConstantPool.text
  rw [h]
  rfl

theorem className_of_get {name : String} (h : pool.get i = .ok (.classRef n))
    (hname : pool.text n = .ok name) : pool.className i = .ok name := by
  unfold className
  rw [h]
  exact hname

theorem className?_of_className {name : String} (hi : i ≠ 0) (h : pool.className i = .ok name) :
    pool.className? i = .ok (some name) := by
  have hzero : (i == 0) = false := by simpa using hi
  unfold className?
  rw [hzero, h]
  rfl

theorem memberRef_of_get {kind : MemberKind} {owner name descriptor : String}
    (h : pool.get i = .ok (.member kind o s)) (hs : pool.get s = .ok (.nameAndType n d))
    (ho : pool.className o = .ok owner) (hn : pool.text n = .ok name)
    (hd : pool.text d = .ok descriptor) :
    pool.memberRef i = .ok ⟨owner, name, descriptor, kind == .interfaceMethod⟩ := by
  unfold memberRef
  rw [h]
  show (pool.get s >>= _) = _
  rw [hs]
  show (pool.className o >>= _) = _
  rw [ho]
  show (pool.text n >>= _) = _
  rw [hn]
  show (pool.text d >>= _) = _
  rw [hd]
  rfl

end LookUp

end ConstantPool

namespace Assembly

/-- The constants of a pool that can be written: all indices can be told. -/
structure Writable (constants : List Constant) : Prop where
  poolable : ∀ c ∈ constants, c.Poolable
  length_le : constants.length ≤ 0xFFFE

namespace Writable

variable {constants : List Constant} (h : Writable constants)
include h

theorem totalSlots_eq : Constant.totalSlots constants = constants.length :=
  Constant.totalSlots_of_narrow fun c hc => (h.poolable c hc).narrow

theorem reads_encodePool :
    Reads ConstantPool.read (encodePool constants) (.ofConstants constants) := by
  have hparts : List.Forall₂ (Reads Constant.read) (constants.map (·.encode)) constants :=
    List.forall₂_map_left_iff.2 (List.forall₂_same.2 fun c hc =>
      Constant.reads_encode (h.poolable c hc).storable)
  have hread := ConstantPool.reads_read hparts (by
    rw [h.totalSlots_eq, Nat.add_comm]
    exact Nat.succ_le_succ h.length_le)
  rwa [h.totalSlots_eq, Nat.add_comm, ← List.flatMap_def] at hread

/-- Indices count from one. -/
theorem get_ofConstants {i : Nat} {c : Constant} (hc : constants[i]? = some c) :
    UInt16.ofNat (i + 1) ≠ 0 ∧
      (ConstantPool.ofConstants constants).get (UInt16.ofNat (i + 1)) = .ok c := by
  have hlt : i < constants.length := (List.getElem?_eq_some_iff.1 hc).1
  have hindex : (UInt16.ofNat (i + 1)).toNat = i + 1 :=
    toNat_ofNat16 (Nat.le_trans (Nat.succ_le_of_lt hlt) (Nat.le_succ_of_le h.length_le))
  have hslots : Constant.totalSlots (constants.take i) = i := by
    rw [Constant.totalSlots_of_narrow fun c hc => (h.poolable c (List.mem_of_mem_take hc)).narrow,
      List.length_take, Nat.min_eq_left (Nat.le_of_lt hlt)]
  refine ⟨fun hzero => ?_, ConstantPool.get_ofConstants_eq_ok_iff.2 ⟨i, hc, ?_⟩⟩
  · rw [hzero] at hindex
    -- An index that fits is not 0 after wrapping.
    exact absurd hindex (by simp)
  · rw [hindex, hslots, Nat.add_comm]

end Writable

/-- The computation only adds constants that a pool may hold, and its result is right in every pool
that holds all of them. -/
def Yields {α : Type} (m : Pooled α) (post : ConstantPool → α → Prop) : Prop :=
  ∀ constants : List Constant, (∀ c ∈ constants, c.Poolable) →
    constants <+: (m constants).2 ∧ (∀ c ∈ (m constants).2, c.Poolable) ∧
      ∀ pool, (m constants).2 <+: pool → Writable pool →
        post (.ofConstants pool) (m constants).1

namespace Yields

variable {α β : Type} {m : Pooled α} {f : α → Pooled β} {P P' : ConstantPool → α → Prop}
  {Q : α → ConstantPool → β → Prop}

theorem mono (h : Yields m P) (hP : ∀ pool a, P pool a → P' pool a) : Yields m P' := by
  intro constants hconstants
  obtain ⟨hgrows, hpoolable, hpost⟩ := h constants hconstants
  exact ⟨hgrows, hpoolable, fun pool hpool hwritable => hP _ _ (hpost pool hpool hwritable)⟩

theorem pure (a : α) : Yields (pure a) fun _ b => b = a :=
  fun constants hconstants => ⟨List.prefix_refl constants, hconstants, fun _ _ _ => rfl⟩

theorem bind (h : Yields m P) (hf : ∀ a, Yields (f a) (Q a)) :
    Yields (m >>= f) fun pool b => ∃ a, P pool a ∧ Q a pool b := by
  intro constants hconstants
  obtain ⟨hgrows, hpoolable, hpost⟩ := h constants hconstants
  obtain ⟨hgrows', hpoolable', hpost'⟩ := hf (m constants).1 (m constants).2 hpoolable
  exact ⟨hgrows.trans hgrows', hpoolable', fun pool hpool hwritable =>
    ⟨(m constants).1, hpost pool (hgrows'.trans hpool) hwritable, hpost' pool hpool hwritable⟩⟩

theorem mapM {f : α → Pooled β} {items : List α} (h : ∀ a ∈ items, Yields (f a) (Q a)) :
    Yields (items.mapM f) fun pool bs => List.Forall₂ (fun a b => Q a pool b) items bs := by
  induction items with
  | nil => exact (pure []).mono fun _ _ hb => hb ▸ .nil
  | cons a items ih =>
    obtain ⟨ha, hitems⟩ := List.forall_mem_cons.1 h
    rw [List.mapM_cons]
    refine (ha.bind fun b => (ih hitems).bind fun bs => pure (b :: bs)).mono ?_
    rintro pool result ⟨b, hb, bs, hbs, rfl⟩
    exact .cons hb hbs

end Yields

/-! ### Indices -/

/-- The index of a constant leads to it. -/
theorem yields_intern {c : Constant} (hc : c.Poolable) :
    Yields (intern c) fun pool i => i ≠ 0 ∧ pool.get i = .ok c := by
  intro constants hconstants
  cases hfind : constants.findIdx? (· == c) with
  | some i =>
    -- Constants that are there are not added again.
    have hrun : intern c constants = (UInt16.ofNat (i + 1), constants) := by simp [intern, hfind]
    obtain ⟨hi, hget, -⟩ := List.findIdx?_eq_some_iff_getElem.1 hfind
    rw [hrun]
    refine ⟨List.prefix_refl _, hconstants, fun pool hpool hwritable => ?_⟩
    have hpooled := List.prefix_iff_getElem?.1 hpool i hi
    exact hwritable.get_ofConstants (hpooled.trans (congrArg some (eq_of_beq hget)))
  | none =>
    have hrun : intern c constants =
        (UInt16.ofNat (constants.length + 1), constants ++ [c]) := by simp [intern, hfind]
    rw [hrun]
    refine ⟨List.prefix_append _ _, fun x hx => ?_, fun pool hpool hwritable => ?_⟩
    · rcases List.mem_append.1 hx with hx | hx
      · exact hconstants x hx
      · exact List.mem_singleton.1 hx ▸ hc
    · -- The pool may grow later on, but this constant stays at its index.
      have hpooled := List.prefix_iff_getElem?.1 hpool constants.length (by simp)
      exact hwritable.get_ofConstants (hpooled.trans (by simp))

theorem yields_internText {text : String} (h : IsStorable text) :
    Yields (internText text) fun pool i => pool.text i = .ok text :=
  (yields_intern (c := .utf8 text) ⟨h, rfl⟩).mono fun _ _ hi => ConstantPool.text_of_get hi.2

theorem yields_internClass {name : String} (h : IsStorable name) :
    Yields (internClass name) fun pool i => i ≠ 0 ∧ pool.className i = .ok name := by
  refine ((yields_internText h).bind fun i => yields_intern (c := .classRef i)
    ⟨trivial, rfl⟩).mono ?_
  rintro pool i ⟨j, htext, hne, hget⟩
  exact ⟨hne, ConstantPool.className_of_get hget htext⟩

theorem yields_internMethod {kind : MemberKind} {owner name descriptor : String}
    (howner : IsStorable owner) (hname : IsStorable name) (hdescriptor : IsStorable descriptor) :
    Yields (internMethod kind owner name descriptor) fun pool i =>
      pool.memberRef i = .ok ⟨owner, name, descriptor, kind == .interfaceMethod⟩ := by
  refine ((yields_internClass howner).bind fun o => (yields_internText hname).bind fun n =>
    (yields_internText hdescriptor).bind fun d =>
      (yields_intern (c := .nameAndType n d) ⟨trivial, rfl⟩).bind fun s =>
        yields_intern (c := .member kind o s) ⟨trivial, rfl⟩).mono ?_
  rintro pool i ⟨o, ⟨-, ho⟩, n, hn, d, hd, s, ⟨-, hs⟩, -, hi⟩
  exact ConstantPool.memberRef_of_get hi hs ho hn hd

end Assembly

end JvmThrows
