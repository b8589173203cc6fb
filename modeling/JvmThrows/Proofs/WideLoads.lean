import JvmThrows.Proofs.ConstructorArguments
import JvmThrows.Proofs.InstructionTiling

/-!
# Wide loads of references

A load of a reference from a local variable can be written with a wide index. The decoder shows
every wide instruction alike, so the scan takes such a load for an instruction that brings no
reference, and what would have been thrown before it still would be. Rewriting loads of a straight
body in this way hence never loses a throw (`Recoded.types_sublist`), but it may add some. It
changes nothing exactly if each rewritten load that stands between the making of an object and its
throw stands among the arguments of a constructor (`types_widenLoads_eq_iff`).

The bytes of a body are cut where its instructions start (`encodings`). Without branches an
instruction can be moved (`Stands`), so the parts decode one by one, rewritten or not
(`decode_widenLoads`). The rest is about the two accounts of what a body throws by positions, which
differ in the rewritten loads only (`Recoded`).
-/

namespace JvmThrows

open Instruction

/-! ### Rewriting -/

/-- The bytes of each instruction: from its position up to that of the next one. -/
def encodings (code : Bytes) : List Instruction → List Bytes
  | [] => []
  | [i] => [code.drop i.pc]
  | i :: j :: rest => (code.drop i.pc).take (j.pc - i.pc) :: encodings code (j :: rest)

/-- The local variable of which an instruction loads the reference. -/
def loadSlot? : Bytes → Option UInt8
  | [opcode, slot] => if opcode = 0x19 then some slot else none
  | [opcode] =>
    -- the variable is part of the opcode
    if opcode = 0x2a ∨ opcode = 0x2b ∨ opcode = 0x2c ∨ opcode = 0x2d then some (opcode - 0x2a)
    else none
  | _ => none

/-- The wide form of a load; other instructions stay as they are. -/
def widenLoad (part : Bytes) : Bytes :=
  match loadSlot? part with
  | some slot => [0xc4, 0x19, 0, slot]
  | none => part

/-- Rewrites those of the chosen instructions that are loads. -/
def widenLoads (chosen : Nat → Bool) (parts : List Bytes) : Bytes :=
  (parts.mapIdx fun k part => if chosen k then widenLoad part else part).flatten

namespace Operation

/-- Loads a reference from a local variable, in a form that is not wide. -/
def isLoad : Operation → Bool
  | .other opcode => [0x19, 0x2a, 0x2b, 0x2c, 0x2d].contains opcode
  | _ => false

/-- What a rewritten load decodes to. -/
def widened (op : Operation) : Operation := if op.isLoad then .other 0xc4 else op

def isBranch : Operation → Bool
  | .branch _ _ => true
  | _ => false

theorem isBranch_widened {op : Operation} (h : op.isBranch = false) :
    op.widened.isBranch = false := by
  unfold widened
  split
  · rfl
  · exact h

theorem opcode_of_isLoad {opcode : UInt8} (h : (other opcode).isLoad = true) :
    opcode = 0x19 ∨ opcode = 0x2a ∨ opcode = 0x2b ∨ opcode = 0x2c ∨ opcode = 0x2d := by
  simpa [isLoad] using h

end Operation

/-! ### Instructions that can be moved -/

/-- The bytes are an instruction of the operation, wherever it stands. -/
def Stands (pool : ConstantPool) (part : Bytes) (op : Operation) : Prop :=
  ∃ opcode operands, part = opcode :: operands ∧ ∀ pc rest,
    Instruction.read pool pc opcode (operands ++ rest) = .ok (op, operands.length)

section Parts

variable {pool : ConstantPool} {code operands part : Bytes} {pc size : Nat} {opcode : UInt8}
  {op : Operation} {instructions : List Instruction}

theorem index?_take {i : UInt16} (h : index? operands = some i) (hsize : 2 ≤ size)
    (rest : Bytes) : index? (operands.take size ++ rest) = some i := by
  obtain ⟨n, rfl⟩ := Nat.exists_eq_add_of_le' hsize
  rcases operands with _ | ⟨a, _ | ⟨b, operands⟩⟩
  · cases h
  · cases h
  · exact h

open Bytecode in
/-- An instruction that is no branch can be read from its own bytes, at any position. -/
theorem read_moved (h : Instruction.read pool pc opcode operands = .ok (op, size))
    (hbranch : op.isBranch = false) (pc' : Nat) (rest : Bytes) :
    Instruction.read pool pc' opcode (operands.take size ++ rest) = .ok (op, size) := by
  unfold Instruction.read at h ⊢
  obtain ⟨layout, hlayout, h⟩ := bind_eq_ok_iff.1 h
  refine bind_eq_ok_iff.2 ⟨layout, hlayout, ?_⟩
  cases layout with
  | plain k => exact h
  | leave k => exact h
  | athrow => exact h
  | jump unconditional | farJump unconditional =>
    -- Targets depend on the position, but branches are left out.
    obtain ⟨_, -, h⟩ := bind_eq_ok_iff.1 h
    obtain ⟨_, -, ⟨⟩⟩ := bind_eq_ok_iff.1 h
    cases hbranch
  | tableSwitch | lookupSwitch =>
    obtain ⟨⟨_, _⟩, -, h⟩ := bind_eq_ok_iff.1 h
    obtain ⟨_, -, ⟨⟩⟩ := bind_eq_ok_iff.1 h
    cases hbranch
  | invoke kind =>
    obtain ⟨i, hi, h⟩ := bind_eq_ok_iff.1 h
    obtain ⟨member, hmember, ⟨⟩⟩ := bind_eq_ok_iff.1 h
    -- Every form of a call has the index of its method in front.
    have hsize : 2 ≤ if kind = .interface then 4 else 2 := by split <;> omega
    have hindex := index?_take (need_eq_ok_iff.1 hi) hsize rest
    refine bind_eq_ok_iff.2 ⟨i, need_eq_ok_iff.2 hindex, ?_⟩
    exact bind_eq_ok_iff.2 ⟨member, hmember, rfl⟩
  | new =>
    obtain ⟨i, hi, h⟩ := bind_eq_ok_iff.1 h
    obtain ⟨name, hname, ⟨⟩⟩ := bind_eq_ok_iff.1 h
    have hindex := index?_take (need_eq_ok_iff.1 hi) (Nat.le_refl 2) rest
    refine bind_eq_ok_iff.2 ⟨i, need_eq_ok_iff.2 hindex, ?_⟩
    exact bind_eq_ok_iff.2 ⟨name, hname, rfl⟩
  | wide =>
    obtain ⟨first, hfirst, ⟨⟩⟩ := bind_eq_ok_iff.1 h
    refine bind_eq_ok_iff.2 ⟨first, need_eq_ok_iff.2 ?_, rfl⟩
    obtain ⟨tail, rfl⟩ := List.head?_eq_some_iff.1 (need_eq_ok_iff.1 hfirst)
    split <;> rfl

theorem decodeFrom_eq_ok_nil {bytes : Bytes} (h : decodeFrom pool pc bytes = .ok []) :
    bytes = [] := by
  cases bytes with
  | nil => rfl
  | cons opcode operands =>
    obtain ⟨_, _, _, -, -, -, ⟨⟩⟩ := Bytecode.decodeFrom_cons_eq_ok_iff.1 h

theorem pc_of_decodeFrom {bytes : Bytes} {i : Instruction}
    (h : decodeFrom pool pc bytes = .ok (i :: instructions)) : i.pc = pc := by
  cases bytes with
  | nil =>
    rw [decodeFrom] at h
    cases h
  | cons opcode operands =>
    obtain ⟨_, _, _, -, -, -, ⟨⟩⟩ := Bytecode.decodeFrom_cons_eq_ok_iff.1 h
    rfl

/-- The first of the decoded instructions has its opcode and its operands for bytes, and the others
are decoded from what follows them. -/
theorem encodings_cons {i : Instruction}
    (h : decodeFrom pool pc (code.drop pc) = .ok (i :: instructions)) :
    ∃ opcode operands size, code.drop pc = opcode :: operands ∧
      Instruction.read pool pc opcode operands = .ok (i.op, size) ∧ size ≤ operands.length ∧
      operands.drop size = code.drop (pc + 1 + size) ∧
      decodeFrom pool (pc + 1 + size) (code.drop (pc + 1 + size)) = .ok instructions ∧
      encodings code (i :: instructions) =
        (opcode :: operands.take size) :: encodings code instructions := by
  cases hbytes : code.drop pc with
  | nil =>
    rw [hbytes, decodeFrom] at h
    cases h
  | cons opcode operands =>
    rw [hbytes, Bytecode.decodeFrom_cons_eq_ok_iff] at h
    obtain ⟨op, size, _, hread, hle, hdecode, ⟨⟩⟩ := h
    have hoperands : operands.drop size = code.drop (pc + 1 + size) := by
      rw [← List.drop_drop, ← List.tail_drop, hbytes, List.tail_cons]
    refine ⟨opcode, operands, size, rfl, hread, hle, hoperands, hoperands ▸ hdecode, ?_⟩
    cases instructions with
    | nil =>
      -- The last instruction has all bytes that are left.
      have hall := List.drop_eq_nil_iff.1 (decodeFrom_eq_ok_nil hdecode)
      show [code.drop pc] = [opcode :: operands.take size]
      rw [hbytes, List.take_of_length_le hall]
    | cons j rest =>
      have hnext : j.pc - pc = size + 1 := by
        rw [pc_of_decodeFrom hdecode]
        omega
      rw [encodings, hbytes, hnext, List.take_succ_cons]

/-- The bytes of the instructions make up the code. -/
theorem flatten_encodings (h : decodeFrom pool pc (code.drop pc) = .ok instructions) :
    (encodings code instructions).flatten = code.drop pc := by
  induction instructions generalizing pc with
  | nil => exact (decodeFrom_eq_ok_nil h).symm
  | cons i rest ih =>
    obtain ⟨opcode, operands, size, hbytes, -, -, hoperands, hrest, hparts⟩ := encodings_cons h
    rw [hparts, List.flatten_cons, ih hrest, ← hoperands, List.cons_append, List.take_append_drop,
      hbytes]

/-- The bytes of a body without branches are instructions that can be moved. -/
theorem stands_encodings (h : decodeFrom pool pc (code.drop pc) = .ok instructions)
    (hbranch : ∀ i ∈ instructions, i.op.isBranch = false) :
    List.Forall₂ (fun part i => Stands pool part i.op) (encodings code instructions)
      instructions := by
  induction instructions generalizing pc with
  | nil => exact .nil
  | cons i rest ih =>
    obtain ⟨hi, hothers⟩ := List.forall_mem_cons.1 hbranch
    obtain ⟨opcode, operands, size, -, hread, hle, -, hrest, hparts⟩ := encodings_cons h
    have hlength : (operands.take size).length = size := by
      rw [List.length_take, Nat.min_eq_left hle]
    rw [hparts]
    refine .cons ⟨opcode, operands.take size, rfl, fun pc' rest' => ?_⟩ (ih hrest hothers)
    rw [hlength]
    exact read_moved hread hi pc' rest'

/-- Instructions that can be moved decode one after the other. -/
theorem decodeFrom_flatten {parts : List Bytes} {ops : List Operation}
    (h : List.Forall₂ (Stands pool) parts ops) (pc : Nat) :
    ∃ instructions, decodeFrom pool pc parts.flatten = .ok instructions ∧
      instructions.map (·.op) = ops := by
  induction h generalizing pc with
  | nil => exact ⟨[], by rw [List.flatten_nil, decodeFrom], rfl⟩
  | @cons part op parts ops hpart _ ih =>
    obtain ⟨opcode, operands, rfl, hread⟩ := hpart
    obtain ⟨instructions, hdecode, hops⟩ := ih (pc + 1 + operands.length)
    refine ⟨⟨pc, op⟩ :: instructions, ?_, by rw [List.map_cons, hops]⟩
    rw [List.flatten_cons, List.cons_append, Bytecode.decodeFrom_cons_eq_ok_iff]
    refine ⟨op, operands.length, instructions, hread pc _, by simp, ?_, rfl⟩
    rwa [List.drop_left]

/-! ### Loads -/

/-- Only the opcode of an instruction can stand for all that it does. -/
theorem read_eq_other {b : UInt8}
    (h : Instruction.read pool 0 opcode operands = .ok (.other b, size)) : b = opcode := by
  have hcode : (opcode :: operands).drop 0 = opcode :: operands := rfl
  obtain ⟨-, _, ⟨⟩, hgives⟩ := (Bytecode.read_eq_ok_iff hcode).1 h
  generalize Bytecode.effect opcode = effect at hgives
  cases effect with
  | other =>
    cases hgives
    rfl
  | branch unconditional => obtain ⟨_, -, -, ⟨⟩⟩ := hgives
  | invoke kind => obtain ⟨_, _, -, -, ⟨⟩⟩ := hgives
  | new => obtain ⟨_, _, -, -, ⟨⟩⟩ := hgives
  | athrow => cases hgives
  | leave => cases hgives

theorem read_plain {k : Nat} (h : Layout.ofOpcode? opcode = some (.plain k)) :
    Instruction.read pool pc opcode operands = .ok (.other opcode, k) := by
  rw [Instruction.read, h]
  rfl

/-- A load has one of the forms that can be rewritten. -/
theorem Stands.loadSlot? (h : Stands pool part op) (hload : op.isLoad = true) :
    ∃ slot, loadSlot? part = some slot := by
  obtain ⟨opcode, operands, rfl, hread⟩ := h
  have hread := hread 0 []
  cases op with
  | other b =>
    obtain rfl := read_eq_other hread
    have hlength {k : Nat} (hlayout : Layout.ofOpcode? b = some (.plain k)) :
        operands.length = k := by
      rw [read_plain hlayout] at hread
      cases hread
      rfl
    rcases Operation.opcode_of_isLoad hload with rfl | rfl | rfl | rfl | rfl
    · -- The general form has the variable for an operand, the short ones have none.
      obtain ⟨slot, rfl⟩ := List.length_eq_one_iff.1 (hlength rfl)
      exact ⟨slot, rfl⟩
    all_goals
      obtain rfl := List.length_eq_zero_iff.1 (hlength rfl)
      exact ⟨_, rfl⟩
  | _ => cases hload

theorem load_of_loadSlot? {slot : UInt8} (h : loadSlot? part = some slot) :
    ∃ opcode operands, part = opcode :: operands ∧
      Layout.ofOpcode? opcode = some (.plain operands.length) ∧
      (Operation.other opcode).isLoad = true := by
  unfold loadSlot? at h
  split at h
  · split_ifs at h with hopcode
    subst hopcode
    exact ⟨_, _, rfl, rfl, rfl⟩
  · split_ifs at h with hopcode
    rcases hopcode with rfl | rfl | rfl | rfl
    all_goals exact ⟨_, _, rfl, rfl, rfl⟩
  · cases h

theorem Stands.widenLoad (h : Stands pool part op) : Stands pool (widenLoad part) op.widened := by
  unfold JvmThrows.widenLoad
  split
  next slot hslot =>
    have hop : op.widened = .other 0xc4 := by
      obtain ⟨opcode, operands, rfl, hlayout, hload⟩ := load_of_loadSlot? hslot
      obtain ⟨_, _, ⟨⟩, hread⟩ := h
      have hread := hread 0 []
      rw [read_plain hlayout] at hread
      cases hread
      exact if_pos hload
    rw [hop]
    exact ⟨0xc4, [0x19, 0, slot], rfl, fun _ _ => rfl⟩
  next hnone =>
    have hload : op.isLoad = false := by
      by_contra hload
      obtain ⟨slot, hslot⟩ := h.loadSlot? (by simpa using hload)
      rw [hnone] at hslot
      cases hslot
    rw [Operation.widened, hload]
    exact h

theorem forall₂_mapIdx {α β α' β' : Type} {R : α → β → Prop} {R' : α' → β' → Prop}
    {as : List α} {bs : List β} {f : Nat → α → α'} {g : Nat → β → β'} (h : List.Forall₂ R as bs)
    (hfg : ∀ k a b, R a b → R' (f k a) (g k b)) :
    List.Forall₂ R' (as.mapIdx f) (bs.mapIdx g) := by
  induction h generalizing f g with
  | nil => exact .nil
  | cons hab _ ih =>
    rw [List.mapIdx_cons, List.mapIdx_cons]
    exact .cons (hfg 0 _ _ hab) (ih fun k => hfg (k + 1))

/-- A body without branches still decodes when loads are rewritten, and only they look different. -/
theorem decode_widenLoads (hdecode : decode pool code = .ok instructions)
    (hbranch : ∀ i ∈ instructions, i.op.isBranch = false) (chosen : Nat → Bool) :
    ∃ instructions', decode pool (widenLoads chosen (encodings code instructions)) =
        .ok instructions' ∧
      instructions'.map (·.op) =
        (instructions.map (·.op)).mapIdx fun k op => if chosen k then op.widened else op := by
  have hparts : List.Forall₂ (Stands pool) (encodings code instructions)
      (instructions.map (·.op)) := by
    rw [← code.drop_zero, decode] at hdecode
    exact List.forall₂_map_right_iff.2 (stands_encodings hdecode hbranch)
  refine decodeFrom_flatten (forall₂_mapIdx hparts fun k part op h => ?_) 0
  by_cases hk : chosen k = true
  · rw [if_pos hk, if_pos hk]
    exact h.widenLoad
  · rw [if_neg hk, if_neg hk]
    exact h

end Parts

namespace Code

/-! ### Throws in order -/

/-- The class names of what is thrown, in the order of the throws. -/
def types (code : Code) : List String := code.thrown.map (·.2)

/-- What is thrown at an index, if it is known. -/
def thrownAt (code : Code) (i : Nat) : Option String :=
  if code.op? i = some .athrow then (code.trackerAt i).operand else none

theorem types_throwsFrom {code : Code} {s : Tracker} {rest : List Instruction} {i : Nat}
    (hrest : code.instructions.drop i = rest)
    (hs : ∀ ins, code.instructions[i]? = some ins →
      s.enter code.blockStarts ins.pc = code.trackerAt i) :
    (Tracker.throwsFrom code.blockStarts s rest).map (·.2) =
      (List.range' i rest.length).filterMap code.thrownAt := by
  induction rest generalizing i s with
  | nil => rfl
  | cons ins rest ih =>
    have hins : code.instructions[i]? = some ins := by
      rw [← List.head?_drop, hrest, List.head?_cons]
    have hnext : code.instructions.drop (i + 1) = rest := by
      rw [← List.tail_drop, hrest, List.tail_cons]
    have hfirst : ((code.trackerAt i).thrownBy ins).map (·.2) = (code.thrownAt i).toList := by
      have hop : code.op? i = some ins.op := by rw [op?, hins, Option.map_some]
      rw [Tracker.thrownBy, thrownAt, hop]
      by_cases hthrow : ins.op = .athrow
      · rw [if_pos hthrow, if_pos (congrArg some hthrow)]
        cases (code.trackerAt i).operand <;> rfl
      · rw [if_neg hthrow, if_neg (fun heq => hthrow (Option.some.inj heq))]
        rfl
    rw [Tracker.throwsFrom_cons, hs ins hins, List.map_append, hfirst,
      ih hnext fun next => enter_step_trackerAt hins, List.length_cons, List.range'_succ,
      List.filterMap_cons]
    cases code.thrownAt i <;> rfl

theorem types_eq (code : Code) :
    code.types = (List.range' 0 code.instructions.length).filterMap code.thrownAt :=
  types_throwsFrom List.drop_zero fun ins _ => by simp [Tracker.enter, trackerAt]

theorem thrownAt_eq_some_iff {code : Code} {i : Nat} {c : String} :
    code.thrownAt i = some c ↔ code.op? i = some .athrow ∧ code.Holds i c := by
  rw [thrownAt, ← operand_trackerAt_iff]
  split
  next hthrow => simp [hthrow]
  next hthrow => simp [hthrow]

section Lists

variable {α β : Type} {f g : α → Option β} {l : List α}

theorem filterMap_sublist_of_le (h : ∀ a b, f a = some b → g a = some b) :
    (l.filterMap f).Sublist (l.filterMap g) := by
  induction l with
  | nil => exact .slnil
  | cons a l ih =>
    cases hf : f a with
    | none =>
      rw [List.filterMap_cons_none hf]
      cases hg : g a with
      | none =>
        rw [List.filterMap_cons_none hg]
        exact ih
      | some b =>
        rw [List.filterMap_cons_some hg]
        exact ih.cons b
    | some b =>
      rw [List.filterMap_cons_some hf, List.filterMap_cons_some (h a b hf)]
      exact ih.cons_cons b

/-- The larger list is the same only if nothing was added anywhere. -/
theorem filterMap_eq_iff_of_le (h : ∀ a b, f a = some b → g a = some b) :
    l.filterMap g = l.filterMap f ↔ ∀ a ∈ l, g a = f a := by
  refine ⟨fun heq => ?_, List.filterMap_congr⟩
  induction l with
  | nil => exact nofun
  | cons a l ih =>
    rw [List.forall_mem_cons]
    cases hf : f a with
    | none => cases hg : g a with
      | none =>
        rw [List.filterMap_cons_none hf, List.filterMap_cons_none hg] at heq
        exact ⟨rfl, ih heq⟩
      | some b =>
        rw [List.filterMap_cons_none hf, List.filterMap_cons_some hg] at heq
        -- What the smaller list has comes after the new element, which makes the larger one longer.
        have hle := (filterMap_sublist_of_le h (l := l)).length_le
        rw [← heq, List.length_cons] at hle
        omega
    | some b =>
      have hg := h a b hf
      rw [List.filterMap_cons_some hf, List.filterMap_cons_some hg] at heq
      exact ⟨hg, ih (List.cons.inj heq).2⟩

end Lists

/-! ### Two bodies -/

/-- The chosen instructions include the one at the index, and it is a load. -/
def Widens (code : Code) (chosen : Nat → Bool) (m : Nat) : Prop :=
  chosen m = true ∧ ∃ op, code.op? m = some op ∧ op.isLoad = true

/-- The second of two straight bodies has wide forms of the chosen loads of the first. -/
structure Recoded (chosen : Nat → Bool) (code code' : Code) : Prop where
  ops : code'.instructions.map (·.op) =
    (code.instructions.map (·.op)).mapIdx fun k op => if chosen k then op.widened else op
  straight : ∀ pc, code.isTarget pc = false
  straight' : ∀ pc, code'.isTarget pc = false

theorem isTarget_eq_false {code : Code} (hhandlers : code.handlers = [])
    (hbranch : ∀ op ∈ code.instructions.map (·.op), op.isBranch = false) (pc : Nat) :
    code.isTarget pc = false := by
  have hnone (i : Instruction) (hi : i ∈ code.instructions) : jumps i.op = [] := by
    have hop := hbranch i.op (List.mem_map_of_mem hi)
    cases hi : i.op with
    | branch targets unconditional =>
      rw [hi] at hop
      cases hop
    | _ => rfl
  rw [isTarget, hhandlers, List.any_nil, Bool.or_false, List.any_eq_false]
  intro i hi
  rw [hnone i hi]
  simp

section Recoded

variable {chosen : Nat → Bool} {code code' : Code} (h : Recoded chosen code code') {i j m : Nat}
  {c : String}

include h

theorem Recoded.op?_eq (m : Nat) : code'.op? m =
    (code.op? m).map fun op => if chosen m then op.widened else op := by
  have hget := congrArg (·[m]?) h.ops
  simp only [List.getElem?_map, List.getElem?_mapIdx] at hget
  exact hget

theorem Recoded.op?_of_widens (hm : code.Widens chosen m) : code'.op? m = some (.other 0xc4) := by
  obtain ⟨hchosen, op, hop, hload⟩ := hm
  rw [h.op?_eq, hop, Option.map_some, if_pos hchosen, Operation.widened, if_pos hload]

theorem Recoded.op?_of_not (hm : ¬ code.Widens chosen m) : code'.op? m = code.op? m := by
  rw [h.op?_eq]
  cases hop : code.op? m with
  | none => rfl
  | some op =>
    have hsame : (if chosen m = true then op.widened else op) = op := by
      by_cases hchosen : chosen m = true
      · -- What is chosen and no load stays as it is.
        have hload : op.isLoad ≠ true := fun hload => hm ⟨hchosen, op, hop, hload⟩
        rw [if_pos hchosen, Operation.widened, if_neg hload]
      · rw [if_neg hchosen]
    rw [Option.map_some, hsame]

/-- Rewritten loads are nothing else, before and after. -/
theorem Recoded.op?_eq_some_iff {op : Operation} (hother : ∀ opcode, op ≠ .other opcode) :
    code'.op? m = some op ↔ code.op? m = some op := by
  by_cases hm : code.Widens chosen m
  · -- Neither the load nor its wide form is the operation.
    rw [h.op?_of_widens hm]
    obtain ⟨-, load, hop, hload⟩ := hm
    rw [hop]
    refine ⟨fun heq => (hother _ (Option.some.inj heq).symm).elim, ?_⟩
    rintro ⟨⟩
    cases op with
    | other opcode => exact (hother opcode rfl).elim
    | _ => cases hload
  · rw [h.op?_of_not hm]

theorem Recoded.invoke_iff {kind : InvokeKind} {target : MemberRef} :
    code'.op? m = some (.invoke kind target) ↔ code.op? m = some (.invoke kind target) :=
  h.op?_eq_some_iff nofun

theorem Recoded.athrow_iff : code'.op? m = some .athrow ↔ code.op? m = some .athrow :=
  h.op?_eq_some_iff nofun

theorem Recoded.startsBlock (m : Nat) :
    code.startsBlock m = false ∧ code'.startsBlock m = false := by
  have hnone {code : Code} (hcode : ∀ pc, code.isTarget pc = false) :
      code.startsBlock m = false := by
    unfold Code.startsBlock
    cases code.instructions[m]? with
    | none => rfl
    | some ins => exact hcode ins.pc
  exact ⟨hnone h.straight, hnone h.straight'⟩

/-- Loads let the allocations wait. -/
theorem Recoded.pendingAt_eq (i : Nat) : code'.pendingAt i = code.pendingAt i := by
  induction i with
  | zero => rfl
  | succ i ih =>
    obtain ⟨hstart, hstart'⟩ := h.startsBlock (i + 1)
    rw [pendingAt, pendingAt, hstart, hstart', ih]
    by_cases hi : code.Widens chosen i
    · -- Before and after, the instruction leaves the stack of allocations alone.
      rw [h.op?_of_widens hi]
      obtain ⟨-, op, hop, hload⟩ := hi
      rw [hop]
      cases op with
      | other opcode => rfl
      | _ => cases hload
    · rw [h.op?_of_not hi]

theorem Recoded.initializes_iff {k : Nat} :
    code'.Initializes j k c ↔ code.Initializes j k c := by
  simp only [Initializes, h.invoke_iff, h.pendingAt_eq]

theorem Recoded.calls_iff {target : MemberRef} : code'.Calls j target ↔ code.Calls j target := by
  simp only [Calls, h.invoke_iff, h.pendingAt_eq]

theorem Recoded.makes_iff : code'.Makes j c ↔ code.Makes j c := by
  simp only [Makes, h.initializes_iff, h.calls_iff]

omit h in
/-- A load brings another reference if no allocation waits, and does nothing else. -/
theorem Widens.replaces_iff (hm : code.Widens chosen m) :
    code.Replaces m ↔ code.pendingAt m = [] := by
  obtain ⟨-, op, hop, hload⟩ := hm
  cases op with
  | other opcode =>
    have hpushes : Tracker.pushesUnknown opcode = true := by
      rcases Operation.opcode_of_isLoad hload with rfl | rfl | rfl | rfl | rfl <;> rfl
    simp [Replaces, Initializes, Calls, Loads, hop, hpushes]
  | _ => cases hload

/-- A wide load brings no reference. -/
theorem Recoded.replaces_iff :
    code'.Replaces m ↔ code.Replaces m ∧ ¬ code.Widens chosen m := by
  by_cases hm : code.Widens chosen m
  · have hop := h.op?_of_widens hm
    have hpushes : Tracker.pushesUnknown 0xc4 = false := rfl
    simp [Replaces, Initializes, Calls, Loads, hop, hpushes, hm]
  · simp only [Replaces, h.initializes_iff, h.calls_iff, Loads, h.op?_of_not hm, h.pendingAt_eq,
      hm, not_false_eq_true, and_true]

theorem Recoded.endsRun_iff : (∀ op, code'.op? m = some op → op.endsRun = false) ↔
    ∀ op, code.op? m = some op → op.endsRun = false := by
  by_cases hm : code.Widens chosen m
  · rw [h.op?_of_widens hm]
    obtain ⟨-, op, hop, hload⟩ := hm
    rw [hop]
    cases op with
    | other opcode => simp [Operation.endsRun]
    | _ => cases hload
  · rw [h.op?_of_not hm]

theorem Recoded.straight_iff : code'.Straight j i ↔ code.Straight j i := by
  constructor
  · intro hstraight
    exact ⟨fun m _ _ => (h.startsBlock m).1, fun m op hjm hmi => (h.endsRun_iff (m := m)).1
      (fun op => hstraight.endsRun m op hjm hmi) op⟩
  · intro hstraight
    exact ⟨fun m _ _ => (h.startsBlock m).2, fun m op hjm hmi => (h.endsRun_iff (m := m)).2
      (fun op => hstraight.endsRun m op hjm hmi) op⟩

/-- What the rewritten body holds is made at the same place, and survives the rewritten loads. -/
theorem Recoded.holds_iff : code'.Holds i c ↔
    ∃ j, code.Makes j c ∧
      code.Lasts (fun m => code.Replaces m ∧ ¬ code.Widens chosen m) j i := by
  have hlasts (j : Nat) : code'.Lasts code'.Replaces j i ↔
      code.Lasts (fun m => code.Replaces m ∧ ¬ code.Widens chosen m) j i := by
    constructor
    · intro hl
      exact ⟨hl.lt, h.straight_iff.1 hl.straight, fun m hjm hmi => by
        rw [← h.replaces_iff]; exact hl.kept m hjm hmi⟩
    · intro hl
      exact ⟨hl.lt, h.straight_iff.2 hl.straight, fun m hjm hmi => by
        rw [h.replaces_iff]; exact hl.kept m hjm hmi⟩
  simp only [Holds, h.makes_iff, hlasts]

/-- Rewriting loses nothing. -/
theorem Recoded.holds_of_holds (hholds : code.Holds i c) : code'.Holds i c := by
  obtain ⟨j, hmakes, hlasts⟩ := hholds
  exact h.holds_iff.2 ⟨j, hmakes, hlasts.lt, hlasts.straight, fun m hjm hmi hlost =>
    hlasts.kept m hjm hmi hlost.1⟩

omit h in
theorem Makes.not_widens (hmakes : code.Makes j c) : ¬ code.Widens chosen j := by
  rintro ⟨-, op, hop, hload⟩
  cases op with
  | other opcode => exact not_makes_other hop hmakes
  | _ => cases hload

/-- Nothing is gained at an instruction if and only if, between what is made and is still held there
after rewriting, the rewritten loads stand among arguments. -/
theorem Recoded.same_iff : (∀ c, code'.Holds i c → code.Holds i c) ↔
    ∀ j c m, code.Makes j c →
      code.Lasts (fun m => code.Replaces m ∧ ¬ code.Widens chosen m) j i →
      j < m → m < i → code.Widens chosen m → code.pendingAt m ≠ [] := by
  constructor
  · intro hsame j c m hmakes hlasts hjm hmi hwidens hpending
    obtain ⟨k, hmakes', hlasts'⟩ := hsame c (h.holds_iff.2 ⟨j, hmakes, hlasts⟩)
    -- the latest instruction that makes anything is the same in both bodies
    rcases Nat.lt_trichotomy k j with hkj | rfl | hjk
    · exact hlasts'.kept j hkj hlasts.lt hmakes.replaces
    · exact hlasts'.kept m hjm hmi (hwidens.replaces_iff.2 hpending)
    · exact hlasts.kept k hjk hlasts'.lt ⟨hmakes'.replaces, hmakes'.not_widens⟩
  · intro hwaits c hholds
    obtain ⟨j, hmakes, hlasts⟩ := h.holds_iff.1 hholds
    refine ⟨j, hmakes, hlasts.lt, hlasts.straight, fun m hjm hmi hreplaces => ?_⟩
    by_cases hwidens : code.Widens chosen m
    · exact hwaits j c m hmakes hlasts hjm hmi hwidens (hwidens.replaces_iff.1 hreplaces)
    · -- Other instructions replace in both bodies or in none.
      exact hlasts.kept m hjm hmi ⟨hreplaces, hwidens⟩

theorem Recoded.thrownAt_of_thrownAt (hthrown : code.thrownAt i = some c) :
    code'.thrownAt i = some c := by
  obtain ⟨hthrow, hholds⟩ := thrownAt_eq_some_iff.1 hthrown
  exact thrownAt_eq_some_iff.2 ⟨h.athrow_iff.2 hthrow, h.holds_of_holds hholds⟩

theorem Recoded.thrownAt_eq_iff : code'.thrownAt i = code.thrownAt i ↔
    (code.op? i = some .athrow → ∀ c, code'.Holds i c → code.Holds i c) := by
  constructor
  · intro heq hthrow c hholds
    have hthrown := thrownAt_eq_some_iff.2 ⟨h.athrow_iff.2 hthrow, hholds⟩
    exact (thrownAt_eq_some_iff.1 (heq ▸ hthrown)).2
  · intro hsame
    refine Option.ext fun c => ⟨fun hthrown => ?_, h.thrownAt_of_thrownAt⟩
    obtain ⟨hthrow, hholds⟩ := thrownAt_eq_some_iff.1 hthrown
    have hthrow := h.athrow_iff.1 hthrow
    exact thrownAt_eq_some_iff.2 ⟨hthrow, hsame hthrow c hholds⟩

theorem Recoded.types_eq_filterMap :
    code'.types = (List.range' 0 code.instructions.length).filterMap code'.thrownAt := by
  have hlength := congrArg List.length h.ops
  rw [List.length_map, List.length_mapIdx, List.length_map] at hlength
  rw [types_eq, hlength]

/-- Whatever was thrown still is, in the same order. -/
theorem Recoded.types_sublist : code.types.Sublist code'.types := by
  rw [h.types_eq_filterMap, types_eq]
  exact filterMap_sublist_of_le fun _ _ => h.thrownAt_of_thrownAt

theorem Recoded.types_eq_iff : code'.types = code.types ↔
    ∀ i, code.op? i = some .athrow → ∀ c, code'.Holds i c → code.Holds i c := by
  rw [h.types_eq_filterMap, types_eq, filterMap_eq_iff_of_le fun _ _ => h.thrownAt_of_thrownAt]
  refine ⟨fun hsame i hthrow => ?_, fun hsame i _ => h.thrownAt_eq_iff.2 (hsame i)⟩
  -- What throws is one of the instructions.
  have hi : i < code.instructions.length := by
    obtain ⟨ins, hins, -⟩ := Option.map_eq_some_iff.1 hthrow
    exact (List.getElem?_eq_some_iff.1 hins).1
  exact h.thrownAt_eq_iff.1 (hsame i (List.mem_range'_1.2 (by omega))) hthrow

end Recoded

/-- Rewriting loads of a straight body keeps what is thrown, and adds to it unless each rewritten
load after the making of what the rewritten body throws stands among the arguments of a
constructor. -/
theorem types_widenLoads_eq_iff {pool : ConstantPool} {bytes : Bytes} {code : Code}
    (hdecode : decode pool bytes = .ok code.instructions)
    (hbranch : ∀ i ∈ code.instructions, i.op.isBranch = false) (hhandlers : code.handlers = [])
    (chosen : Nat → Bool) :
    (encodings bytes code.instructions).flatten = bytes ∧
    ∃ instructions, decode pool (widenLoads chosen (encodings bytes code.instructions)) =
        .ok instructions ∧
      code.types.Sublist (types { code with instructions }) ∧
      (types { code with instructions } = code.types ↔
        ∀ i, code.op? i = some .athrow → ∀ j c m, code.Makes j c →
          code.Lasts (fun m => code.Replaces m ∧ ¬ code.Widens chosen m) j i →
          j < m → m < i → code.Widens chosen m → code.pendingAt m ≠ []) := by
  have hparts : (encodings bytes code.instructions).flatten = bytes.drop 0 :=
    flatten_encodings hdecode
  obtain ⟨instructions, hdecode', hops⟩ := decode_widenLoads hdecode hbranch chosen
  have hbranch (op : Operation) (hop : op ∈ code.instructions.map (·.op)) :
      op.isBranch = false := by
    obtain ⟨i, hi, rfl⟩ := List.mem_map.1 hop
    exact hbranch i hi
  have hbranch' (op : Operation) (hop : op ∈ instructions.map (·.op)) : op.isBranch = false := by
    rw [hops] at hop
    obtain ⟨k, hk, rfl⟩ := List.mem_mapIdx.1 hop
    have hkept := hbranch _ (List.getElem_mem hk)
    split
    · exact Operation.isBranch_widened hkept
    · exact hkept
  have h : Recoded chosen code { code with instructions } :=
    ⟨hops, isTarget_eq_false hhandlers hbranch, isTarget_eq_false hhandlers hbranch'⟩
  refine ⟨hparts, instructions, hdecode', h.types_sublist, ?_⟩
  simp only [h.types_eq_iff, h.same_iff]

/-- The constants of a body that makes an exception. -/
def failurePool : ConstantPool where
  slots := #[none, some (.classRef 2), some (.utf8 "p/Failure"), some (.member .method 1 4),
    some (.nameAndType 5 6), some (.utf8 "<init>"), some (.utf8 "()V")]

/-- Makes an exception, stores it in a local variable and throws what the variable holds. -/
def storedFailureBytes : Bytes := [0xbb, 0, 1, 0x59, 0xb7, 0, 3, 0x4c, 0x2b, 0xbf]

def storedFailure : Code where
  maxStack := 2
  maxLocals := 2
  handlers := []
  instructions := [⟨0, .new "p/Failure"⟩, ⟨3, .other 0x59⟩,
    ⟨4, initFailure⟩, ⟨7, .other 0x4c⟩, ⟨8, .other 0x2b⟩, ⟨9, .athrow⟩]

theorem types_widenLoads_storedFailure : storedFailure.types = [] ∧
    ∃ instructions, decode failurePool
        (widenLoads (· == 4) (encodings storedFailureBytes storedFailure.instructions)) =
          .ok instructions ∧
      types { storedFailure with instructions } ≠ [] := by
  have hdecode : decode failurePool storedFailureBytes = .ok storedFailure.instructions := by
    decide +kernel
  have hnone : storedFailure.types = [] := by decide +kernel
  obtain ⟨-, instructions, hdecode', -, hiff⟩ :=
    types_widenLoads_eq_iff hdecode (by decide) rfl (· == 4)
  refine ⟨hnone, instructions, hdecode', fun htypes => ?_⟩
  have hmakes : storedFailure.Makes 2 "p/Failure" := .inl ⟨0, ⟨_, _, rfl, rfl, rfl⟩, [], rfl⟩
  have hwidens : storedFailure.Widens (· == 4) 4 := ⟨rfl, _, rfl, rfl⟩
  have hlasts : storedFailure.Lasts
      (fun m => storedFailure.Replaces m ∧ ¬ storedFailure.Widens (· == 4) m) 2 5 := by
    refine ⟨by decide, ⟨fun m hjm hmi => ?_, fun m op hjm hmi hop => ?_⟩, fun m hjm hmi => ?_⟩
    · obtain rfl | rfl | rfl : m = 3 ∨ m = 4 ∨ m = 5 := by omega
      all_goals rfl
    · obtain rfl | rfl : m = 3 ∨ m = 4 := by omega
      all_goals
        cases hop
        rfl
    · rintro ⟨hreplaces, hkept⟩
      obtain rfl | rfl : m = 3 ∨ m = 4 := by omega
      · have hop : storedFailure.op? 3 = some (.other 0x4c) := rfl
        have hpushes : Tracker.pushesUnknown 0x4c = false := rfl
        simp [Replaces, Initializes, Calls, Loads, hop, hpushes] at hreplaces
      · exact hkept hwidens
  exact hiff.1 (htypes.trans hnone.symm) 5 rfl 2 _ 4 hmakes hlasts (by decide) (by decide) hwidens
    rfl

/-- Throwing the variable throws nothing known, but with the wide form of the load the exception. -/
theorem types_storedFailure : storedFailure.types = [] ∧
    ∃ instructions, decode failurePool
        (widenLoads (· == 4) (encodings storedFailureBytes storedFailure.instructions)) =
          .ok instructions ∧
      types { storedFailure with instructions } = ["p/Failure"] := by
  refine ⟨by decide +kernel, [⟨0, .new "p/Failure"⟩, ⟨3, .other 0x59⟩, ⟨4, initFailure⟩,
    ⟨7, .other 0x4c⟩, ⟨8, .other 0xc4⟩, ⟨12, .athrow⟩], ?_, ?_⟩
  · decide +kernel
  · decide +kernel

end Code

end JvmThrows
