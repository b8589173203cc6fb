import JvmThrows.ClassFile.Instruction
import Mathlib.Algebra.Group.Nat.Defs
import Mathlib.Algebra.Ring.Int.Defs
import Mathlib.Data.List.Range

/-!
# Instructions tile the code array

The decoder reads instructions from the front of the bytes that are left. Here the code array is
described as the virtual machine specification does, by positions in the whole array: the length of
the instruction at a position (`length?`), where its offsets stand and what they are (`offsets?`),
and what it does (`Denotes`). A `Tiling` is a sequence of instructions of which each starts where
the one before it ends and the last ends with the array. Decoding succeeds with exactly the tilings
(`decode_eq_ok_iff_tiling`).

The description is wider than the specification in two places. A `wide` counts four bytes before
every byte but `iinc`, whether that byte is an opcode that can be widened or not. And the opcodes
that are reserved for debuggers and implementations, which no class file may use, count one byte.

`read_eq_ok_iff` says that both accounts agree on one instruction; `tiling_cons_iff` takes a tiling
apart the way the decoder runs.
-/

namespace JvmThrows.Bytecode

/-! ### Numbers -/

/-- The number that bytes spell, the most significant first. -/
def unsigned (bytes : Bytes) : Nat := bytes.foldl (fun n b => n * 0x100 + b.toNat) 0

/-- The number that a number of bytes at a position spell. -/
def unsignedAt? (code : Bytes) (size position : Nat) : Option Nat :=
  let bytes := (code.drop position).take size
  if bytes.length = size then some (unsigned bytes) else none

/-- The same in two's complement. -/
def signedAt? (code : Bytes) (size position : Nat) : Option Int :=
  (unsignedAt? code size position).map fun n : Nat =>
    if 2 * n < 2 ^ (8 * size) then (n : Int) else (n : Int) - (2 ^ (8 * size) : Nat)

/-! ### Lengths -/

/-- The lengths of the instructions by opcode; zero where an opcode is not defined or its
instructions differ in length. -/
def lengths : List Nat :=
  List.replicate 16 1 ++ -- nop to dconst_1
  [2, 3, 2, 3, 3] ++ -- bipush, sipush, ldc, ldc_w, ldc2_w
  List.replicate 5 2 ++ -- iload to aload
  List.replicate 28 1 ++ -- iload_0 to saload
  List.replicate 5 2 ++ -- istore to astore
  List.replicate 73 1 ++ -- istore_0 to lxor
  [3] ++ -- iinc
  List.replicate 20 1 ++ -- i2l to dcmpg
  List.replicate 16 3 ++ -- ifeq to jsr
  [2, 0, 0] ++ -- ret, tableswitch, lookupswitch
  List.replicate 6 1 ++ -- ireturn to return
  List.replicate 7 3 ++ -- getstatic to invokestatic
  [5, 5, 3, 2, 3, 1, 1] ++ -- invokeinterface, invokedynamic, new to athrow
  [3, 3, 1, 1, 0, 4] ++ -- checkcast, instanceof, monitorenter, monitorexit, wide, multianewarray
  [3, 3, 5, 5, 1] ++ -- ifnull, ifnonnull, goto_w, jsr_w, breakpoint
  List.replicate 51 0 ++
  [1, 1] -- impdep1, impdep2

/-- Where the operands of a switch start: the next position that four divides. -/
def aligned (pc : Nat) : Nat := 4 * (pc / 4 + 1)

/-- How many offsets follow the default, the lowest and the highest value of a `tableswitch`. -/
def tableSize? (code : Bytes) (base : Nat) : Option Nat := do
  let low ← signedAt? code 4 (base + 4)
  let high ← signedAt? code 4 (base + 8)
  if low ≤ high then some (high - low + 1).toNat else none

/-- How many pairs of values and offsets follow the default of a `lookupswitch`. -/
def pairCount? (code : Bytes) (base : Nat) : Option Nat := do
  let count ← signedAt? code 4 (base + 4)
  if 0 ≤ count then some count.toNat else none

/-- The length of the instruction at a position. What a `wide` stands before is not looked at but
for `iinc`, and a reserved opcode is an instruction of one byte. -/
def length? (code : Bytes) (pc : Nat) : Option Nat := do
  let opcode ← code[pc]?
  if opcode = 0xaa then (tableSize? code (aligned pc)).map (aligned pc + 12 + 4 * · - pc)
  else if opcode = 0xab then (pairCount? code (aligned pc)).map (aligned pc + 8 + 8 * · - pc)
  else if opcode = 0xc4 then (code[pc + 1]?).map fun widened => if widened = 0x84 then 6 else 4
  else (lengths[opcode.toNat]?).filter (0 < ·)

/-! ### Effects -/

/-- The offsets of the branch instruction at a position, the default of a switch first. -/
def offsets? (code : Bytes) (pc : Nat) : Option (List Int) := do
  let opcode ← code[pc]?
  if opcode = 0xaa then
    let size ← tableSize? code (aligned pc)
    (aligned pc :: List.range' (aligned pc + 12) size 4).mapM (signedAt? code 4)
  else if opcode = 0xab then
    let count ← pairCount? code (aligned pc)
    (aligned pc :: List.range' (aligned pc + 12) count 8).mapM (signedAt? code 4)
  else if opcode = 0xc8 ∨ opcode = 0xc9 then [pc + 1].mapM (signedAt? code 4)
  else [pc + 1].mapM (signedAt? code 2)

inductive Effect where
  | branch (unconditional : Bool)
  | invoke (kind : InvokeKind)
  | new
  | athrow
  | leave
  | other
  deriving DecidableEq

/-- What the instructions of an opcode do. -/
def effect (opcode : UInt8) : Effect :=
  if opcode = 0xa7 ∨ opcode = 0xaa ∨ opcode = 0xab ∨ opcode = 0xc8 then .branch true
  else if (0x99 ≤ opcode ∧ opcode ≤ 0xa8) ∨ opcode = 0xc6 ∨ opcode = 0xc7 ∨ opcode = 0xc9 then
    .branch false
  else if opcode = 0xa9 ∨ (0xac ≤ opcode ∧ opcode ≤ 0xb1) then .leave
  else if opcode = 0xb6 then .invoke .virtual
  else if opcode = 0xb7 then .invoke .special
  else if opcode = 0xb8 then .invoke .static
  else if opcode = 0xb9 then .invoke .interface
  else if opcode = 0xbb then .new
  else if opcode = 0xbf then .athrow
  else .other

/-- The instruction at a position has the effect by the operation: its constants can be resolved,
and its targets are positions. -/
def Effect.Gives (pool : ConstantPool) (code : Bytes) (pc : Nat) (opcode : UInt8)
    (op : Operation) : Effect → Prop
  | .branch unconditional => ∃ offsets, offsets? code pc = some offsets ∧
      (∀ offset ∈ offsets, 0 ≤ (pc : Int) + offset ∧ (pc : Int) + offset < 2 ^ 32) ∧
      op = .branch (offsets.map fun offset => ((pc : Int) + offset).toNat) unconditional
  | .invoke kind => ∃ index target, unsignedAt? code 2 (pc + 1) = some index ∧
      pool.memberRef (UInt16.ofNat index) = .ok target ∧ op = .invoke kind target
  | .new => ∃ index name, unsignedAt? code 2 (pc + 1) = some index ∧
      pool.className (UInt16.ofNat index) = .ok name ∧ op = .new name
  | .athrow => op = .athrow
  | .leave => op = .leave
  | .other => op = .other opcode

/-- The operation of the instruction at a position. -/
def Denotes (pool : ConstantPool) (code : Bytes) (pc : Nat) (op : Operation) : Prop :=
  ∃ opcode, code[pc]? = some opcode ∧ (effect opcode).Gives pool code pc opcode op

/-- The instructions cover the code array from a position on. -/
structure Tiling (pool : ConstantPool) (code : Bytes) (start : Nat)
    (instructions : List Instruction) : Prop where
  empty : instructions = [] → start = code.length
  first : ∀ i, instructions.head? = some i → i.pc = start
  increasing : instructions.Pairwise (·.pc < ·.pc)
  next : ∀ k i j, instructions[k]? = some i → instructions[k + 1]? = some j →
    ∃ n, length? code i.pc = some n ∧ j.pc = i.pc + n
  last : ∀ i, instructions.getLast? = some i →
    ∃ n, length? code i.pc = some n ∧ i.pc + n = code.length
  denotes : ∀ i ∈ instructions, Denotes pool code i.pc i.op

/-! ### Opcodes -/

/-- The length of the instructions of a layout, or zero if they differ. -/
def fixedLength : Layout → Nat
  | .plain size | .leave size => size + 1
  | .jump _ | .new => 3
  | .farJump _ => 5
  | .invoke kind => if kind = .interface then 5 else 3
  | .athrow => 1
  | .tableSwitch | .lookupSwitch | .wide => 0

def layoutEffect : Layout → Effect
  | .plain _ | .wide => .other
  | .jump unconditional | .farJump unconditional => .branch unconditional
  | .tableSwitch | .lookupSwitch => .branch true
  | .leave _ => .leave
  | .invoke kind => .invoke kind
  | .new => .new
  | .athrow => .athrow

/-- The opcodes to which the table of lengths does not apply, and those with a far offset. -/
def layoutOpcode (opcode : UInt8) : Layout → Bool
  | .tableSwitch => opcode == 0xaa
  | .lookupSwitch => opcode == 0xab
  | .wide => opcode == 0xc4
  | .farJump _ => opcode == 0xc8 || opcode == 0xc9
  | _ => !([0xaa, 0xab, 0xc4, 0xc8, 0xc9] : List UInt8).contains opcode

theorem lengths_eq : lengths =
    (List.range 256).map fun n => (Layout.ofOpcode? (.ofNat n)).elim 0 fixedLength := by
  decide +kernel

/-- Both accounts of what an opcode does are the same. -/
def agrees (opcode : UInt8) : Bool :=
  match Layout.ofOpcode? opcode with
  | none => !([0xaa, 0xab, 0xc4] : List UInt8).contains opcode
  | some layout => effect opcode == layoutEffect layout && layoutOpcode opcode layout

theorem agrees_all (opcode : UInt8) : agrees opcode = true := by
  have hall : ((List.range 256).all fun n => agrees (UInt8.ofNat n)) = true := by decide +kernel
  have hopcode := List.all_eq_true.1 hall opcode.toNat (List.mem_range.2 opcode.toNat_lt)
  rwa [UInt8.ofNat_toNat] at hopcode

section Opcodes

variable {opcode : UInt8} {layout : Layout}

theorem getElem?_lengths (opcode : UInt8) :
    lengths[opcode.toNat]? = some ((Layout.ofOpcode? opcode).elim 0 fixedLength) := by
  rw [lengths_eq, List.getElem?_map, List.getElem?_range opcode.toNat_lt, Option.map_some,
    UInt8.ofNat_toNat]

theorem effect_of_layout (h : Layout.ofOpcode? opcode = some layout) :
    effect opcode = layoutEffect layout ∧ layoutOpcode opcode layout = true := by
  have hagrees := agrees_all opcode
  simp only [agrees, h, Bool.and_eq_true, beq_iff_eq] at hagrees
  exact hagrees

theorem contains_of_undefined (h : Layout.ofOpcode? opcode = none) :
    ([0xaa, 0xab, 0xc4] : List UInt8).contains opcode = false := by
  have hagrees := agrees_all opcode
  simp only [agrees, h, Bool.not_eq_true'] at hagrees
  exact hagrees

end Opcodes

/-! ### Words at positions -/

/-- The offset that the first four bytes spell. -/
def offset32? : Bytes → Option Int
  | a :: b :: c :: d :: _ => some (signed32 a b c d)
  | _ => none

section Words

variable {code : Bytes}

theorem unsignedAt?_two (code : Bytes) (p : Nat) :
    unsignedAt? code 2 p = (Instruction.index? (code.drop p)).map (·.toNat) := by
  unfold unsignedAt? Instruction.index?
  rcases code.drop p with _ | ⟨a, _ | ⟨b, rest⟩⟩
  · rfl
  · rfl
  · have ha := a.toNat_lt
    have hb := b.toNat_lt
    simp [unsigned, word16]
    omega

theorem signedAt?_two (code : Bytes) (p : Nat) :
    signedAt? code 2 p = Instruction.offset16? (code.drop p) := by
  rw [signedAt?, unsignedAt?_two]
  rcases code.drop p with _ | ⟨a, _ | ⟨b, rest⟩⟩
  · rfl
  · rfl
  · -- The sign is the top bit, so that negative words are those of the upper half.
    have hsigned : signed16 a b = (word16 a b).toBitVec.toInt := rfl
    rw [Instruction.offset16?, hsigned, BitVec.toInt_eq_toNat_cond]
    rfl

theorem signedAt?_four (code : Bytes) (p : Nat) :
    signedAt? code 4 p = offset32? (code.drop p) := by
  unfold signedAt? unsignedAt?
  rcases code.drop p with _ | ⟨a, _ | ⟨b, _ | ⟨c, _ | ⟨d, rest⟩⟩⟩⟩
  · rfl
  · rfl
  · rfl
  · rfl
  · have hsigned : signed32 a b c d = (word32 a b c d).toBitVec.toInt := rfl
    have hword : (word32 a b c d).toBitVec.toNat = unsigned [a, b, c, d] := by
      have ha := a.toNat_lt
      have hb := b.toNat_lt
      have hc := c.toNat_lt
      have hd := d.toNat_lt
      simp [unsigned, word32]
      omega
    rw [offset32?, hsigned, BitVec.toInt_eq_toNat_cond, hword]
    rfl

open Instruction

theorem offsets32?_succ (n : Nat) (bytes : Bytes) : offsets32? (n + 1) bytes =
    (offset32? bytes).bind fun o => (offsets32? n (bytes.drop 4)).map (o :: ·) := by
  rcases bytes with _ | ⟨a, _ | ⟨b, _ | ⟨c, _ | ⟨d, rest⟩⟩⟩⟩ <;> rfl

theorem pairOffsets32?_succ (n : Nat) (bytes : Bytes) : pairOffsets32? (n + 1) bytes =
    (offset32? (bytes.drop 4)).bind fun o => (pairOffsets32? n (bytes.drop 8)).map (o :: ·) := by
  rcases bytes with _ | ⟨a, _ | ⟨b, _ | ⟨c, _ | ⟨d, _ | ⟨e, _ | ⟨f, _ | ⟨g, _ | ⟨h, rest⟩⟩⟩⟩⟩⟩⟩⟩ <;>
    rfl

theorem offsets32?_drop (code : Bytes) (p n : Nat) :
    offsets32? n (code.drop p) = (List.range' p n 4).mapM (signedAt? code 4) := by
  induction n generalizing p with
  | zero => rfl
  | succ n ih =>
    rw [offsets32?_succ, List.drop_drop, ih, List.range'_succ, List.mapM_cons, signedAt?_four]
    cases offset32? (code.drop p) with
    | none => rfl
    | some o => cases (List.range' (p + 4) n 4).mapM (signedAt? code 4) <;> rfl

theorem pairOffsets32?_drop (code : Bytes) (p n : Nat) :
    pairOffsets32? n (code.drop p) = (List.range' (p + 4) n 8).mapM (signedAt? code 4) := by
  induction n generalizing p with
  | zero => rfl
  | succ n ih =>
    rw [pairOffsets32?_succ, List.drop_drop, List.drop_drop, ih, List.range'_succ, List.mapM_cons,
      signedAt?_four, Nat.add_right_comm p 8 4]
    cases offset32? (code.drop (p + 4)) with
    | none => rfl
    | some o => cases (List.range' (p + 4 + 8) n 8).mapM (signedAt? code 4) <;> rfl

/-- Where a word cannot be read, no later one can. -/
theorem signedAt?_eq_none {p q size : Nat} (hpq : p ≤ q) (h : signedAt? code size p = none) :
    signedAt? code size q = none := by
  simp only [signedAt?, unsignedAt?, Option.map_eq_none_iff, ite_eq_right_iff, reduceCtorEq,
    imp_false, List.length_take, List.length_drop] at h ⊢
  omega

theorem tableSwitch?_drop (code : Bytes) (base : Nat) : tableSwitch? (code.drop base) =
    (tableSize? code base).bind fun size =>
      ((base :: List.range' (base + 12) size 4).mapM (signedAt? code 4)).map
        (·, 12 + size * 4) := by
  unfold tableSwitch? tableSize?
  rw [offsets32?_drop]
  simp only [List.range', List.mapM_cons, List.mapM_nil, offsets32?_drop, List.drop_drop]
  cases h0 : signedAt? code 4 base with
  -- Where the default cannot be read, nothing behind it can.
  | none => simp [signedAt?_eq_none (Nat.le_add_right base 4) h0]
  | some other =>
    cases h4 : signedAt? code 4 (base + 4) with
    | none => simp
    | some low =>
      cases signedAt? code 4 (base + 4 + 4) with
      | none => simp
      | some high =>
        by_cases hle : low ≤ high
        · cases hrest : (List.range' (base + 12) (high - low + 1).toNat 4).mapM
            (signedAt? code 4) <;> simp [hle, Int.not_lt.2 hle, hrest]
        · -- Bounds that are the wrong way round have no table in either account.
          simp [hle, Int.not_le.1 hle]

theorem lookupSwitch?_drop (code : Bytes) (base : Nat) : lookupSwitch? (code.drop base) =
    (pairCount? code base).bind fun count =>
      ((base :: List.range' (base + 12) count 8).mapM (signedAt? code 4)).map
        (·, 8 + count * 8) := by
  unfold lookupSwitch? pairCount?
  rw [offsets32?_drop]
  simp only [List.range', List.mapM_cons, List.mapM_nil, pairOffsets32?_drop, List.drop_drop]
  cases h0 : signedAt? code 4 base with
  | none => simp [signedAt?_eq_none (Nat.le_add_right base 4) h0]
  | some other =>
    cases signedAt? code 4 (base + 4) with
    | none => simp
    | some count =>
      by_cases hle : 0 ≤ count
      · cases hrest : (List.range' (base + 8 + 4) count.toNat 8).mapM (signedAt? code 4) <;>
          simp [hle, Int.not_lt.2 hle, hrest]
      · -- The number of pairs is negative.
        simp [hle, Int.not_le.1 hle]

end Words

/-! ### Results -/

section Results

variable {α β : Type} {e : ClassFileError}

theorem bind_eq_ok_iff {x : Except ClassFileError α} {f : α → Except ClassFileError β} {b : β} :
    (x >>= f) = .ok b ↔ ∃ a, x = .ok a ∧ f a = .ok b := by
  cases x with
  | error e => exact ⟨nofun, nofun⟩
  | ok a =>
    refine ⟨fun h => ⟨a, rfl, h⟩, ?_⟩
    rintro ⟨_, ⟨⟩, h⟩
    exact h

theorem need_eq_ok_iff {x : Option α} {a : α} : Instruction.need x = .ok a ↔ x = some a := by
  cases x <;> simp [Instruction.need]

theorem target_eq_ok_iff {pc n : Nat} {offset : Int} : Instruction.target pc offset = .ok n ↔
    (0 ≤ (pc : Int) + offset ∧ (pc : Int) + offset < 2 ^ 32) ∧ n = ((pc : Int) + offset).toNat := by
  unfold Instruction.target
  dsimp only
  split
  next h => simp [h, eq_comm]
  next h => simpa using fun hlow hhigh => absurd ⟨hlow, hhigh⟩ h

theorem mapM_target_eq_ok_iff {pc : Nat} {offsets : List Int} {targets : List Nat} :
    offsets.mapM (Instruction.target pc) = .ok targets ↔
      (∀ offset ∈ offsets, 0 ≤ (pc : Int) + offset ∧ (pc : Int) + offset < 2 ^ 32) ∧
        targets = offsets.map fun offset => ((pc : Int) + offset).toNat := by
  induction offsets generalizing targets with
  | nil =>
    show Except.ok [] = .ok targets ↔ _
    simp [eq_comm]
  | cons offset offsets ih =>
    simp only [List.mapM_cons, bind_eq_ok_iff, target_eq_ok_iff, ih, List.forall_mem_cons,
      List.map_cons]
    constructor
    · rintro ⟨n, ⟨hn, rfl⟩, ns, ⟨hns, rfl⟩, ⟨⟩⟩
      exact ⟨⟨hn, hns⟩, rfl⟩
    · rintro ⟨⟨hn, hns⟩, rfl⟩
      exact ⟨_, ⟨hn, rfl⟩, _, ⟨hns, rfl⟩, rfl⟩

end Results

/-! ### One instruction -/

section Step

open Instruction

variable {pool : ConstantPool} {code operands : Bytes} {pc size : Nat} {opcode : UInt8}
  {op : Operation} {layout : Layout}

theorem length?_of_layout (hop : code[pc]? = some opcode)
    (hlayout : Layout.ofOpcode? opcode = some layout) (hfixed : 0 < fixedLength layout) :
    length? code pc = some (fixedLength layout) := by
  have hlength : lengths[opcode.toNat]? = some (fixedLength layout) := by
    rw [getElem?_lengths, hlayout, Option.elim_some]
  -- The opcodes whose instructions differ in length have no fixed one.
  have hvariable : opcode ≠ 0xaa ∧ opcode ≠ 0xab ∧ opcode ≠ 0xc4 := by
    refine ⟨?_, ?_, ?_⟩
    all_goals
      rintro rfl
      cases hlayout
      cases hfixed
  simp [length?, hop, hvariable, hlength, hfixed]

theorem denotes_iff (hop : code[pc]? = some opcode)
    (hlayout : Layout.ofOpcode? opcode = some layout) :
    Denotes pool code pc op ↔ (layoutEffect layout).Gives pool code pc opcode op := by
  rw [← (effect_of_layout hlayout).1]
  simp [Denotes, hop]

theorem ok_eq_ok_iff {op' : Operation} {k : Nat} :
    (Except.ok (op', k) : Except ClassFileError (Operation × Nat)) = .ok (op, size) ↔
      some (k + 1) = some (size + 1) ∧ op = op' := by
  simp [and_comm, eq_comm]

/-- A branch leads to the positions that its offsets give. -/
theorem branch_eq_ok_iff {offsets : Option (List Int)} {unconditional : Bool} {k : Nat}
    (h : offsets? code pc = offsets) :
    (need offsets >>= fun offsets => offsets.mapM (target pc) >>= fun targets =>
      pure (.branch targets unconditional, k)) = .ok (op, size) ↔
      some (k + 1) = some (size + 1) ∧
        (Effect.branch unconditional).Gives pool code pc opcode op := by
  simp only [bind_eq_ok_iff, need_eq_ok_iff, mapM_target_eq_ok_iff, Effect.Gives, h]
  constructor
  · rintro ⟨offsets, hoffsets, targets, ⟨hpositions, rfl⟩, ⟨⟩⟩
    exact ⟨rfl, offsets, hoffsets, hpositions, rfl⟩
  · rintro ⟨hk, offsets, hoffsets, hpositions, rfl⟩
    exact ⟨offsets, hoffsets, _, ⟨hpositions, rfl⟩, ok_eq_ok_iff.2 ⟨hk, rfl⟩⟩

theorem read_jump_iff {unconditional : Bool} (hop : code[pc]? = some opcode)
    (hlayout : Layout.ofOpcode? opcode = some (.jump unconditional)) :
    (need (offset16? (code.drop (pc + 1))) >>= fun offset => target pc offset >>= fun t =>
      pure (.branch [t] unconditional, 2)) = .ok (op, size) ↔
      length? code pc = some (size + 1) ∧
        (Effect.branch unconditional).Gives pool code pc opcode op := by
  have hoffsets : offsets? code pc = (offset16? (code.drop (pc + 1))).map ([·]) := by
    have hopcode := (effect_of_layout hlayout).2
    -- A short jump is none of the opcodes with four bytes for an offset.
    simp [layoutOpcode] at hopcode
    cases hoffset : offset16? (code.drop (pc + 1)) <;>
      simp [offsets?, hop, hopcode, signedAt?_two, hoffset]
  rw [length?_of_layout hop hlayout (Nat.succ_pos 2)]
  refine Iff.trans ?_ (branch_eq_ok_iff hoffsets)
  cases offset16? (code.drop (pc + 1)) with
  | none => rfl
  | some offset =>
    show (target pc offset >>= _) = _ ↔ ([offset].mapM (target pc) >>= _) = _
    simp

theorem read_farJump_iff {unconditional : Bool} (hop : code[pc]? = some opcode)
    (hlayout : Layout.ofOpcode? opcode = some (.farJump unconditional)) :
    (need (offsets32? 1 (code.drop (pc + 1))) >>= fun offsets => offsets.mapM (target pc) >>=
      fun targets => pure (.branch targets unconditional, 4)) = .ok (op, size) ↔
      length? code pc = some (size + 1) ∧
        (Effect.branch unconditional).Gives pool code pc opcode op := by
  have hoffsets : offsets? code pc = offsets32? 1 (code.drop (pc + 1)) := by
    have hopcode := (effect_of_layout hlayout).2
    simp only [layoutOpcode, Bool.or_eq_true, beq_iff_eq] at hopcode
    rw [offsets32?_drop]
    rcases hopcode with rfl | rfl
    · simp [offsets?, hop]
    · simp [offsets?, hop]
  rw [length?_of_layout hop hlayout (Nat.succ_pos 4)]
  exact branch_eq_ok_iff hoffsets

theorem aligned_eq (pc : Nat) : aligned pc = pc + 1 + padding pc := by
  rw [padding, aligned]
  omega

/-- A switch of which the count of its entries decides what follows. -/
theorem read_switch_iff {switch : Option (List Int × Nat)} {count : Option Nat}
    {offsets : Nat → Option (List Int)} {length : Nat → Nat}
    (hswitch : switch = count.bind fun n => (offsets n).map (·, length n))
    (hlength : length? code pc = count.map fun n => aligned pc + length n - pc)
    (hoffsets : offsets? code pc = count.bind offsets) :
    (need switch >>= fun (offsets, k) => offsets.mapM (target pc) >>= fun targets =>
      pure (.branch targets true, padding pc + k)) = .ok (op, size) ↔
      length? code pc = some (size + 1) ∧
        (Effect.branch true).Gives pool code pc opcode op := by
  subst hswitch
  cases count with
  | none =>
    rw [hlength]
    exact ⟨nofun, nofun⟩
  | some n =>
    -- The padding is counted from behind the opcode, the alignment from the start of the array.
    have hend : aligned pc + length n - pc = padding pc + length n + 1 := by
      rw [aligned_eq]
      omega
    rw [hlength, Option.map_some, hend]
    refine Iff.trans ?_ (branch_eq_ok_iff hoffsets)
    dsimp only [Option.bind_some]
    cases offsets n with
    | none => rfl
    | some offsets => rfl

theorem read_tableSwitch_iff (hop : code[pc]? = some 0xaa) :
    (need (tableSwitch? ((code.drop (pc + 1)).drop (padding pc))) >>= fun (offsets, k) =>
      offsets.mapM (target pc) >>= fun targets =>
        pure (.branch targets true, padding pc + k)) = .ok (op, size) ↔
      length? code pc = some (size + 1) ∧
        (Effect.branch true).Gives pool code pc opcode op := by
  rw [List.drop_drop, ← aligned_eq]
  refine read_switch_iff (tableSwitch?_drop code (aligned pc)) ?_ ?_
  · simp [length?, hop, Nat.add_assoc, Nat.mul_comm]
  · simp [offsets?, hop]

theorem read_lookupSwitch_iff (hop : code[pc]? = some 0xab) :
    (need (lookupSwitch? ((code.drop (pc + 1)).drop (padding pc))) >>= fun (offsets, k) =>
      offsets.mapM (target pc) >>= fun targets =>
        pure (.branch targets true, padding pc + k)) = .ok (op, size) ↔
      length? code pc = some (size + 1) ∧
        (Effect.branch true).Gives pool code pc opcode op := by
  rw [List.drop_drop, ← aligned_eq]
  refine read_switch_iff (lookupSwitch?_drop code (aligned pc)) ?_ ?_
  · simp [length?, hop, Nat.add_assoc, Nat.mul_comm]
  · simp [offsets?, hop]

/-- An operation made from the constant that the operand names. -/
theorem constant_eq_ok_iff {α : Type} {look : UInt16 → Except ClassFileError α}
    {make : α → Operation} {k : Nat} :
    (need (index? (code.drop (pc + 1))) >>= fun i => look i >>= fun a => pure (make a, k)) =
        .ok (op, size) ↔
      some (k + 1) = some (size + 1) ∧ ∃ index a, unsignedAt? code 2 (pc + 1) = some index ∧
        look (UInt16.ofNat index) = .ok a ∧ op = make a := by
  simp only [bind_eq_ok_iff, need_eq_ok_iff, unsignedAt?_two, Option.map_eq_some_iff]
  constructor
  · rintro ⟨i, hi, a, ha, ⟨⟩⟩
    exact ⟨rfl, i.toNat, a, ⟨i, hi, rfl⟩, by rwa [UInt16.ofNat_toNat], rfl⟩
  · rintro ⟨hk, _, a, ⟨i, hi, rfl⟩, ha, rfl⟩
    rw [UInt16.ofNat_toNat] at ha
    exact ⟨i, hi, a, ha, ok_eq_ok_iff.2 ⟨hk, rfl⟩⟩

theorem read_wide_iff (hop : code[pc]? = some 0xc4) :
    (need (code.drop (pc + 1)).head? >>= fun widened =>
      pure (.other 0xc4, if widened = 0x84 then 5 else 3)) = .ok (op, size) ↔
      length? code pc = some (size + 1) ∧ op = .other 0xc4 := by
  have hlength : length? code pc =
      (code[pc + 1]?).map fun widened => if widened = 0x84 then 6 else 4 := by
    rw [length?, hop]
    rfl
  rw [hlength, List.head?_drop]
  cases code[pc + 1]? with
  | none => exact ⟨nofun, nofun⟩
  | some widened =>
    have hlonger : (if widened = 0x84 then 6 else 4) = (if widened = 0x84 then 5 else 3) + 1 := by
      split <;> rfl
    rw [Option.map_some, hlonger]
    exact ok_eq_ok_iff

theorem length?_of_undefined (hop : code[pc]? = some opcode)
    (h : Layout.ofOpcode? opcode = none) : length? code pc = none := by
  have hopcode := contains_of_undefined h
  simp at hopcode
  simp [length?, hop, hopcode, getElem?_lengths, h]

/-- Both accounts agree on one instruction. -/
theorem read_eq_ok_iff (hcode : code.drop pc = opcode :: operands) :
    Instruction.read pool pc opcode operands = .ok (op, size) ↔
      length? code pc = some (size + 1) ∧ Denotes pool code pc op := by
  have hop : code[pc]? = some opcode := by rw [← List.head?_drop, hcode, List.head?_cons]
  obtain rfl : operands = code.drop (pc + 1) := by rw [← List.tail_drop, hcode, List.tail_cons]
  unfold Instruction.read
  cases hlayout : Layout.ofOpcode? opcode with
  | none =>
    -- An undefined opcode has length zero in the table, which is no length.
    rw [length?_of_undefined hop hlayout]
    exact ⟨nofun, nofun⟩
  | some layout =>
    rw [denotes_iff hop hlayout]
    have hopcode := (effect_of_layout hlayout).2
    cases layout with
    | plain k =>
      rw [length?_of_layout hop hlayout (Nat.succ_pos k)]
      exact ok_eq_ok_iff
    | jump unconditional => exact read_jump_iff hop hlayout
    | farJump unconditional => exact read_farJump_iff hop hlayout
    | tableSwitch =>
      obtain rfl : opcode = 0xaa := eq_of_beq hopcode
      exact read_tableSwitch_iff hop
    | lookupSwitch =>
      obtain rfl : opcode = 0xab := eq_of_beq hopcode
      exact read_lookupSwitch_iff hop
    | leave k =>
      rw [length?_of_layout hop hlayout (Nat.succ_pos k)]
      exact ok_eq_ok_iff
    | invoke kind =>
      have hfixed : fixedLength (.invoke kind) = (if kind = .interface then 4 else 2) + 1 := by
        cases kind <;> rfl
      rw [length?_of_layout hop hlayout (by rw [hfixed]; exact Nat.succ_pos _), hfixed]
      exact constant_eq_ok_iff
    | new =>
      rw [length?_of_layout hop hlayout (Nat.succ_pos 2)]
      exact constant_eq_ok_iff
    | athrow =>
      rw [length?_of_layout hop hlayout Nat.one_pos]
      exact ok_eq_ok_iff
    | wide =>
      obtain rfl : opcode = 0xc4 := eq_of_beq hopcode
      exact read_wide_iff hop

end Step

/-! ### All instructions -/

section Tilings

variable {pool : ConstantPool} {code : Bytes} {start : Nat} {i : Instruction}
  {rest instructions : List Instruction}

theorem tiling_nil_iff : Tiling pool code start [] ↔ start = code.length := by
  refine ⟨fun h => h.empty rfl, fun h => ?_⟩
  exact ⟨fun _ => h, by simp, .nil, by simp, by simp, by simp⟩

theorem Tiling.start_le (h : Tiling pool code start instructions) (hi : i ∈ instructions) :
    start ≤ i.pc := by
  cases instructions with
  | nil => cases hi
  | cons j rest =>
    have hfirst := h.first j rfl
    rcases List.mem_cons.1 hi with rfl | hi
    · omega
    · have hlt := (List.pairwise_cons.1 h.increasing).1 i hi
      omega

theorem length?_pos {pc n : Nat} (h : length? code pc = some n) : 0 < n := by
  obtain ⟨opcode, -, h⟩ := Option.bind_eq_some_iff.1 h
  -- Every form of instruction has its opcode at least.
  split_ifs at h with htable hlookup hwide
  · obtain ⟨count, -, rfl⟩ := Option.map_eq_some_iff.1 h
    rw [aligned_eq]
    omega
  · obtain ⟨count, -, rfl⟩ := Option.map_eq_some_iff.1 h
    rw [aligned_eq]
    omega
  · obtain ⟨widened, -, rfl⟩ := Option.map_eq_some_iff.1 h
    split <;> omega
  · exact of_decide_eq_true (Option.filter_eq_some_iff.1 h).2

theorem Tiling.start_le_length (h : Tiling pool code start instructions) :
    start ≤ code.length := by
  cases hlast : instructions.getLast? with
  | none => exact Nat.le_of_eq (h.empty (List.getLast?_eq_none_iff.1 hlast))
  | some i =>
    have hle := h.start_le (List.mem_of_getLast? hlast)
    obtain ⟨n, -, hend⟩ := h.last i hlast
    omega

theorem Tiling.tail {j : Instruction} (h : Tiling pool code start (i :: j :: rest)) :
    Tiling pool code j.pc (j :: rest) where
  empty := by simp
  first := by simp
  increasing := h.increasing.of_cons
  next k := h.next (k + 1)
  last m hm := h.last m (by rwa [List.getLast?_cons_cons])
  denotes m hm := h.denotes m (List.mem_cons_of_mem i hm)

theorem Tiling.cons {n : Nat} (hlength : length? code i.pc = some n)
    (hdenotes : Denotes pool code i.pc i.op) (h : Tiling pool code (i.pc + n) rest) :
    Tiling pool code i.pc (i :: rest) where
  empty := by simp
  first := by simp
  increasing := by
    refine List.pairwise_cons.2 ⟨fun j hj => ?_, h.increasing⟩
    have hle := h.start_le hj
    have hpos := length?_pos hlength
    omega
  next k := by
    cases k with
    | zero =>
      rintro m j ⟨⟩ hj
      exact ⟨n, hlength, h.first j (by rwa [List.head?_eq_getElem?])⟩
    | succ k => exact h.next k
  last m hm := by
    -- The last instruction is the last one of the rest, unless nothing is left.
    cases rest with
    | nil =>
      cases hm
      exact ⟨n, hlength, h.empty rfl⟩
    | cons j rest => exact h.last m (by rwa [List.getLast?_cons_cons] at hm)
  denotes := List.forall_mem_cons.2 ⟨hdenotes, h.denotes⟩

/-- A tiling starts with an instruction and goes on where it ends. -/
theorem tiling_cons_iff : Tiling pool code start (i :: rest) ↔
    i.pc = start ∧ Denotes pool code start i.op ∧
      ∃ n, length? code start = some n ∧ Tiling pool code (start + n) rest := by
  constructor
  · intro h
    obtain rfl : i.pc = start := h.first i rfl
    refine ⟨rfl, h.denotes i List.mem_cons_self, ?_⟩
    cases rest with
    | nil =>
      obtain ⟨n, hn, hend⟩ := h.last i rfl
      exact ⟨n, hn, tiling_nil_iff.2 hend⟩
    | cons j rest =>
      obtain ⟨n, hn, hj⟩ := h.next 0 i j rfl rfl
      exact ⟨n, hn, hj ▸ h.tail⟩
  · rintro ⟨rfl, hdenotes, n, hn, h⟩
    exact h.cons hn hdenotes

end Tilings

section Decoding

open Instruction

variable {pool : ConstantPool} {code : Bytes} {pc : Nat} {instructions : List Instruction}

/-- One turn of the decoder. -/
theorem decodeFrom_cons_eq_ok_iff {opcode : UInt8} {operands : Bytes} :
    decodeFrom pool pc (opcode :: operands) = .ok instructions ↔
      ∃ op size rest, Instruction.read pool pc opcode operands = .ok (op, size) ∧
        size ≤ operands.length ∧ decodeFrom pool (pc + 1 + size) (operands.drop size) = .ok rest ∧
        instructions = ⟨pc, op⟩ :: rest := by
  rw [decodeFrom]
  cases Instruction.read pool pc opcode operands with
  | error e => simp
  | ok result =>
    obtain ⟨op, size⟩ := result
    have hsize : (operands.take size).length = size ↔ size ≤ operands.length := by
      rw [List.length_take]
      omega
    by_cases hle : size ≤ operands.length
    · simp only [hsize, hle, if_true]
      cases hrest : decodeFrom pool (pc + 1 + size) (operands.drop size) with
      | error e => simp [hrest]
      | ok rest => simp [hrest, hle, eq_comm]
    · -- The instruction would go beyond the end of the array.
      simp only [hsize, hle, if_false]
      constructor
      · rintro ⟨⟩
      · rintro ⟨_, _, _, ⟨⟩, hle', -⟩
        exact absurd hle' hle

/-- The decoder finds the tilings from a position on. -/
theorem decodeFrom_eq_ok_iff (hpc : pc ≤ code.length) :
    decodeFrom pool pc (code.drop pc) = .ok instructions ↔ Tiling pool code pc instructions := by
  induction instructions generalizing pc with
  | nil =>
    rw [tiling_nil_iff]
    cases hbytes : code.drop pc with
    | nil =>
      have hend : pc = code.length := Nat.le_antisymm hpc (List.drop_eq_nil_iff.1 hbytes)
      simp [decodeFrom, hend]
    | cons opcode operands =>
      rw [decodeFrom_cons_eq_ok_iff]
      constructor
      · rintro ⟨_, _, _, -, -, -, ⟨⟩⟩
      · rintro rfl
        simp at hbytes
  | cons i rest ih =>
    rw [tiling_cons_iff]
    cases hbytes : code.drop pc with
    | nil =>
      rw [decodeFrom]
      constructor
      · rintro ⟨⟩
      · rintro ⟨-, ⟨opcode, hop, -⟩, -⟩
        rw [← List.head?_drop, hbytes] at hop
        cases hop
    | cons opcode operands =>
      have hoperands : operands = code.drop (pc + 1) := by
        rw [← List.tail_drop, hbytes, List.tail_cons]
      have hlength : code.length = pc + 1 + operands.length := by
        have := congrArg List.length hbytes
        rw [List.length_drop, List.length_cons] at this
        omega
      have hrest (size : Nat) : operands.drop size = code.drop (pc + 1 + size) := by
        rw [hoperands, List.drop_drop]
      rw [decodeFrom_cons_eq_ok_iff]
      constructor
      · rintro ⟨op, size, _, hread, hle, hdecode, ⟨⟩⟩
        obtain ⟨hsize, hdenotes⟩ := (read_eq_ok_iff hbytes).1 hread
        rw [hrest, ih (by omega), Nat.add_assoc, Nat.add_comm 1] at hdecode
        exact ⟨rfl, hdenotes, size + 1, hsize, hdecode⟩
      · rintro ⟨rfl, hdenotes, n, hn, h⟩
        obtain ⟨size, rfl⟩ : ∃ size, n = size + 1 :=
          Nat.exists_eq_add_of_lt (length?_pos hn) |>.imp fun _ h => by omega
        have hend := h.start_le_length
        refine ⟨i.op, size, rest, (read_eq_ok_iff hbytes).2 ⟨hn, hdenotes⟩, by omega, ?_, rfl⟩
        rw [hrest, ih (by omega), Nat.add_assoc, Nat.add_comm 1]
        exact h

/-- **The instructions tile the code array.** Decoding gives the instructions of a tiling: the first
starts at zero, positions increase, each instruction starts where the one before it ends by its
length, the last ends with the array, the targets of branches are the positions that the encoded
offsets lead to, and constants are resolved. It fails if there is no tiling. -/
theorem decode_eq_ok_iff_tiling (pool : ConstantPool) (code : Bytes) :
    (∀ instructions,
      decode pool code = .ok instructions ↔ Tiling pool code 0 instructions) ∧
    ((¬ ∃ instructions, Tiling pool code 0 instructions) → ∃ e, decode pool code = .error e) := by
  have hiff (instructions : List Instruction) :
      decode pool code = .ok instructions ↔ Tiling pool code 0 instructions := by
    show decodeFrom pool 0 (code.drop 0) = _ ↔ _
    exact decodeFrom_eq_ok_iff (Nat.zero_le code.length)
  refine ⟨hiff, fun hnone => ?_⟩
  cases hdecode : decode pool code with
  | error e => exact ⟨e, rfl⟩
  | ok instructions => exact absurd ⟨instructions, (hiff instructions).1 hdecode⟩ hnone

end Decoding

end JvmThrows.Bytecode
