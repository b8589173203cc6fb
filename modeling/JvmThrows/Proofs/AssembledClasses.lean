import JvmThrows.Assembly.Class
import JvmThrows.Proofs.ConstantPools

/-!
# Assembled classes read back

What a description stands for is told apart from how it is written: `Body.code`,
`MethodSpec.method` and `ClassSpec.classFile` give the parts of the class file, each instruction at
the position that was reported before its step. Reading what was assembled gives exactly that, if
everything fits its form (`ClassSpec.ofBytes_encode`).
-/

namespace JvmThrows

open Parse

namespace Assembly

section Defs

/-- The instructions of a step at `pc`. Raw bytes stand for none that could be told. -/
def Step.instructionsAt (step : Step) (pc : Nat) : List Instruction :=
  match step with
  | .raw _ => []
  | .new className => [⟨pc, .new className⟩]
  | .dup => [⟨pc, .other 0x59⟩]
  | .pop => [⟨pc, .other 0x57⟩]
  | .aconstNull => [⟨pc, .other 0x01⟩]
  | .iconst0 => [⟨pc, .other 0x03⟩]
  | .aload slot => [⟨pc, .other (if slot ≤ 3 then 0x2a + slot else 0x19)⟩]
  | .astore slot => [⟨pc, .other (if slot ≤ 3 then 0x4b + slot else 0x3a)⟩]
  | .athrow => [⟨pc, .athrow⟩]
  | .vreturn | .areturn | .ireturn => [⟨pc, .leave⟩]
  | .invoke kind owner name descriptor =>
    [⟨pc, .invoke kind ⟨owner, name, descriptor, kind == .interface⟩⟩]
  | .throwNew className =>
    [⟨pc, .new className⟩, ⟨pc + 3, .other 0x59⟩,
      ⟨pc + 4, .invoke .special ⟨className, "<init>", "()V", false⟩⟩, ⟨pc + 7, .athrow⟩]

def Step.isRaw : Step → Bool
  | .raw _ => true
  | _ => false

def Step.texts : Step → List String
  | .new className | .throwNew className => [className]
  | .invoke _ owner name descriptor => [owner, name, descriptor]
  | _ => []

/-- The instructions of a body, those of each step at the position reported before it. -/
def Body.instructions (b : Body) : List Instruction :=
  (List.zipWith Step.instructionsAt b.steps (0 :: b.positions)).flatten

def Body.code (b : Body) : Code := ⟨frameLimit, frameLimit, b.instructions, b.handlers⟩

def Body.texts (b : Body) : List String :=
  b.steps.flatMap (·.texts) ++ b.handlers.filterMap (·.catchType)

def Step.totalSize (steps : List Step) : Nat := steps.foldr (·.size + ·) 0

/-- Steps are named and sizes and positions fit their words. -/
structure Body.Encodable (b : Body) : Prop where
  named : ∀ step ∈ b.steps, step.isRaw = false
  size_le : Step.totalSize b.steps ≤ 0xFFFF
  handlers_le : b.handlers.length ≤ 0xFFFF
  handler_le : ∀ h ∈ b.handlers, h.start ≤ 0xFFFF ∧ h.stop ≤ 0xFFFF ∧ h.entry ≤ 0xFFFF

def MethodSpec.method (m : MethodSpec) : Method :=
  ⟨m.access, m.name, m.descriptor, m.throws, m.body.map (·.code)⟩

def MethodSpec.texts (m : MethodSpec) : List String :=
  m.name :: m.descriptor :: (m.throws ++ m.body.toList.flatMap (·.texts))

structure MethodSpec.Encodable (m : MethodSpec) : Prop where
  throws_le : m.throws.length ≤ 0xFFFF
  body : ∀ b ∈ m.body, b.Encodable

def ClassSpec.classFile (c : ClassSpec) : ClassFile where
  minorVersion := 0
  majorVersion := 52
  access := c.access
  name := c.name
  superclass := some c.superclass
  interfaces := c.interfaces
  methods := c.methods.map (·.method)

def ClassSpec.texts (c : ClassSpec) : List String :=
  c.name :: c.superclass :: (c.interfaces ++ c.methods.flatMap (·.texts))

/-- All texts and counts of a description fit their forms, and so does the pool. -/
structure ClassSpec.Encodable (c : ClassSpec) : Prop where
  texts : ∀ text ∈ c.texts, IsStorable text
  constants_le : (c.encodeRest []).2.length ≤ 0xFFFE
  interfaces_le : c.interfaces.length ≤ 0xFFFF
  methods_le : c.methods.length ≤ 0xFFFF
  methods : ∀ m ∈ c.methods, m.Encodable

end Defs

/-! ### Lists of classes and of nothing -/

theorem reads_skipAll : Reads RawAttribute.skipAll (bytes16 0) () := fun _ => rfl

/-- Class indices one behind the other read back as the names of the classes. -/
theorem reads_classes {pool : ConstantPool} {classes : List String} {indices : List UInt16}
    (h : List.Forall₂ (fun name i => i ≠ 0 ∧ pool.className i = .ok name) classes indices)
    (hlength : classes.length ≤ 0xFFFF) :
    Reads (times (UInt16.ofNat indices.length).toNat (u2 >>= fun i => lift (pool.className i)))
      (indices.flatMap bytes16) classes := by
  have hcount : (UInt16.ofNat indices.length).toNat = classes.length := by
    rw [← h.length_eq, toNat_ofNat16 hlength]
  have hparts : List.Forall₂ (Reads (u2 >>= fun i => lift (pool.className i)))
      (indices.map bytes16) classes := by
    rw [List.forall₂_map_left_iff]
    refine (h.imp fun name i hi => ?_).flip
    exact (reads_u2 i).bind (Reads.lift hi.2)
  have hclasses := reads_times hparts
  rwa [← hcount, ← List.flatMap_def] at hclasses

/-! ### Instructions -/

/-- Decoding the bytes gives the instructions, whatever follows. -/
def Decodes (pool : ConstantPool) (bytes : Bytes) (instructions : Nat → List Instruction) : Prop :=
  ∀ pc rest, Instruction.decodeFrom pool pc (bytes ++ rest) =
    (Instruction.decodeFrom pool (pc + bytes.length) rest).map (instructions pc ++ ·)

section Decoding

variable {pool : ConstantPool} {bytes bytes' operands : Bytes} {opcode : UInt8} {op : Operation}
  {instructions instructions' : Nat → List Instruction}

theorem Decodes.nil : Decodes pool [] fun _ => [] := by
  intro pc rest
  cases h : Instruction.decodeFrom pool pc rest <;> simp [h, Except.map]

theorem Decodes.append (h : Decodes pool bytes instructions)
    (h' : Decodes pool bytes' instructions') :
    Decodes pool (bytes ++ bytes') fun pc =>
      instructions pc ++ instructions' (pc + bytes.length) := by
  intro pc rest
  rw [List.append_assoc, h, h', List.length_append, ← Nat.add_assoc]
  cases Instruction.decodeFrom pool (pc + bytes.length + bytes'.length) rest <;>
    simp [Except.map]

/-- One instruction with its operands. -/
theorem decodes_one (h : ∀ pc rest, Instruction.read pool pc opcode (operands ++ rest) =
      .ok (op, operands.length)) :
    Decodes pool (opcode :: operands) fun pc => [⟨pc, op⟩] := by
  intro pc rest
  rw [List.cons_append, Instruction.decodeFrom, h]
  have hpc : pc + (opcode :: operands).length = pc + 1 + operands.length := by
    rw [List.length_cons]
    omega
  simp only [List.take_left, if_true, List.drop_left, hpc]
  cases Instruction.decodeFrom pool (pc + 1 + operands.length) rest <;> rfl

theorem index?_bytes16 (w : UInt16) (rest : Bytes) :
    Instruction.index? (bytes16 w ++ rest) = some w :=
  congrArg some (word16_bytes w)

theorem decodes_new {index : UInt16} {className : String}
    (h : pool.className index = .ok className) :
    Decodes pool (0xbb :: bytes16 index) fun pc => [⟨pc, .new className⟩] := by
  refine decodes_one fun pc rest => ?_
  have hread : Instruction.read pool pc 0xbb (bytes16 index ++ rest) =
      Instruction.need (Instruction.index? (bytes16 index ++ rest)) >>= fun i =>
        pool.className i >>= fun name => pure (.new name, 2) := rfl
  rw [hread, index?_bytes16]
  show (pool.className index >>= _) = _
  rw [h]
  rfl

theorem decodes_invoke {kind : InvokeKind} {index : UInt16} {target : MemberRef} {count : Bytes}
    (h : pool.memberRef index = .ok target)
    (hcount : count.length = if kind = .interface then 2 else 0) :
    Decodes pool (Step.invokeOpcode kind :: (bytes16 index ++ count)) fun pc =>
      [⟨pc, .invoke kind target⟩] := by
  refine decodes_one fun pc rest => ?_
  have hread : Instruction.read pool pc (Step.invokeOpcode kind) (bytes16 index ++ count ++ rest) =
      Instruction.need (Instruction.index? (bytes16 index ++ count ++ rest)) >>= fun i =>
        pool.memberRef i >>= fun m =>
          pure (.invoke kind m, if kind = .interface then 4 else 2) := by
    cases kind <;> rfl
  rw [hread, List.append_assoc, index?_bytes16]
  show (pool.memberRef index >>= _) = _
  rw [h, List.length_append, hcount]
  cases kind <;> rfl

end Decoding

/-! ### Steps -/

/-- The bytes have the size of the step and decode to its instructions. -/
structure Step.Written (step : Step) (pool : ConstantPool) (bytes : Bytes) : Prop where
  length_eq : bytes.length = step.size
  decodes : Decodes pool bytes step.instructionsAt

namespace Step

theorem yields_encodeNew {className : String} (h : IsStorable className) :
    Yields (encodeNew className) (Written (.new className)) := by
  refine ((yields_internClass h).bind fun i => Yields.pure (0xbb :: bytes16 i)).mono ?_
  rintro pool bytes ⟨i, ⟨-, hi⟩, rfl⟩
  exact ⟨rfl, decodes_new hi⟩

theorem yields_encodeInvoke {kind : InvokeKind} {owner name descriptor : String}
    (howner : IsStorable owner) (hname : IsStorable name) (hdescriptor : IsStorable descriptor) :
    Yields (encodeInvoke kind owner name descriptor)
      (Written (.invoke kind owner name descriptor)) := by
  refine ((yields_internMethod howner hname hdescriptor).bind fun i => Yields.pure
    (invokeOpcode kind :: bytes16 i ++
      if kind = .interface then [argumentSlots descriptor + 1, 0] else [])).mono ?_
  rintro pool bytes ⟨i, hi, rfl⟩
  have hinterface : ((if kind = .interface then MemberKind.interfaceMethod else .method) ==
      .interfaceMethod) = (kind == .interface) := by
    cases kind <;> rfl
  rw [hinterface] at hi
  refine ⟨?_, decodes_invoke hi ?_⟩
  · cases kind <;> rfl
  · cases kind <;> rfl

/-- An instruction without operands. -/
theorem written_single {step : Step} {pool : ConstantPool} {opcode : UInt8} {op : Operation}
    (hsize : step.size = 1) (hstep : step.instructionsAt = fun pc => [⟨pc, op⟩])
    (h : ∀ pc rest, Instruction.read pool pc opcode rest = .ok (op, 0)) :
    step.Written pool [opcode] := by
  have hdecodes : Decodes pool [opcode] fun pc => [⟨pc, op⟩] := decodes_one h
  exact ⟨hsize.symm, hstep ▸ hdecodes⟩

/-- A local variable is named in the opcode or in an operand. -/
theorem written_slot {step : Step} {pool : ConstantPool} {short long slot : UInt8}
    (hsize : step.size = if slot ≤ 3 then 1 else 2)
    (hstep : step.instructionsAt =
      fun pc => [⟨pc, .other (if slot ≤ 3 then short + slot else long)⟩])
    (hshort : slot ≤ 3 → Layout.ofOpcode? (short + slot) = some (.plain 0))
    (hlong : Layout.ofOpcode? long = some (.plain 1)) :
    step.Written pool (if slot ≤ 3 then [short + slot] else [long, slot]) := by
  by_cases hslot : slot ≤ 3
  · -- The number is part of the opcode.
    simp only [hslot, if_true] at hsize hstep ⊢
    refine written_single hsize hstep fun pc rest => ?_
    rw [Instruction.read, hshort hslot]
    rfl
  · -- The number follows in a byte of its own.
    simp only [hslot, if_false] at hsize hstep ⊢
    refine ⟨hsize.symm, hstep ▸ decodes_one fun pc rest => ?_⟩
    rw [Instruction.read, hlong]
    rfl

theorem eq_of_le_three {slot : UInt8} (h : slot ≤ 3) :
    slot = 0 ∨ slot = 1 ∨ slot = 2 ∨ slot = 3 := by
  simp only [UInt8.le_iff_toNat_le, ← UInt8.toNat_inj] at h ⊢
  simp at h ⊢
  omega

/-- Allocation, a copy of the reference, initialization and throw stand behind each other. -/
theorem written_throwNew {className : String} {pool : ConstantPool} {allocate init : Bytes}
    (hallocate : (Step.new className).Written pool allocate)
    (hinit : (Step.invoke .special className "<init>" "()V").Written pool init) :
    (Step.throwNew className).Written pool (allocate ++ [0x59] ++ init ++ [0xbf]) := by
  have hdup : Step.dup.Written pool [0x59] := written_single rfl rfl fun _ _ => rfl
  have hathrow : Step.athrow.Written pool [0xbf] := written_single rfl rfl fun _ _ => rfl
  have hallocate_length : allocate.length = 3 := hallocate.length_eq
  have hinit_length : init.length = 3 := hinit.length_eq
  refine ⟨by simp [hallocate_length, hinit_length, size], ?_⟩
  have hall := ((hallocate.decodes.append hdup.decodes).append hinit.decodes).append hathrow.decodes
  simp only [List.length_append, hallocate_length, hinit_length] at hall
  exact hall

theorem yields_encode {step : Step} (hraw : step.isRaw = false)
    (htexts : ∀ text ∈ step.texts, IsStorable text) : Yields step.encode step.Written := by
  cases step with
  -- Raw bytes need not be instructions.
  | raw bytes => cases hraw
  | new className => exact yields_encodeNew (htexts className (by simp [texts]))
  | invoke kind owner name descriptor =>
    exact yields_encodeInvoke (htexts owner (by simp [texts])) (htexts name (by simp [texts]))
      (htexts descriptor (by simp [texts]))
  | aload slot =>
    refine (Yields.pure _).mono fun pool bytes hbytes => hbytes ▸ written_slot rfl rfl ?_ rfl
    intro hslot
    rcases eq_of_le_three hslot with rfl | rfl | rfl | rfl <;> rfl
  | astore slot =>
    refine (Yields.pure _).mono fun pool bytes hbytes => hbytes ▸ written_slot rfl rfl ?_ rfl
    intro hslot
    rcases eq_of_le_three hslot with rfl | rfl | rfl | rfl <;> rfl
  | throwNew className =>
    -- Three instructions, which share what the pool holds of the class.
    have hclass := htexts className (by simp [texts])
    have hinit : IsStorable "<init>" := ⟨by decide, by decide⟩
    have hnone : IsStorable "()V" := ⟨by decide, by decide⟩
    have hcall : Yields (encodeInvoke .special className "<init>" "()V") _ :=
      yields_encodeInvoke hclass hinit hnone
    refine ((yields_encodeNew hclass).bind fun allocate => hcall.bind fun init =>
      Yields.pure (allocate ++ [0x59] ++ init ++ [0xbf])).mono ?_
    rintro pool bytes ⟨allocate, hallocate, init, hinit, rfl⟩
    exact written_throwNew hallocate hinit
  -- All other steps are one byte and need no constants.
  | _ =>
    exact (Yields.pure _).mono fun pool bytes hbytes => hbytes ▸
      written_single rfl rfl fun _ _ => rfl

theorem length_flatten {pool : ConstantPool} {steps : List Step} {parts : List Bytes}
    (h : List.Forall₂ (fun step bytes => step.Written pool bytes) steps parts) :
    parts.flatten.length = totalSize steps := by
  induction h with
  | nil => rfl
  | cons hstep _ ih =>
    rw [List.flatten_cons, List.length_append, ih, hstep.length_eq]
    rfl

/-- The instructions of consecutive steps stand at the positions that were reported. -/
theorem decodes_flatten {pool : ConstantPool} {steps : List Step} {parts : List Bytes}
    (h : List.Forall₂ (fun step bytes => step.Written pool bytes) steps parts) :
    Decodes pool parts.flatten fun pc =>
      (List.zipWith instructionsAt steps (pc :: Body.positionsFrom pc steps)).flatten := by
  induction h with
  | nil => exact .nil
  | @cons step bytes steps parts hstep _ ih =>
    have hall := hstep.decodes.append ih
    simp only [hstep.length_eq] at hall
    exact hall

end Step

/-! ### Bodies -/

namespace Body

theorem reads_handler {pool : ConstantPool} {h : Handler} {caught : UInt16}
    (hpositions : h.start ≤ 0xFFFF ∧ h.stop ≤ 0xFFFF ∧ h.entry ≤ 0xFFFF)
    (hcaught : pool.className? caught = .ok h.catchType) :
    Reads (Handler.read pool) (bytes16 (UInt16.ofNat h.start) ++ bytes16 (UInt16.ofNat h.stop) ++
      bytes16 (UInt16.ofNat h.entry) ++ bytes16 caught) h := by
  have hread : Reads (Handler.read pool)
      (bytes16 (UInt16.ofNat h.start) ++ (bytes16 (UInt16.ofNat h.stop) ++
        (bytes16 (UInt16.ofNat h.entry) ++ bytes16 caught)))
      ⟨(UInt16.ofNat h.start).toNat, (UInt16.ofNat h.stop).toNat, (UInt16.ofNat h.entry).toNat,
        h.catchType⟩ :=
    (reads_u2 _).bind ((reads_u2 _).bind ((reads_u2 _).bind ((reads_u2 caught).bind
      (.lift_bind hcaught (.pure _)))))
  rwa [toNat_ofNat16 hpositions.1, toNat_ofNat16 hpositions.2.1,
    toNat_ofNat16 hpositions.2.2] at hread

theorem yields_encodeHandler {h : Handler}
    (hpositions : h.start ≤ 0xFFFF ∧ h.stop ≤ 0xFFFF ∧ h.entry ≤ 0xFFFF)
    (hcaught : ∀ name ∈ h.catchType, IsStorable name) :
    Yields (encodeHandler h) fun pool bytes =>
      Reads (Handler.read pool) bytes h ∧ bytes.length = 8 := by
  have hrow (m : Pooled UInt16) (hm : Yields m fun pool i => pool.className? i = .ok h.catchType) :
      Yields (m >>= fun i => pure (bytes16 (UInt16.ofNat h.start) ++
        bytes16 (UInt16.ofNat h.stop) ++ bytes16 (UInt16.ofNat h.entry) ++ bytes16 i))
        fun pool bytes => Reads (Handler.read pool) bytes h ∧ bytes.length = 8 := by
    refine (hm.bind fun i => Yields.pure _).mono ?_
    rintro pool bytes ⟨i, hi, rfl⟩
    exact ⟨reads_handler hpositions hi, rfl⟩
  unfold encodeHandler
  cases hname : h.catchType with
  -- No class at all stands for every exception.
  | none => exact hrow (pure 0) ((Yields.pure 0).mono fun pool i hi => by rw [hi, hname]; rfl)
  | some name =>
    refine hrow (internClass name) ((yields_internClass (hcaught name hname)).mono ?_)
    intro pool i hi
    rw [hname]
    exact ConstantPool.className?_of_className hi.1 hi.2

theorem length_flatten_rows {pool : ConstantPool} {handlers : List Handler} {rows : List Bytes}
    (h : List.Forall₂ (fun h row => Reads (Handler.read pool) row h ∧ row.length = 8)
      handlers rows) : rows.flatten.length = 8 * handlers.length := by
  induction h with
  | nil => rfl
  | cons hrow _ ih =>
    rw [List.flatten_cons, List.length_append, List.length_cons, ih, hrow.2]
    omega

/-- The content of the attribute reads back as the body. -/
theorem yields_encode {b : Body} (h : b.Encodable) (htexts : ∀ text ∈ b.texts, IsStorable text) :
    Yields b.encode fun pool bytes =>
      ReadsAll (Code.read pool) bytes b.code ∧ bytes.length ≤ 0xFFFFFFFF := by
  have hsteps : Yields (b.steps.mapM Step.encode) _ := Yields.mapM fun step hstep =>
    Step.yields_encode (h.named step hstep) fun text htext =>
      htexts text (List.mem_append_left _ (List.mem_flatMap_of_mem hstep htext))
  have hhandlers : Yields (b.handlers.mapM encodeHandler) _ := Yields.mapM fun handler hhandler =>
    yields_encodeHandler (h.handler_le handler hhandler) fun name hname =>
      htexts name (List.mem_append_right _ (List.mem_filterMap.2 ⟨handler, hhandler, hname⟩))
  refine (hsteps.bind fun steps => hhandlers.bind fun handlers => Yields.pure
    (bytes16 frameLimit ++ bytes16 frameLimit ++ bytes32 (UInt32.ofNat steps.flatten.length) ++
      steps.flatten ++ bytes16 (UInt16.ofNat handlers.length) ++ handlers.flatten ++
        bytes16 0)).mono ?_
  rintro pool bytes ⟨steps, hsteps, handlers, hhandlers, rfl⟩
  have hlength : steps.flatten.length = Step.totalSize b.steps := Step.length_flatten hsteps
  have hsize : steps.flatten.length = (UInt32.ofNat steps.flatten.length).toNat := by
    rw [toNat_ofNat32]
    have := h.size_le
    omega
  have hcount : (UInt16.ofNat handlers.length).toNat = b.handlers.length := by
    rw [← hhandlers.length_eq, toNat_ofNat16 h.handlers_le]
  -- The steps are decoded from position 0 with nothing behind them.
  have hcode : Instruction.decode pool steps.flatten = .ok b.instructions := by
    have hdecodes := Step.decodes_flatten hsteps 0 []
    rw [List.append_nil] at hdecodes
    rw [Instruction.decode, hdecodes, Instruction.decodeFrom]
    simp [Except.map, instructions, positions]
  have htable : List.Forall₂ (Reads (Handler.read pool)) handlers b.handlers :=
    (hhandlers.imp fun _ _ hrow => hrow.1).flip
  have hrows := reads_times htable
  rw [← hcount] at hrows
  have hrows_length := length_flatten_rows hhandlers
  refine ⟨?_, ?_⟩
  · simp only [List.append_assoc]
    exact (reads_u2 _).bind_all ((reads_u2 _).bind_all ((reads_u4 _).bind_all
      ((reads_take hsize).bind_all (.lift_bind hcode ((reads_u2 _).bind_all
        (hrows.bind_all (reads_skipAll.bind_all (readsAll_finish _))))))))
  · have := h.size_le
    have := h.handlers_le
    simp only [List.length_append, length_bytes16, length_bytes32, hlength, hrows_length]
    omega

end Body

/-! ### Methods -/

namespace MethodSpec

theorem reads_encodeAttribute {pool : ConstantPool} {name : UInt16} {content : Bytes}
    {a : MethodAttribute} (hlength : content.length ≤ 0xFFFFFFFF)
    (h : MethodAttribute.ofRaw pool ⟨name, content⟩ = .ok a) :
    Reads (MethodAttribute.read pool) (encodeAttribute name content) a := by
  have hraw : Reads RawAttribute.read (bytes16 name ++
      (bytes32 (UInt32.ofNat content.length) ++ (content ++ []))) ⟨name, content⟩ :=
    (reads_u2 name).bind ((reads_u4 _).bind
      ((reads_take (toNat_ofNat32 hlength).symm).bind (.pure _)))
  have hread : Reads (MethodAttribute.read pool) _ a := hraw.bind (Reads.lift h)
  simpa [encodeAttribute] using hread

theorem ofRaw_code {pool : ConstantPool} {name : UInt16} {content : Bytes} {code : Code}
    (hname : pool.text name = .ok "Code") (h : ReadsAll (Code.read pool) content code) :
    MethodAttribute.ofRaw pool ⟨name, content⟩ = .ok (.code code) := by
  unfold MethodAttribute.ofRaw
  rw [hname]
  show ((Code.read pool).run content >>= _) = _
  rw [h]
  rfl

theorem ofRaw_exceptions {pool : ConstantPool} {name : UInt16} {content : Bytes}
    {classes : List String} (hname : pool.text name = .ok "Exceptions")
    (h : ReadsAll (MethodAttribute.readExceptions pool) content classes) :
    MethodAttribute.ofRaw pool ⟨name, content⟩ = .ok (.exceptions classes) := by
  unfold MethodAttribute.ofRaw
  rw [hname]
  show ((MethodAttribute.readExceptions pool).run content >>= _) = _
  rw [h]
  rfl

/-- The attributes that stand for the declared exceptions: none, or one that lists them. -/
def throwsAttributes : List String → List MethodAttribute
  | [] => []
  | classes => [.exceptions classes]

theorem yields_encodeBody {body : Option Body} (h : ∀ b ∈ body, b.Encodable)
    (htexts : ∀ b ∈ body, ∀ text ∈ b.texts, IsStorable text) :
    Yields (encodeBody body) fun pool parts =>
      List.Forall₂ (Reads (MethodAttribute.read pool)) parts
        (body.map fun b => MethodAttribute.code b.code).toList := by
  cases body with
  | none => exact (Yields.pure []).mono fun _ _ hparts => hparts ▸ .nil
  | some b =>
    refine ((yields_internText ⟨by decide, by decide⟩).bind fun name =>
      (Body.yields_encode (h b rfl) (htexts b rfl)).bind fun content =>
        Yields.pure [encodeAttribute name content]).mono ?_
    rintro pool parts ⟨name, hname, content, ⟨hcode, hlength⟩, rfl⟩
    exact .cons (reads_encodeAttribute hlength (ofRaw_code hname hcode)) .nil

theorem yields_encodeThrows {classes : List String} (hlength : classes.length ≤ 0xFFFF)
    (htexts : ∀ name ∈ classes, IsStorable name) :
    Yields (encodeThrows classes) fun pool parts =>
      List.Forall₂ (Reads (MethodAttribute.read pool)) parts (throwsAttributes classes) := by
  cases classes with
  | nil => exact (Yields.pure []).mono fun _ _ hparts => hparts ▸ .nil
  | cons first others =>
    have hclasses : Yields ((first :: others).mapM internClass) _ :=
      Yields.mapM fun name hname => yields_internClass (htexts name hname)
    refine ((yields_internText ⟨by decide, by decide⟩).bind fun name =>
      hclasses.bind fun indices => Yields.pure [encodeAttribute name
        (bytes16 (UInt16.ofNat indices.length) ++ indices.flatMap bytes16)]).mono ?_
    rintro pool parts ⟨name, hname, indices, hindices, rfl⟩
    have hread := (reads_u2 (UInt16.ofNat indices.length)).bind_all
      (f := fun count => times count.toNat (u2 >>= fun i => lift (pool.className i)))
      (reads_classes hindices hlength).readsAll
    refine .cons (reads_encodeAttribute ?_ (ofRaw_exceptions hname hread)) .nil
    have hcount := hindices.length_eq
    simp only [List.length_append, List.length_flatMap, length_bytes16, List.map_const',
      List.sum_replicate_nat, ← hcount]
    omega

/-- The attributes of a method: its body, then its declared exceptions. -/
def attributes (m : MethodSpec) : List MethodAttribute :=
  (m.body.map fun b => MethodAttribute.code b.code).toList ++ throwsAttributes m.throws

theorem flatMap_declared (m : MethodSpec) : m.attributes.flatMap (·.declared) = m.throws := by
  unfold attributes
  cases m.body <;> cases m.throws <;> simp [throwsAttributes, MethodAttribute.declared]

theorem getLast?_code (m : MethodSpec) :
    (m.attributes.filterMap (·.code?)).getLast? = m.body.map (·.code) := by
  unfold attributes
  cases m.body <;> cases m.throws <;> simp [throwsAttributes, MethodAttribute.code?]

theorem length_attributes_le (m : MethodSpec) : m.attributes.length ≤ 2 := by
  unfold attributes
  cases m.body <;> cases m.throws <;> simp [throwsAttributes]

/-- A method reads back. -/
theorem yields_encode {m : MethodSpec} (h : m.Encodable)
    (htexts : ∀ text ∈ m.texts, IsStorable text) :
    Yields m.encode fun pool bytes => Reads (Method.read pool) bytes m.method := by
  have hbody := yields_encodeBody h.body fun b hb text htext =>
    htexts text (by simp [texts]; exact .inr (.inr (.inr ⟨b, hb, htext⟩)))
  have hthrows := yields_encodeThrows h.throws_le fun name hname =>
    htexts name (by simp [texts, hname])
  refine ((yields_internText (htexts m.name (by simp [texts]))).bind fun name =>
    (yields_internText (htexts m.descriptor (by simp [texts]))).bind fun descriptor =>
      hbody.bind fun body => hthrows.bind fun throws => Yields.pure
        (bytes16 m.access.bits ++ bytes16 name ++ bytes16 descriptor ++
          bytes16 (UInt16.ofNat (body ++ throws).length) ++ (body ++ throws).flatten)).mono ?_
  rintro pool bytes ⟨name, hname, descriptor, hdescriptor, body, hbody, throws, hthrows, rfl⟩
  have hattributes : List.Forall₂ (Reads (MethodAttribute.read pool)) (body ++ throws)
      m.attributes := List.rel_append hbody hthrows
  have hcount : (UInt16.ofNat (body ++ throws).length).toNat = m.attributes.length := by
    rw [hattributes.length_eq, toNat_ofNat16 (Nat.le_trans m.length_attributes_le (by decide))]
  have hread := reads_times hattributes
  rw [← hcount] at hread
  have hmethod : m.method = ⟨⟨m.access.bits⟩, m.name, m.descriptor,
      m.attributes.flatMap (·.declared), (m.attributes.filterMap (·.code?)).getLast?⟩ := by
    rw [flatMap_declared, getLast?_code, method]
  rw [hmethod, ← List.append_nil (body ++ throws).flatten]
  simp only [List.append_assoc (bytes16 _)]
  exact (reads_u2 _).bind ((reads_u2 name).bind (.lift_bind hname ((reads_u2 descriptor).bind
    (.lift_bind hdescriptor ((reads_u2 _).bind (hread.bind (.pure _)))))))

end MethodSpec

/-! ### Classes -/

namespace ClassSpec

/-- What follows the pool: flags, the class and its superclass, interfaces, no fields, methods and
no attributes, each as it has to be read. -/
theorem yields_encodeRest {c : ClassSpec} (h : c.Encodable) :
    Yields c.encodeRest fun pool bytes => ∃ name superclass interfaces methods,
      pool.className name = .ok c.name ∧ pool.className? superclass = .ok (some c.superclass) ∧
      List.Forall₂ (fun name i => i ≠ 0 ∧ pool.className i = .ok name) c.interfaces interfaces ∧
      List.Forall₂ (Reads (Method.read pool)) methods (c.methods.map (·.method)) ∧
      bytes = bytes16 c.access.bits ++ bytes16 name ++ bytes16 superclass ++
        bytes16 (UInt16.ofNat interfaces.length) ++ interfaces.flatMap bytes16 ++ bytes16 0 ++
        bytes16 (UInt16.ofNat methods.length) ++ methods.flatten ++ bytes16 0 := by
  have hname := yields_internClass (h.texts c.name (by simp [texts]))
  have hsuperclass := yields_internClass (h.texts c.superclass (by simp [texts]))
  have hinterfaces : Yields (c.interfaces.mapM internClass) _ := Yields.mapM fun name hmem =>
    yields_internClass (h.texts name (by simp [texts, hmem]))
  have hmethods : Yields (c.methods.mapM MethodSpec.encode) _ := Yields.mapM fun m hm =>
    MethodSpec.yields_encode (h.methods m hm) fun text htext =>
      h.texts text (by simp [texts]; exact .inr (.inr (.inr ⟨m, hm, htext⟩)))
  refine (hname.bind fun name => hsuperclass.bind fun superclass =>
    hinterfaces.bind fun interfaces => hmethods.bind fun methods => Yields.pure _).mono ?_
  rintro pool bytes ⟨name, ⟨-, hname⟩, superclass, ⟨hne, hsuperclass⟩, interfaces, hinterfaces,
    methods, hmethods, rfl⟩
  exact ⟨name, superclass, interfaces, methods, hname,
    ConstantPool.className?_of_className hne hsuperclass, hinterfaces,
    List.forall₂_map_right_iff.2 hmethods.flip, rfl⟩

/-- **Reading undoes assembling.** The file of a description in which everything fits its form is
read as the class that the description stands for. -/
theorem ofBytes_encode {c : ClassSpec} (h : c.Encodable) :
    ClassFile.ofBytes c.encode = .ok c.classFile := by
  -- The pool is written before the rest, but is only known when the rest is done.
  obtain ⟨-, hpoolable, hrest⟩ := yields_encodeRest h [] (by simp)
  have hwritable : Writable (c.encodeRest []).2 := ⟨hpoolable, h.constants_le⟩
  obtain ⟨name, superclass, interfaces, methods, hname, hsuperclass, hinterfaces, hmethods,
    hbytes⟩ := hrest _ (List.prefix_refl _) hwritable
  have hcount : (UInt16.ofNat methods.length).toNat = (c.methods.map (·.method)).length := by
    rw [hmethods.length_eq, toNat_ofNat16 (by simpa using h.methods_le)]
  have hread := reads_times hmethods
  rw [← hcount] at hread
  have hnofields : Reads (times (0 : UInt16).toNat ClassFile.skipField) [] [] := fun _ => rfl
  have hfile : ReadsAll ClassFile.read c.encode c.classFile := by
    have hencode : c.encode = bytes32 ClassFile.magic ++ bytes16 0 ++ bytes16 majorVersion ++
        encodePool (c.encodeRest []).2 ++ (c.encodeRest []).1 := rfl
    rw [hencode, hbytes]
    simp only [List.append_assoc]
    exact (reads_u4 _).bind_all ((reads_u2 _).bind_all ((reads_u2 _).bind_all
      (hwritable.reads_encodePool.bind_all ((reads_u2 _).bind_all ((reads_u2 name).bind_all
        (.lift_bind hname ((reads_u2 superclass).bind_all (.lift_bind hsuperclass
          ((reads_u2 _).bind_all ((reads_classes hinterfaces h.interfaces_le).bind_all
            ((reads_u2 0).bind_all (hnofields.bind_all ((reads_u2 _).bind_all (hread.bind_all
              (reads_skipAll.bind_all (readsAll_finish _))))))))))))))))
  rw [ClassFile.ofBytes, hfile]
  rfl

/-- A class with a method that allocates, calls through an interface, catches and throws, and with
one that has no body. -/
def openerClass : ClassSpec where
  name := "a/Opener"
  interfaces := ["a/Source", "a/Closer"]
  methods :=
    [{ name := "open"
       descriptor := "(La/Source;J)V"
       throws := ["java/io/IOException", "x/Broken"]
       body := some
        ⟨[.aload 0, .aload 7, .invoke .interface "a/Source" "next" "(J)V", .throwNew "x/Broken",
            .astore 1, .vreturn],
          [⟨1, 8, 16, some "x/Broken"⟩, ⟨0, 16, 16, none⟩]⟩ },
      { name := "close", descriptor := "()V", access := ⟨0x0401⟩, body := none }]

theorem ofBytes_encode_openerClass :
    openerClass.Encodable ∧ ClassFile.ofBytes openerClass.encode = .ok openerClass.classFile := by
  have hencodable : openerClass.Encodable :=
    { texts := by decide
      constants_le := by decide
      interfaces_le := by decide
      methods_le := by decide
      methods := by
        intro m hm
        rcases List.mem_pair.1 hm with rfl | rfl
        · exact ⟨by decide, fun b hb => Option.mem_some_iff.1 hb ▸
            ⟨by decide, by decide, by decide, by decide⟩⟩
        · exact ⟨by decide, fun b hb => by cases hb⟩ }
  exact ⟨hencodable, ofBytes_encode hencodable⟩

end ClassSpec

end Assembly

end JvmThrows
