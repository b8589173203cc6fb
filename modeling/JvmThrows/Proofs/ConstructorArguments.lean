import JvmThrows.Proofs.StraightRuns

/-!
# Arguments of constructors

`throw new T(...)` allocates, computes the arguments, calls the constructor and throws. The
arguments may construct further objects, of the same class, too, and to any depth; `Arguments` is
the grammar of what may stand there. Whatever the scan knows when it comes to arguments, they leave
the waiting allocations as they found them (`Arguments.pending_foldl`). The constructor call behind
them thus meets its own allocation, and the throw is known to be of its class
(`thrown_throwNew`).
-/

namespace JvmThrows

namespace Operation

/-- Calls a constructor of the class. -/
def Constructs (op : Operation) (c : String) : Prop :=
  ∃ kind target, op = .invoke kind target ∧ target.name = "<init>" ∧ target.owner = c

/-- Neither allocates nor initializes, and control may go on to the next instruction. -/
def isPlain : Operation → Bool
  | .new _ => false
  | .invoke _ target => target.name != "<init>"
  | op => !op.endsRun

/-- What may stand between an allocation and the call of its constructor. -/
inductive Arguments : List Operation → Prop
  | nil : Arguments []
  | plain {ops : List Operation} {op : Operation} (before : Arguments ops)
      (hop : op.isPlain = true) : Arguments (ops ++ [op])
  | construction {ops inner : List Operation} {init : Operation} {c : String}
      (before : Arguments ops) (arguments : Arguments inner) (hinit : init.Constructs c) :
      Arguments (ops ++ .new c :: (inner ++ [init]))

end Operation

namespace Tracker

variable {starts : List Nat} {s : Tracker} {op : Operation} {c : String}

/-! ### One instruction -/

theorem pending_step_of_isPlain (s : Tracker) (h : op.isPlain = true) :
    (s.step op).pending = s.pending := by
  cases op with
  | new c => cases h
  | invoke kind target =>
    -- Calls that are not constructors leave allocations waiting.
    rcases s.call_cases target with ⟨hinit, -⟩ | ⟨-, hnone, hcall⟩ | ⟨-, -, hcall⟩
    · simp [Operation.isPlain, hinit] at h
    · rw [step, hcall, hnone]
    · rw [step, hcall]
  | athrow => cases h
  | leave => cases h
  | branch targets unconditional =>
    cases unconditional with
    | true => cases h
    | false => rfl
  | other opcode =>
    dsimp only [step]
    split
    · rfl
    · rfl

theorem step_of_constructs {outer : List String} (h : op.Constructs c)
    (hs : s.pending = c :: outer) : s.step op = ⟨outer, some c⟩ := by
  obtain ⟨kind, target, rfl, hinit, rfl⟩ := h
  rw [step, call, if_pos hinit, hs]
  exact if_pos rfl

theorem enter_eq_self {pc : Nat} (h : starts.contains pc = false) (s : Tracker) :
    s.enter starts pc = s := by
  rw [enter, h]
  rfl

/-! ### Several instructions -/

/-- What is known after instructions. -/
def after (starts : List Nat) (s : Tracker) (instructions : List Instruction) : Tracker :=
  instructions.foldl (fun s i => (s.enter starts i.pc).step i.op) s

/-- What an instruction throws, given what is known before it. -/
def thrownBy (s : Tracker) (i : Instruction) : List (Nat × String) :=
  if i.op = .athrow then (s.operand.map (i.pc, ·)).toList else []

theorem throwsFrom_cons (starts : List Nat) (s : Tracker) (i : Instruction)
    (rest : List Instruction) :
    throwsFrom starts s (i :: rest) = thrownBy (s.enter starts i.pc) i ++
      throwsFrom starts ((s.enter starts i.pc).step i.op) rest := by
  obtain ⟨pc, op⟩ := i
  rw [throwsFrom, thrownBy]
  cases (s.enter starts pc).operand with
  | none => cases op <;> rfl
  | some thrown => cases op <;> rfl

theorem throwsFrom_append (starts : List Nat) (s : Tracker) (before rest : List Instruction) :
    throwsFrom starts s (before ++ rest) =
      throwsFrom starts s before ++ throwsFrom starts (after starts s before) rest := by
  induction before generalizing s with
  | nil => rfl
  | cons i before ih =>
    rw [List.cons_append, throwsFrom_cons, throwsFrom_cons, ih, List.append_assoc]
    rfl

/-- Instructions that throw nothing, and to which control comes from the one before only. -/
theorem throwsFrom_append_quiet {quiet : List Instruction}
    (hstart : ∀ i ∈ quiet, starts.contains i.pc = false) (hthrow : ∀ i ∈ quiet, i.op ≠ .athrow)
    (s : Tracker) (rest : List Instruction) :
    throwsFrom starts s (quiet ++ rest) =
      throwsFrom starts ((quiet.map (·.op)).foldl step s) rest := by
  induction quiet generalizing s with
  | nil => rfl
  | cons i quiet ih =>
    obtain ⟨hi, hstart⟩ := List.forall_mem_cons.1 hstart
    obtain ⟨hop, hthrow⟩ := List.forall_mem_cons.1 hthrow
    rw [List.cons_append, throwsFrom_cons, enter_eq_self hi, thrownBy, if_neg hop,
      ih hstart hthrow]
    rfl

end Tracker

namespace Operation.Arguments

variable {ops : List Operation}

/-- Arguments keep the waiting allocations, from whatever is known before them. -/
theorem pending_foldl (h : Arguments ops) (s : Tracker) :
    (ops.foldl Tracker.step s).pending = s.pending := by
  induction h generalizing s with
  | nil => rfl
  | plain before hop ih =>
    rw [List.foldl_append]
    exact (Tracker.pending_step_of_isPlain _ hop).trans (ih s)
  | @construction ops inner init c before arguments hinit ih ihInner =>
    -- The allocation waits while its own arguments are evaluated, and its constructor ends it.
    have hinner := ihInner ((ops.foldl Tracker.step s).step (.new c))
    have hdone := Tracker.step_of_constructs hinit hinner
    rw [List.foldl_append, List.foldl_cons, List.foldl_append, List.foldl_cons, List.foldl_nil,
      hdone]
    exact ih s

theorem athrow_notMem (h : Arguments ops) : .athrow ∉ ops := by
  induction h with
  | nil => exact List.not_mem_nil
  | plain before hop ih =>
    rw [List.mem_append, List.mem_singleton]
    rintro (hmem | rfl)
    · exact ih hmem
    · cases hop
  | construction before arguments hinit ih ihInner =>
    obtain ⟨kind, target, rfl, -⟩ := hinit
    simp [ih, ihInner]

end Operation.Arguments

open Operation

section Throw

variable {alloc init throw : Instruction} {arguments : List Instruction} {c : String}

/-- From whatever is known on, the throw is reported and nothing else of the run, and nothing is
known behind it. -/
theorem Tracker.throwsFrom_throwNew {starts : List Nat} (halloc : alloc.op = .new c)
    (harguments : Arguments (arguments.map (·.op))) (hinit : init.op.Constructs c)
    (hthrow : throw.op = .athrow)
    (hstart : ∀ i ∈ arguments ++ [init, throw], starts.contains i.pc = false)
    (s : Tracker) (rest : List Instruction) :
    throwsFrom starts s (alloc :: (arguments ++ [init, throw]) ++ rest) =
      (throw.pc, c) :: throwsFrom starts {} rest := by
  have hsplit : arguments ++ [init, throw] = arguments ++ [init] ++ [throw] := by simp
  rw [hsplit] at hstart ⊢
  obtain ⟨hquiet, hlast⟩ := List.forall_mem_append.1 hstart
  have hnothrow : ∀ i ∈ arguments ++ [init], i.op ≠ .athrow := by
    intro i hi heq
    rcases List.mem_append.1 hi with hi | hi
    · exact harguments.athrow_notMem (heq ▸ List.mem_map_of_mem hi)
    · -- A constructor is an invocation.
      obtain ⟨kind, target, hop, -⟩ := hinit
      rw [List.mem_singleton.1 hi, hop] at heq
      cases heq
  -- the constructor call finds the allocation of the run on top
  have hmade (t : Tracker) : ((arguments ++ [init]).map (·.op)).foldl step (t.step (.new c)) =
      ⟨t.pending, some c⟩ := by
    rw [List.map_append, List.foldl_append]
    exact step_of_constructs hinit (harguments.pending_foldl _)
  have hfirst (t : Tracker) : t.thrownBy alloc = [] := if_neg (by rw [halloc]; simp)
  rw [List.cons_append, throwsFrom_cons, hfirst, halloc, List.append_assoc,
    throwsFrom_append_quiet hquiet hnothrow, hmade, List.singleton_append, throwsFrom_cons,
    enter_eq_self (hlast throw (List.mem_singleton_self throw)), thrownBy, if_pos hthrow, hthrow]
  rfl

end Throw

namespace Code

/-- **Constructed and thrown.** Where an allocation of a class, arguments, a call of a constructor
of the class and a throw stand behind each other, and control comes to none but the first of them
from elsewhere, the throw is known to be of the class. Nothing else is reported of these
instructions, and neither do they depend on what stands before them, nor does what comes behind them
depend on them. -/
theorem thrown_throwNew (code : Code) {before arguments rest : List Instruction}
    {alloc init throw : Instruction} {c : String}
    (hcode : code.instructions = before ++ (alloc :: (arguments ++ [init, throw]) ++ rest))
    (halloc : alloc.op = .new c) (harguments : Arguments (arguments.map (·.op)))
    (hinit : init.op.Constructs c) (hthrow : throw.op = .athrow)
    (hblock : ∀ i ∈ arguments ++ [init, throw], code.isTarget i.pc = false) :
    code.thrown = Tracker.throwsFrom code.blockStarts {} before ++
      (throw.pc, c) :: Tracker.throwsFrom code.blockStarts {} rest := by
  have hstart : ∀ i ∈ arguments ++ [init, throw], code.blockStarts.contains i.pc = false := by
    intro i hi
    rw [contains_blockStarts, hblock i hi]
  rw [thrown, hcode, Tracker.throwsFrom_append,
    Tracker.throwsFrom_throwNew halloc harguments hinit hthrow hstart]

/-- A call of a constructor of `p.Failure`. -/
def initFailure : Operation := .invoke .special ⟨"p/Failure", "<init>", "()V", false⟩

/-- `throw new p.Failure(new p.Failure(), x)`, while an allocation waits and a call has returned
something else. -/
def wrappedFailure : Code where
  maxStack := 6
  maxLocals := 2
  handlers := []
  instructions :=
    [⟨0, .invoke .static ⟨"p/Errors", "make", "()Lp/Other;", false⟩⟩, ⟨3, .new "p/Outer"⟩] ++
    (⟨6, .new "p/Failure"⟩ :: ([⟨9, .other 0x59⟩, ⟨10, .new "p/Failure"⟩, ⟨13, .other 0x59⟩,
      ⟨14, initFailure⟩, ⟨17, .other 0x2b⟩] ++ [⟨18, initFailure⟩, ⟨21, .athrow⟩]) ++
      [⟨22, .leave⟩])

theorem thrown_wrappedFailure :
    Arguments [.other 0x59, .new "p/Failure", .other 0x59, initFailure, .other 0x2b] ∧
      wrappedFailure.thrown = [(21, "p/Failure")] := by
  have hinit : initFailure.Constructs "p/Failure" := ⟨_, _, rfl, rfl, rfl⟩
  have harguments : Arguments
      [.other 0x59, .new "p/Failure", .other 0x59, initFailure, .other 0x2b] :=
    .plain (.construction (.plain .nil rfl) (.plain .nil rfl) hinit) rfl
  refine ⟨harguments, ?_⟩
  have hthrown := thrown_throwNew wrappedFailure rfl rfl harguments hinit rfl
    (by decide)
  rw [hthrown]
  decide +kernel

end Code

end JvmThrows
