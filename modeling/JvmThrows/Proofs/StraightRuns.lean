import JvmThrows.Extraction.Scan

/-!
# What is thrown was made on a straight run

The scan of a body keeps a stack of classes and one reference, and forgets them where control may
come from elsewhere. Here the same is told by positions in the body. A reference comes from a
constructor call for the innermost allocation that waits for one, or from another call while no
allocation waits; it lasts until control may come from elsewhere or does not go on, or until another
reference takes its place (`Holds`).

The step lemmas say that both accounts stay together over one instruction: `map_pendingAfter` for
the allocations, `operand_step` and `holds_succ_iff` for the reference. By induction they agree
before every instruction (`operand_trackerAt_iff`), which gives the main statement,
`mem_thrown_iff`. Which allocations wait can also be said without a stack (`mem_pendingAt_iff`).
-/

namespace JvmThrows

/-- Control never goes on to the next instruction. -/
def Operation.endsRun : Operation → Bool
  | .athrow | .leave | .branch _ true => true
  | _ => false

/-- Calls with the descriptor return an object of the class. -/
def Returns (descriptor c : String) : Prop :=
  ∃ d, MethodDescriptor.parse descriptor = .ok d ∧ d.returnType = .value (.object c)

/-- A call does one of three things: it initializes the innermost allocation, it leaves what it
returns while nothing waits, or it is part of the arguments of a constructor. -/
theorem Tracker.call_cases (s : Tracker) (target : MemberRef) :
    (target.name = "<init>" ∧ ∃ outer, s.pending = target.owner :: outer ∧
      s.call target = ⟨outer, some target.owner⟩) ∨
    (target.name ≠ "<init>" ∧ s.pending = [] ∧
      s.call target = ⟨[], Tracker.returned? target.descriptor⟩) ∨
    (target.name = "<init>" → s.pending.head? ≠ some target.owner) ∧
      (target.name ≠ "<init>" → s.pending ≠ []) ∧ s.call target = s := by
  unfold Tracker.call
  obtain ⟨pending, operand⟩ := s
  by_cases hinit : target.name = "<init>"
  · -- A constructor ends the innermost allocation, if that is of its class.
    cases pending with
    | nil => simp [hinit]
    | cons d outer =>
      by_cases hd : d = target.owner
      · simp [hinit, hd]
      · simp [hinit, hd]
  · -- Another call returns something only where no allocation waits.
    cases pending with
    | nil => simp [hinit]
    | cons d outer => simp [hinit]

namespace Code

section Defs

variable (code : Code)

/-- The operation at an index. -/
def op? (i : Nat) : Option Operation := (code.instructions[i]?).map (·.op)

/-- A branch or a handler leads to the position. -/
def isTarget (pc : Nat) : Bool :=
  code.instructions.any (fun i => (jumps i.op).contains pc) || code.handlers.any (·.entry == pc)

/-- Control may come to the instruction at the index from elsewhere. -/
def startsBlock (i : Nat) : Bool := (code.instructions[i]?).any fun i => code.isTarget i.pc

/-- From just after `i` on, control goes straight to `j`. -/
structure Straight (i j : Nat) : Prop where
  startsBlock : ∀ m, i < m → m ≤ j → code.startsBlock m = false
  endsRun : ∀ m op, i < m → m < j → code.op? m = some op → op.endsRun = false

/-- What the operation at `i` makes of the allocations that wait for their constructors. -/
def pendingAfter (pending : List (Nat × String)) (i : Nat) : Operation → List (Nat × String)
  | .new c => (i, c) :: pending
  | .invoke _ target =>
    if target.name = "<init>" ∧ pending.head?.map (·.2) = some target.owner then pending.tail
    else pending
  | op => if op.endsRun then [] else pending

/-- The allocations that wait for their constructors before the instruction at an index: where they
were made and of which class, innermost first. -/
def pendingAt : Nat → List (Nat × String)
  | 0 => []
  | i + 1 =>
    if code.startsBlock (i + 1) then []
    else (code.op? i).elim (pendingAt i) (pendingAfter (pendingAt i) i)

/-- The instruction at `j` calls a constructor of `c` for the innermost waiting allocation, which
was made at `k`. -/
def Initializes (j k : Nat) (c : String) : Prop :=
  (∃ kind target, code.op? j = some (.invoke kind target) ∧ target.name = "<init>" ∧
    target.owner = c) ∧ ∃ outer, code.pendingAt j = (k, c) :: outer

/-- The instruction at `j` calls a method that is no constructor, while no allocation waits. -/
def Calls (j : Nat) (target : MemberRef) : Prop :=
  (∃ kind, code.op? j = some (.invoke kind target)) ∧ target.name ≠ "<init>" ∧
    code.pendingAt j = []

/-- The instruction at `j` loads a reference of which nothing is known, while no allocation
waits. -/
def Loads (j : Nat) : Prop :=
  (∃ opcode, code.op? j = some (.other opcode) ∧ Tracker.pushesUnknown opcode = true) ∧
    code.pendingAt j = []

/-- Whatever would have been thrown before the instruction at `j` is not thrown after it. -/
def Replaces (j : Nat) : Prop :=
  (∃ k c, code.Initializes j k c) ∨ (∃ target, code.Calls j target) ∨ code.Loads j

/-- The instruction at `j` leaves an object of the class. -/
def Makes (j : Nat) (c : String) : Prop :=
  (∃ k, code.Initializes j k c) ∨ ∃ target, code.Calls j target ∧ Returns target.descriptor c

/-- What the instruction at `j` made lasts up to `i`: control goes straight there and meets no
instruction where it is lost. -/
structure Lasts (lost : Nat → Prop) (j i : Nat) : Prop where
  lt : j < i
  straight : code.Straight j i
  kept : ∀ m, j < m → m < i → ¬ lost m

/-- An object of the class would be thrown at `i`. -/
def Holds (i : Nat) (c : String) : Prop := ∃ j, code.Makes j c ∧ code.Lasts code.Replaces j i

/-- What the scan knows before the instruction at an index. -/
def trackerAt : Nat → Tracker
  | 0 => {}
  | i + 1 =>
    if code.startsBlock (i + 1) then {}
    else (code.op? i).elim (trackerAt i) (trackerAt i).step

end Defs

variable {code : Code} {i j k : Nat} {c : String} {op : Operation}

/-! ### Blocks -/

theorem mem_insertAscending {n m : Nat} {l : List Nat} :
    m ∈ insertAscending n l ↔ m = n ∨ m ∈ l := by
  induction l with
  | nil => simp [insertAscending]
  | cons a l ih =>
    unfold insertAscending
    by_cases hlt : n < a
    · rw [if_pos hlt, List.mem_cons]
    · rw [if_neg hlt]
      -- Positions are listed once.
      by_cases heq : n = a
      · rw [if_pos heq, heq]
        simp
      · rw [if_neg heq, List.mem_cons, ih, List.mem_cons]
        exact or_left_comm

theorem contains_blockStarts (code : Code) (pc : Nat) :
    code.blockStarts.contains pc = code.isTarget pc := by
  have hmem (l : List Nat) : pc ∈ l.foldr insertAscending [] ↔ pc ∈ l := by
    induction l with
    | nil => rfl
    | cons a l ih => rw [List.foldr_cons, mem_insertAscending, ih, List.mem_cons]
  rw [Bool.eq_iff_iff, List.contains_iff_mem]
  unfold blockStarts isTarget
  rw [hmem]
  simp

/-! ### Straight runs -/

theorem Straight.of_le (h : code.Straight i j) {m : Nat} (hm : m ≤ j) : code.Straight i m where
  startsBlock n hn hle := h.startsBlock n hn (Nat.le_trans hle hm)
  endsRun n op hn hlt hop := h.endsRun n op hn (Nat.lt_of_lt_of_le hlt hm) hop

theorem Straight.from_ge (h : code.Straight i j) {m : Nat} (hm : i ≤ m) : code.Straight m j where
  startsBlock n hn hle := h.startsBlock n (by omega) hle
  endsRun n op hn hlt hop := h.endsRun n op (by omega) hlt hop

theorem straight_succ_iff (hij : i < j) :
    code.Straight i (j + 1) ↔ code.Straight i j ∧ code.startsBlock (j + 1) = false ∧
      ∀ op, code.op? j = some op → op.endsRun = false := by
  constructor
  · intro h
    exact ⟨h.of_le (Nat.le_succ j), h.startsBlock (j + 1) (by omega) (by omega),
      fun op hop => h.endsRun j op hij (by omega) hop⟩
  · rintro ⟨h, hstart, hend⟩
    refine ⟨fun m hm hle => ?_, fun m op hm hlt hop => ?_⟩
    · -- One more position and one more instruction, each at the end.
      by_cases heq : m = j + 1
      · rw [heq, hstart]
      · exact h.startsBlock m hm (by omega)
    · by_cases heq : m = j
      · exact hend op (heq ▸ hop)
      · exact h.endsRun m op hm (by omega) hop

theorem Straight.trans (h : code.Straight i j)
    (hend : ∀ op, code.op? j = some op → op.endsRun = false) (h' : code.Straight j k) :
    code.Straight i k where
  startsBlock m hm hle := by
    by_cases hmj : m ≤ j
    · exact h.startsBlock m hm hmj
    · exact h'.startsBlock m (by omega) hle
  endsRun m op hm hlt hop := by
    -- The instruction in the middle is neither in the first run nor in the second.
    rcases Nat.lt_trichotomy m j with hmj | rfl | hmj
    · exact h.endsRun m op hm hmj hop
    · exact hend op hop
    · exact h'.endsRun m op hmj hlt hop

section Lasts

variable {lost : Nat → Prop}

theorem lasts_self_succ (h : code.startsBlock (i + 1) = false) :
    code.Lasts lost i (i + 1) where
  lt := Nat.lt_succ_self i
  straight := {
    startsBlock := fun m hm hle => by
      rwa [show m = i + 1 by omega]
    endsRun := fun m op hm hlt _ => by omega }
  kept m hm hlt := by omega

/-- One more instruction. -/
theorem lasts_succ_iff (hstart : code.startsBlock (i + 1) = false) (hji : j ≠ i) :
    code.Lasts lost j (i + 1) ↔ code.Lasts lost j i ∧
      (∀ op, code.op? i = some op → op.endsRun = false) ∧ ¬ lost i := by
  constructor
  · intro h
    have hlt : j < i := Nat.lt_of_le_of_ne (Nat.le_of_lt_succ h.lt) hji
    obtain ⟨hstraight, -, hend⟩ := (straight_succ_iff hlt).1 h.straight
    exact ⟨⟨hlt, hstraight, fun m hm hmi => h.kept m hm (by omega)⟩, hend,
      h.kept i hlt (Nat.lt_succ_self i)⟩
  · rintro ⟨h, hend, hlost⟩
    refine ⟨Nat.lt_succ_of_lt h.lt, (straight_succ_iff h.lt).2 ⟨h.straight, hstart, hend⟩,
      fun m hm hmi => ?_⟩
    by_cases heq : m = i
    · rwa [heq]
    · exact h.kept m hm (by omega)

theorem not_lasts (h : code.startsBlock i = true) : ¬ code.Lasts lost j i := by
  intro hlasts
  have hnone := hlasts.straight.startsBlock i hlasts.lt (Nat.le_refl i)
  rw [h] at hnone
  cases hnone

end Lasts

/-! ### Allocations -/

/-- An operation does one of four things to the allocations that wait: it makes one, it drops them
all, it initializes the innermost one, or it keeps them. -/
theorem pendingAfter_cases (pending : List (Nat × String)) (i : Nat) (op : Operation) :
    (∃ c, op = .new c ∧ pendingAfter pending i op = (i, c) :: pending) ∨
    (op.endsRun = true ∧ pendingAfter pending i op = []) ∨
    (∃ kind target k outer, op = .invoke kind target ∧ target.name = "<init>" ∧
      pending = (k, target.owner) :: outer ∧ pendingAfter pending i op = outer) ∨
    (∀ c, op ≠ .new c) ∧ op.endsRun = false ∧
      (∀ kind target k outer, op = .invoke kind target → target.name = "<init>" →
        pending ≠ (k, target.owner) :: outer) ∧
      pendingAfter pending i op = pending := by
  cases op with
  | new c => exact .inl ⟨c, rfl, rfl⟩
  | invoke kind target =>
    dsimp only [pendingAfter]
    by_cases h : target.name = "<init>" ∧ pending.head?.map (·.2) = some target.owner
    · -- The constructor of what was allocated last.
      obtain ⟨hinit, hhead⟩ := h
      obtain ⟨⟨k, d⟩, hk, rfl⟩ := Option.map_eq_some_iff.1 hhead
      obtain ⟨outer, rfl⟩ := List.head?_eq_some_iff.1 hk
      exact .inr (.inr (.inl ⟨kind, target, k, outer, rfl, hinit, rfl, if_pos ⟨hinit, rfl⟩⟩))
    · -- Another constructor, or another method: allocations go on waiting.
      refine .inr (.inr (.inr ⟨by simp, rfl, ?_, if_neg h⟩))
      rintro kind' target' k outer ⟨⟩ hinit rfl
      exact h ⟨hinit, rfl⟩
  | athrow => exact .inr (.inl ⟨rfl, rfl⟩)
  | leave => exact .inr (.inl ⟨rfl, rfl⟩)
  | branch targets unconditional =>
    cases unconditional with
    | true => exact .inr (.inl ⟨rfl, rfl⟩)
    | false => exact .inr (.inr (.inr ⟨by simp, rfl, by simp, rfl⟩))
  | other opcode => exact .inr (.inr (.inr ⟨by simp, rfl, by simp, rfl⟩))

/-- Allocations are listed from the latest to the earliest. -/
theorem pairwise_pendingAt (code : Code) (i : Nat) :
    (code.pendingAt i).Pairwise (fun p q => q.1 < p.1) ∧ ∀ p ∈ code.pendingAt i, p.1 < i := by
  induction i with
  | zero => exact ⟨.nil, fun p hp => absurd hp List.not_mem_nil⟩
  | succ i ih =>
    obtain ⟨hpair, hlt⟩ := ih
    have hlt' : ∀ p ∈ code.pendingAt i, p.1 < i + 1 := fun p hp => Nat.lt_succ_of_lt (hlt p hp)
    unfold pendingAt
    split
    · exact ⟨.nil, fun p hp => absurd hp List.not_mem_nil⟩
    · cases code.op? i with
      | none => exact ⟨hpair, hlt'⟩
      | some op =>
        dsimp only [Option.elim]
        rcases pendingAfter_cases (code.pendingAt i) i op with ⟨c, -, heq⟩ | ⟨-, heq⟩ |
          ⟨kind, target, k, outer, -, -, hp, heq⟩ | ⟨-, -, -, heq⟩
        · -- The new allocation is later than all that wait.
          rw [heq]
          exact ⟨.cons hlt hpair, List.forall_mem_cons.2 ⟨Nat.lt_succ_self i, hlt'⟩⟩
        · rw [heq]
          exact ⟨.nil, fun p hp => absurd hp List.not_mem_nil⟩
        · -- The innermost one is gone, and those outside it stay in order.
          rw [heq]
          rw [hp] at hpair hlt'
          exact ⟨hpair.of_cons, fun p hp => hlt' p (List.mem_cons_of_mem _ hp)⟩
        · rw [heq]
          exact ⟨hpair, hlt'⟩

theorem mem_pendingAfter_iff (hop : code.op? i = some op) (hk : k ≠ i) :
    (k, c) ∈ pendingAfter (code.pendingAt i) i op ↔
      (k, c) ∈ code.pendingAt i ∧ op.endsRun = false ∧ ¬ code.Initializes i k c := by
  rcases pendingAfter_cases (code.pendingAt i) i op with ⟨d, rfl, heq⟩ | ⟨hend, heq⟩ |
    ⟨kind, target, k', outer, rfl, hinit, hp, heq⟩ | ⟨-, hend, hkeeps, heq⟩
  · -- An allocation initializes nothing.
    have hne : (k, c) ≠ (i, d) := fun h => hk (congrArg Prod.fst h)
    have hnot : ¬ code.Initializes i k c := by
      rintro ⟨⟨kind, target, hi, -⟩, -⟩
      cases hop.symm.trans hi
    simp [heq, hne, hnot, Operation.endsRun]
  · simp [heq, hend]
  · -- The innermost allocation is later than all others, and no longer waits.
    have hpair := (code.pairwise_pendingAt i).1
    rw [hp, List.pairwise_cons] at hpair
    rw [heq, hp, List.mem_cons]
    constructor
    · intro hmem
      refine ⟨.inr hmem, rfl, ?_⟩
      rintro ⟨-, outer', hp'⟩
      obtain ⟨heq, -⟩ := List.cons.inj (hp.symm.trans hp')
      exact absurd (hpair.1 _ hmem) (by rw [heq]; exact Nat.lt_irrefl k)
    · rintro ⟨heq | hmem, -, hnot⟩
      · obtain ⟨rfl, rfl⟩ := Prod.mk.inj heq
        exact absurd ⟨⟨kind, target, hop, hinit, rfl⟩, outer, hp⟩ hnot
      · exact hmem
  · have hnot : ¬ code.Initializes i k c := by
      rintro ⟨⟨kind, target, hi, hname, rfl⟩, outer, hp⟩
      exact hkeeps kind target k outer (Option.some.inj (hop.symm.trans hi)) hname hp
    simp [heq, hend, hnot]

theorem mem_pendingAfter_self_iff {pending : List (Nat × String)}
    (hlt : ∀ p ∈ pending, p.1 < i) :
    (i, c) ∈ pendingAfter pending i op ↔ op = .new c := by
  have hnot : (i, c) ∉ pending := fun h => Nat.lt_irrefl i (hlt _ h)
  rcases pendingAfter_cases pending i op with ⟨d, rfl, heq⟩ | ⟨hend, heq⟩ |
    ⟨kind, target, k', outer, rfl, -, rfl, heq⟩ | ⟨hnew, -, -, heq⟩
  · simp [heq, hnot, eq_comm]
  · -- What ends a run is no allocation.
    rw [heq]
    refine ⟨fun h => absurd h List.not_mem_nil, ?_⟩
    rintro rfl
    cases hend
  · rw [heq]
    exact ⟨fun h => absurd (List.mem_cons_of_mem _ h) hnot, fun h => by cases h⟩
  · rw [heq]
    exact ⟨fun h => absurd h hnot, fun h => absurd h (hnew c)⟩

/-- An allocation waits if and only if it was made on the straight run to here and no constructor
call has been for it, as the innermost one of those that waited then. -/
theorem mem_pendingAt_iff : (k, c) ∈ code.pendingAt i ↔
    code.op? k = some (.new c) ∧ code.Lasts (fun m => code.Initializes m k c) k i := by
  induction i with
  | zero => exact ⟨fun h => absurd h List.not_mem_nil, fun h => absurd h.2.lt (Nat.not_lt_zero k)⟩
  | succ i ih =>
    unfold pendingAt
    by_cases hstart : code.startsBlock (i + 1) = true
    · rw [if_pos hstart]
      exact ⟨fun h => absurd h List.not_mem_nil, fun h => absurd h.2 (not_lasts hstart)⟩
    · rw [if_neg hstart]
      have hstart : code.startsBlock (i + 1) = false := by simpa using hstart
      by_cases hk : k = i
      · -- Position `i` is the allocation itself, or nothing waits there yet.
        subst hk
        have hlt := (code.pairwise_pendingAt k).2
        rw [and_iff_left (lasts_self_succ hstart)]
        cases code.op? k with
        | none => exact ⟨fun h => absurd (hlt _ h) (Nat.lt_irrefl k), fun h => by cases h⟩
        | some op => simpa using mem_pendingAfter_self_iff hlt
      · -- What waits behind `i` has waited in front of it, and was left alone.
        rw [lasts_succ_iff hstart hk, ← and_assoc, ← ih]
        cases hop : code.op? i with
        | none =>
          have hnot : ¬ code.Initializes i k c := by simp [Initializes, hop]
          simp [hnot]
        | some op => simpa using mem_pendingAfter_iff hop hk

theorem Initializes.alloc (h : code.Initializes j k c) :
    k < j ∧ code.op? k = some (.new c) ∧ code.Straight k j := by
  obtain ⟨-, outer, hpending⟩ := h
  have hmem : (k, c) ∈ code.pendingAt j := by
    rw [hpending]
    exact List.mem_cons_self
  obtain ⟨hnew, hlasts⟩ := mem_pendingAt_iff.1 hmem
  exact ⟨hlasts.lt, hnew, hlasts.straight⟩

theorem Initializes.endsRun (h : code.Initializes j k c) :
    ∀ op, code.op? j = some op → op.endsRun = false := by
  obtain ⟨⟨kind, target, hcall, -⟩, -⟩ := h
  intro op hop
  obtain rfl : .invoke kind target = op := Option.some.inj (hcall.symm.trans hop)
  rfl

theorem map_pendingAfter {s : Tracker} {pending : List (Nat × String)}
    (hs : s.pending = pending.map (·.2)) (i : Nat) (op : Operation) :
    (s.step op).pending = (pendingAfter pending i op).map (·.2) := by
  cases op with
  | new d => simp [Tracker.step, pendingAfter, hs]
  | invoke kind target =>
    dsimp only [Tracker.step, pendingAfter]
    have hhead : s.pending.head? = pending.head?.map (·.2) := by rw [hs, List.head?_map]
    rcases Tracker.call_cases s target with
      ⟨hinit, outer, hp, hcall⟩ | ⟨hinit, hp, hcall⟩ | ⟨hinit, -, hcall⟩
    · -- The classes agree, so that the positions are dropped along with them.
      rw [hcall, if_pos ⟨hinit, by rw [← hhead, hp]; rfl⟩, List.map_tail, ← hs, hp]
      rfl
    · rw [hcall, if_neg (fun h => hinit h.1), ← hs, hp]
    · rw [hcall, if_neg (fun h => hinit h.1 (hhead.trans h.2)), hs]
  | athrow => rfl
  | leave => rfl
  | branch targets unconditional =>
    cases unconditional with
    | true => rfl
    | false => exact hs
  | other opcode =>
    dsimp only [Tracker.step]
    split
    · exact hs
    · exact hs

theorem pending_trackerAt (code : Code) (i : Nat) :
    (code.trackerAt i).pending = (code.pendingAt i).map (·.2) := by
  induction i with
  | zero => rfl
  | succ i ih =>
    unfold trackerAt pendingAt
    by_cases hstart : code.startsBlock (i + 1) = true
    · rw [if_pos hstart, if_pos hstart]
      rfl
    · rw [if_neg hstart, if_neg hstart]
      cases code.op? i with
      | none => exact ih
      | some op => exact map_pendingAfter ih i op

/-! ### The reference -/

theorem returned?_eq_some_iff {descriptor : String} :
    Tracker.returned? descriptor = some c ↔ Returns descriptor c := by
  unfold Tracker.returned? Returns MethodDescriptor.returnedClass
  cases MethodDescriptor.parse descriptor with
  | error e => simp
  | ok d => cases hd : d.returnType with
    | void => simp [hd]
    | value t => cases t <;> simp [hd]

section Step

variable {kind : InvokeKind} {target target' : MemberRef}

theorem initializes_iff (hop : code.op? i = some (.invoke kind target)) :
    code.Initializes i k c ↔ target.name = "<init>" ∧ target.owner = c ∧
      ∃ outer, code.pendingAt i = (k, c) :: outer := by
  simp [Initializes, hop, and_assoc]

theorem calls_iff (hop : code.op? i = some (.invoke kind target)) :
    code.Calls i target' ↔ target = target' ∧ target.name ≠ "<init>" ∧ code.pendingAt i = [] := by
  simp only [Calls, hop, Option.some.injEq, Operation.invoke.injEq]
  constructor
  · rintro ⟨⟨kind', -, rfl⟩, h⟩
    exact ⟨rfl, h⟩
  · rintro ⟨rfl, h⟩
    exact ⟨⟨kind, rfl, rfl⟩, h⟩

theorem Makes.replaces (h : code.Makes i c) : code.Replaces i := by
  rcases h with ⟨k, h⟩ | ⟨target, h, -⟩
  · exact .inl ⟨k, c, h⟩
  · exact .inr (.inl ⟨target, h⟩)

/-- Calls and loads alone bring a reference in the place of another. -/
theorem not_replaces (hop : code.op? i = some op) (hcall : ∀ kind target, op ≠ .invoke kind target)
    (hload : ∀ opcode, op ≠ .other opcode) : ¬ code.Replaces i := by
  rintro (⟨k, c, ⟨kind, target, hi, -⟩, -⟩ | ⟨target, ⟨kind, hi⟩, -⟩ | ⟨⟨opcode, hi, -⟩, -⟩)
  · exact hcall kind target (Option.some.inj (hop.symm.trans hi))
  · exact hcall kind target (Option.some.inj (hop.symm.trans hi))
  · exact hload opcode (Option.some.inj (hop.symm.trans hi))

theorem not_makes_other {opcode : UInt8} (hop : code.op? i = some (.other opcode)) :
    ¬ code.Makes i c := by
  rintro (⟨k, ⟨kind, target, hi, -⟩, -⟩ | ⟨target, ⟨⟨kind, hi⟩, -⟩, -⟩)
  · cases hop.symm.trans hi
  · cases hop.symm.trans hi

theorem operand_call {s : Tracker} (hop : code.op? i = some (.invoke kind target))
    (hs : s.pending = (code.pendingAt i).map (·.2)) :
    (s.call target).operand = some c ↔
      code.Makes i c ∨ s.operand = some c ∧ ¬ code.Replaces i := by
  rcases Tracker.call_cases s target with
    ⟨hinit, outer, hp, hcall⟩ | ⟨hinit, hp, hcall⟩ | ⟨hinit, hother, hcall⟩
  · -- A constructor: the object is what is on the stack.
    obtain ⟨⟨k, d⟩, rest, hpending, rfl, -⟩ := List.map_eq_cons_iff.1 (hs.symm.trans hp)
    have hinitializes : code.Initializes i k target.owner :=
      (initializes_iff hop).2 ⟨hinit, rfl, rest, hpending⟩
    rw [hcall, Option.some.injEq]
    constructor
    · rintro rfl
      exact .inl (.inl ⟨k, hinitializes⟩)
    · rintro ((⟨k', h⟩ | ⟨target', h, -⟩) | ⟨-, hkeeps⟩)
      · exact ((initializes_iff hop).1 h).2.1
      · exact absurd hinit ((calls_iff hop).1 h).2.1
      · exact absurd (.inl ⟨k, _, hinitializes⟩) hkeeps
  · -- No allocation waits, and what is returned is on the stack.
    have hpending : code.pendingAt i = [] := List.map_eq_nil_iff.1 (hs.symm.trans hp)
    have hcalls : code.Calls i target := (calls_iff hop).2 ⟨rfl, hinit, hpending⟩
    rw [hcall, returned?_eq_some_iff]
    constructor
    · intro h
      exact .inl (.inr ⟨target, hcalls, h⟩)
    · rintro ((⟨k', h⟩ | ⟨target', h, hreturns⟩) | ⟨-, hkeeps⟩)
      · exact absurd ((initializes_iff hop).1 h).1 hinit
      · rwa [((calls_iff hop).1 h).1]
      · exact absurd (.inr (.inl ⟨target, hcalls⟩)) hkeeps
  · -- The call is inside the arguments of a constructor, and says nothing.
    have hkeeps : ¬ code.Replaces i := by
      rintro (⟨k, d, h⟩ | ⟨target', h⟩ | ⟨⟨opcode, h, -⟩, -⟩)
      · obtain ⟨hname, rfl, outer, hpending⟩ := (initializes_iff hop).1 h
        exact hinit hname (by rw [hs, hpending]; rfl)
      · obtain ⟨-, hname, hpending⟩ := (calls_iff hop).1 h
        exact hother hname (by rw [hs, hpending]; rfl)
      · cases hop.symm.trans h
    rw [hcall]
    simp [hkeeps, mt Makes.replaces hkeeps]

theorem operand_load {s : Tracker} {opcode : UInt8} (hop : code.op? i = some (.other opcode))
    (hs : s.pending = (code.pendingAt i).map (·.2)) :
    (s.step (.other opcode)).operand = some c ↔ s.operand = some c ∧ ¬ code.Replaces i := by
  have hreplaces : code.Replaces i ↔
      Tracker.pushesUnknown opcode = true ∧ s.pending.isEmpty = true := by
    simp [Replaces, Initializes, Calls, Loads, hop, hs]
  rw [hreplaces, ← Bool.and_eq_true]
  dsimp only [Tracker.step]
  split
  next h => simp [h]
  next h => simp [h]

/-- After an instruction, what it makes would be thrown, or what would have been thrown before. -/
theorem operand_step {s : Tracker} (hop : code.op? i = some op)
    (hs : s.pending = (code.pendingAt i).map (·.2)) :
    (s.step op).operand = some c ↔
      code.Makes i c ∨ s.operand = some c ∧ op.endsRun = false ∧ ¬ code.Replaces i := by
  cases op with
  | invoke kind target =>
    have hcall := operand_call (c := c) hop hs
    simpa only [Tracker.step, Operation.endsRun, true_and] using hcall
  | other opcode =>
    have hload := operand_load (c := c) hop hs
    simpa only [Operation.endsRun, true_and, not_makes_other hop, false_or] using hload
  | new d =>
    have hkeeps := not_replaces hop (by simp) (by simp)
    simp [Tracker.step, Operation.endsRun, hkeeps, mt Makes.replaces hkeeps]
  | athrow =>
    have hkeeps := not_replaces hop (by simp) (by simp)
    simp [Tracker.step, Operation.endsRun, mt Makes.replaces hkeeps]
  | leave =>
    have hkeeps := not_replaces hop (by simp) (by simp)
    simp [Tracker.step, Operation.endsRun, mt Makes.replaces hkeeps]
  | branch targets unconditional =>
    have hkeeps := not_replaces hop (by simp) (by simp)
    cases unconditional <;>
      simp [Tracker.step, Operation.endsRun, hkeeps, mt Makes.replaces hkeeps]

end Step

theorem holds_succ_iff (hstart : code.startsBlock (i + 1) = false) :
    code.Holds (i + 1) c ↔ code.Makes i c ∨ code.Holds i c ∧
      (∀ op, code.op? i = some op → op.endsRun = false) ∧ ¬ code.Replaces i := by
  constructor
  · rintro ⟨j, hmakes, hlasts⟩
    -- Made right here, or earlier and kept since.
    by_cases heq : j = i
    · exact .inl (heq ▸ hmakes)
    · obtain ⟨hlasts, hkeeps⟩ := (lasts_succ_iff hstart heq).1 hlasts
      exact .inr ⟨⟨j, hmakes, hlasts⟩, hkeeps⟩
  · rintro (hmakes | ⟨⟨j, hmakes, hlasts⟩, hkeeps⟩)
    · exact ⟨i, hmakes, lasts_self_succ hstart⟩
    · exact ⟨j, hmakes, (lasts_succ_iff hstart (Nat.ne_of_lt hlasts.lt)).2 ⟨hlasts, hkeeps⟩⟩

/-- Before every instruction the scan knows what would be thrown. -/
theorem operand_trackerAt_iff : (code.trackerAt i).operand = some c ↔ code.Holds i c := by
  induction i with
  | zero =>
    have hholds : ¬ code.Holds 0 c := by
      rintro ⟨j, -, hlasts⟩
      exact Nat.not_lt_zero j hlasts.lt
    simp [trackerAt, hholds]
  | succ i ih =>
    unfold trackerAt
    by_cases hstart : code.startsBlock (i + 1) = true
    · -- At the start of a block nothing is known.
      simp [hstart, Holds, not_lasts hstart]
    · rw [if_neg hstart, holds_succ_iff (by simpa using hstart), ← ih]
      cases hop : code.op? i with
      | none =>
        have hkeeps : ¬ code.Replaces i := by simp [Replaces, Initializes, Calls, Loads, hop]
        simp [hkeeps, mt Makes.replaces hkeeps]
      | some op =>
        have hstep := operand_step (c := c) hop (pending_trackerAt code i)
        simpa using hstep

/-! ### Throws -/

theorem mem_throwsFrom_cons {starts : List Nat} {s : Tracker} {ins : Instruction}
    {rest : List Instruction} {pc : Nat} :
    (pc, c) ∈ Tracker.throwsFrom starts s (ins :: rest) ↔
      (ins = ⟨pc, .athrow⟩ ∧ (s.enter starts ins.pc).operand = some c) ∨
        (pc, c) ∈ Tracker.throwsFrom starts ((s.enter starts ins.pc).step ins.op) rest := by
  obtain ⟨p, op⟩ := ins
  rw [Tracker.throwsFrom]
  cases hoperand : (s.enter starts p).operand with
  | none => cases op <;> simp
  | some thrown => cases op <;> simp [eq_comm]

/-- The scan goes from what it knows before an instruction to what it knows before the next. -/
theorem enter_step_trackerAt {ins next : Instruction} (hins : code.instructions[i]? = some ins)
    (hnext : code.instructions[i + 1]? = some next) :
    ((code.trackerAt i).step ins.op).enter code.blockStarts next.pc = code.trackerAt (i + 1) := by
  have hop : code.op? i = some ins.op := by simp [op?, hins]
  have hstart : code.startsBlock (i + 1) = code.isTarget next.pc := by simp [startsBlock, hnext]
  rw [Tracker.enter, contains_blockStarts, ← hstart, trackerAt, hop]
  rfl

/-- From an instruction on, the scan goes through what it knows before each instruction. -/
theorem mem_throwsFrom_iff {s : Tracker} {rest : List Instruction} {pc : Nat}
    (hrest : code.instructions.drop i = rest)
    (hs : ∀ ins, code.instructions[i]? = some ins →
      s.enter code.blockStarts ins.pc = code.trackerAt i) :
    (pc, c) ∈ Tracker.throwsFrom code.blockStarts s rest ↔
      ∃ m, i ≤ m ∧ code.instructions[m]? = some ⟨pc, .athrow⟩ ∧
        (code.trackerAt m).operand = some c := by
  induction rest generalizing i s with
  | nil =>
    have hlength : code.instructions.length ≤ i := List.drop_eq_nil_iff.1 hrest
    simp only [Tracker.throwsFrom, List.not_mem_nil, false_iff]
    rintro ⟨m, hm, hins, -⟩
    rw [List.getElem?_eq_none (by omega)] at hins
    cases hins
  | cons ins rest ih =>
    have hins : code.instructions[i]? = some ins := by
      rw [← List.head?_drop, hrest, List.head?_cons]
    have hnext : code.instructions.drop (i + 1) = rest := by
      rw [← List.tail_drop, hrest, List.tail_cons]
    rw [mem_throwsFrom_cons, hs ins hins, ih hnext fun next hnext => ?_]
    · constructor
      · rintro (⟨rfl, hoperand⟩ | ⟨m, hm, hthrow⟩)
        · exact ⟨i, Nat.le_refl i, hins, hoperand⟩
        · exact ⟨m, by omega, hthrow⟩
      · rintro ⟨m, hm, hthrow, hoperand⟩
        -- The instruction itself, or one of those that follow.
        by_cases heq : m = i
        · subst heq
          exact .inl ⟨Option.some.inj (hins.symm.trans hthrow), hoperand⟩
        · exact .inr ⟨m, by omega, hthrow, hoperand⟩
    · exact enter_step_trackerAt hins hnext

/-- **Throws.** What is thrown at a position is known to be of a class if and only if there is an
`athrow` at the position, and before it either the constructor call for the innermost waiting
allocation, which is of this class, or a call that returns it while no allocation waits; control
goes straight from there to the throw, from the allocation in the first case, and nothing between
the call and the throw brings another reference. -/
theorem mem_thrown_iff (code : Code) (pc : Nat) (c : String) :
    (pc, c) ∈ code.thrown ↔ ∃ i j, code.instructions[i]? = some ⟨pc, .athrow⟩ ∧ j < i ∧
      ((∃ k < j, code.op? k = some (.new c) ∧ code.Initializes j k c ∧ code.Straight k i) ∨
        ∃ target, code.Calls j target ∧ Returns target.descriptor c ∧ code.Straight j i) ∧
      ∀ m, j < m → m < i → ¬ code.Replaces m := by
  rw [thrown, mem_throwsFrom_iff (i := 0) List.drop_zero fun ins _ => by
    simp [Tracker.enter, trackerAt]]
  constructor
  · rintro ⟨i, -, hthrow, hoperand⟩
    obtain ⟨j, hmakes, hj, hstraight, hkept⟩ := operand_trackerAt_iff.1 hoperand
    refine ⟨i, j, hthrow, hj, ?_, hkept⟩
    rcases hmakes with ⟨k, hinit⟩ | ⟨target, hcalls, hreturns⟩
    · -- The run begins at the allocation, with the constructor in it.
      obtain ⟨hlt, hnew, hbefore⟩ := hinit.alloc
      exact .inl ⟨k, hlt, hnew, hinit, hbefore.trans hinit.endsRun hstraight⟩
    · exact .inr ⟨target, hcalls, hreturns, hstraight⟩
  · rintro ⟨i, j, hthrow, hj, hmade, hkept⟩
    refine ⟨i, Nat.zero_le i, hthrow, operand_trackerAt_iff.2 ?_⟩
    rcases hmade with ⟨k, hlt, -, hinit, hstraight⟩ | ⟨target, hcalls, hreturns, hstraight⟩
    · -- Of the run only the part behind the constructor is needed.
      exact ⟨j, .inl ⟨k, hinit⟩, hj, hstraight.from_ge (by omega), hkept⟩
    · exact ⟨j, .inr ⟨target, hcalls, hreturns⟩, hj, hstraight, hkept⟩

/-- `throw new p.Wrapper(new p.Cause())` -/
example : thrown ⟨4, 1, [⟨0, .new "p/Wrapper"⟩, ⟨3, .other 0x59⟩, ⟨4, .new "p/Cause"⟩,
    ⟨7, .other 0x59⟩, ⟨8, .invoke .special ⟨"p/Cause", "<init>", "()V", false⟩⟩,
    ⟨11, .invoke .special ⟨"p/Wrapper", "<init>", "(Ljava/lang/Throwable;)V", false⟩⟩,
    ⟨14, .athrow⟩], []⟩ = [(14, "p/Wrapper")] := by decide +kernel

end Code

end JvmThrows
