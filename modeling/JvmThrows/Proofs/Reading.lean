import JvmThrows.ClassFile.Words
import Mathlib.Data.List.Forall2

/-!
# Readers that undo writers

`Reads p bytes a` says that the reader `p` takes exactly `bytes` off the front, whatever follows,
and gives `a`. It composes along the steps of a reader, so that a reader is proved against a writer
part by part.
-/

namespace JvmThrows

/-! ### Words -/

theorem word16_bytes (w : UInt16) :
    word16 (UInt8.ofNat (w.toNat / 0x100)) (UInt8.ofNat w.toNat) = w := by
  apply UInt16.toNat_inj.1
  have := w.toNat_lt
  rw [word16, UInt16.toNat_ofNat', UInt8.toNat_ofNat', UInt8.toNat_ofNat']
  omega

theorem word32_bytes (w : UInt32) :
    word32 (UInt8.ofNat (w.toNat / 0x1000000)) (UInt8.ofNat (w.toNat / 0x10000))
      (UInt8.ofNat (w.toNat / 0x100)) (UInt8.ofNat w.toNat) = w := by
  apply UInt32.toNat_inj.1
  have := w.toNat_lt
  simp only [word32, UInt32.toNat_ofNat', UInt8.toNat_ofNat']
  omega

theorem toNat_ofNat16 {n : Nat} (h : n ≤ 0xFFFF) : (UInt16.ofNat n).toNat = n := by
  rw [UInt16.toNat_ofNat']
  omega

theorem toNat_ofNat32 {n : Nat} (h : n ≤ 0xFFFFFFFF) : (UInt32.ofNat n).toNat = n := by
  rw [UInt32.toNat_ofNat']
  omega

@[simp] theorem length_bytes16 (w : UInt16) : (bytes16 w).length = 2 := rfl

@[simp] theorem length_bytes32 (w : UInt32) : (bytes32 w).length = 4 := rfl

namespace Parse

/-- The reader takes the bytes, whatever follows them, and gives the value. -/
def Reads {α : Type} (p : Parse α) (bytes : Bytes) (a : α) : Prop :=
  ∀ rest, p.run (bytes ++ rest) = .ok (a, rest)

section Rules

variable {α β : Type} {p : Parse α} {f : α → Parse β} {bytes bytes' : Bytes} {a : α} {b : β}

theorem Reads.pure (a : α) : Reads (pure a) [] a := fun _ => rfl

theorem Reads.bind (h : Reads p bytes a) (h' : Reads (f a) bytes' b) :
    Reads (p >>= f) (bytes ++ bytes') b := by
  intro rest
  rw [StateT.run_bind, List.append_assoc, h (bytes' ++ rest)]
  exact h' rest

/-- A check in between takes nothing. -/
theorem Reads.lift_bind {result : Except ClassFileError α} (h : result = .ok a)
    (h' : Reads (f a) bytes b) : Reads (lift result >>= f) bytes b := by
  subst h
  exact h'

theorem Reads.lift {result : Except ClassFileError α} (h : result = .ok a) :
    Reads (lift result) [] a := by
  subst h
  exact fun _ => rfl

/-- The bytes are all that there is. -/
def ReadsAll {α : Type} (p : Parse α) (bytes : Bytes) (a : α) : Prop := p.run bytes = .ok (a, [])

theorem Reads.readsAll (h : Reads p bytes a) : ReadsAll p bytes a := by
  rw [ReadsAll, ← List.append_nil bytes, h]

theorem Reads.bind_all (h : Reads p bytes a) (h' : ReadsAll (f a) bytes' b) :
    ReadsAll (p >>= f) (bytes ++ bytes') b := by
  rw [ReadsAll, StateT.run_bind, h bytes']
  exact h'

theorem ReadsAll.lift_bind {result : Except ClassFileError α} (h : result = .ok a)
    (h' : ReadsAll (f a) bytes b) : ReadsAll (Parse.lift result >>= f) bytes b := by
  subst h
  exact h'

theorem readsAll_finish (a : α) : ReadsAll (finish >>= fun _ => Pure.pure a) [] a := rfl

end Rules

theorem reads_u1 (b : UInt8) : Reads u1 [b] b := fun _ => rfl

theorem reads_u2 (w : UInt16) : Reads u2 (bytes16 w) w := by
  intro rest
  exact congrArg (fun w => Except.ok (w, rest)) (word16_bytes w)

theorem reads_u4 (w : UInt32) : Reads u4 (bytes32 w) w := by
  intro rest
  exact congrArg (fun w => Except.ok (w, rest)) (word32_bytes w)

theorem reads_take {n : Nat} {bytes : Bytes} (h : bytes.length = n) :
    Reads (take n) bytes bytes := by
  intro rest
  subst h
  show take bytes.length (bytes ++ rest) = _
  simp [take]

/-- Repeating a reader over parts that it reads one by one. -/
theorem reads_times {α : Type} {p : Parse α} {parts : List Bytes} {values : List α}
    (h : List.Forall₂ (Reads p) parts values) :
    Reads (times values.length p) parts.flatten values := by
  have hfrom (acc : List α) :
      Reads (timesFrom p values.length acc) parts.flatten (acc.reverse ++ values) := by
    induction h generalizing acc with
    | nil => simpa [timesFrom] using Reads.pure acc.reverse
    | @cons part a parts values hpart _ ih =>
      have hvalues := ih (a :: acc)
      rw [List.reverse_cons, List.append_assoc, List.singleton_append] at hvalues
      rw [List.flatten_cons, List.length_cons, timesFrom]
      exact hpart.bind hvalues
  exact hfrom []

end Parse

end JvmThrows
