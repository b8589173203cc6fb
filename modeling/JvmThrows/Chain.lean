/-!
# Descending chains

`chain size next a` follows `next` from `a` until it ends. Each step makes the size smaller, so the
chain is finite.
-/

namespace JvmThrows

variable {α : Type}

/-- The values passed from `a` on, `a` first. -/
def chain (size : α → Nat) (next : (a : α) → Option { b : α // size b < size a }) (a : α) :
    List α :=
  a :: match next a with
    | none => []
    | some ⟨b, _⟩ => chain size next b
termination_by size a

section Steps

variable {size : α → Nat} {next : (a : α) → Option { b : α // size b < size a }} {a b : α}

theorem chain_of_none (h : next a = none) : chain size next a = [a] := by
  rw [chain, h]

theorem chain_of_next (h : (next a).map Subtype.val = some b) :
    chain size next a = a :: chain size next b := by
  obtain ⟨⟨b, hlt⟩, hnext, rfl⟩ := Option.map_eq_some_iff.1 h
  rw [chain, hnext]

/-- A chain ends where it ends from the second value on. -/
theorem getLastD_chain_of_next (h : (next a).map Subtype.val = some b) :
    (chain size next a).getLastD a = (chain size next b).getLastD b := by
  rw [chain_of_next h, chain.eq_def size next b, List.getLastD_cons, List.getLastD_cons,
    List.getLastD_cons]

end Steps

end JvmThrows
