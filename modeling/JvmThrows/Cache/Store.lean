import JvmThrows.Cache.Document
import JvmThrows.Cache.Key

/-!
# Stores

A store keeps entries under the keys of classes. Any class may be named; it stands for its key. How
results are kept is up to the store: here are a store in memory and what every store can derive.
-/

namespace JvmThrows

/-- Computes with a state and may fail; the state is kept on failure. -/
abbrev Attempt (σ : Type) := ExceptT CacheError (StateM σ)

/-- Runs on a part of a larger state. -/
def onPart {σ τ α : Type} (part : τ → σ) (update : σ → τ → τ) (run : StateM σ α) : StateM τ α :=
  fun t =>
    let (a, s) := run (part t)
    (a, update s t)

/-- Keeps entries in a state. -/
structure Store (σ : Type) where
  /-- The entries of a class, if there are any that can be used. -/
  get : String → StateM σ (Option Entries)
  contains : String → StateM σ Bool
  /-- Replaces what is kept. -/
  put : String → Entries → Attempt σ Unit
  /-- Adds to what is kept. -/
  merge : String → Entries → Attempt σ Unit
  remove : String → Attempt σ Unit

namespace Store

/-- A store in which the other operations are derived from three. -/
def derived {σ : Type} (get : String → StateM σ (Option Entries))
    (put : String → Entries → Attempt σ Unit) (remove : String → Attempt σ Unit) : Store σ where
  get
  contains c := do return (← get c).isSome
  put
  merge c entries := do
    let old ← get c
    put c ((old.getD ∅).union entries)
  remove

/-- The same store as a part of a larger state. -/
def within {σ τ : Type} (store : Store σ) (part : τ → σ) (update : σ → τ → τ) : Store τ where
  get c := onPart part update (store.get c)
  contains c := onPart part update (store.contains c)
  put c entries := onPart part update (store.put c entries)
  merge c entries := onPart part update (store.merge c entries)
  remove c := onPart part update (store.remove c)

/-- The exceptions kept for a method. -/
def exceptionsOf {σ : Type} (store : Store σ) (m : MethodId) : StateM σ Exceptions := do
  match ← store.get m.owner with
  | some entries => return entries.exceptionsOf m
  | none => return ∅

end Store

/-- Entries by key. -/
abbrev Memory := Std.ExtTreeMap String Entries

namespace Memory

def get (c : String) : StateM Memory (Option Entries) := do
  return (← MonadState.get)[Cache.key c]?

def put (c : String) (entries : Entries) : Attempt Memory Unit :=
  modify fun memory => memory.insert (Cache.key c) entries

def remove (c : String) : Attempt Memory Unit :=
  modify fun memory => memory.erase (Cache.key c)

/-- Adds entries to those of a key. -/
def merge (c : String) (entries : Entries) : Attempt Memory Unit :=
  modify fun memory =>
    memory.insert (Cache.key c) (((memory[Cache.key c]?).getD ∅).union entries)

def store : Store Memory where
  get := get
  contains c := do return (← MonadState.get).contains (Cache.key c)
  put := put
  merge := merge
  remove := remove

/-- The store with the operations that every store can derive. -/
def plainStore : Store Memory := .derived get put remove

end Memory

end JvmThrows
