import JvmThrows.Path

/-!
# Commands

What the program can be asked to do.
-/

namespace JvmThrows

/-- What to do with the cached results of a class. -/
inductive CacheAction where
  /-- Tell where they are. -/
  | locate
  /-- List them. -/
  | list
  /-- Remove them. -/
  | remove
  deriving DecidableEq, Repr

inductive Command where
  /-- The exceptions of the calls of a manifest from `start` up to `stop`. -/
  | analyze (calls : Path) (start : Nat) (stop : Option Nat) (classpath : List Path) (json : Bool)
  /-- The exceptions of a method, perhaps with the container of its class. -/
  | method (text : String) (container : Option Path) (classpath : List Path) (json : Bool)
  /-- Scan a container into the cache. -/
  | scan (container : Path) (json : Bool)
  | cache (action : CacheAction) (className : String) (json : Bool)
  deriving DecidableEq, Repr

/-- A command with the settings that hold for all commands. -/
structure Invocation where
  config : Option Path := none
  cacheRoot : Option Path := none
  command : Command
  deriving DecidableEq, Repr

end JvmThrows
