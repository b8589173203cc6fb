import JvmThrows.CommandLine.Command

/-!
# The grammar of the command line

A command line passes through scopes: the program itself, a command, an action of a command. Each
scope knows options with a value, flags, positional parameters, and the names of the scopes below.
-/

namespace JvmThrows.CommandLine

/-- What a value has to be. -/
inductive ValueKind where
  | text
  /-- Not empty. -/
  | path
  /-- A number below 2^64, perhaps after a plus sign. -/
  | number
  deriving DecidableEq, Repr

/-- The numbers that fit are below this. -/
def numberBound : Nat := 18446744073709551616

def number? (text : String) : Option Nat :=
  let digits := match text.toList with
    | '+' :: rest => rest
    | chars => chars
  if digits.isEmpty || !digits.all Char.isDigit then none
  else
    let n := digits.foldl (fun n c => n * 10 + (c.toNat - '0'.toNat)) 0
    if n < numberBound then some n else none

def ValueKind.accepts (kind : ValueKind) (value : String) : Bool :=
  match kind with
  | text => true
  | path => !value.isEmpty
  | number => (number? value).isSome

structure Parameter where
  name : String
  kind : ValueKind := .text
  repeatable : Bool := false
  deriving DecidableEq, Repr

structure Grammar where
  options : List Parameter := []
  flags : List String := []
  positionals : List Parameter := []
  deriving DecidableEq, Repr

inductive Scope where
  | program | analyze | method | scan | cache
  | cacheAction (action : CacheAction)
  deriving DecidableEq, Repr

namespace Scope

/-- The scope that a name leads to. -/
def enter? : Scope → String → Option Scope
  | program, "analyze" => some analyze
  | program, "method" => some method
  | program, "scan" => some scan
  | program, "cache" => some cache
  | cache, "path" => some (cacheAction .locate)
  | cache, "show" => some (cacheAction .list)
  | cache, "clean" => some (cacheAction .remove)
  | _, _ => none

/-- Whether there are scopes below. -/
def hasCommands : Scope → Bool
  | program | cache => true
  | _ => false

def classpathOption : Parameter := ⟨"classpath", .path, true⟩

/-- What a scope knows besides the options of all scopes. -/
def ownGrammar : Scope → Grammar
  | program => {}
  | analyze =>
    { options := [⟨"calls", .path, false⟩, ⟨"start", .number, false⟩, ⟨"end", .number, false⟩,
        classpathOption]
      flags := ["json"] }
  | method =>
    { options := [⟨"jar", .path, false⟩, classpathOption]
      flags := ["json"]
      positionals := [⟨"METHOD", .text, false⟩] }
  | scan => { flags := ["json"], positionals := [⟨"CONTAINER", .path, false⟩] }
  | cache => { flags := ["json"] }
  | cacheAction _ => { flags := ["json"], positionals := [⟨"CLASS", .text, false⟩] }

/-- The options that may be given in any scope. -/
def sharedOptions : List Parameter := [⟨"config", .path, false⟩, ⟨"cache-dir", .path, false⟩]

def grammar (scope : Scope) : Grammar :=
  { scope.ownGrammar with options := scope.ownGrammar.options ++ sharedOptions }

end Scope

end JvmThrows.CommandLine
