import JvmThrows.CommandLine.Grammar
import JvmThrows.Text.Cut

/-!
# Reading the command line

Reads arguments from the left, scope by scope. The first fault ends the reading, and so do requests
for help or for the version; what comes after them does not count.
-/

namespace JvmThrows.CommandLine

open Text

inductive Misuse where
  | unknownArgument (argument : String)
  | unknownCommand (name : String)
  | missingCommand
  | missingArgument (name : String)
  | missingValue (name : String)
  | unexpectedValue (name : String)
  | invalidValue (name value : String)
  | repeated (name : String)
  deriving DecidableEq, Repr

def Misuse.message : Misuse → String
  | unknownArgument argument => "unexpected argument '" ++ argument ++ "'"
  | unknownCommand name => "unrecognized subcommand '" ++ name ++ "'"
  | missingCommand => "a subcommand is required"
  | missingArgument name => "the argument '" ++ name ++ "' is required"
  | missingValue name => "a value is required for '--" ++ name ++ "'"
  | unexpectedValue name => "no value is allowed for '--" ++ name ++ "'"
  | invalidValue name value => "invalid value '" ++ value ++ "' for '" ++ name ++ "'"
  | repeated name => "the argument '--" ++ name ++ "' cannot be used multiple times"

/-- Why reading ends before there is a command to run. -/
inductive Stop where
  | help
  | version
  | misuse (fault : Misuse)
  deriving DecidableEq, Repr

/-- An argument by its form. -/
inductive Word where
  /-- Two dashes: only positional arguments follow. -/
  | ending
  | long (name : String) (value : Option String)
  | short (letters : List Char)
  | plain
  deriving DecidableEq, Repr

def Word.ofText (text : String) : Word :=
  match text.toList with
  | ['-', '-'] => .ending
  | '-' :: '-' :: rest =>
    match cutFirst '=' rest with
    | some (name, value) => .long (String.ofList name) (some (String.ofList value))
    | none => .long (String.ofList rest) none
  | '-' :: c :: rest => .short (c :: rest)
  | _ => .plain

/-- What was given in a scope. -/
structure Given where
  values : List (String × String) := []
  flags : List String := []
  positionals : List String := []
  deriving DecidableEq, Repr

namespace Given

def setValue (p : Parameter) (value : String) (given : Given) : Except Stop Given :=
  if !p.kind.accepts value then .error (.misuse (.invalidValue p.name value))
  else if !p.repeatable && (given.values.map (·.1)).contains p.name then
    .error (.misuse (.repeated p.name))
  else .ok { given with values := given.values ++ [(p.name, value)] }

def setFlag (name : String) (given : Given) : Except Stop Given :=
  if given.flags.contains name then .error (.misuse (.repeated name))
  else .ok { given with flags := name :: given.flags }

def addPositional (grammar : Grammar) (given : Given) (value : String) : Except Stop Given :=
  match grammar.positionals[given.positionals.length]? with
  | none => .error (.misuse (.unknownArgument value))
  | some p =>
    if !p.kind.accepts value then .error (.misuse (.invalidValue p.name value))
    else .ok { given with positionals := given.positionals ++ [value] }

end Given

/-- How far arguments have been read. -/
structure Reading where
  scope : Scope := .program
  here : Given := {}
  /-- What was given in the scopes above, the nearest first. -/
  above : List Given := []
  deriving DecidableEq, Repr

namespace Reading

def enter (scope : Scope) (r : Reading) : Reading := ⟨scope, {}, r.here :: r.above⟩

/-- What flags in all scopes ask for: help, and the version for the program itself. -/
def request? (scope : Scope) : Word → Option Stop
  | .long "help" none => some .help
  | .short ('h' :: _) => some .help
  | .long "version" none => if scope = .program then some .version else none
  | .short ('V' :: _) => if scope = .program then some .version else none
  | _ => none

/-- Help on the scope that names lead to, or on help itself, below which there is nothing. -/
def helpOn (scope : Scope) : List String → Stop
  | [] => .help
  | name :: rest =>
    match scope.enter? name with
    | some below => helpOn below rest
    | none =>
      if name = "help" && scope.hasCommands then
        match rest with
        | [] => .help
        | next :: _ => .misuse (.unknownCommand next)
      else .misuse (.unknownCommand name)

/-- An argument that is no option. -/
def plain (value : String) (r : Reading) : Except Stop Reading :=
  match r.scope.enter? value with
  | some below => .ok (r.enter below)
  | none =>
    if r.scope.hasCommands then .error (.misuse (.unknownCommand value))
    else (r.here.addPositional r.scope.grammar value).map fun here => { r with here }

def flag (name : String) (value : Option String) (r : Reading) : Except Stop Reading :=
  if value.isSome then .error (.misuse (.unexpectedValue name))
  else (r.here.setFlag name).map fun here => { r with here }

def option (p : Parameter) (value : String) (r : Reading) : Except Stop Reading :=
  (r.here.setValue p value).map fun here => { r with here }

/-- Reads arguments. The value of an option is attached to it or is the next argument. -/
def read : Reading → List String → Except Stop Reading
  | r, [] => .ok r
  | r, argument :: rest =>
    let grammar := r.scope.grammar
    let word := Word.ofText argument
    match request? r.scope word with
    | some stop => .error stop
    | none =>
      match word with
      | .ending =>
        (rest.foldlM (Given.addPositional grammar) r.here).map fun here => { r with here }
      | .short _ => .error (.misuse (.unknownArgument argument))
      | .plain =>
        if argument = "help" && r.scope.hasCommands then .error (helpOn r.scope rest)
        else do read (← r.plain argument) rest
      | .long name value =>
        if grammar.flags.contains name then do read (← r.flag name value) rest
        else
          match grammar.options.find? (·.name == name), value with
          | none, _ => .error (.misuse (.unknownArgument argument))
          | some p, some value => do read (← r.option p value) rest
          | some p, none =>
            match rest with
            | [] => .error (.misuse (.missingValue name))
            | value :: others =>
              if Word.ofText value = .plain then do read (← r.option p value) others
              else .error (.misuse (.missingValue name))

/-- The values of an option in the nearest scope that has any. -/
def values (r : Reading) (name : String) : List String :=
  (((r.here :: r.above).map fun given =>
    (given.values.filter (·.1 == name)).map (·.2)).find? (!·.isEmpty)).getD []

def path? (r : Reading) (name : String) : Option Path := (r.values name).head?.map Path.mk

def paths (r : Reading) (name : String) : List Path := (r.values name).map Path.mk

def numeral? (r : Reading) (name : String) : Option Nat := (r.values name).head?.bind number?

/-- Whether output is to be JSON. -/
def json (r : Reading) : Bool := (r.here :: r.above).any (·.flags.contains "json")

/-- The only positional argument. -/
def positional (r : Reading) (name : String) : Except Stop String :=
  match r.here.positionals with
  | value :: _ => .ok value
  | [] => .error (.misuse (.missingArgument name))

def command (r : Reading) : Except Stop Command :=
  match r.scope with
  | .program | .cache => .error (.misuse .missingCommand)
  | .analyze =>
    match r.path? "calls" with
    | none => .error (.misuse (.missingArgument "--calls"))
    | some calls =>
      .ok (.analyze calls ((r.numeral? "start").getD 0) (r.numeral? "end") (r.paths "classpath")
        r.json)
  | .method => do
    return .method (← r.positional "METHOD") (r.path? "jar") (r.paths "classpath") r.json
  | .scan => do return .scan ⟨← r.positional "CONTAINER"⟩ r.json
  | .cacheAction action => do return .cache action (← r.positional "CLASS") r.json

end Reading

/-- The invocation that arguments describe. -/
def parse (arguments : List String) : Except Stop Invocation := do
  let r ← ({} : Reading).read arguments
  return { config := r.path? "config", cacheRoot := r.path? "cache-dir", command := ← r.command }

end JvmThrows.CommandLine
