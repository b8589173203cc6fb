import JvmThrows.LogFilter.FieldValue
import JvmThrows.Text.Cut

/-!
# Directives

A directive gives a level to a target, or to spans and fields of a target. Directives are read
character by character; their parts are cut out of the text by byte positions.
-/

namespace JvmThrows

open Text

inductive LogLevel where
  | off | error | warn | info | debug | trace
  deriving DecidableEq, Repr

namespace LogLevel

def label : LogLevel → String
  | off => "off"
  | error => "error"
  | warn => "warn"
  | info => "info"
  | debug => "debug"
  | trace => "trace"

/-- From the least to the most verbose. -/
def all : List LogLevel := [off, error, warn, info, debug, trace]

/-- A level by number or name. -/
def ofText? (text : List Char) : Option LogLevel :=
  ((FieldValue.natural? text).bind (all[·]?)).or
    (all.find? fun l => sameIgnoringCase l.label (String.ofList text))

end LogLevel

/-- A field of spans, perhaps with a value. -/
structure FieldFilter where
  name : String
  value : Option FieldValue
  deriving DecidableEq, Repr

namespace FieldFilter

def valueOrder : Option FieldValue → Option FieldValue → Ordering
  | some a, some b => a.order b
  | a, b => compare a.isSome b.isSome

/-- Fields with a value are greater than those without. -/
instance : Ord FieldFilter where
  compare := compareLex (compareOn fun f => f.value.isSome) <|
    compareLex (compareOn name) fun a b => valueOrder a.value b.value

/-- Reads a field. What stands behind a second equality sign does not count. -/
def parse? (text : List Char) : Option FieldFilter :=
  match pieces '=' text with
  | name :: value :: _ => (FieldValue.parse? value).map fun v => ⟨String.ofList name, some v⟩
  | parts => some ⟨String.ofList (parts.headD []), none⟩

def display (f : FieldFilter) : String :=
  match f.value with
  | some value => f.name ++ "=" ++ value.display
  | none => f.name

end FieldFilter

structure Directive where
  target : Option String := none
  span : Option String := none
  fields : List FieldFilter := []
  level : LogLevel := .trace
  deriving DecidableEq, Repr

namespace Directive

/-- What the reader is inside of, with the position where that began. -/
inductive Part where
  | start
  | levelOrTarget (start : Nat)
  | span (start : Nat)
  | field (start : Nat)
  | fields
  | target
  | level (start : Nat)

/-- The characters of a text with their byte positions, the first of which is given. -/
def positions (first : Nat) : List Char → List (Char × Nat)
  | [] => []
  | c :: rest => (c, first) :: positions (first + c.utf8Size) rest

/-- The characters from one byte position up to another. -/
def cut (text : List Char) (start stop : Nat) : List Char :=
  ((positions 0 text).filter fun (_, i) => start ≤ i && i < stop).map (·.1)

/-- The characters from a byte position on. -/
def cutFrom (text : List Char) (start : Nat) : List Char :=
  ((positions 0 text).filter fun (_, i) => start ≤ i).map (·.1)

def addField? (d : Directive) (text : List Char) : Option Directive :=
  if text.isEmpty then none
  else (FieldFilter.parse? text).map fun f => { d with fields := d.fields ++ [f] }

def startsDirective (c : Char) : Bool := c = '-' || c = ':' || c = '_' || isLetterOrDigit c

/-- Reads one character at a position. Parts are cut out of the whole text. -/
def step (text : List Char) (state : Directive × Part) (c : Char) (i : Nat) :
    Option (Directive × Part) :=
  let (d, part) := state
  match part with
  | .start =>
    if c = '[' then some (d, .span (i + 1))
    else if startsDirective c then some (d, .levelOrTarget i)
    else none
  | .levelOrTarget start =>
    let target := some (String.ofList (cut text start i))
    if c = '=' then some ({ d with target }, .level (i + 1))
    else if c = '[' then some ({ d with target }, .span (i + 1))
    else some state
  | .target => if c = '=' then some (d, .level (i + 1)) else none
  | .span start =>
    let name := cut text start i
    if c = ']' then some ({ d with span := some (String.ofList name) }, .target)
    else if c = '\x7b' then
      let span := if name.isEmpty then none else some (String.ofList name)
      some ({ d with span }, .field (i + 1))
    else some state
  | .field start =>
    if c = '\x7d' then (addField? d (cut text start i)).map (·, .fields) else some state
  | .fields => if c = ']' then some (d, .target) else none
  | .level _ => some state

/-- A level; no text means all levels. -/
def level? (text : List Char) : Option LogLevel :=
  if text.isEmpty then some .trace else LogLevel.ofText? text

/-- Completes a directive at the end of the text. -/
def complete? (text : List Char) : Directive × Part → Option Directive
  | (d, .levelOrTarget start) =>
    let text := cutFrom text start
    match LogLevel.ofText? text with
    | some level => some { d with level }
    | none => some { d with target := some (String.ofList text) }
  | (d, .level start) => (level? (cutFrom text start)).map fun level => { d with level }
  | (d, .target) => some d
  | _ => none

/-- Reads a directive. Positions are counted without blanks in front. -/
def parse? (text : List Char) : Option Directive :=
  ((positions 0 (trim text)).foldlM (fun state (c, i) => step text state c i) ({}, .start)).bind
    (complete? text)

/-- The more specific one is greater: the longer target, spans, more fields; then in order of
text. -/
def order : Directive → Directive → Ordering :=
  compareLex (compareOn fun d => d.target.map String.utf8ByteSize) <|
  compareLex (compareOn fun d => d.span.isSome) <|
  compareLex (compareOn fun d => d.fields.length) <|
  compareLex (compareOn target) <|
  compareLex (compareOn span) (compareOn fields)

/-- Adds a directive to some in falling order, in place of one for the same thing. -/
def insert (d : Directive) : List Directive → List Directive
  | [] => [d]
  | e :: rest =>
    match order d e with
    | .gt => d :: e :: rest
    | .eq => d :: rest
    | .lt => e :: insert d rest

/-- Whether it depends on spans that are entered. -/
def isDynamic (d : Directive) : Bool := d.span.isSome || !d.fields.isEmpty

/-- Whether it can be decided for a log statement on its own. -/
def isStatic (d : Directive) : Bool := d.span.isNone && d.fields.all (·.value.isNone)

def display (d : Directive) : String :=
  let fields :=
    if d.fields.isEmpty then "" else "\x7b" ++ ",".intercalate (d.fields.map (·.display)) ++ "\x7d"
  let place := d.target.getD "" ++
    (if d.isDynamic then "[" ++ d.span.getD "" ++ fields ++ "]" else "")
  if d.target.isSome || d.isDynamic then place ++ "=" ++ d.level.label else d.level.label

end Directive

end JvmThrows
