import JvmThrows.Decimal
import JvmThrows.Text.Quoted

/-!
# TOML values

Fields keep the order in which they were first written. A table remembers how it came to be, because
that decides whether later lines may add to it.
-/

namespace JvmThrows

/-- How a table came to be. -/
inductive Toml.TableKind where
  /-- Named by a header of its own. -/
  | header
  /-- Passed through by the header of a table inside it. -/
  | implied
  /-- Passed through by a dotted key. -/
  | dotted
  /-- Written as a value. -/
  | inline
  deriving DecidableEq, Repr

inductive Toml where
  | text (value : String)
  | integer (value : Int)
  | float (value : Decimal.Number)
  | bool (value : Bool)
  /-- A date, a time, or both. -/
  | moment
  | array (items : List Toml)
  | table (kind : Toml.TableKind) (fields : List (String × Toml))
  /-- The tables under one repeated header. -/
  | tables (items : List (List (String × Toml)))
  deriving Repr

namespace Toml

abbrev Fields := List (String × Toml)

/-- A value in the words of a message. -/
def describe : Toml → String
  | text value => "string " ++ String.ofList (Text.quoted value.toList)
  | integer value => "integer `" ++ (if value < 0 then "-" else "") ++ toString value.natAbs ++ "`"
  | float value => "floating point `" ++ String.ofList value.pointedChars ++ "`"
  | bool value => if value then "boolean `true`" else "boolean `false`"
  | array _ | tables _ => "sequence"
  | moment | table _ _ => "map"

/-- The value of a field. -/
def field? (fields : Fields) (name : String) : Option Toml := fields.lookup name

/-- Replaces the value of a field, or adds the field at the end. -/
def setField (name : String) (value : Toml) : Fields → Fields
  | [] => [(name, value)]
  | (n, v) :: rest => if n = name then (n, value) :: rest else (n, v) :: setField name value rest

/-- Changes the last table under a repeated header. -/
def onLast (change : Fields → Option Fields) : List Fields → Option (List Fields)
  | [] => none
  | [fields] => (change fields).map ([·])
  | fields :: rest => (onLast change rest).map (fields :: ·)

/-- Adds a field that must be new, in the table that a dotted key leads to. The tables on the way
are new or made by dotted keys; those made by headers may only be passed through. -/
def insertDotted (name : String) (value : Toml) : List String → Fields → Option Fields
  | [], fields => if (field? fields name).isSome then none else some (fields ++ [(name, value)])
  | key :: path, fields =>
    match field? fields key with
    | none =>
      (insertDotted name value path []).map fun inner => setField key (.table .dotted inner) fields
    | some (.table kind inner) =>
      if kind = .dotted || (kind = .implied && !path.isEmpty) then
        (insertDotted name value path inner).map fun inner =>
          setField key (.table kind inner) fields
      else none
    | some (.tables items) =>
      if path.isEmpty then none
      else
        (onLast (insertDotted name value path) items).map fun items =>
          setField key (.tables items) fields
    | some _ => none

/-- Changes the table that the header of a table inside it passes through. -/
def atHeader (change : Fields → Option Fields) : List String → Fields → Option Fields
  | [], fields => change fields
  | key :: path, fields =>
    match field? fields key with
    | none =>
      (atHeader change path []).map fun inner => setField key (.table .implied inner) fields
    | some (.table .inline _) => none
    | some (.table kind inner) =>
      (atHeader change path inner).map fun inner => setField key (.table kind inner) fields
    | some (.tables items) =>
      (onLast (atHeader change path) items).map fun items => setField key (.tables items) fields
    | some _ => none

/-- Opens the table of a header. Only a table that headers have passed through may be opened; it
moves behind the fields before it. -/
def openTable (name : String) (fields : Fields) : Option Fields :=
  match field? fields name with
  | none => some (fields ++ [(name, .table .header [])])
  | some (.table .implied inner) =>
    some (fields.filter (·.1 != name) ++ [(name, .table .header inner)])
  | some _ => none

/-- Opens one more table of a repeated header. -/
def openNext (name : String) (fields : Fields) : Option Fields :=
  match field? fields name with
  | none => some (fields ++ [(name, .tables [[]])])
  | some (.tables items) => some (setField name (.tables (items ++ [[]])) fields)
  | some _ => none

end Toml

end JvmThrows
