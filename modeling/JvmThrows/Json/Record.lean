import JvmThrows.Json.Basic

/-!
# Records in JSON

A record is an object, or an array with its fields in order, the last ones left out if they have
defaults. Unknown fields are passed over; a known field that is repeated is an error.
-/

namespace JvmThrows.Json

/-- The only value of a name: nothing if it is absent, an error if it is repeated. -/
def field? (fields : List (String × Json)) (name : String) : Option (Option Json) :=
  match fields.filter fun f => f.1 == name with
  | [] => some none
  | [(_, value)] => some (some value)
  | _ => none

/-- The values of the named fields in order, each perhaps absent. -/
def record? (names : List String) : Json → Option (List (Option Json))
  | .object fields => names.mapM (field? fields)
  | .array items =>
    if items.length ≤ names.length then
      some (items.map some ++ List.replicate (names.length - items.length) none)
    else none
  | _ => none

def text? : Json → Option String
  | .string text => some text
  | _ => none

def flag? : Json → Option Bool
  | .bool value => some value
  | _ => none

/-- A whole number below a bound. -/
def natBelow? (bound : Nat) : Json → Option Nat
  | .number n => n.natural?.filter (· < bound)
  | _ => none

def list? {α : Type} (item? : Json → Option α) : Json → Option (List α)
  | .array items => items.mapM item?
  | _ => none

/-- A field that must be there. -/
def required? {α : Type} (read? : Json → Option α) (value : Option Json) : Option α :=
  value.bind read?

/-- A field that may be absent, with a default. -/
def default? {α : Type} (fallback : α) (read? : Json → Option α) : Option Json → Option α
  | none => some fallback
  | some value => read? value

/-- A field that may be absent or null. -/
def optional? {α : Type} (read? : Json → Option α) : Option Json → Option (Option α)
  | none | some .null => some none
  | some value => (read? value).map some

end JvmThrows.Json
