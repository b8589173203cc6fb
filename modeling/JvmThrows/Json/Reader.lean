import JvmThrows.Json.Token

/-!
# Reading JSON

A machine with a stack of open arrays and objects takes one token after the other. `expect` is what
may come next. A text is accepted when one value is complete and nothing follows it.
-/

namespace JvmThrows.Json

/-- An array or object that is still open, its members in reverse. -/
inductive Frame where
  | array (items : List Json)
  /-- The fields so far, whether all keys so far are texts, and the key of the value being read. -/
  | object (fields : List (String × Json)) (clean : Bool) (key : String)

inductive Expect where
  /-- A value; after an opening bracket, perhaps its end. -/
  | value (orEnd : Bool)
  /-- A key; after an opening brace, perhaps its end. -/
  | key (orEnd : Bool)
  | colon
  /-- A comma or the end of the innermost frame. -/
  | more
  /-- The end of the text. -/
  | done (result : Json)

structure Machine where
  expect : Expect := .value false
  stack : List Frame := []

namespace Machine

/-- Puts a complete value where it belongs. -/
def place (value : Json) : List Frame → Machine
  | [] => ⟨.done value, []⟩
  | .array items :: stack => ⟨.more, .array (value :: items) :: stack⟩
  | .object fields clean key :: stack =>
    ⟨.more, .object ((key, value) :: fields) clean key :: stack⟩

def step (m : Machine) (token : Token) : Option Machine :=
  match m.expect, token, m.stack with
  | .value _, .null, stack => some (place .null stack)
  | .value _, .bool b, stack => some (place (.bool b) stack)
  | .value _, .number n, stack => some (place (.number n) stack)
  | .value _, .string (some text), stack => some (place (.string text) stack)
  | .value _, .string none, stack => some (place .garbled stack)
  | .value _, .openArray, stack => some ⟨.value true, .array [] :: stack⟩
  | .value _, .openObject, stack => some ⟨.key true, .object [] true "" :: stack⟩
  | .value true, .closeArray, .array items :: stack => some (place (.array items.reverse) stack)
  | .key _, .string text, .object fields clean _ :: stack =>
    some ⟨.colon, .object fields (clean && text.isSome) (text.getD "") :: stack⟩
  | .key true, .closeObject, .object fields _ _ :: stack =>
    some (place (.object fields.reverse) stack)
  | .colon, .colon, stack => some ⟨.value false, stack⟩
  | .more, .comma, .array items :: stack => some ⟨.value false, .array items :: stack⟩
  | .more, .comma, .object fields clean key :: stack =>
    some ⟨.key false, .object fields clean key :: stack⟩
  | .more, .closeArray, .array items :: stack => some (place (.array items.reverse) stack)
  | .more, .closeObject, .object fields clean _ :: stack =>
    some (place (if clean then .object fields.reverse else .garbled) stack)
  | _, _, _ => none

def result? (m : Machine) : Option Json :=
  match m.expect with
  | .done value => some value
  | _ => none

end Machine

/-- The value of a list of tokens. -/
def ofTokens? (tokens : List Token) : Option Json :=
  (tokens.foldlM Machine.step {}).bind Machine.result?

/-- Reads a text given as bytes. -/
def parseBytes? (bytes : List UInt8) : Option Json := (tokens? bytes).bind ofTokens?

def parse? (text : String) : Option Json := parseBytes? text.toUTF8.data.toList

end JvmThrows.Json
