import JvmThrows.Toml.Scalar

/-!
# TOML documents

Reads a document line by line: headers open tables, other lines add fields to the open one.
-/

namespace JvmThrows.Toml

/-- The items of an array after its bracket, at most `n` of them. -/
def items? (item? : Reader Toml) : Nat → Reader (List Toml)
  | 0, _ => none
  | n + 1, s =>
    match skipLines false s with
    | ']' :: rest => some ([], rest)
    | s => do
      let (item, rest) ← item? s
      match skipLines false rest with
      | ',' :: rest =>
        let (items, rest) ← items? item? n rest
        return (item :: items, rest)
      | ']' :: rest => return ([item], rest)
      | _ => none

/-- A key and its value. -/
def pair? (item? : Reader Toml) : Reader (List String × Toml) := fun s => do
  let (key, rest) ← key? s
  let rest ← expect? '=' rest
  let (item, rest) ← item? (skipGaps rest)
  return ((key, item), rest)

/-- The pairs of a table on one line, at most `n` of them; there is at least one. -/
def pairs? (item? : Reader Toml) : Nat → Reader (List (List String × Toml))
  | 0, _ => none
  | n + 1, s => do
    let (pair, rest) ← pair? item? s
    match skipGaps rest with
    | ',' :: rest =>
      let (pairs, rest) ← pairs? item? n rest
      return (pair :: pairs, rest)
    | '\x7d' :: rest => return ([pair], rest)
    | _ => none

/-- Adds a field under a key of one part or more. -/
def insertKey (key : List String) (value : Toml) (fields : Fields) : Option Fields :=
  match key.getLast? with
  | some name => insertDotted name value key.dropLast fields
  | none => none

def ofPairs? (pairs : List (List String × Toml)) : Option Toml :=
  (pairs.foldlM (fun fields (key, value) => insertKey key value fields) []).map (.table .inline)

/-- The table after an opening brace. -/
def inlineTable? (item? : Reader Toml) : Reader Toml := fun s =>
  match skipGaps s with
  | '\x7d' :: rest => some (.table .inline [], rest)
  | _ => do
    let (pairs, rest) ← pairs? item? (s.length + 1) s
    return (← ofPairs? pairs, rest)

/-- A value with at most `depth` levels of arrays and tables. -/
def value? : Nat → Reader Toml
  | depth, '[' :: rest =>
    match depth with
    | 0 => none
    | depth + 1 => (items? (value? depth) (rest.length + 1) rest).map fun (items, rest) =>
      (.array items, rest)
  | depth, '\x7b' :: rest =>
    match depth with
    | 0 => none
    | depth + 1 => inlineTable? (value? depth) rest
  | _, s => scalar? s

/-- What has been read: all fields, and the way to the open table. -/
structure Draft where
  fields : Fields := []
  here : List String := []

namespace Draft

/-- Opens the table of a header. -/
def openHeader? (openIt : String → Fields → Option Fields) (key : List String) (d : Draft) :
    Option Draft := do
  let name ← key.getLast?
  let fields ← atHeader (openIt name) key.dropLast d.fields
  return ⟨fields, key⟩

/-- Adds a field to the open table. -/
def add? (key : List String) (value : Toml) (d : Draft) : Option Draft :=
  (atHeader (insertKey key value) d.here d.fields).map fun fields => { d with fields }

end Draft

/-- The key between the brackets of a header, and the rest of the document. -/
def header? (brackets : List Char) (s : List Char) : Option (List String × List Char) := do
  let (key, rest) ← key? s
  let rest ← brackets.foldlM (fun rest c => expect? c rest) rest
  return (key, ← endOfLine? rest)

/-- One line that is not empty. -/
def line? (d : Draft) (s : List Char) : Option (Draft × List Char) := do
  match s with
  | '[' :: '[' :: rest =>
    let (key, rest) ← header? [']', ']'] rest
    return (← d.openHeader? openNext key, rest)
  | '[' :: rest =>
    let (key, rest) ← header? [']'] rest
    return (← d.openHeader? openTable key, rest)
  | s =>
    let ((key, value), rest) ← pair? (value? (maxDepth - 1)) s
    return (← d.add? key value, ← endOfLine? rest)

/-- At most `n` lines. -/
def lines? : Nat → Draft → List Char → Option Fields
  | 0, _, _ => none
  | n + 1, d, s =>
    match skipGaps s with
    | [] => some d.fields
    | c :: rest =>
      if c = '#' || c = '\n' || c = '\r' then do lines? n d (← endOfLine? (c :: rest))
      else do
        let (d, rest) ← line? d (c :: rest)
        lines? n d rest

/-- The fields of a document; a byte order mark in front is left out. -/
def parse? (document : String) : Option Fields :=
  let s := match document.toList with
    | '\uFEFF' :: rest => rest
    | s => s
  lines? (s.length + 1) {} s

end JvmThrows.Toml
