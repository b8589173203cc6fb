import JvmThrows.Json.Basic

/-!
# JSON tokens

The lexer runs over the bytes of a text once, with three states: between tokens, in a word (a number
or a literal name), in a string. Words end where they must, at a blank, a mark or a quote, so that
the grammar of words and the grammar of values can be checked apart.
-/

namespace JvmThrows.Json

inductive Token where
  | openArray | closeArray | openObject | closeObject | comma | colon
  | null
  | bool (value : Bool)
  | number (value : Number)
  /-- A string literal; no text if it denotes none. -/
  | string (text : Option String)
  deriving DecidableEq, Repr

/-! ### Numbers and names -/

/-- The value of a run of decimal digits that is not empty. -/
def digits? (s : List Char) : Option Nat :=
  if !s.isEmpty && s.all Char.isDigit then
    some (s.foldl (fun n c => n * 10 + (c.toNat - '0'.toNat)) 0)
  else none

/-- An exponent with its sign. -/
def exponent? : List Char → Option Int
  | '-' :: s => (digits? s).map fun n => -(n : Int)
  | '+' :: s => (digits? s).map Int.ofNat
  | s => (digits? s).map Int.ofNat

/-- Reads a number literal: no leading zeros, digits on both sides of a point. -/
def Number.parse? (s : List Char) : Option Number := do
  let (negative, s) := match s with
    | '-' :: s => (true, s)
    | s => (false, s)
  let (mantissa, exponent) ← match s.span fun c => c != 'e' && c != 'E' with
    | (mantissa, []) => some (mantissa, none)
    | (mantissa, _ :: e) => (exponent? e).map fun n => (mantissa, some n)
  let (whole, fraction) ← match mantissa.span (· != '.') with
    | (whole, []) => some (whole, none)
    | (whole, _ :: f) => (digits? f).map fun _ => (whole, some f)
  if whole.length > 1 && whole.head? == some '0' then none
  else do
    let n ← digits? whole
    some ⟨negative, n, fraction, exponent⟩

/-- Reads a word as a literal name or a number. -/
def Token.ofWord? (word : List Char) : Option Token :=
  match String.ofList word with
  | "null" => some .null
  | "true" => some (.bool true)
  | "false" => some (.bool false)
  | _ => (Number.parse? word).map .number

/-! ### Strings -/

def hexDigit? (b : UInt8) : Option Nat :=
  let n := b.toNat
  if 48 ≤ n && n ≤ 57 then some (n - 48)
  else if 97 ≤ n && n ≤ 102 then some (n - 87)
  else if 65 ≤ n && n ≤ 70 then some (n - 55)
  else none

/-- Four hexadecimal digits. -/
def hexUnit? (a b c d : UInt8) : Option Nat := do
  return ((← hexDigit? a) * 16 + (← hexDigit? b)) * 256 + ((← hexDigit? c) * 16 + (← hexDigit? d))

/-- The byte that a one-letter escape stands for. -/
def simpleEscape? (b : UInt8) : Option UInt8 :=
  match b with
  | 34 => some 34
  | 92 => some 92
  | 47 => some 47
  | 98 => some 8
  | 102 => some 12
  | 110 => some 10
  | 114 => some 13
  | 116 => some 9
  | _ => none

def isHighSurrogate (n : Nat) : Bool := 0xD800 ≤ n && n ≤ 0xDBFF

def isLowSurrogate (n : Nat) : Bool := 0xDC00 ≤ n && n ≤ 0xDFFF

/-- The code point of a surrogate pair. -/
def pairValue (high low : Nat) : Nat := 0x10000 + (high - 0xD800) * 0x400 + (low - 0xDC00)

/-- A part of a string body: a byte as it stands, or a code unit written as `\u` and four digits. -/
inductive Piece where
  | byte (b : UInt8)
  | unit (n : Nat)

/-- Resolves the escapes of a string body. `acc` holds the parts so far in reverse. An unknown
escape is an error. -/
def pieces? : List UInt8 → List Piece → Option (List Piece)
  | [], acc => some acc.reverse
  | 92 :: 117 :: a :: b :: c :: d :: rest, acc =>
    match hexUnit? a b c d with
    | none => none
    | some n => pieces? rest (.unit n :: acc)
  | 92 :: b :: rest, acc =>
    match simpleEscape? b with
    | none => none
    | some c => pieces? rest (.byte c :: acc)
  | [92], _ => none
  | b :: rest, acc => pieces? rest (.byte b :: acc)

/-- The bytes of a code point in reverse, in front of bytes in reverse. -/
def pushCodePoint (n : Nat) (acc : List UInt8) : List UInt8 :=
  (String.utf8EncodeChar (Char.ofNat n)).reverse ++ acc

/-- The bytes that the parts denote. `acc` holds the bytes so far in reverse. A surrogate without
its partner denotes nothing. -/
def utf8? : List Piece → List UInt8 → Option (List UInt8)
  | [], acc => some acc.reverse
  | .byte b :: rest, acc => utf8? rest (b :: acc)
  | .unit n :: rest, acc =>
    if isLowSurrogate n then none
    else if isHighSurrogate n then
      match rest with
      | .unit m :: rest =>
        if isLowSurrogate m then utf8? rest (pushCodePoint (pairValue n m) acc) else none
      | _ => none
    else utf8? rest (pushCodePoint n acc)

/-- Reads the body of a string literal. -/
def Token.ofString? (body : List UInt8) : Option Token :=
  (pieces? body []).map fun ps =>
    .string ((utf8? ps []).bind fun bytes => String.fromUTF8? ⟨bytes.toArray⟩)

/-! ### The lexer -/

inductive LexState where
  | between
  /-- A word, in reverse. -/
  | word (chars : List Char)
  /-- A string body, in reverse, and whether its last byte is an open escape. -/
  | string (bytes : List UInt8) (escaped : Bool)

/-- The tokens read so far, the last one first. -/
structure Lexer where
  state : LexState := .between
  tokens : List Token := []

def Token.mark? (b : UInt8) : Option Token :=
  match b with
  | 91 => some .openArray
  | 93 => some .closeArray
  | 123 => some .openObject
  | 125 => some .closeObject
  | 44 => some .comma
  | 58 => some .colon
  | _ => none

/-- Space, tab, line feed and carriage return. -/
def isJsonBlank (b : UInt8) : Bool := b == 32 || b == 9 || b == 10 || b == 13

namespace Lexer

/-- A byte between tokens. -/
def start (tokens : List Token) (b : UInt8) : Lexer :=
  if isJsonBlank b then ⟨.between, tokens⟩
  else if b == 34 then ⟨.string [] false, tokens⟩
  else
    match Token.mark? b with
    | some token => ⟨.between, token :: tokens⟩
    | none => ⟨.word [Char.ofNat b.toNat], tokens⟩

def endsWord (b : UInt8) : Bool := isJsonBlank b || b == 34 || (Token.mark? b).isSome

def step (l : Lexer) (b : UInt8) : Option Lexer :=
  match l.state with
  | .between => some (start l.tokens b)
  | .word chars =>
    if endsWord b then
      (Token.ofWord? chars.reverse).map fun token => start (token :: l.tokens) b
    else some { l with state := .word (Char.ofNat b.toNat :: chars) }
  | .string bytes true => some { l with state := .string (b :: bytes) false }
  | .string bytes false =>
    if b == 34 then
      (Token.ofString? bytes.reverse).map fun token => ⟨.between, token :: l.tokens⟩
    else if b < 32 then none
    else some { l with state := .string (b :: bytes) (b == 92) }

def finish (l : Lexer) : Option (List Token) :=
  match l.state with
  | .between => some l.tokens.reverse
  | .word chars => (Token.ofWord? chars.reverse).map fun token => (token :: l.tokens).reverse
  | .string _ _ => none

end Lexer

/-- The tokens of a text. -/
def tokens? (bytes : List UInt8) : Option (List Token) :=
  (bytes.foldlM Lexer.step {}).bind Lexer.finish

end JvmThrows.Json
