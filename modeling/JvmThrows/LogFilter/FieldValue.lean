import JvmThrows.Decimal
import JvmThrows.LogFilter.Pattern

/-!
# Values of fields

A value in a filter is read as the first of these that it can be: a truth value, an unsigned and a
signed integer of 64 bits, a number, a pattern. It is shown in the usual spelling of its kind.
-/

namespace JvmThrows

inductive FieldValue where
  | bool (value : Bool)
  | number (value : Decimal.Number)
  | unsigned (value : Nat)
  | signed (value : Int)
  | pattern (text : String)
  deriving DecidableEq, Repr

namespace FieldValue

/-- Digits, perhaps after a plus sign. -/
def natural? (s : List Char) : Option Nat :=
  let digits := match s with
    | '+' :: rest => rest
    | s => s
  if digits.isEmpty || !digits.all Char.isDigit then none else some (Decimal.digitsValue digits)

def unsigned? (s : List Char) : Option Nat := (natural? s).filter (· < Nat.pow 2 64)

def signed? (s : List Char) : Option Int :=
  let value : Option Int := match s with
    | '-' :: rest =>
      if rest.head? == some '+' then none else (natural? rest).map fun n => -(n : Int)
    | s => (natural? s).map Int.ofNat
  value.filter fun n => -Int.pow 2 63 ≤ n && n < Int.pow 2 63

def bool? (s : List Char) : Option Bool :=
  match String.ofList s with
  | "true" => some true
  | "false" => some false
  | _ => none

/-- Reads a value; nothing if it is not even a pattern. -/
def parse? (s : List Char) : Option FieldValue :=
  ((bool? s).map bool).or <|
  ((unsigned? s).map unsigned).or <|
  ((signed? s).map signed).or <|
  ((Decimal.Number.parse? s).map number).or <|
  if Pattern.isValid s then some (pattern (String.ofList s)) else none

def display : FieldValue → String
  | bool value => if value then "true" else "false"
  | number value => String.ofList value.chars
  | unsigned value => String.ofList (Nat.toDigits 10 value)
  | signed value =>
    (if value < 0 then "-" else "") ++ String.ofList (Nat.toDigits 10 value.natAbs)
  | pattern text => text

/-- The order of the kinds. -/
def rank : FieldValue → Nat
  | bool _ => 0
  | number _ => 1
  | unsigned _ => 2
  | signed _ => 3
  | pattern _ => 4

def order (a b : FieldValue) : Ordering :=
  match a, b with
  | bool x, bool y => compare x y
  | number x, number y => x.order y
  | unsigned x, unsigned y => compare x y
  | signed x, signed y => compare x y
  | pattern x, pattern y => compare x y
  | _, _ => compare a.rank b.rank

end FieldValue

end JvmThrows
