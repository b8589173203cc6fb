import JvmThrows.Decimal

/-!
# JSON values

Objects keep their fields in the order written, repetitions included. Numbers are kept as written,
so that an integer can be told from `1.0` and `1e0`.
-/

namespace JvmThrows

/-- A number literal: sign, whole part, digits after the point, exponent. -/
structure Json.Number where
  negative : Bool
  whole : Nat
  fraction : Option (List Char)
  exponent : Option Int
  deriving DecidableEq, Repr

inductive Json where
  | null
  | bool (value : Bool)
  | number (value : Json.Number)
  | string (text : String)
  | array (items : List Json)
  | object (fields : List (String × Json))
  /-- A value that is well formed but holds, as a string or a key, a literal that denotes no Unicode
  text, such as half a surrogate pair. -/
  | garbled
  deriving Repr

namespace Json

def Number.ofNat (n : Nat) : Number := ⟨false, n, none, none⟩

/-- The value of a literal without sign, point and exponent. -/
def Number.natural? (n : Number) : Option Nat :=
  if n.negative || n.fraction.isSome || n.exponent.isSome then none else some n.whole

/-- A significand below `2 ^ 64`, with the power of ten that goes with it. -/
structure Number.Reading where
  significand : Nat := 0
  power : Int := 0
  /-- Whether no further digits fit. -/
  full : Bool := false

/-- Takes a digit if it fits; once one did not, none is taken. A digit before the point that is left
out counts as a power of ten, a digit behind the point that is taken as one less. -/
def Number.Reading.digit (behindPoint : Bool) (r : Number.Reading) (c : Char) : Number.Reading :=
  let significand := r.significand * 10 + (c.toNat - '0'.toNat)
  if r.full || Nat.pow 2 64 ≤ significand then
    { r with power := if behindPoint then r.power else r.power + 1, full := true }
  else { r with significand, power := if behindPoint then r.power - 1 else r.power }

/-- The significand of a literal and the power of ten that goes with it. The digits behind the point
are taken anew as long as they fit. -/
def Number.reading (n : Number) : Number.Reading :=
  let whole := (Nat.toDigits 10 n.whole).foldl (Number.Reading.digit false) {}
  let r := (n.fraction.getD []).foldl (Number.Reading.digit true) { whole with full := false }
  { r with power := r.power + n.exponent.getD 0 }

/-- The nearest number of 53 significant bits. -/
def roundToDouble (n : Nat) : Nat :=
  let unit := Nat.pow 2 (n.log2 - 52)
  Decimal.roundDiv n unit * unit

/-- The largest power of ten among the doubles. -/
def maxTenPower : Nat := 308

/-- Whether a literal is read as a finite double: significand and power of ten are rounded, then
their product is, which overflows from `2 ^ 1024 - 2 ^ 970` on. -/
def Number.isFinite (n : Number) : Bool :=
  let r := n.reading
  r.significand == 0 || r.power < 0 ||
    (r.power.toNat ≤ maxTenPower &&
      roundToDouble r.significand * roundToDouble (Nat.pow 10 r.power.toNat) <
        Nat.pow 2 1024 - Nat.pow 2 970)

def ofNat (n : Nat) : Json := .number (.ofNat n)

def ofOption {α : Type} (f : α → Json) : Option α → Json
  | none => .null
  | some a => f a

def strings (texts : List String) : Json := .array (texts.map .string)

/-- The last field of a name. -/
def get? (name : String) : Json → Option Json
  | .object fields => (fields.reverse.find? fun f => f.1 == name).map (·.2)
  | _ => none

mutual

/-- How many arrays and objects stand inside each other. -/
def depth : Json → Nat
  | .array items => itemsDepth items + 1
  | .object fields => fieldsDepth fields + 1
  | _ => 0

def itemsDepth : List Json → Nat
  | [] => 0
  | item :: rest => max item.depth (itemsDepth rest)

def fieldsDepth : List (String × Json) → Nat
  | [] => 0
  | (_, value) :: rest => max value.depth (fieldsDepth rest)

end

mutual

/-- Whether all texts are Unicode and all numbers finite, so that the value can be kept. -/
def isSound : Json → Bool
  | .garbled => false
  | .number n => n.isFinite
  | .array items => itemsSound items
  | .object fields => fieldsSound fields
  | _ => true

def itemsSound : List Json → Bool
  | [] => true
  | item :: rest => item.isSound && itemsSound rest

def fieldsSound : List (String × Json) → Bool
  | [] => true
  | (_, value) :: rest => value.isSound && fieldsSound rest

end

end Json

end JvmThrows
