/-!
# Decimal text of binary floating-point numbers

A finite double is `significand * 2 ^ exponent`. `nearest?` reads a decimal number as the nearest
double, and `shortest` finds the fewest decimal digits that read back. `Number` adds signs, infinity
and what is no number.
-/

namespace JvmThrows.Decimal

/-- A magnitude below `2 ^ 1024` with 53 significant bits. -/
structure Double where
  significand : Nat
  exponent : Int
  deriving DecidableEq, Repr

/-- The exponent of the smallest doubles and of the largest. -/
def minExponent : Int := -1074
def maxExponent : Int := 971

/-- A fraction, as numerator and denominator, times a power. -/
def scale (base : Nat) (power : Int) (num den : Nat) : Nat × Nat :=
  if 0 ≤ power then (num * Nat.pow base power.toNat, den)
  else (num, den * Nat.pow base (-power).toNat)

/-- The nearest whole number; a half goes to the even neighbour. -/
def roundDiv (num den : Nat) : Nat :=
  let q := num / den
  let r := num % den
  if 2 * r < den then q else if den < 2 * r then q + 1 else q + q % 2

/-- The double nearest to a fraction; nothing if it is too large. -/
def nearestFraction? (num den : Nat) : Option Double :=
  if num = 0 then some ⟨0, minExponent⟩
  else
    let guess : Int := (num.log2 : Int) - (den.log2 : Int) - 52
    let (n, d) := scale 2 (-guess) num den
    let exponent := max minExponent (if n < d * Nat.pow 2 52 then guess - 1 else guess)
    let (n, d) := scale 2 (-exponent) num den
    let m := roundDiv n d
    let (m, exponent) := if m = Nat.pow 2 53 then (Nat.pow 2 52, exponent + 1) else (m, exponent)
    if maxExponent < exponent then none else some ⟨m, exponent⟩

/-- The double nearest to `digits * 10 ^ power`. Powers that decide the answer alone are not
computed with. -/
def nearest? (digits : Nat) (power : Int) : Option Double :=
  let size : Int := (Nat.toDigits 10 digits).length + power
  if digits = 0 || size < -400 then some ⟨0, minExponent⟩
  else if 400 < size then none
  else
    let (num, den) := scale 10 power digits 1
    nearestFraction? num den

/-- Compares `a * 10 ^ p` with `b * 2 ^ q`. -/
def compareScaled (a : Nat) (p : Int) (b : Nat) (q : Int) : Ordering :=
  let (n, d) := scale 10 p a 1
  let (m, e) := scale 2 q b 1
  compare (n * e) (m * d)

/-- Whether `digits * 10 ^ power` reads back as the double. In quarters of its last place, the
double reaches two down and two up, but only one down at a power of two; the ends belong to even
doubles. -/
def readsBack (x : Double) (digits : Nat) (power : Int) : Bool :=
  let quarters := 4 * x.significand
  let down := if x.significand = Nat.pow 2 52 && minExponent < x.exponent then 1 else 2
  let low := compareScaled digits power (quarters - down) (x.exponent - 2)
  let high := compareScaled digits power (quarters + 2) (x.exponent - 2)
  if x.significand % 2 = 0 then low != .lt && high != .gt else low == .gt && high == .lt

/-- The number of decimal digits before the point; not positive for numbers below `1/10`. -/
def magnitude (x : Double) : Int :=
  let (n, d) := scale 2 x.exponent x.significand 1
  let guess : Int := (Nat.toDigits 10 n).length - (Nat.toDigits 10 d).length
  let (a, b) := scale 10 (-guess) n d
  if a < b then guess else guess + 1

/-- One of the two whole multiples of `10 ^ power` around the double that reads back, the nearer one
if both do, and the upper one if they are equally near. -/
def neighbour? (x : Double) (power : Int) : Option Nat :=
  let (n, d) := scale 2 x.exponent x.significand 1
  let (n, d) := scale 10 (-power) n d
  let below := n / d
  match readsBack x below power, readsBack x (below + 1) power with
  | true, true => some (if 2 * (n % d) < d then below else below + 1)
  | true, false => some below
  | false, true => some (below + 1)
  | false, false => none

/-- The fewest digits, and the power of ten of the last one. The last digit is zero only if one
digit was looked for and the next power of ten was found. -/
def shortest (x : Double) : Nat × Int :=
  if x.significand = 0 then (0, 0)
  else
    let powers := (List.range 17).map fun n : Nat => magnitude x - (n + 1 : Int)
    match powers.findSome? fun power => (neighbour? x power).map (·, power) with
    | some (digits, power) =>
      if digits % 10 = 0 then (digits / 10, power + 1) else (digits, power)
    | none => (0, 0)

/-- Digits without an exponent; a point stands only between digits. -/
def positional (digits : Nat) (power : Int) : List Char :=
  let text := Nat.toDigits 10 digits
  if 0 ≤ power then text ++ List.replicate power.toNat '0'
  else
    let fraction := (-power).toNat
    let padded := List.replicate (fraction + 1 - text.length) '0' ++ text
    padded.take (padded.length - fraction) ++ ['.'] ++ padded.drop (padded.length - fraction)

namespace Double

/-- The shortest text that reads back, without an exponent. -/
def chars (x : Double) : List Char :=
  let (digits, power) := shortest x
  positional digits power

/-- In order of size. -/
def order (x y : Double) : Ordering :=
  (compare x.exponent y.exponent).then (compare x.significand y.significand)

end Double

inductive Magnitude where
  | finite (value : Double)
  | infinite
  deriving DecidableEq, Repr

def Magnitude.chars : Magnitude → List Char
  | finite x => x.chars
  | infinite => "inf".toList

/-- In order of size. -/
def Magnitude.order : Magnitude → Magnitude → Ordering
  | finite x, finite y => x.order y
  | finite _, infinite => .lt
  | infinite, finite _ => .gt
  | infinite, infinite => .eq

inductive Number where
  | signed (negative : Bool) (magnitude : Magnitude)
  | nan
  deriving DecidableEq, Repr

namespace Number

def chars : Number → List Char
  | nan => "NaN".toList
  | signed negative magnitude => (if negative then ['-'] else []) ++ magnitude.chars

/-- As `chars`, but a finite number always has a point. -/
def pointedChars (x : Number) : List Char :=
  match x with
  | signed _ (.finite _) => if x.chars.contains '.' then x.chars else x.chars ++ ['.', '0']
  | _ => x.chars

def isZero : Number → Bool
  | signed _ (.finite x) => x.significand = 0
  | _ => false

/-- In order of value, where both zeros are equal; what is no number comes last. -/
def order (x y : Number) : Ordering :=
  if x.isZero && y.isZero then .eq
  else
    match x, y with
    | signed false a, signed false b => a.order b
    | signed true a, signed true b => b.order a
    | signed true _, signed false _ => .lt
    | signed false _, signed true _ => .gt
    | signed _ _, nan => .lt
    | nan, signed _ _ => .gt
    | nan, nan => .eq

end Number

def digitsValue (digits : List Char) : Nat :=
  digits.foldl (fun n c => n * 10 + (c.toNat - '0'.toNat)) 0

/-- A sign, and whether it is a minus. -/
def sign : List Char → Bool × List Char
  | '-' :: rest => (true, rest)
  | '+' :: rest => (false, rest)
  | s => (false, s)

/-- An exponent with its mark, or nothing at all. -/
def exponent? : List Char → Option Int
  | [] => some 0
  | mark :: rest =>
    let (negative, digits) := sign rest
    if (mark = 'e' || mark = 'E') && !digits.isEmpty && digits.all Char.isDigit then
      some (if negative then -(digitsValue digits : Int) else digitsValue digits)
    else none

/-- A number without a sign: digits with a point before, among or behind them, and an exponent. -/
def magnitude? (s : List Char) : Option Magnitude :=
  let (whole, rest) := s.span Char.isDigit
  let (fraction, rest) := match rest with
    | '.' :: rest => rest.span Char.isDigit
    | rest => ([], rest)
  if whole.isEmpty && fraction.isEmpty then none
  else
    (exponent? rest).map fun power =>
      match nearest? (digitsValue (whole ++ fraction)) (power - fraction.length) with
      | some x => .finite x
      | none => .infinite

/-- Reads a number. Infinity and what is no number may be written in letters of either case. -/
def Number.parse? (s : List Char) : Option Number :=
  let (negative, rest) := sign s
  let word := String.ofList (rest.map Char.toLower)
  if word == "nan" then some .nan
  else if word == "inf" || word == "infinity" then some (.signed negative .infinite)
  else (magnitude? rest).map (.signed negative)

end JvmThrows.Decimal
