import JvmThrows.Toml.Basic

/-!
# Scalars and keys in TOML

Readers for the parts of a document that hold no other values. A reader takes a text and gives what
it reads from the front together with the rest, or nothing.
-/

namespace JvmThrows.Toml

/-- Reads from the front of a text. -/
abbrev Reader (α : Type) := List Char → Option (α × List Char)

def isGap (c : Char) : Bool := c = ' ' || c = '\t'

def skipGaps (s : List Char) : List Char := s.dropWhile isGap

def newline? : List Char → Option (List Char)
  | '\n' :: rest => some rest
  | '\r' :: '\n' :: rest => some rest
  | _ => none

/-- Characters of comments and of literal text: no controls but the tab. -/
def isPlain (c : Char) : Bool := c = '\t' || (0x20 ≤ c.toNat && c.toNat != 0x7F)

/-- The rest after the end of a line, perhaps with a comment before it. -/
def endOfLine? (s : List Char) : Option (List Char) :=
  let s := match skipGaps s with
    | '#' :: rest => rest.dropWhile isPlain
    | s => s
  match s with
  | [] => some []
  | s => newline? s

/-- Leaves out gaps, line breaks and comments. -/
def skipLines (inComment : Bool) : List Char → List Char
  | [] => []
  | '\n' :: rest => skipLines false rest
  | '\r' :: '\n' :: rest => skipLines false rest
  | c :: rest =>
    if inComment then if isPlain c then skipLines true rest else c :: rest
    else if isGap c then skipLines false rest
    else if c = '#' then skipLines true rest
    else c :: rest

/-! ## Text -/

def hexValue? (c : Char) : Option Nat :=
  if c.isDigit then some (c.toNat - '0'.toNat)
  else if 'a' ≤ c && c ≤ 'f' then some (c.toNat - 'a'.toNat + 10)
  else if 'A' ≤ c && c ≤ 'F' then some (c.toNat - 'A'.toNat + 10)
  else none

/-- The character with a code of a number of hexadecimal digits. -/
def codePoint? (width : Nat) (s : List Char) : Option Char := do
  let digits ← (s.take width).mapM hexValue?
  if digits.length < width then none
  else
    let n := digits.foldl (fun n d => n * 16 + d) 0
    if n.isValidChar then some (Char.ofNat n) else none

/-- The character that an escape denotes, and how many characters stand for it after the
backslash. -/
def escape? : List Char → Option (Char × Nat)
  | 'b' :: _ => some ('\x08', 1)
  | 't' :: _ => some ('\t', 1)
  | 'n' :: _ => some ('\n', 1)
  | 'f' :: _ => some ('\x0c', 1)
  | 'r' :: _ => some ('\r', 1)
  | '"' :: _ => some ('"', 1)
  | '\\' :: _ => some ('\\', 1)
  | 'u' :: rest => (codePoint? 4 rest).map (·, 5)
  | 'U' :: rest => (codePoint? 8 rest).map (·, 9)
  | _ => none

/-- Puts a character in front of what was read. -/
def prepend (c : Char) (read : List Char × List Char) : List Char × List Char :=
  (c :: read.1, read.2)

/-- Text in double quotes, after the first one. -/
def basicBody (s : List Char) : Option (List Char × List Char) :=
  match s with
  | [] => none
  | c :: rest =>
    if c = '"' then some ([], rest)
    else if c = '\\' then
      match escape? rest with
      | some (e, n) => (basicBody (rest.drop n)).map (prepend e)
      | none => none
    else if isPlain c then (basicBody rest).map (prepend c)
    else none
termination_by s.length
decreasing_by all_goals (simp; try omega)

/-- Text in single quotes, after the first one. -/
def literalBody : List Char → Option (List Char × List Char)
  | [] => none
  | c :: rest =>
    if c = '\'' then some ([], rest)
    else if isPlain c then (literalBody rest).map (prepend c)
    else none

/-- The end of text in three quotes, after these three: up to two more quotes belong to the text. -/
def closing (quote : Char) : List Char → List Char × List Char
  | a :: b :: rest =>
    if a = quote then if b = quote then ([a, b], rest) else ([a], b :: rest)
    else ([], a :: b :: rest)
  | [a] => if a = quote then ([a], []) else ([], [a])
  | [] => ([], [])

/-- Leaves out gaps and line breaks. -/
def skipBreaks : List Char → List Char
  | '\n' :: rest => skipBreaks rest
  | '\r' :: '\n' :: rest => skipBreaks rest
  | c :: rest => if isGap c then skipBreaks rest else c :: rest
  | [] => []

theorem length_skipBreaks_le (s : List Char) : (skipBreaks s).length ≤ s.length := by
  fun_induction skipBreaks s <;> simp <;> omega

/-- The text after a backslash at the end of a line, up to the next character that is no gap. -/
def continuation? (s : List Char) : Option (List Char) := (newline? (skipGaps s)).map skipBreaks

theorem length_newline_le {s rest : List Char} (h : newline? s = some rest) :
    rest.length ≤ s.length := by
  unfold newline? at h
  split at h
  · cases h
    simp
  · cases h
    simp
    omega
  · cases h

theorem length_continuation_le {s rest : List Char} (h : continuation? s = some rest) :
    rest.length ≤ s.length := by
  unfold continuation? at h
  obtain ⟨r, hr, rfl⟩ := Option.map_eq_some_iff.1 h
  have h1 := length_newline_le hr
  have h2 := (List.dropWhile_sublist isGap (l := s)).length_le
  have h3 := length_skipBreaks_le r
  unfold skipGaps at h1
  omega

/-- Text in three double quotes, after these. -/
def longBasicBody (s : List Char) : Option (List Char × List Char) :=
  match s with
  | '"' :: '"' :: '"' :: rest => some (closing '"' rest)
  | '\r' :: '\n' :: rest => (longBasicBody rest).map (prepend '\n')
  | '\\' :: rest =>
    match h : continuation? rest with
    | some next =>
      have := length_continuation_le h
      longBasicBody next
    | none =>
      match escape? rest with
      | some (e, n) => (longBasicBody (rest.drop n)).map (prepend e)
      | none => none
  | c :: rest =>
    if isPlain c || c = '\n' then (longBasicBody rest).map (prepend c) else none
  | [] => none
termination_by s.length
decreasing_by all_goals (simp; try omega)

/-- Text in three single quotes, after these. -/
def longLiteralBody : List Char → Option (List Char × List Char)
  | '\'' :: '\'' :: '\'' :: rest => some (closing '\'' rest)
  | '\r' :: '\n' :: rest => (longLiteralBody rest).map (prepend '\n')
  | c :: rest =>
    if isPlain c || c = '\n' then (longLiteralBody rest).map (prepend c) else none
  | [] => none

/-- A line break at the beginning of long text does not count. -/
def skipFirstBreak (s : List Char) : List Char := (newline? s).getD s

/-- Text in quotes of any kind. -/
def text? : Reader String := fun s =>
  let body := match s with
    | '"' :: '"' :: '"' :: rest => longBasicBody (skipFirstBreak rest)
    | '\'' :: '\'' :: '\'' :: rest => longLiteralBody (skipFirstBreak rest)
    | '"' :: rest => basicBody rest
    | '\'' :: rest => literalBody rest
    | _ => none
  body.map fun (chars, rest) => (String.ofList chars, rest)

/-! ## Keys -/

def isBareKeyChar (c : Char) : Bool := c.isAlphanum || c = '_' || c = '-'

/-- One part of a key: bare, or in quotes on one line. -/
def keyPart? : Reader String := fun s =>
  match s with
  | '"' :: rest => (basicBody rest).map fun (chars, rest) => (String.ofList chars, rest)
  | '\'' :: rest => (literalBody rest).map fun (chars, rest) => (String.ofList chars, rest)
  | s =>
    let bare := s.takeWhile isBareKeyChar
    if bare.isEmpty then none else some (String.ofList bare, s.dropWhile isBareKeyChar)

/-- The parts of a key, at most `n` of them, with gaps around each. -/
def keyParts? : Nat → Reader (List String)
  | 0, _ => none
  | n + 1, s => do
    let (part, rest) ← keyPart? (skipGaps s)
    match skipGaps rest with
    | '.' :: rest =>
      let (parts, rest) ← keyParts? n rest
      return (part :: parts, rest)
    | rest => return ([part], rest)

/-- Keys have fewer parts than this, and values fewer levels. -/
def maxDepth : Nat := 80

/-- A key with all its parts. -/
def key? : Reader (List String) := keyParts? (maxDepth - 1)

/-! ## Numbers -/

/-- Digits of which single underscores may divide any two; all of them, without the underscores. -/
def moreDigits (isDigit : Char → Bool) : List Char → List Char × List Char
  | '_' :: c :: rest =>
    if isDigit c then prepend c (moreDigits isDigit rest) else ([], '_' :: c :: rest)
  | c :: rest => if isDigit c then prepend c (moreDigits isDigit rest) else ([], c :: rest)
  | [] => ([], [])

/-- One digit or more. -/
def digits? (isDigit : Char → Bool) : Reader (List Char)
  | c :: rest => if isDigit c then some (prepend c (moreDigits isDigit rest)) else none
  | [] => none

def value (base : Nat) (digits : List Char) : Nat :=
  digits.foldl (fun n c => n * base + (hexValue? c).getD 0) 0

/-- A sign, and whether it is a minus. -/
def sign : List Char → Bool × List Char
  | '-' :: rest => (true, rest)
  | '+' :: rest => (false, rest)
  | s => (false, s)

/-- Decimal digits, of which the first is no zero unless it is the only one. -/
def wholeDigits? : Reader (List Char)
  | '0' :: rest => some (['0'], rest)
  | s => digits? Char.isDigit s

def isOctal (c : Char) : Bool := '0' ≤ c && c ≤ '7'

def isBinary (c : Char) : Bool := c = '0' || c = '1'

/-- Integers have 64 bits. -/
def integer? (n : Int) : Option Toml :=
  if -Int.pow 2 63 ≤ n ∧ n < Int.pow 2 63 then some (.integer n) else none

def unsigned? (base : Nat) (isDigit : Char → Bool) : Reader Toml := fun s => do
  let (digits, rest) ← digits? isDigit s
  return (← integer? (value base digits), rest)

/-- An exponent with its mark. -/
def exponent? : Reader Int := fun s => do
  match s with
  | mark :: rest =>
    if mark = 'e' || mark = 'E' then
      let (negative, rest) := sign rest
      let (digits, rest) ← digits? Char.isDigit rest
      let n : Int := value 10 digits
      return (if negative then -n else n, rest)
    else none
  | [] => none

/-- A number that is too large is refused, unless it is negative. -/
def float? (negative : Bool) (digits : List Char) (power : Int) : Option Toml :=
  match Decimal.nearest? (value 10 digits) power with
  | some x => some (.float (.signed negative (.finite x)))
  | none => if negative then some (.float (.signed true .infinite)) else none

/-- What follows the whole part of a number: a fraction, an exponent, or neither. -/
def numberTail? (negative : Bool) (whole : List Char) : Reader Toml := fun s => do
  match s with
  | '.' :: rest =>
    let (fraction, rest) ← digits? Char.isDigit rest
    let (power, rest) := (exponent? rest).getD (0, rest)
    return (← float? negative (whole ++ fraction) (power - fraction.length), rest)
  | s =>
    match exponent? s with
    | some (power, rest) => return (← float? negative whole power, rest)
    | none =>
      let n : Int := value 10 whole
      return (← integer? (if negative then -n else n), s)

def decimal? : Reader Toml := fun s => do
  let (negative, rest) := sign s
  match rest with
  | 'i' :: 'n' :: 'f' :: rest => return (.float (.signed negative .infinite), rest)
  | 'n' :: 'a' :: 'n' :: rest => return (.float .nan, rest)
  | rest =>
    let (whole, rest) ← wholeDigits? rest
    numberTail? negative whole rest

def number? : Reader Toml
  | '0' :: 'x' :: rest => unsigned? 16 (fun c => (hexValue? c).isSome) rest
  | '0' :: 'o' :: rest => unsigned? 8 isOctal rest
  | '0' :: 'b' :: rest => unsigned? 2 isBinary rest
  | s => decimal? s

/-! ## Dates and times -/

/-- A number of exactly so many digits, within bounds. -/
def fixed? (width low high : Nat) (s : List Char) : Option (Nat × List Char) :=
  let digits := s.take width
  if digits.length = width && digits.all Char.isDigit then
    let n := value 10 digits
    if low ≤ n && n ≤ high then some (n, s.drop width) else none
  else none

def expect? (c : Char) : List Char → Option (List Char)
  | d :: rest => if c = d then some rest else none
  | [] => none

def isLeapYear (year : Nat) : Bool := year % 4 = 0 && (year % 100 != 0 || year % 400 = 0)

def daysIn (year month : Nat) : Nat :=
  if month = 2 then if isLeapYear year then 29 else 28
  else if month = 4 || month = 6 || month = 9 || month = 11 then 30
  else 31

/-- The rest after a date. -/
def date? (s : List Char) : Option (List Char) := do
  let (year, s) ← fixed? 4 0 9999 s
  let (month, s) ← fixed? 2 1 12 (← expect? '-' s)
  let (_, s) ← fixed? 2 1 (daysIn year month) (← expect? '-' s)
  return s

/-- The rest after a time of day. -/
def time? (s : List Char) : Option (List Char) := do
  let (_, s) ← fixed? 2 0 23 s
  let (_, s) ← fixed? 2 0 59 (← expect? ':' s)
  let (_, s) ← fixed? 2 0 60 (← expect? ':' s)
  match s with
  | '.' :: c :: rest => return if c.isDigit then rest.dropWhile Char.isDigit else s
  | s => return s

/-- The rest after the offset of a time, if there is one. -/
def offset? (s : List Char) : Option (List Char) := do
  match s with
  | c :: rest =>
    if c = 'Z' || c = 'z' then return rest
    else if c = '+' || c = '-' then
      let (_, s) ← fixed? 2 0 23 rest
      let (_, s) ← fixed? 2 0 59 (← expect? ':' s)
      return s
    else return s
  | [] => return []

/-- A date, a date with a time, or a time. -/
def moment? : Reader Toml := fun s =>
  match date? s with
  | some rest =>
    match rest with
    | c :: tail =>
      if c = 'T' || c = 't' || c = ' ' then
        match time? tail with
        | some rest => (offset? rest).map (.moment, ·)
        | none => some (.moment, rest)
      else some (.moment, rest)
    | [] => some (.moment, [])
  | none => (time? s).map (.moment, ·)

/-- A value that holds no other values. -/
def scalar? : Reader Toml := fun s =>
  match s with
  | 't' :: 'r' :: 'u' :: 'e' :: rest => some (.bool true, rest)
  | 'f' :: 'a' :: 'l' :: 's' :: 'e' :: rest => some (.bool false, rest)
  | s =>
    match text? s with
    | some (content, rest) => some (.text content, rest)
    | none => (moment? s).or (number? s)

end JvmThrows.Toml
