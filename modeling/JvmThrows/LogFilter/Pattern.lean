import JvmThrows.Text.Blank
import JvmThrows.Text.Letter

/-!
# Patterns

The texts that are patterns: regular expressions for an automaton that reads UTF-8 and has no tables
of Unicode properties. So classes such as `\d`, word boundaries and letters of either case are only
there for ASCII, after `(?-u)`, and nothing may match a part of a character.

A pattern stands in a text that ends at the first closing brace. It can thus hold no repetition
counts and no names in braces.

Reading goes from left to right with a stack of open groups. Of what is read only the nesting is
kept, which is limited.
-/

namespace JvmThrows.Pattern

open Text

/-- What holds for the characters that follow, as far as it decides what may be written. -/
structure Flags where
  unicode : Bool := true
  eitherCase : Bool := false
  /-- Blanks and comments stand for nothing. -/
  spaced : Bool := false
  deriving DecidableEq, Repr

/-- Leaves out blanks and comments. -/
def skipBlanks (inComment : Bool) : List Char → List Char
  | [] => []
  | c :: rest =>
    if inComment then skipBlanks (c != '\n') rest
    else if isBlank c then skipBlanks false rest
    else if c = '#' then skipBlanks true rest
    else c :: rest

def Flags.skip (f : Flags) (s : List Char) : List Char := if f.spaced then skipBlanks false s else s

/-- The ASCII characters end here. -/
def isAscii (c : Char) : Bool := c.toNat < 0x80

/-! ## Single characters and escapes -/

/-- What stands for one position. -/
inductive Atom where
  /-- A character, perhaps written as a byte in two hexadecimal digits. -/
  | char (c : Char) (byte : Bool)
  /-- One of the classes of digits, blanks or word characters. -/
  | letterClass (negated : Bool)
  /-- A condition on the position; `word` if it depends on word characters. -/
  | assertion (word : Bool)
  | dot
  deriving DecidableEq, Repr

/-- Whether an atom may stand outside of brackets. -/
def Flags.allows (f : Flags) : Atom → Bool
  | .char c byte =>
    if f.unicode then !f.eitherCase else isAscii c || (!byte && !f.eitherCase)
  | .letterClass negated => !f.unicode && !negated
  | .assertion word => !f.unicode || !word
  | .dot => f.unicode

/-- Whether an atom may stand in brackets. -/
def Flags.allowsMember (f : Flags) : Atom → Bool
  | .char c _ => f.unicode || isAscii c
  | .letterClass negated => !f.unicode && !negated
  | _ => false

def hexValue? (c : Char) : Option Nat :=
  if c.isDigit then some (c.toNat - '0'.toNat)
  else if 'a' ≤ c && c ≤ 'f' then some (c.toNat - 'a'.toNat + 10)
  else if 'A' ≤ c && c ≤ 'F' then some (c.toNat - 'A'.toNat + 10)
  else none

/-- A number of so many hexadecimal digits, after the digits read so far. -/
def hexDigits? (f : Flags) : Nat → Nat → List Char → Option (Nat × List Char)
  | 0, value, s => some (value, s)
  | n + 1, value, s =>
    match f.skip s with
    | [] => none
    | c :: rest => (hexValue? c).bind fun digit => hexDigits? f n (value * 16 + digit) rest

/-- The character with a code of so many hexadecimal digits. -/
def codePoint? (f : Flags) (width : Nat) (s : List Char) : Option (Atom × List Char) :=
  (hexDigits? f width 0 s).bind fun (n, rest) =>
    if n.isValidChar then some (.char (Char.ofNat n) (width = 2), rest) else none

/-- What a letter stands for after a backslash. -/
def letterEscape? (c : Char) : Option Atom :=
  match c with
  | 'a' => some (.char '\x07' false)
  | 't' => some (.char '\t' false)
  | 'n' => some (.char '\n' false)
  | 'v' => some (.char '\x0b' false)
  | 'f' => some (.char '\x0c' false)
  | 'r' => some (.char '\r' false)
  | 'd' | 's' | 'w' => some (.letterClass false)
  | 'D' | 'S' | 'W' => some (.letterClass true)
  | 'A' | 'z' => some (.assertion false)
  | 'b' | 'B' => some (.assertion true)
  | _ => none

/-- Reads an escape after its backslash. ASCII characters other than letters and digits stand for
themselves. -/
def escape? (f : Flags) : List Char → Option (Atom × List Char)
  | 'x' :: rest => codePoint? f 2 rest
  | 'u' :: rest => codePoint? f 4 rest
  | 'U' :: rest => codePoint? f 8 rest
  | 'b' :: '\x7b' :: _ => none
  | c :: rest =>
    if c.isAlpha then (letterEscape? c).map (·, rest)
    else if c = '<' || c = '>' then some (.assertion true, rest)
    else if c.isDigit || !isAscii c then none
    else some (.char c false, rest)
  | [] => none

/-! ## Classes in brackets -/

/-- What is kept of a set of characters. -/
structure CharSet where
  /-- Whether it holds the characters beyond ASCII; it holds all of them or none, if the flags
  limit it to bytes. -/
  wide : Bool := false
  /-- How many brackets, unions and operations stand inside each other. -/
  depth : Nat := 0
  deriving DecidableEq, Repr

inductive SetOperation where
  | intersection | difference | symmetricDifference
  deriving DecidableEq, Repr

def SetOperation.apply : SetOperation → Bool → Bool → Bool
  | intersection, a, b => a && b
  | difference, a, b => a && !b
  | symmetricDifference, a, b => a != b

def maxDepth (depths : List Nat) : Nat := depths.foldl max 0

def CharSet.union : List CharSet → CharSet
  | [] => {}
  | [s] => s
  | sets => ⟨sets.any (·.wide), maxDepth (sets.map (·.depth)) + 1⟩

/-- A class that is still open. -/
structure OpenClass where
  negated : Bool
  /-- The members since the last operation. -/
  members : List CharSet := []
  /-- The last operation with what stands before it. -/
  pending : Option (SetOperation × CharSet) := none
  deriving DecidableEq, Repr

namespace OpenClass

def add (c : OpenClass) (member : CharSet) : OpenClass :=
  { c with members := member :: c.members }

/-- What has been read. -/
def content (c : OpenClass) : CharSet :=
  let right := CharSet.union c.members
  match c.pending with
  | none => right
  | some (operation, left) =>
    ⟨operation.apply left.wide right.wide, max left.depth right.depth + 1⟩

def operate (c : OpenClass) (operation : SetOperation) : OpenClass :=
  { c with members := [], pending := some (operation, c.content) }

/-- The class when its bracket closes. -/
def close? (f : Flags) (c : OpenClass) : Option CharSet :=
  let content := c.content
  let wide := content.wide != c.negated
  if f.unicode then if f.eitherCase then none else some ⟨wide, content.depth + 1⟩
  else if wide then none
  else some ⟨false, content.depth + 1⟩

/-- Members at the start that are dashes. -/
def leadingDashes (f : Flags) : Nat → OpenClass → List Char → OpenClass × List Char
  | 0, c, s => (c, s)
  | n + 1, c, s =>
    match s with
    | '-' :: rest => leadingDashes f n (c.add {}) (f.skip rest)
    | s => (c, s)

/-- Opens a class after its bracket. A closing bracket that comes first is a member. -/
def start (f : Flags) (s : List Char) : OpenClass × List Char :=
  let (c, s) := match f.skip s with
    | '^' :: rest => (({ negated := true } : OpenClass), f.skip rest)
    | s => ({ negated := false }, s)
  match leadingDashes f s.length c s with
  | (c, ']' :: rest) => if c.members.isEmpty then (c.add {}, rest) else (c, ']' :: rest)
  | read => read

end OpenClass

def asciiClassNames : List String :=
  ["alnum", "alpha", "ascii", "blank", "cntrl", "digit", "graph", "lower", "print", "punct",
    "space", "upper", "word", "xdigit"]

/-- Reads a named class, after its bracket. -/
def namedClass? (s : List Char) : Option (CharSet × List Char) :=
  let (negated, s) := match s with
    | ':' :: '^' :: rest => (true, rest)
    | ':' :: rest => (false, rest)
    | _ => (false, [])
  match s.span (· != ':') with
  | (name, ':' :: ']' :: rest) =>
    if asciiClassNames.contains (String.ofList name) then some ({ wide := negated }, rest) else none
  | _ => none

/-- One position in brackets. -/
def memberAtom? (f : Flags) : List Char → Option (Atom × List Char)
  | '\\' :: rest => escape? f rest
  | c :: rest => some (.char c false, rest)
  | [] => none

/-- The rest after a member: a character, a class, or a range of characters. -/
def afterMember? (f : Flags) (s : List Char) : Option (List Char) := do
  let (first, rest) ← memberAtom? f s
  if !f.allowsMember first then none
  match f.skip rest with
  | [] => none
  | '-' :: tail =>
    match f.skip tail with
    | [] => none
    | next :: others =>
      if next = ']' || next = '-' then some ('-' :: tail)
      else do
        let (last, rest) ← memberAtom? f (next :: others)
        match first, last with
        | .char a _, .char b _ => if a ≤ b && f.allowsMember last then some rest else none
        | _, _ => none
  | rest => some rest

/-- Reads a class from a place inside it. `outer` are the classes around it, the nearest first. -/
def readClass (f : Flags) :
    Nat → List OpenClass → OpenClass → List Char → Option (CharSet × List Char)
  | 0, _, _, _ => none
  | n + 1, outer, c, s =>
    match f.skip s with
    | [] => none
    | '[' :: rest =>
      match namedClass? rest with
      | some (member, rest) => readClass f n outer (c.add member) rest
      | none =>
        let (inner, rest) := OpenClass.start f rest
        readClass f n (c :: outer) inner rest
    | ']' :: rest =>
      match c.close? f, outer with
      | none, _ => none
      | some set, [] => some (set, rest)
      | some set, c :: outer => readClass f n outer (c.add set) rest
    | '&' :: '&' :: rest => readClass f n outer (c.operate .intersection) rest
    | '-' :: '-' :: rest => readClass f n outer (c.operate .difference) rest
    | '~' :: '~' :: rest => readClass f n outer (c.operate .symmetricDifference) rest
    | s =>
      match afterMember? f s with
      | some rest => readClass f n outer (c.add {}) rest
      | none => none

/-- Reads a class after its bracket. -/
def class? (f : Flags) (s : List Char) : Option (CharSet × List Char) :=
  let (c, rest) := OpenClass.start f s
  readClass f (rest.length + 1) [] c rest

/-! ## Groups -/

/-- A part of a branch. -/
structure Item where
  depth : Nat := 0
  /-- Whether a repetition may follow; it may not behind flags. -/
  repeatable : Bool := true
  deriving DecidableEq, Repr

/-- A group that is still open, or the whole pattern. -/
structure Group where
  /-- The items of the present branch, the last one first. -/
  items : List Item := []
  /-- The depths of the branches before. -/
  branches : List Nat := []
  /-- The flags that hold again behind the group. -/
  outside : Flags := {}
  deriving DecidableEq, Repr

namespace Group

def add (g : Group) (item : Item) : Group := { g with items := item :: g.items }

def branchDepth (g : Group) : Nat :=
  match g.items with
  | [] => 0
  | [item] => item.depth
  | items => maxDepth (items.map (·.depth)) + 1

def nextBranch (g : Group) : Group :=
  { g with items := [], branches := g.branchDepth :: g.branches }

def depth (g : Group) : Nat :=
  if g.branches.isEmpty then g.branchDepth else maxDepth (g.branchDepth :: g.branches) + 1

/-- Repeats the last item. -/
def repeat? (g : Group) : Option Group :=
  match g.items with
  | item :: items =>
    if item.repeatable then some { g with items := { depth := item.depth + 1 } :: items } else none
  | [] => none

end Group

/-- How far a pattern has been read. -/
structure Reading where
  flags : Flags := {}
  group : Group := {}
  /-- The groups around the present one, the nearest first. -/
  around : List Group := []
  names : List (List Char) := []
  deriving DecidableEq, Repr

namespace Reading

def add (r : Reading) (item : Item) : Reading := { r with group := r.group.add item }

def enter (r : Reading) (flags : Flags) : Reading :=
  { r with flags, group := { outside := r.flags }, around := r.group :: r.around }

def close? (r : Reading) : Option Reading :=
  match r.around with
  | [] => none
  | g :: around =>
    some { r with
      flags := r.group.outside
      group := g.add { depth := r.group.depth + 1 }
      around }

def atom? (r : Reading) (a : Atom) : Option Reading :=
  if r.flags.allows a then some (r.add {}) else none

end Reading

def isNameStart (c : Char) : Bool := c = '_' || isLetter c

def isNamePart (c : Char) : Bool :=
  c = '_' || c = '.' || c = '[' || c = ']' || isLetterOrDigit c

def isGroupName : List Char → Bool
  | [] => false
  | c :: rest => isNameStart c && rest.all isNamePart

/-- Opens a group after its name has begun. Names are not used twice. -/
def named? (r : Reading) (s : List Char) : Option (Reading × List Char) :=
  match s.span (· != '>') with
  | (name, _ :: rest) =>
    if isGroupName name && !r.names.contains name then
      some ({ r.enter r.flags with names := name :: r.names }, rest)
    else none
  | _ => none

def flagLetters : List Char := "imsURux-".toList

def Flags.set (on : Bool) (f : Flags) (c : Char) : Flags :=
  match c with
  | 'u' => { f with unicode := on }
  | 'i' => { f with eitherCase := on }
  | 'x' => { f with spaced := on }
  | _ => f

/-- The flags after a change: some are set, those behind a dash are taken back. No flag and no dash
is given twice, and the dash is not the last. -/
def Flags.change? (f : Flags) (text : List Char) : Option Flags :=
  if text.all flagLetters.contains && text.Nodup && text.getLast? != some '-' then
    let (on, off) := text.span (· != '-')
    some (off.foldl (Flags.set false) (on.foldl (Flags.set true) f))
  else none

/-- Flags for a group, or for the rest of the present one. -/
def flagged? (r : Reading) (s : List Char) : Option (Reading × List Char) :=
  match s.span fun c => c != ':' && c != ')' with
  | (_, []) => none
  | (text, mark :: rest) =>
    (r.flags.change? text).bind fun flags =>
      if mark = ':' then some (r.enter flags, rest)
      else if text.isEmpty then none
      else some ({ r.add { repeatable := false } with flags }, rest)

/-- Opens a group after its parenthesis. There is no looking around. -/
def group? (r : Reading) (s : List Char) : Option (Reading × List Char) :=
  match r.flags.skip s with
  | '?' :: 'P' :: '<' :: rest => named? r rest
  | '?' :: '<' :: rest => named? r rest
  | '?' :: rest => flagged? r rest
  | s => some (r.enter r.flags, s)

/-- Leaves out the mark of a repetition that takes as little as possible. -/
def skipReluctant : List Char → List Char
  | '?' :: rest => rest
  | s => s

/-- Reads the next part of a pattern. -/
def step (r : Reading) : Char → List Char → Option (Reading × List Char)
  | '(', rest => group? r rest
  | ')', rest => r.close?.map (·, rest)
  | '|', rest => some ({ r with group := r.group.nextBranch }, rest)
  | '[', rest => (class? r.flags rest).map fun (set, rest) => (r.add { depth := set.depth }, rest)
  | '\\', rest => do
    let (a, rest) ← escape? r.flags rest
    return (← r.atom? a, rest)
  | '.', rest => (r.atom? .dot).map (·, rest)
  | '\x7b', _ => none
  | c, rest =>
    if c = '?' || c = '*' || c = '+' then
      r.group.repeat?.map fun group => ({ r with group }, skipReluctant rest)
    else if c = '^' || c = '$' then (r.atom? (.assertion false)).map (·, rest)
    else (r.atom? (.char c false)).map (·, rest)

/-- How many parts may stand inside each other. -/
def depthLimit : Nat := 250

/-- Whether the rest of a pattern can be read. -/
def completes : Nat → Reading → List Char → Bool
  | 0, _, _ => false
  | n + 1, r, s =>
    match r.flags.skip s with
    | [] => r.around.isEmpty && r.group.depth ≤ depthLimit
    | c :: rest =>
      match step r c rest with
      | some (r, rest) => completes n r rest
      | none => false

/-- Whether a text is a pattern. -/
def isValid (text : List Char) : Bool := completes (text.length + 1) {} text

end JvmThrows.Pattern
