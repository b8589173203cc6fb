import JvmThrows.ClassFile.Words

/-!
# Inflating

Expands deflated data: blocks that are stored, or coded with prefix codes that are fixed or given
in the block. Bits are read from the lowest of each byte on.
-/

namespace JvmThrows.Zip

/-- Reads bits of the data; the state is the position of the next one. -/
abbrev BitReader := StateT Nat Option

namespace Inflate

variable (data : ByteArray)

def bit : BitReader Nat := fun position =>
  (data[position / 8]?).map fun byte => (byte.toNat >>> (position % 8) % 2, position + 1)

/-- A number of so many bits, the lowest first. -/
def bits : Nat → BitReader Nat
  | 0 => pure 0
  | n + 1 => do
    let low ← bit data
    let high ← bits n
    return low + 2 * high

/-- A prefix code: how many code words there are of each length from one on, and the symbols in the
order of their code words. -/
structure Code where
  counts : List Nat
  symbols : Array Nat

/-- The longest code word. -/
def maxLength : Nat := 15

/-- The code in which each symbol has a code word of the given length, or none for zero. -/
def Code.ofLengths (lengths : List Nat) : Code where
  counts := (List.range maxLength).map fun n => lengths.count (n + 1)
  symbols := ((List.range maxLength).flatMap fun n =>
    (lengths.zipIdx.filter (·.1 = n + 1)).map (·.2)).toArray

/-- Whether every text of bits starts with exactly one code word. A code of at most one word need
not be so. -/
def Code.isComplete (code : Code) : Bool :=
  code.symbols.size ≤ 1 ||
    (code.counts.zipIdx.map fun (count, n) => count * Nat.pow 2 (maxLength - (n + 1))).foldr
      (· + ·) 0 = Nat.pow 2 maxLength

/-- The code for lengths that are given, if it is one. -/
def Code.ofLengths? (lengths : List Nat) : Option Code :=
  let code := Code.ofLengths lengths
  if code.isComplete then some code else none

/-- Reads a symbol bit by bit. `first` is the first code word of the present length, `index` the
place of its symbol. -/
def symbolFrom (symbols : Array Nat) : List Nat → Nat → Nat → Nat → BitReader Nat
  | [], _, _, _ => failure
  | count :: counts, word, first, index => do
    let word := word + (← bit data)
    if word < first + count then
      match symbols[index + (word - first)]? with
      | some symbol => return symbol
      | none => failure
    else symbolFrom symbols counts (2 * word) (2 * (first + count)) (index + count)

def symbol (code : Code) : BitReader Nat := symbolFrom data code.symbols code.counts 0 0 0

/-- The shortest copy for each symbol, and how many bits add to it. -/
def copyLengths : List (Nat × Nat) :=
  [(3, 0), (4, 0), (5, 0), (6, 0), (7, 0), (8, 0), (9, 0), (10, 0), (11, 1), (13, 1), (15, 1),
    (17, 1), (19, 2), (23, 2), (27, 2), (31, 2), (35, 3), (43, 3), (51, 3), (59, 3), (67, 4),
    (83, 4), (99, 4), (115, 4), (131, 5), (163, 5), (195, 5), (227, 5), (258, 0)]

/-- The nearest distance for each symbol, and how many bits add to it. -/
def copyDistances : List (Nat × Nat) :=
  [(1, 0), (2, 0), (3, 0), (4, 0), (5, 1), (7, 1), (9, 2), (13, 2), (17, 3), (25, 3), (33, 4),
    (49, 4), (65, 5), (97, 5), (129, 6), (193, 6), (257, 7), (385, 7), (513, 8), (769, 8),
    (1025, 9), (1537, 9), (2049, 10), (3073, 10), (4097, 11), (6145, 11), (8193, 12), (12289, 12),
    (16385, 13), (24577, 13)]

/-- A number from a table, by the symbol for its range. -/
def ranged (table : List (Nat × Nat)) (symbol : Nat) : BitReader Nat :=
  match table[symbol]? with
  | some (base, extra) => return base + (← bits data extra)
  | none => failure

/-- Repeats bytes from some distance before the end. -/
def copy (distance : Nat) : Nat → Array UInt8 → Option (Array UInt8)
  | 0, out => some out
  | n + 1, out =>
    if distance ≤ out.size then
      match out[out.size - distance]? with
      | some byte => copy distance n (out.push byte)
      | none => none
    else none

/-- The symbol at the end of a block; smaller ones are bytes, larger ones lengths of copies. -/
def endSymbol : Nat := 256

/-- Reads the symbols of a block, at most `n`. -/
def coded (literals distances : Code) : Nat → Array UInt8 → BitReader (Array UInt8)
  | 0, _ => failure
  | n + 1, out => do
    let s ← symbol data literals
    if s < endSymbol then coded literals distances n (out.push (UInt8.ofNat s))
    else if s = endSymbol then return out
    else
      let length ← ranged data copyLengths (s - endSymbol - 1)
      let distance ← ranged data copyDistances (← symbol data distances)
      match copy distance length out with
      | some out => coded literals distances n out
      | none => failure

def fixedLiterals : Code :=
  .ofLengths (List.replicate 144 8 ++ List.replicate 112 9 ++ List.replicate 24 7 ++
    List.replicate 8 8)

def fixedDistances : Code := .ofLengths (List.replicate 30 5)

/-- The order in which the lengths for the code of lengths are given. -/
def lengthOrder : List Nat := [16, 17, 18, 0, 8, 7, 9, 6, 10, 5, 11, 4, 12, 3, 13, 2, 14, 1, 15]

/-- Reads numbers of three bits. -/
def triples : Nat → BitReader (List Nat)
  | 0 => pure []
  | n + 1 => do return (← bits data 3) :: (← triples n)

/-- Reads lengths until there are enough, with at most `n` symbols; some symbols repeat. -/
def lengths (code : Code) (total : Nat) : Nat → List Nat → BitReader (List Nat)
  | 0, _ => failure
  | n + 1, read =>
    if total < read.length then failure
    else if total = read.length then return read
    else do
      let s ← symbol data code
      match s with
      | 16 =>
        match read.getLast? with
        | some last => lengths code total n (read ++ List.replicate (3 + (← bits data 2)) last)
        | none => failure
      | 17 => lengths code total n (read ++ List.replicate (3 + (← bits data 3)) 0)
      | 18 => lengths code total n (read ++ List.replicate (11 + (← bits data 7)) 0)
      | s => lengths code total n (read ++ [s])

/-- How many symbols a block may give for literals and lengths, and for distances. -/
def maxLiterals : Nat := 286
def maxDistances : Nat := 30

/-- The codes that a block gives: for literals and lengths, and for distances. -/
def codes : BitReader (Code × Code) := do
  let literals := 257 + (← bits data 5)
  let distances := 1 + (← bits data 5)
  if maxLiterals < literals || maxDistances < distances then failure
  let given ← triples data (4 + (← bits data 4))
  let named := lengthOrder.zip given
  let code ← Code.ofLengths? ((List.range 19).map fun s => (named.lookup s).getD 0)
  let total := literals + distances
  let all ← lengths data code total (total + 1) []
  return (← Code.ofLengths? (all.take literals), ← Code.ofLengths? (all.drop literals))

/-- A block of bytes as they are, from the next whole byte on. -/
def stored (out : Array UInt8) : BitReader (Array UInt8) := do
  modify fun position => (position + 7) / 8 * 8
  let length ← bits data 16
  let check ← bits data 16
  if length + check ≠ 65535 then failure
  let start := (← get) / 8
  if start + length ≤ data.size then
    modify (· + 8 * length)
    return out ++ (data.extract start (start + length)).data
  else failure

/-- Reads blocks up to the last, at most `n`. -/
def blocks : Nat → Array UInt8 → BitReader (Array UInt8)
  | 0, _ => failure
  | n + 1, out => do
    let last ← bit data
    let size := 8 * data.size + 1
    let out ← match ← bits data 2 with
      | 0 => stored data out
      | 1 => coded data fixedLiterals fixedDistances size out
      | 2 => do
        let (literals, distances) ← codes data
        coded data literals distances size out
      | _ => failure
    if last = 1 then return out else blocks n out

end Inflate

/-- Expands deflated data. -/
def inflate? (data : ByteArray) : Option Bytes :=
  ((Inflate.blocks data (8 * data.size + 1) #[]).run 0).map fun (out, _) => out.toList

end JvmThrows.Zip
