import JvmThrows.ClassFile.Words

/-!
# Modified UTF-8

The text encoding of class files: NUL takes two bytes, and a character beyond the basic plane is
written as its two surrogates, three bytes each. Plain UTF-8 without NUL is read as well.
-/

namespace JvmThrows.ModifiedUtf8

/-- The value of a byte that continues a sequence. -/
def tail? (b : UInt8) : Option Nat :=
  if 0x80 ≤ b.toNat ∧ b.toNat < 0xC0 then some (b.toNat - 0x80) else none

/-- The code units written by one, two or three bytes each; longer forms than needed are read,
too. -/
def units? : Bytes → Option (List Nat)
  | [] => some []
  | a :: rest =>
    let n := a.toNat
    if n = 0 then none
    else if n < 0x80 then (units? rest).map (n :: ·)
    else if 0xC0 ≤ n ∧ n < 0xE0 then
      match rest with
      | b :: rest =>
        match tail? b with
        | some y => (units? rest).map (((n - 0xC0) * 0x40 + y) :: ·)
        | none => none
      | _ => none
    else if 0xE0 ≤ n ∧ n < 0xF0 then
      match rest with
      | b :: c :: rest =>
        match tail? b, tail? c with
        | some y, some z => (units? rest).map ((((n - 0xE0) * 0x40 + y) * 0x40 + z) :: ·)
        | _, _ => none
      | _ => none
    else none

/-- The characters that code units denote; surrogates count in pairs only. -/
def chars? : List Nat → Option (List Char)
  | [] => some []
  | u :: rest =>
    if 0xDC00 ≤ u ∧ u < 0xE000 then none
    else if 0xD800 ≤ u ∧ u < 0xDC00 then
      match rest with
      | v :: rest =>
        if 0xDC00 ≤ v ∧ v < 0xE000 then
          (chars? rest).map (Char.ofNat (0x10000 + (u - 0xD800) * 0x400 + (v - 0xDC00)) :: ·)
        else none
      | [] => none
    else (chars? rest).map (Char.ofNat u :: ·)

/-- The text of a constant. -/
def decode (bytes : Bytes) : Except ClassFileError String :=
  let slow :=
    match (units? bytes).bind chars? with
    | some chars => .ok (String.ofList chars)
    | none => .error .invalidModifiedUtf8
  match String.fromUTF8? ⟨bytes.toArray⟩ with
  | some text => if text.toList.contains '\x00' then slow else .ok text
  | none => slow

/-- The code units of a character. -/
def unitsOf (c : Char) : List Nat :=
  let n := c.toNat
  if n < 0x10000 then [n]
  else [0xD800 + (n - 0x10000) / 0x400, 0xDC00 + (n - 0x10000) % 0x400]

def encodeUnit (u : Nat) : Bytes :=
  if 0 < u ∧ u < 0x80 then [UInt8.ofNat u]
  else if u < 0x800 then [UInt8.ofNat (0xC0 + u / 0x40), UInt8.ofNat (0x80 + u % 0x40)]
  else
    [UInt8.ofNat (0xE0 + u / 0x1000), UInt8.ofNat (0x80 + u / 0x40 % 0x40),
      UInt8.ofNat (0x80 + u % 0x40)]

/-- The encoding that class files prescribe. -/
def encode (text : List Char) : Bytes := text.flatMap fun c => (unitsOf c).flatMap encodeUnit

end JvmThrows.ModifiedUtf8
