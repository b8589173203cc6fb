import JvmThrows.FileTree.Basic
import JvmThrows.Zip.Checksum
import JvmThrows.Zip.Inflate

/-!
# Archives

Reads the entries of an archive in the order of its directory. The directory stands before a record
at the end, which only a comment may follow; other data may stand in front of the archive. Entries
are stored or deflated and carry a checksum.
-/

namespace JvmThrows.Zip

/-- A number of so many bytes, the lowest first. -/
def word? (data : ByteArray) (start : Nat) : Nat → Option Nat
  | 0 => some 0
  | n + 1 => do
    let low ← data[start]?
    let high ← word? data (start + 1) n
    return low.toNat + 256 * high

def endSignature : Nat := 0x06054b50
def entrySignature : Nat := 0x02014b50
def headerSignature : Nat := 0x04034b50

/-- Marks archives that are too large for the usual record at the end. -/
def largeSignature : Nat := 0x07064b50

/-- The longest comment. -/
def maxComment : Nat := 0xFFFF

/-- The last place that is signed as the record at the end, among `n` places from `first` on. -/
def findEnd? (data : ByteArray) (first : Nat) : Nat → Option Nat
  | 0 => none
  | n + 1 =>
    if word? data (first + n) 4 = some endSignature then some (first + n)
    else findEnd? data first n

/-- A record of the directory. -/
structure Header where
  name : String
  encrypted : Bool
  method : Nat
  checksum : Nat
  packedSize : Nat
  /-- Where the header of the entry itself is. -/
  start : Nat

/-- The text of a name. Names are only compared with ASCII text, so that other bytes are taken as
the characters of the same number. -/
def nameText (bytes : ByteArray) : String :=
  String.ofList (bytes.toList.map fun b => Char.ofNat b.toNat)

/-- The encryption that is not even passed over. -/
def strongEncryption : Nat := 99

/-- Reads `n` records of the directory from a place on. `shift` is how much stands in front of the
archive. -/
def headers? (data : ByteArray) (shift : Nat) : Nat → Nat → Option (List Header)
  | 0, _ => some []
  | n + 1, place => do
    if (← word? data place 4) ≠ entrySignature then none
    let method ← word? data (place + 10) 2
    if method = strongEncryption then none
    let nameEnd := place + 46 + (← word? data (place + 28) 2)
    let next := nameEnd + (← word? data (place + 30) 2) + (← word? data (place + 32) 2)
    if data.size < next then none
    let header : Header :=
      { name := nameText (data.extract (place + 46) nameEnd)
        encrypted := (← word? data (place + 8) 2) % 2 = 1
        method
        checksum := ← word? data (place + 16) 4
        packedSize := ← word? data (place + 20) 4
        start := (← word? data (place + 42) 4) + shift }
    return header :: (← headers? data shift n next)

/-- The packed data of an entry, as far as the file goes. -/
def packed? (data : ByteArray) (h : Header) : Option ByteArray := do
  if (← word? data h.start 4) ≠ headerSignature then none
  let start := h.start + 30 + (← word? data (h.start + 26) 2) + (← word? data (h.start + 28) 2)
  return data.extract start (start + h.packedSize)

/-- Data with the checksum that it must have. -/
def checked (h : Header) (bytes : Bytes) : EntryData :=
  if crc32 bytes = h.checksum then .bytes bytes else .damaged .wrongChecksum

def contentOf (data : ByteArray) (h : Header) : EntryData :=
  if h.encrypted then .sealed
  else
    match packed? data h, h.method with
    | some bytes, 0 => checked h bytes.toList
    | some bytes, 8 =>
      match inflate? bytes with
      | some expanded => checked h expanded
      | none => .damaged .corrupt
    | _, _ => .sealed

/-- Whether a record for large archives is announced in front of the end. -/
def isLarge (data : ByteArray) (comment : Nat) : Bool :=
  let tail := Content.endLength + comment + 20
  tail ≤ data.size && word? data (data.size - tail) 4 == some largeSignature

/-- Whether some field of the record at the end holds the greatest value that it can. -/
def isOverfull (data : ByteArray) (place : Nat) : Bool :=
  [(4, 2), (6, 2), (8, 2), (10, 2), (12, 4), (16, 4)].any fun (field, width) =>
    word? data (place + field) width == some (Nat.pow 256 width - 1)

/-- The entries of an archive; nothing for a file that is none. The parts of an archive in parts are
none; a record that is overfull does not tell. -/
def archive? (data : ByteArray) : Option (List ArchiveEntry) := do
  if data.size < Content.endLength then none
  let first := data.size - Content.endLength - maxComment
  let place ← findEnd? data first (data.size - Content.endLength - first + 1)
  let comment ← word? data (place + 20) 2
  if data.size < place + Content.endLength + comment then none
  if isLarge data comment then none
  if (← word? data (place + 4) 2) ≠ (← word? data (place + 6) 2) && !isOverfull data place then none
  let length ← word? data (place + 12) 4
  let offset ← word? data (place + 16) 4
  if place < length + offset then none
  let count ← word? data (place + 8) 2
  let headers ← headers? data (place - length - offset) count (place - length)
  return headers.map fun h => ⟨h.name, contentOf data h⟩

end JvmThrows.Zip

namespace JvmThrows.Content

/-- What a file with the given bytes holds. -/
def ofFile (data : ByteArray) : Content :=
  match Zip.archive? data with
  | some entries => .ofEntries entries
  | none => .ofBytes data.toList

/-- The entries of a file that is an archive. The zeros behind it must not hide its end. -/
def entries? : Content → Option (List ArchiveEntry)
  | archive entries zeros => if zeros ≤ Zip.maxComment then some entries else none
  | plain data zeros =>
    if zeros ≤ Zip.maxComment then Zip.archive? ⟨(data ++ List.replicate zeros 0).toArray⟩ else none

end JvmThrows.Content
