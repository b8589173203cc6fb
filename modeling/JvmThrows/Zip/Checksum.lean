import JvmThrows.ClassFile.Words

/-!
# Checksums

The remainder of data as a polynomial over bits, with the usual polynomial of degree 32, lowest bits
first.
-/

namespace JvmThrows.Zip

/-- The polynomial without its leading term. -/
def polynomial : UInt32 := 0xEDB88320

/-- Takes in one bit. -/
def crcBit (crc : UInt32) : UInt32 :=
  if crc &&& 1 = 1 then (crc >>> 1) ^^^ polynomial else crc >>> 1

/-- Takes in one byte. -/
def crcByte (crc : UInt32) (b : UInt8) : UInt32 :=
  Nat.repeat crcBit 8 (crc ^^^ b.toUInt32)

/-- The checksum of data. -/
def crc32 (data : Bytes) : Nat := (data.foldl crcByte 0xFFFFFFFF ^^^ 0xFFFFFFFF).toNat

end JvmThrows.Zip
