import JvmThrows.ClassFile.Words
import Mathlib.Data.List.Basic

/-!
# Texts as bytes

The bytes of a text are those of its characters, one after the other (`bytes`), and they read back
(`fromUTF8?_bytes`); nothing else is read (`eq_bytes_of_fromUTF8?`). A character beyond ASCII has no
byte below `0x80`, so that only NUL has a zero byte.
-/

namespace JvmThrows.Utf8

/-- The bytes of characters. -/
def bytes (chars : List Char) : Bytes := chars.flatMap String.utf8EncodeChar

@[simp] theorem bytes_nil : bytes [] = [] := rfl

@[simp] theorem bytes_append (a b : List Char) : bytes (a ++ b) = bytes a ++ bytes b :=
  List.flatMap_append

theorem bytes_cons (c : Char) (cs : List Char) :
    bytes (c :: cs) = String.utf8EncodeChar c ++ bytes cs := rfl

theorem utf8EncodeChar_of_lt {c : Char} (h : c.toNat < 0x80) :
    String.utf8EncodeChar c = [UInt8.ofNat c.toNat] :=
  if_pos (Nat.le_of_lt_succ h)

theorem utf8EncodeChar_of_two {c : Char} (h1 : 0x80 ≤ c.toNat) (h2 : c.toNat < 0x800) :
    String.utf8EncodeChar c =
      [UInt8.ofNat (c.toNat / 0x40 % 0x20 + 0xC0), UInt8.ofNat (c.toNat % 0x40 + 0x80)] :=
  (if_neg (Nat.not_le.2 h1)).trans (if_pos (Nat.le_of_lt_succ h2))

theorem utf8EncodeChar_of_three {c : Char} (h1 : 0x800 ≤ c.toNat) (h2 : c.toNat < 0x10000) :
    String.utf8EncodeChar c =
      [UInt8.ofNat (c.toNat / 0x1000 % 0x10 + 0xE0), UInt8.ofNat (c.toNat / 0x40 % 0x40 + 0x80),
        UInt8.ofNat (c.toNat % 0x40 + 0x80)] :=
  (if_neg (Nat.not_le.2 (Nat.lt_of_lt_of_le (by decide) h1))).trans
    ((if_neg (Nat.not_le.2 h1)).trans (if_pos (Nat.le_of_lt_succ h2)))

/-- Only characters beyond the basic plane take four bytes. -/
theorem utf8EncodeChar_of_four {c : Char} (h : 0x10000 ≤ c.toNat) :
    ∃ rest, String.utf8EncodeChar c = UInt8.ofNat (c.toNat / 0x40000 % 8 + 0xF0) :: rest :=
  ⟨_, (if_neg (Nat.not_le.2 (Nat.lt_of_lt_of_le (by decide) h))).trans
    ((if_neg (Nat.not_le.2 (Nat.lt_of_lt_of_le (by decide) h))).trans (if_neg (Nat.not_le.2 h)))⟩

theorem bytes_cons_of_lt {c : Char} (h : c.toNat < 0x80) (cs : List Char) :
    bytes (c :: cs) = UInt8.ofNat c.toNat :: bytes cs := by
  rw [bytes_cons, utf8EncodeChar_of_lt h]
  rfl

theorem le_of_mem_utf8EncodeChar {c : Char} {b : UInt8} (h : 0x80 ≤ c.toNat)
    (hb : b ∈ String.utf8EncodeChar c) : 0x80 ≤ b.toNat := by
  have hgt : ¬ c.val.toNat ≤ 127 := Nat.not_le.2 h
  unfold String.utf8EncodeChar at hb
  simp only [if_neg hgt] at hb
  split at hb
  · simp only [List.mem_cons, List.not_mem_nil, or_false] at hb
    rcases hb with rfl | rfl <;> rw [UInt8.toNat_ofNat'] <;> omega
  · split at hb <;> simp only [List.mem_cons, List.not_mem_nil, or_false] at hb
    · rcases hb with rfl | rfl | rfl <;> rw [UInt8.toNat_ofNat'] <;> omega
    · rcases hb with rfl | rfl | rfl | rfl <;> rw [UInt8.toNat_ofNat'] <;> omega

/-- Only NUL has a zero byte. -/
theorem nul_mem_of_zero_mem_bytes {text : List Char} (h : 0 ∈ bytes text) : '\x00' ∈ text := by
  obtain ⟨c, hc, h⟩ := List.mem_flatMap.1 h
  have hlt : c.toNat < 0x80 :=
    Nat.lt_of_not_le fun hle => absurd (le_of_mem_utf8EncodeChar hle h) (by decide)
  rw [utf8EncodeChar_of_lt hlt, List.mem_singleton] at h
  have hzero : c.toNat = 0 := by
    have hbyte : (UInt8.ofNat c.toNat).toNat = 0 := by rw [← h]; rfl
    rw [UInt8.toNat_ofNat'] at hbyte
    omega
  have hnul : c = '\x00' := by rw [← Char.ofNat_toNat c, hzero]
  rwa [← hnul]

/-! ### Byte arrays -/

theorem toList_loop (array : ByteArray) (i : Nat) (acc : Bytes) :
    ByteArray.toList.loop array i acc = acc.reverse ++ array.data.toList.drop i := by
  fun_induction ByteArray.toList.loop array i acc with
  | case1 i acc hi ih =>
    have hi' : i < array.data.toList.length := by simpa using hi
    rw [ih, List.reverse_cons, List.append_assoc, List.drop_eq_getElem_cons hi']
    simp [ByteArray.get!, hi]
  | case2 i acc hi =>
    rw [List.drop_eq_nil_of_le (by simpa using hi), List.append_nil]

theorem data_toUTF8 (text : String) : text.toUTF8.data.toList = bytes text.toList := by
  have htext : text.toUTF8 = text.toList.utf8Encode := String.utf8Encode_toList.symm
  rw [htext, List.utf8Encode, bytes]
  simp

theorem toList_toUTF8 (text : String) : text.toUTF8.toList = bytes text.toList := by
  rw [ByteArray.toList, toList_loop, ← data_toUTF8]
  rfl

theorem length_bytes (text : String) : (bytes text.toList).length = text.toUTF8.size := by
  rw [← data_toUTF8]
  rfl

/-- The bytes of a text read back. -/
theorem fromUTF8?_bytes (text : String) :
    String.fromUTF8? ⟨(bytes text.toList).toArray⟩ = some text := by
  have harray : (⟨(bytes text.toList).toArray⟩ : ByteArray) = text.toUTF8 := by
    rw [← data_toUTF8]
  have hvalid : text.toUTF8.IsValidUTF8 := text.isValidUTF8
  rw [harray, String.fromUTF8?, dif_pos hvalid]
  rfl

/-- A text is read from its own bytes only. -/
theorem eq_bytes_of_fromUTF8? {array : Bytes} {text : String}
    (h : String.fromUTF8? ⟨array.toArray⟩ = some text) : array = bytes text.toList := by
  unfold String.fromUTF8? at h
  split at h
  · have htext := Option.some.inj h
    have harray : text.toUTF8 = ⟨array.toArray⟩ := by
      rw [← htext]
      rfl
    rw [← data_toUTF8, harray]
  · cases h

end JvmThrows.Utf8
