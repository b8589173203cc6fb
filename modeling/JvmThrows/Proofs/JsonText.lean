import JvmThrows.Json.Reader
import JvmThrows.Json.Writer
import JvmThrows.Proofs.Utf8
import Mathlib.Data.List.TakeDrop
import Mathlib.Data.List.TakeWhile

/-!
# JSON texts and their tokens

The text of a value, in the layout with one member a line, has exactly the tokens of the value.
`Lexes` says that of bytes and tokens. It is stated for bytes with something behind them that ends
words, because a number does not end by itself; all that may follow a value does.
-/

namespace JvmThrows.Json

/-- Numbers that are written without sign, point and exponent. -/
def Number.isNatural (n : Number) : Bool := !n.negative && n.fraction.isNone && n.exponent.isNone

mutual

/-- Whether all texts are Unicode and all numbers natural. -/
def isPlain : Json → Bool
  | .garbled => false
  | .number n => n.isNatural
  | .array items => itemsPlain items
  | .object fields => fieldsPlain fields
  | _ => true

def itemsPlain : List Json → Bool
  | [] => true
  | item :: rest => item.isPlain && itemsPlain rest

def fieldsPlain : List (String × Json) → Bool
  | [] => true
  | (_, value) :: rest => value.isPlain && fieldsPlain rest

end

mutual

/-- The tokens that stand for a value. -/
def tokens : Json → List Token
  | .null => [.null]
  | .bool b => [.bool b]
  | .number n => [.number n]
  | .string text => [.string (some text)]
  | .garbled => [.string none]
  | .array [] => [.openArray, .closeArray]
  | .array (item :: rest) => .openArray :: (item.tokens ++ (itemTokens rest ++ [.closeArray]))
  | .object [] => [.openObject, .closeObject]
  | .object ((key, value) :: rest) =>
    .openObject :: .string (some key) :: .colon ::
      (value.tokens ++ (fieldTokens rest ++ [.closeObject]))

/-- The tokens of further items, each behind a comma. -/
def itemTokens : List Json → List Token
  | [] => []
  | item :: rest => .comma :: (item.tokens ++ itemTokens rest)

def fieldTokens : List (String × Json) → List Token
  | [] => []
  | (key, value) :: rest =>
    .comma :: .string (some key) :: .colon :: (value.tokens ++ fieldTokens rest)

end

/-! ### Bytes that lex to tokens -/

/-- The bytes are read as the tokens, if what follows ends words. -/
def Lexes (bytes : Bytes) (tokens : List Token) : Prop :=
  ∀ acc b rest, Lexer.endsWord b →
    (bytes ++ b :: rest).foldlM Lexer.step ⟨.between, acc⟩ =
      (b :: rest).foldlM Lexer.step ⟨.between, tokens.reverse ++ acc⟩

namespace Lexes

variable {bytes bytes' : Bytes} {toks toks' : List Token} {b : UInt8} {token : Token}

theorem nil : Lexes [] [] := fun _ _ _ _ => rfl

theorem cons_mark (hb : Token.mark? b = some token) (h : Lexes bytes toks) :
    Lexes (b :: bytes) (token :: toks) := by
  intro acc b' rest hend
  have hblank : isJsonBlank b ≠ true := by
    intro hblank
    simp only [isJsonBlank, Bool.or_eq_true, beq_iff_eq] at hblank
    -- Neither blanks nor quotes are marks.
    rcases hblank with ((rfl | rfl) | rfl) | rfl <;> cases hb
  have hquote : b ≠ 34 := by
    rintro rfl
    cases hb
  have hstep : Lexer.step ⟨.between, acc⟩ b = some ⟨.between, token :: acc⟩ := by
    simp [Lexer.step, Lexer.start, hblank, hquote, hb]
  rw [List.cons_append, List.foldlM_cons, hstep]
  simpa using h (token :: acc) b' rest hend

theorem cons_blank (hb : isJsonBlank b = true) (h : Lexes bytes toks) :
    Lexes (b :: bytes) toks := by
  intro acc b' rest hend
  have hstep : Lexer.step ⟨.between, acc⟩ b = some ⟨.between, acc⟩ := by
    simp [Lexer.step, Lexer.start, hb]
  rw [List.cons_append, List.foldlM_cons, hstep]
  exact h acc b' rest hend

theorem append (h : Lexes bytes toks) (h' : Lexes bytes' toks')
    (hend : bytes'.head?.all Lexer.endsWord = true) : Lexes (bytes ++ bytes') (toks ++ toks') := by
  intro acc b rest hb
  have hnext : ∃ c cs, bytes' ++ b :: rest = c :: cs ∧ Lexer.endsWord c := by
    -- What follows the first text is the second one, unless that is empty.
    cases bytes' with
    | nil => exact ⟨b, rest, rfl, hb⟩
    | cons c cs => exact ⟨c, cs ++ b :: rest, rfl, by simpa using hend⟩
  obtain ⟨c, cs, hcs, hc⟩ := hnext
  rw [List.append_assoc, hcs, h acc c cs hc, ← hcs, h' _ b rest hb, List.reverse_append,
    List.append_assoc]

theorem tokens?_eq (h : Lexes bytes toks) (hb : isJsonBlank b = true) :
    tokens? (bytes ++ [b]) = some toks := by
  have hend : Lexer.endsWord b = true := by simp [Lexer.endsWord, hb]
  rw [tokens?, h [] b [] hend]
  simp [Lexer.step, Lexer.start, Lexer.finish, hb]

end Lexes

/-! ### Strings -/

/-- Bytes that stand for themselves in a string. -/
def IsBare (b : UInt8) : Prop := b ≠ 34 ∧ b ≠ 92 ∧ ¬ b < 32

theorem isBare_of_le {b : UInt8} (h : 0x80 ≤ b.toNat) : IsBare b := by
  refine ⟨?_, ?_, ?_⟩
  · rintro rfl
    exact absurd h (by decide)
  · rintro rfl
    exact absurd h (by decide)
  · rw [UInt8.lt_iff_toNat_lt]
    exact Nat.not_lt.2 (Nat.le_trans (by decide) h)

theorem hexUnit?_digitChar : ∀ n < 32,
    hexUnit? 48 48 (UInt8.ofNat (Nat.digitChar (n / 16)).toNat)
      (UInt8.ofNat (Nat.digitChar (n % 16)).toNat) = some n := by
  decide

theorem isBare_digitChar : ∀ n < 16, IsBare (UInt8.ofNat (Nat.digitChar n).toNat) := by
  unfold IsBare
  decide

theorem toNat_digitChar_lt : ∀ n < 16, (Nat.digitChar n).toNat < 0x80 := by decide

theorem isBare_utf8EncodeChar {c : Char} {b : UInt8} (hquote : c ≠ '"') (hslash : c ≠ '\\')
    (hcontrol : ¬ c.toNat < 32) (hb : b ∈ String.utf8EncodeChar c) : IsBare b := by
  by_cases hascii : c.toNat < 0x80
  · -- An ASCII character is its only byte.
    rw [Utf8.utf8EncodeChar_of_lt hascii, List.mem_singleton] at hb
    have hbc : b.toNat = c.toNat := by
      rw [hb, UInt8.toNat_ofNat']
      omega
    refine ⟨?_, ?_, ?_⟩
    · rintro rfl
      exact hquote (Char.toNat_inj.1 hbc.symm)
    · rintro rfl
      exact hslash (Char.toNat_inj.1 hbc.symm)
    · rw [UInt8.lt_iff_toNat_lt, hbc]
      exact hcontrol
  · -- All bytes of other characters are above ASCII.
    exact isBare_of_le (Utf8.le_of_mem_utf8EncodeChar (Nat.not_lt.1 hascii) hb)

/-- A character is written as a backslash and a letter, as its number, or as it is. -/
theorem bytes_escapeChar_cases (c : Char) :
    (∃ x y, Utf8.bytes (escapeChar c) = [92, x] ∧ x ≠ 117 ∧ simpleEscape? x = some y ∧
        String.utf8EncodeChar c = [y]) ∨
      (∃ x y, Utf8.bytes (escapeChar c) = [92, 117, 48, 48, x, y] ∧
        hexUnit? 48 48 x y = some c.toNat ∧ c.toNat < 32 ∧ IsBare x ∧ IsBare y) ∨
      (Utf8.bytes (escapeChar c) = String.utf8EncodeChar c ∧
        ∀ b ∈ String.utf8EncodeChar c, IsBare b) := by
  by_cases hshort : c ∈ ['"', '\\', '\n', '\r', '\t', '\x08', '\x0c']
  · -- One of the characters with a short escape.
    left
    simp only [List.mem_cons, List.not_mem_nil, or_false] at hshort
    rcases hshort with rfl | rfl | rfl | rfl | rfl | rfl | rfl <;>
      exact ⟨_, _, rfl, by decide, rfl, rfl⟩
  · right
    simp only [List.mem_cons, List.not_mem_nil, or_false, not_or] at hshort
    by_cases hcontrol : c.toNat < 32
    · -- Another control character, with its number in four digits.
      left
      have hhigh : c.toNat / 16 < 16 := by omega
      have hlow : c.toNat % 16 < 16 := by omega
      refine ⟨_, _, ?_, hexUnit?_digitChar _ hcontrol, hcontrol, isBare_digitChar _ hhigh,
        isBare_digitChar _ hlow⟩
      have hescape : escapeChar c = ['\\', 'u', '0', '0'] ++
          [Nat.digitChar (c.toNat / 16), Nat.digitChar (c.toNat % 16)] := by
        simp [escapeChar, hshort, hcontrol]
      rw [hescape, Utf8.bytes_append, Utf8.bytes_cons_of_lt (toNat_digitChar_lt _ hhigh),
        Utf8.bytes_cons_of_lt (toNat_digitChar_lt _ hlow)]
      rfl
    · -- Everything else stands for itself.
      right
      have hescape : escapeChar c = [c] := by simp [escapeChar, hshort, hcontrol]
      rw [hescape]
      exact ⟨List.append_nil _, fun b => isBare_utf8EncodeChar hshort.1 hshort.2.1 hcontrol⟩

/-- Bare bytes pass into a string as they are. -/
theorem foldlM_step_bare {bytes : Bytes} (h : ∀ b ∈ bytes, IsBare b) (body : Bytes)
    (acc : List Token) :
    bytes.foldlM Lexer.step ⟨.string body false, acc⟩ =
      some ⟨.string (bytes.reverse ++ body) false, acc⟩ := by
  induction bytes generalizing body with
  | nil => rfl
  | cons b bytes ih =>
    obtain ⟨hquote, hslash, hcontrol⟩ := h b List.mem_cons_self
    have hstep : Lexer.step ⟨.string body false, acc⟩ b =
        some ⟨.string (b :: body) false, acc⟩ := by
      simp [Lexer.step, hquote, hslash, hcontrol]
    rw [List.foldlM_cons, hstep]
    simpa using ih (fun x hx => h x (List.mem_cons_of_mem b hx)) (b :: body)

/-- So do the bytes of a character. No quote among them ends the string. -/
theorem foldlM_step_escapeChar (c : Char) (body : Bytes) (acc : List Token) :
    (Utf8.bytes (escapeChar c)).foldlM Lexer.step ⟨.string body false, acc⟩ =
      some ⟨.string ((Utf8.bytes (escapeChar c)).reverse ++ body) false, acc⟩ := by
  rcases bytes_escapeChar_cases c with
    ⟨x, y, hbytes, -⟩ | ⟨x, y, hbytes, -, -, hx, hy⟩ | ⟨hbytes, hbare⟩
  · rw [hbytes]
    rfl
  · -- The digits are bare bytes, like those of a text without escapes.
    have hopen : [92, 117].foldlM Lexer.step ⟨.string body false, acc⟩ =
        some ⟨.string (117 :: 92 :: body) false, acc⟩ := rfl
    have hdigits : ∀ b ∈ [48, 48, x, y], IsBare b := by
      have hzero : IsBare 48 := isBare_digitChar 0 (by decide)
      simp [hzero, hx, hy]
    rw [hbytes, show [92, 117, 48, 48, x, y] = [92, 117] ++ [48, 48, x, y] from rfl,
      List.foldlM_append, hopen]
    simpa using foldlM_step_bare hdigits (117 :: 92 :: body) acc
  · rw [hbytes]
    exact foldlM_step_bare hbare body acc

theorem foldlM_step_escaped (cs : List Char) (body : Bytes) (acc : List Token) :
    (Utf8.bytes (cs.flatMap escapeChar)).foldlM Lexer.step ⟨.string body false, acc⟩ =
      some ⟨.string ((Utf8.bytes (cs.flatMap escapeChar)).reverse ++ body) false, acc⟩ := by
  induction cs generalizing body with
  | nil => rfl
  | cons c cs ih =>
    rw [List.flatMap_cons, Utf8.bytes_append, List.foldlM_append, foldlM_step_escapeChar]
    simpa using ih ((Utf8.bytes (escapeChar c)).reverse ++ body)

theorem pieces?_cons_of_ne {b : UInt8} (h : b ≠ 92) (rest : Bytes) (acc : List Piece) :
    pieces? (b :: rest) acc = pieces? rest (.byte b :: acc) := by
  rw [pieces?]
  all_goals simp [h]

theorem pieces?_append_bare {bytes : Bytes} (h : ∀ b ∈ bytes, IsBare b) (rest : Bytes)
    (acc : List Piece) :
    pieces? (bytes ++ rest) acc = pieces? rest ((bytes.map Piece.byte).reverse ++ acc) := by
  induction bytes generalizing acc with
  | nil => rfl
  | cons b bytes ih =>
    rw [List.cons_append, pieces?_cons_of_ne (h b List.mem_cons_self).2.1,
      ih fun x hx => h x (List.mem_cons_of_mem b hx)]
    simp

theorem utf8?_map_byte (bytes : Bytes) (rest : List Piece) (acc : Bytes) :
    utf8? (bytes.map .byte ++ rest) acc = utf8? rest (bytes.reverse ++ acc) := by
  induction bytes generalizing acc with
  | nil => rfl
  | cons b bytes ih => simpa [utf8?] using ih (b :: acc)

/-- Resolving the escapes of a character gives the character. -/
theorem exists_pieces_escapeChar (c : Char) :
    ∃ ps : List Piece,
      (∀ rest acc, pieces? (Utf8.bytes (escapeChar c) ++ rest) acc =
        pieces? rest (ps.reverse ++ acc)) ∧
      ∀ rest acc, utf8? (ps ++ rest) acc =
        utf8? rest ((String.utf8EncodeChar c).reverse ++ acc) := by
  rcases bytes_escapeChar_cases c with
    ⟨x, y, hbytes, hx, hescape, hc⟩ | ⟨x, y, hbytes, hunit, hlt, -⟩ | ⟨hbytes, hbare⟩
  · refine ⟨[.byte y], fun rest acc => ?_, fun rest acc => ?_⟩
    · rw [hbytes]
      simp [pieces?, hx, hescape]
    · rw [hc]
      rfl
  · refine ⟨[.unit c.toNat], fun rest acc => ?_, fun rest acc => ?_⟩
    · rw [hbytes]
      simp [pieces?, hunit]
    · have hlow : isLowSurrogate c.toNat = false := by simp [isLowSurrogate]; omega
      -- Control characters are no surrogates, so that the unit is the whole character.
      have hhigh : isHighSurrogate c.toNat = false := by simp [isHighSurrogate]; omega
      rw [List.singleton_append, utf8?.eq_def]
      simp [hlow, hhigh, pushCodePoint]
  · refine ⟨(String.utf8EncodeChar c).map .byte, fun rest acc => ?_, utf8?_map_byte _⟩
    rw [hbytes, pieces?_append_bare hbare]

theorem exists_pieces_escaped (cs : List Char) :
    ∃ ps : List Piece,
      (∀ acc, pieces? (Utf8.bytes (cs.flatMap escapeChar)) acc = some (acc.reverse ++ ps)) ∧
      ∀ acc, utf8? ps acc = some (acc.reverse ++ Utf8.bytes cs) := by
  induction cs with
  | nil => exact ⟨[], fun acc => by simp [pieces?], fun acc => by simp [utf8?]⟩
  | cons c cs ih =>
    obtain ⟨ps, hps, hutf8⟩ := exists_pieces_escapeChar c
    obtain ⟨qs, hqs, hutf8'⟩ := ih
    refine ⟨ps ++ qs, fun acc => ?_, fun acc => ?_⟩
    · rw [List.flatMap_cons, Utf8.bytes_append, hps, hqs]
      simp
    · rw [hutf8, hutf8', Utf8.bytes_cons]
      simp

theorem ofString?_escaped (text : String) :
    Token.ofString? (Utf8.bytes (text.toList.flatMap escapeChar)) = some (.string (some text)) := by
  obtain ⟨ps, hps, hutf8⟩ := exists_pieces_escaped text.toList
  have htext := Utf8.fromUTF8?_bytes text
  simp [Token.ofString?, hps, hutf8, htext]

theorem lexes_quote (text : String) : Lexes (Utf8.bytes (quote text)) [.string (some text)] := by
  intro acc b rest _
  have hbytes : Utf8.bytes (quote text) ++ b :: rest =
      34 :: (Utf8.bytes (text.toList.flatMap escapeChar) ++ 34 :: b :: rest) := by
    rw [quote, Utf8.bytes_cons_of_lt (by decide), Utf8.bytes_append]
    simp [Utf8.bytes_cons_of_lt]
  have hopen : Lexer.step ⟨.between, acc⟩ 34 = some ⟨.string [] false, acc⟩ := rfl
  have hclose : Lexer.step
      ⟨.string (Utf8.bytes (text.toList.flatMap escapeChar)).reverse false, acc⟩ 34 =
      some ⟨.between, .string (some text) :: acc⟩ := by
    simp [Lexer.step, ofString?_escaped]
  rw [hbytes, List.foldlM_cons, hopen, Option.bind_eq_bind, Option.bind_some, List.foldlM_append,
    foldlM_step_escaped, List.append_nil, Option.bind_eq_bind, Option.bind_some, List.foldlM_cons,
    hclose]
  rfl

/-! ### Words -/

theorem ofNat_toNat_byte {c : Char} (h : c.toNat < 0x80) :
    Char.ofNat (UInt8.ofNat c.toNat).toNat = c := by
  rw [UInt8.toNat_ofNat', Nat.mod_eq_of_lt (by omega), Char.ofNat_toNat]

/-- A word is read to its end, and then as a whole. -/
theorem lexes_word {word : List Char} {token : Token} (hne : word ≠ [])
    (hword : ∀ c ∈ word, c.toNat < 0x80 ∧ Lexer.endsWord (UInt8.ofNat c.toNat) = false)
    (htoken : Token.ofWord? word = some token) : Lexes (Utf8.bytes word) [token] := by
  intro acc b rest hend
  have hloop (cs chars : List Char)
      (hcs : ∀ c ∈ cs, c.toNat < 0x80 ∧ Lexer.endsWord (UInt8.ofNat c.toNat) = false) :
      (Utf8.bytes cs).foldlM Lexer.step ⟨.word chars, acc⟩ =
        some ⟨.word (cs.reverse ++ chars), acc⟩ := by
    induction cs generalizing chars with
    | nil => rfl
    | cons c cs ih =>
      obtain ⟨hascii, hgoes⟩ := hcs c List.mem_cons_self
      have hstep : Lexer.step ⟨.word chars, acc⟩ (UInt8.ofNat c.toNat) =
          some ⟨.word (c :: chars), acc⟩ := by
        simp only [Lexer.step, hgoes, ofNat_toNat_byte hascii]
        rfl
      rw [Utf8.bytes_cons_of_lt hascii, List.foldlM_cons, hstep]
      simpa using ih (c :: chars) fun d hd => hcs d (List.mem_cons_of_mem c hd)
  obtain ⟨c, cs, rfl⟩ := List.exists_cons_of_ne_nil hne
  obtain ⟨hascii, hgoes⟩ := hword c List.mem_cons_self
  have hstart : Lexer.step ⟨.between, acc⟩ (UInt8.ofNat c.toNat) = some ⟨.word [c], acc⟩ := by
    simp only [Lexer.endsWord, Bool.or_eq_false_iff, Option.isSome_eq_false_iff,
      Option.isNone_iff_eq_none] at hgoes
    obtain ⟨⟨hblank, hquote⟩, hmark⟩ := hgoes
    simp only [Lexer.step, Lexer.start, hblank, hquote, hmark, ofNat_toNat_byte hascii]
    rfl
  have hstop : Lexer.step ⟨.word (cs.reverse ++ [c]), acc⟩ b =
      Lexer.step ⟨.between, token :: acc⟩ b := by
    simp [Lexer.step, hend, htoken]
  rw [Utf8.bytes_cons_of_lt hascii, List.cons_append, List.foldlM_cons, hstart,
    Option.bind_eq_bind, Option.bind_some, List.foldlM_append,
    hloop cs [c] fun d hd => hword d (List.mem_cons_of_mem c hd), Option.bind_eq_bind,
    Option.bind_some, List.foldlM_cons, List.foldlM_cons, hstop]
  rfl

theorem toNat_of_isDigit {c : Char} (h : c.isDigit = true) : 48 ≤ c.toNat ∧ c.toNat ≤ 57 := by
  simpa [Char.isDigit, UInt32.le_iff_toNat_le] using h

theorem endsWord_of_isDigit {c : Char} (h : c.isDigit = true) :
    c.toNat < 0x80 ∧ Lexer.endsWord (UInt8.ofNat c.toNat) = false := by
  have hdigits : ∀ n < 58, 48 ≤ n → Lexer.endsWord (UInt8.ofNat n) = false := by decide
  obtain ⟨hlow, hhigh⟩ := toNat_of_isDigit h
  exact ⟨by omega, hdigits _ (by omega) hlow⟩

/-- Only zero begins with the digit zero. -/
theorem head?_toDigits {n : Nat} (h : (Nat.toDigits 10 n).head? = some '0') : n = 0 := by
  induction n using Nat.strongRecOn with
  | _ n ih =>
    rw [Nat.toDigits_eq_if (by decide)] at h
    split at h
    · -- One digit.
      rename_i hlt
      have hdigit : ∀ m < 10, Nat.digitChar m = '0' → m = 0 := by decide
      exact hdigit n hlt (by simpa using h)
    · -- The front digit is that of the number without its last digit.
      have hhead : (Nat.toDigits 10 (n / 10)).head? = some '0' := by
        rwa [List.head?_append_of_ne_nil _ Nat.toDigits_ne_nil] at h
      have := ih (n / 10) (by omega) hhead
      omega

/-- Digits are read as a natural number. -/
theorem parse?_of_isDigit {s : List Char} (hdigit : ∀ c ∈ s, c.isDigit = true)
    (hzero : (s.length > 1 && s.head? == some '0') = false) :
    Number.parse? s = (digits? s).map .ofNat := by
  have hne {c d : Char} (hc : c ∈ s) (hd : d.isDigit = false) : c ≠ d := by
    rintro rfl
    simp [hdigit c hc] at hd
  have hspan (p : Char → Bool) (hp : ∀ c ∈ s, p c = true) : s.span p = (s, []) := by
    rw [List.span_eq_takeWhile_dropWhile, List.takeWhile_eq_self_iff.2 hp,
      List.dropWhile_eq_nil_iff.2 hp]
  have hexponent := hspan (fun c => c != 'e' && c != 'E') fun c hc => by
    simp [hne hc (d := 'e') (by decide), hne hc (d := 'E') (by decide)]
  have hpoint := hspan (· != '.') fun c hc => by simp [hne hc (d := '.') (by decide)]
  unfold Number.parse?
  split
  rename_i negative s' hsign
  split at hsign
  · -- A digit is no sign.
    exact absurd rfl (hne List.mem_cons_self (by decide))
  · cases hsign
    simp only [hexponent, hpoint, hzero, Option.bind_eq_bind, Option.bind_some,
      Bool.false_eq_true, if_false]
    cases digits? s <;> rfl

theorem digits?_toDigits (n : Nat) : digits? (Nat.toDigits 10 n) = some n := by
  have hfold := Nat.ofDigitChars_ten_toDigits (n := n)
  rw [Nat.ofDigitChars_eq_foldl] at hfold
  simp only [Nat.mul_comm 10] at hfold
  have hall : (Nat.toDigits 10 n).all Char.isDigit = true :=
    List.all_eq_true.2 fun c hc => Nat.isDigit_of_mem_toDigits (by decide) (by decide) hc
  rw [digits?, hall, hfold]
  simp

theorem ofWord?_toDigits (n : Nat) :
    Token.ofWord? (Nat.toDigits 10 n) = some (.number (.ofNat n)) := by
  have hdigit : ∀ c ∈ Nat.toDigits 10 n, c.isDigit = true := fun c hc =>
    Nat.isDigit_of_mem_toDigits (by decide) (by decide) hc
  have hzero :
      ((Nat.toDigits 10 n).length > 1 && (Nat.toDigits 10 n).head? == some '0') = false := by
    by_cases hhead : (Nat.toDigits 10 n).head? = some '0'
    · simp [head?_toDigits hhead]
    · simp [hhead]
  have hname {name : String} (h : String.ofList (Nat.toDigits 10 n) = name) :
      name.toList.all Char.isDigit = true := by
    rw [← h, String.toList_ofList]
    exact List.all_eq_true.2 hdigit
  unfold Token.ofWord?
  split
  case h_4 => rw [parse?_of_isDigit hdigit hzero, digits?_toDigits]; rfl
  -- The literal names are no digits.
  all_goals exact absurd (hname ‹_›) (by decide)

theorem lexes_number {n : Number} (h : n.isNatural = true) :
    Lexes (Utf8.bytes n.chars) [.number n] := by
  obtain ⟨negative, whole, fraction, exponent⟩ := n
  simp only [Number.isNatural, Bool.and_eq_true, Bool.not_eq_true', Option.isNone_iff_eq_none] at h
  obtain ⟨⟨rfl, rfl⟩, rfl⟩ := h
  have hchars : (⟨false, whole, none, none⟩ : Number).chars = Nat.toDigits 10 whole := by
    simp [Number.chars]
  rw [hchars]
  exact lexes_word Nat.toDigits_ne_nil (fun c hc => endsWord_of_isDigit
    (Nat.isDigit_of_mem_toDigits (by decide) (by decide) hc)) (ofWord?_toDigits whole)

/-- The characters of a word can be checked one by one. -/
theorem inWord_of_all {word : List Char}
    (h : (word.all fun c =>
      decide (c.toNat < 0x80) && !Lexer.endsWord (UInt8.ofNat c.toNat)) = true) :
    ∀ c ∈ word, c.toNat < 0x80 ∧ Lexer.endsWord (UInt8.ofNat c.toNat) = false := by
  simpa using h

theorem lexes_null : Lexes (Utf8.bytes (scalarChars .null)) [.null] :=
  lexes_word (by decide) (inWord_of_all (by decide)) rfl

theorem lexes_bool (b : Bool) : Lexes (Utf8.bytes (scalarChars (.bool b))) [.bool b] := by
  cases b <;> exact lexes_word (by decide) (inWord_of_all (by decide)) rfl

/-! ### Values -/

theorem Lexes.cons_newline {bytes : Bytes} {toks : List Token} (level : Nat)
    (h : Lexes bytes toks) : Lexes (Utf8.bytes (newline level) ++ bytes) toks := by
  have hspaces (n : Nat) : Lexes (Utf8.bytes (List.replicate n ' ') ++ bytes) toks := by
    induction n with
    | zero => exact h
    | succ n ih =>
      rw [List.replicate_succ, Utf8.bytes_cons_of_lt (by decide)]
      exact ih.cons_blank (by decide)
  rw [newline, Utf8.bytes_cons_of_lt (by decide)]
  exact (hspaces _).cons_blank (by decide)

/-- The first member, further members and the closing mark on a line of its own. -/
theorem Lexes.members {first others : Bytes} {toks toks' : List Token} {b : UInt8} {token : Token}
    (level : Nat) (h : Lexes first toks) (h' : Lexes others toks')
    (hothers : others.head?.all Lexer.endsWord = true) (hb : Token.mark? b = some token) :
    Lexes (first ++ (others ++ (Utf8.bytes (newline level) ++ [b])))
      (toks ++ (toks' ++ [token])) := by
  have hline : (Utf8.bytes (newline level) ++ [b]).head? = some 10 := by
    rw [newline, Utf8.bytes_cons_of_lt (by decide)]
    rfl
  have hclose : Lexes (Utf8.bytes (newline level) ++ [b]) [token] :=
    (Lexes.nil.cons_mark hb).cons_newline level
  refine h.append (h'.append hclose (by rw [hline]; rfl)) ?_
  rw [List.head?_append, hline]
  -- Where nothing follows, the newline does.
  cases hhead : others.head? with
  | none => rfl
  | some c => simpa [hhead] using hothers

/-- The text of a field. -/
theorem Lexes.field {bytes : Bytes} {toks : List Token} (key : String) (h : Lexes bytes toks) :
    Lexes (Utf8.bytes (quote key) ++ 58 :: 32 :: bytes) (.string (some key) :: .colon :: toks) :=
  (lexes_quote key).append ((h.cons_blank (by decide)).cons_mark rfl) rfl

theorem head?_prettyItems (level : Nat) (items : List Json) :
    (Utf8.bytes (prettyItems level items)).head?.all Lexer.endsWord = true := by
  cases items with
  | nil => rfl
  | cons item rest =>
    rw [prettyItems, Utf8.bytes_cons_of_lt (by decide)]
    rfl

theorem head?_prettyFields (level : Nat) (fields : List (String × Json)) :
    (Utf8.bytes (prettyFields level fields)).head?.all Lexer.endsWord = true := by
  cases fields with
  | nil => rfl
  | cons field rest =>
    rw [prettyFields, Utf8.bytes_cons_of_lt (by decide)]
    rfl

mutual

theorem lexes_prettyChars (level : Nat) : (v : Json) → v.isPlain = true →
    Lexes (Utf8.bytes (prettyChars level v)) v.tokens
  | .null, _ => lexes_null
  | .bool b, _ => lexes_bool b
  | .number n, h => lexes_number (by simpa [isPlain] using h)
  | .string text, _ => lexes_quote text
  | .array [], _ => (Lexes.nil.cons_mark rfl).cons_mark rfl
  | .array (item :: rest), h => by
    simp only [isPlain, itemsPlain, Bool.and_eq_true] at h
    have hmembers := (lexes_prettyChars (level + 1) item h.1).members level
      (lexes_prettyItems (level + 1) rest h.2) (head?_prettyItems _ _) (b := 93) rfl
    have harray := (hmembers.cons_newline (level + 1)).cons_mark (b := 91) rfl
    simpa [prettyChars, tokens, Utf8.bytes_cons_of_lt] using harray
  | .object [], _ => (Lexes.nil.cons_mark rfl).cons_mark rfl
  | .object ((key, value) :: rest), h => by
    simp only [isPlain, fieldsPlain, Bool.and_eq_true] at h
    have hmembers := ((lexes_prettyChars (level + 1) value h.1).members level
      (lexes_prettyFields (level + 1) rest h.2) (head?_prettyFields _ _) (b := 125) rfl).field key
    have hobject := (hmembers.cons_newline (level + 1)).cons_mark (b := 123) rfl
    simpa [prettyChars, tokens, Utf8.bytes_cons_of_lt] using hobject

theorem lexes_prettyItems (level : Nat) : (items : List Json) → itemsPlain items = true →
    Lexes (Utf8.bytes (prettyItems level items)) (itemTokens items)
  | [], _ => .nil
  | item :: rest, h => by
    simp only [itemsPlain, Bool.and_eq_true] at h
    have hitems := (lexes_prettyChars level item h.1).append (lexes_prettyItems level rest h.2)
      (head?_prettyItems level rest)
    have hcomma := (hitems.cons_newline level).cons_mark (b := 44) rfl
    simpa [prettyItems, itemTokens, Utf8.bytes_cons_of_lt] using hcomma

theorem lexes_prettyFields (level : Nat) : (fields : List (String × Json)) →
    fieldsPlain fields = true → Lexes (Utf8.bytes (prettyFields level fields)) (fieldTokens fields)
  | [], _ => .nil
  | (key, value) :: rest, h => by
    simp only [fieldsPlain, Bool.and_eq_true] at h
    have hfields := ((lexes_prettyChars level value h.1).append (lexes_prettyFields level rest h.2)
      (head?_prettyFields level rest)).field key
    have hcomma := (hfields.cons_newline level).cons_mark (b := 44) rfl
    simpa [prettyFields, fieldTokens, Utf8.bytes_cons_of_lt] using hcomma

end

end JvmThrows.Json
