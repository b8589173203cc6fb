import JvmThrows.Proofs.JsonReading

/-!
# Compact JSON texts

The layout without blanks has the tokens of the value, too (`lexes_compactChars`). Nothing follows
such a text, not even a line break; but a blank at the end of a text says nothing
(`tokens?_concat_blank`), so that the text reads back as it stands (`parse?_compact`).
-/

namespace JvmThrows.Json

/-- A blank behind a text makes no difference: it ends a word, as the end of the text does, and no
string. -/
theorem tokens?_concat_blank {b : UInt8} (hb : isJsonBlank b = true) (bytes : Bytes) :
    tokens? (bytes ++ [b]) = tokens? bytes := by
  have hend : Lexer.endsWord b = true := by simp [Lexer.endsWord, hb]
  have hquote : b ≠ 34 := by
    rintro rfl
    cases hb
  have hlast (l : Lexer) : (l.step b).bind Lexer.finish = l.finish := by
    obtain ⟨state, toks⟩ := l
    cases state with
    | between => simp [Lexer.step, Lexer.start, Lexer.finish, hb]
    | word chars =>
      cases hword : Token.ofWord? chars.reverse <;>
        simp [Lexer.step, Lexer.start, Lexer.finish, hb, hend, hword]
    | string body escaped =>
      cases escaped with
      | true => simp [Lexer.step, Lexer.finish]
      | false => by_cases hlow : b < 32 <;> simp [Lexer.step, Lexer.finish, hquote, hlow]
  unfold tokens?
  rw [List.foldlM_append]
  cases bytes.foldlM Lexer.step {} with
  | none => rfl
  | some l => simpa using hlast l

theorem tokens_array (items : List Json) :
    tokens (.array items) = .openArray :: ((itemTokens items).tail ++ [.closeArray]) := by
  cases items with
  | nil => simp [tokens, itemTokens]
  | cons item rest => simp [tokens, itemTokens]

theorem tokens_object (fields : List (String × Json)) :
    tokens (.object fields) = .openObject :: ((fieldTokens fields).tail ++ [.closeObject]) := by
  cases fields with
  | nil => simp [tokens, fieldTokens]
  | cons field rest => simp [tokens, fieldTokens]

/-- Members between an opening and a closing mark. -/
theorem Lexes.enclosed {bytes : Bytes} {toks : List Token} {b c : UInt8} {first last : Token}
    (hb : Token.mark? b = some first) (h : Lexes bytes toks) (hc : Token.mark? c = some last) :
    Lexes (b :: (bytes ++ [c])) (first :: (toks ++ [last])) := by
  refine (h.append (Lexes.nil.cons_mark hc) ?_).cons_mark hb
  simp [Lexer.endsWord, hc]

/-- The text of a field without a blank in it. -/
theorem Lexes.tightField {bytes : Bytes} {toks : List Token} (key : String) (h : Lexes bytes toks) :
    Lexes (Utf8.bytes (quote key) ++ 58 :: bytes) (.string (some key) :: .colon :: toks) :=
  (lexes_quote key).append (h.cons_mark rfl) rfl

mutual

theorem lexes_compactChars : (v : Json) → v.isPlain = true →
    Lexes (Utf8.bytes (compactChars v)) v.tokens
  | .null, _ => lexes_null
  | .bool b, _ => lexes_bool b
  | .number n, h => lexes_number (by simpa [isPlain] using h)
  | .string text, _ => lexes_quote text
  | .array items, h => by
    have hitems := lexes_compactItems items (by simpa [isPlain] using h)
    have harray := Lexes.enclosed (b := 91) rfl hitems (c := 93) rfl
    simpa [compactChars, tokens_array, Utf8.bytes_cons_of_lt] using harray
  | .object fields, h => by
    have hfields := lexes_compactFields fields (by simpa [isPlain] using h)
    have hobject := Lexes.enclosed (b := 123) rfl hfields (c := 125) rfl
    simpa [compactChars, tokens_object, Utf8.bytes_cons_of_lt] using hobject

/-- The first item has no comma in front. -/
theorem lexes_compactItems : (items : List Json) → itemsPlain items = true →
    Lexes (Utf8.bytes (compactItems items)) (itemTokens items).tail
  | [], _ => .nil
  | [item], h => by
    simp only [itemsPlain, Bool.and_true] at h
    simpa [compactItems, itemTokens] using lexes_compactChars item h
  | item :: next :: rest, h => by
    simp only [itemsPlain, Bool.and_eq_true] at h
    have hrest := lexes_compactItems (next :: rest) (by simpa [itemsPlain] using h.2)
    have hitems := (lexes_compactChars item h.1).append (hrest.cons_mark (b := 44) rfl) rfl
    simpa [compactItems, itemTokens, Utf8.bytes_cons_of_lt] using hitems

theorem lexes_compactFields : (fields : List (String × Json)) → fieldsPlain fields = true →
    Lexes (Utf8.bytes (compactFields fields)) (fieldTokens fields).tail
  | [], _ => .nil
  | [(key, value)], h => by
    simp only [fieldsPlain, Bool.and_true] at h
    have hfield := (lexes_compactChars value h).tightField key
    simpa [compactFields, fieldTokens, Utf8.bytes_cons_of_lt] using hfield
  | (key, value) :: next :: rest, h => by
    simp only [fieldsPlain, Bool.and_eq_true] at h
    have hrest := lexes_compactFields (next :: rest) (by simpa [fieldsPlain] using h.2)
    have hfields :=
      ((lexes_compactChars value h.1).append (hrest.cons_mark (b := 44) rfl) rfl).tightField key
    simpa [compactFields, fieldTokens, Utf8.bytes_cons_of_lt] using hfields

end

/-- What was written without blanks reads back. -/
theorem parse?_compact {v : Json} (h : v.isPlain = true) : parse? v.compact = some v := by
  have hbytes : v.compact.toUTF8.data.toList = Utf8.bytes (compactChars v) := by
    rw [Utf8.data_toUTF8, compact, String.toList_ofList]
  have htokens : tokens? (Utf8.bytes (compactChars v)) = some v.tokens := by
    rw [← tokens?_concat_blank (b := 32) rfl]
    exact (lexes_compactChars v h).tokens?_eq rfl
  rw [parse?, parseBytes?, hbytes, htokens, Option.bind_some, ofTokens?_tokens h]

end JvmThrows.Json
