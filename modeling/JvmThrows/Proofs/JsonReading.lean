import JvmThrows.Proofs.JsonText

/-!
# Reading back JSON values

The machine that takes the tokens of a value ends with the value in its place (`takes_tokens`),
whatever is open around it. So a text that was written reads back (`parseBytes?_pretty`).
-/

namespace JvmThrows.Json

namespace Machine

/-- The machine gets from one state to another by taking the tokens. -/
def Takes (toks : List Token) (m m' : Machine) : Prop := toks.foldlM step m = some m'

variable {m m' m'' : Machine} {toks toks' : List Token} {token : Token}

theorem Takes.nil : Takes [] m m := rfl

theorem Takes.cons (h : step m token = some m') (h' : Takes toks m' m'') :
    Takes (token :: toks) m m'' := by
  rw [Takes, List.foldlM_cons, h]
  exact h'

theorem Takes.append (h : Takes toks m m') (h' : Takes toks' m' m'') :
    Takes (toks ++ toks') m m'' := by
  rw [Takes, List.foldlM_append, h]
  exact h'

mutual

/-- Taking the tokens of a value is as good as having the value. -/
theorem takes_tokens (orEnd : Bool) (stack : List Frame) : (v : Json) → v.isPlain = true →
    Takes v.tokens ⟨.value orEnd, stack⟩ (place v stack)
  | .null, _ => .cons rfl .nil
  | .bool _, _ => .cons rfl .nil
  | .number _, _ => .cons rfl .nil
  | .string _, _ => .cons rfl .nil
  | .array [], _ => .cons rfl (.cons rfl .nil)
  | .array (item :: rest), h => by
    simp only [isPlain, itemsPlain, Bool.and_eq_true] at h
    have hitem := takes_tokens true (.array [] :: stack) item h.1
    have hrest := takes_itemTokens [item] stack rest h.2
    have hclose : step ⟨.more, .array (rest.reverse ++ [item]) :: stack⟩ .closeArray =
        some (place (.array (item :: rest)) stack) := by
      simp [step]
    rw [tokens]
    exact .cons rfl (hitem.append (hrest.append (.cons hclose .nil)))
  | .object [], _ => .cons rfl (.cons rfl .nil)
  | .object ((key, value) :: rest), h => by
    simp only [isPlain, fieldsPlain, Bool.and_eq_true] at h
    have hvalue := takes_tokens false (.object [] true key :: stack) value h.1
    obtain ⟨last, hrest⟩ := takes_fieldTokens [(key, value)] key stack rest h.2
    have hclose : step ⟨.more, .object (rest.reverse ++ [(key, value)]) true last :: stack⟩
        .closeObject = some (place (.object ((key, value) :: rest)) stack) := by
      simp [step]
    rw [tokens]
    exact .cons rfl (.cons rfl (.cons rfl (hvalue.append (hrest.append (.cons hclose .nil)))))

/-- Further items come behind those that are there. -/
theorem takes_itemTokens (items : List Json) (stack : List Frame) :
    (rest : List Json) → itemsPlain rest = true →
      Takes (itemTokens rest) ⟨.more, .array items :: stack⟩
        ⟨.more, .array (rest.reverse ++ items) :: stack⟩
  | [], _ => .nil
  | item :: rest, h => by
    simp only [itemsPlain, Bool.and_eq_true] at h
    have hitem := takes_tokens false (.array items :: stack) item h.1
    have hrest := takes_itemTokens (item :: items) stack rest h.2
    rw [itemTokens, List.reverse_cons, List.append_assoc, List.singleton_append]
    exact .cons rfl (hitem.append hrest)

theorem takes_fieldTokens (fields : List (String × Json)) (last : String) (stack : List Frame) :
    (rest : List (String × Json)) → fieldsPlain rest = true →
      ∃ last', Takes (fieldTokens rest) ⟨.more, .object fields true last :: stack⟩
        ⟨.more, .object (rest.reverse ++ fields) true last' :: stack⟩
  | [], _ => ⟨last, .nil⟩
  | (key, value) :: rest, h => by
    simp only [fieldsPlain, Bool.and_eq_true] at h
    have hvalue := takes_tokens false (.object fields true key :: stack) value h.1
    obtain ⟨last', hrest⟩ := takes_fieldTokens ((key, value) :: fields) key stack rest h.2
    refine ⟨last', ?_⟩
    rw [fieldTokens, List.reverse_cons, List.append_assoc, List.singleton_append]
    exact .cons rfl (.cons rfl (.cons rfl (hvalue.append hrest)))

end

end Machine

theorem ofTokens?_tokens {v : Json} (h : v.isPlain = true) : ofTokens? v.tokens = some v := by
  have htaken : v.tokens.foldlM Machine.step {} = some (Machine.place v []) :=
    Machine.takes_tokens false [] v h
  rw [ofTokens?, htaken]
  rfl

/-- What was written, with a line break behind it, reads back. -/
theorem parseBytes?_pretty {v : Json} (h : v.isPlain = true) :
    parseBytes? (v.pretty ++ "\n").toUTF8.toList = some v := by
  have hbytes : (v.pretty ++ "\n").toUTF8.toList = Utf8.bytes (prettyChars 0 v) ++ [10] := by
    rw [Utf8.toList_toUTF8, String.toList_append, Utf8.bytes_append, pretty, String.toList_ofList]
    rfl
  rw [parseBytes?, hbytes, (lexes_prettyChars 0 v h).tokens?_eq (by decide), Option.bind_some,
    ofTokens?_tokens h]

end JvmThrows.Json
