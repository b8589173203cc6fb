import JvmThrows.Proofs.ConstantPools

/-!
# Texts in modified UTF-8

The text of a constant is read as plain UTF-8 if it can be, and otherwise code unit by code unit
(`units?`), where surrogates are put together afterwards (`chars?`). `Form` has the bytes that a
code unit may be written as, and `units?` reads the sequences of such forms and nothing else
(`units?_eq_some_iff`). Every character of the prescribed encoding is one or two forms, and of plain
UTF-8 only NUL and the characters beyond the basic plane are not: so wherever both ways of reading
come to an end they agree (`chars?_of_units?_bytes`), and it does not matter which one is tried
first.
-/

namespace JvmThrows.ModifiedUtf8

section Defs

/-- The bytes that a code unit may be written as, not always the fewest. -/
inductive Form : Nat → Bytes → Prop
  | one {a : UInt8} (ha : 0 < a.toNat ∧ a.toNat < 0x80) : Form a.toNat [a]
  | two {a b : UInt8} {y : Nat} (ha : 0xC0 ≤ a.toNat ∧ a.toNat < 0xE0) (hb : tail? b = some y) :
    Form ((a.toNat - 0xC0) * 0x40 + y) [a, b]
  | three {a b c : UInt8} {y z : Nat} (ha : 0xE0 ≤ a.toNat ∧ a.toNat < 0xF0)
    (hb : tail? b = some y) (hc : tail? c = some z) :
    Form (((a.toNat - 0xE0) * 0x40 + y) * 0x40 + z) [a, b, c]

/-- One form after the other. -/
inductive Forms : List Nat → Bytes → Prop
  | nil : Forms [] []
  | cons {u : Nat} {us : List Nat} {front rest : Bytes} (hu : Form u front) (hus : Forms us rest) :
    Forms (u :: us) (front ++ rest)

end Defs

variable {a b : UInt8} {bytes front rest : Bytes} {u y : Nat} {us : List Nat} {c : Char}
  {chars text : List Char}

/-! ### Code units -/

theorem tail?_eq_some_iff :
    tail? b = some y ↔ 0x80 ≤ b.toNat ∧ b.toNat < 0xC0 ∧ y = b.toNat - 0x80 := by
  unfold tail?
  split
  · rw [Option.some.injEq]
    omega
  · simp only [reduceCtorEq, false_iff]
    omega

theorem tail?_ofNat (hy : y < 0x40) : tail? (UInt8.ofNat (0x80 + y)) = some y := by
  rw [tail?_eq_some_iff, UInt8.toNat_ofNat']
  omega

/-- A form is read whatever follows it. -/
theorem Form.units?_append (h : Form u front) (rest : Bytes) :
    units? (front ++ rest) = (units? rest).map (u :: ·) := by
  cases h with
  | @one a ha =>
    rw [List.singleton_append, units?.eq_def]
    simp only [if_neg (Nat.ne_of_gt ha.1), if_pos ha.2]
  | @two a b y ha hb =>
    rw [List.cons_append, List.singleton_append, units?]
    have h0 : ¬ a.toNat = 0 := by omega
    have h1 : ¬ a.toNat < 0x80 := by omega
    simp only [if_neg h0, if_neg h1, if_pos ha, hb]
  | @three a b c y z ha hb hc =>
    rw [List.cons_append, List.cons_append, List.singleton_append, units?]
    have h0 : ¬ a.toNat = 0 := by omega
    have h1 : ¬ a.toNat < 0x80 := by omega
    have h2 : ¬ (0xC0 ≤ a.toNat ∧ a.toNat < 0xE0) := by omega
    simp only [if_neg h0, if_neg h1, if_neg h2, if_pos ha, hb, hc]

theorem forms_of_units? (h : units? bytes = some us) : Forms us bytes := by
  fun_induction units? bytes generalizing us with
  | case1 =>
    cases h
    exact .nil
  | case3 a rest n h0 h1 =>
    rename_i ih
    obtain ⟨us, hus, rfl⟩ := Option.map_eq_some_iff.1 h
    exact .cons (.one ⟨Nat.pos_of_ne_zero h0, h1⟩) (ih hus)
  | case4 a n _ _ ha b rest y hb =>
    rename_i ih
    obtain ⟨us, hus, rfl⟩ := Option.map_eq_some_iff.1 h
    exact .cons (.two ha hb) (ih hus)
  | case7 a n _ _ _ ha b c rest y z hc hb =>
    rename_i ih
    obtain ⟨us, hus, rfl⟩ := Option.map_eq_some_iff.1 h
    exact .cons (.three ha hb hc) (ih hus)
  | case2 | case5 | case6 | case8 | case9 | case10 => cases h

/-- What is read are the sequences of forms. -/
theorem units?_eq_some_iff : units? bytes = some us ↔ Forms us bytes := by
  refine ⟨forms_of_units?, fun h => ?_⟩
  induction h with
  | nil => rfl
  | cons hu _ ih => rw [hu.units?_append, ih, Option.map_some]

/-- No byte of a form is zero, and none begins a sequence of four. -/
theorem Form.ne_zero_and_lt (h : Form u front) (hb : b ∈ front) : b ≠ 0 ∧ b < 0xF0 := by
  have hbounds : 0 < b.toNat ∧ b.toNat < 0xF0 := by
    cases h with
    | one ha =>
      obtain rfl := List.mem_singleton.1 hb
      omega
    | two ha hy =>
      rw [tail?_eq_some_iff] at hy
      simp only [List.mem_cons, List.not_mem_nil, or_false] at hb
      rcases hb with rfl | rfl <;> omega
    | three ha hy hz =>
      rw [tail?_eq_some_iff] at hy hz
      simp only [List.mem_cons, List.not_mem_nil, or_false] at hb
      rcases hb with rfl | rfl | rfl <;> omega
  refine ⟨?_, UInt8.lt_iff_toNat_lt.2 hbounds.2⟩
  rintro rfl
  exact absurd hbounds.1 (by decide)

theorem Forms.ne_zero_and_lt (h : Forms us bytes) (hb : b ∈ bytes) : b ≠ 0 ∧ b < 0xF0 := by
  induction h with
  | nil => cases hb
  | cons hu _ ih =>
    rcases List.mem_append.1 hb with hb | hb
    · exact hu.ne_zero_and_lt hb
    · exact ih hb

theorem form_encodeUnit (hu : u < 0x10000) : Form u (encodeUnit u) := by
  unfold encodeUnit
  split
  · have ha : (UInt8.ofNat u).toNat = u := by
      rw [UInt8.toNat_ofNat']
      omega
    have hform := Form.one (a := UInt8.ofNat u) (by omega)
    rwa [ha] at hform
  · split
    · have ha : (UInt8.ofNat (0xC0 + u / 0x40)).toNat = 0xC0 + u / 0x40 := by
        rw [UInt8.toNat_ofNat']
        omega
      have hform := Form.two (a := UInt8.ofNat (0xC0 + u / 0x40)) (by omega)
        (tail?_ofNat (y := u % 0x40) (by omega))
      have hvalue : (0xC0 + u / 0x40 - 0xC0) * 0x40 + u % 0x40 = u := by omega
      rwa [ha, hvalue] at hform
    · have ha : (UInt8.ofNat (0xE0 + u / 0x1000)).toNat = 0xE0 + u / 0x1000 := by
        rw [UInt8.toNat_ofNat']
        omega
      have hform := Form.three (a := UInt8.ofNat (0xE0 + u / 0x1000)) (by omega)
        (tail?_ofNat (y := u / 0x40 % 0x40) (by omega)) (tail?_ofNat (y := u % 0x40) (by omega))
      have hvalue :
          ((0xE0 + u / 0x1000 - 0xE0) * 0x40 + u / 0x40 % 0x40) * 0x40 + u % 0x40 = u := by
        omega
      rwa [ha, hvalue] at hform

theorem forms_flatMap_encodeUnit (h : ∀ u ∈ us, u < 0x10000) :
    Forms us (us.flatMap encodeUnit) := by
  induction us with
  | nil => exact .nil
  | cons u us ih =>
    rw [List.flatMap_cons]
    exact .cons (form_encodeUnit (h u List.mem_cons_self))
      (ih fun v hv => h v (List.mem_cons_of_mem u hv))

/-! ### Characters -/

theorem isValidChar_toNat (c : Char) : c.toNat < 0xD800 ∨ 0xDFFF < c.toNat ∧ c.toNat < 0x110000 :=
  c.valid

theorem unitsOf_of_lt (h : c.toNat < 0x10000) : unitsOf c = [c.toNat] := if_pos h

theorem unitsOf_of_le (h : 0x10000 ≤ c.toNat) :
    unitsOf c = [0xD800 + (c.toNat - 0x10000) / 0x400, 0xDC00 + (c.toNat - 0x10000) % 0x400] :=
  if_neg (Nat.not_lt.2 h)

theorem lt_of_mem_unitsOf (h : u ∈ unitsOf c) : u < 0x10000 := by
  have hc := isValidChar_toNat c
  rcases Nat.lt_or_ge c.toNat 0x10000 with hlt | hle
  · rw [unitsOf_of_lt hlt, List.mem_singleton] at h
    omega
  · simp only [unitsOf_of_le hle, List.mem_cons, List.not_mem_nil, or_false] at h
    omega

/-- The units of a character are put together whatever follows them. -/
theorem chars?_unitsOf_append (c : Char) (us : List Nat) :
    chars? (unitsOf c ++ us) = (chars? us).map (c :: ·) := by
  have hc := isValidChar_toNat c
  rcases Nat.lt_or_ge c.toNat 0x10000 with hlt | hle
  · have hlow : ¬ (0xDC00 ≤ c.toNat ∧ c.toNat < 0xE000) := by omega
    have hhigh : ¬ (0xD800 ≤ c.toNat ∧ c.toNat < 0xDC00) := by omega
    rw [unitsOf_of_lt hlt, List.singleton_append, chars?.eq_def]
    simp only [if_neg hlow, if_neg hhigh, Char.ofNat_toNat]
  · -- The first unit starts a pair, the second one ends it, and together they give the character.
    have hlow : ¬ (0xDC00 ≤ 0xD800 + (c.toNat - 0x10000) / 0x400 ∧
        0xD800 + (c.toNat - 0x10000) / 0x400 < 0xE000) := by omega
    have hhigh : 0xD800 ≤ 0xD800 + (c.toNat - 0x10000) / 0x400 ∧
        0xD800 + (c.toNat - 0x10000) / 0x400 < 0xDC00 := by omega
    have hpair : 0xDC00 ≤ 0xDC00 + (c.toNat - 0x10000) % 0x400 ∧
        0xDC00 + (c.toNat - 0x10000) % 0x400 < 0xE000 := by omega
    have hvalue : 0x10000 + (0xD800 + (c.toNat - 0x10000) / 0x400 - 0xD800) * 0x400 +
        (0xDC00 + (c.toNat - 0x10000) % 0x400 - 0xDC00) = c.toNat := by omega
    rw [unitsOf_of_le hle, List.cons_append, List.singleton_append, chars?.eq_def]
    simp only [if_neg hlow, if_pos hhigh, if_pos hpair, hvalue, Char.ofNat_toNat]

theorem chars?_flatMap_unitsOf (text : List Char) : chars? (text.flatMap unitsOf) = some text := by
  induction text with
  | nil => rfl
  | cons c text ih => rw [List.flatMap_cons, chars?_unitsOf_append, ih, Option.map_some]

theorem forms_encode (text : List Char) : Forms (text.flatMap unitsOf) (encode text) := by
  rw [encode, ← List.flatMap_assoc]
  refine forms_flatMap_encodeUnit fun u hu => ?_
  obtain ⟨c, -, hu⟩ := List.mem_flatMap.1 hu
  exact lt_of_mem_unitsOf hu

/-! ### Plain UTF-8 -/

/-- Both encodings agree on the basic plane, but for NUL. -/
theorem utf8EncodeChar_eq_encodeUnit (h0 : 0 < c.toNat) (h : c.toNat < 0x10000) :
    String.utf8EncodeChar c = encodeUnit c.toNat := by
  rcases Nat.lt_or_ge c.toNat 0x80 with h1 | h1
  · rw [Utf8.utf8EncodeChar_of_lt h1, encodeUnit, if_pos ⟨h0, h1⟩]
  · rw [encodeUnit, if_neg fun hlt => absurd hlt.2 (Nat.not_lt.2 h1)]
    rcases Nat.lt_or_ge c.toNat 0x800 with h2 | h2
    · have ha : c.toNat / 0x40 % 0x20 = c.toNat / 0x40 := by omega
      rw [Utf8.utf8EncodeChar_of_two h1 h2, if_pos h2, ha, Nat.add_comm _ 0xC0, Nat.add_comm _ 0x80]
    · have ha : c.toNat / 0x1000 % 0x10 = c.toNat / 0x1000 := by omega
      rw [Utf8.utf8EncodeChar_of_three h2 h, if_neg (Nat.not_lt.2 h2), ha, Nat.add_comm _ 0xE0,
        Nat.add_comm (c.toNat / 0x40 % 0x40), Nat.add_comm (c.toNat % 0x40)]

/-- The first byte of a character beyond the basic plane starts no form. -/
theorem not_forms_utf8EncodeChar (h : 0x10000 ≤ c.toNat) :
    ¬ Forms us (String.utf8EncodeChar c ++ rest) := by
  intro hforms
  obtain ⟨others, hbytes⟩ := Utf8.utf8EncodeChar_of_four h
  rw [hbytes, List.cons_append] at hforms
  have hlt := UInt8.lt_iff_toNat_lt.1 (hforms.ne_zero_and_lt List.mem_cons_self).2
  have hbound : (0xF0 : UInt8).toNat = 0xF0 := rfl
  rw [UInt8.toNat_ofNat', hbound] at hlt
  omega

/-- Where plain UTF-8 can be read unit by unit, the result is the same. -/
theorem chars?_of_units?_bytes (h : units? (Utf8.bytes text) = some us) :
    chars? us = some text := by
  induction text generalizing us with
  | nil =>
    cases h
    rfl
  | cons c text ih =>
    -- NUL and what lies beyond the basic plane are no forms, so that `c` is one code unit.
    have hforms := units?_eq_some_iff.1 h
    rw [Utf8.bytes_cons] at h hforms
    have h0 : 0 < c.toNat := by
      refine Nat.pos_of_ne_zero fun hc => ?_
      rw [Utf8.utf8EncodeChar_of_lt (by omega), hc] at hforms
      exact (hforms.ne_zero_and_lt List.mem_cons_self).1 rfl
    rcases Nat.lt_or_ge c.toNat 0x10000 with hlt | hle
    · rw [utf8EncodeChar_eq_encodeUnit h0 hlt, (form_encodeUnit hlt).units?_append] at h
      obtain ⟨us, hus, rfl⟩ := Option.map_eq_some_iff.1 h
      have hchars := chars?_unitsOf_append c us
      rwa [unitsOf_of_lt hlt, ih hus] at hchars
    · exact absurd hforms (not_forms_utf8EncodeChar hle)

/-- The two ways of reading never disagree. -/
theorem toList_eq_of_fromUTF8? {text : String}
    (h : String.fromUTF8? ⟨bytes.toArray⟩ = some text)
    (hslow : (units? bytes).bind chars? = some chars) : text.toList = chars := by
  obtain ⟨us, hus, hchars⟩ := Option.bind_eq_some_iff.1 hslow
  rw [Utf8.eq_bytes_of_fromUTF8? h] at hus
  exact Option.some.inj ((chars?_of_units?_bytes hus).symm.trans hchars)

/-! ### Both ways together -/

theorem decode_of_units? (h : (units? bytes).bind chars? = some chars) :
    decode bytes = .ok (String.ofList chars) := by
  unfold decode
  cases htext : String.fromUTF8? ⟨bytes.toArray⟩ with
  | none => simp only [h]
  | some text =>
    have hchars := toList_eq_of_fromUTF8? htext h
    simp only [h, ← hchars, String.ofList_toList, ite_self]

/-- A text is read from its plain bytes, if it has no NUL, and from forms of its code units. -/
theorem decode_eq_ok_iff {text : String} :
    decode bytes = .ok text ↔
      ('\x00' ∉ text.toList ∧ bytes = Utf8.bytes text.toList) ∨
        ∃ us, Forms us bytes ∧ chars? us = some text.toList := by
  constructor
  · intro h
    cases hslow : (units? bytes).bind chars? with
    | some chars =>
      obtain ⟨us, hus, hchars⟩ := Option.bind_eq_some_iff.1 hslow
      rw [decode_of_units? hslow, Except.ok.injEq] at h
      rw [← h, String.toList_ofList]
      exact .inr ⟨us, units?_eq_some_iff.1 hus, hchars⟩
    | none =>
      -- Only plain UTF-8 is left, and it counts if there is no NUL in it.
      unfold decode at h
      cases hplain : String.fromUTF8? ⟨bytes.toArray⟩ with
      | none => simp only [hplain, hslow, reduceCtorEq] at h
      | some plain =>
        simp only [hplain, hslow] at h
        split at h
        next => cases h
        next hnul =>
          obtain rfl := Except.ok.inj h
          exact .inl ⟨fun hmem => hnul (List.contains_iff_mem.2 hmem),
            Utf8.eq_bytes_of_fromUTF8? hplain⟩
  · rintro (⟨hnul, rfl⟩ | ⟨us, hus, hchars⟩)
    · exact decode_bytes hnul
    · have hread : (units? bytes).bind chars? = some text.toList := by
        rw [units?_eq_some_iff.2 hus, Option.bind_some, hchars]
      rw [decode_of_units? hread, String.ofList_toList]

theorem eq_invalid_of_decode {cause : ClassFileError} (h : decode bytes = .error cause) :
    cause = .invalidModifiedUtf8 := by
  cases hslow : (units? bytes).bind chars? with
  | some chars =>
    rw [decode_of_units? hslow] at h
    cases h
  | none =>
    simp only [decode, hslow] at h
    split at h
    · split at h <;> cases h
      rfl
    · cases h
      rfl

/-- Neither way reads a zero byte. -/
theorem decode_of_zero_mem (h : 0 ∈ bytes) : decode bytes = .error .invalidModifiedUtf8 := by
  cases hdecode : decode bytes with
  | error cause => rw [eq_invalid_of_decode hdecode]
  | ok text =>
    rcases decode_eq_ok_iff.1 hdecode with ⟨hnul, rfl⟩ | ⟨us, hus, -⟩
    · exact absurd (Utf8.nul_mem_of_zero_mem_bytes h) hnul
    · exact absurd rfl (hus.ne_zero_and_lt h).1

/-- **Texts read back, whichever way they are read.** Every text reads back from its modified UTF-8,
in which no byte is zero and none begins a sequence of four, and every text without NUL from its
plain UTF-8. Bytes that can be read both ways give the same text. Bytes with a zero among them
cannot be read. -/
theorem decode_readsBack :
    (∀ text : String, decode (encode text.toList) = .ok text ∧
      ∀ b ∈ encode text.toList, b ≠ 0 ∧ b < 0xF0) ∧
    (∀ text : String, '\x00' ∉ text.toList → decode text.toUTF8.data.toList = .ok text) ∧
    (∀ (bytes : Bytes) (text : String) (chars : List Char),
      String.fromUTF8? ⟨bytes.toArray⟩ = some text → (units? bytes).bind chars? = some chars →
        text.toList = chars) ∧
    ∀ bytes : Bytes, 0 ∈ bytes → decode bytes = .error .invalidModifiedUtf8 := by
  refine ⟨fun text => ⟨?_, fun b => (forms_encode text.toList).ne_zero_and_lt⟩,
    fun text hnul => ?_, fun bytes text chars => toList_eq_of_fromUTF8?,
    fun bytes => decode_of_zero_mem⟩
  · exact decode_eq_ok_iff.2 (.inr ⟨_, forms_encode text.toList, chars?_flatMap_unitsOf _⟩)
  · exact decode_eq_ok_iff.2 (.inl ⟨hnul, Utf8.data_toUTF8 text⟩)

/-- NUL, and characters of one to four bytes, the last of which is two surrogates here. -/
theorem decode_readsBack_mixed :
    encode "a\x00é€😀".toList =
        [0x61, 0xC0, 0x80, 0xC3, 0xA9, 0xE2, 0x82, 0xAC, 0xED, 0xA0, 0xBD, 0xED, 0xB8, 0x80] ∧
      decode (encode "a\x00é€😀".toList) = .ok "a\x00é€😀" ∧
      decode "é€😀".toUTF8.data.toList = .ok "é€😀" ∧
      (units? [0xC3, 0xA9]).bind chars? = some "é".toList ∧
      decode [0xC3, 0xA9, 0x00] = .error .invalidModifiedUtf8 := by
  obtain ⟨hmodified, hplain, hboth, hzero⟩ := decode_readsBack
  have hunits : (units? [0xC3, 0xA9]).bind chars? = some ['é'] := by decide
  have hsame : "é".toList = ['é'] := hboth [0xC3, 0xA9] "é" ['é'] (Utf8.fromUTF8?_bytes "é") hunits
  exact ⟨by decide +kernel, (hmodified _).1, hplain _ (by decide), hsame ▸ hunits,
    hzero _ (by decide)⟩

end JvmThrows.ModifiedUtf8
