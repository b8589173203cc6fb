import JvmThrows.TypeText.Erasure

/-!
# Erasure, hop by hop

Both dialects erase a text along a chain of goals. One equation for a goal that leads to another
one (`Goal.erase_of_next`) and one for a goal that does not (`Goal.erase_of_none`) say all about it,
with `Goal.map_next?` for where a goal leads: to the first bound of a type variable, while hops are
left.
-/

namespace JvmThrows

theorem FieldType.arrayOf_add (type : FieldType) (m n : Nat) :
    type.arrayOf (m + n) = (type.arrayOf n).arrayOf m := by
  induction m with
  | zero => rw [Nat.zero_add, arrayOf]
  | succ m ih => rw [Nat.succ_add, arrayOf, arrayOf, ih]

namespace TypeText

variable {params : List TypeParameter} {bound : String} {bounds : List String} {hops left : Nat}

/-! ### Chains -/

section Chains

variable {α : Type} {size : α → Nat} {next : (a : α) → Option { b : α // size b < size a }}
  {dims : α → Nat} {core : α → FieldType} {a b : α}

/-- What the last value of a chain stands for, with the array dimensions of all values. -/
def eraseChain (size : α → Nat) (next : (a : α) → Option { b : α // size b < size a })
    (dims : α → Nat) (core : α → FieldType) (a : α) : FieldType :=
  (core ((chain size next a).getLastD a)).arrayOf
    (((chain size next a).map dims).foldr (· + ·) 0)

theorem eraseChain_of_none (h : next a = none) :
    eraseChain size next dims core a = (core a).arrayOf (dims a) := by
  simp [eraseChain, chain_of_none h]

theorem eraseChain_of_next (h : (next a).map Subtype.val = some b) :
    eraseChain size next dims core a =
      (eraseChain size next dims core b).arrayOf (dims a) := by
  rw [eraseChain, getLastD_chain_of_next h, chain_of_next h, List.map_cons, List.foldr_cons,
    FieldType.arrayOf_add]
  rfl

/-- Two values with one next value and one core differ in their own dimensions only. -/
theorem eraseChain_of_same {n : Nat} (hnext : (next a).map Subtype.val = (next b).map Subtype.val)
    (hcore : core a = core b) (hdims : dims a = n + dims b) :
    eraseChain size next dims core a = (eraseChain size next dims core b).arrayOf n := by
  -- Either both chains end here, or they go on with the same text.
  cases hb : next b with
  | none =>
    rw [hb] at hnext
    rw [eraseChain_of_none hb, eraseChain_of_none (Option.map_eq_none_iff.1 hnext), hcore, hdims,
      FieldType.arrayOf_add]
  | some c =>
    have hc : (next b).map Subtype.val = some c.1 := by rw [hb, Option.map_some]
    rw [eraseChain_of_next hc, eraseChain_of_next (hnext.trans hc), hdims, FieldType.arrayOf_add]

end Chains

/-! ### Goals -/

/-- From a variable to the first of its bounds: the hops that are left then, and the bound. -/
def hop? : Option (List String) → Nat → Option (Nat × List Char)
  | some (bound :: _), left + 1 => some (left, bound.toList)
  | _, _ => none

theorem hop?_eq_some {found : Option (List String)} (hfound : found = some (bound :: bounds))
    (hhops : hops = left + 1) : hop? found hops = some (left, bound.toList) := by
  rw [hfound, hhops, hop?]

theorem hop?_eq_none {found : Option (List String)}
    (h : ∀ bound bounds left, found = some (bound :: bounds) → hops ≠ left + 1) :
    hop? found hops = none := by
  unfold hop?
  split
  · -- A bound and a hop left, against `h`.
    rename_i bound bounds left
    exact absurd rfl (h bound bounds left rfl)
  · rfl

namespace Java

/-- What a goal is erased to. -/
def Goal.erase (params : List TypeParameter) : Goal → FieldType :=
  eraseChain Goal.hops (Goal.next? params) (fun g => (shape g.text).dims)
    fun g => element params (shape g.text).name

theorem erase_eq (params : List TypeParameter) (text : List Char) :
    erase params text = Goal.erase params ⟨maxBoundDepth, text⟩ := rfl

namespace Goal

variable {g next : Goal}

theorem erase_of_none (h : g.next? params = none) :
    g.erase params = (element params (shape g.text).name).arrayOf (shape g.text).dims :=
  eraseChain_of_none h

theorem erase_of_next (h : (g.next? params).map Subtype.val = some next) :
    g.erase params = (next.erase params).arrayOf (shape g.text).dims :=
  eraseChain_of_next h

theorem map_next? (params : List TypeParameter) (g : Goal) :
    (g.next? params).map Subtype.val =
      if isPlain (shape g.text).name then
        (hop? (boundsOf? params (shape g.text).name) (g.hops - (shape g.text).wildcards)).map
          fun next => ⟨next.1, next.2⟩
      else none := by
  unfold next?
  dsimp only
  split
  · split
    · rename_i bound bounds left hbounds hleft
      rw [hop?_eq_some hbounds hleft]
      rfl
    · rename_i hno
      rw [hop?_eq_none hno]
      rfl
  · rfl

theorem next?_eq_some (hplain : isPlain (shape g.text).name = true)
    (hbounds : boundsOf? params (shape g.text).name = some (bound :: bounds))
    (hleft : g.hops - (shape g.text).wildcards = left + 1) :
    (g.next? params).map Subtype.val = some ⟨left, bound.toList⟩ := by
  rw [map_next?, if_pos hplain, hop?_eq_some hbounds hleft]
  rfl

theorem next?_eq_none (hstop : hop? (boundsOf? params (shape g.text).name)
      (g.hops - (shape g.text).wildcards) = none) : g.next? params = none := by
  refine Option.map_eq_none_iff.1 ((map_next? params g).trans ?_)
  rw [hstop, Option.map_none, ite_self]

end Goal

end Java

namespace Kotlin

/-- What a goal is erased to. -/
def Goal.erase (params : List TypeParameter) : Goal → FieldType :=
  eraseChain Goal.hops (Goal.next? params) Goal.dims
    fun g => element params (g.boxed || g.dims != 0) g.inner

theorem erase_eq (params : List TypeParameter) (text : List Char) :
    erase params text = Goal.erase params ⟨maxBoundDepth, false, text⟩ := rfl

namespace Goal

variable {g next : Goal}

theorem erase_of_none (h : g.next? params = none) :
    g.erase params = (element params (g.boxed || g.dims != 0) g.inner).arrayOf g.dims :=
  eraseChain_of_none h

theorem erase_of_next (h : (g.next? params).map Subtype.val = some next) :
    g.erase params = (next.erase params).arrayOf g.dims :=
  eraseChain_of_next h

theorem map_next? (params : List TypeParameter) (g : Goal) :
    (g.next? params).map Subtype.val =
      if isPlain g.inner then
        (hop? (boundsOf? params (baseName g.inner)) (g.hops - g.dims)).map
          fun next => ⟨next.1, true, next.2⟩
      else none := by
  unfold next?
  split
  · split
    · rename_i bound bounds left hbounds hleft
      rw [hop?_eq_some hbounds hleft]
      rfl
    · rename_i hno
      rw [hop?_eq_none hno]
      rfl
  · rfl

theorem next?_eq_some (hplain : isPlain g.inner = true)
    (hbounds : boundsOf? params (baseName g.inner) = some (bound :: bounds))
    (hleft : g.hops - g.dims = left + 1) :
    (g.next? params).map Subtype.val = some ⟨left, true, bound.toList⟩ := by
  rw [map_next?, if_pos hplain, hop?_eq_some hbounds hleft]
  rfl

theorem next?_eq_none
    (hstop : hop? (boundsOf? params (baseName g.inner)) (g.hops - g.dims) = none) :
    g.next? params = none := by
  refine Option.map_eq_none_iff.1 ((map_next? params g).trans ?_)
  rw [hstop, Option.map_none, ite_self]

end Goal

end Kotlin

end TypeText

end JvmThrows
