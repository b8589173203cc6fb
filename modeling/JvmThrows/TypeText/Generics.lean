import JvmThrows.Text.Blank

/-!
# Type arguments in type text

`splitGenerics` takes every `<...>` group out of a type text and keeps the arguments of the first
group that stands at the outermost level. Brackets need not be balanced.
-/

namespace JvmThrows.TypeText

open Text

/-- Where a scan over type text stands. Texts are kept in reverse. -/
structure Scan where
  /-- Characters outside all groups. -/
  base : List Char := []
  /-- Arguments of the first group that are complete, the last one first. -/
  args : List (List Char) := []
  /-- The argument being read. -/
  current : List Char := []
  /-- Number of open groups. -/
  depth : Nat := 0
  /-- Whether the first outermost group has not been closed yet. -/
  inFirst : Bool := true

namespace Scan

def pushArg (s : Scan) : Scan :=
  if s.inFirst then { s with args := trim s.current.reverse :: s.args, current := [] } else s

def keep (s : Scan) (c : Char) : Scan :=
  if s.inFirst then { s with current := c :: s.current } else s

def step (s : Scan) (c : Char) : Scan :=
  match s.depth with
  | 0 =>
    if c = '<' then { s with depth := 1 } else { s with base := c :: s.base }
  | depth + 1 =>
    if c = '<' then { s.keep c with depth := depth + 2 }
    else if c = '>' then
      match depth with
      | 0 => { s.pushArg with depth := 0, inFirst := false }
      | depth + 1 => { s.keep c with depth := depth + 1 }
    else if c = ',' ∧ depth = 0 then s.pushArg
    else s.keep c

end Scan

/-- The text outside all groups, and the trimmed arguments of the first group that are not empty. -/
def splitGenerics (text : List Char) : List Char × List (List Char) :=
  let s := text.foldl Scan.step {}
  (s.base.reverse, s.args.reverse.filter fun arg => !arg.isEmpty)

theorem Scan.length_base_step_le (s : Scan) (c : Char) :
    (s.step c).base.length ≤ s.base.length + 1 := by
  unfold Scan.step Scan.keep Scan.pushArg
  split
  · split <;> simp
  · repeat' split
    all_goals simp

/-- Taking the groups out makes no text longer. -/
theorem length_splitGenerics_le (text : List Char) :
    (splitGenerics text).1.length ≤ text.length := by
  suffices h : ∀ s : Scan, (text.foldl Scan.step s).base.length ≤ s.base.length + text.length by
    simpa [splitGenerics] using h {}
  induction text with
  | nil => simp
  | cons c cs ih =>
    intro s
    have h1 := ih (s.step c)
    have h2 := s.length_base_step_le c
    simp only [List.foldl_cons, List.length_cons]
    omega

/-- After `n` characters: an argument is being read only in an open first group, and every argument,
complete or not, is shorter than what has been read. -/
def Scan.Within (s : Scan) (n : Nat) : Prop :=
  (s.depth = 0 ∨ s.inFirst = false → s.current = []) ∧ (0 < s.depth → s.current.length < n) ∧
    (∀ arg ∈ s.args, arg.length < n)

theorem Scan.Within.keep {s : Scan} {n d : Nat} (h : s.Within n) (hd : 0 < s.depth) (c : Char) :
    Scan.Within { s.keep c with depth := d + 1 } (n + 1) := by
  obtain ⟨h0, h1, h2⟩ := h
  have hcur := h1 hd
  unfold Scan.keep
  cases hf : s.inFirst
  · exact ⟨fun _ => h0 (.inr hf), fun _ => by simp; omega, fun a ha => Nat.lt_succ_of_lt (h2 a ha)⟩
  · exact ⟨by simp, fun _ => by simp; omega, fun a ha => Nat.lt_succ_of_lt (h2 a ha)⟩

theorem Scan.Within.pushArg {s : Scan} {n : Nat} (h : s.Within n) (hd : 0 < s.depth) :
    s.pushArg.current = [] ∧ ∀ arg ∈ s.pushArg.args, arg.length < n + 1 := by
  obtain ⟨h0, h1, h2⟩ := h
  have hcur := h1 hd
  have htrim := length_trim_le s.current.reverse
  simp only [List.length_reverse] at htrim
  unfold Scan.pushArg
  cases hf : s.inFirst
  · exact ⟨h0 (.inr hf), fun a ha => Nat.lt_succ_of_lt (h2 a ha)⟩
  · refine ⟨rfl, fun a ha => ?_⟩
    rcases List.mem_cons.1 ha with rfl | ha
    · omega
    · exact Nat.lt_succ_of_lt (h2 a ha)

theorem Scan.Within.step {s : Scan} {n : Nat} (h : s.Within n) (c : Char) :
    (s.step c).Within (n + 1) := by
  have hargs : ∀ arg ∈ s.args, arg.length < n + 1 := fun a ha => Nat.lt_succ_of_lt (h.2.2 a ha)
  cases hd : s.depth with
  | zero =>
    have hcur := h.1 (.inl hd)
    unfold Scan.step
    rw [hd]
    simp only
    split
    · exact ⟨fun _ => hcur, fun _ => by simp [hcur], hargs⟩
    · exact ⟨fun _ => hcur, fun h' => absurd h' (by simp), hargs⟩
  | succ d =>
    have hpos : 0 < s.depth := by omega
    obtain ⟨hcur, hpush⟩ := h.pushArg hpos
    have hsame : ∀ t : Scan, t.depth = s.depth → t = { t with depth := d + 1 } := by
      rintro ⟨⟩ ht
      simpa [hd] using ht
    unfold Scan.step
    rw [hd]
    simp only
    split
    · exact h.keep hpos c
    · split
      · split
        · exact ⟨fun _ => hcur, by simp, hpush⟩
        · exact h.keep hpos c
      · split
        · exact ⟨fun _ => hcur, fun _ => by simp [hcur], hpush⟩
        · rw [hsame (s.keep c) (by unfold Scan.keep; split <;> rfl)]
          exact h.keep hpos c

theorem Scan.Within.foldl {s : Scan} {n : Nat} (h : s.Within n) (text : List Char) :
    (text.foldl Scan.step s).Within (n + text.length) := by
  induction text generalizing s n with
  | nil => exact h
  | cons c cs ih =>
    have := ih (h.step c)
    simpa [Nat.add_comm, Nat.add_left_comm] using this

/-- Every type argument is shorter than the text it stands in. -/
theorem length_lt_of_mem_splitGenerics {text arg : List Char} (h : arg ∈ (splitGenerics text).2) :
    arg.length < text.length := by
  have h0 : Scan.Within {} 0 := ⟨fun _ => rfl, by simp, by simp⟩
  have hw := (h0.foldl text).2.2
  simp only [splitGenerics, List.mem_filter, List.mem_reverse] at h
  simpa using hw arg h.1

end JvmThrows.TypeText
