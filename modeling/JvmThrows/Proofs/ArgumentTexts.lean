import JvmThrows.Proofs.TypeArguments

/-!
# The texts that are split off as type arguments

`splitGenerics_group` takes arguments apart that are balanced, trimmed, not empty and without a
comma of their own. Here is the other half: nothing else is ever split off, whatever the text
(`isArgument_of_mem_splitGenerics`). What a scan has read of an argument is balanced up to the inner
groups that are still open (`Open`), which each step keeps (`Scan.Sound.step`). So the arguments of
a group come back as they were written exactly if all of them are arguments
(`splitGenerics_brackets_iff`).
-/

namespace JvmThrows.TypeText

open Text

section Balanced

variable {commas : Bool} {text front back : List Char}

/-- What stands in front without an opening bracket can go. -/
theorem Balanced.of_append_right (h : Balanced commas (front ++ text)) (hfront : '<' ∉ front) :
    Balanced commas text := by
  induction front with
  | nil => exact h
  | cons c front ih =>
    obtain ⟨hc, hrest⟩ := List.ne_and_not_mem_of_not_mem_cons hfront
    refine ih ?_ hrest
    generalize hwhole : c :: front ++ text = whole at h
    cases h with
    | nil => cases hwhole
    | char _ _ _ htail =>
      cases hwhole
      exact htail
    | group => exact absurd (List.cons_eq_cons.1 hwhole).1.symm hc

/-- What stands behind without a closing bracket can go. -/
theorem Balanced.of_append_left (h : Balanced commas (text ++ back)) (hback : '>' ∉ back) :
    Balanced commas text := by
  generalize hwhole : text ++ back = whole at h
  induction h generalizing text with
  | nil =>
    rw [(List.append_eq_nil_iff.1 hwhole).1]
    exact .nil
  | char hopen hclose hcomma _ ih =>
    rcases List.append_eq_cons_iff.1 hwhole with ⟨rfl, -⟩ | ⟨tail, rfl, htail⟩
    · exact .nil
    · exact .char hopen hclose hcomma (ih htail.symm)
  | @group commas inner after hinner _ _ ih =>
    -- The closing bracket of the group is not behind, so the whole group stands in the text.
    rcases List.append_eq_append_iff.1 hwhole with ⟨rest, -, hrest⟩ | ⟨rest, htext, hrest⟩
    · exact absurd (by simp [hrest]) hback
    · rcases List.cons_eq_append_iff.1 hrest with ⟨-, hrest⟩ | ⟨tail, rfl, htail⟩
      · exact absurd (by simp [hrest]) hback
      · rw [htext]
        exact .group hinner (ih htail.symm)

/-- Blanks are no brackets. -/
theorem Balanced.trim (h : Balanced commas text) : Balanced commas (trim text) := by
  obtain ⟨front, back, ⟨hfront, hback⟩, htext⟩ := exists_surrounds_trim text
  rw [htext] at h
  have hopen : '<' ∉ front := fun hmem => absurd (hfront _ hmem) (by decide)
  have hclose : '>' ∉ back := fun hmem => absurd (hback _ hmem) (by decide)
  exact (h.of_append_left hclose).of_append_right hopen

end Balanced

/-- What has been read of an argument while a number of groups in it are open. Commas may stand in
these groups only. -/
inductive Open : Nat → List Char → Prop
  | balanced {text : List Char} : Balanced false text → Open 0 text
  | inner {depth : Nat} {text inner : List Char} :
    Open depth text → Balanced true inner → Open (depth + 1) (text ++ '<' :: inner)

section Open

variable {depth : Nat} {commas : Bool} {text more : List Char}

theorem Open.append (h : Open depth text) (hmore : Balanced commas more)
    (hcommas : commas = true → 0 < depth) : Open depth (text ++ more) := by
  cases h with
  | balanced htext =>
    cases commas with
    | false => exact .balanced (htext.append hmore)
    | true => exact absurd (hcommas rfl) (Nat.lt_irrefl 0)
  | inner htext hinner =>
    rw [List.append_assoc, List.cons_append]
    exact .inner htext (hinner.append hmore.weaken)

/-- The group opened last ends and is part of what is around it. -/
theorem Open.close (h : Open (depth + 1) text) : Open depth (text ++ ['>']) := by
  cases h with
  | @inner _ text inner htext hinner =>
    have hgroup : Balanced false ('<' :: inner ++ ['>']) := .group hinner .nil
    rw [List.append_assoc]
    exact htext.append hgroup nofun

theorem Open.balanced_of_zero (h : Open 0 text) : Balanced false text := by
  cases h with
  | balanced htext => exact htext

end Open

namespace Scan

/-- What holds of a scan at every character: complete arguments are balanced and trimmed, and the
one being read, if any, has as many groups open as the scan has around it. -/
structure Sound (s : Scan) : Prop where
  args : ∀ arg ∈ s.args, Balanced false arg ∧ Trimmed arg
  outside : s.depth = 0 ∨ s.inFirst = false → s.current = []
  inside : s.inFirst = true → ∀ depth, s.depth = depth + 1 → Open depth s.current.reverse

section Sound

variable {s : Scan} {depth depth' : Nat} {text : List Char}

/-- Nothing has been read of an argument, as in front of a group, after a comma and behind a
group. -/
theorem Sound.of_current_nil (hargs : ∀ arg ∈ s.args, Balanced false arg ∧ Trimmed arg)
    (hcurrent : s.current = []) (hdepth : s.depth ≤ 1) : s.Sound where
  args := hargs
  outside _ := hcurrent
  inside := by
    intro _ depth hd
    obtain rfl : depth = 0 := by omega
    rw [hcurrent]
    exact .balanced .nil

/-- A scan in a group collects text. -/
theorem Sound.collect (h : s.Sound) (hdepth : s.depth = depth + 1)
    (hopen : ∀ read, Open depth read → Open depth' (read ++ text)) :
    ((s.collect text).atDepth (depth' + 1)).Sound where
  args := h.args
  outside := by
    rintro (hzero | hfirst)
    · cases hzero
    · have hfirst : s.inFirst = false := hfirst
      simp [Scan.collect, atDepth, hfirst, h.outside (.inr hfirst)]
  inside := by
    intro hfirst d hd
    have hfirst : s.inFirst = true := hfirst
    obtain rfl : depth' = d := Nat.succ.inj hd
    have hcurrent : ((s.collect text).atDepth (depth' + 1)).current.reverse =
        s.current.reverse ++ text := by
      simp [Scan.collect, atDepth, hfirst]
    rw [hcurrent]
    exact hopen _ (h.inside hfirst depth hdepth)

/-- An argument of the first group is complete. -/
theorem Sound.pushArg (h : s.Sound) (hdepth : s.depth = 1) :
    (∀ arg ∈ s.pushArg.args, Balanced false arg ∧ Trimmed arg) ∧ s.pushArg.current = [] := by
  unfold Scan.pushArg
  cases hfirst : s.inFirst with
  | false => exact ⟨h.args, h.outside (.inr hfirst)⟩
  | true =>
    have hcurrent : Balanced false s.current.reverse :=
      (h.inside hfirst 0 hdepth).balanced_of_zero
    exact ⟨List.forall_mem_cons.2 ⟨⟨hcurrent.trim, trimmed_trim _⟩, h.args⟩, rfl⟩

theorem depth_pushArg (s : Scan) : s.pushArg.depth = s.depth := by
  unfold pushArg
  split <;> rfl

theorem Sound.step_outside (h : s.Sound) (hdepth : s.depth = 0) (c : Char) : (s.step c).Sound := by
  have hcurrent : s.current = [] := h.outside (.inl hdepth)
  by_cases hopen : c = '<'
  · have hstep : s.step c = s.atDepth 1 := by simp only [step, hdepth, if_pos hopen, atDepth]
    rw [hstep]
    exact .of_current_nil h.args hcurrent (Nat.le_refl 1)
  · have hstep : s.step c = { s with base := c :: s.base } := by
      simp only [step, hdepth, if_neg hopen]
    rw [hstep]
    exact .of_current_nil h.args hcurrent (hdepth ▸ Nat.zero_le 1)

theorem Sound.step_inside (h : s.Sound) (hdepth : s.depth = depth + 1) (c : Char) :
    (s.step c).Sound := by
  by_cases hopen : c = '<'
  · rw [hopen, step_open hdepth]
    exact h.collect hdepth fun read hread => .inner hread .nil
  by_cases hclose : c = '>'
  · cases depth with
    | zero =>
      have hstep : s.step c = { s.pushArg with depth := 0, inFirst := false } := by
        simp only [step, hdepth, if_neg hopen, if_pos hclose]
      obtain ⟨hargs, hcurrent⟩ := h.pushArg hdepth
      rw [hstep]
      exact .of_current_nil hargs hcurrent (Nat.zero_le 1)
    | succ depth =>
      rw [hclose, step_close hdepth]
      exact h.collect hdepth fun read => Open.close
  by_cases hcomma : c = ',' ∧ depth = 0
  · obtain ⟨rfl, rfl⟩ := hcomma
    have hstep : s.step ',' = s.pushArg := by simp [step, hdepth]
    obtain ⟨hargs, hcurrent⟩ := h.pushArg hdepth
    rw [hstep]
    exact .of_current_nil hargs hcurrent (Nat.le_of_eq ((depth_pushArg s).trans hdepth))
  · have hstep : s.step c = s.collect [c] := by
      simp only [step, hdepth, if_neg hopen, if_neg hclose, if_neg hcomma, keep_eq_collect]
    rw [hstep, ← atDepth_collect hdepth]
    refine h.collect hdepth fun read hread => ?_
    -- A comma that is collected stands in an inner group.
    have hchar : Balanced (decide (0 < depth)) [c] := by
      refine .char hopen hclose (fun hc => ?_) .nil
      exact decide_eq_true (Nat.pos_of_ne_zero fun hzero => hcomma ⟨hc, hzero⟩)
    exact hread.append hchar of_decide_eq_true

theorem Sound.step (h : s.Sound) (c : Char) : (s.step c).Sound := by
  cases hdepth : s.depth with
  | zero => exact h.step_outside hdepth c
  | succ depth => exact h.step_inside hdepth c

theorem Sound.foldl (h : s.Sound) (text : List Char) : (text.foldl Scan.step s).Sound := by
  induction text generalizing s with
  | nil => exact h
  | cons c text ih => exact ih (h.step c)

end Sound

end Scan

/-- Whatever the text, only arguments are split off. -/
theorem isArgument_of_mem_splitGenerics {text arg : List Char}
    (h : arg ∈ (splitGenerics text).2) : IsArgument arg := by
  simp only [splitGenerics, List.mem_filter, List.mem_reverse] at h
  obtain ⟨hmem, hne⟩ := h
  have hstart : Scan.Sound {} := .of_current_nil (by simp) rfl (Nat.zero_le 1)
  obtain ⟨hbalanced, htrimmed⟩ := (hstart.foldl text).args arg hmem
  exact ⟨hbalanced, htrimmed, by simpa using hne⟩

/-- **The arguments of a group come apart at the commas between them, and nowhere else.** They come
back as they were written, and the text around the group is left, exactly if each of them is
balanced, trimmed, not empty and without a comma outside its own brackets. -/
theorem splitGenerics_brackets_iff {before after : List Char} {args : List (List Char)}
    (hbefore : '<' ∉ before) (hafter : '<' ∉ after) (hargs : args ≠ []) :
    splitGenerics (before ++ '<' :: [',', ' '].intercalate args ++ '>' :: after) =
      (before ++ after, args) ↔ ∀ arg ∈ args, IsArgument arg := by
  constructor
  · intro hsplit arg harg
    have hmem : arg ∈ (splitGenerics
        (before ++ '<' :: [',', ' '].intercalate args ++ '>' :: after)).2 := by
      rwa [hsplit]
    exact isArgument_of_mem_splitGenerics hmem
  · intro hall
    have htext : before ++ '<' :: [',', ' '].intercalate args ++ '>' :: after =
        before ++ group args ++ after := by
      cases args with
      | nil => exact absurd rfl hargs
      | cons arg args => simp [group]
    rw [htext]
    exact splitGenerics_group hbefore hafter hall

/-- Inner groups and their commas stay with the argument they stand in. -/
theorem splitGenerics_nestedArgument :
    (∀ arg ∈ ["Int".toList, "Map<A, List<B>>".toList], IsArgument arg) ∧
      splitGenerics "Pair<Int, Map<A, List<B>>>?".toList =
        ("Pair?".toList, ["Int".toList, "Map<A, List<B>>".toList]) := by
  have hplain : ∀ text ∈ [['I', 'n', 't'], ['M', 'a', 'p'], ['A'], ['L', 'i', 's', 't'], ['B']],
      Balanced false text := fun text htext => .of_plain (by revert text htext; simp)
  have hlist : Balanced false (['L', 'i', 's', 't'] ++ group [['B']]) :=
    (hplain _ (by simp)).append (balanced_group (by simpa using hplain ['B'] (by simp)))
  have hmap : Balanced false
      (['M', 'a', 'p'] ++ group [['A'], ['L', 'i', 's', 't'] ++ group [['B']]]) := by
    refine (hplain _ (by simp)).append (balanced_group ?_)
    exact List.forall_mem_cons.2 ⟨hplain _ (by simp), List.forall_mem_singleton.2 hlist⟩
  have hargs : ∀ arg ∈ ["Int".toList, "Map<A, List<B>>".toList], IsArgument arg := by
    refine List.forall_mem_cons.2 ⟨?_, List.forall_mem_singleton.2 ?_⟩
    · exact ⟨hplain ['I', 'n', 't'] (by simp), by constructor <;> simp <;> decide, by simp⟩
    · exact ⟨hmap, by constructor <;> simp <;> decide, by simp⟩
  refine ⟨hargs, ?_⟩
  have hsplit := (splitGenerics_brackets_iff
    (by decide : '<' ∉ ['P', 'a', 'i', 'r']) (by decide : '<' ∉ ['?']) (by simp)).2 hargs
  exact hsplit

end JvmThrows.TypeText
