import JvmThrows.TypeText.Generics

/-!
# Type arguments in balanced text

What `splitGenerics` does to text as a program writes it: a name, a group of arguments in angle
brackets, and what follows. `Balanced` is the grammar of what may stand between the brackets. A scan
inside a group only collects such text (`Scan.foldl_balanced`), so that the arguments come apart at
the commas between them and the rest is left (`splitGenerics_group`).
-/

namespace JvmThrows

namespace Text

/-- No blank stands at either end. -/
def Trimmed (s : List Char) : Prop :=
  (∀ c ∈ s.head?, isBlank c = false) ∧ ∀ c ∈ s.getLast?, isBlank c = false

variable {s blanks : List Char}

theorem trimStart_eq_self (h : ∀ c ∈ s.head?, isBlank c = false) : trimStart s = s := by
  cases s with
  | nil => rfl
  | cons c cs => simp [trimStart, h c (by simp)]

theorem trimEnd_eq_self (h : ∀ c ∈ s.getLast?, isBlank c = false) : trimEnd s = s := by
  have hreverse : trimStart s.reverse = s.reverse := by
    refine trimStart_eq_self fun c hc => h c ?_
    rwa [List.head?_reverse] at hc
  rw [trimEnd, ← trimStart, hreverse, List.reverse_reverse]

theorem Trimmed.trim_eq (h : Trimmed s) : trim s = s := by
  rw [trim, trimStart_eq_self h.1, trimEnd_eq_self h.2]

/-- Blanks that stand in front of a text and behind it. -/
def Surrounds (front back : List Char) : Prop :=
  (∀ c ∈ front, isBlank c = true) ∧ ∀ c ∈ back, isBlank c = true

/-- Trimming takes all blanks off. -/
theorem Trimmed.trim_surrounded {front back : List Char} (h : Trimmed s)
    (hblanks : Surrounds front back) : trim (front ++ s ++ back) = s := by
  have hback : ∀ c ∈ back.reverse, isBlank c = true := fun c hc =>
    hblanks.2 c (List.mem_reverse.1 hc)
  have hend : trimEnd (s ++ back) = s := by
    rw [trimEnd, List.reverse_append, List.dropWhile_append_of_pos hback, ← trimEnd,
      trimEnd_eq_self h.2]
  have hstart : trimStart (front ++ s ++ back) = trimStart (s ++ back) := by
    rw [trimStart, List.append_assoc, List.dropWhile_append_of_pos hblanks.1, ← trimStart]
  rw [trim, hstart]
  cases s with
  | nil =>
    -- Between blanks there may be nothing at all.
    have hnone : back.dropWhile isBlank = [] := by
      rw [← List.append_nil back, List.dropWhile_append_of_pos hblanks.2, List.dropWhile_nil]
    rw [trimStart, List.nil_append, hnone]
    rfl
  | cons c s =>
    have hc : isBlank c = false := h.1 c (by simp)
    rw [trimStart, List.cons_append, List.dropWhile_cons_of_neg (by simp [hc])]
    exact hend

/-- Blanks in front go. -/
theorem Trimmed.trim_append (h : Trimmed s) (hblanks : ∀ c ∈ blanks, isBlank c = true) :
    trim (blanks ++ s) = s := by
  have hnone : Surrounds blanks [] := ⟨hblanks, by simp⟩
  simpa using h.trim_surrounded hnone

theorem trimmed_trim (s : List Char) : Trimmed (trim s) := by
  have hend : trim s <+: trimStart s := by
    rw [trim, trimEnd, ← List.reverse_suffix, List.reverse_reverse]
    exact List.dropWhile_suffix _
  have hfirst {t : List Char} {c : Char} (h : c ∈ (t.dropWhile isBlank).head?) :
      isBlank c = false := by
    have hnot := List.head?_dropWhile_not isBlank t
    rwa [Option.mem_def.1 h] at hnot
  constructor
  · intro c hc
    obtain ⟨rest, hrest⟩ := hend
    refine hfirst (t := s) ?_
    rw [← trimStart, ← hrest, List.head?_append, Option.mem_def.1 hc]
    rfl
  · intro c hc
    rw [trim, trimEnd, List.getLast?_reverse] at hc
    exact hfirst hc

/-- What is trimmed off are blanks. -/
theorem exists_surrounds_trim (s : List Char) :
    ∃ front back, Surrounds front back ∧ s = front ++ trim s ++ back := by
  have hblank (t : List Char) : ∀ c ∈ t.takeWhile isBlank, isBlank c = true :=
    List.all_eq_true.1 List.all_takeWhile
  refine ⟨s.takeWhile isBlank, ((trimStart s).reverse.takeWhile isBlank).reverse,
    ⟨hblank s, fun c hc => hblank _ c (List.mem_reverse.1 hc)⟩, ?_⟩
  have hend : trim s ++ ((trimStart s).reverse.takeWhile isBlank).reverse = trimStart s := by
    rw [trim, trimEnd, ← List.reverse_append, List.takeWhile_append_dropWhile,
      List.reverse_reverse]
  rw [List.append_assoc, hend, trimStart, List.takeWhile_append_dropWhile]

end Text

namespace TypeText

open Text

/-- A text whose angle brackets match. Outside of them commas stand only if that is allowed. -/
inductive Balanced : Bool → List Char → Prop
  | nil {commas : Bool} : Balanced commas []
  | char {commas : Bool} {c : Char} {text : List Char} (hopen : c ≠ '<') (hclose : c ≠ '>')
    (hcomma : c = ',' → commas = true) : Balanced commas text → Balanced commas (c :: text)
  | group {commas : Bool} {inner text : List Char} :
    Balanced true inner → Balanced commas text → Balanced commas ('<' :: inner ++ '>' :: text)

/-- A group of type arguments; none at all if there are no arguments. -/
def group : List (List Char) → List Char
  | [] => []
  | arg :: args => '<' :: ([',', ' '].intercalate (arg :: args) ++ ['>'])

/-- A type argument: a balanced text with no comma of its own and no blank at the ends. -/
structure IsArgument (arg : List Char) : Prop where
  balanced : Balanced false arg
  trimmed : Trimmed arg
  ne_nil : arg ≠ []

section Balanced

variable {commas : Bool} {text text' : List Char} {args : List (List Char)}

theorem Balanced.append (h : Balanced commas text) (h' : Balanced commas text') :
    Balanced commas (text ++ text') := by
  induction h with
  | nil => exact h'
  | char hopen hclose hcomma _ ih => exact .char hopen hclose hcomma (ih h')
  | group hinner _ _ ih =>
    rw [List.append_assoc, List.cons_append]
    exact .group hinner (ih h')

theorem Balanced.of_plain (h : ∀ c ∈ text, c ≠ '<' ∧ c ≠ '>' ∧ c ≠ ',') : Balanced commas text := by
  induction text with
  | nil => exact .nil
  | cons c text ih =>
    obtain ⟨⟨hopen, hclose, hcomma⟩, htext⟩ := List.forall_mem_cons.1 h
    exact .char hopen hclose (fun hc => absurd hc hcomma) (ih htext)

/-- With commas outside brackets allowed, there are more such texts. -/
theorem Balanced.weaken (h : Balanced commas text) : Balanced true text := by
  induction h with
  | nil => exact .nil
  | char hopen hclose _ _ ih => exact .char hopen hclose (fun _ => rfl) ih
  | group hinner _ _ ih => exact .group hinner ih

theorem balanced_intercalate (h : ∀ arg ∈ args, Balanced false arg) :
    Balanced true ([',', ' '].intercalate args) := by
  induction args with
  | nil => exact .nil
  | cons arg args ih =>
    obtain ⟨harg, hargs⟩ := List.forall_mem_cons.1 h
    cases args with
    | nil => simpa using harg.weaken
    | cons next args =>
      -- The comma between two arguments is inside the group.
      rw [List.intercalate_cons_cons, List.append_assoc]
      refine harg.weaken.append (.char (by decide) (by decide) (fun _ => rfl) ?_)
      exact .char (by decide) (by decide) (fun _ => rfl) (ih hargs)

theorem balanced_group (h : ∀ arg ∈ args, Balanced false arg) : Balanced commas (group args) := by
  cases args with
  | nil => exact .nil
  | cons arg args => exact .group (balanced_intercalate h) .nil

end Balanced

/-! ### Scans -/

namespace Scan

variable {s : Scan} {commas : Bool} {text : List Char} {depth : Nat}

/-- The scan after a text that was collected as part of an argument. -/
def collect (s : Scan) (text : List Char) : Scan :=
  { s with current := if s.inFirst then text.reverse ++ s.current else s.current }

def atDepth (s : Scan) (depth : Nat) : Scan := { s with depth }

theorem keep_eq_collect (s : Scan) (c : Char) : s.keep c = s.collect [c] := by
  unfold keep collect
  split <;> rfl

theorem collect_collect (s : Scan) (text text' : List Char) :
    (s.collect text).collect text' = s.collect (text ++ text') := by
  unfold collect
  cases s.inFirst <;> simp

theorem collect_atDepth (s : Scan) (text : List Char) (depth : Nat) :
    (s.atDepth depth).collect text = (s.collect text).atDepth depth := rfl

theorem atDepth_collect (hdepth : s.depth = depth) (text : List Char) :
    (s.collect text).atDepth depth = s.collect text := by
  rw [← hdepth]
  rfl

/-- A scan outside all groups goes on up to the next bracket. -/
theorem foldl_outside (h : '<' ∉ text) (hdepth : s.depth = 0) :
    text.foldl step s = { s with base := text.reverse ++ s.base } := by
  induction text generalizing s with
  | nil => rfl
  | cons c text ih =>
    obtain ⟨hc, htext⟩ := List.ne_and_not_mem_of_not_mem_cons h
    have hstep : s.step c = { s with base := c :: s.base } := by
      simp [step, hdepth, Ne.symm hc]
    rw [List.foldl_cons, hstep, ih htext (by exact hdepth)]
    simp

theorem step_open (hdepth : s.depth = depth + 1) :
    s.step '<' = (s.collect ['<']).atDepth (depth + 2) := by
  simp only [step, hdepth, if_true, keep_eq_collect, atDepth]

/-- An inner group ends. -/
theorem step_close (hdepth : s.depth = depth + 2) :
    s.step '>' = (s.collect ['>']).atDepth (depth + 1) := by
  simp only [step, hdepth, keep_eq_collect, atDepth]
  rfl

/-- A scan inside a group collects balanced text. Where a comma would end an argument, the text has
to be without. -/
theorem foldl_balanced (h : Balanced commas text) (hdepth : s.depth = depth + 1)
    (hcommas : commas = true → 0 < depth) : text.foldl step s = s.collect text := by
  induction h generalizing s depth with
  | nil => simp [collect]
  | @char commas c text hopen hclose hcomma _ ih =>
    -- A comma ends an argument only one level deep.
    have hargs : ¬ (c = ',' ∧ depth = 0) := by
      rintro ⟨hc, hzero⟩
      have hpos := hcommas (hcomma hc)
      omega
    have hstep : s.step c = s.collect [c] := by
      simp only [step, hdepth, if_neg hopen, if_neg hclose, if_neg hargs, keep_eq_collect]
    have hrest : text.foldl step (s.collect [c]) = (s.collect [c]).collect text :=
      ih hdepth hcommas
    rw [List.foldl_cons, hstep, hrest, collect_collect]
    rfl
  | @group commas inner text _ _ ihinner ihtext =>
    -- Inside the inner group no comma can end an argument.
    have hinner : inner.foldl step (s.step '<') =
        (s.collect ('<' :: inner)).atDepth (depth + 2) := by
      have hcollect : inner.foldl step ((s.collect ['<']).atDepth (depth + 2)) =
          ((s.collect ['<']).atDepth (depth + 2)).collect inner :=
        ihinner rfl fun _ => Nat.succ_pos depth
      rw [step_open hdepth, hcollect, collect_atDepth, collect_collect]
      rfl
    have hclosed : step ((s.collect ('<' :: inner)).atDepth (depth + 2)) '>' =
        s.collect ('<' :: inner ++ ['>']) := by
      rw [step_close rfl, collect_atDepth, collect_collect]
      exact atDepth_collect hdepth _
    have hrest : text.foldl step (s.collect ('<' :: inner ++ ['>'])) =
        (s.collect ('<' :: inner ++ ['>'])).collect text :=
      ihtext hdepth hcommas
    rw [List.foldl_append, List.foldl_cons, List.foldl_cons, hinner, hclosed, hrest,
      collect_collect, List.append_assoc]
    rfl

/-- The scan in the first group, with what was read of an argument. -/
def inGroup (base : List Char) (args : List (List Char)) (current : List Char) : Scan :=
  { base, args, current, depth := 1 }

/-- The scan after the first group. -/
def afterGroup (base : List Char) (args : List (List Char)) : Scan :=
  { base, args, inFirst := false }

section Arguments

variable {base blanks arg : List Char} {args done : List (List Char)}

theorem foldl_argument (h : IsArgument arg) :
    arg.foldl step (inGroup base done blanks) = inGroup base done (arg.reverse ++ blanks) :=
  foldl_balanced h.balanced rfl nofun

theorem step_comma (current : List Char) :
    (inGroup base done current).step ',' = inGroup base (trim current.reverse :: done) [] := rfl

theorem step_space (current : List Char) :
    (inGroup base done current).step ' ' = inGroup base done (' ' :: current) := rfl

theorem step_end (current : List Char) :
    (inGroup base done current).step '>' = afterGroup base (trim current.reverse :: done) := rfl

/-- The arguments of the first group come apart at the commas. The blanks after a comma count as
read and are trimmed away. -/
theorem foldl_arguments (hblanks : ∀ c ∈ blanks, isBlank c = true)
    (hargs : ∀ a ∈ arg :: args, IsArgument a) :
    ([',', ' '].intercalate (arg :: args) ++ ['>']).foldl step (inGroup base done blanks) =
      afterGroup base ((arg :: args).reverse ++ done) := by
  have harg := hargs arg List.mem_cons_self
  have htrim : trim (arg.reverse ++ blanks).reverse = arg := by
    rw [List.reverse_append, List.reverse_reverse]
    exact harg.trimmed.trim_append fun c hc => hblanks c (List.mem_reverse.1 hc)
  induction args generalizing arg blanks done with
  | nil =>
    rw [List.intercalate_singleton, List.foldl_append, foldl_argument harg]
    rw [List.foldl_cons, step_end, htrim]
    rfl
  | cons next args ih =>
    have hnext := hargs next (by simp)
    have hrest : ([',', ' '].intercalate (next :: args) ++ ['>']).foldl step
        (inGroup base (arg :: done) [' ']) =
          afterGroup base ((next :: args).reverse ++ arg :: done) := by
      refine ih (by simp; decide) (fun a ha => hargs a (List.mem_cons_of_mem arg ha)) hnext ?_
      rw [List.reverse_append, List.reverse_reverse]
      exact hnext.trimmed.trim_append (by simp; decide)
    rw [List.intercalate_cons_cons, List.append_assoc, List.append_assoc, List.foldl_append,
      foldl_argument harg, List.foldl_append, List.foldl_cons, step_comma, htrim]
    rw [List.foldl_cons, List.foldl_nil, step_space, hrest]
    simp

end Arguments

end Scan

/-- **Type arguments come apart.** -/
theorem splitGenerics_group {before after : List Char} {args : List (List Char)}
    (hbefore : '<' ∉ before) (hafter : '<' ∉ after) (hargs : ∀ a ∈ args, IsArgument a) :
    splitGenerics (before ++ group args ++ after) = (before ++ after, args) := by
  have hstart : before.foldl Scan.step {} = { base := before.reverse } := by
    rw [Scan.foldl_outside hbefore rfl, List.append_nil]
  cases args with
  -- Without arguments there are no brackets, and the text is all name.
  | nil =>
    have hend : after.foldl Scan.step { base := before.reverse } =
        { base := after.reverse ++ before.reverse } := Scan.foldl_outside hafter rfl
    simp [splitGenerics, group, hstart, hend]
  | cons arg args =>
    have hgroup : (group (arg :: args)).foldl Scan.step { base := before.reverse } =
        Scan.afterGroup before.reverse (arg :: args).reverse := by
      rw [group, List.foldl_cons]
      exact (Scan.foldl_arguments (by simp) hargs).trans (by rw [List.append_nil])
    have hend : after.foldl Scan.step (Scan.afterGroup before.reverse (arg :: args).reverse) =
        Scan.afterGroup (after.reverse ++ before.reverse) (arg :: args).reverse :=
      Scan.foldl_outside hafter rfl
    have hkept : (arg :: args).filter (fun a => !a.isEmpty) = arg :: args :=
      List.filter_eq_self.2 fun a ha => by simpa using (hargs a ha).ne_nil
    rw [splitGenerics, List.foldl_append, List.foldl_append, hstart, hgroup, hend]
    simp only [Scan.afterGroup, List.reverse_append, List.reverse_reverse, hkept]

end TypeText

end JvmThrows
