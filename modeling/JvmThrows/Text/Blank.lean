/-!
# Blanks

White space is the Unicode property `White_Space`: the no-break space and the ideographic space
count, the zero-width space does not. Trimming and splitting into words go by it.
-/

namespace JvmThrows.Text

/-- The characters with the property `White_Space`. -/
def isBlank (c : Char) : Bool :=
  let n := c.toNat
  (0x9 ≤ n && n ≤ 0xD) || n == 0x20 || n == 0x85 || n == 0xA0 || n == 0x1680 ||
    (0x2000 ≤ n && n ≤ 0x200A) || n == 0x2028 || n == 0x2029 || n == 0x202F || n == 0x205F ||
    n == 0x3000

def trimStart (s : List Char) : List Char := s.dropWhile isBlank

def trimEnd (s : List Char) : List Char := (s.reverse.dropWhile isBlank).reverse

def trim (s : List Char) : List Char := trimEnd (trimStart s)

/-- Puts a character in front of the words of the text that follows it: at the head of the first
word if that text begins with one, as a word of its own otherwise. -/
def pushChar (c : Char) (next : List Char) (ws : List (List Char)) : List (List Char) :=
  if next.head?.all isBlank then [c] :: ws
  else
    match ws with
    | w :: rest => (c :: w) :: rest
    | [] => [[c]]

/-- The maximal runs of characters that are no blanks. -/
def words : List Char → List (List Char)
  | [] => []
  | c :: cs => if isBlank c then words cs else pushChar c cs (words cs)

/-- Words with one space between neighbours. -/
def unwords : List (List Char) → List Char
  | [] => []
  | [w] => w
  | w :: ws => w ++ ' ' :: unwords ws

theorem length_trimStart_le (s : List Char) : (trimStart s).length ≤ s.length :=
  (List.dropWhile_sublist _).length_le

theorem length_trimEnd_le (s : List Char) : (trimEnd s).length ≤ s.length := by
  have h := (List.dropWhile_sublist isBlank (l := s.reverse)).length_le
  simpa [trimEnd] using h

theorem length_trim_le (s : List Char) : (trim s).length ≤ s.length :=
  Nat.le_trans (length_trimEnd_le _) (length_trimStart_le _)

theorem length_unwords_cons_le (w : List Char) (ws : List (List Char)) :
    (unwords (w :: ws)).length ≤ w.length + 1 + (unwords ws).length := by
  cases ws with
  | nil => simp [unwords]
  | cons v vs => simp [unwords]; omega

theorem length_le_unwords_cons (w : List Char) (ws : List (List Char)) :
    (unwords ws).length ≤ (unwords (w :: ws)).length := by
  cases ws with
  | nil => simp [unwords]
  | cons v vs => simp [unwords]; omega

/-- Leaving words out makes no text longer. -/
theorem length_unwords_filter_le (p : List Char → Bool) (ws : List (List Char)) :
    (unwords (ws.filter p)).length ≤ (unwords ws).length := by
  induction ws with
  | nil => simp
  | cons w ws ih =>
    by_cases hp : p w
    · rw [List.filter_cons_of_pos hp]
      cases ws with
      | nil => simp
      | cons v vs =>
        have h := length_unwords_cons_le w ((v :: vs).filter p)
        have h' : (unwords (w :: v :: vs)).length = w.length + 1 + (unwords (v :: vs)).length := by
          simp [unwords]; omega
        omega
    · rw [List.filter_cons_of_neg hp]
      exact Nat.le_trans ih (length_le_unwords_cons w ws)

/-- Words written with single spaces are no longer than the text they came from, and shorter if
that text began with a blank. -/
theorem length_unwords_words (s : List Char) :
    (unwords (words s)).length ≤ s.length ∧
      (s.head?.any isBlank = true → (unwords (words s)).length < s.length) := by
  induction s with
  | nil => simp [words, unwords]
  | cons c cs ih =>
    obtain ⟨hle, hlt⟩ := ih
    by_cases hc : isBlank c = true
    · have hw : words (c :: cs) = words cs := by simp [words, hc]
      rw [hw]
      refine ⟨?_, fun _ => ?_⟩ <;> simp only [List.length_cons] <;> omega
    · have hw : words (c :: cs) = pushChar c cs (words cs) := by simp [words, hc]
      refine ⟨?_, fun h => absurd h (by simpa using hc)⟩
      rw [hw, List.length_cons]
      cases cs with
      | nil => simp [pushChar, unwords, words]
      | cons d ds =>
        by_cases hd : isBlank d = true
        · have h1 : pushChar c (d :: ds) (words (d :: ds)) = [c] :: words (d :: ds) := by
            simp [pushChar, hd]
          have h2 := hlt (by simpa using hd)
          have h3 := length_unwords_cons_le [c] (words (d :: ds))
          rw [h1]
          simp only [List.length_cons, List.length_nil] at h3 h2 ⊢
          omega
        · generalize hws : words (d :: ds) = ws at hle
          cases ws with
          | nil => simp [pushChar, hd, unwords]
          | cons w rest =>
            have h1 : pushChar c (d :: ds) (w :: rest) = (c :: w) :: rest := by
              simp [pushChar, hd]
            rw [h1]
            cases rest with
            | nil => simp only [unwords, List.length_cons] at hle ⊢; omega
            | cons v vs => simp only [unwords, List.length_append, List.length_cons] at hle ⊢; omega

end JvmThrows.Text
