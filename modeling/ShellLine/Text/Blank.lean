import ShellLine.Text.Ranges

/-! # Blank characters

Blanks separate tokens and are stripped from both ends of a line. They are the 29 characters whose
Unicode bidirectional class is WS, B or S or whose general category is Zs; the zero-width space
U+200B and the byte order mark U+FEFF are not among them. `drop_leadingBlanks` and
`exists_eq_stripEnd_append` say that stripping takes away blanks only.
-/

namespace ShellLine.Text

/-- The blanks of Unicode 14.0. -/
def blankRanges : Ranges :=
  [(9, 13), (28, 32), (133, 133), (160, 160), (5760, 5760), (8192, 8202), (8232, 8233),
   (8239, 8239), (8287, 8287), (12288, 12288)]

/-- Whether a character separates tokens without being part of one. -/
def isBlank (c : Char) : Bool :=
  blankRanges.covers c.toNat

/-- The table is in order. -/
theorem blankRanges_ascends : blankRanges.ascendsFrom 0 = true := by decide

example : blankRanges.count = 29 := by decide

/-- The white space of the core library is blank. -/
theorem isBlank_of_isWhitespace {c : Char} (white : c.isWhitespace = true) : isBlank c = true := by
  simp only [Char.isWhitespace, Bool.or_eq_true, decide_eq_true_eq] at white
  rcases white with ((equal | equal) | equal) | equal <;> subst equal <;> decide

/-- The text from its first non-blank on. -/
def stripStart (text : List Char) : List Char :=
  text.dropWhile isBlank

/-- The text up to its last non-blank. -/
def stripEnd (text : List Char) : List Char :=
  (text.reverse.dropWhile isBlank).reverse

/-- The text without the blanks at its two ends. -/
def strip (text : List Char) : List Char :=
  stripEnd (stripStart text)

/-- How many blanks a text starts with. -/
def leadingBlanks (text : List Char) : Nat :=
  (text.takeWhile isBlank).length

/-- The leading blanks and the rest make up the text. -/
theorem drop_leadingBlanks (text : List Char) :
    text.drop (leadingBlanks text) = stripStart text := by
  induction text with
  | nil => rfl
  | cons c rest ih =>
    simp only [leadingBlanks, stripStart, List.takeWhile_cons, List.dropWhile_cons] at ih ⊢
    split
    · simpa using ih
    · simp

/-- Stripping the end drops blanks only. -/
theorem exists_eq_stripEnd_append (text : List Char) :
    ∃ blanks, (∀ c ∈ blanks, isBlank c = true) ∧ text = stripEnd text ++ blanks := by
  refine ⟨(text.reverse.takeWhile isBlank).reverse, fun c member => ?_, ?_⟩
  · exact List.all_eq_true.mp List.all_takeWhile c (List.mem_reverse.mp member)
  · rw [stripEnd, ← List.reverse_append, List.takeWhile_append_dropWhile, List.reverse_reverse]

/-- What is left of a text ends in a character that is not blank. -/
theorem isBlank_of_getLast?_stripEnd {text : List Char} {c : Char}
    (last : c ∈ (stripEnd text).getLast?) : isBlank c = false := by
  rw [stripEnd, List.getLast?_reverse, Option.mem_def] at last
  have kept := List.head?_dropWhile_not isBlank text.reverse
  simpa [last] using kept

end ShellLine.Text
