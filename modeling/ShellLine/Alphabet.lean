/-! # Characters and words with a role of their own

Besides blanks, letters and numerals, a shell line knows the characters listed here. Every list is
in ascending order.
-/

namespace ShellLine.Alphabet

/-- Takes the character after it out of the line's structure. -/
abbrev escapeMark : Char := '\\'

/-- Starts a comment that ends with the line. -/
abbrev commentMark : Char := '#'

/-- Starts a substitution. -/
abbrev sigil : Char := '$'

/-- Turns a word into a wildcard. -/
abbrev star : Char := '*'

/-- Separates the stages of a pipeline. -/
abbrev pipe : Char := '|'

/-- Joins a variable name to its value. -/
abbrev assign : Char := '='

/-- Separates the pipelines of a list. -/
abbrev semicolon : Char := ';'

/-- Opens a group. -/
abbrev openParen : Char := '('

/-- Closes a group. -/
abbrev closeParen : Char := ')'

/-- Continue a bare word: the hyphen of flags, and the punctuation of paths. -/
def pathMarks : List Char := ['-', '.', '/', '_', '~']

/-- Continue the name in a substitution, plain or braced. -/
def nameMarks : List Char := ['_', '\x7b', '\x7d']

/-- Open and close quoted text. -/
def quoteMarks : List Char := ['"', '\'']

/-- Are tokens by themselves wherever a token may start. -/
def plainSymbols : List Char := [semicolon, assign, pipe]

/-- Start a redirect operator, and may be doubled. -/
def directionMarks : List Char := ['<', '>']

/-- The operators of redirects. -/
def redirectOperators : List String := ["<", "<<", ">", ">>"]

/-- The words that control flow would use; only an exact match of the whole word is reserved. -/
def reservedWords : List String := ["else", "fi", "if", "then"]

/-- An escape keeps a word from being reserved. -/
theorem escapeMark_not_mem_of_reserved : ∀ word ∈ reservedWords, escapeMark ∉ word.toList := by
  decide

end ShellLine.Alphabet
