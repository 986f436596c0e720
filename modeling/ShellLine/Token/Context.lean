/-! # Scanning contexts

What the scanner is in the middle of. A context carries the delimiter that will close it, where it
has one, and the position where it was opened, where a later diagnostic may need it.
-/

namespace ShellLine

/-- What a character is read as part of. -/
inductive ScanMode where
  /-- Between tokens. -/
  | start
  /-- A bare word. -/
  | literal
  /-- A bare word that has had a star. -/
  | wildcard
  /-- Quoted text. -/
  | quote
  /-- The name after a sigil. -/
  | substitution
  /-- A redirect operator that may still double. -/
  | operator
  /-- A comment. -/
  | comment
deriving DecidableEq, Repr, Inhabited

namespace ScanMode

/-- The modes in their fixed order. -/
def all : List ScanMode :=
  [.start, .literal, .wildcard, .quote, .substitution, .operator, .comment]

/-- The name of a mode when a context is shown. -/
def label : ScanMode → String
  | .start => "START"
  | .literal => "IN_LITERAL"
  | .wildcard => "IN_WILDCARD"
  | .quote => "IN_QUOTE"
  | .substitution => "IN_SUBSTITUTION"
  | .operator => "IN_OPERATOR"
  | .comment => "IN_COMMENT"

end ScanMode

/-- A mode with its payload. -/
structure ScanContext where
  mode : ScanMode := .start
  /-- The quote mark in quoted text, the direction mark in an operator. -/
  delimiter : String := ""
  /-- Where the context was opened, for quotes and for enclosing contexts. -/
  opened : Option Int := none
deriving DecidableEq, Repr, Inhabited

namespace ScanContext

/-- A context without payload. -/
def ofMode (mode : ScanMode) : ScanContext :=
  ⟨mode, "", none⟩

/-- Quoted text between two copies of a mark, the first at the given position. -/
def quote (mark : Char) (pos : Int) : ScanContext :=
  ⟨.quote, String.singleton mark, some pos⟩

/-- An operator that starts with the given direction mark. -/
def operator (mark : Char) : ScanContext :=
  ⟨.operator, String.singleton mark, none⟩

/-- What encloses a substitution or a group that was opened at the given position between tokens. -/
def group (pos : Int) : ScanContext :=
  ⟨.start, "", some pos⟩

end ScanContext

end ShellLine
