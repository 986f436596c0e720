import ShellLine.Token.Basic

/-! # Diagnostics

The common form of everything that can be wrong with a line. A diagnostic belongs to a category,
has a kind and a detail text, and points at a position and a token where it knows them. Its
message is the detail, followed by the position if there is one.
-/

namespace ShellLine

/-- The kinds of lexical faults. -/
inductive LexicalFaultKind where
  | unterminatedQuote
  | unterminatedComment
  | danglingContext
  | inputTooLong
deriving DecidableEq, Repr, Inhabited

namespace LexicalFaultKind

/-- The kinds in their fixed order. -/
def all : List LexicalFaultKind :=
  [.unterminatedQuote, .unterminatedComment, .danglingContext, .inputTooLong]

/-- The name of a kind in printed diagnostics and in the log. -/
def label : LexicalFaultKind → String
  | .unterminatedQuote => "UNTERMINATED_QUOTE"
  | .unterminatedComment => "UNTERMINATED_COMMENT"
  | .danglingContext => "DANGLING_CONTEXT"
  | .inputTooLong => "INPUT_TOO_LONG"

end LexicalFaultKind

/-- The kinds of structural faults. -/
inductive StructuralFaultKind where
  | unexpectedEndOfInput
  | invalidCommandHead
  | unbalancedParenthesis
  | unbalancedQuote
  | invalidQuoteContents
  | invalidSubstitution
  | invalidRedirect
  | unexpectedToken
  | nestingTooDeep
deriving DecidableEq, Repr, Inhabited

namespace StructuralFaultKind

/-- The kinds in their fixed order. -/
def all : List StructuralFaultKind :=
  [.unexpectedEndOfInput, .invalidCommandHead, .unbalancedParenthesis, .unbalancedQuote,
   .invalidQuoteContents, .invalidSubstitution, .invalidRedirect, .unexpectedToken, .nestingTooDeep]

/-- The name of a kind in printed diagnostics and in the log. -/
def label : StructuralFaultKind → String
  | .unexpectedEndOfInput => "UNEXPECTED_END_OF_INPUT"
  | .invalidCommandHead => "INVALID_COMMAND_HEAD"
  | .unbalancedParenthesis => "UNBALANCED_PARENTHESIS"
  | .unbalancedQuote => "UNBALANCED_QUOTE"
  | .invalidQuoteContents => "INVALID_QUOTE_CONTENTS"
  | .invalidSubstitution => "INVALID_SUBSTITUTION"
  | .invalidRedirect => "INVALID_REDIRECT"
  | .unexpectedToken => "UNEXPECTED_TOKEN"
  | .nestingTooDeep => "NESTING_TOO_DEEP"

end StructuralFaultKind

/-- What a diagnostic is about. -/
inductive FaultKind where
  | lexical (kind : LexicalFaultKind)
  | structural (kind : StructuralFaultKind)
deriving DecidableEq, Repr, Inhabited

/-- The name of a kind in printed diagnostics. -/
def FaultKind.label : FaultKind → String
  | .lexical kind => kind.label
  | .structural kind => kind.label

/-- Who reports a diagnostic: one of the two stages, or neither in particular. -/
inductive FaultCategory where
  | general
  | lexical
  | structural
deriving DecidableEq, Repr, Inhabited

namespace FaultCategory

/-- The categories, the general one first. -/
def all : List FaultCategory :=
  [.general, .lexical, .structural]

/-- The name of a category in printed diagnostics. -/
def label : FaultCategory → String
  | .general => "ShellSyntaxError"
  | .lexical => "LexError"
  | .structural => "ParseError"

end FaultCategory

/-- Something wrong with a shell line. -/
structure Diagnostic where
  category : FaultCategory
  kind : FaultKind
  /-- What is wrong, without the position. -/
  detail : String
  /-- The position in the line, when known. -/
  pos : Option Int := none
  /-- The offending token, when there is one. -/
  token : Option Token := none
deriving DecidableEq, Repr, Inhabited

namespace Diagnostic

/-- The full text: the detail, and the position when it is known. -/
def message (diagnostic : Diagnostic) : String :=
  match diagnostic.pos with
  | none => diagnostic.detail
  | some pos => diagnostic.detail ++ " at pos " ++ toString pos

/-- The printed form. -/
def describe (diagnostic : Diagnostic) : String :=
  diagnostic.category.label ++ "(" ++ diagnostic.kind.label ++ ", " ++
    Text.quoted diagnostic.message ++ ")"

end Diagnostic

end ShellLine
