import ShellLine.Diagnostic

/-! # Structural faults

The ways in which a list of tokens fails to be a command tree, each with the token that shows it.
-/

namespace ShellLine

open Text

/-- Why a list of tokens has no tree. -/
inductive StructuralFault where
  /-- The tokens end where a command has to start. -/
  | missingCommand
  /-- The tokens end where one more is needed. -/
  | missingToken
  /-- The tokens end right after the sigil. -/
  | bareSigil (opening : Token)
  /-- The token cannot start a command. -/
  | invalidHead (token : Token)
  /-- The closing parenthesis has no partner. -/
  | unmatchedParen (token : Token)
  /-- The list behind the opening parenthesis is not followed by a closing one. -/
  | missingParen (opening : Token)
  /-- The tokens end inside the quote. -/
  | unterminatedQuote (opening : Token)
  /-- The token stands where quoted text has to. -/
  | missingFragment (token : Token)
  /-- The token may not follow quoted text. -/
  | strayInQuote (token : Token)
  /-- The token is neither a name nor an opening parenthesis after a sigil. -/
  | invalidSubstitution (token : Token)
  /-- The redirect operator has no target. -/
  | missingTarget (operator : Token)
  /-- The token follows a complete list. -/
  | unexpectedToken (token : Token)
  /-- The token opens one substitution or quote too many inside each other. -/
  | nestingTooDeep (limit : Int) (opening : Token)
deriving DecidableEq, Repr, Inhabited

namespace StructuralFault

/-- The kind of a structural fault. -/
def kind : StructuralFault → StructuralFaultKind
  | .missingCommand => .unexpectedEndOfInput
  | .missingToken => .unexpectedEndOfInput
  | .bareSigil _ => .unexpectedEndOfInput
  | .invalidHead _ => .invalidCommandHead
  | .unmatchedParen _ => .unbalancedParenthesis
  | .missingParen _ => .unbalancedParenthesis
  | .unterminatedQuote _ => .unbalancedQuote
  | .missingFragment _ => .invalidQuoteContents
  | .strayInQuote _ => .invalidQuoteContents
  | .invalidSubstitution _ => .invalidSubstitution
  | .missingTarget _ => .invalidRedirect
  | .unexpectedToken _ => .unexpectedToken
  | .nestingTooDeep .. => .nestingTooDeep

/-- What is wrong, without the position. -/
def detail : StructuralFault → String
  | .missingCommand => "Expected command"
  | .missingToken => "Unexpected end of input"
  | .bareSigil _ => "Expected name or '(' after '$'"
  | .invalidHead token => "Expected command, got " ++ token.summary
  | .unmatchedParen _ => "Unmatched ')'"
  | .missingParen _ => "Missing ')'"
  | .unterminatedQuote opening => "Unterminated " ++ opening.value ++ " quote"
  | .missingFragment token => "Expected quoted text, got " ++ token.summary
  | .strayInQuote token => "Unexpected " ++ token.summary ++ " inside quote"
  | .invalidSubstitution token => "Invalid substitution " ++ token.summary
  | .missingTarget operator => "Missing target after " ++ quoted operator.value
  | .unexpectedToken token => "Unexpected " ++ token.summary
  | .nestingTooDeep limit _ => "Nesting deeper than " ++ toString limit ++ " levels"

/-- The token that shows a structural fault, unless all tokens were used up. -/
def token? : StructuralFault → Option Token
  | .missingCommand => none
  | .missingToken => none
  | .bareSigil opening => some opening
  | .invalidHead token => some token
  | .unmatchedParen token => some token
  | .missingParen opening => some opening
  | .unterminatedQuote opening => some opening
  | .missingFragment token => some token
  | .strayInQuote token => some token
  | .invalidSubstitution token => some token
  | .missingTarget operator => some operator
  | .unexpectedToken token => some token
  | .nestingTooDeep _ opening => some opening

/-- The diagnostic of a structural fault, reported where its token stands. -/
def diagnostic (fault : StructuralFault) : Diagnostic where
  category := .structural
  kind := .structural fault.kind
  detail := fault.detail
  pos := fault.token?.bind (·.pos)
  token := fault.token?

end StructuralFault

end ShellLine
