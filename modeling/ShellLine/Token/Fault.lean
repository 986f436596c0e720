import ShellLine.Diagnostic

/-! # Lexical faults

The four ways in which a text fails to be a sequence of tokens.
-/

namespace ShellLine

/-- Why a text has no tokens. -/
inductive LexicalFault where
  /-- The text ends inside quoted text that the delimiter would close. -/
  | unterminatedQuote (delimiter : String) (opened : Option Int)
  /-- The text ends inside a comment, where only a newline may end one. -/
  | unterminatedComment (opened : Option Int)
  /-- The text ends with so many open substitutions and groups. The innermost one was opened here,
  or it interrupts a quote that was. -/
  | danglingContext (count : Nat) (opened : Option Int)
  /-- The text is longer than the limit. -/
  | inputTooLong (length : Nat) (limit : Int)
deriving DecidableEq, Repr, Inhabited

namespace LexicalFault

/-- The kind of a lexical fault. -/
def kind : LexicalFault → LexicalFaultKind
  | .unterminatedQuote .. => .unterminatedQuote
  | .unterminatedComment .. => .unterminatedComment
  | .danglingContext .. => .danglingContext
  | .inputTooLong .. => .inputTooLong

/-- What is wrong, without the position. -/
def detail : LexicalFault → String
  | .unterminatedQuote delimiter _ => "Unterminated " ++ delimiter ++ " quote"
  | .unterminatedComment _ => "Comment not terminated by a newline"
  | .danglingContext count _ =>
    toString count ++ " unclosed substitution or group context(s)"
  | .inputTooLong length limit =>
    "Input of " ++ toString length ++ " chars exceeds limit of " ++ toString limit

/-- Where a lexical fault is reported: where the open construct begins, or where the quote does that
an open substitution interrupts. -/
def pos : LexicalFault → Option Int
  | .unterminatedQuote _ opened => opened
  | .unterminatedComment opened => opened
  | .danglingContext _ opened => opened
  | .inputTooLong .. => none

/-- The diagnostic of a lexical fault. -/
def diagnostic (fault : LexicalFault) : Diagnostic where
  category := .lexical
  kind := .lexical fault.kind
  detail := fault.detail
  pos := fault.pos

end LexicalFault

end ShellLine
