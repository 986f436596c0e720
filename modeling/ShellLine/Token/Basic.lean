import ShellLine.Alphabet
import ShellLine.Text.Quoted

/-! # Tokens

A token is a piece of a shell line with its kind and, when it comes from a line, the position of its
first character. The sign `=` also records whether it touches what stands before and after it, which
tells `NAME=value` from `a = b`. Positions serve diagnostics only: `Token.alike` leaves them out.
-/

namespace ShellLine

/-- The kinds of tokens. -/
inductive TokenKind where
  /-- A bare word: command, argument, path or flag. -/
  | literal
  /-- An operator, a bracket, a quote mark or a sigil. -/
  | symbol
  /-- A reserved word. -/
  | controlOperator
  /-- The name in a substitution. -/
  | identifier
  /-- A word with an unescaped star. -/
  | wildcard
  /-- Text inside an open quote. -/
  | fragment
  /-- From `#` to the end of the line. -/
  | comment
deriving DecidableEq, Repr, Inhabited

namespace TokenKind

/-- The kinds in their fixed order. -/
def all : List TokenKind :=
  [.literal, .symbol, .controlOperator, .identifier, .wildcard, .fragment, .comment]

/-- The name of a kind in printed tokens and in diagnostics. -/
def label : TokenKind → String
  | .literal => "LITERAL"
  | .symbol => "SYMBOL"
  | .controlOperator => "CONTROL_OPERATOR"
  | .identifier => "IDENTIFIER"
  | .wildcard => "WILDCARD"
  | .fragment => "STR"
  | .comment => "COMMENT"

end TokenKind

/-- A piece of a shell line. -/
structure Token where
  kind : TokenKind
  value : String
  /-- The position of the first character, when the token comes from a line. -/
  pos : Option Int := none
  /-- On `=`: the sign directly follows a token. -/
  joinedLeft : Bool := false
  /-- On `=`: neither a blank nor a comment nor the end of the line follows. -/
  joinedRight : Bool := false
deriving DecidableEq, Repr, Inhabited

namespace Token

/-- The symbol of one character. -/
def ofMark (mark : Char) (pos : Option Int := none) : Token :=
  ⟨.symbol, String.singleton mark, pos, false, false⟩

/-- The position just past the last character. -/
def endPos (token : Token) : Option Int :=
  token.pos.map (· + token.value.length)

/-- Whether the token is one of the given symbols; no values at all stand for any symbol. -/
def isSymbol (token : Token) (values : List String) : Bool :=
  token.kind == .symbol && (values.isEmpty || values.contains token.value)

/-- Whether the token is the symbol of one character. -/
def isMark (token : Token) (mark : Char) : Bool :=
  token.isSymbol [String.singleton mark]

/-- Whether the token is a word, reserved or not. -/
def isWord (token : Token) : Bool :=
  token.kind == .literal || token.kind == .controlOperator

/-- The token without its position. -/
def erasePos (token : Token) : Token :=
  { token with pos := none }

/-- Equality up to the position. -/
def alike (a b : Token) : Bool :=
  a.erasePos == b.erasePos

/-- The kind and the quoted value, as diagnostics name a token. -/
def summary (token : Token) : String :=
  token.kind.label ++ " " ++ Text.quoted token.value

/-- The printed form; a missing position and flags that are off are left out. -/
def describe (token : Token) : String :=
  let pos := match token.pos with
    | none => ""
    | some pos => ", pos=" ++ toString pos
  let left := if token.joinedLeft then ", joined_left=True" else ""
  let right := if token.joinedRight then ", joined_right=True" else ""
  "Token(" ++ token.kind.label ++ ", " ++ Text.quoted token.value ++ pos ++ left ++ right ++ ")"

/-- The printed form of a token list. -/
def describeList (tokens : List Token) : String :=
  "[" ++ ", ".intercalate (tokens.map describe) ++ "]"

/-- Tokens are alike exactly if they differ in their positions at most. -/
theorem alike_iff {a b : Token} : a.alike b = true ↔
    a.kind = b.kind ∧ a.value = b.value ∧ a.joinedLeft = b.joinedLeft ∧
      a.joinedRight = b.joinedRight := by
  simp [alike, erasePos]

/-- A mark is a symbol with that value. -/
theorem isMark_iff {token : Token} {mark : Char} :
    token.isMark mark = true ↔ token.kind = .symbol ∧ token.value = String.singleton mark := by
  simp [isMark, isSymbol]

end Token

end ShellLine
