/-! # Names of shell variables

A variable name is an ASCII letter or an underscore, followed by any number of ASCII letters,
digits and underscores. One newline may end the text.
-/

namespace ShellLine.Text

/-- Whether a text goes on as a variable name up to its end. -/
def continuesName : List Char → Bool
  | [] => true
  | ['\n'] => true
  | c :: rest => (c.isAlphanum || c == '_') && continuesName rest

/-- Whether a text is the name of a variable. -/
def isVariableName (text : String) : Bool :=
  match text.toList with
  | [] => false
  | c :: rest => (c.isAlpha || c == '_') && continuesName rest

end ShellLine.Text
