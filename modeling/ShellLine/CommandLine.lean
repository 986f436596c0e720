import ShellLine.Token.Tokenizer
import ShellLine.Tree.Grammar

/-! # Command lines

A command line is read in two stages, first into tokens and then into a tree. The fault of the
stage that fails is the fault of the line, and the log holds what both stages had to say, in
order.
-/

namespace ShellLine

/-- Why a line has no tree. -/
inductive LineFault where
  | lexical (fault : LexicalFault)
  | structural (fault : StructuralFault)
deriving DecidableEq, Repr, Inhabited

/-- The diagnostic of a faulty line. -/
def LineFault.diagnostic : LineFault → Diagnostic
  | .lexical fault => fault.diagnostic
  | .structural fault => fault.diagnostic

/-- The tree of a line or its fault, and the log of reading it. With a logger given, all records
go to that one. -/
def readLine (line : String) (logger : Option String := none) :
    Except LineFault Node × List LogRecord :=
  match Tokenizer.tokenize.run { text := line, logger := logger.getD "ShellLexer" } with
  | .error fault tokenizer => (.error (.lexical fault), tokenizer.log)
  | .ok tokens tokenizer =>
    let cursor := Cursor.ofTokens tokens defaultMaxDepth (logger.getD "ShellParser")
    match Grammar.parse.run cursor with
    | .error fault cursor => (.error (.structural fault), tokenizer.log ++ cursor.log)
    | .ok tree cursor => (.ok tree, tokenizer.log ++ cursor.log)

/-- The tree of a line, or its first fault. -/
def parseLine (line : String) : Except LineFault Node :=
  (readLine line).1

/-- A line is read into tokens first, and then those into a tree. -/
theorem parseLine_eq (line : String) :
    parseLine line =
      match tokenize line with
      | .error fault => .error (.lexical fault)
      | .ok tokens =>
        match parse tokens with
        | .error fault => .error (.structural fault)
        | .ok tree => .ok tree := by
  rw [parseLine, readLine, tokenize]
  simp only [Option.getD_none]
  cases Tokenizer.tokenize.run { text := line } with
  | error fault tokenizer => rfl
  | ok tokens tokenizer =>
    simp only [parse]
    cases Grammar.parse.run (Cursor.ofTokens tokens) <;> rfl

end ShellLine
