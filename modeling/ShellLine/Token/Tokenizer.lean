import ShellLine.Log
import ShellLine.Token.Scanner

/-! # Tokenizers

A tokenizer holds a text, the options for reading it, a scanner and a log. It can read its text as a
whole, which is what `tokenize` does, or be driven through single characters and contexts. A
failure is logged where it arises and leaves the tokenizer as it then is.

The scanner's context is the one that single characters are read in. Reading the whole text starts
afresh and leaves that context alone.
-/

namespace ShellLine

open Text

/-- The state of a scan over a whole text. Positions refer to the text with its leading blanks. -/
def Scanner.ofText (text : List Char) : Scanner :=
  ({} : Scanner).run (leadingBlanks text) (strip text)

/-- A text to be read, with the options and the state of reading it. -/
structure Tokenizer where
  text : String
  /-- Whether a comment has to end with a newline. One at the very end does not count, since a text
  is read without the blanks at its ends. -/
  strictComments : Bool := false
  /-- The length that a text must not exceed; unbounded if missing. -/
  maxLength : Option Int := none
  logger : String := "ShellLexer"
  scanner : Scanner := {}
  /-- The log, oldest record first. -/
  log : List LogRecord := []
deriving DecidableEq, Repr, Inhabited

/-- An action on a tokenizer, which keeps its state also when it fails. -/
abbrev Tokenizing := EStateM LexicalFault Tokenizer

namespace Tokenizer

/-! ## Reading the whole text -/

/-- Adds a record to the log. -/
def report (level : LogLevel) (message : String) : Tokenizing Unit :=
  modify fun tokenizer =>
    { tokenizer with log := tokenizer.log ++ [⟨tokenizer.logger, level, message⟩] }

/-- Logs a fault and stops. -/
def fail {α : Type} (fault : LexicalFault) : Tokenizing α := do
  report .warning ("Lex error " ++ fault.kind.label ++ ": " ++ fault.detail)
  throw fault

/-- Stops if there is a fault. -/
def check : Option LexicalFault → Tokenizing Unit
  | none => pure ()
  | some fault => fail fault

/-- The fault of a text that is longer than the limit. -/
def lengthFault (tokenizer : Tokenizer) : Option LexicalFault :=
  let length := tokenizer.text.length
  tokenizer.maxLength.bind fun limit =>
    if limit < length then some (.inputTooLong length limit) else none

/-- Ends a text in the given context: the last token is finished, and nothing may be left open. -/
def finishIn (context : ScanContext) : Tokenizing Unit := do
  let tokenizer ← get
  let finished := (tokenizer.scanner.enter context).finish tokenizer.strictComments
  set { tokenizer with scanner := finished.1.enter tokenizer.scanner.context }
  check finished.2

/-- Ends the text in the current context. -/
def finish : Tokenizing Unit := do
  finishIn (← get).scanner.context

/-- What is logged about a text that was read. -/
def summary (tokenizer : Tokenizer) (tokens : List Token) : String :=
  "Tokenized " ++ toString tokenizer.text.length ++ " chars into " ++ toString tokens.length ++
    " tokens"

/-- Reads the whole text. -/
def tokenize : Tokenizing (List Token) := do
  let tokenizer ← get
  check tokenizer.lengthFault
  let scanned := Scanner.ofText tokenizer.text.toList
  set { tokenizer with scanner := scanned.enter tokenizer.scanner.context }
  finishIn scanned.context
  let tokens := (← get).scanner.tokens
  report .debug (tokenizer.summary tokens)
  return tokens

/-- The states that reading the whole text goes through, one for each character between the blanks
at its ends; none if the text is too long to be read. -/
def trace (tokenizer : Tokenizer) : List (Char × Int × Scanner) :=
  if tokenizer.lengthFault.isSome then []
  else
    let text := tokenizer.text.toList
    ({} : Scanner).trace (leadingBlanks text) (strip text)

/-! ## Reading in single steps -/

/-- The character of a text at an index. The index -1 stands for the end of the text, and from -2 on
downwards an index counts from there. -/
def charAt (text : List Char) : Int → Option Char
  | .ofNat index => text[index]?
  | .negSucc 0 => none
  | .negSucc (back + 1) => text.reverse[back + 1]?

/-- Reads characters, the first of them at the given position. Which character follows is looked
up in the tokenizer's own text. -/
def feed (tokenizer : Tokenizer) (pos : Int) : List Char → Tokenizer
  | [] => tokenizer
  | c :: rest =>
    let next := charAt tokenizer.text.toList (pos + 1)
    feed { tokenizer with scanner := tokenizer.scanner.step next c pos } (pos + 1) rest

/-- Goes on in another context. -/
def enter (tokenizer : Tokenizer) (context : ScanContext) : Tokenizer :=
  { tokenizer with scanner := tokenizer.scanner.enter context }

/-- Puts a context on the stack. -/
def push (tokenizer : Tokenizer) (context : ScanContext) : Tokenizer :=
  { tokenizer with scanner := tokenizer.scanner.push context }

/-- Takes the innermost context off the stack and leaves the current one as it is. -/
def pop (tokenizer : Tokenizer) : ScanContext × Tokenizer :=
  let popped := tokenizer.scanner.pop
  (popped.context, { tokenizer with scanner := popped.enter tokenizer.scanner.context })

/-! ## What reading the whole text comes to -/

/-- A fault is logged as a warning, and nothing else changes. -/
theorem fail_run {α : Type} (fault : LexicalFault) (tokenizer : Tokenizer) :
    (fail fault : Tokenizing α).run tokenizer =
      .error fault { tokenizer with log := tokenizer.log ++ [⟨tokenizer.logger, .warning,
        "Lex error " ++ fault.kind.label ++ ": " ++ fault.detail⟩] } :=
  rfl

/-- Reading the whole text is a scan from a fresh start, unless the text is too long. -/
theorem tokenize_run (tokenizer : Tokenizer) :
    tokenize.run tokenizer =
      match tokenizer.lengthFault with
      | some fault => (fail fault : Tokenizing (List Token)).run tokenizer
      | none =>
        let (last, fault) := (Scanner.ofText tokenizer.text.toList).finish tokenizer.strictComments
        let ended := { tokenizer with scanner := last.enter tokenizer.scanner.context }
        match fault with
        | some fault => (fail fault : Tokenizing (List Token)).run ended
        | none =>
          .ok last.tokens { ended with
            log := ended.log ++ [⟨ended.logger, .debug, ended.summary last.tokens⟩] } := by
  rw [tokenize, EStateM.run_bind, EStateM.run_get]
  simp only
  rw [EStateM.run_bind]
  cases long : tokenizer.lengthFault with
  | some fault => rfl
  | none =>
    simp only [check, EStateM.run_pure, EStateM.run_bind, EStateM.run_set, finishIn,
      EStateM.run_get, Scanner.enter_enter, Scanner.enter_context]
    generalize (Scanner.ofText tokenizer.text.toList).finish tokenizer.strictComments = outcome
    obtain ⟨last, fault⟩ := outcome
    cases fault <;> rfl

end Tokenizer

/-- The tokens of a line, comments included, or the first lexical fault. -/
def tokenize (line : String) (strictComments : Bool := false) (maxLength : Option Int := none) :
    Except LexicalFault (List Token) :=
  match Tokenizer.tokenize.run { text := line, strictComments, maxLength } with
  | .ok tokens _ => .ok tokens
  | .error fault _ => .error fault

/-- Without a limit, the tokens of a line are those of the scan over its text. -/
theorem tokenize_eq (line : String) (strictComments : Bool) :
    tokenize line strictComments =
      match (Scanner.ofText line.toList).finish strictComments with
      | (_, some fault) => .error fault
      | (last, none) => .ok last.tokens := by
  rw [tokenize, Tokenizer.tokenize_run]
  simp only [Tokenizer.lengthFault, Option.bind_none]
  cases (Scanner.ofText line.toList).finish strictComments with
  | mk last fault => cases fault <;> rfl

/-- A limit matters to lines that are too long, and to no others. -/
theorem tokenize_limited (line : String) (strictComments : Bool) (maxLength : Option Int) :
    tokenize line strictComments maxLength =
      match Tokenizer.lengthFault { text := line, strictComments, maxLength } with
      | some fault => .error fault
      | none => tokenize line strictComments := by
  rw [tokenize_eq, tokenize, Tokenizer.tokenize_run]
  cases Tokenizer.lengthFault { text := line, strictComments, maxLength } with
  | some fault => rfl
  | none =>
    cases (Scanner.ofText line.toList).finish strictComments with
    | mk last fault => cases fault <;> rfl

end ShellLine
