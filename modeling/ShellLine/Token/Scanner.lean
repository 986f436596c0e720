import ShellLine.Alphabet
import ShellLine.Text.Alphanumeric
import ShellLine.Text.Blank
import ShellLine.Token.Basic
import ShellLine.Token.Context
import ShellLine.Token.Fault

/-! # The scanner

A scanner reads a text one character at a time. It keeps the context it is in, the contexts to
resume afterwards, and the characters of the token being built; each character is kept, completes
a token, or completes a token and is read again in the context that follows.

A sigil puts the context to resume on the stack. The end of its name takes that context off again,
while a parenthesis right after the sigil leaves it there until the closing parenthesis. So quoted
text is resumed at the right place around any command that is substituted into it.

`run` reads a whole text and `trace` shows every state on the way. By `run_append` a text may be
read in two parts.
-/

namespace ShellLine

open Alphabet Text

/-- The state of a scan. -/
structure Scanner where
  context : ScanContext := {}
  /-- The contexts to resume, innermost first. -/
  stack : List ScanContext := []
  /-- The characters of the token being built. -/
  buffer : String := ""
  /-- The position of the first character in the buffer. -/
  bufferPos : Option Int := none
  /-- Whether the next character is taken as it is. -/
  escaped : Bool := false
  /-- The finished tokens, newest first. -/
  emitted : List Token := []
deriving DecidableEq, Repr, Inhabited

namespace Scanner

/-- The finished tokens in source order. -/
def tokens (s : Scanner) : List Token :=
  s.emitted.reverse

/-! ## Parts of a step -/

/-- Goes on in another context. -/
def enter (s : Scanner) (context : ScanContext) : Scanner :=
  { s with context }

/-- Of two contexts entered in a row only the second counts. -/
@[simp]
theorem enter_enter (s : Scanner) (first second : ScanContext) :
    (s.enter first).enter second = s.enter second :=
  rfl

/-- Entering the context at hand changes nothing. -/
@[simp]
theorem enter_context (s : Scanner) : s.enter s.context = s :=
  rfl

/-- Puts a context on the stack, to be resumed later. -/
def push (s : Scanner) (context : ScanContext) : Scanner :=
  { s with stack := context :: s.stack }

/-- Takes the innermost enclosing context off the stack; there is always an outermost one. -/
def pop (s : Scanner) : Scanner :=
  match s.stack with
  | [] => { s with context := {} }
  | outer :: rest => { s with context := outer, stack := rest }

/-- Adds a character to the token being built. -/
def keep (s : Scanner) (c : Char) (pos : Int) : Scanner :=
  { s with buffer := s.buffer.push c, bufferPos := if s.buffer = "" then some pos else s.bufferPos }

/-- Adds an escape mark to the token being built and takes the next character as it is. -/
def keepEscape (s : Scanner) (c : Char) (pos : Int) : Scanner :=
  { s.keep c pos with escaped := true }

/-- Adds a finished token. -/
def emit (s : Scanner) (token : Token) : Scanner :=
  { s with emitted := token :: s.emitted }

/-- Finishes the token being built. An empty one is placed at the fallback position. -/
def flush (s : Scanner) (kind : TokenKind) (fallback : Option Int := none) : Scanner :=
  let pos := if s.buffer = "" then fallback else s.bufferPos
  { s with
    emitted := ⟨kind, s.buffer, pos, false, false⟩ :: s.emitted
    buffer := ""
    bufferPos := none }

/-- Finishes a bare word, which is reserved only as a whole. -/
def flushWord (s : Scanner) : Scanner :=
  s.flush (if reservedWords.contains s.buffer then .controlOperator else .literal)

/-- Finishes the name in a substitution, if there is one. -/
def flushName (s : Scanner) : Scanner :=
  if s.buffer = "" then s else s.flush .identifier

/-- Finishes the text before a symbol inside a quote, which may be empty, and adds the symbol. -/
def endFragment (s : Scanner) (c : Char) (pos : Int) : Scanner :=
  (s.flush .fragment (some pos)).emit (.ofMark c pos)

/-- The sign `=`, with what it touches on either side. -/
def assignToken (s : Scanner) (next : Option Char) (pos : Int) : Token where
  kind := .symbol
  value := String.singleton assign
  pos := some pos
  joinedLeft := (s.emitted.head?.bind Token.endPos) == some pos
  joinedRight := next.any fun c => !isBlank c && c != commentMark

/-! ## One character in each mode

`next` is the character that follows in the text, if any. -/

/-- Between tokens a character starts one, is one, or is blank. -/
def stepStart (s : Scanner) (next : Option Char) (c : Char) (pos : Int) : Scanner :=
  if isBlank c then s.enter {}
  else if c = escapeMark then (s.keepEscape c pos).enter (.ofMode .literal)
  else if c ∈ quoteMarks then (s.emit (.ofMark c pos)).enter (.quote c pos)
  else if c ∈ directionMarks then (s.keep c pos).enter (.operator c)
  else if c = assign then (s.emit (s.assignToken next pos)).enter {}
  else if c ∈ plainSymbols then (s.emit (.ofMark c pos)).enter {}
  else if c = commentMark then (s.keep c pos).enter (.ofMode .comment)
  else if c = sigil then
    ((s.emit (.ofMark c pos)).push (.group pos)).enter (.ofMode .substitution)
  else if c = openParen then ((s.emit (.ofMark c pos)).push (.group pos)).enter {}
  else if c = closeParen then (s.emit (.ofMark c pos)).pop
  else (s.keep c pos).enter (.ofMode (if c = star then .wildcard else .literal))

/-- A bare word goes on with letters, numerals, path marks and escapes; a star makes it a
wildcard. -/
def stepLiteral (s : Scanner) (next : Option Char) (c : Char) (pos : Int) : Scanner :=
  if isAlphanumeric c ∨ c ∈ pathMarks then s.keep c pos
  else if c = escapeMark then s.keepEscape c pos
  else if c = star then (s.keep c pos).enter (.ofMode .wildcard)
  else s.flushWord.stepStart next c pos

/-- A wildcard goes on like a bare word. -/
def stepWildcard (s : Scanner) (next : Option Char) (c : Char) (pos : Int) : Scanner :=
  if isAlphanumeric c ∨ c ∈ pathMarks ∨ c = star then s.keep c pos
  else if c = escapeMark then s.keepEscape c pos
  else (s.flush .wildcard).stepStart next c pos

/-- An operator is complete with a second copy of its mark, or without the character at hand. -/
def stepOperator (s : Scanner) (next : Option Char) (c : Char) (pos : Int) : Scanner :=
  if String.singleton c = s.context.delimiter then ((s.keep c pos).flush .symbol).enter {}
  else (s.flush .symbol).stepStart next c pos

/-- Quoted text goes on up to a sigil or its delimiter, either of which may be escaped. -/
def stepQuote (s : Scanner) (c : Char) (pos : Int) : Scanner :=
  if c = escapeMark then s.keepEscape c pos
  else if c = sigil then (s.endFragment c pos).push s.context |>.enter (.ofMode .substitution)
  else if String.singleton c ≠ s.context.delimiter then s.keep c pos
  else (s.endFragment c pos).enter {}

/-- A comment goes on up to the end of the line. -/
def stepComment (s : Scanner) (c : Char) (pos : Int) : Scanner :=
  if c = '\n' then (s.flush .comment).enter {} else s.keep c pos

/-- A character read in any mode but that of a substitution, which is left to `stepSubstitution`. -/
def stepPlain (s : Scanner) (next : Option Char) (c : Char) (pos : Int) : Scanner :=
  match s.context.mode with
  | .start => s.stepStart next c pos
  | .literal => s.stepLiteral next c pos
  | .wildcard => s.stepWildcard next c pos
  | .operator => s.stepOperator next c pos
  | .quote => s.stepQuote c pos
  | .comment => s.stepComment c pos
  | .substitution => s

/-- The parenthesis right after a sigil, which leaves the enclosing context on the stack. -/
def openSubshell (s : Scanner) (c : Char) (pos : Int) : Scanner :=
  (s.emit (.ofMark c pos)).enter {}

/-- Reads a character in the innermost of the given enclosing contexts that is not a substitution
whose name would end there too. -/
def resume (s : Scanner) (next : Option Char) (c : Char) (pos : Int) : List ScanContext → Scanner
  | [] => { s with stack := [], context := {} }.stepStart next c pos
  | outer :: rest =>
    let resumed := { s with stack := rest, context := outer }
    if outer.mode = .substitution then
      if c = openParen then resumed.openSubshell c pos else resumed.resume next c pos rest
    else resumed.stepPlain next c pos

/-- A name goes on with letters, numerals and name marks; its end resumes the enclosing context. -/
def stepSubstitution (s : Scanner) (next : Option Char) (c : Char) (pos : Int) : Scanner :=
  if isAlphanumeric c ∨ c ∈ nameMarks then s.keep c pos
  else if c = openParen ∧ s.buffer = "" then s.openSubshell c pos
  else s.flushName.resume next c pos s.stack

/-- Reads one character. -/
def step (s : Scanner) (next : Option Char) (c : Char) (pos : Int) : Scanner :=
  if s.escaped then { s.keep c pos with escaped := false }
  else if s.context.mode = .substitution then s.stepSubstitution next c pos
  else s.stepPlain next c pos

/-! ## A whole text -/

/-- Reads a text whose first character stands at the given position. `after` is the character that
follows the text, if any. -/
def run (s : Scanner) (pos : Int) (text : List Char) (after : Option Char := none) : Scanner :=
  match text with
  | [] => s
  | c :: rest => (s.step (rest.head?.or after) c pos).run (pos + 1) rest after

/-- The state after each character of a text, with the character and its position. -/
def trace (s : Scanner) (pos : Int) : List Char → List (Char × Int × Scanner)
  | [] => []
  | c :: rest =>
    let after := s.step rest.head? c pos
    (c, pos, after) :: after.trace (pos + 1) rest

/-- Closes names that the end of the text closes, going back to the context around them. -/
def closeNames (s : Scanner) : Scanner :=
  if s.context.mode = .substitution then unwind s.flushName s.stack else s
where
  /-- Goes back to the innermost of the given contexts that is not a substitution. -/
  unwind (s : Scanner) : List ScanContext → Scanner
    | [] => { s with stack := [], context := {} }
    | outer :: rest =>
      if outer.mode = .substitution then unwind s rest
      else { s with stack := rest, context := outer }

/-- The construct that the end of the text leaves incomplete, if that is a fault. -/
def incomplete (s : Scanner) (strictComments : Bool) : Option LexicalFault :=
  match s.context.mode with
  | .quote => some (.unterminatedQuote s.context.delimiter s.context.opened)
  | .comment => if strictComments then some (.unterminatedComment s.bufferPos) else none
  | _ => none

/-- Finishes the token that the end of the text completes. -/
def flushLast (s : Scanner) : Scanner :=
  if s.buffer = "" then s
  else
    match s.context.mode with
    | .literal => s.flushWord
    | .wildcard => s.flush .wildcard
    | .operator => s.flush .symbol
    | .comment => s.flush .comment
    | _ => s

/-- The innermost context that is still to be resumed, which is a fault at the end of the text. -/
def dangling (s : Scanner) : Option LexicalFault :=
  s.stack.head?.map fun outer => .danglingContext s.stack.length outer.opened

/-- The state at the end of the text, and the fault if there is one. -/
def finish (s : Scanner) (strictComments : Bool) : Scanner × Option LexicalFault :=
  let closed := s.closeNames
  match closed.incomplete strictComments with
  | some fault => (closed, some fault)
  | none =>
    let last := closed.flushLast
    (last, last.dangling)

/-- A text may be read in two parts, if the first is read with a view to the second. -/
theorem run_append (s : Scanner) (pos : Int) (first second : List Char) (after : Option Char) :
    s.run pos (first ++ second) after =
      (s.run pos first (second.head?.or after)).run (pos + first.length) second after := by
  induction first generalizing s pos with
  | nil => simp [run]
  | cons c rest ih =>
    have ahead : (rest ++ second).head?.or after = rest.head?.or (second.head?.or after) := by
      cases rest <;> simp
    simp only [List.cons_append, run, ih, ahead, List.length_cons]
    congr 1
    omega

/-- A run ends in the last state of the trace. -/
theorem run_eq_getLast_trace (s : Scanner) (pos : Int) (text : List Char) :
    s.run pos text = (((s.trace pos text).map (·.2.2)).getLast?).getD s := by
  induction text generalizing s pos with
  | nil => rfl
  | cons c rest ih =>
    rw [run, trace, ih]
    cases rest <;> simp [trace, List.getLast?_cons]

/-- A trace has one state for each character. -/
theorem length_trace (s : Scanner) (pos : Int) (text : List Char) :
    (s.trace pos text).length = text.length := by
  induction text generalizing s pos with
  | nil => rfl
  | cons c rest ih => simp [trace, ih]

/-- A state of a trace is what reading the text up to there comes to. -/
theorem exists_of_mem_trace {s state : Scanner} {pos place : Int} {text : List Char} {c : Char}
    (member : (c, place, state) ∈ s.trace pos text) :
    ∃ read rest, text = read ++ c :: rest ∧ place = pos + read.length ∧
      state = s.run pos (read ++ [c]) rest.head? := by
  induction text generalizing s pos with
  | nil => cases member
  | cons first later ih =>
    rw [trace, List.mem_cons] at member
    rcases member with same | member
    · obtain ⟨rfl, rfl, rfl⟩ : c = first ∧ place = pos ∧ _ := by simpa using same
      exact ⟨[], later, rfl, by simp, by simp [run]⟩
    · obtain ⟨read, rest, rfl, rfl, rfl⟩ := ih member
      refine ⟨first :: read, rest, rfl, ?_, ?_⟩
      · rw [List.length_cons]
        omega
      · have ahead : (read ++ c :: rest).head? = (read ++ [c]).head?.or rest.head? := by
          cases read <;> simp
        rw [List.cons_append, run, ahead]

end Scanner

end ShellLine
