import ShellLine.Tree.Basic
import ShellLine.Tree.Cursor

/-! # The grammar of shell lines

The rules read a tree off the front of the tokens:

* list → pipeline (`;` pipeline)* `;`?
* pipeline → command (`|` command)*
* command → (assignment | redirect)* [head (argument | redirect)*]
* head → word | substitution
* argument → assignment | `=` | value
* value → word | wildcard | quote | substitution
* assignment → word `=` value?, where the sign touches the word
* redirect → operator value
* substitution → `$` (name | `(` list `)`)
* quote → mark text (`$` substitution text)* mark

Reserved words are read like any other word, except that nothing is assigned to them. A rule takes
the reader of lists inside parentheses as an argument; `listWithin` ties the knot, a level at a
time.
-/

namespace ShellLine.Grammar

open ShellLine.Alphabet ShellLine.Cursor

/-! ## The parts of a command -/

/-- What a command consists of besides its name. -/
inductive CommandPart where
  | assignment (node : Node)
  | redirect (node : Node)
  | argument (node : Node)
deriving Repr, Inhabited

namespace CommandPart

/-- The assignment that a part is. -/
def assignment? : CommandPart → Option Node
  | .assignment node => some node
  | _ => none

/-- The redirect that a part is. -/
def redirect? : CommandPart → Option Node
  | .redirect node => some node
  | _ => none

/-- The argument that a part is. -/
def argument? : CommandPart → Option Node
  | .argument node => some node
  | _ => none

end CommandPart

/-- The command with the given name and parts, each kind of part in the order of the line. -/
def assemble (name : Option Node) (parts : List CommandPart) : Node :=
  .command name (parts.filterMap (·.argument?)) (parts.filterMap (·.redirect?))
    (parts.filterMap (·.assignment?))

/-! ## The rules -/

section Rules

variable (list : Reading Node)

/-- A sigil with a name or with a list in parentheses. -/
def substitution : Reading Node := do
  let opening ← consume
  nested opening do
    match (← get).current with
    | none => fail (.bareSigil opening)
    | some token =>
      if token.kind = .identifier then
        return .identifier (← consume).value
      else if token.isMark openParen then
        let _ ← consume
        let body ← list
        if (← get).atMark closeParen then
          let _ ← consume
          return .subshell body
        else fail (.missingParen token)
      else fail (.invalidSubstitution token)

/-- The text between two marks or substitutions of a quote. -/
def fragment (opening : Token) : Reading String := do
  match (← get).current with
  | none => fail (.unterminatedQuote opening)
  | some token =>
    if token.kind = .fragment then return (← consume).value else fail (.missingFragment token)

/-- A substitution inside a quote and the text after it; nothing at the end of the quote. -/
def interpolation (opening : Token) : Reading (Option (Node × String)) := do
  match (← get).current with
  | none => return none
  | some token =>
    if token.isSymbol [opening.value] then return none
    else if token.isMark sigil then
      let inner ← substitution list
      return some (inner, ← fragment opening)
    else fail (.strayInQuote token)

/-- The tree of a quote: text alone keeps its marks, text with substitutions is taken apart. -/
def quoteNode (mark first : String) (rest : List (Node × String)) : Node :=
  if rest.isEmpty then .string (mark ++ first ++ mark)
  else .quote mark (.string first :: rest.flatMap fun (inner, text) => [inner, .string text])

/-- Quoted text between two copies of a mark. -/
def quote : Reading Node := do
  let opening ← consume
  nested opening do
    let first ← fragment opening
    let rest ← many (interpolation list opening)
    match (← get).current with
    | none => fail (.unterminatedQuote opening)
    | some _ =>
      let _ ← consume
      return quoteNode opening.value first rest

/-- A word, a wildcard, a quote or a substitution; nothing if the next token starts none of them. -/
def value : Reading (Option Node) := do
  match (← get).current with
  | none => return none
  | some token =>
    if token.isWord then return some (.literal (← consume).value)
    else if token.kind = .wildcard then return some (.wildcard (← consume).value)
    else if token.isMark sigil then return some (← substitution list)
    else if token.isSymbol (quoteMarks.map String.singleton) then return some (← quote list)
    else return none

/-- A word, the sign after it, and the value that the sign touches. -/
def assignment : Reading Node := do
  let name ← consume
  let sign ← consume
  if sign.joinedRight then return .assign name.value (← value list)
  else return .assign name.value none

/-- An operator and its target. -/
def redirect : Reading Node := do
  let operator ← consume
  match ← value list with
  | none => fail (.missingTarget operator)
  | some target => return .redirect operator.value target

/-- An assignment, a sign that assigns nothing, or a value; nothing if none of them comes next. -/
def argument : Reading (Option Node) := do
  let cursor ← get
  if cursor.atAssignment false then return some (← assignment list)
  else if cursor.atMark assign then return some (.literal (← consume).value)
  else value list

/-- What may stand in front of the head of a command. -/
def leadingPart : Reading (Option CommandPart) := do
  let cursor ← get
  if cursor.atAssignment true then return some (.assignment (← assignment list))
  else if cursor.atRedirect then return some (.redirect (← redirect list))
  else return none

/-- The word or substitution that names a command; nothing if none of them comes next. -/
def head : Reading (Option Node) := do
  match (← get).current with
  | none => return none
  | some token =>
    if token.isWord then return some (.literal (← consume).value)
    else if token.isMark sigil then return some (← substitution list)
    else return none

/-- What may follow the head of a command. -/
def trailingPart : Reading (Option CommandPart) := do
  match ← argument list with
  | some node => return some (.argument node)
  | none =>
    if (← get).atRedirect then return some (.redirect (← redirect list)) else return none

/-- A command. Without a head it needs an assignment or a redirect. -/
def command : Reading Node := do
  let leading ← many (leadingPart list)
  match ← head list with
  | some name =>
    let trailing ← many (trailingPart list)
    return assemble (some name) (leading ++ trailing)
  | none =>
    if leading.isEmpty then
      match (← get).current with
      | none => fail .missingCommand
      | some token => fail (.invalidHead token)
    else return assemble none leading

/-- A pipe and the command after it; nothing if no pipe comes next. -/
def nextStage : Reading (Option Node) := do
  if (← get).atMark pipe then
    let _ ← consume
    return some (← command list)
  else return none

/-- Commands joined by pipes, nested to the left. -/
def pipeline : Reading Node := do
  let first ← command list
  return (← many (nextStage list)).foldl .pipe first

/-- A semicolon and the pipeline after it; nothing if no semicolon comes next, or if it is the last
sign of the list. -/
def nextPipeline : Reading (Option Node) := do
  if (← get).atMark semicolon then
    let _ ← consume
    let cursor ← get
    if cursor.current.isNone || cursor.atMark closeParen then return none
    else return some (← pipeline list)
  else return none

/-- The tree of a list: a pipeline alone stands for itself. -/
def listNode (first : Node) (rest : List Node) : Node :=
  if rest.isEmpty then first else .sequence (first :: rest)

/-- Pipelines separated by semicolons. -/
def sequence : Reading Node := do
  let first ← pipeline list
  return listNode first (← many (nextPipeline list))

end Rules

/-- A list with so many levels of parentheses inside. Each level takes up tokens of its own, so that
when no level is left, there is no token for a command to start with either. -/
def listWithin : Nat → Reading Node
  | 0 => fail .missingCommand
  | levels + 1 => sequence (listWithin levels)

/-- A list inside the tokens that are still to be read. -/
def innerList (cursor : Cursor) : Reading Node :=
  listWithin cursor.remaining

/-- The rules that yield a tree. -/
inductive Rule where
  | list
  | pipeline
  | command
  | argument
  | value
  | assignment
  | redirect
  | substitution
  | quote
deriving DecidableEq, Repr, Inhabited

/-- Reads what a rule describes off the front of the tokens; arguments and values may be missing. -/
def Rule.read (rule : Rule) : Reading (Option Node) := do
  let list := innerList (← get)
  match rule with
  | .list => some <$> sequence list
  | .pipeline => some <$> Grammar.pipeline list
  | .command => some <$> Grammar.command list
  | .argument => Grammar.argument list
  | .value => Grammar.value list
  | .assignment => some <$> Grammar.assignment list
  | .redirect => some <$> Grammar.redirect list
  | .substitution => some <$> Grammar.substitution list
  | .quote => some <$> Grammar.quote list

/-- Reads all tokens as one list. Comments alone are an empty list. -/
def parse : Reading Node := do
  let cursor ← get
  if cursor.commentOnly then
    report .debug "Only comments, nothing to parse"
    return .sequence []
  else
    let tree ← sequence (innerList cursor)
    match (← get).current with
    | some token =>
      if token.isMark closeParen then fail (.unmatchedParen token)
      else fail (.unexpectedToken token)
    | none =>
      report .debug ("Parsed " ++ toString cursor.tokens.size ++ " tokens into " ++ tree.className)
      return tree

end Grammar

/-- The tree of a list of tokens, or the first structural fault. -/
def parse (tokens : List Token) (maxDepth : Int := defaultMaxDepth) : Except StructuralFault Node :=
  match Grammar.parse.run (Cursor.ofTokens tokens maxDepth) with
  | .ok tree _ => .ok tree
  | .error fault _ => .error fault

end ShellLine
