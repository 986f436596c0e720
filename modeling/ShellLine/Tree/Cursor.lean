import ShellLine.Alphabet
import ShellLine.Log
import ShellLine.Text.VariableName
import ShellLine.Tree.Fault

/-! # Cursors

A cursor holds a list of tokens, the place reached in it, and how deep the constructs around that
place are nested. Comments are dropped from the list beforehand. A failure is logged where it
arises and leaves the cursor as it then is; only the nesting depth is always restored.

The tokens ahead, `Cursor.rest`, are the view of a cursor: `consume_run` says what is taken off
them, and `nested_run` that every nested action ends with the depth lowered again.
-/

namespace ShellLine

open Alphabet

/-- How many substitutions and quotes may be nested unless another limit is given. -/
def defaultMaxDepth : Int := 100

/-- Tokens to be read as a tree, with the state of reading them. -/
structure Cursor where
  /-- The tokens, without comments. -/
  tokens : Array Token
  /-- Whether there were comments and nothing else. -/
  commentOnly : Bool
  /-- How many substitutions and quotes may be nested. -/
  maxDepth : Int := defaultMaxDepth
  logger : String := "ShellParser"
  /-- The number of tokens already read. -/
  pos : Nat := 0
  /-- The number of substitutions and quotes around the next token. -/
  depth : Int := 0
  /-- The log, oldest record first. -/
  log : List LogRecord := []
deriving DecidableEq, Repr, Inhabited

/-- An action on a cursor, which keeps its state also when it fails. -/
abbrev Reading := EStateM StructuralFault Cursor

namespace Cursor

/-- A cursor at the start of a token list. -/
def ofTokens (tokens : List Token) (maxDepth : Int := defaultMaxDepth)
    (logger : String := "ShellParser") : Cursor :=
  let kept := tokens.filter fun token => token.kind != .comment
  { tokens := kept.toArray
    commentOnly := !tokens.isEmpty && kept.isEmpty
    maxDepth, logger }

/-! ## The tokens ahead -/

/-- The tokens that are still to be read. -/
def rest (cursor : Cursor) : List Token :=
  cursor.tokens.toList.drop cursor.pos

/-- How many tokens are still to be read. -/
def remaining (cursor : Cursor) : Nat :=
  cursor.tokens.size - cursor.pos

/-- The token so many places ahead. -/
def peek (cursor : Cursor) (offset : Nat) : Option Token :=
  cursor.tokens[cursor.pos + offset]?

/-- The next token. -/
def current (cursor : Cursor) : Option Token :=
  cursor.peek 0

/-- Whether the next token is one of the given symbols; no values at all stand for any symbol. -/
def atSymbol (cursor : Cursor) (values : List String) : Bool :=
  cursor.current.any (·.isSymbol values)

/-- Whether the next token is the symbol of one character. -/
def atMark (cursor : Cursor) (mark : Char) : Bool :=
  cursor.current.any (·.isMark mark)

/-- Whether the next token is a redirect operator. -/
def atRedirect (cursor : Cursor) : Bool :=
  cursor.atSymbol redirectOperators

/-- Whether the next two tokens are a word that is not reserved and the sign that assigns to it. In
front of a command the word has to be the name of a variable. -/
def atAssignment (cursor : Cursor) (leading : Bool) : Bool :=
  match cursor.current, cursor.peek 1 with
  | some name, some sign =>
    name.kind == .literal && sign.isMark assign && (!leading || Text.isVariableName name.value) &&
      sign.joinedLeft
  | _, _ => false

/-- `remaining` counts the tokens ahead. -/
theorem remaining_eq_length (cursor : Cursor) : cursor.remaining = cursor.rest.length := by
  simp [remaining, rest]

/-- Looking ahead looks into the tokens ahead. -/
theorem peek_eq_getElem? (cursor : Cursor) (offset : Nat) :
    cursor.peek offset = cursor.rest[offset]? := by
  simp [peek, rest]

/-- The next token is the first of the tokens ahead. -/
theorem current_eq_head? (cursor : Cursor) : cursor.current = cursor.rest.head? := by
  rw [current, peek_eq_getElem?, List.head?_eq_getElem?]

/-! ## Basic actions -/

/-- Adds a record to the log. -/
def report (level : LogLevel) (message : String) : Reading Unit :=
  modify fun cursor => { cursor with log := cursor.log ++ [⟨cursor.logger, level, message⟩] }

/-- Logs a fault and stops. -/
def fail {α : Type} (fault : StructuralFault) : Reading α := do
  report .warning ("Parse error " ++ fault.kind.label ++ ": " ++ fault.detail)
  throw fault

/-- Reads the next token. -/
def consume : Reading Token := do
  match (← get).current with
  | none => fail .missingToken
  | some token =>
    modify fun cursor => { cursor with pos := cursor.pos + 1 }
    return token

/-- Goes one level deeper, because of the given token. -/
def descend (opening : Token) : Reading Unit := do
  modify fun cursor => { cursor with depth := cursor.depth + 1 }
  let cursor ← get
  if cursor.maxDepth < cursor.depth then fail (.nestingTooDeep cursor.maxDepth opening)

/-- Goes back up one level. -/
def ascend : Reading Unit :=
  modify fun cursor => { cursor with depth := cursor.depth - 1 }

/-- Runs an action one level deeper, and goes back up also when it fails. -/
def nested {α : Type} (opening : Token) (body : Reading α) : Reading α := do
  try
    descend opening
    body
  finally
    ascend

/-- Runs an action until it yields nothing, at most so many times. -/
def repeatUpTo {α : Type} (item : Reading (Option α)) : Nat → Reading (List α)
  | 0 => return []
  | bound + 1 => do
    match ← item with
    | none => return []
    | some found => return found :: (← repeatUpTo item bound)

/-- Runs an action until it yields nothing. The action reads a token whenever it yields something,
so that it yields nothing at the latest when there are no more tokens. -/
def many {α : Type} (item : Reading (Option α)) : Reading (List α) := do
  repeatUpTo item (← get).remaining

/-- Reading a token takes the first one off the tokens ahead, and fails if there is none. -/
theorem consume_run (cursor : Cursor) :
    consume.run cursor =
      match cursor.rest with
      | [] => (fail .missingToken : Reading Token).run cursor
      | token :: _ => .ok token { cursor with pos := cursor.pos + 1 } := by
  have view := cursor.current_eq_head?
  rw [consume, EStateM.run_bind, EStateM.run_get]
  cases ahead : cursor.rest with
  | nil =>
    rw [ahead] at view
    simp only [view, List.head?_nil]
  | cons token later =>
    rw [ahead] at view
    simp only [view, List.head?_cons, EStateM.run_bind, EStateM.run_modify, EStateM.run_pure]

/-- A fault is logged as a warning, and nothing else changes. -/
theorem fail_run {α : Type} (fault : StructuralFault) (cursor : Cursor) :
    (fail fault : Reading α).run cursor =
      .error fault { cursor with log := cursor.log ++ [⟨cursor.logger, .warning,
        "Parse error " ++ fault.kind.label ++ ": " ++ fault.detail⟩] } :=
  rfl

/-- Going deeper fails exactly beyond the limit. -/
theorem descend_run (opening : Token) (cursor : Cursor) :
    (descend opening).run cursor =
      if cursor.maxDepth < cursor.depth + 1 then
        (fail (.nestingTooDeep cursor.maxDepth opening) : Reading Unit).run
          { cursor with depth := cursor.depth + 1 }
      else .ok () { cursor with depth := cursor.depth + 1 } := by
  rw [descend, EStateM.run_bind, EStateM.run_modify]
  simp only [EStateM.run_bind, EStateM.run_get]
  split <;> rfl

/-- The nested action runs one level deeper if the limit allows that, and the depth is lowered after
it whatever it comes to. -/
theorem nested_run {α : Type} (opening : Token) (body : Reading α) (cursor : Cursor) :
    (nested opening body).run cursor =
      if cursor.maxDepth < cursor.depth + 1 then
        (fail (.nestingTooDeep cursor.maxDepth opening) : Reading α).run cursor
      else
        match body.run { cursor with depth := cursor.depth + 1 } with
        | .ok result after => .ok result { after with depth := after.depth - 1 }
        | .error fault after => .error fault { after with depth := after.depth - 1 } := by
  have started := descend_run opening cursor
  simp only [EStateM.run] at started
  simp only [nested, tryFinally, MonadFinally.tryFinally', Functor.map, EStateM.map, EStateM.run,
    bind, EStateM.bind, started]
  by_cases deep : cursor.maxDepth < cursor.depth + 1
  · simp only [deep, ↓reduceIte]
    have restored : cursor.depth + 1 - 1 = cursor.depth := by omega
    let fault := StructuralFault.nestingTooDeep cursor.maxDepth opening
    calc _ = (fail fault : Reading α).run { cursor with depth := cursor.depth + 1 - 1 } := rfl
      _ = (fail fault : Reading α).run cursor := by rw [restored]
  · simp only [deep, ↓reduceIte]
    cases body { cursor with depth := cursor.depth + 1 } <;> rfl

end Cursor

end ShellLine
