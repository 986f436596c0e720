import ShellLine.CommandLine
import ShellLine.Proofs.Grammar.Limits

/-! # What is logged about a line

Each stage adds one record to the log, whatever it comes to: the rules of the grammar are `Steady`,
so that a fault is logged once on its way out and nothing is logged before it. `readLine_eq` says
what a line is read into and what is logged about it, with any loggers.
-/

namespace ShellLine

/-- The part of the full text that tells where the fault is. -/
def Diagnostic.suffix (diagnostic : Diagnostic) : String :=
  match diagnostic.pos with
  | none => ""
  | some pos => " at pos " ++ toString pos

theorem Diagnostic.message_eq (diagnostic : Diagnostic) :
    diagnostic.message = diagnostic.detail ++ diagnostic.suffix := by
  rw [message, suffix]
  cases diagnostic.pos with
  | none => exact String.append_empty.symm
  | some pos => exact String.append_assoc ..

/-- The record with another logger. -/
def LogRecord.sentTo (record : LogRecord) (logger : String) : LogRecord :=
  { record with logger }

/-! ## The record of the first stage -/

/-- What is logged about the text of a line. -/
def scanRecord (logger line : String) : Except LexicalFault (List Token) → LogRecord
  | .ok tokens => ⟨logger, .debug, Tokenizer.summary { text := line } tokens⟩
  | .error fault => ⟨logger, .warning, "Lex error " ++ fault.kind.label ++ ": " ++ fault.detail⟩

/-- Reading a text logs one record, and what it is read into does not depend on the logger. -/
theorem tokenize_records (line logger : String) :
    match Tokenizer.tokenize.run { text := line, logger } with
    | .ok tokens after =>
      tokenize line = .ok tokens ∧ after.log = [scanRecord logger line (.ok tokens)]
    | .error fault after =>
      tokenize line = .error fault ∧ after.log = [scanRecord logger line (.error fault)] := by
  rw [tokenize_eq, Tokenizer.tokenize_run]
  simp only [Tokenizer.lengthFault, Option.bind_none]
  obtain ⟨last, fault⟩ := (Scanner.ofText line.toList).finish false
  cases fault with
  | none => exact ⟨rfl, rfl⟩
  | some fault => exact ⟨rfl, rfl⟩

/-! ## The record of the second stage -/

namespace Grammar

open Cursor

/-- How the tree of the tokens at a cursor is summed up. -/
def summary (cursor : Cursor) (tree : Node) : String :=
  if cursor.commentOnly then "Only comments, nothing to parse"
  else "Parsed " ++ toString cursor.tokens.size ++ " tokens into " ++ tree.className

/-- What is logged about the tokens at a cursor. -/
def record (cursor : Cursor) : Except StructuralFault Node → LogRecord
  | .ok tree => ⟨cursor.logger, .debug, summary cursor tree⟩
  | .error fault => ⟨cursor.logger, .warning,
      "Parse error " ++ fault.kind.label ++ ": " ++ fault.detail⟩

/-- A whole list of tokens is summed up, unless a token is left over. -/
theorem conclude_run (count : Nat) (tree : Node) (cursor : Cursor) :
    (conclude count tree).run cursor =
      match cursor.current with
      | some token => (fail (if token.isMark Alphabet.closeParen then .unmatchedParen token
          else .unexpectedToken token) : Reading Node).run cursor
      | none => .ok tree { cursor with log := cursor.log ++ [⟨cursor.logger, .debug,
          "Parsed " ++ toString count ++ " tokens into " ++ tree.className⟩] } := by
  rw [conclude, get_bind_run]
  cases cursor.current with
  | none => rfl
  | some token => by_cases closing : token.isMark Alphabet.closeParen <;> simp only [closing] <;> rfl

/-- Comments alone are not read. -/
theorem parse_run_of_commentOnly {cursor : Cursor} (comments : cursor.commentOnly = true) :
    Grammar.parse.run cursor = .ok (.sequence []) { cursor with log := cursor.log ++
      [⟨cursor.logger, .debug, "Only comments, nothing to parse"⟩] } := by
  rw [Grammar.parse, get_bind_run, if_pos comments]
  rfl

/-- Whatever tokens are read into, that adds one record to the log. -/
theorem parse_logs (cursor : Cursor) :
    match Grammar.parse.run cursor with
    | .ok tree after => after.log = cursor.log ++ [record cursor (.ok tree)]
    | .error fault after => after.log = cursor.log ++ [record cursor (.error fault)] := by
  cases comments : cursor.commentOnly with
  | true =>
    rw [parse_run_of_commentOnly comments]
    simp only [record, summary, comments, ↓reduceIte]
  | false =>
    rw [parse_run comments, EStateM.run_bind]
    have steady : Steady (sequence (innerList cursor)) := listWithin_steady (cursor.remaining + 1)
    cases read : (sequence (innerList cursor)).run cursor with
    | error fault after =>
      -- The fault is logged where it arises, and no rule that it passes on its way logs anything.
      obtain ⟨count, _, rfl⟩ := steady.of_error read
      rfl
    | ok tree after =>
      obtain ⟨count, _, rfl⟩ := steady.of_ok read
      simp only [conclude_run]
      cases (cursor.advance count).current with
      | some token => rfl
      | none => simp only [record, summary, comments]; rfl

/-- With another logger, tokens are read into the same. -/
theorem parse_meets (cursor : Cursor) (logger : String) :
    (alongside cursor).Meets cursor.pos (Grammar.parse.run cursor)
      (Grammar.parse.run { cursor with logger }) := by
  have abreast : (alongside cursor).Abreast cursor.pos cursor { cursor with logger } :=
    ⟨rfl, rfl, rfl, rfl, rfl, rfl, trivial, le_refl _⟩
  by_cases comments : cursor.commentOnly = true
  · have comments' : { cursor with logger }.commentOnly = true := comments
    rw [parse_run_of_commentOnly comments, parse_run_of_commentOnly comments']
    exact fun _ => ⟨_, rfl, { abreast with }⟩
  · have mixed : cursor.commentOnly = false := Bool.eq_false_of_not_eq_true comments
    exact parse_agrees mixed mixed abreast

end Grammar

/-- Reading tokens logs one record, and what they are read into does not depend on the logger. -/
theorem parse_records (tokens : List Token) (maxDepth : Int) (logger : String) :
    match Grammar.parse.run (Cursor.ofTokens tokens maxDepth logger) with
    | .ok tree after => parse tokens maxDepth = .ok tree ∧
        after.log = [Grammar.record (Cursor.ofTokens tokens maxDepth logger) (.ok tree)]
    | .error fault after => parse tokens maxDepth = .error fault ∧
        after.log = [Grammar.record (Cursor.ofTokens tokens maxDepth logger) (.error fault)] := by
  have logs := Grammar.parse_logs (Cursor.ofTokens tokens maxDepth logger)
  have meets := Grammar.parse_meets (Cursor.ofTokens tokens maxDepth logger) "ShellParser"
  change Cursor.View.Meets _ _ _ (Grammar.parse.run (Cursor.ofTokens tokens maxDepth)) at meets
  cases ran : Grammar.parse.run (Cursor.ofTokens tokens maxDepth logger) with
  | ok tree after =>
    rw [ran] at logs meets
    obtain ⟨after', ran', _⟩ := Grammar.ok_of_meets meets
    exact ⟨by rw [parse, ran'], logs⟩
  | error fault after =>
    rw [ran] at logs meets
    obtain ⟨after', ran', _⟩ := Grammar.error_of_meets meets
    exact ⟨by rw [parse, ran'], logs⟩

/-! ## The log of a line -/

/-- The record of the parser about tokens. -/
def treeRecord (logger : String) (tokens : List Token) : Except StructuralFault Node → LogRecord :=
  Grammar.record (Cursor.ofTokens tokens defaultMaxDepth logger)

/-- What a line is read into and what is logged about it, stage by stage. -/
theorem readLine_eq (line : String) (logger : Option String) :
    readLine line logger =
      let scanned := scanRecord (logger.getD "ShellLexer") line
      let built := treeRecord (logger.getD "ShellParser")
      match tokenize line with
      | .error fault => (.error (.lexical fault), [scanned (.error fault)])
      | .ok tokens =>
        match parse tokens with
        | .error fault =>
          (.error (.structural fault), [scanned (.ok tokens), built tokens (.error fault)])
        | .ok tree => (.ok tree, [scanned (.ok tokens), built tokens (.ok tree)]) := by
  have lexed := tokenize_records line (logger.getD "ShellLexer")
  rw [readLine]
  cases ran : Tokenizer.tokenize.run { text := line, logger := logger.getD "ShellLexer" } with
  | error fault after =>
    rw [ran] at lexed
    simp only [lexed.1, lexed.2]
  | ok tokens after =>
    rw [ran] at lexed
    have parsed := parse_records tokens defaultMaxDepth (logger.getD "ShellParser")
    simp only [lexed.1, lexed.2]
    cases ran' : Grammar.parse.run
        (Cursor.ofTokens tokens defaultMaxDepth (logger.getD "ShellParser")) with
    | error fault last =>
      rw [ran'] at parsed
      simp only [parsed.1, parsed.2]
      rfl
    | ok tree last =>
      rw [ran'] at parsed
      simp only [parsed.1, parsed.2]
      rfl

example : (readLine "ls )").2 =
    [⟨"ShellLexer", .debug, "Tokenized 4 chars into 2 tokens"⟩,
      ⟨"ShellParser", .warning, "Parse error UNBALANCED_PARENTHESIS: Unmatched ')'"⟩] := rfl

/-- What the log holds about a line, by what the line is read into: one record of each stage that
was reached. On a fault the last of them is a warning, with the kind and the bare text of the
fault. -/
inductive Logged (lexer parser line : String) : Except LineFault Node → List LogRecord → Prop
  | read {tokens : List Token} {tree : Node} : tokenize line = .ok tokens →
    Logged lexer parser line (.ok tree)
      [⟨lexer, .debug, Tokenizer.summary { text := line } tokens⟩,
        ⟨parser, .debug, Grammar.summary (Cursor.ofTokens tokens) tree⟩]
  | lexical {fault : LexicalFault} {bare : String} :
    fault.diagnostic.message = bare ++ fault.diagnostic.suffix →
    Logged lexer parser line (.error (.lexical fault))
      [⟨lexer, .warning, "Lex error " ++ fault.diagnostic.kind.label ++ ": " ++ bare⟩]
  | structural {tokens : List Token} {fault : StructuralFault} {bare : String} :
    tokenize line = .ok tokens → fault.diagnostic.message = bare ++ fault.diagnostic.suffix →
    Logged lexer parser line (.error (.structural fault))
      [⟨lexer, .debug, Tokenizer.summary { text := line } tokens⟩,
        ⟨parser, .warning, "Parse error " ++ fault.diagnostic.kind.label ++ ": " ++ bare⟩]

/-- Every failure is logged once, and a success by no warning. Another logger gets the same records,
and does not change what the line is read into. -/
theorem readLine_logs (line : String) :
    Logged "ShellLexer" "ShellParser" line (parseLine line) (readLine line).2 ∧
    ∀ logger : String, readLine line (some logger) =
      (parseLine line, (readLine line).2.map (·.sentTo logger)) := by
  rw [parseLine]
  simp only [readLine_eq, Option.getD_none, Option.getD_some]
  cases ran : tokenize line with
  | error fault => exact ⟨.lexical fault.diagnostic.message_eq, fun logger => rfl⟩
  | ok tokens =>
    dsimp only
    cases parse tokens with
    | error fault => exact ⟨.structural ran fault.diagnostic.message_eq, fun logger => rfl⟩
    | ok tree => exact ⟨.read ran, fun logger => rfl⟩

end ShellLine
