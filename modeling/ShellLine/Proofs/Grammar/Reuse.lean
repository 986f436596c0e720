import ShellLine.Proofs.Grammar.Parallel

/-! # One rule after another

A rule moves the cursor on and adds to the log, and leaves everything else as it was, whatever it
comes to: the depth is lowered as often as it was raised, also on the way out of a fault. So a
cursor may be used again. Of rules that are read one after another on the same cursor, each comes to
what it comes to on a cursor of its own at the same place, also if others before it failed
(`Rule.outcome_afterAll`).
-/

namespace ShellLine.Cursor

/-- There are the same tokens and the same limit on nesting as before, and as many constructs around
the next token. -/
structure Keeps (cursor after : Cursor) : Prop where
  tokens : after.tokens = cursor.tokens
  maxDepth : after.maxDepth = cursor.maxDepth
  depth : after.depth = cursor.depth

theorem Keeps.refl (cursor : Cursor) : cursor.Keeps cursor :=
  ⟨rfl, rfl, rfl⟩

theorem Keeps.trans {cursor middle after : Cursor} (first : cursor.Keeps middle)
    (second : middle.Keeps after) : cursor.Keeps after where
  tokens := second.tokens.trans first.tokens
  maxDepth := second.maxDepth.trans first.maxDepth
  depth := second.depth.trans first.depth

theorem Steady.keeps {α : Type} {action : Reading α} (steady : Steady action) (cursor : Cursor) :
    Ensures action cursor (fun _ after => cursor.Keeps after) fun _ after => cursor.Keeps after := by
  unfold Ensures
  split
  case h_1 ran =>
    obtain ⟨count, _, rfl⟩ := steady.of_ok ran
    exact ⟨rfl, rfl, rfl⟩
  case h_2 ran =>
    obtain ⟨count, _, rfl⟩ := steady.of_error ran
    exact ⟨rfl, rfl, rfl⟩

end ShellLine.Cursor

namespace ShellLine.Grammar.Rule

open Cursor

theorem read_steady (rule : Rule) : Steady rule.read := by
  intro cursor
  rw [rule.read_run]
  exact rule.readWith_steady (listWithin_steady cursor.remaining) cursor

/-- Whatever a rule comes to, the tokens, the limit on nesting and the depth are the same after it. -/
theorem read_keeps (rule : Rule) (cursor : Cursor) :
    Ensures rule.read cursor (fun _ after => cursor.Keeps after) fun _ after => cursor.Keeps after :=
  rule.read_steady.keeps cursor

/-! ## Rules in turn -/

/-- The cursor after a rule, whatever the rule comes to. -/
def after (rule : Rule) (cursor : Cursor) : Cursor :=
  match rule.read.run cursor with
  | .ok _ after => after
  | .error _ after => after

theorem keeps_after (rule : Rule) (cursor : Cursor) : cursor.Keeps (rule.after cursor) := by
  have keeps := rule.read_steady.keeps cursor
  rw [after]
  cases ran : rule.read.run cursor with
  | ok found after => exact keeps.of_ok ran
  | error fault after => exact keeps.of_error ran

/-- The cursor after rules that are read one after another, whatever they come to. -/
def afterAll (rules : List Rule) (cursor : Cursor) : Cursor :=
  rules.foldl (fun cursor rule => rule.after cursor) cursor

theorem keeps_afterAll (rules : List Rule) (cursor : Cursor) :
    cursor.Keeps (afterAll rules cursor) := by
  induction rules generalizing cursor with
  | nil => exact .refl cursor
  | cons rule rules ih => exact (rule.keeps_after cursor).trans (ih (rule.after cursor))

/-- What a rule comes to, and how many tokens are read by then. -/
def outcome (rule : Rule) (cursor : Cursor) : Except StructuralFault (Option Node) × Nat :=
  match rule.read.run cursor with
  | .ok found after => (.ok found, after.pos)
  | .error fault after => (.error fault, after.pos)

/-- At the same place among the same tokens, as deep and under the same limit, a rule comes to the
same. -/
theorem outcome_eq (rule : Rule) {cursor cursor' : Cursor} (keeps : cursor.Keeps cursor')
    (place : cursor'.pos = cursor.pos) : rule.outcome cursor' = rule.outcome cursor := by
  have abreast : (alongside cursor).Abreast cursor.pos cursor cursor' :=
    ⟨rfl, keeps.tokens, rfl, keeps.maxDepth, place, keeps.depth, trivial, le_refl _⟩
  have meets := rule.read_agrees abreast
  unfold View.Agrees at meets
  rw [outcome, outcome]
  cases ran : rule.read.run cursor with
  | ok found after =>
    rw [ran] at meets
    obtain ⟨after', ran', place⟩ := ok_of_meets meets
    rw [ran']
    exact congrArg (Prod.mk _) place
  | error fault after =>
    rw [ran] at meets
    obtain ⟨after', ran', place⟩ := error_of_meets meets
    rw [ran']
    exact congrArg (Prod.mk _) place

/-- After any rules on the same cursor, a rule comes to what it comes to on a cursor of its own that
starts at the same place. -/
theorem outcome_afterAll (before : List Rule) (rule : Rule) (cursor : Cursor) :
    rule.outcome (afterAll before cursor) =
      rule.outcome { cursor with pos := (afterAll before cursor).pos } := by
  obtain ⟨tokens, maxDepth, depth⟩ := keeps_afterAll before cursor
  exact rule.outcome_eq ⟨tokens, maxDepth, depth⟩ rfl

end ShellLine.Grammar.Rule
