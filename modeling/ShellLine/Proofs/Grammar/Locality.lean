import ShellLine.Proofs.Reading.Locality
import ShellLine.Tree.Grammar

/-! # Where the rules call each other again

The only call that closes a circle among the rules is that of a list in parentheses, and it comes
after two tokens. So every rule is the same with another reader of these lists, as long as that one
is the same where fewer tokens are ahead: one lemma a rule. The levels of `listWithin` are then as
good as unlimited recursion: where as many are allowed as there are tokens ahead, what is done
behind the last one plays no part (`Rule.read_run_of_levels`).
-/

namespace ShellLine.Grammar

open Cursor

theorem fragment_local (bound : Nat) (opening : Token) :
    SameBelow bound (fragment opening) (fragment opening) := by
  refine .get_bind fun seen => ?_
  cases seen.current with
  | none => exact .fail _
  | some token => exact .ite _ (.consume_bind fun _ => .pure _) (.fail _)

section Rules

variable {list list' : Reading Node} {bound : Nat} (lists : SameBelow bound list list')
include lists

theorem substitution_local : SameBehind (bound + 1) (substitution list) (substitution list') := by
  refine .consume_bind_later fun opening => .nested opening (.get_bind fun seen => ?_)
  cases seen.current with
  | none => exact .fail _
  | some token =>
    refine .ite _ (.consume_bind fun _ => .pure _) (.ite _ ?_ (.fail _))
    refine .consume_bind fun _ => lists.bind fun body => .get_bind fun seen => ?_
    exact .ite _ (.consume_bind fun _ => .pure _) (.fail _)

theorem interpolation_local (opening : Token) :
    SameBelow (bound + 1) (interpolation list opening) (interpolation list' opening) := by
  refine .get_bind fun seen => ?_
  cases seen.current with
  | none => exact .pure none
  | some token =>
    refine .ite _ (.pure none) (.ite _ ?_ (.fail _))
    exact (substitution_local lists).bind fun _ => (fragment_local _ opening).bind_pure

theorem quote_local : SameBehind (bound + 1) (quote list) (quote list') := by
  refine .consume_bind fun opening => .nested opening ?_
  refine (fragment_local _ opening).bind fun text => ?_
  refine (SameBelow.many (interpolation_local lists opening)).bind fun parts => ?_
  refine .get_bind fun seen => ?_
  cases seen.current with
  | none => exact .fail _
  | some _ => exact .consume_bind fun _ => .pure _

theorem value_local : SameBelow (bound + 1) (value list) (value list') := by
  refine .get_bind fun seen => ?_
  cases seen.current with
  | none => exact .pure none
  | some token =>
    refine .ite _ (.consume_bind fun _ => .pure _) (.ite _ (.consume_bind fun _ => .pure _) ?_)
    refine .ite _ ?_ (.ite _ ?_ (.pure none))
    · exact (substitution_local lists).bind_pure
    · exact (quote_local lists).bind_pure

theorem assignment_local : SameBehind (bound + 1) (assignment list) (assignment list') := by
  refine .consume_bind fun name => .consume_bind fun sign => ?_
  exact .ite _ (value_local lists).bind_pure (.pure _)

theorem redirect_local : SameBehind (bound + 1) (redirect list) (redirect list') := by
  refine .consume_bind fun operator => (value_local lists).bind fun target => ?_
  cases target with
  | none => exact .fail _
  | some target => exact .pure _

theorem argument_local : SameBelow (bound + 1) (argument list) (argument list') := by
  refine .get_bind fun seen => .ite _ (assignment_local lists).bind_pure ?_
  exact .ite _ (.consume_bind fun _ => .pure _) (value_local lists)

theorem leadingPart_local : SameBelow (bound + 1) (leadingPart list) (leadingPart list') := by
  refine .get_bind fun seen => .ite _ (assignment_local lists).bind_pure ?_
  exact .ite _ (redirect_local lists).bind_pure (.pure none)

theorem head_local : SameBelow (bound + 1) (head list) (head list') := by
  refine .get_bind fun seen => ?_
  cases seen.current with
  | none => exact .pure none
  | some token =>
    refine .ite _ (.consume_bind fun _ => .pure _) (.ite _ ?_ (.pure none))
    exact (substitution_local lists).bind_pure

theorem trailingPart_local : SameBelow (bound + 1) (trailingPart list) (trailingPart list') := by
  refine (argument_local lists).bind fun found => ?_
  cases found with
  | some node => exact .pure _
  | none => exact .get_bind fun seen => .ite _ (redirect_local lists).bind_pure (.pure none)

theorem command_local : SameBelow (bound + 1) (command list) (command list') := by
  refine (SameBelow.many (leadingPart_local lists)).bind fun leading => ?_
  refine (head_local lists).bind fun name => ?_
  cases name with
  | some name => exact (SameBelow.many (trailingPart_local lists)).bind_pure
  | none =>
    refine .ite _ (.get_bind fun seen => ?_) (.pure _)
    cases seen.current <;> exact .fail _

theorem nextStage_local : SameBelow (bound + 1) (nextStage list) (nextStage list') :=
  .get_bind fun _ => .ite _ (.consume_bind fun _ => (command_local lists).bind_pure) (.pure none)

theorem pipeline_local : SameBelow (bound + 1) (pipeline list) (pipeline list') :=
  (command_local lists).bind fun _ => (SameBelow.many (nextStage_local lists)).bind_pure

theorem nextPipeline_local : SameBelow (bound + 1) (nextPipeline list) (nextPipeline list') := by
  refine .get_bind fun _ => .ite _ (.consume_bind fun _ => .get_bind fun seen => ?_) (.pure none)
  exact .ite _ (.pure none) (pipeline_local lists).bind_pure

theorem sequence_local : SameBelow (bound + 1) (sequence list) (sequence list') :=
  (pipeline_local lists).bind fun _ => (SameBelow.many (nextPipeline_local lists)).bind_pure

end Rules

/-! ## All rules at once -/

namespace Rule

/-- What a rule describes, with the given reader of the lists in parentheses. -/
def readWith (list : Reading Node) : Rule → Reading (Option Node)
  | .list => some <$> sequence list
  | .pipeline => some <$> Grammar.pipeline list
  | .command => some <$> Grammar.command list
  | .argument => Grammar.argument list
  | .value => Grammar.value list
  | .assignment => some <$> Grammar.assignment list
  | .redirect => some <$> Grammar.redirect list
  | .substitution => some <$> Grammar.substitution list
  | .quote => some <$> Grammar.quote list

theorem read_run (rule : Rule) (cursor : Cursor) :
    rule.read.run cursor = (rule.readWith (innerList cursor)).run cursor := by
  rw [read, get_bind_run]
  cases rule <;> rfl

theorem readWith_local {list list' : Reading Node} {bound : Nat}
    (lists : SameBelow bound list list') (rule : Rule) :
    SameBelow (bound + 1) (rule.readWith list) (rule.readWith list') := by
  cases rule with
  | list => exact (sequence_local lists).bind_pure
  | pipeline => exact (pipeline_local lists).bind_pure
  | command => exact (command_local lists).bind_pure
  | argument => exact argument_local lists
  | value => exact value_local lists
  | assignment => exact (assignment_local lists).bind_pure
  | redirect => exact (redirect_local lists).bind_pure
  | substitution => exact (substitution_local lists).bind_pure
  | quote => exact (quote_local lists).bind_pure

/-- A rule is steady if the reader of the lists in it is. -/
theorem readWith_steady {list : Reading Node} (steady : Steady list) (rule : Rule) :
    Steady (rule.readWith list) :=
  (rule.readWith_local (.zero steady list)).steady

end Rule

/-! ## Levels of lists -/

/-- A list with so many levels of parentheses inside, and the given action for a list that is still
further inside. -/
def listOver (beyond : Reading Node) : Nat → Reading Node
  | 0 => beyond
  | levels + 1 => sequence (listOver beyond levels)

/-- On more levels than there are tokens ahead, the last level is not reached. -/
theorem listOver_local (beyond : Reading Node) (levels : Nat) :
    SameBelow levels (listWithin levels) (listOver beyond levels) := by
  induction levels with
  | zero => exact .zero (.fail .missingCommand) beyond
  | succ levels ih => exact sequence_local ih

/-- Reading a list moves on and does nothing else. -/
theorem listWithin_steady (levels : Nat) : Steady (listWithin levels) :=
  (listOver_local (listWithin 0) levels).steady

theorem listOver_listWithin (more levels : Nat) :
    listOver (listWithin more) levels = listWithin (levels + more) := by
  induction levels with
  | zero => rw [Nat.zero_add, listOver]
  | succ levels ih => rw [Nat.succ_add, listOver, ih, listWithin]

/-- Where there are levels enough for all tokens ahead, a rule comes to the same, no matter how many
there are and what is done beyond them. -/
theorem Rule.read_run_of_levels (rule : Rule) {cursor : Cursor} {levels : Nat}
    (enough : cursor.remaining ≤ levels) (beyond : Reading Node) :
    (rule.readWith (listOver beyond levels)).run cursor = rule.read.run cursor := by
  have unreached {levels : Nat} (enough : cursor.remaining ≤ levels) (beyond : Reading Node) :
      (rule.readWith (listOver beyond levels)).run cursor =
        (rule.readWith (listWithin levels)).run cursor :=
    (rule.readWith_local (listOver_local beyond levels)).same cursor (Nat.lt_succ_of_le enough)
  obtain ⟨more, rfl⟩ := Nat.exists_eq_add_of_le enough
  calc (rule.readWith (listOver beyond (cursor.remaining + more))).run cursor
    _ = (rule.readWith (listWithin (cursor.remaining + more))).run cursor := unreached enough beyond
    _ = (rule.readWith (listOver (listWithin more) cursor.remaining)).run cursor := by
      rw [listOver_listWithin]
    _ = (rule.readWith (listWithin cursor.remaining)).run cursor :=
      unreached (Nat.le_refl _) (listWithin more)
    _ = rule.read.run cursor := (rule.read_run cursor).symm

end ShellLine.Grammar
