import ShellLine.Proofs.Grammar.Completeness
import ShellLine.Proofs.Grammar.Parallel
import ShellLine.Proofs.Reading.Reports

/-! # What the rules report

Each rule reads a token only after a look at it, and blames the token it looked at, the one that
opened the construct, or the operator in front. Only a command, the first thing in every list, is
missed where no token is left. A list inside parentheses has two tokens fewer ahead, so that as many
levels as there are tokens are enough.
-/

namespace ShellLine.Grammar

open Alphabet Cursor

/-- Lists report wherever no more than so many tokens are ahead. -/
def ReportingList (list : Reading Node) (bound : Nat) : Prop :=
  ∀ cursor : Cursor, cursor.remaining ≤ bound → Reports list cursor

theorem fragment_reports {opening : Token} {cursor : Cursor} (seen : cursor.Seen opening) :
    Reports (fragment opening) cursor := by
  apply Reports.get_bind
  cases current : cursor.current with
  | none => exact .fail seen
  | some token =>
    exact .ite (fun _ => .consume_bind current (.pure _)) fun _ => .fail (Seen.of_current current)

section Rules

variable {list : Reading Node} {bound : Nat} (inner : ReportingList list bound) {cursor : Cursor}
  (enough : cursor.remaining ≤ bound + 1)
include inner enough

theorem substitution_reports {opening : Token} (current : cursor.current = some opening) :
    Reports (substitution list) cursor := by
  have seen := (Seen.of_current current).mono (.advance cursor 1)
  have fewer := remaining_advance_lt current
  refine .consume_bind current (.nested seen (.get_bind ?_))
  cases next : (cursor.advance 1).deeper.current with
  | none => exact .fail seen
  | some token =>
    refine .ite (fun _ => .consume_bind next (.pure _)) fun _ => .ite (fun _ => ?_) fun _ =>
      .fail (Seen.of_current next)
    have within : ((cursor.advance 1).deeper.advance 1).remaining ≤ bound := by
      have stillFewer : ((cursor.advance 1).deeper.advance 1).remaining <
          (cursor.advance 1).remaining := remaining_advance_lt next
      omega
    refine .consume_bind next ((inner _ within).bind fun body last reaches => .get_bind ?_)
    refine .ite (fun closes => ?_) fun _ => .fail ?_
    · obtain ⟨closing, current, _⟩ := exists_of_atMark closes
      exact .consume_bind current (.pure _)
    · exact (Seen.of_current next).mono ((Reaches.advance _ 1).trans reaches)

theorem interpolation_reports {opening : Token} (seen : cursor.Seen opening) :
    Reports (interpolation list opening) cursor := by
  apply Reports.get_bind
  cases current : cursor.current with
  | none => exact .pure none
  | some token =>
    refine .ite (fun _ => .pure none) fun _ => .ite (fun _ => ?_) fun _ =>
      .fail (Seen.of_current current)
    refine (substitution_reports inner enough current).bind fun node middle reaches => ?_
    exact (fragment_reports (seen.mono reaches)).bind_pure

theorem quote_reports {opening : Token} (current : cursor.current = some opening) :
    Reports (quote list) cursor := by
  have seen := (Seen.of_current current).mono (.advance cursor 1)
  have fewer := (Reaches.advance cursor 1).remaining_le
  have text : Reports (fragment opening) (cursor.advance 1).deeper := fragment_reports seen
  refine .consume_bind current (.nested seen (text.bind fun first middle reaches => ?_))
  have parts : Reports (many (interpolation list opening)) middle := .many fun after onward =>
    interpolation_reports inner
      ((reaches.trans onward).remaining_le.trans (fewer.trans enough))
      (seen.mono (reaches.trans onward))
  refine parts.bind fun rest last onward => .get_bind ?_
  cases current : last.current with
  | none => exact .fail (seen.mono (reaches.trans onward))
  | some closing => exact .consume_bind current (.pure _)

theorem value_reports : Reports (value list) cursor := by
  apply Reports.get_bind
  cases current : cursor.current with
  | none => exact .pure none
  | some token =>
    refine .ite (fun _ => .consume_bind current (.pure _)) fun _ =>
      .ite (fun _ => .consume_bind current (.pure _)) fun _ =>
      .ite (fun _ => ?_) fun _ => .ite (fun _ => ?_) fun _ => .pure none
    · exact (substitution_reports inner enough current).bind_pure
    · exact (quote_reports inner enough current).bind_pure

theorem assignment_reports {leading : Bool} (assigned : cursor.atAssignment leading) :
    Reports (assignment list) cursor := by
  obtain ⟨name, sign, later, ahead, _⟩ := exists_of_atAssignment assigned
  have next : (cursor.advance 1).rest = sign :: later := by simp [ahead]
  refine .consume_bind (current_of_rest ahead) (.consume_bind (current_of_rest next) ?_)
  refine .ite (fun _ => ?_) fun _ => .pure _
  rw [advance_advance]
  exact (value_reports inner ((Reaches.advance cursor 2).remaining_le.trans enough)).bind_pure

theorem redirect_reports (redirects : cursor.atRedirect) : Reports (redirect list) cursor := by
  obtain ⟨operator, current, _⟩ := exists_of_atSymbol redirects
  have seen := (Seen.of_current current).mono (.advance cursor 1)
  have fewer := (Reaches.advance cursor 1).remaining_le
  refine .consume_bind current ((value_reports inner (fewer.trans enough)).bind ?_)
  intro target last reaches
  cases target with
  | none => exact .fail (seen.mono reaches)
  | some target => exact .pure _

theorem argument_reports : Reports (argument list) cursor := by
  refine .get_bind (.ite (fun assigned => ?_) fun _ => .ite (fun sign => ?_) fun _ => ?_)
  · exact (assignment_reports inner enough assigned).bind_pure
  · obtain ⟨token, current, _⟩ := exists_of_atMark sign
    exact .consume_bind current (.pure _)
  · exact value_reports inner enough

theorem leadingPart_reports : Reports (leadingPart list) cursor := by
  refine .get_bind
    (.ite (fun assigned => ?_) fun _ => .ite (fun redirects => ?_) fun _ => .pure none)
  · exact (assignment_reports inner enough assigned).bind_pure
  · exact (redirect_reports inner enough redirects).bind_pure

theorem trailingPart_reports : Reports (trailingPart list) cursor := by
  refine (argument_reports inner enough).bind fun found middle reaches => ?_
  cases found with
  | some node => exact .pure _
  | none =>
    refine .get_bind (.ite (fun redirects => ?_) fun _ => .pure none)
    exact (redirect_reports inner (reaches.remaining_le.trans enough) redirects).bind_pure

theorem head_reports : Reports (head list) cursor := by
  apply Reports.get_bind
  cases current : cursor.current with
  | none => exact .pure none
  | some token =>
    refine .ite (fun _ => .consume_bind current (.pure _)) fun _ => .ite (fun _ => ?_) fun _ =>
      .pure none
    exact (substitution_reports inner enough current).bind_pure

/-- A command without anything blames the token it stops at, or is missing behind all of them. -/
theorem command_reports : Reports (command list) cursor := by
  have fits {after : Cursor} (reaches : cursor.Reaches after) : after.remaining ≤ bound + 1 :=
    reaches.remaining_le.trans enough
  have leading : Reports (many (leadingPart list)) cursor :=
    .many fun after reaches => leadingPart_reports inner (fits reaches)
  refine leading.bind fun parts middle reaches => ?_
  refine (head_reports inner (fits reaches)).bind fun name start onward => ?_
  cases name with
  | some name =>
    have trailing : Reports (many (trailingPart list)) start := .many fun after later =>
      trailingPart_reports inner (fits ((reaches.trans onward).trans later))
    exact trailing.bind_pure
  | none =>
    refine .ite (fun _ => .get_bind ?_) fun _ => .pure _
    cases current : start.current with
    | none => exact .fail_of_exhausted current
    | some token => exact .fail (Seen.of_current current)

theorem nextStage_reports : Reports (nextStage list) cursor := by
  refine .get_bind (.ite (fun bar => ?_) fun _ => .pure none)
  obtain ⟨token, current, _⟩ := exists_of_atMark bar
  have fewer := (Reaches.advance cursor 1).remaining_le
  exact .consume_bind current (command_reports inner (fewer.trans enough)).bind_pure

theorem pipeline_reports : Reports (pipeline list) cursor := by
  refine (command_reports inner enough).bind fun first middle reaches => ?_
  have stages : Reports (many (nextStage list)) middle := .many fun after onward =>
    nextStage_reports inner ((reaches.trans onward).remaining_le.trans enough)
  exact stages.bind_pure

theorem nextPipeline_reports : Reports (nextPipeline list) cursor := by
  refine .get_bind (.ite (fun separator => ?_) fun _ => .pure none)
  obtain ⟨token, current, _⟩ := exists_of_atMark separator
  have fewer := (Reaches.advance cursor 1).remaining_le
  refine .consume_bind current (.get_bind (.ite (fun _ => .pure none) fun _ => ?_))
  exact (pipeline_reports inner (fewer.trans enough)).bind_pure

theorem sequence_reports : Reports (sequence list) cursor := by
  refine (pipeline_reports inner enough).bind fun first middle reaches => ?_
  have rest : Reports (many (nextPipeline list)) middle := .many fun after onward =>
    nextPipeline_reports inner ((reaches.trans onward).remaining_le.trans enough)
  exact rest.bind_pure

end Rules

theorem listWithin_reports (levels : Nat) : ReportingList (listWithin levels) levels := by
  induction levels with
  | zero =>
    intro cursor exhausted
    exact .fail ⟨rfl, Nat.le_zero.mp exhausted⟩
  | succ levels ih => exact fun cursor enough => sequence_reports ih enough

/-- Nothing but a missing command is reported without a token. -/
theorem parse_reports (cursor : Cursor) : Reports Grammar.parse cursor := by
  refine .get_bind (.ite (fun _ => Reaches.refl cursor) fun _ => ?_)
  have read : Reports (sequence (innerList cursor)) cursor :=
    sequence_reports (listWithin_reports cursor.remaining) (Nat.le_succ _)
  refine read.bind fun tree last _ => .get_bind ?_
  cases current : last.current with
  | none => exact Reaches.refl last
  | some token =>
    have seen := Seen.of_current current
    exact .ite (fun _ => .fail seen) fun _ => .fail seen

end ShellLine.Grammar
