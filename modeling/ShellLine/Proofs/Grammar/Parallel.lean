import ShellLine.Proofs.Grammar.Locality
import ShellLine.Proofs.Grammar.Soundness
import ShellLine.Proofs.Reading.Parallel

/-! # Rules side by side

Every rule of the grammar follows itself on tokens that are the same inside a view. The readers of
the lists inside it may differ, as they do where the numbers of tokens ahead differ, as long as they
follow each other one token later.

A rule looks at one token at a time, except that an assignment takes a look at two. At the last
token inside the view this does no harm: a literal word that does not turn out to be assigned to is
the head of the command or an argument, and so it is read, too.
-/

namespace ShellLine.Grammar

open Alphabet Cursor

variable {view : View} {start : Nat} {a b : Cursor}

theorem fragment_follows (opening : Token) :
    view.Follows start (fragment opening) (fragment (view.relabel opening)) := by
  refine .get_bind fun a b same => ?_
  rw [same]
  cases a.current with
  | none => exact .fail rfl
  | some token =>
    refine .ite (by simp) (.consume_bind fun token => ?_) (.fail rfl)
    rw [view.value_relabel]
    exact .pure _

section Rules

variable {list list' : Reading Node} (sound : SoundList list) (sound' : SoundList list')
  (lists : ∀ later, start < later → view.Follows later list list')

include lists in
theorem substitution_follows : view.Follows start (substitution list) (substitution list') := by
  refine .consume_bind_later fun opening => .nested (.get_bind fun a b same => ?_)
  rw [same]
  cases a.current with
  | none => exact .fail rfl
  | some token =>
    refine .ite (by simp) (.consume_bind fun name => ?_) (.ite (by simp) ?_ (.fail rfl))
    · rw [view.value_relabel]
      exact .pure _
    · refine .consume_bind fun _ => .bind (lists _ (Nat.lt_succ_self _)) fun body =>
        .get_bind fun a b same => ?_
      rw [view.atMark_eq same]
      exact .ite Iff.rfl (.consume_bind fun _ => .pure _) (.fail rfl)

include lists in
theorem interpolation_follows (opening : Token) :
    view.Follows start (interpolation list opening)
      (interpolation list' (view.relabel opening)) := by
  refine .get_bind fun a b same => ?_
  rw [same]
  cases a.current with
  | none => exact .pure none
  | some token =>
    refine .ite (by simp) (.pure none) (.ite (by simp) ?_ (.fail rfl))
    exact .bind (substitution_follows lists) fun _ =>
      .bind (fragment_follows opening) fun _ => .pure _

include sound sound' lists

theorem quote_follows : view.Follows start (quote list) (quote list') := by
  refine .consume_bind fun opening => .nested (.bind (fragment_follows opening) fun text => ?_)
  refine .many_bind (interpolation_dwindles sound) (interpolation_dwindles sound')
    (interpolation_follows lists opening) fun parts => .get_bind fun a b same => ?_
  rw [same, view.value_relabel]
  cases a.current with
  | none => exact .fail rfl
  | some _ => exact .consume_bind fun _ => .pure _

theorem value_follows : view.Follows start (value list) (value list') := by
  refine .get_bind fun a b same => ?_
  rw [same]
  cases a.current with
  | none => exact .pure none
  | some token =>
    refine .ite (by simp) (.consume_bind fun token => ?_) (.ite (by simp)
      (.consume_bind fun token => ?_) (.ite (by simp) ?_ (.ite (by simp) ?_ (.pure none))))
    · rw [view.value_relabel]
      exact .pure _
    · rw [view.value_relabel]
      exact .pure _
    · exact .bind (substitution_follows lists) fun _ => .pure _
    · exact .bind (quote_follows sound sound' lists) fun _ => .pure _

theorem assignment_follows : view.Follows start (assignment list) (assignment list') := by
  refine .consume_bind fun name => .consume_bind fun sign => ?_
  rw [view.value_relabel]
  exact .ite (by simp) (.bind (value_follows sound sound' lists) fun _ => .pure _) (.pure _)

theorem redirect_follows : view.Follows start (redirect list) (redirect list') := by
  refine .consume_bind fun operator => .bind (value_follows sound sound' lists) fun target => ?_
  cases target with
  | none => exact .fail rfl
  | some target =>
    rw [view.value_relabel]
    exact .pure _

omit sound sound' in
theorem head_follows : view.Follows start (head list) (head list') := by
  refine .get_bind fun a b same => ?_
  rw [same]
  cases a.current with
  | none => exact .pure none
  | some token =>
    refine .ite (by simp) (.consume_bind fun token => ?_) (.ite (by simp) ?_ (.pure none))
    · rw [view.value_relabel]
      exact .pure _
    · exact .bind (substitution_follows lists) fun _ => .pure _

end Rules

/-- What a command does after it has looked for its head. -/
def afterHead (list : Reading Node) (leading : List CommandPart) : Option Node → Reading Node
  | some name => do
    let trailing ← many (trailingPart list)
    return assemble (some name) (leading ++ trailing)
  | none => do
    if leading.isEmpty then
      match (← get).current with
      | none => fail .missingCommand
      | some token => fail (.invalidHead token)
    else return assemble none leading

theorem command_eq (list : Reading Node) :
    command list =
      many (leadingPart list) >>= fun leading => head list >>= afterHead list leading :=
  rfl

/-! ## The last token inside the view -/

/-- A literal word is the last token inside the view. -/
def AtEdge (view : View) (cursor : Cursor) : Prop :=
  cursor.pos + 1 ∉ view.sight ∧ ∃ token, cursor.current = some token ∧ token.kind = .literal

/-- Nothing but a literal word is assigned to. -/
theorem atAssignment_of_current {cursor : Cursor} {token : Token} {leading : Bool}
    (current : cursor.current = some token) (kind : token.kind ≠ .literal) :
    cursor.atAssignment leading = false := by
  cases next : cursor.peek 1 <;> simp [atAssignment, current, next, kind]

/-- Assignments are the same on both sides, except at the edge of the view. -/
theorem atAssignment_eq (abreast : view.Abreast start a b) (inside : ¬ AtEdge view a)
    (leading : Bool) : b.atAssignment leading = a.atAssignment leading := by
  have same := abreast.current
  cases current : a.current with
  | none => simp [atAssignment, same, current]
  | some token =>
    rw [current] at same
    by_cases literal : token.kind = .literal
    · have seen : a.pos + 1 ∈ view.sight := by
        by_contra last
        exact inside ⟨last, token, current, literal⟩
      have next := abreast.peek seen
      cases peeked : a.peek 1 <;> simp [atAssignment, same, current, next, peeked]
    · rw [atAssignment_of_current current literal,
        atAssignment_of_current same (by simpa using literal)]

section Rules

variable {list list' : Reading Node} (sound : SoundList list) (sound' : SoundList list')
  (lists : ∀ later, start < later → view.Follows later list list')

section Literal

variable {token : Token} (current : a.current = some token) (literal : token.kind = .literal)
include current

theorem assignment_leaves (steady : Steady (value list)) : Leaves (assignment list) a :=
  .consume_bind current fun _ => .bind .consume fun _ =>
    .ite _ (.bind steady fun _ => .pure _) (.pure _)

include literal

theorem value_leaves : Leaves (value list) a := by
  refine .get_bind ?_
  simp only [current, Token.isWord, literal, beq_self_eq_true, Bool.true_or, ↓reduceIte]
  exact .consume_bind current fun _ => .pure _

theorem head_leaves : Leaves (head list) a := by
  refine .get_bind ?_
  simp only [current, Token.isWord, literal, beq_self_eq_true, Bool.true_or, ↓reduceIte]
  exact .consume_bind current fun _ => .pure _

theorem argument_leaves (steady : Steady (value list)) : Leaves (argument list) a := by
  refine .get_bind ?_
  split_ifs with assigned sign
  · exact (assignment_leaves current steady).bind fun _ => .pure _
  · exact .consume_bind current fun _ => .pure _
  · exact value_leaves current literal

/-- A literal word in front of a command is read together with what is assigned to it, or else it is
left for the head. -/
theorem leadingPart_leaves (steady : Steady (value list)) :
    Leaves (leadingPart list) a ∨ (leadingPart list).run a = .ok none a := by
  by_cases assigned : a.atAssignment true
  · refine .inl (.get_bind ?_)
    rw [if_pos assigned]
    exact (assignment_leaves current steady).bind fun _ => .pure _
  · have noRedirect : a.atRedirect = false := by
      simp [atRedirect, atSymbol, current, Token.isSymbol, literal]
    exact .inr (by simp [leadingPart, assigned, noRedirect])

end Literal

include sound sound' lists

theorem argument_follows : view.Follows start (argument list) (argument list') where
  steady := (argument_local (.zero (lists _ (Nat.lt_succ_self start)).steady list)).steady
  agrees a b abreast := by
    have value := value_follows sound sound' lists
    by_cases edge : AtEdge view a
    · obtain ⟨last, token, current, literal⟩ := edge
      exact .of_leaves (argument_leaves current literal value.steady) last
    · refine .get_bind (.ite (by rw [atAssignment_eq abreast edge]) (fun _ => ?_) fun _ => ?_)
      · have read : view.Follows start (some <$> assignment list) (some <$> assignment list') :=
          .bind (assignment_follows sound sound' lists) fun _ => .pure _
        exact read.agrees a b abreast
      · refine .ite (by rw [view.atMark_eq abreast.current]) (fun _ => ?_) fun _ =>
          value.agrees a b abreast
        refine .consume_bind abreast (fun _ => .pure _) fun sign _ abreast => ?_
        rw [view.value_relabel]
        exact .pure (abreast.later (Nat.le_succ start)) _

/-- What stands in front of the head is the same on both sides, except at the edge of the view. -/
theorem leadingPart_agrees (abreast : view.Abreast start a b) (inside : ¬ AtEdge view a) :
    view.Agrees start (leadingPart list) (leadingPart list') a b := by
  refine .get_bind (.ite (by rw [atAssignment_eq abreast inside]) (fun _ => ?_) fun _ => ?_)
  · exact .bind ((assignment_follows sound sound' lists).agrees a b abreast)
      (fun _ => (Steady.pure _).onward) fun _ _ _ _ abreast => .pure abreast _
  · refine .ite (by rw [atRedirect, atRedirect, view.atSymbol_eq abreast.current])
      (fun _ => ?_) fun _ => .pure abreast none
    exact .bind ((redirect_follows sound sound' lists).agrees a b abreast)
      (fun _ => (Steady.pure _).onward) fun _ _ _ _ abreast => .pure abreast _

theorem trailingPart_follows : view.Follows start (trailingPart list) (trailingPart list') := by
  refine .bind (argument_follows sound sound' lists) fun found => ?_
  cases found with
  | some node => exact .pure _
  | none =>
    refine .get_bind fun a b same => .ite (by rw [atRedirect, atRedirect, view.atSymbol_eq same]) ?_
      (.pure none)
    exact .bind (redirect_follows sound sound' lists) fun _ => .pure _

theorem afterHead_follows (leading : List CommandPart) (found : Option Node) :
    view.Follows start (afterHead list leading found) (afterHead list' leading found) := by
  cases found with
  | some name =>
    exact .many_bind (trailingPart_dwindles sound) (trailingPart_dwindles sound')
      (trailingPart_follows sound sound' lists) fun _ => .pure _
  | none =>
    refine .ite Iff.rfl (.get_bind fun a b same => ?_) (.pure _)
    rw [same]
    cases a.current <;> exact .fail rfl

theorem command_follows : view.Follows start (command list) (command list') := by
  have rest leading : view.Follows start (head list >>= afterHead list leading)
      (head list' >>= afterHead list' leading) :=
    .bind (head_follows lists) (afterHead_follows sound sound' lists leading)
  have value : Steady (value list) := (value_follows sound sound' lists).steady
  have leadingPart : Steady (leadingPart list) :=
    (leadingPart_local (.zero (lists _ (Nat.lt_succ_self start)).steady list)).steady
  rw [command_eq, command_eq]
  refine ⟨.bind (.many leadingPart) fun leading => (rest leading).steady, fun a b abreast => ?_⟩
  refine .many_bind (leadingPart_dwindles sound) (leadingPart_dwindles sound')
    (fun leading => (rest leading).steady) leadingPart (fun a b abreast => ?_)
    (fun leading => (rest leading).agrees) abreast
  by_cases edge : AtEdge view a
  · obtain ⟨last, token, current, literal⟩ := edge
    refine .inr ⟨last, (leadingPart_leaves current literal value).imp_right fun stopped => ?_⟩
    exact ⟨stopped, fun leading => (head_leaves current literal).bind fun found =>
      (afterHead_follows sound sound' lists leading found).steady⟩
  · exact .inl (leadingPart_agrees sound sound' lists abreast edge)

theorem nextStage_follows : view.Follows start (nextStage list) (nextStage list') :=
  .get_bind fun a b same => .ite (by rw [view.atMark_eq same])
    (.consume_bind fun _ => .bind (command_follows sound sound' lists) fun _ => .pure _)
    (.pure none)

theorem pipeline_follows : view.Follows start (pipeline list) (pipeline list') :=
  .bind (command_follows sound sound' lists) fun _ =>
    .many_bind (nextStage_dwindles sound) (nextStage_dwindles sound')
      (nextStage_follows sound sound' lists) fun _ => .pure _

theorem nextPipeline_follows : view.Follows start (nextPipeline list) (nextPipeline list') := by
  refine .get_bind fun a b same => .ite (by rw [view.atMark_eq same]) ?_ (.pure none)
  refine .consume_bind fun _ => .get_bind fun a b same => ?_
  refine .ite (by simp [view.atMark_eq same, same]) (.pure none) ?_
  exact .bind (pipeline_follows sound sound' lists) fun _ => .pure _

theorem sequence_follows : view.Follows start (sequence list) (sequence list') :=
  .bind (pipeline_follows sound sound' lists) fun _ =>
    .many_bind (nextPipeline_dwindles sound) (nextPipeline_dwindles sound')
      (nextPipeline_follows sound sound' lists) fun _ => .pure _

end Rules

/-! ## Lists inside lists -/

/-- Where no token is left, a list lacks a command, at whatever level. -/
theorem listWithin_run_of_exhausted (levels : Nat) {cursor : Cursor}
    (empty : cursor.remaining = 0) :
    (listWithin levels).run cursor = (fail .missingCommand : Reading Node).run cursor := by
  cases levels with
  | zero => rfl
  | succ levels =>
    have leading : (many (leadingPart (listWithin levels))).run cursor = .ok [] cursor := by
      rw [many, get_bind_run, empty]
      rfl
    have noHead : (head (listWithin levels)).run cursor = .ok none cursor := by
      simp [head, current_of_exhausted empty]
    have failed : (command (listWithin levels)).run cursor =
        (fail .missingCommand : Reading Node).run cursor := by
      simp only [command_eq, EStateM.run_bind, leading, noHead]
      simp only [afterHead, List.isEmpty_nil, ↓reduceIte, get_bind_run, current_of_exhausted empty]
    rw [listWithin, sequence, EStateM.run_bind, pipeline, EStateM.run_bind, failed, fail_run]

/-- Lists are read alike where no token is left. -/
theorem listWithin_agrees_of_exhausted (levels levels' : Nat) (abreast : view.Abreast start a b)
    (empty : a.remaining = 0 ∨ b.remaining = 0) :
    view.Agrees start (listWithin levels) (listWithin levels') a b := by
  have same := abreast.current
  rw [current_eq_head?, current_eq_head?] at same
  have both : a.remaining = 0 ∧ b.remaining = 0 := by
    rw [remaining_eq_length, remaining_eq_length, List.length_eq_zero_iff,
      List.length_eq_zero_iff] at empty ⊢
    rcases empty with empty | empty
    · exact ⟨empty, by simpa [empty] using same⟩
    · exact ⟨by simpa [empty] using same, empty⟩
  unfold View.Agrees
  rw [listWithin_run_of_exhausted levels both.1, listWithin_run_of_exhausted levels' both.2]
  exact View.Agrees.fail abreast rfl

/-- Lists are read alike where there are levels enough for all the tokens ahead. -/
theorem listWithin_follows {levels levels' : Nat} (enough : view.first.size ≤ start + levels)
    (enough' : view.second.size ≤ start + levels') :
    view.Follows start (listWithin levels) (listWithin levels') := by
  induction levels generalizing levels' start with
  | zero =>
    refine ⟨listWithin_steady 0, fun a b abreast => ?_⟩
    have started := abreast.started
    refine listWithin_agrees_of_exhausted 0 levels' abreast (.inl ?_)
    rw [remaining, abreast.first]
    omega
  | succ levels ih =>
    cases levels' with
    | zero =>
      refine ⟨listWithin_steady _, fun a b abreast => ?_⟩
      have started := abreast.started
      refine listWithin_agrees_of_exhausted _ 0 abreast (.inr ?_)
      rw [remaining, abreast.second, abreast.pos]
      omega
    | succ levels' =>
      exact sequence_follows (listWithin_sound levels) (listWithin_sound levels')
        fun later after => ih (by omega) (by omega)

/-- Lists are read alike behind a token that both readings have come to. -/
theorem innerList_follows (abreast : view.Abreast a.pos a b) (later : Nat) (after : a.pos < later) :
    view.Follows later (innerList a) (innerList b) := by
  have pos := abreast.pos
  refine listWithin_follows ?_ ?_
  · rw [remaining, abreast.first]
    omega
  · rw [remaining, abreast.second]
    omega

/-! ## All rules at once -/

theorem Rule.readWith_follows {list list' : Reading Node} (sound : SoundList list)
    (sound' : SoundList list') (lists : ∀ later, start < later → view.Follows later list list')
    (rule : Rule) : view.Follows start (rule.readWith list) (rule.readWith list') := by
  cases rule with
  | list => exact .bind (sequence_follows sound sound' lists) fun _ => .pure _
  | pipeline => exact .bind (pipeline_follows sound sound' lists) fun _ => .pure _
  | command => exact .bind (command_follows sound sound' lists) fun _ => .pure _
  | argument => exact argument_follows sound sound' lists
  | value => exact value_follows sound sound' lists
  | assignment => exact .bind (assignment_follows sound sound' lists) fun _ => .pure _
  | redirect => exact .bind (redirect_follows sound sound' lists) fun _ => .pure _
  | substitution => exact .bind (substitution_follows lists) fun _ => .pure _
  | quote => exact .bind (quote_follows sound sound' lists) fun _ => .pure _

/-- Every rule is read alike from where both readings are. -/
theorem Rule.read_agrees (rule : Rule) (abreast : view.Abreast a.pos a b) :
    view.Agrees a.pos rule.read rule.read a b := by
  have follows := rule.readWith_follows (listWithin_sound a.remaining)
    (listWithin_sound b.remaining) (innerList_follows abreast)
  unfold View.Agrees
  rw [rule.read_run, rule.read_run]
  exact follows.agrees a b abreast

/-- The tokens of a cursor beside themselves. -/
def alongside (cursor : Cursor) : View where
  relabel := id
  first := cursor.tokens
  second := cursor.tokens
  low := cursor.maxDepth
  high := cursor.maxDepth
  sight := ⊤
  alike := Token.alike_refl
  agree pos _ := by rw [Option.map_id, id]
  limits := le_refl _

section Meets

variable {α : Type} {cursor after : Cursor} {run' : EStateM.Result StructuralFault Cursor α}

/-- On the same tokens, what meets a run that succeeds succeeds with the same. -/
theorem ok_of_meets {result : α} (meets : (alongside cursor).Meets start (.ok result after) run') :
    ∃ after', run' = .ok result after' ∧ after'.pos = after.pos := by
  obtain ⟨after', ran', abreast⟩ := meets trivial
  exact ⟨after', ran', abreast.pos⟩

/-- On the same tokens, what meets a run that fails fails with the same: the limits are the same,
too. -/
theorem error_of_meets {fault : StructuralFault}
    (meets : (alongside cursor).Meets start (.error fault after) run') :
    ∃ after', run' = .error fault after' ∧ after'.pos = after.pos := by
  obtain ⟨_, lower⟩ | ⟨after', ran', abreast⟩ := meets trivial
  · exact absurd lower (lt_irrefl cursor.maxDepth)
  · have same : fault.map id = fault := fault.map_id
    exact ⟨after', ran'.trans (congrArg₂ _ same rfl), abreast.pos⟩

end Meets

/-! ## Whole lists of tokens -/

/-- What is done after a whole list is read: no token may be left. -/
def conclude (count : Nat) (tree : Node) : Reading Node := do
  match (← get).current with
  | some token =>
    if token.isMark closeParen then fail (.unmatchedParen token)
    else fail (.unexpectedToken token)
  | none =>
    report .debug ("Parsed " ++ toString count ++ " tokens into " ++ tree.className)
    return tree

/-- Tokens besides comments are read as a list, and nothing may be left. -/
theorem parse_run {cursor : Cursor} (mixed : cursor.commentOnly = false) :
    Grammar.parse.run cursor =
      (sequence (innerList cursor) >>= conclude cursor.tokens.size).run cursor := by
  rw [Grammar.parse, get_bind_run, mixed]
  rfl

theorem conclude_onward (count : Nat) (tree : Node) : Onward (conclude count tree) := by
  intro bound cursor before
  refine .get_bind ?_
  cases cursor.current with
  | none => exact before
  | some token => exact (Steady.ite _ (.fail _) (.fail _)).onward before

/-- Whole lists of tokens are read alike. -/
theorem parse_agrees (mixed : a.commentOnly = false) (mixed' : b.commentOnly = false)
    (abreast : view.Abreast a.pos a b) : view.Agrees a.pos Grammar.parse Grammar.parse a b := by
  have lists := innerList_follows abreast
  have read := sequence_follows (listWithin_sound a.remaining) (listWithin_sound b.remaining) lists
  unfold View.Agrees
  rw [parse_run mixed, parse_run mixed']
  refine View.Agrees.bind (read.agrees a b abreast) (conclude_onward _) fun tree a b _ abreast => ?_
  refine .get_bind ?_
  rw [abreast.current]
  cases a.current with
  | none => exact fun _ => ⟨_, rfl, { abreast with }⟩
  | some token => exact .ite (by simp) (fun _ => .fail abreast rfl) fun _ => .fail abreast rfl

end ShellLine.Grammar
