import ShellLine.Proofs.Grammar.Parallel
import ShellLine.Proofs.Grammar.Spelling
import ShellLine.Proofs.Reading.Stuck

/-! # Faults arise inside phrases

A rule that fails has taken tokens with which a phrase of it begins. The completions are short: a
name ends a substitution, a word a redirect, a mark a quote, a parenthesis a subshell. What a word in
front means depends on the token after it, so that a part of a command is also known to begin with
the token that comes next.
-/

namespace ShellLine.Grammar

open Alphabet Cursor

variable {cursor after : Cursor} {fault : StructuralFault}

/-- Where the list fails, the tokens before it begin a list. -/
def StuckList (list : Reading Node) : Prop :=
  ∀ ⦃cursor fault after⦄, list.run cursor = .error fault after →
    cursor.StuckIn fault after fun ts => ∃ tree, ListPhrase ts tree

theorem fragment_stuck {opening : Token} {phrase : List Token → Prop} (more : List Token)
    (met : phrase more) (ran : (fragment opening).run cursor = .error fault after) :
    cursor.StuckIn fault after phrase := by
  rw [fragment, get_bind_run] at ran
  split at ran
  case h_1 => exact stuckIn_of_fail more met (by simp [StructuralFault.kind]) ran
  case h_2 token current =>
    split at ran
    case isTrue =>
      obtain ⟨middle, _, done⟩ := consume_bind_run_eq_error current ran
      exact absurd done pure_run_ne_error
    case isFalse => exact stuckIn_of_fail more met (by simp [StructuralFault.kind]) ran

section Rules

variable {list : Reading Node} (sound : SoundList list) (stuck : StuckList list)

include sound stuck

theorem substitution_stuck (mark : cursor.atMark sigil)
    (ran : (substitution list).run cursor = .error fault after) :
    cursor.StuckIn fault after fun ts =>
      ts.head? = cursor.current ∧ ∃ node, SubstitutionPhrase ts node := by
  obtain ⟨opening, current, opens⟩ := exists_of_atMark mark
  obtain ⟨middle, took, ran⟩ := consume_bind_run_eq_error current ran
  let name : Token := ⟨.identifier, "x", none, false, false⟩
  have bare : ∃ node, SubstitutionPhrase (opening :: [name]) node := ⟨_, .name opens rfl⟩
  refine took.stuckIn_nested [name] bare (fun inner ran => ?_) ran
    fun ts phrase => ⟨current.symm, phrase⟩
  rw [get_bind_run] at ran
  split at ran
  case h_1 => exact stuckIn_of_fail [name] bare (by simp [StructuralFault.kind]) ran
  case h_2 token current =>
    split at ran
    case isTrue =>
      exact absurd (bind_pure_run_eq_error ran) (consume_run_ne_error current)
    case isFalse =>
      split at ran
      case isFalse => exact stuckIn_of_fail [name] bare (by simp [StructuralFault.kind]) ran
      case isTrue paren =>
        obtain ⟨start, tookParen, ran⟩ := consume_bind_run_eq_error current ran
        have closed {ts : List Token} {body : Node} (phrase : ListPhrase ts body) :
            ∃ node, SubstitutionPhrase (opening :: ([token] ++ (ts ++ [.ofMark closeParen]))) node :=
          ⟨_, .subshell opens paren phrase (isMark_ofMark _ _)⟩
        obtain failed | ⟨body, stop, listRan, ran⟩ := bind_run_eq_error.mp ran
        · refine tookParen.stuckIn_append (stuck failed) [.ofMark closeParen] ?_
          rintro ts ⟨_, phrase⟩
          exact closed phrase
        · obtain ⟨used, tookBody, phrase, _⟩ := sound listRan
          rw [get_bind_run] at ran
          split at ran
          case isTrue close =>
            obtain ⟨closing, current, _⟩ := exists_of_atMark close
            exact absurd (bind_pure_run_eq_error ran) (consume_run_ne_error current)
          case isFalse =>
            exact (tookParen.trans tookBody).stuckIn_of_fail [.ofMark closeParen]
              (by simpa using closed phrase) (by simp [StructuralFault.kind]) ran

theorem interpolation_stuck {opening : Token}
    (ran : (interpolation list opening).run cursor = .error fault after) :
    cursor.StuckIn fault after fun ts => ∃ found, InterpolationsPhrase ts (quoteParts found) := by
  rw [interpolation, get_bind_run] at ran
  split at ran
  case h_1 => exact absurd ran pure_run_ne_error
  case h_2 token current =>
    split at ran
    case isTrue => exact absurd ran pure_run_ne_error
    case isFalse =>
      split at ran
      case isFalse => exact stuckIn_of_fail [] ⟨[], .nil⟩ (by simp [StructuralFault.kind]) ran
      case isTrue mark =>
        have atSigil : cursor.atMark sigil := by simpa [atMark, current] using mark
        let text : Token := .fragment "x"
        have complete {ts : List Token} {inner : Node} (phrase : SubstitutionPhrase ts inner) :
            ∃ found, InterpolationsPhrase (ts ++ [text]) (quoteParts found) :=
          ⟨[(inner, "x")], .cons phrase rfl .nil⟩
        obtain failed | ⟨inner, middle, first, ran⟩ := bind_run_eq_error.mp ran
        · refine (substitution_stuck sound stuck atSigil failed).append [text] ?_
          rintro _ ⟨_, _, phrase⟩
          exact complete phrase
        · obtain ⟨used, took, phrase, _⟩ := substitution_sound sound atSigil first
          have failed := bind_pure_run_eq_error ran
          exact took.stuckIn (fragment_stuck [text] (complete phrase) failed) fun _ met => met

theorem interpolations_stuck {opening : Token}
    (ran : Breaks (interpolation list opening) fault after cursor) :
    cursor.StuckIn fault after fun ts => ∃ found, InterpolationsPhrase ts (quoteParts found) := by
  induction ran with
  | now failed => exact interpolation_stuck sound stuck failed
  | @later cursor middle found first _ ih =>
    obtain ⟨inner, text⟩ := found
    obtain ⟨used, token, took, phrase, fragment, rfl, _⟩ := interpolation_sound sound first
    refine took.stuckIn ih ?_
    rintro ts ⟨rest, phrases⟩
    refine ⟨(inner, token.value) :: rest, ?_⟩
    simpa using InterpolationsPhrase.cons phrase fragment phrases

theorem quote_stuck (mark : cursor.atSymbol (quoteMarks.map String.singleton))
    (ran : (quote list).run cursor = .error fault after) :
    cursor.StuckIn fault after fun ts =>
      ts.head? = cursor.current ∧ ∃ node, QuotePhrase ts node := by
  obtain ⟨opening, current, opens⟩ := exists_of_atSymbol mark
  obtain ⟨middle, took, ran⟩ := consume_bind_run_eq_error current ran
  have closes := closesQuote_symbol opening.value
  have plain : ∃ node, QuotePhrase (opening :: [.fragment "x", .symbol opening.value]) node :=
    ⟨_, .plain opens rfl closes⟩
  refine took.stuckIn_nested _ plain (fun inner ran => ?_) ran
    fun ts phrase => ⟨current.symm, phrase⟩
  obtain failed | ⟨text, start, second, ran⟩ := bind_run_eq_error.mp ran
  · exact fragment_stuck _ plain failed
  obtain ⟨token, tookText, fragment, rfl⟩ := fragment_sound second
  have complete {ts : List Token} {found : List (Node × String)}
      (phrase : InterpolationsPhrase ts (quoteParts found)) :
      ∃ node, QuotePhrase (opening :: ([token] ++ (ts ++ [.symbol opening.value]))) node :=
    ⟨_, quoteNode_phrase opens fragment phrase closes⟩
  obtain failed | ⟨found, stop, manyRan, ran⟩ := bind_run_eq_error.mp ran
  · have inside := interpolations_stuck sound stuck
      (breaks_of_many (interpolation_dwindles sound) failed)
    refine tookText.stuckIn_append inside [.symbol opening.value] ?_
    rintro _ ⟨_, phrase⟩
    exact complete phrase
  · obtain ⟨used, tookParts, phrase, _⟩ := interpolations_sound sound
      ((many_run_eq_ok (interpolation_dwindles sound)).mp manyRan)
    rw [get_bind_run] at ran
    split at ran
    case h_1 =>
      exact (tookText.trans tookParts).stuckIn_of_fail [.symbol opening.value]
        (by simpa using complete phrase) (by simp [StructuralFault.kind]) ran
    case h_2 closing current =>
      exact absurd (bind_pure_run_eq_error ran) (consume_run_ne_error current)

theorem value_stuck (ran : (value list).run cursor = .error fault after) :
    cursor.StuckIn fault after fun ts =>
      ts.head? = cursor.current ∧ ∃ node, ValuePhrase ts node := by
  rw [value, get_bind_run] at ran
  split at ran
  case h_1 => exact absurd ran pure_run_ne_error
  case h_2 token current =>
    split at ran
    case isTrue =>
      exact absurd (bind_pure_run_eq_error ran) (consume_run_ne_error current)
    case isFalse =>
    split at ran
    case isTrue =>
      exact absurd (bind_pure_run_eq_error ran) (consume_run_ne_error current)
    case isFalse =>
    split at ran
    case isTrue mark =>
      have atSigil : cursor.atMark sigil := by simpa [atMark, current] using mark
      refine (substitution_stuck sound stuck atSigil (bind_pure_run_eq_error ran)).mono ?_
      rintro _ ⟨starts, _, phrase⟩
      exact ⟨starts, _, .substitution phrase⟩
    case isFalse =>
    split at ran
    case isTrue mark =>
      have atQuote : cursor.atSymbol (quoteMarks.map String.singleton) := by
        simpa [atSymbol, current] using mark
      refine (quote_stuck sound stuck atQuote (bind_pure_run_eq_error ran)).mono ?_
      rintro _ ⟨starts, _, phrase⟩
      exact ⟨starts, _, .quote phrase⟩
    case isFalse => exact absurd ran pure_run_ne_error

/-! ## The parts of a command -/

theorem assignment_stuck {leading : Bool} (found : cursor.atAssignment leading)
    (ran : (assignment list).run cursor = .error fault after) :
    cursor.StuckIn fault after fun ts => ts.head? = cursor.current ∧ ∃ name value,
      (leading → Text.isVariableName name) ∧ AssignmentPhrase ts none (.assign name value) := by
  obtain ⟨name, sign, later, ahead, word, assigned, named⟩ := exists_of_atAssignment found
  obtain ⟨middle, tookName, ran⟩ := consume_bind_run_eq_error (current_of_rest ahead) ran
  have aheadSign : middle.rest = sign :: later := tookName.rest_eq ahead
  obtain ⟨start, tookSign, ran⟩ := consume_bind_run_eq_error (current_of_rest aheadSign) ran
  split at ran
  case isTrue joined =>
    have failed := bind_pure_run_eq_error ran
    refine (tookName.trans tookSign).stuckIn (value_stuck sound stuck failed) ?_
    rintro ts ⟨_, node, phrase⟩
    exact ⟨(current_of_rest ahead).symm, _, _, named, .valued word assigned joined phrase⟩
  case isFalse => exact absurd ran pure_run_ne_error

theorem redirect_stuck (found : cursor.atRedirect)
    (ran : (redirect list).run cursor = .error fault after) :
    cursor.StuckIn fault after fun ts =>
      ts.head? = cursor.current ∧ ∃ node, RedirectPhrase ts node := by
  obtain ⟨operator, current, redirects⟩ := exists_of_atSymbol found
  obtain ⟨middle, took, ran⟩ := consume_bind_run_eq_error current ran
  obtain failed | ⟨target, stop, first, failed⟩ := bind_run_eq_error.mp ran
  · refine took.stuckIn (value_stuck sound stuck failed) ?_
    rintro ts ⟨_, _, phrase⟩
    exact ⟨current.symm, _, .mk redirects phrase⟩
  · cases target with
    | none =>
      obtain ⟨rfl, _⟩ := value_stop first
      exact took.stuckIn_of_fail [.word "x"] ⟨current.symm, _, .mk redirects (.word rfl)⟩
        (by simp [StructuralFault.kind]) failed
    | some target => exact absurd failed pure_run_ne_error

theorem argument_stuck (ran : (argument list).run cursor = .error fault after) :
    cursor.StuckIn fault after fun ts =>
      ts.head? = cursor.current ∧ ∃ node, ArgumentPhrase ts none node := by
  rw [argument, get_bind_run] at ran
  split_ifs at ran with assigned sign
  · refine (assignment_stuck sound stuck assigned (bind_pure_run_eq_error ran)).mono ?_
    rintro _ ⟨starts, _, _, _, phrase⟩
    exact ⟨starts, _, .assignment phrase⟩
  · obtain ⟨token, current, _⟩ := exists_of_atMark sign
    exact absurd (bind_pure_run_eq_error ran) (consume_run_ne_error current)
  · refine (value_stuck sound stuck ran).mono ?_
    rintro _ ⟨starts, _, phrase⟩
    exact ⟨starts, _, .value phrase (by simp [assigns])⟩

theorem leadingPart_stuck (ran : (leadingPart list).run cursor = .error fault after) :
    cursor.StuckIn fault after fun ts => ts.head? = cursor.current ∧
      ∃ redirects assignments, LeadingPhrase ts none redirects assignments ∧ ts ≠ [] := by
  rw [leadingPart, get_bind_run] at ran
  split_ifs at ran with assigned redirects
  · refine (assignment_stuck sound stuck assigned (bind_pure_run_eq_error ran)).mono ?_
    rintro ts ⟨starts, name, value, named, phrase⟩
    refine ⟨starts, [], [.assign name value], ?_, phrase.ne_nil⟩
    simpa using LeadingPhrase.assignment phrase (named rfl) .nil
  · refine (redirect_stuck sound stuck redirects (bind_pure_run_eq_error ran)).mono ?_
    rintro ts ⟨starts, node, phrase⟩
    refine ⟨starts, [node], [], ?_, phrase.ne_nil⟩
    simpa using LeadingPhrase.redirect phrase .nil
  · exact absurd ran pure_run_ne_error

theorem leadingParts_stuck (ran : Breaks (leadingPart list) fault after cursor) :
    cursor.StuckIn fault after fun ts => ts.head? = cursor.current ∧
      ∃ redirects assignments, LeadingPhrase ts none redirects assignments ∧ ts ≠ [] := by
  induction ran with
  | now failed => exact leadingPart_stuck sound stuck failed
  | @later cursor middle part first _ ih =>
    obtain ⟨used, took, some, kind⟩ := leadingPart_sound sound first
    refine took.stuckIn ih ?_
    rintro ts ⟨starts, redirects, assignments, phrases, _⟩
    refine ⟨took.head?_append some ts, ?_⟩
    rcases kind with ⟨name, value, rfl, named, phrase, _⟩ | ⟨node, rfl, phrase, _⟩
    · have phrase : AssignmentPhrase used (ts.head?.or none) (.assign name value) := by
        rwa [Option.or_none, starts]
      exact ⟨_, _, .assignment phrase named phrases, List.append_ne_nil_of_left_ne_nil some ts⟩
    · exact ⟨_, _, .redirect phrase phrases, List.append_ne_nil_of_left_ne_nil some ts⟩

theorem head_stuck (ran : (head list).run cursor = .error fault after) :
    cursor.StuckIn fault after fun ts =>
      ts.head? = cursor.current ∧ ∃ node, HeadPhrase ts none node := by
  rw [head, get_bind_run] at ran
  split at ran
  case h_1 => exact absurd ran pure_run_ne_error
  case h_2 token current =>
    split at ran
    case isTrue =>
      exact absurd (bind_pure_run_eq_error ran) (consume_run_ne_error current)
    case isFalse =>
    split at ran
    case isTrue mark =>
      have atSigil : cursor.atMark sigil := by simpa [atMark, current] using mark
      refine (substitution_stuck sound stuck atSigil (bind_pure_run_eq_error ran)).mono ?_
      rintro _ ⟨starts, _, phrase⟩
      exact ⟨starts, _, .substitution phrase⟩
    case isFalse => exact absurd ran pure_run_ne_error

theorem trailingPart_stuck (ran : (trailingPart list).run cursor = .error fault after) :
    cursor.StuckIn fault after fun ts =>
      ts.head? = cursor.current ∧ ∃ args redirects, TrailingPhrase ts args redirects := by
  obtain failed | ⟨found, middle, first, failed⟩ := bind_run_eq_error.mp ran
  · refine (argument_stuck sound stuck failed).mono ?_
    rintro ts ⟨starts, node, phrase⟩
    refine ⟨starts, [node], [], ?_⟩
    simpa using TrailingPhrase.argument phrase .nil
  · cases found with
    | some node => exact absurd failed pure_run_ne_error
    | none =>
      obtain rfl := argument_stop first
      dsimp only at failed
      rw [get_bind_run] at failed
      split_ifs at failed with redirects
      · refine (redirect_stuck sound stuck redirects (bind_pure_run_eq_error failed)).mono ?_
        rintro ts ⟨starts, node, phrase⟩
        refine ⟨starts, [], [node], ?_⟩
        simpa using TrailingPhrase.redirect phrase .nil
      · exact absurd failed pure_run_ne_error

theorem trailingParts_stuck (ran : Breaks (trailingPart list) fault after cursor) :
    cursor.StuckIn fault after fun ts =>
      ts.head? = cursor.current ∧ ∃ args redirects, TrailingPhrase ts args redirects := by
  induction ran with
  | now failed => exact trailingPart_stuck sound stuck failed
  | @later cursor middle part first _ ih =>
    obtain ⟨used, took, some, kind⟩ := trailingPart_sound sound first
    refine took.stuckIn ih ?_
    rintro ts ⟨starts, args, redirects, phrases⟩
    refine ⟨took.head?_append some ts, ?_⟩
    rcases kind with ⟨node, rfl, phrase, _⟩ | ⟨node, rfl, phrase, _⟩
    · rw [← starts] at phrase
      exact ⟨_, _, .argument phrase phrases⟩
    · exact ⟨_, _, .redirect phrase phrases⟩

/-! ## Commands, pipelines and lists -/

theorem command_stuck (ran : (command list).run cursor = .error fault after) :
    cursor.StuckIn fault after fun ts => ∃ node, CommandPhrase ts node := by
  rw [command_eq] at ran
  obtain failed | ⟨leading, middle, leadingRan, ran⟩ := bind_run_eq_error.mp ran
  · have broken := breaks_of_many (leadingPart_dwindles sound) failed
    refine (leadingParts_stuck sound stuck broken).mono ?_
    rintro _ ⟨_, _, _, phrase, nonempty⟩
    exact ⟨_, .headless phrase nonempty⟩
  obtain ⟨first, took, leadingPhrase, _, _, _, empty, apart⟩ :=
    leadingParts_sound sound ((many_run_eq_ok (leadingPart_dwindles sound)).mp leadingRan)
  obtain failed | ⟨found, start, headRan, restRan⟩ := bind_run_eq_error.mp ran
  · refine took.stuckIn (head_stuck sound stuck failed) ?_
    rintro ts ⟨starts, node, phrase⟩
    rw [← starts] at leadingPhrase
    have alone : HeadPhrase ts ([] : List Token).head? node := phrase
    have whole := CommandPhrase.headed leadingPhrase alone .nil
    rw [List.append_nil] at whole
    exact ⟨_, whole⟩
  cases found with
  | some name =>
    obtain ⟨second, tookHead, headPhrase, _⟩ := head_sound sound apart headRan
    have failed := bind_pure_run_eq_error restRan
    have broken := breaks_of_many (trailingPart_dwindles sound) failed
    refine (took.trans tookHead).stuckIn (trailingParts_stuck sound stuck broken) ?_
    rintro ts ⟨starts, args, redirects, phrases⟩
    have next := tookHead.head?_append headPhrase.ne_nil []
    rw [List.append_nil] at next
    rw [← next] at leadingPhrase
    rw [← starts] at headPhrase
    exact ⟨_, by simpa using CommandPhrase.headed leadingPhrase headPhrase phrases⟩
  | none =>
    obtain rfl := head_stop headRan
    simp only [afterHead] at restRan
    split at restRan
    case isFalse => exact absurd restRan pure_run_ne_error
    case isTrue none =>
      obtain rfl := List.isEmpty_iff.mp none
      have word : ∃ node, CommandPhrase (first ++ [.word "x"]) node := by
        cases leadingPhrase
        exact ⟨_, .headed .nil (.word rfl (by simp [assigns])) .nil⟩
      rw [get_bind_run] at restRan
      split at restRan
      · exact took.stuckIn_of_fail [.word "x"] word (by simp [StructuralFault.kind]) restRan
      · exact took.stuckIn_of_fail [.word "x"] word (by simp [StructuralFault.kind]) restRan

theorem nextStage_stuck (ran : (nextStage list).run cursor = .error fault after) :
    cursor.StuckIn fault after fun ts => ∃ stages, StagesPhrase ts stages := by
  rw [nextStage, get_bind_run] at ran
  split at ran
  case isFalse => exact absurd ran pure_run_ne_error
  case isTrue mark =>
    obtain ⟨bar, current, found⟩ := exists_of_atMark mark
    obtain ⟨middle, took, ran⟩ := consume_bind_run_eq_error current ran
    refine took.stuckIn (command_stuck sound stuck (bind_pure_run_eq_error ran)) ?_
    rintro ts ⟨node, phrase⟩
    refine ⟨[node], ?_⟩
    simpa using StagesPhrase.cons found phrase .nil

theorem stages_stuck (ran : Breaks (nextStage list) fault after cursor) :
    cursor.StuckIn fault after fun ts => ∃ stages, StagesPhrase ts stages := by
  induction ran with
  | now failed => exact nextStage_stuck sound stuck failed
  | later first _ ih =>
    obtain ⟨bar, used, took, mark, phrase, _⟩ := nextStage_sound sound first
    refine took.stuckIn ih ?_
    rintro ts ⟨_, phrases⟩
    exact ⟨_, .cons mark phrase phrases⟩

theorem pipeline_stuck (ran : (pipeline list).run cursor = .error fault after) :
    cursor.StuckIn fault after fun ts => ∃ node, PipelinePhrase ts node := by
  obtain failed | ⟨first, middle, firstRan, ran⟩ := bind_run_eq_error.mp ran
  · refine (command_stuck sound stuck failed).mono ?_
    rintro ts ⟨node, phrase⟩
    refine ⟨node, ?_⟩
    simpa using PipelinePhrase.mk phrase .nil
  · obtain ⟨used, took, phrase, _⟩ := command_sound sound firstRan
    have failed := bind_pure_run_eq_error ran
    have broken := breaks_of_many (nextStage_dwindles sound) failed
    refine took.stuckIn (stages_stuck sound stuck broken) ?_
    rintro ts ⟨_, phrases⟩
    exact ⟨_, .mk phrase phrases⟩

theorem nextPipeline_stuck (ran : (nextPipeline list).run cursor = .error fault after) :
    cursor.StuckIn fault after fun ts => ∃ items, TailPhrase ts items := by
  rw [nextPipeline, get_bind_run] at ran
  split at ran
  case isFalse => exact absurd ran pure_run_ne_error
  case isTrue mark =>
    obtain ⟨separator, current, found⟩ := exists_of_atMark mark
    obtain ⟨middle, took, ran⟩ := consume_bind_run_eq_error current ran
    rw [get_bind_run] at ran
    split at ran
    case isTrue => exact absurd ran pure_run_ne_error
    case isFalse =>
      refine took.stuckIn (pipeline_stuck sound stuck (bind_pure_run_eq_error ran)) ?_
      rintro ts ⟨node, phrase⟩
      refine ⟨[node], ?_⟩
      simpa using TailPhrase.cons found phrase .nil

theorem tail_stuck (ran : Breaks (nextPipeline list) fault after cursor) :
    cursor.StuckIn fault after fun ts => ∃ items, TailPhrase ts items := by
  induction ran with
  | now failed => exact nextPipeline_stuck sound stuck failed
  | later first _ ih =>
    obtain ⟨separator, used, took, mark, phrase, _⟩ := nextPipeline_sound sound first
    refine took.stuckIn ih ?_
    rintro ts ⟨_, phrases⟩
    exact ⟨_, .cons mark phrase phrases⟩

theorem sequence_stuck : StuckList (sequence list) := by
  intro cursor fault after ran
  obtain failed | ⟨first, middle, firstRan, ran⟩ := bind_run_eq_error.mp ran
  · refine (pipeline_stuck sound stuck failed).mono ?_
    rintro ts ⟨node, phrase⟩
    refine ⟨node, ?_⟩
    simpa using ListPhrase.single phrase .nil
  · obtain ⟨used, took, phrase, _⟩ := pipeline_sound sound firstRan
    have failed := bind_pure_run_eq_error ran
    have broken := breaks_of_many (nextPipeline_dwindles sound) failed
    refine took.stuckIn (tail_stuck sound stuck broken) ?_
    rintro ts ⟨items, tail⟩
    cases items with
    | nil => exact ⟨_, .single phrase tail⟩
    | cons => exact ⟨_, .sequence phrase tail⟩

end Rules

/-- A list that fails begins with tokens that begin a list. -/
theorem listWithin_stuck (levels : Nat) : StuckList (listWithin levels) := by
  induction levels with
  | zero =>
    intro cursor fault after ran
    have word : CommandPhrase [.word "x"] _ := .headed .nil (.word rfl (by simp [assigns])) .nil
    have whole : ListPhrase ([.word "x"] ++ [] ++ []) _ := .single (.mk word .nil) .nil
    exact stuckIn_of_fail [.word "x"] ⟨_, whole⟩ (by simp [StructuralFault.kind]) ran
  | succ levels ih => exact sequence_stuck (listWithin_sound levels) ih

/-- Where the parser fails, the tokens before that place begin a list. -/
theorem parse_stuck (mixed : cursor.commentOnly = false)
    (ran : Grammar.parse.run cursor = .error fault after) :
    cursor.StuckIn fault after fun ts => ∃ tree, ListPhrase ts tree := by
  have sound := listWithin_sound cursor.remaining
  rw [parse_run mixed] at ran
  obtain failed | ⟨tree, middle, first, ran⟩ := bind_run_eq_error.mp ran
  · exact sequence_stuck sound (listWithin_stuck _) failed
  · obtain ⟨used, took, phrase, _⟩ := sequence_sound sound first
    have whole : ∃ tree, ListPhrase (used ++ []) tree := ⟨tree, by rwa [List.append_nil]⟩
    rw [conclude, get_bind_run] at ran
    split at ran
    case h_1 token current =>
      split at ran
      · exact took.stuckIn_of_fail [] whole (by simp [StructuralFault.kind]) ran
      · exact took.stuckIn_of_fail [] whole (by simp [StructuralFault.kind]) ran
    case h_2 => cases ran

end ShellLine.Grammar
