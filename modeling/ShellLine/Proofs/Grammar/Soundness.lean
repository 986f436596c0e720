import Mathlib.Tactic.SplitIfs
import ShellLine.Proofs.Grammar.Boundaries
import ShellLine.Proofs.Reading.Actions

/-! # What the rules read are phrases

Every rule that succeeds takes a phrase off the front of the tokens, and yields a tree whose levels
the limit on nesting left room for. The rules are taken up in the order of the grammar, each with
the reader of lists in parentheses as an argument that is sound already; `listWithin_sound` then
goes by induction on the levels.
-/

namespace ShellLine.Grammar

open Alphabet Cursor

/-- Lists are read as phrases only, and only within the room there is. -/
def SoundList (list : Reading Node) : Prop :=
  ∀ ⦃cursor tree after⦄, list.run cursor = .ok tree after →
    ∃ used, cursor.Took used after ∧ ListPhrase used tree ∧ tree.levels ≤ cursor.room

theorem isMark_of_atMark {cursor : Cursor} {mark : Char} {token : Token}
    (found : cursor.atMark mark) (current : cursor.current = some token) : token.isMark mark := by
  simpa [atMark, current] using found

theorem fragment_sound {cursor after : Cursor} {opening : Token} {text : String}
    (ran : (fragment opening).run cursor = .ok text after) :
    ∃ token, cursor.Took [token] after ∧ token.kind = .fragment ∧ token.value = text := by
  simp only [fragment, get_bind_run] at ran
  split at ran
  case h_1 => exact absurd ran fail_run_ne_ok
  case h_2 token current =>
    split at ran
    case isTrue fragment =>
      obtain ⟨token, _, first, done⟩ := bind_run_eq_ok.mp ran
      obtain ⟨rfl, took⟩ := eq_of_consume current first
      cases done
      exact ⟨_, took, fragment, rfl⟩
    case isFalse => exact absurd ran fail_run_ne_ok

/-- The sign that assigns comes right after the word that it assigns to. -/
theorem atAssignment_iff {cursor : Cursor} {name sign : Token} {later : List Token} {leading : Bool}
    (ahead : cursor.rest = name :: sign :: later) :
    cursor.atAssignment leading ↔ name.kind = .literal ∧ assigns (some sign) ∧
      (leading → Text.isVariableName name.value) := by
  have next : cursor.peek 1 = some sign := by rw [peek_eq_getElem?, ahead]; rfl
  cases leading <;>
    simp [atAssignment, current_eq_head?, ahead, next, assigns, and_comm,
      and_left_comm]

/-- A sign that assigns is the first of the tokens ahead. -/
theorem exists_of_assigns {cursor : Cursor} (next : assigns cursor.current) :
    ∃ sign later, cursor.rest = sign :: later ∧ assigns (some sign) := by
  rw [current_eq_head?] at next
  cases ahead : cursor.rest with
  | nil => simp [ahead, assigns] at next
  | cons sign later => exact ⟨sign, later, rfl, by simpa [ahead] using next⟩

/-- The parts of a quote after its first text. -/
def quoteParts (found : List (Node × String)) : List Node :=
  found.flatMap fun (inner, text) => [inner, .string text]

@[simp]
theorem quoteParts_nil : quoteParts [] = [] :=
  rfl

@[simp]
theorem quoteParts_cons (inner : Node) (text : String) (rest : List (Node × String)) :
    quoteParts ((inner, text) :: rest) = inner :: .string text :: quoteParts rest :=
  rfl

theorem quoteNode_phrase {opening text closing : Token} {used : List Token}
    {found : List (Node × String)} (opens : opening.isSymbol (quoteMarks.map String.singleton))
    (fragment : text.kind = .fragment) (phrase : InterpolationsPhrase used (quoteParts found))
    (closes : closing.isSymbol [opening.value]) :
    QuotePhrase (opening :: text :: (used ++ [closing]))
      (quoteNode opening.value text.value found) := by
  cases found with
  | nil =>
    cases phrase
    exact .plain opens fragment closes
  | cons first rest => exact .mixed opens fragment phrase (by simp) closes

/-- A quote takes a level more than its parts. -/
theorem levels_quoteNode (mark first : String) (found : List (Node × String)) :
    (quoteNode mark first found).levels = Node.levelsInQuote (quoteParts found) + 1 := by
  cases found <;> simp [quoteNode, quoteParts, Node.levels, Node.levelsInQuote]

/-- Leading parts hold no arguments, trailing ones no assignments. -/
theorem assemble_append {name : Option Node} {leading trailing : List CommandPart}
    (noArguments : leading.filterMap (·.argument?) = [])
    (noAssignments : trailing.filterMap (·.assignment?) = []) :
    assemble name (leading ++ trailing) =
      .command name (trailing.filterMap (·.argument?))
        (leading.filterMap (·.redirect?) ++ trailing.filterMap (·.redirect?))
        (leading.filterMap (·.assignment?)) := by
  simp [assemble, noArguments, noAssignments]

theorem assemble_headless {leading : List CommandPart}
    (noArguments : leading.filterMap (·.argument?) = []) :
    assemble none leading =
      .command none [] (leading.filterMap (·.redirect?)) (leading.filterMap (·.assignment?)) := by
  rw [assemble, noArguments]

section Rules

variable {list : Reading Node} (sound : SoundList list)
include sound

theorem substitution_sound {cursor after : Cursor} {node : Node}
    (mark : cursor.atMark sigil) (ran : (substitution list).run cursor = .ok node after) :
    ∃ used, cursor.Took used after ∧ SubstitutionPhrase used node ∧
      node.levels ≤ cursor.room := by
  obtain ⟨opening, middle, first, nestedRan⟩ := bind_run_eq_ok.mp ran
  obtain ⟨current, took⟩ := took_of_consume first
  have opens := isMark_of_atMark mark current
  obtain ⟨space, inner, bodyRan, rfl⟩ := nested_run_eq_ok.mp nestedRan
  rw [took.room_eq] at space
  rw [get_bind_run] at bodyRan
  split at bodyRan
  case h_1 => exact absurd bodyRan fail_run_ne_ok
  case h_2 token current =>
    split at bodyRan
    case isTrue name =>
      obtain ⟨_, _, second, done⟩ := bind_run_eq_ok.mp bodyRan
      obtain ⟨rfl, tookName⟩ := eq_of_consume current second
      cases done
      exact ⟨_, took.trans tookName.higher, .name opens name, space⟩
    case isFalse =>
      split at bodyRan
      case isFalse => exact absurd bodyRan fail_run_ne_ok
      case isTrue paren =>
        obtain ⟨_, start, second, bodyRan⟩ := bind_run_eq_ok.mp bodyRan
        obtain ⟨rfl, tookParen⟩ := eq_of_consume current second
        obtain ⟨body, stop, listRan, bodyRan⟩ := bind_run_eq_ok.mp bodyRan
        obtain ⟨used, tookBody, phrase, fits⟩ := sound listRan
        rw [get_bind_run] at bodyRan
        split at bodyRan
        case isFalse => exact absurd bodyRan fail_run_ne_ok
        case isTrue close =>
          obtain ⟨closing, last, third, done⟩ := bind_run_eq_ok.mp bodyRan
          obtain ⟨current, tookClosing⟩ := took_of_consume third
          cases done
          have tookAll := took.trans (tookParen.trans (tookBody.trans tookClosing)).higher
          refine ⟨_, tookAll, .subshell opens paren phrase (isMark_of_atMark close current), ?_⟩
          rw [tookParen.room_eq, room_deeper, took.room_eq] at fits
          simp only [Node.levels]
          omega

theorem interpolation_sound {cursor after : Cursor} {opening : Token} {inner : Node} {text : String}
    (ran : (interpolation list opening).run cursor = .ok (some (inner, text)) after) :
    ∃ used token, cursor.Took (used ++ [token]) after ∧ SubstitutionPhrase used inner ∧
      token.kind = .fragment ∧ token.value = text ∧ inner.levels ≤ cursor.room := by
  simp only [interpolation, get_bind_run] at ran
  split at ran
  case h_1 => cases ran
  case h_2 token current =>
    split at ran
    case isTrue => cases ran
    case isFalse =>
      split at ran
      case isFalse => exact absurd ran fail_run_ne_ok
      case isTrue mark =>
        obtain ⟨inner', middle, first, ran⟩ := bind_run_eq_ok.mp ran
        obtain ⟨text', last, second, done⟩ := bind_run_eq_ok.mp ran
        cases done
        obtain ⟨used, took, phrase, fits⟩ :=
          substitution_sound sound (by simpa [atMark, current] using mark) first
        obtain ⟨token, tookText, fragment, rfl⟩ := fragment_sound second
        exact ⟨used, token, took.trans tookText, phrase, fragment, rfl, fits⟩

omit sound in
theorem interpolation_stop {cursor after : Cursor} {opening : Token}
    (ran : (interpolation list opening).run cursor = .ok none after) :
    after = cursor ∧ ∀ token, cursor.current = some token → token.isSymbol [opening.value] := by
  simp only [interpolation, get_bind_run] at ran
  split at ran
  case h_1 current =>
    cases ran
    exact ⟨rfl, by simp [current]⟩
  case h_2 token current =>
    split at ran
    case isTrue closes =>
      cases ran
      exact ⟨rfl, by simpa [current] using closes⟩
    case isFalse =>
      split at ran
      case isFalse => exact absurd ran fail_run_ne_ok
      case isTrue =>
        obtain ⟨_, _, _, ran⟩ := bind_run_eq_ok.mp ran
        obtain ⟨_, _, _, done⟩ := bind_run_eq_ok.mp ran
        cases done

omit sound in
theorem interpolation_exhausted {opening : Token} (cursor : Cursor) (empty : cursor.remaining = 0) :
    (interpolation list opening).run cursor = .ok none cursor := by
  simp [interpolation, current_of_exhausted empty]

theorem interpolation_dwindles {opening : Token} : Dwindles (interpolation list opening) where
  progress _ _ _ ran := by
    obtain ⟨used, token, took, _⟩ := interpolation_sound sound ran
    exact took.remaining_lt (by simp)
  exhausted := interpolation_exhausted

theorem interpolations_sound {cursor after : Cursor} {opening : Token}
    {found : List (Node × String)} (ran : Iterates (interpolation list opening) cursor found after) :
    ∃ used, cursor.Took used after ∧ InterpolationsPhrase used (quoteParts found) ∧
      Node.levelsInQuote (quoteParts found) ≤ cursor.room ∧
      ∀ token, after.current = some token → token.isSymbol [opening.value] := by
  induction ran with
  | stop last =>
    obtain ⟨rfl, closes⟩ := interpolation_stop last
    exact ⟨[], .refl _, .nil, by simp [Node.levelsInQuote], closes⟩
  | @more cursor middle after found rest first _ ih =>
    obtain ⟨inner, text⟩ := found
    obtain ⟨used, token, took, phrase, fragment, rfl, fits⟩ := interpolation_sound sound first
    obtain ⟨later, tookLater, phrases, fitsLater, closes⟩ := ih
    refine ⟨used ++ [token] ++ later, took.trans tookLater, ?_, ?_, closes⟩
    · simpa using InterpolationsPhrase.cons phrase fragment phrases
    · rw [took.room_eq] at fitsLater
      rw [quoteParts_cons, phrase.levelsInQuote_cons]
      exact Nat.max_le.mpr ⟨fits, fitsLater⟩

theorem quote_sound {cursor after : Cursor} {node : Node}
    (mark : cursor.atSymbol (quoteMarks.map String.singleton))
    (ran : (quote list).run cursor = .ok node after) :
    ∃ used, cursor.Took used after ∧ QuotePhrase used node ∧ node.levels ≤ cursor.room := by
  obtain ⟨opening, middle, first, nestedRan⟩ := bind_run_eq_ok.mp ran
  obtain ⟨current, took⟩ := took_of_consume first
  have opens : opening.isSymbol (quoteMarks.map String.singleton) := by
    simpa [atSymbol, current] using mark
  obtain ⟨space, inner, bodyRan, rfl⟩ := nested_run_eq_ok.mp nestedRan
  rw [took.room_eq] at space
  obtain ⟨text, start, second, bodyRan⟩ := bind_run_eq_ok.mp bodyRan
  obtain ⟨token, tookText, fragment, rfl⟩ := fragment_sound second
  obtain ⟨found, stop, manyRan, bodyRan⟩ := bind_run_eq_ok.mp bodyRan
  obtain ⟨used, tookParts, phrase, fits, closes⟩ := interpolations_sound sound
    ((many_run_eq_ok (interpolation_dwindles sound)).mp manyRan)
  rw [get_bind_run] at bodyRan
  split at bodyRan
  case h_1 => exact absurd bodyRan fail_run_ne_ok
  case h_2 closing current =>
    obtain ⟨_, last, third, done⟩ := bind_run_eq_ok.mp bodyRan
    obtain ⟨rfl, tookClosing⟩ := eq_of_consume current third
    cases done
    refine ⟨_, took.trans (tookText.trans (tookParts.trans tookClosing)).higher,
      quoteNode_phrase opens fragment phrase (closes _ current), ?_⟩
    rw [tookText.room_eq, room_deeper, took.room_eq] at fits
    rw [levels_quoteNode]
    omega

theorem value_sound {cursor after : Cursor} {node : Node}
    (ran : (value list).run cursor = .ok (some node) after) :
    ∃ used, cursor.Took used after ∧ ValuePhrase used node ∧ node.levels ≤ cursor.room := by
  simp only [value, get_bind_run] at ran
  split at ran
  case h_1 => cases ran
  case h_2 token current =>
    split at ran
    case isTrue word =>
      obtain ⟨_, last, first, done⟩ := bind_run_eq_ok.mp ran
      obtain ⟨rfl, took⟩ := eq_of_consume current first
      cases done
      exact ⟨_, took, .word word, by simp [Node.levels]⟩
    case isFalse =>
    split at ran
    case isTrue wildcard =>
      obtain ⟨_, last, first, done⟩ := bind_run_eq_ok.mp ran
      obtain ⟨rfl, took⟩ := eq_of_consume current first
      cases done
      exact ⟨_, took, .wildcard wildcard, by simp [Node.levels]⟩
    case isFalse =>
    split at ran
    case isTrue mark =>
      obtain ⟨node, last, first, done⟩ := bind_run_eq_ok.mp ran
      cases done
      obtain ⟨used, took, phrase, fits⟩ :=
        substitution_sound sound (by simpa [atMark, current] using mark) first
      exact ⟨used, took, .substitution phrase, fits⟩
    case isFalse =>
    split at ran
    case isTrue mark =>
      obtain ⟨node, last, first, done⟩ := bind_run_eq_ok.mp ran
      cases done
      obtain ⟨used, took, phrase, fits⟩ :=
        quote_sound sound (by simpa [atSymbol, current] using mark) first
      exact ⟨used, took, .quote phrase, fits⟩
    case isFalse => cases ran

omit sound in
theorem value_stop {cursor after : Cursor} (ran : (value list).run cursor = .ok none after) :
    after = cursor ∧ startsValue cursor.current = false := by
  simp only [value, get_bind_run] at ran
  split at ran
  case h_1 current =>
    cases ran
    simp [current, startsValue]
  case h_2 token current =>
    split_ifs at ran with word wildcard mark quoteMark
    · exact absurd ran bind_some_run_ne_none
    · exact absurd ran bind_some_run_ne_none
    · exact absurd ran bind_some_run_ne_none
    · exact absurd ran bind_some_run_ne_none
    · cases ran
      simp [startsValue, word, wildcard, mark, quoteMark, current]

theorem assignment_sound {cursor after : Cursor} {node : Node} {leading : Bool}
    (found : cursor.atAssignment leading) (ran : (assignment list).run cursor = .ok node after) :
    ∃ used name value, cursor.Took used after ∧ AssignmentPhrase used after.current node ∧
      node = .assign name value ∧ (leading → Text.isVariableName name) ∧
      node.levels ≤ cursor.room := by
  obtain ⟨name, middle, first, ran⟩ := bind_run_eq_ok.mp ran
  obtain ⟨sign, start, second, ran⟩ := bind_run_eq_ok.mp ran
  obtain ⟨current, tookName⟩ := took_of_consume first
  obtain ⟨next, tookSign⟩ := took_of_consume second
  have took := tookName.trans tookSign
  obtain ⟨word, assigned, named⟩ := (atAssignment_iff took.1).mp found
  split at ran
  case isTrue joined =>
    obtain ⟨target, last, third, done⟩ := bind_run_eq_ok.mp ran
    cases done
    cases target with
    | none =>
      obtain ⟨rfl, nothing⟩ := value_stop third
      exact ⟨_, _, _, took, .bare word assigned (by simp [nothing]), rfl, named, Nat.zero_le _⟩
    | some target =>
      obtain ⟨used, tookValue, phrase, fits⟩ := value_sound sound third
      rw [took.room_eq] at fits
      exact ⟨_, _, _, took.trans tookValue, .valued word assigned joined phrase, rfl, named, fits⟩
  case isFalse apart =>
    cases ran
    exact ⟨_, _, _, took, .bare word assigned (by simp [apart]), rfl, named, Nat.zero_le _⟩

theorem redirect_sound {cursor after : Cursor} {node : Node} (found : cursor.atRedirect)
    (ran : (redirect list).run cursor = .ok node after) :
    ∃ used, cursor.Took used after ∧ RedirectPhrase used node ∧ node.levels ≤ cursor.room := by
  obtain ⟨operator, middle, first, ran⟩ := bind_run_eq_ok.mp ran
  obtain ⟨current, took⟩ := took_of_consume first
  have redirects : operator.isSymbol redirectOperators := by
    simpa [atRedirect, atSymbol, current] using found
  obtain ⟨target, last, second, ran⟩ := bind_run_eq_ok.mp ran
  cases target with
  | none => exact absurd ran fail_run_ne_ok
  | some target =>
    cases ran
    obtain ⟨used, tookValue, phrase, fits⟩ := value_sound sound second
    rw [took.room_eq] at fits
    exact ⟨_, took.trans tookValue, .mk redirects phrase, fits⟩

theorem argument_sound {cursor after : Cursor} {node : Node}
    (ran : (argument list).run cursor = .ok (some node) after) :
    ∃ used, cursor.Took used after ∧ ArgumentPhrase used after.current node ∧
      node.levels ≤ cursor.room := by
  simp only [argument, get_bind_run] at ran
  split_ifs at ran with assigned sign
  · obtain ⟨node, last, first, done⟩ := bind_run_eq_ok.mp ran
    cases done
    obtain ⟨used, _, _, took, phrase, _, _, fits⟩ := assignment_sound sound assigned first
    exact ⟨used, took, .assignment phrase, fits⟩
  · obtain ⟨token, last, first, done⟩ := bind_run_eq_ok.mp ran
    cases done
    obtain ⟨current, took⟩ := took_of_consume first
    exact ⟨_, took, .sign (isMark_of_atMark sign current), Nat.zero_le _⟩
  · obtain ⟨used, took, phrase, fits⟩ := value_sound sound ran
    refine ⟨used, took, .value phrase ?_, fits⟩
    rintro ⟨⟨word, rfl, literal⟩, next⟩
    obtain ⟨sign, later, ahead, assigns⟩ := exists_of_assigns next
    exact assigned ((atAssignment_iff (by rw [took.1, ahead]; rfl)).mpr ⟨literal, assigns, nofun⟩)

omit sound in
theorem argument_stop {cursor after : Cursor} (ran : (argument list).run cursor = .ok none after) :
    after = cursor := by
  simp only [argument, get_bind_run] at ran
  split_ifs at ran with assigned sign
  · exact absurd ran bind_some_run_ne_none
  · exact absurd ran bind_some_run_ne_none
  · exact (value_stop ran).1

/-! ## Leading parts -/

theorem leadingPart_sound {cursor after : Cursor} {part : CommandPart}
    (ran : (leadingPart list).run cursor = .ok (some part) after) :
    ∃ used, cursor.Took used after ∧ used ≠ [] ∧
      ((∃ name value, part = .assignment (.assign name value) ∧ Text.isVariableName name ∧
          AssignmentPhrase used after.current (.assign name value) ∧
          (Node.assign name value).levels ≤ cursor.room) ∨
        ∃ node, part = .redirect node ∧ RedirectPhrase used node ∧ node.levels ≤ cursor.room) := by
  simp only [leadingPart, get_bind_run] at ran
  split_ifs at ran with assigned redirects
  · obtain ⟨node, last, first, done⟩ := bind_run_eq_ok.mp ran
    cases done
    obtain ⟨used, name, value, took, phrase, rfl, named, fits⟩ :=
      assignment_sound sound assigned first
    exact ⟨used, took, phrase.ne_nil, .inl ⟨name, value, rfl, named rfl, phrase, fits⟩⟩
  · obtain ⟨node, last, first, done⟩ := bind_run_eq_ok.mp ran
    cases done
    obtain ⟨used, took, phrase, fits⟩ := redirect_sound sound redirects first
    exact ⟨used, took, phrase.ne_nil, .inr ⟨node, rfl, phrase, fits⟩⟩
  · cases ran

omit sound in
theorem leadingPart_stop {cursor after : Cursor}
    (ran : (leadingPart list).run cursor = .ok none after) :
    after = cursor ∧ cursor.atAssignment true = false ∧ cursor.atRedirect = false := by
  simp only [leadingPart, get_bind_run] at ran
  split_ifs at ran with assigned redirects
  · exact absurd ran bind_some_run_ne_none
  · exact absurd ran bind_some_run_ne_none
  · cases ran
    simp [assigned, redirects]

theorem leadingParts_sound {cursor after : Cursor} {parts : List CommandPart}
    (ran : Iterates (leadingPart list) cursor parts after) :
    ∃ used, cursor.Took used after ∧
      LeadingPhrase used after.current (parts.filterMap (·.redirect?))
        (parts.filterMap (·.assignment?)) ∧
      parts.filterMap (·.argument?) = [] ∧
      Node.levelsAll (parts.filterMap (·.redirect?)) ≤ cursor.room ∧
      Node.levelsAll (parts.filterMap (·.assignment?)) ≤ cursor.room ∧
      (used = [] → parts = []) ∧ after.atAssignment true = false := by
  induction ran with
  | stop last =>
    obtain ⟨rfl, apart, _⟩ := leadingPart_stop last
    exact ⟨[], .refl _, .nil, rfl, Nat.zero_le _, Nat.zero_le _, fun _ => rfl, apart⟩
  | @more cursor middle after part rest first _ ih =>
    obtain ⟨later, tookLater, phrases, noArguments, redirectsFit, assignmentsFit, _, apart⟩ := ih
    obtain ⟨used, took, some, kind⟩ := leadingPart_sound sound first
    rw [took.room_eq] at redirectsFit assignmentsFit
    refine ⟨used ++ later, took.trans tookLater, ?_⟩
    rcases kind with ⟨name, value, rfl, named, phrase, fits⟩ | ⟨node, rfl, phrase, fits⟩
    · rw [took.current_eq tookLater] at phrase
      refine ⟨.assignment phrase named phrases, noArguments, redirectsFit, ?_, ?_, apart⟩
      · exact Nat.max_le.mpr ⟨fits, assignmentsFit⟩
      · simp [some]
    · refine ⟨.redirect phrase phrases, noArguments, ?_, assignmentsFit, ?_, apart⟩
      · exact Nat.max_le.mpr ⟨fits, redirectsFit⟩
      · simp [some]

omit sound in
theorem leadingPart_exhausted (cursor : Cursor) (empty : cursor.remaining = 0) :
    (leadingPart list).run cursor = .ok none cursor := by
  simp [leadingPart, atAssignment, atRedirect, atSymbol, current_of_exhausted empty]

theorem leadingPart_dwindles : Dwindles (leadingPart list) where
  progress _ _ _ ran := by
    obtain ⟨used, took, some, _⟩ := leadingPart_sound sound ran
    exact took.remaining_lt some
  exhausted := leadingPart_exhausted

/-! ## Commands -/

theorem head_sound {cursor after : Cursor} {node : Node}
    (apart : cursor.atAssignment true = false)
    (ran : (head list).run cursor = .ok (some node) after) :
    ∃ used, cursor.Took used after ∧ HeadPhrase used after.current node ∧
      node.levels ≤ cursor.room := by
  simp only [head, get_bind_run] at ran
  split at ran
  case h_1 => cases ran
  case h_2 token current =>
    split_ifs at ran with word mark
    · obtain ⟨_, last, first, done⟩ := bind_run_eq_ok.mp ran
      obtain ⟨rfl, took⟩ := eq_of_consume current first
      cases done
      refine ⟨_, took, .word word ?_, Nat.zero_le _⟩
      rintro ⟨literal, named, next⟩
      obtain ⟨sign, later, ahead, assigns⟩ := exists_of_assigns next
      have assigned : cursor.atAssignment true :=
        (atAssignment_iff (by rw [took.1, ahead]; rfl)).mpr ⟨literal, assigns, fun _ => named⟩
      simp [apart] at assigned
    · obtain ⟨node, last, first, done⟩ := bind_run_eq_ok.mp ran
      cases done
      obtain ⟨used, took, phrase, fits⟩ :=
        substitution_sound sound (by simpa [atMark, current] using mark) first
      exact ⟨used, took, .substitution phrase, fits⟩
    · cases ran

omit sound in
theorem head_stop {cursor after : Cursor} (ran : (head list).run cursor = .ok none after) :
    after = cursor := by
  simp only [head, get_bind_run] at ran
  split at ran
  case h_1 =>
    cases ran
    rfl
  case h_2 token current =>
    split_ifs at ran with word mark
    · exact absurd ran bind_some_run_ne_none
    · exact absurd ran bind_some_run_ne_none
    · cases ran
      rfl

theorem trailingPart_sound {cursor after : Cursor} {part : CommandPart}
    (ran : (trailingPart list).run cursor = .ok (some part) after) :
    ∃ used, cursor.Took used after ∧ used ≠ [] ∧
      ((∃ node, part = .argument node ∧ ArgumentPhrase used after.current node ∧
          node.levels ≤ cursor.room) ∨
        ∃ node, part = .redirect node ∧ RedirectPhrase used node ∧ node.levels ≤ cursor.room) := by
  obtain ⟨found, middle, first, restRan⟩ := bind_run_eq_ok.mp ran
  cases found with
  | some node =>
    cases restRan
    obtain ⟨used, took, phrase, fits⟩ := argument_sound sound first
    exact ⟨used, took, phrase.ne_nil, .inl ⟨node, rfl, phrase, fits⟩⟩
  | none =>
    obtain rfl := argument_stop first
    simp only [get_bind_run] at restRan
    split_ifs at restRan with redirects
    · obtain ⟨node, last, second, done⟩ := bind_run_eq_ok.mp restRan
      cases done
      obtain ⟨used, took, phrase, fits⟩ := redirect_sound sound redirects second
      exact ⟨used, took, phrase.ne_nil, .inr ⟨node, rfl, phrase, fits⟩⟩
    · cases restRan

omit sound in
theorem trailingPart_stop {cursor after : Cursor}
    (ran : (trailingPart list).run cursor = .ok none after) : after = cursor := by
  obtain ⟨found, middle, first, restRan⟩ := bind_run_eq_ok.mp ran
  cases found with
  | some node => cases restRan
  | none =>
    obtain rfl := argument_stop first
    simp only [get_bind_run] at restRan
    split_ifs at restRan with redirects
    · exact absurd restRan bind_some_run_ne_none
    · cases restRan
      rfl

omit sound in
theorem trailingPart_exhausted (cursor : Cursor) (empty : cursor.remaining = 0) :
    (trailingPart list).run cursor = .ok none cursor := by
  simp [trailingPart, argument, value, atAssignment, atMark, atRedirect, atSymbol,
    current_of_exhausted empty]

theorem trailingPart_dwindles : Dwindles (trailingPart list) where
  progress _ _ _ ran := by
    obtain ⟨used, took, some, _⟩ := trailingPart_sound sound ran
    exact took.remaining_lt some
  exhausted := trailingPart_exhausted

theorem trailingParts_sound {cursor after : Cursor} {parts : List CommandPart}
    (ran : Iterates (trailingPart list) cursor parts after) :
    ∃ used, cursor.Took used after ∧
      TrailingPhrase used (parts.filterMap (·.argument?)) (parts.filterMap (·.redirect?)) ∧
      parts.filterMap (·.assignment?) = [] ∧
      Node.levelsAll (parts.filterMap (·.argument?)) ≤ cursor.room ∧
      Node.levelsAll (parts.filterMap (·.redirect?)) ≤ cursor.room := by
  induction ran with
  | stop last =>
    obtain rfl := trailingPart_stop last
    exact ⟨[], .refl _, .nil, rfl, Nat.zero_le _, Nat.zero_le _⟩
  | @more cursor middle after part rest first _ ih =>
    obtain ⟨later, tookLater, phrases, noAssignments, argumentsFit, redirectsFit⟩ := ih
    obtain ⟨used, took, some, kind⟩ := trailingPart_sound sound first
    rw [took.room_eq] at argumentsFit redirectsFit
    refine ⟨used ++ later, took.trans tookLater, ?_⟩
    rcases kind with ⟨node, rfl, phrase, fits⟩ | ⟨node, rfl, phrase, fits⟩
    · rw [took.current_eq tookLater] at phrase
      refine ⟨.argument (phrase.milder (.at_end _)) phrases, noAssignments, ?_, redirectsFit⟩
      exact Nat.max_le.mpr ⟨fits, argumentsFit⟩
    · refine ⟨.redirect phrase phrases, noAssignments, argumentsFit, ?_⟩
      exact Nat.max_le.mpr ⟨fits, redirectsFit⟩

theorem command_sound {cursor after : Cursor} {node : Node}
    (ran : (command list).run cursor = .ok node after) :
    ∃ used, cursor.Took used after ∧ CommandPhrase used node ∧ node.levels ≤ cursor.room := by
  obtain ⟨leading, middle, leadingRan, ran⟩ := bind_run_eq_ok.mp ran
  obtain ⟨first, took, phrase, noArguments, redirectsFit, assignmentsFit, empty, apart⟩ :=
    leadingParts_sound sound ((many_run_eq_ok (leadingPart_dwindles sound)).mp leadingRan)
  obtain ⟨name, start, headRan, restRan⟩ := bind_run_eq_ok.mp ran
  cases name with
  | some name =>
    obtain ⟨trailing, last, trailingRan, done⟩ := bind_run_eq_ok.mp restRan
    cases done
    obtain ⟨second, tookHead, headPhrase, headFits⟩ := head_sound sound apart headRan
    obtain ⟨third, tookTrailing, trailingPhrase, noAssignments, argumentsFit, trailingFit⟩ :=
      trailingParts_sound sound ((many_run_eq_ok (trailingPart_dwindles sound)).mp trailingRan)
    rw [tookHead.room_eq] at argumentsFit trailingFit
    rw [took.room_eq] at headFits argumentsFit trailingFit
    rw [tookHead.current_eq tookTrailing] at headPhrase
    rw [took.current_eq tookHead, Option.or_of_isSome (by simp [headPhrase.ne_nil])] at phrase
    rw [assemble_append noArguments noAssignments]
    refine ⟨_, took.trans (tookHead.trans tookTrailing), ?_, ?_⟩
    · exact .headed phrase (headPhrase.milder (.at_end _)) trailingPhrase
    · simp only [Node.levels, Node.levelsOption, Node.levelsAll_append]
      omega
  | none =>
    obtain rfl := head_stop headRan
    dsimp only at restRan
    split at restRan
    case isTrue =>
      rw [get_bind_run] at restRan
      split at restRan
      · exact absurd restRan fail_run_ne_ok
      · exact absurd restRan fail_run_ne_ok
    case isFalse some =>
      cases restRan
      rw [assemble_headless noArguments]
      refine ⟨first, took, ?_, ?_⟩
      · exact .headless (phrase.milder .none) fun none => by simp [empty none] at some
      · simp only [Node.levels, Node.levelsOption, Node.levelsAll]
        omega

/-! ## Pipelines and lists -/

theorem nextStage_sound {cursor after : Cursor} {node : Node}
    (ran : (nextStage list).run cursor = .ok (some node) after) :
    ∃ bar used, cursor.Took (bar :: used) after ∧ bar.isMark pipe ∧ CommandPhrase used node ∧
      node.levels ≤ cursor.room := by
  simp only [nextStage, get_bind_run] at ran
  split_ifs at ran with mark
  · obtain ⟨bar, middle, first, ran⟩ := bind_run_eq_ok.mp ran
    obtain ⟨current, tookBar⟩ := took_of_consume first
    obtain ⟨node, last, second, done⟩ := bind_run_eq_ok.mp ran
    cases done
    obtain ⟨used, took, phrase, fits⟩ := command_sound sound second
    rw [tookBar.room_eq] at fits
    exact ⟨bar, used, tookBar.trans took, isMark_of_atMark mark current, phrase, fits⟩
  · cases ran

omit sound in
theorem nextStage_stop {cursor after : Cursor}
    (ran : (nextStage list).run cursor = .ok none after) : after = cursor := by
  simp only [nextStage, get_bind_run] at ran
  split_ifs at ran with mark
  · obtain ⟨_, _, _, ran⟩ := bind_run_eq_ok.mp ran
    exact absurd ran bind_some_run_ne_none
  · cases ran
    rfl

omit sound in
theorem nextStage_exhausted (cursor : Cursor) (empty : cursor.remaining = 0) :
    (nextStage list).run cursor = .ok none cursor := by
  simp [nextStage, atMark, current_of_exhausted empty]

theorem nextStage_dwindles : Dwindles (nextStage list) where
  progress _ _ _ ran := by
    obtain ⟨bar, used, took, _⟩ := nextStage_sound sound ran
    exact took.remaining_lt (by simp)
  exhausted := nextStage_exhausted

theorem stages_sound {cursor after : Cursor} {stages : List Node}
    (ran : Iterates (nextStage list) cursor stages after) :
    ∃ used, cursor.Took used after ∧ StagesPhrase used stages ∧
      Node.levelsAll stages ≤ cursor.room := by
  induction ran with
  | stop last =>
    obtain rfl := nextStage_stop last
    exact ⟨[], .refl _, .nil, Nat.zero_le _⟩
  | @more cursor middle after stage rest first _ ih =>
    obtain ⟨bar, used, took, mark, phrase, fits⟩ := nextStage_sound sound first
    obtain ⟨later, tookLater, phrases, fitsLater⟩ := ih
    rw [took.room_eq] at fitsLater
    exact ⟨_, took.trans tookLater, .cons mark phrase phrases, Nat.max_le.mpr ⟨fits, fitsLater⟩⟩

theorem pipeline_sound {cursor after : Cursor} {node : Node}
    (ran : (pipeline list).run cursor = .ok node after) :
    ∃ used, cursor.Took used after ∧ PipelinePhrase used node ∧ node.levels ≤ cursor.room := by
  obtain ⟨first, middle, firstRan, ran⟩ := bind_run_eq_ok.mp ran
  obtain ⟨stages, last, stagesRan, done⟩ := bind_run_eq_ok.mp ran
  cases done
  obtain ⟨used, took, phrase, fits⟩ := command_sound sound firstRan
  obtain ⟨later, tookLater, phrases, fitsLater⟩ := stages_sound sound
    ((many_run_eq_ok (nextStage_dwindles sound)).mp stagesRan)
  rw [took.room_eq] at fitsLater
  refine ⟨used ++ later, took.trans tookLater, .mk phrase phrases, ?_⟩
  rw [Node.levels_foldl_pipe]
  exact Nat.max_le.mpr ⟨fits, fitsLater⟩

theorem nextPipeline_sound {cursor after : Cursor} {node : Node}
    (ran : (nextPipeline list).run cursor = .ok (some node) after) :
    ∃ separator used, cursor.Took (separator :: used) after ∧ separator.isMark semicolon ∧
      PipelinePhrase used node ∧ node.levels ≤ cursor.room := by
  simp only [nextPipeline, get_bind_run] at ran
  split at ran
  case isFalse => cases ran
  case isTrue mark =>
    obtain ⟨separator, middle, first, ran⟩ := bind_run_eq_ok.mp ran
    obtain ⟨current, tookSeparator⟩ := took_of_consume first
    simp only [get_bind_run] at ran
    split at ran
    case isTrue => cases ran
    case isFalse =>
      obtain ⟨node, last, second, done⟩ := bind_run_eq_ok.mp ran
      cases done
      obtain ⟨used, took, phrase, fits⟩ := pipeline_sound sound second
      rw [tookSeparator.room_eq] at fits
      exact ⟨separator, used, tookSeparator.trans took, isMark_of_atMark mark current, phrase, fits⟩

omit sound in
theorem nextPipeline_stop {cursor after : Cursor}
    (ran : (nextPipeline list).run cursor = .ok none after) :
    ∃ used, cursor.Took used after ∧ TailPhrase used [] := by
  simp only [nextPipeline, get_bind_run] at ran
  split at ran
  case isFalse =>
    cases ran
    exact ⟨[], .refl _, .nil⟩
  case isTrue mark =>
    obtain ⟨separator, middle, first, ran⟩ := bind_run_eq_ok.mp ran
    obtain ⟨current, took⟩ := took_of_consume first
    simp only [get_bind_run] at ran
    split at ran
    case isTrue =>
      cases ran
      exact ⟨[separator], took, .trailing (isMark_of_atMark mark current)⟩
    case isFalse => exact absurd ran bind_some_run_ne_none

omit sound in
theorem nextPipeline_exhausted (cursor : Cursor) (empty : cursor.remaining = 0) :
    (nextPipeline list).run cursor = .ok none cursor := by
  simp [nextPipeline, atMark, current_of_exhausted empty]

theorem nextPipeline_dwindles : Dwindles (nextPipeline list) where
  progress _ _ _ ran := by
    obtain ⟨separator, used, took, _⟩ := nextPipeline_sound sound ran
    exact took.remaining_lt (by simp)
  exhausted := nextPipeline_exhausted

theorem tail_sound {cursor after : Cursor} {items : List Node}
    (ran : Iterates (nextPipeline list) cursor items after) :
    ∃ used, cursor.Took used after ∧ TailPhrase used items ∧
      Node.levelsAll items ≤ cursor.room := by
  induction ran with
  | stop last =>
    obtain ⟨used, took, phrase⟩ := nextPipeline_stop last
    exact ⟨used, took, phrase, Nat.zero_le _⟩
  | @more cursor middle after item rest first _ ih =>
    obtain ⟨separator, used, took, mark, phrase, fits⟩ := nextPipeline_sound sound first
    obtain ⟨later, tookLater, phrases, fitsLater⟩ := ih
    rw [took.room_eq] at fitsLater
    exact ⟨_, took.trans tookLater, .cons mark phrase phrases, Nat.max_le.mpr ⟨fits, fitsLater⟩⟩

theorem sequence_sound : SoundList (sequence list) := by
  intro cursor tree after ran
  obtain ⟨first, middle, firstRan, ran⟩ := bind_run_eq_ok.mp ran
  obtain ⟨rest, last, restRan, done⟩ := bind_run_eq_ok.mp ran
  cases done
  obtain ⟨used, took, phrase, fits⟩ := pipeline_sound sound firstRan
  obtain ⟨later, tookLater, phrases, fitsLater⟩ := tail_sound sound
    ((many_run_eq_ok (nextPipeline_dwindles sound)).mp restRan)
  rw [took.room_eq] at fitsLater
  refine ⟨used ++ later, took.trans tookLater, ?_⟩
  cases rest with
  | nil => exact ⟨.single phrase phrases, fits⟩
  | cons second rest => exact ⟨.sequence phrase phrases, Nat.max_le.mpr ⟨fits, fitsLater⟩⟩

end Rules

/-- Whatever the number of levels, lists are read as phrases only. -/
theorem listWithin_sound (levels : Nat) : SoundList (listWithin levels) := by
  induction levels with
  | zero => exact fun _ _ _ ran => absurd ran fail_run_ne_ok
  | succ levels ih => exact sequence_sound ih

end ShellLine.Grammar
