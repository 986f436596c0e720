import ShellLine.Proofs.Grammar.Parallel
import ShellLine.Proofs.Reading.Ensures
import ShellLine.Proofs.Reading.Stuck

/-! # Which parentheses the parser blames

The parser blames the parenthesis of a substitution whenever the list in it stops in front of a token
that does not close it, whichever token that is. What the token can be follows from what a list goes
on with: the rules are gone through once for both, where a list stops and what a rule blames.
-/

namespace ShellLine.Grammar

open Alphabet Cursor

/-! ## Where lists stop -/

/-- Whether a command that could end in front of the token goes on with it, whatever it consists of. -/
def extendsCommand (token : Token) : Bool :=
  token.isWord || token.isMark sigil || token.isSymbol redirectOperators

/-- Whether a pipeline goes on with the token. -/
def extendsPipeline (token : Token) : Bool :=
  extendsCommand token || token.isMark pipe

/-- Whether a list goes on with the token. -/
def extendsList (token : Token) : Bool :=
  extendsPipeline token || token.isMark semicolon

theorem not_extendsList_of_closeParen {token : Token} (closes : token.isMark closeParen) :
    extendsList token = false := by
  have symbol := isWord_of_symbol (kind_of_isMark closes)
  have noOperator : token.isSymbol redirectOperators = false :=
    isSymbol_of_isMark closes (by decide) (by decide)
  have noSigil : token.isMark sigil = false := isMark_of_isMark closes (by decide)
  have noPipe : token.isMark pipe = false := isMark_of_isMark closes (by decide)
  have noSemicolon : token.isMark semicolon = false := isMark_of_isMark closes (by decide)
  simp [extendsList, extendsPipeline, extendsCommand, symbol, noOperator, noSigil, noPipe,
    noSemicolon]

/-- The next token, if there is one, is none of the given ones. -/
def Halted (goesOn : Token → Bool) (cursor : Cursor) : Prop :=
  cursor.current.any goesOn = false

/-- Whether the next token, if there is one, starts the head of a command. -/
def startsHead (next : Option Token) : Bool :=
  next.any fun token => token.isWord || token.isMark sigil

section Halted

variable {cursor : Cursor}

theorem halted_of_noHead (noHead : startsHead cursor.current = false)
    (noRedirect : cursor.atRedirect = false) : Halted extendsCommand cursor := by
  unfold Halted
  cases current : cursor.current with
  | none => rfl
  | some token => simp_all [extendsCommand, startsHead, atRedirect, atSymbol]

/-- What starts a head starts a value, too. -/
theorem halted_of_noValue (noValue : startsValue cursor.current = false)
    (noRedirect : cursor.atRedirect = false) : Halted extendsCommand cursor := by
  refine halted_of_noHead ?_ noRedirect
  cases current : cursor.current with
  | none => rfl
  | some token => simp_all [startsHead, startsValue]

/-- One more mark does not come next. -/
theorem Halted.or {goesOn : Token → Bool} {mark : Char} (halted : Halted goesOn cursor)
    (apart : cursor.atMark mark = false) :
    Halted (fun token => goesOn token || token.isMark mark) cursor := by
  unfold Halted at halted ⊢
  cases current : cursor.current with
  | none => rfl
  | some token => simp_all [atMark]

/-- After its last semicolon a list goes on with nothing. -/
theorem halted_of_ends (ends : cursor.current.isNone || cursor.atMark closeParen) :
    Halted extendsList cursor := by
  unfold Halted
  cases current : cursor.current with
  | none => rfl
  | some token =>
    have closes : token.isMark closeParen := by simpa [atMark, atSymbol, current] using ends
    exact not_extendsList_of_closeParen closes

end Halted

/-! ## What is blamed -/

/-- The tokens read last are the sigil and the parenthesis of a substitution, and a list. The next
token neither goes on with the list nor closes it. -/
def StopsShort (opening : Token) (cursor : Cursor) : Prop :=
  ∃ before mark used tree, cursor.taken = before ++ mark :: opening :: used ∧ mark.isMark sigil ∧
    opening.isMark openParen ∧ ListPhrase used tree ∧ Halted extendsList cursor ∧
    cursor.atMark closeParen = false

/-- The fault is about no parenthesis, or about one whose list stops short. -/
def Justified (fault : StructuralFault) (after : Cursor) : Prop :=
  fault.kind = .unbalancedParenthesis →
    ∃ opening, fault = .missingParen opening ∧ StopsShort opening after

theorem Justified.of_kind {fault : StructuralFault} {after : Cursor}
    (apart : (fault.kind == .unbalancedParenthesis) = false) : Justified fault after := by
  intro kind
  rw [kind] at apart
  cases apart

/-- Faults of the action are justified. -/
def Blames {α : Type} (action : Reading α) (cursor : Cursor) : Prop :=
  Ensures action cursor (fun _ _ => True) Justified

/-- Where the action succeeds, none of the given tokens comes next. -/
def Halts {α : Type} (goesOn : Token → Bool) (action : Reading α) (cursor : Cursor) : Prop :=
  Ensures action cursor (fun _ after => Halted goesOn after) Justified

/-- If the action yields nothing, then `missing` holds after it, and otherwise `found` does. -/
def Offers {α : Type} (action : Reading (Option α)) (cursor : Cursor) (missing found : Cursor → Prop) :
    Prop :=
  Ensures action cursor (fun result after => result.elim (missing after) fun _ => found after)
    Justified

theorem consume_took (cursor : Cursor) :
    Ensures consume cursor (fun token after => cursor.current = some token ∧ cursor.Took [token] after)
      Justified := by
  unfold Ensures
  split
  case h_1 ran => exact took_of_consume ran
  case h_2 ran =>
    cases current : cursor.current with
    | some token => exact absurd ran (consume_run_ne_error current)
    | none =>
      rw [current_eq_head?, List.head?_eq_none_iff] at current
      rw [consume_run, current, fail_run] at ran
      cases ran
      exact .of_kind rfl

/-- What runs that succeed are known to come to may be added. -/
theorem Halts.sound {list : Reading Node} {goesOn : Token → Bool} {cursor : Cursor}
    (halts : Halts goesOn list cursor) (sound : SoundList list) :
    Ensures list cursor (fun _ after => Halted goesOn after ∧
      ∃ used tree, cursor.Took used after ∧ ListPhrase used tree) Justified := by
  unfold Ensures
  split
  case h_2 ran => exact halts.of_error ran
  case h_1 ran =>
    obtain ⟨used, took, phrase, _⟩ := sound ran
    exact ⟨halts.of_ok ran, used, _, took, phrase⟩

theorem fragment_blames (opening : Token) (cursor : Cursor) : Blames (fragment opening) cursor := by
  apply Ensures.get_bind
  split
  case h_1 => exact .fail fun _ => .of_kind rfl
  case h_2 =>
    split
    case isTrue => exact (consume_took cursor).bind fun _ _ _ => .pure trivial
    case isFalse => exact .fail fun _ => .of_kind rfl

section Rules

variable {list : Reading Node} (sound : SoundList list) (halts : ∀ cursor, Halts extendsList list cursor)
  {cursor : Cursor}
include sound halts

theorem substitution_blames (mark : cursor.atMark sigil) : Blames (substitution list) cursor := by
  apply (consume_took cursor).bind
  rintro opening start ⟨current, took⟩
  have opens := isMark_of_atMark mark current
  refine .nested (fun _ _ => .of_kind rfl) (.get_bind ?_)
  split
  case h_1 => exact .fail fun _ => .of_kind rfl
  case h_2 token next =>
    split
    case isTrue => exact (consume_took _).bind fun _ _ _ => .pure trivial
    case isFalse =>
      split
      case isFalse => exact .fail fun _ => .of_kind rfl
      case isTrue opensGroup =>
        apply (consume_took _).bind
        rintro paren inner ⟨same, tookParen⟩
        obtain rfl : paren = token := Option.some.inj (same.symm.trans next)
        apply ((halts inner).sound sound).bind
        rintro _ last ⟨halted, used, tree, tookList, phrase⟩
        apply Ensures.get_bind
        split
        case isTrue => exact (consume_took _).bind fun _ _ _ => .pure trivial
        case isFalse apart =>
          have before : start.deeper.taken = cursor.taken ++ [opening] := by
            rw [← took.taken_eq]
            rfl
          have read : last.taken = cursor.taken ++ opening :: paren :: used := by
            rw [(tookParen.trans tookList).taken_eq, before]
            simp
          have short : StopsShort paren last :=
            ⟨_, _, _, _, read, opens, opensGroup, phrase, halted, Bool.eq_false_iff.mpr apart⟩
          exact .fail fun _ _ => ⟨paren, rfl, short⟩

theorem interpolation_offers (opening : Token) (cursor : Cursor) :
    Offers (interpolation list opening) cursor (fun _ => True) fun _ => True := by
  apply Ensures.get_bind
  split
  case h_1 => exact .pure trivial
  case h_2 token current =>
    split
    case isTrue => exact .pure trivial
    case isFalse =>
      split
      case isFalse => exact .fail fun _ => .of_kind rfl
      case isTrue mark =>
        have atSigil : cursor.atMark sigil := by simpa [atMark, current] using mark
        apply (substitution_blames sound halts atSigil).bind
        rintro inner middle -
        exact (fragment_blames opening middle).bind fun _ _ _ => .pure trivial

theorem quote_blames (cursor : Cursor) : Blames (quote list) cursor := by
  apply (consume_took cursor).bind
  rintro opening start -
  refine .nested (fun _ _ => .of_kind rfl) ?_
  apply Ensures.bind (fragment_blames opening start.deeper)
  rintro _ middle -
  have parts : Blames (many (interpolation list opening)) middle :=
    .many (interpolation_dwindles sound)
      (fun next _ => interpolation_offers sound halts opening next) trivial
  apply parts.bind
  rintro _ last -
  apply Ensures.get_bind
  split
  case h_1 => exact .fail fun _ => .of_kind rfl
  case h_2 => exact (consume_took last).bind fun _ _ _ => .pure trivial

/-- Where no value is found, none comes next. -/
theorem value_offers (cursor : Cursor) : Offers (value list) cursor
    (fun after => startsValue after.current = false) fun _ => True := by
  apply Ensures.get_bind
  split
  case h_1 current => exact .pure (by simp [startsValue, current])
  case h_2 token current =>
    split
    case isTrue => exact (consume_took cursor).bind fun _ _ _ => .pure trivial
    case isFalse noWord =>
    split
    case isTrue => exact (consume_took cursor).bind fun _ _ _ => .pure trivial
    case isFalse noWildcard =>
    split
    case isTrue mark =>
      have atSigil : cursor.atMark sigil := by simpa [atMark, current] using mark
      exact (substitution_blames sound halts atSigil).bind fun _ _ _ => .pure trivial
    case isFalse noSigil =>
    split
    case isTrue => exact (quote_blames sound halts cursor).bind fun _ _ _ => .pure trivial
    case isFalse noQuote =>
      exact .pure (by simp [startsValue, current, noWord, noWildcard, noSigil, noQuote])

theorem assignment_blames (cursor : Cursor) : Blames (assignment list) cursor := by
  apply (consume_took cursor).bind
  rintro name middle -
  apply (consume_took middle).bind
  rintro sign last -
  split
  case isTrue => exact (value_offers sound halts last).bind fun _ _ _ => .pure trivial
  case isFalse => exact .pure trivial

theorem redirect_blames (cursor : Cursor) : Blames (redirect list) cursor := by
  apply (consume_took cursor).bind
  rintro operator middle -
  apply (value_offers sound halts middle).bind
  rintro target last -
  cases target with
  | none => exact .fail fun _ => .of_kind rfl
  | some target => exact .pure trivial

/-- Where no argument is found, no value comes next. -/
theorem argument_offers (cursor : Cursor) : Offers (argument list) cursor
    (fun after => startsValue after.current = false) fun _ => True := by
  apply Ensures.get_bind
  split
  case isTrue => exact (assignment_blames sound halts cursor).bind fun _ _ _ => .pure trivial
  case isFalse =>
    split
    case isTrue => exact (consume_took cursor).bind fun _ _ _ => .pure trivial
    case isFalse => exact value_offers sound halts cursor

theorem leadingPart_offers (cursor : Cursor) : Offers (leadingPart list) cursor
    (fun after => after.atRedirect = false) fun _ => True := by
  apply Ensures.get_bind
  split
  case isTrue => exact (assignment_blames sound halts cursor).bind fun _ _ _ => .pure trivial
  case isFalse =>
    split
    case isTrue => exact (redirect_blames sound halts cursor).bind fun _ _ _ => .pure trivial
    case isFalse apart => exact .pure (Bool.eq_false_iff.mpr apart)

theorem trailingPart_offers (cursor : Cursor) : Offers (trailingPart list) cursor
    (Halted extendsCommand) fun _ => True := by
  apply (argument_offers sound halts cursor).bind
  intro found middle noValue
  cases found with
  | some node => exact .pure trivial
  | none =>
    apply Ensures.get_bind
    split
    case isTrue => exact (redirect_blames sound halts middle).bind fun _ _ _ => .pure trivial
    case isFalse apart => exact .pure (halted_of_noValue noValue (Bool.eq_false_iff.mpr apart))

/-- Where no head is found, none comes next. -/
theorem head_offers (cursor : Cursor) : Offers (head list) cursor
    (fun after => after = cursor ∧ startsHead cursor.current = false) fun _ => True := by
  apply Ensures.get_bind
  split
  case h_1 current => exact .pure ⟨rfl, by simp [startsHead, current]⟩
  case h_2 token current =>
    split
    case isTrue => exact (consume_took cursor).bind fun _ _ _ => .pure trivial
    case isFalse noWord =>
    split
    case isTrue mark =>
      have atSigil : cursor.atMark sigil := by simpa [atMark, current] using mark
      exact (substitution_blames sound halts atSigil).bind fun _ _ _ => .pure trivial
    case isFalse noSigil => exact .pure ⟨rfl, by simp [startsHead, current, noWord, noSigil]⟩

theorem command_halts (cursor : Cursor) : Halts extendsCommand (command list) cursor := by
  have leading : Ensures (many (leadingPart list)) cursor (fun _ after => after.atRedirect = false)
      Justified :=
    .many (leadingPart_dwindles sound) (fun next _ => leadingPart_offers sound halts next) trivial
  apply leading.bind
  intro parts middle noRedirect
  apply (head_offers sound halts middle).bind
  intro name start noHead
  cases name with
  | some name =>
    have trailing : Halts extendsCommand (many (trailingPart list)) start :=
      .many (trailingPart_dwindles sound) (fun next _ => trailingPart_offers sound halts next) trivial
    exact trailing.bind fun _ _ halted => .pure halted
  | none =>
    obtain ⟨rfl, apart⟩ := noHead
    dsimp only
    split
    case isTrue =>
      apply Ensures.get_bind
      split <;> exact .fail fun _ => .of_kind rfl
    case isFalse => exact .pure (halted_of_noHead apart noRedirect)

theorem nextStage_offers (cursor : Cursor) (halted : Halted extendsCommand cursor) :
    Offers (nextStage list) cursor (Halted extendsPipeline) (Halted extendsCommand) := by
  apply Ensures.get_bind
  split
  case isFalse apart => exact .pure (halted.or (Bool.eq_false_iff.mpr apart))
  case isTrue =>
    apply (consume_took cursor).bind
    rintro bar middle -
    exact (command_halts sound halts middle).bind fun _ _ halted => .pure halted

theorem pipeline_halts (cursor : Cursor) : Halts extendsPipeline (pipeline list) cursor := by
  apply (command_halts sound halts cursor).bind
  intro first middle halted
  have stages : Halts extendsPipeline (many (nextStage list)) middle :=
    .many (nextStage_dwindles sound) (nextStage_offers sound halts) halted
  exact stages.bind fun _ _ halted => .pure halted

theorem nextPipeline_offers (cursor : Cursor) (halted : Halted extendsPipeline cursor) :
    Offers (nextPipeline list) cursor (Halted extendsList) (Halted extendsPipeline) := by
  apply Ensures.get_bind
  split
  case isFalse apart => exact .pure (halted.or (Bool.eq_false_iff.mpr apart))
  case isTrue =>
    apply (consume_took cursor).bind
    rintro separator middle -
    apply Ensures.get_bind
    split
    case isTrue ends => exact .pure (halted_of_ends ends)
    case isFalse =>
      exact (pipeline_halts sound halts middle).bind fun _ _ halted => .pure halted

theorem sequence_halts (cursor : Cursor) : Halts extendsList (sequence list) cursor := by
  apply (pipeline_halts sound halts cursor).bind
  intro first middle halted
  have rest : Halts extendsList (many (nextPipeline list)) middle :=
    .many (nextPipeline_dwindles sound) (nextPipeline_offers sound halts) halted
  exact rest.bind fun _ _ halted => .pure halted

end Rules

/-- Lists stop in front of what no list goes on with, and blame parentheses for nothing else. -/
theorem listWithin_halts (levels : Nat) (cursor : Cursor) :
    Halts extendsList (listWithin levels) cursor := by
  induction levels generalizing cursor with
  | zero => exact .fail fun _ => .of_kind rfl
  | succ levels ih => exact sequence_halts (listWithin_sound levels) ih cursor

/-- The parser blames a closing parenthesis right after a list, and an opening one where the list after
it stops short. -/
theorem parse_blames {cursor after : Cursor} {fault : StructuralFault}
    (mixed : cursor.commentOnly = false) (ran : Grammar.parse.run cursor = .error fault after)
    (kind : fault.kind = .unbalancedParenthesis) :
    (∃ closing used tree more, fault = .unmatchedParen closing ∧ closing.isMark closeParen ∧
      cursor.rest = used ++ closing :: more ∧ ListPhrase used tree) ∨
    ∃ opening, fault = .missingParen opening ∧ StopsShort opening after ∧
      after.tokens = cursor.tokens := by
  rw [parse_run mixed] at ran
  obtain failed | ⟨tree, middle, first, ran⟩ := bind_run_eq_error.mp ran
  · obtain ⟨opening, rfl, short⟩ :=
      (listWithin_halts (cursor.remaining + 1) cursor).of_error failed kind
    obtain ⟨_, _, rfl⟩ := (listWithin_steady (cursor.remaining + 1)).of_error failed
    exact .inr ⟨opening, rfl, short, rfl⟩
  · obtain ⟨used, took, phrase, _⟩ := sequence_sound (listWithin_sound cursor.remaining) first
    rw [conclude, get_bind_run] at ran
    split at ran
    case h_2 => cases ran
    case h_1 token current =>
      obtain ⟨more, ahead⟩ := List.head?_eq_some_iff.mp (middle.current_eq_head?.symm.trans current)
      split at ran
      case isTrue closes =>
        cases ran
        exact .inl ⟨token, used, tree, more, rfl, closes, ahead ▸ took.1, phrase⟩
      case isFalse =>
        cases ran
        cases kind

end ShellLine.Grammar
