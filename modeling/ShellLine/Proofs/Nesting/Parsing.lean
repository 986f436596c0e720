import ShellLine.Proofs.Grammar.Acceptance
import ShellLine.Proofs.Nesting.Phrases
import ShellLine.Proofs.Nesting.Scanning
import ShellLine.Proofs.Reading.Ensures

/-! # Well nested tokens never fail in a quote

The parser goes through the constructs of well nested tokens as `follow` does: each rule starts and
ends outside quoted text with the same constructs open, and inside a quote it finds what the quote
waits for. So a rule may fail for other reasons, but not because a quote is unbalanced or holds
something invalid.
-/

namespace ShellLine

open Alphabet

/-- The fault is not about quotes. -/
def StructuralFault.Harmless (fault : StructuralFault) : Prop :=
  fault.kind ≠ .unbalancedQuote ∧ fault.kind ≠ .invalidQuoteContents

theorem StructuralFault.Harmless.of_kind {fault : StructuralFault}
    (apart : [.unbalancedQuote, .invalidQuoteContents].contains fault.kind = false) :
    fault.Harmless := by
  simpa [StructuralFault.Harmless] using apart

namespace Grammar

open Cursor

/-- The tokens ahead close what is open. -/
def Followable (frames : List Frame) (cursor : Cursor) : Prop :=
  follow true frames cursor.rest = some []

/-- The action leaves these constructs open, or fails for another reason than a quote. -/
def Keeps {α : Type} (frames : List Frame) (action : Reading α) (cursor : Cursor) : Prop :=
  Ensures action cursor (fun _ after => Followable frames after) fun fault _ => fault.Harmless

/-- Lists are read outside quoted text, inside any constructs. -/
def NestingList (list : Reading Node) : Prop :=
  ∀ ⦃frames cursor⦄, Between frames → Followable frames cursor → Keeps frames list cursor

/-! ## Single tokens -/

section Tokens

variable {α : Type} {frames next : List Frame} {cursor : Cursor} {token : Token}

/-- Something that is open has to be closed. -/
theorem exists_of_followable {frame : Frame} (followable : Followable (frame :: frames) cursor) :
    ∃ token next, cursor.current = some token ∧ advance true (frame :: frames) token = some next := by
  unfold Followable at followable
  rw [current_eq_head?]
  cases ahead : cursor.rest with
  | nil => simp [ahead] at followable
  | cons token later =>
    rw [ahead, follow_cons, Option.bind_eq_some_iff] at followable
    obtain ⟨next, advanced, _⟩ := followable
    exact ⟨token, next, rfl, advanced⟩

theorem consume_ensures_of_rest {later : List Token} (followable : Followable frames cursor)
    (ahead : cursor.rest = token :: later) (advanced : advance true frames token = some next) :
    Ensures consume cursor
      (fun read after => read = token ∧ after.rest = later ∧ Followable next after)
      fun fault _ => fault.Harmless := by
  unfold Followable at followable
  rw [ahead, follow_cons, advanced, Option.bind_some] at followable
  exact .consume ahead ⟨rfl, by simp [ahead], by simpa [Followable, ahead] using followable⟩

theorem consume_ensures (followable : Followable frames cursor) (current : cursor.current = some token)
    (advanced : advance true frames token = some next) :
    Ensures consume cursor (fun read after => read = token ∧ Followable next after)
      fun fault _ => fault.Harmless := by
  rw [current_eq_head?] at current
  obtain ⟨later, ahead⟩ := List.head?_eq_some_iff.mp current
  exact (consume_ensures_of_rest followable ahead advanced).mono fun _ _ read => ⟨read.1, read.2.2⟩

theorem consume_keeps (followable : Followable frames cursor) (current : cursor.current = some token)
    (advanced : advance true frames token = some next) : Keeps next consume cursor :=
  (consume_ensures followable current advanced).mono fun _ _ read => read.2

end Tokens

/-! ## Quotes and substitutions -/

theorem fragment_keeps {mark : String} {outer : List Frame} {cursor : Cursor} (opening : Token)
    (followable : Followable (.quoted mark .text :: outer) cursor) :
    Keeps (.quoted mark .mark :: outer) (fragment opening) cursor := by
  obtain ⟨token, next, current, advanced⟩ := exists_of_followable followable
  have fragment : token.kind = .fragment := by
    by_cases fragment : token.kind = .fragment
    · exact fragment
    · simp [advance, fragment] at advanced
  apply Ensures.get_bind
  simp only [current, fragment, ↓reduceIte]
  have read := consume_keeps followable current (advance_of_fragment (by decide) fragment)
  exact read.bind fun _ _ followable => .pure followable

/-- The mark that closes a quote comes next. -/
def AtClosing (opening : Token) (outer : List Frame) (cursor : Cursor) : Prop :=
  ∃ closing, cursor.current = some closing ∧ closing.isSymbol [opening.value] ∧
    Followable (.quoted opening.value .mark :: outer) cursor

section Rules

variable {list : Reading Node} (sound : SoundList list) (nests : NestingList list)
  {frames : List Frame} {cursor : Cursor}
include nests

theorem substitution_keeps {pre post : List Frame} (bridges : Bridges true pre post)
    (followable : Followable pre cursor) (mark : cursor.atMark sigil) :
    Keeps post (substitution list) cursor := by
  obtain ⟨middle, afterSigil, afterName, afterParen⟩ := bridges
  obtain ⟨opening, current⟩ : ∃ opening, cursor.current = some opening := by
    cases current : cursor.current with
    | none => simp [atMark, current] at mark
    | some opening => exact ⟨opening, rfl⟩
  have read := consume_keeps followable current (afterSigil opening (isMark_of_atMark mark current))
  apply read.bind
  intro opening start followable
  refine .nested (fun _ _ => .of_kind rfl) (.get_bind ?_)
  have followable : Followable middle start.deeper := followable
  split
  case h_1 => exact .fail fun _ => .of_kind rfl
  case h_2 token current =>
    split
    case isTrue name =>
      have read := consume_keeps followable current (afterName token name)
      exact read.bind fun _ _ followable => .pure followable
    case isFalse =>
      split
      case isFalse => exact .fail fun _ => .of_kind rfl
      case isTrue opens =>
        have read := consume_keeps followable current (afterParen token opens)
        apply read.bind
        intro _ inner followable
        refine (nests (.inr ⟨post, rfl⟩) followable).bind fun _ last followable => .get_bind ?_
        split
        case isFalse => exact .fail fun _ => .of_kind rfl
        case isTrue closes =>
          obtain ⟨closing, _, current, _⟩ := exists_of_followable followable
          have read := consume_keeps followable current
            (advance_of_closeParen (isMark_of_atMark closes current))
          exact read.bind fun _ _ followable => .pure followable

theorem interpolation_keeps {opening : Token} {outer : List Frame}
    (followable : Followable (.quoted opening.value .mark :: outer) cursor) :
    Ensures (interpolation list opening) cursor
      (fun found after => found.elim (AtClosing opening outer after) fun _ =>
        Followable (.quoted opening.value .mark :: outer) after)
      fun fault _ => fault.Harmless := by
  obtain ⟨token, next, current, advanced⟩ := exists_of_followable followable
  apply Ensures.get_bind
  simp only [current]
  split
  case isTrue closes => exact .pure ⟨token, current, closes, followable⟩
  case isFalse noEnd =>
    split
    case isTrue mark =>
      have atSigil : cursor.atMark sigil := by simpa [atMark, current] using mark
      have read := substitution_keeps nests (bridges_in_quote opening.value outer) followable atSigil
      apply read.bind
      intro _ middle followable
      exact (fragment_keeps opening followable).bind fun _ _ followable => .pure followable
    case isFalse noSigil => simp [advance, noEnd, noSigil] at advanced

include sound

theorem quote_keeps (between : Between frames) (followable : Followable frames cursor)
    {token : Token} (current : cursor.current = some token)
    (opens : token.isSymbol (quoteMarks.map String.singleton)) :
    Keeps frames (quote list) cursor := by
  have read := consume_ensures followable current (advance_of_opensQuote between opens)
  refine read.bind fun opening start ⟨same, followable⟩ => ?_
  subst same
  obtain ⟨_, mark, member, value⟩ := opensQuote_iff.mp opens
  refine .nested (fun _ _ => .of_kind rfl) ?_
  have text : Keeps _ (fragment opening) start.deeper := fragment_keeps opening followable
  apply text.bind
  intro _ first followable
  refine (Ensures.many (interpolation_dwindles sound)
    (fun _ => interpolation_keeps nests) followable).bind fun _ last ended => .get_bind ?_
  obtain ⟨closing, current, closes, followable⟩ := ended
  rw [value] at closes followable
  have read := consume_keeps followable current (advance_of_closesQuote member closes)
  simp only [current]
  exact read.bind fun _ _ followable => .pure followable

/-! ## Values and the parts of a command -/

theorem value_keeps (between : Between frames) (followable : Followable frames cursor) :
    Keeps frames (value list) cursor := by
  apply Ensures.get_bind
  split
  case h_1 => exact .pure followable
  case h_2 token current =>
    split
    case isTrue word =>
      have read := consume_keeps followable current (advance_of_plain between (plain_of_isWord word))
      exact read.bind fun _ _ followable => .pure followable
    case isFalse =>
      split
      case isTrue kind =>
        have plain : token.plain := plain_of_kind (by simp [kind]) (by simp [kind])
        have read := consume_keeps followable current (advance_of_plain between plain)
        exact read.bind fun _ _ followable => .pure followable
      case isFalse =>
        split
        case isTrue mark =>
          have atSigil : cursor.atMark sigil := by simpa [atMark, current] using mark
          have read := substitution_keeps nests (bridges_of_between between) followable atSigil
          exact read.bind fun _ _ followable => .pure followable
        case isFalse =>
          split
          case isTrue opens =>
            have read := quote_keeps sound nests between followable current opens
            exact read.bind fun _ _ followable => .pure followable
          case isFalse => exact .pure followable

theorem assignment_keeps (between : Between frames) (followable : Followable frames cursor)
    {leading : Bool} (assigned : cursor.atAssignment leading) :
    Keeps frames (assignment list) cursor := by
  obtain ⟨name, sign, later, ahead, word, assigns, _⟩ := exists_of_atAssignment assigned
  have readName := consume_ensures_of_rest followable ahead
    (advance_of_plain between (plain_of_literal word))
  refine readName.bind fun _ middle ⟨_, aheadSign, followable⟩ => ?_
  have readSign := consume_ensures_of_rest followable aheadSign
    (advance_of_plain between (plain_of_assigns assigns))
  refine readSign.bind fun _ last ⟨_, _, followable⟩ => ?_
  split
  case isTrue =>
    exact (value_keeps sound nests between followable).bind fun _ _ followable => .pure followable
  case isFalse => exact .pure followable

theorem redirect_keeps (between : Between frames) (followable : Followable frames cursor)
    (redirects : cursor.atRedirect) : Keeps frames (redirect list) cursor := by
  obtain ⟨operator, current, found⟩ := (Option.any_eq_true _ _).mp redirects
  have read := consume_keeps followable current
    (advance_of_plain between (plain_of_redirect found))
  apply read.bind
  intro _ middle followable
  apply (value_keeps sound nests between followable).bind
  intro target last followable
  cases target with
  | none => exact .fail fun _ => .of_kind rfl
  | some target => exact .pure followable

theorem argument_keeps (between : Between frames) (followable : Followable frames cursor) :
    Keeps frames (argument list) cursor := by
  apply Ensures.get_bind
  split
  case isTrue assigned =>
    exact (assignment_keeps sound nests between followable assigned).bind fun _ _ followable =>
      .pure followable
  case isFalse =>
    split
    case isTrue mark =>
      obtain ⟨sign, current, found⟩ := (Option.any_eq_true _ _).mp mark
      have read := consume_keeps followable current
        (advance_of_plain between (plain_of_mark (by decide) found))
      exact read.bind fun _ _ followable => .pure followable
    case isFalse => exact value_keeps sound nests between followable

theorem leadingPart_keeps (between : Between frames) (followable : Followable frames cursor) :
    Keeps frames (leadingPart list) cursor := by
  apply Ensures.get_bind
  split
  case isTrue assigned =>
    exact (assignment_keeps sound nests between followable assigned).bind fun _ _ followable =>
      .pure followable
  case isFalse =>
    split
    case isTrue redirects =>
      exact (redirect_keeps sound nests between followable redirects).bind fun _ _ followable =>
        .pure followable
    case isFalse => exact .pure followable

theorem trailingPart_keeps (between : Between frames) (followable : Followable frames cursor) :
    Keeps frames (trailingPart list) cursor := by
  apply (argument_keeps sound nests between followable).bind
  intro found middle followable
  cases found with
  | some node => exact .pure followable
  | none =>
    apply Ensures.get_bind
    split
    case isTrue redirects =>
      exact (redirect_keeps sound nests between followable redirects).bind fun _ _ followable =>
        .pure followable
    case isFalse => exact .pure followable

omit sound in
theorem head_keeps (between : Between frames) (followable : Followable frames cursor) :
    Keeps frames (head list) cursor := by
  apply Ensures.get_bind
  split
  case h_1 => exact .pure followable
  case h_2 token current =>
    split
    case isTrue word =>
      have read := consume_keeps followable current (advance_of_plain between (plain_of_isWord word))
      exact read.bind fun _ _ followable => .pure followable
    case isFalse =>
      split
      case isTrue mark =>
        have atSigil : cursor.atMark sigil := by simpa [atMark, current] using mark
        have read := substitution_keeps nests (bridges_of_between between) followable atSigil
        exact read.bind fun _ _ followable => .pure followable
      case isFalse => exact .pure followable

/-! ## Commands, pipelines and lists -/

omit sound nests in
/-- Repeated actions keep what each of them keeps. -/
theorem many_keeps {α : Type} {item : Reading (Option α)}
    (dwindles : Dwindles item)
    (each : ∀ cursor, Followable frames cursor → Keeps frames item cursor)
    (followable : Followable frames cursor) : Keeps frames (many item) cursor := by
  refine .many dwindles (fun cursor now => ?_) followable
  apply (each cursor now).mono
  intro found after followable
  cases found <;> exact followable

theorem command_keeps (between : Between frames) (followable : Followable frames cursor) :
    Keeps frames (command list) cursor := by
  have leading := many_keeps (leadingPart_dwindles sound)
    (fun _ followable => leadingPart_keeps sound nests between followable) followable
  apply leading.bind
  intro parts middle followable
  apply (head_keeps nests between followable).bind
  intro name last followable
  cases name with
  | some name =>
    have trailing := many_keeps (trailingPart_dwindles sound)
      (fun _ followable => trailingPart_keeps sound nests between followable) followable
    exact trailing.bind fun _ _ followable => .pure followable
  | none =>
    dsimp only
    split
    case isFalse => exact .pure followable
    case isTrue =>
      apply Ensures.get_bind
      split <;> exact .fail fun _ => .of_kind rfl

theorem nextStage_keeps (between : Between frames) (followable : Followable frames cursor) :
    Keeps frames (nextStage list) cursor := by
  apply Ensures.get_bind
  split
  case isFalse => exact .pure followable
  case isTrue mark =>
    obtain ⟨bar, current, found⟩ := (Option.any_eq_true _ _).mp mark
    have read := consume_keeps followable current
      (advance_of_plain between (plain_of_mark (by decide) found))
    apply read.bind
    intro _ middle followable
    exact (command_keeps sound nests between followable).bind fun _ _ followable => .pure followable

theorem pipeline_keeps (between : Between frames) (followable : Followable frames cursor) :
    Keeps frames (pipeline list) cursor := by
  apply (command_keeps sound nests between followable).bind
  intro _ middle followable
  have stages := many_keeps (nextStage_dwindles sound)
    (fun _ followable => nextStage_keeps sound nests between followable) followable
  exact stages.bind fun _ _ followable => .pure followable

theorem nextPipeline_keeps (between : Between frames) (followable : Followable frames cursor) :
    Keeps frames (nextPipeline list) cursor := by
  apply Ensures.get_bind
  split
  case isFalse => exact .pure followable
  case isTrue mark =>
    obtain ⟨separator, current, found⟩ := (Option.any_eq_true _ _).mp mark
    have read := consume_keeps followable current
      (advance_of_plain between (plain_of_mark (by decide) found))
    refine read.bind fun _ middle followable => .get_bind ?_
    split
    case isTrue => exact .pure followable
    case isFalse =>
      exact (pipeline_keeps sound nests between followable).bind fun _ _ followable =>
        .pure followable

theorem sequence_nests : NestingList (sequence list) := by
  intro frames cursor between followable
  apply (pipeline_keeps sound nests between followable).bind
  intro _ middle followable
  have rest := many_keeps (nextPipeline_dwindles sound)
    (fun _ followable => nextPipeline_keeps sound nests between followable) followable
  exact rest.bind fun _ _ followable => .pure followable

end Rules

theorem listWithin_nests (levels : Nat) : NestingList (listWithin levels) := by
  induction levels with
  | zero => exact fun _ _ _ _ => .fail fun _ => .of_kind rfl
  | succ levels ih => exact sequence_nests (listWithin_sound levels) ih

theorem parse_ensures {cursor : Cursor} (followable : Followable [] cursor) :
    Ensures Grammar.parse cursor (fun _ _ => True) fun fault _ => fault.Harmless := by
  apply Ensures.get_bind
  split
  case isTrue => exact trivial
  case isFalse =>
    have read := sequence_nests (listWithin_sound cursor.remaining)
      (listWithin_nests cursor.remaining) (.inl rfl) followable
    refine read.bind fun _ middle _ => .get_bind ?_
    split
    case h_2 => exact trivial
    case h_1 =>
      split <;> exact .fail fun _ => .of_kind rfl

end Grammar

/-! ## Lines -/

/-- Comments stand outside quoted text only, and leave everything as it is. -/
theorem between_of_advance_comment {stray : Bool} {frames next : List Frame} {token : Token}
    (comment : token.kind = .comment) (advanced : advance stray frames token = some next) :
    Between frames := by
  rcases between_or_quoted frames with between | ⟨mark, phase, outer, rfl⟩
  · exact between
  · cases phase <;> simp [advance, comment, Token.isMark, Token.isSymbol] at advanced

theorem follow_withoutComments {stray : Bool} {frames last : List Frame} {tokens : List Token}
    (followed : follow stray frames tokens = some last) :
    follow stray frames (withoutComments tokens) = some last := by
  induction tokens generalizing frames with
  | nil => exact followed
  | cons token rest ih =>
    rw [follow_cons, Option.bind_eq_some_iff] at followed
    obtain ⟨next, advanced, followed⟩ := followed
    by_cases comment : token.kind = .comment
    · have between := between_of_advance_comment comment advanced
      have plain : token.plain := plain_of_kind (by simp [comment]) (by simp [comment])
      obtain rfl := Option.some.inj ((advance_of_plain between plain).symm.trans advanced)
      rw [withoutComments_comment comment]
      exact ih followed
    · rw [withoutComments_cons comment, follow_cons, advanced]
      exact ih followed

/-- With the comments left out, stray parentheses are as stray as before. -/
theorem follow_of_withoutComments {frames last final : List Frame} {tokens : List Token}
    (followed : follow true frames tokens = some last)
    (strict : follow false frames (withoutComments tokens) = some final) :
    follow false frames tokens = some final := by
  induction tokens generalizing frames with
  | nil => exact strict
  | cons token rest ih =>
    rw [follow_cons, Option.bind_eq_some_iff] at followed
    obtain ⟨next, advanced, followed⟩ := followed
    by_cases comment : token.kind = .comment
    · have between := between_of_advance_comment comment advanced
      have plain : token.plain := plain_of_kind (by simp [comment]) (by simp [comment])
      obtain rfl := Option.some.inj ((advance_of_plain between plain).symm.trans advanced)
      rw [withoutComments_comment comment] at strict
      rw [follow_cons, advance_of_plain between plain]
      exact ih followed strict
    · rw [withoutComments_cons comment, follow_cons, Option.bind_eq_some_iff] at strict
      obtain ⟨after, advancedStrictly, strict⟩ := strict
      obtain rfl := Option.some.inj ((advance_mono advancedStrictly).symm.trans advanced)
      rw [follow_cons, advancedStrictly]
      exact ih followed strict

/-- The tokens of a line are well nested but for closing parentheses without a partner, and under no
limit on nesting does the parser find anything wrong with their quotes. -/
theorem wellNested_of_tokenize {line : String} {tokens : List Token}
    (ran : tokenize line = .ok tokens) :
    WellNested true tokens ∧ ∀ maxDepth fault, parse tokens maxDepth = .error fault →
      fault.kind ≠ .unbalancedQuote ∧ fault.kind ≠ .invalidQuoteContents := by
  have followed := follow_of_tokenize ran
  refine ⟨wellNested_of_follow followed, fun maxDepth fault failed => ?_⟩
  have followable : Grammar.Followable [] (Cursor.ofTokens tokens maxDepth) := by
    rw [Grammar.Followable, Grammar.rest_ofTokens]
    exact follow_withoutComments followed
  have ensures := Grammar.parse_ensures followable
  rw [parse] at failed
  split at failed
  case h_1 => cases failed
  case h_2 fault after ran =>
    cases failed
    exact ensures.of_error ran

/-- The tokens of a quote with a name in it, and of a stray parenthesis. -/
theorem wellNested_quote :
    let tokens : List Token :=
      [⟨.symbol, "\"", some 0, false, false⟩, ⟨.fragment, "", some 1, false, false⟩,
        ⟨.symbol, "$", some 1, false, false⟩, ⟨.identifier, "b", some 2, false, false⟩,
        ⟨.fragment, "", some 3, false, false⟩, ⟨.symbol, "\"", some 3, false, false⟩,
        ⟨.symbol, ")", some 5, false, false⟩]
    WellNested true tokens ∧ ∀ maxDepth fault, parse tokens maxDepth = .error fault →
      fault.kind ≠ .unbalancedQuote ∧ fault.kind ≠ .invalidQuoteContents :=
  wellNested_of_tokenize (rfl : tokenize "\"$b\" )" = .ok _)

end ShellLine
