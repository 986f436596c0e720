import ShellLine.Proofs.Nesting.Frames
import ShellLine.Proofs.Scanner.Coherence

/-! # The tokens of a line are well nested

The stack of a scanner and the constructs that its tokens leave open say the same thing in two ways:
every context on the stack stands for an open parenthesis, and a quote to be resumed for the open
quote around it. `Followed` is kept by every step, and at the end of a line nothing is open.
-/

namespace ShellLine

open Alphabet Text

/-- What is open around a construct in the given context. -/
def ScanContext.around (outer : ScanContext) (phase : QuotePhase) (frames : List Frame) :
    List Frame :=
  if outer.mode = .quote then .quoted outer.delimiter phase :: frames else frames

/-- What is open inside the constructs of a stack. -/
def framesOf : List ScanContext → List Frame
  | [] => []
  | outer :: rest => .group :: outer.around .text (framesOf rest)

theorem between_framesOf (stack : List ScanContext) : Between (framesOf stack) := by
  cases stack with
  | nil => exact .inl rfl
  | cons outer rest => exact .inr ⟨_, rfl⟩

namespace Scanner

/-- What is open is what the stack and the context say. -/
def Matches (s : Scanner) (frames : List Frame) : Prop :=
  match s.context.mode with
  | .quote => ∃ phase, phase ≠ .mark ∧
    frames = .quoted s.context.delimiter phase :: framesOf s.stack
  | .substitution => ∃ outer rest, s.stack = outer :: rest ∧
    frames = outer.around .name (framesOf rest)
  | _ => frames = framesOf s.stack

/-- The tokens can be followed, and what they leave open is what the stack and the context say. -/
def Followed (s : Scanner) : Prop :=
  ∃ frames, follow true [] s.tokens = some frames ∧ s.Matches frames

/-! ## Single tokens -/

theorem follow_emit {s : Scanner} {token : Token} {frames next : List Frame}
    (followed : follow true [] s.tokens = some frames)
    (advanced : advance true frames token = some next) :
    follow true [] (s.emit token).tokens = some next := by
  simp only [tokens, emit] at followed ⊢
  simp [followed, advanced]

theorem follow_flush {s : Scanner} {kind : TokenKind} {fallback : Option Int}
    {frames next : List Frame} (followed : follow true [] s.tokens = some frames)
    (advanced : ∀ token : Token, token.kind = kind → token.value = s.buffer →
      advance true frames token = some next) :
    follow true [] (s.flush kind fallback).tokens = some next := by
  simp only [tokens, flush] at followed ⊢
  simp only [List.reverse_cons, follow_append, followed, Option.bind_some, follow_cons, follow_nil]
  rw [advanced _ rfl rfl, Option.bind_some]

/-! ## Whole steps -/

variable {s : Scanner} {next : Option Char} {c : Char} {pos : Int}

/-- A name and its end lead back to what is around it. -/
theorem follow_flushName {outer : ScanContext} {rest : List ScanContext}
    (followed : follow true [] s.tokens = some (outer.around .name (framesOf rest))) :
    ∃ phase, phase ≠ .mark ∧
      follow true [] s.flushName.tokens = some (outer.around phase (framesOf rest)) := by
  unfold flushName
  split
  case isTrue => exact ⟨.name, nofun, followed⟩
  case isFalse =>
    refine ⟨.text, nofun, follow_flush followed fun token name _ => ?_⟩
    unfold ScanContext.around
    split
    case isTrue => exact advance_of_name name
    case isFalse =>
      exact advance_of_plain (between_framesOf _) (plain_of_kind (by simp [name]) (by simp [name]))

/-- Settling a token leaves the constructs that are open. -/
theorem Followed.settle (followed : s.Followed) (coherent : s.Coherent) : s.settle.Followed := by
  obtain ⟨frames, followed, matched⟩ := followed
  cases mode : s.context.mode with
  | start =>
    rw [settle_eq_self (.inl mode)]
    exact ⟨frames, followed, matched⟩
  | quote =>
    rw [settle_eq_self (.inr (.inl mode))]
    exact ⟨frames, followed, matched⟩
  | comment =>
    rw [settle_eq_self (.inr (.inr mode))]
    exact ⟨frames, followed, matched⟩
  | literal =>
    simp only [Matches, mode] at matched
    subst matched
    rw [settle_of_literal mode]
    refine ⟨_, follow_flush followed fun token kind _ => ?_, rfl⟩
    refine advance_of_plain (between_framesOf _) (plain_of_kind ?_ ?_) <;>
      · rw [kind]
        split <;> simp
  | wildcard =>
    simp only [Matches, mode] at matched
    subst matched
    rw [settle_of_wildcard mode]
    refine ⟨_, follow_flush followed fun token kind _ => ?_, rfl⟩
    exact advance_of_plain (between_framesOf _) (plain_of_kind (by simp [kind]) (by simp [kind]))
  | operator =>
    simp only [Matches, mode] at matched
    subst matched
    rw [settle_of_operator mode]
    refine ⟨_, follow_flush followed fun token kind value => ?_, rfl⟩
    exact advance_of_plain (between_framesOf _)
      (plain_of_operator kind (value ▸ coherent.operator_of_mode mode))
  | substitution =>
    simp only [Matches, mode] at matched
    obtain ⟨outer, rest, stack, rfl⟩ := matched
    obtain ⟨phase, waits, followed⟩ := follow_flushName followed
    have popped : s.flushName.pop = { s.flushName with context := outer, stack := rest } := by
      simp [pop, stack]
    rw [settle_of_substitution mode, popped]
    refine ⟨_, followed, ?_⟩
    rcases coherent.resumable outer (stack ▸ List.mem_cons_self) with start | quote
    · simp [Matches, start, ScanContext.around]
    · simpa [Matches, quote.1, ScanContext.around] using waits

/-- A closing parenthesis leads back to what its context on the stack says. -/
theorem Followed.pop (followed : follow true [] s.tokens = some (framesOf s.stack))
    (resumable : ∀ outer ∈ s.stack, outer.Resumable) :
    (s.emit (.ofMark closeParen pos)).pop.Followed := by
  have closes := isMark_ofMark closeParen (some pos)
  cases stack : s.stack with
  | nil =>
    have popped : (s.emit (.ofMark closeParen pos)).pop =
        (s.emit (.ofMark closeParen pos)).enter {} := by
      simp [Scanner.pop, emit, stack, enter]
    rw [stack] at followed
    rw [popped]
    refine ⟨_, follow_emit followed (advance_nil_of_closeParen closes), ?_⟩
    simp [Matches, enter, emit, stack, framesOf]
  | cons outer rest =>
    have popped : (s.emit (.ofMark closeParen pos)).pop =
        { s.emit (.ofMark closeParen pos) with context := outer, stack := rest } := by
      simp [Scanner.pop, emit, stack]
    rw [stack] at followed
    rw [popped]
    refine ⟨_, follow_emit followed (advance_of_closeParen closes), ?_⟩
    rcases resumable outer (stack ▸ List.mem_cons_self) with start | quote
    · simp [Matches, start, ScanContext.around]
    · simp [Matches, quote.1, ScanContext.around]

theorem Followed.stepStart (followed : s.Followed) (mode : s.context.mode = .start)
    (resumable : ∀ outer ∈ s.stack, outer.Resumable) : (s.stepStart next c pos).Followed := by
  obtain ⟨frames, followed, matched⟩ := followed
  simp only [Matches, mode] at matched
  subst matched
  have isMark := isMark_ofMark c (some pos)
  have between := between_framesOf s.stack
  have plain (apart : c ∉ quoteMarks ∧ c ≠ openParen ∧ c ≠ closeParen) :
      advance true (framesOf s.stack) (.ofMark c pos) = some (framesOf s.stack) :=
    advance_of_plain between (plain_of_mark apart isMark)
  refine s.stepStart_cases next c pos ?blank ?escape ?quote ?operator ?assign ?symbol ?comment
    ?sigil ?opening ?closing ?star ?word
  case blank => exact fun _ => ⟨_, followed, rfl⟩
  case escape => exact fun _ => ⟨_, followed, rfl⟩
  case operator => exact fun _ => ⟨_, followed, rfl⟩
  case comment => exact fun _ => ⟨_, followed, rfl⟩
  case star => exact fun _ => ⟨_, followed, rfl⟩
  case word => exact fun _ _ _ _ _ => ⟨_, followed, rfl⟩
  case quote =>
    intro mark
    refine ⟨_, follow_emit followed ?_, .text, nofun, rfl⟩
    exact advance_of_opensQuote between (opensQuote_iff.mpr ⟨rfl, c, mark, rfl⟩)
  case assign =>
    intro sign
    have plain : (s.assignToken next pos).plain :=
      plain_of_mark (by decide) (s.isMark_assignToken next pos)
    exact ⟨_, follow_emit followed (advance_of_plain between plain), rfl⟩
  case symbol =>
    intro symbol _
    exact ⟨_, follow_emit followed (plain (apart_of_plainSymbols symbol)), rfl⟩
  case sigil =>
    rintro rfl
    exact ⟨_, follow_emit followed (plain (by decide)), .group pos, s.stack, rfl, rfl⟩
  case opening =>
    rintro rfl
    exact ⟨_, follow_emit followed (advance_of_openParen between isMark), rfl⟩
  case closing =>
    rintro rfl
    exact .pop followed resumable

theorem Followed.stepQuote (followed : s.Followed) (quote : s.context.IsQuote) :
    (s.stepQuote c pos).Followed := by
  obtain ⟨frames, followed, matched⟩ := followed
  simp only [Matches, quote.1] at matched
  obtain ⟨phase, waits, rfl⟩ := matched
  have kept : ∀ kept : Scanner, kept.tokens = s.tokens → kept.context = s.context →
      kept.stack = s.stack → kept.Followed := by
    intro kept tokens context stack
    refine ⟨_, tokens ▸ followed, ?_⟩
    simp only [Matches, context, stack, quote.1]
    exact ⟨phase, waits, rfl⟩
  have afterText : follow true [] (s.flush .fragment (some pos)).tokens =
      some (.quoted s.context.delimiter .mark :: framesOf s.stack) :=
    follow_flush followed fun _ fragment _ => advance_of_fragment waits fragment
  refine s.stepQuote_cases c pos ?escape ?sigil ?text ?closing
  case escape => exact fun _ => kept _ rfl rfl rfl
  case text => exact fun _ _ _ => kept _ rfl rfl rfl
  case sigil =>
    rintro rfl
    have followedSigil := follow_emit afterText (advance_of_sigil (isMark_ofMark Alphabet.sigil pos))
    refine ⟨_, followedSigil, s.context, s.stack, rfl, ?_⟩
    simp [ScanContext.around, quote.1]
  case closing =>
    intro same
    obtain ⟨mark, member, delimiter⟩ := quote.2
    rw [delimiter] at same afterText
    obtain rfl := String.singleton_inj.mp same
    exact ⟨_, follow_emit afterText (advance_of_closesQuote member (isMark_ofMark ..)), rfl⟩

theorem Followed.openSubshell (followed : s.Followed) (mode : s.context.mode = .substitution) :
    (s.openSubshell openParen pos).Followed := by
  obtain ⟨frames, followed, matched⟩ := followed
  simp only [Matches, mode] at matched
  obtain ⟨outer, rest, stack, rfl⟩ := matched
  have opens := isMark_ofMark openParen (some pos)
  refine ⟨framesOf s.stack, follow_emit followed ?_, rfl⟩
  rw [stack]
  unfold ScanContext.around
  split
  case isTrue quote => simp [framesOf, ScanContext.around, quote, advance_of_subshell opens]
  case isFalse noQuote =>
    simp [framesOf, ScanContext.around, noQuote, advance_of_openParen (between_framesOf rest) opens]

theorem Followed.flushComment (followed : s.Followed) (mode : s.context.mode = .comment) :
    follow true [] (s.flush .comment).tokens = some (framesOf s.stack) := by
  obtain ⟨frames, followed, matched⟩ := followed
  simp only [Matches, mode] at matched
  subst matched
  refine follow_flush followed fun token kind _ => ?_
  exact advance_of_plain (between_framesOf _) (plain_of_kind (by simp [kind]) (by simp [kind]))

/-- A step leaves the tokens followed. -/
theorem Followed.step (followed : s.Followed) (coherent : s.Coherent) (next : Option Char)
    (c : Char) (pos : Int) : (s.step next c pos).Followed := by
  have kept : ∀ kept : Scanner, kept.tokens = s.tokens → kept.context = s.context →
      kept.stack = s.stack → kept.Followed := by
    intro kept tokens context stack
    obtain ⟨frames, followed, matched⟩ := followed
    exact ⟨frames, tokens ▸ followed, by simpa only [Matches, context, stack] using matched⟩
  refine coherent.step_cases ?escaped ?goesOn ?start ?quote ?comment
  case escaped => exact fun _ => kept _ rfl rfl rfl
  case goesOn =>
    intro plain goesOn
    refine step_cases_of_continues next plain goesOn ?keep ?escape ?star ?double ?subshell
    case keep => exact fun _ => kept _ rfl rfl rfl
    case escape => exact fun _ _ => kept _ rfl rfl rfl
    case star =>
      intro mode _
      obtain ⟨frames, followed, matched⟩ := followed
      simp only [Matches, mode] at matched
      exact ⟨frames, followed, matched⟩
    case double =>
      intro mode same
      obtain ⟨frames, followed, matched⟩ := followed
      simp only [Matches, mode] at matched
      subst matched
      have keptFollowed : follow true [] (s.keep c pos).tokens = some (framesOf s.stack) := followed
      refine ⟨_, follow_flush keptFollowed fun token kind value => ?_, rfl⟩
      exact advance_of_plain (between_framesOf _)
        (plain_of_operator kind (value ▸ coherent.operator_of_double mode same))
    case subshell =>
      rintro mode rfl _
      exact followed.openSubshell mode
  case start =>
    intro plain mode _
    obtain ⟨settled, _⟩ := coherent.settle plain
    exact (followed.settle coherent).stepStart mode settled.resumable
  case quote => exact fun _ quote => (followed.settle coherent).stepQuote quote
  case comment =>
    intro _ mode
    unfold stepComment
    split
    case isTrue =>
      exact ⟨_, followed.flushComment mode, rfl⟩
    case isFalse => exact kept _ rfl rfl rfl

/-- When a text ends without a fault, everything is closed. -/
theorem Followed.complete (followed : s.Followed) (coherent : s.Coherent)
    (stack : s.complete.stack = []) (closed : s.complete.context.mode ≠ .quote) :
    follow true [] s.complete.tokens = some [] := by
  by_cases mode : s.context.mode = .comment
  · have finished : s.complete = s.flush .comment := if_pos mode
    rw [finished] at stack ⊢
    have nothing : s.stack = [] := stack
    rw [followed.flushComment mode, nothing, framesOf]
  have finished : s.complete = s.settle := if_neg mode
  rw [finished] at stack closed ⊢
  have start : s.settle.context.mode = .start := by
    rcases coherent.context_settle with (start | quote) | comment
    · exact start
    · exact absurd quote.1 closed
    · exact absurd comment mode
  obtain ⟨frames, followed, matched⟩ := followed.settle coherent
  simp only [Matches, start, stack, framesOf] at matched
  rw [followed, matched]

theorem followed_fresh : Followed {} :=
  ⟨[], rfl, rfl⟩

/-- The tokens that a scan from a fresh start finishes can be followed. -/
theorem followed_run (start : Int) (text : List Char) (after : Option Char) :
    (({} : Scanner).run start text after).Followed :=
  (coherent_fresh.run_induction (motive := fun _ s => s.Followed) start text after followed_fresh
    fun _ _ next c coherent followed => followed.step coherent next c _).2

end Scanner

/-- The tokens of a line can be followed until nothing is open. -/
theorem follow_of_tokenize {line : String} {strictComments : Bool} {tokens : List Token}
    (ran : tokenize line strictComments = .ok tokens) : follow true [] tokens = some [] := by
  obtain ⟨coherent, rfl, stack, closed⟩ := Scanner.of_tokenize_eq_ok ran
  exact (Scanner.followed_run _ _ _).complete coherent stack closed

end ShellLine
