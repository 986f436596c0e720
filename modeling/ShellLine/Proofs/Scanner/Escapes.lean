import ShellLine.Proofs.Scanner.Coherence

/-! # Pending escapes

Outside comments an escape mark takes the next character as it is, and that may be another escape
mark. So what has been read tells whether an escape is pending: `escaped_run`. A line with tokens
that ends neither in a comment nor in such an escape leaves nothing open: `closed_of_tokenize`.
-/

namespace ShellLine

open Alphabet Text

/-- Whether a text ends in an escape mark that is not escaped itself. -/
def pendingEscape (text : List Char) : Bool :=
  (text.reverse.takeWhile (· == escapeMark)).length % 2 == 1

theorem pendingEscape_concat (text : List Char) (c : Char) :
    pendingEscape (text ++ [c]) = (c == escapeMark && !pendingEscape text) := by
  by_cases mark : c = escapeMark
  · subst mark
    simp only [pendingEscape, List.reverse_append, List.reverse_singleton, List.singleton_append,
      List.takeWhile_cons, beq_self_eq_true, ↓reduceIte, List.length_cons, Bool.true_and]
    generalize (text.reverse.takeWhile (· == escapeMark)).length = marks
    rcases Nat.mod_two_eq_zero_or_one marks with even | odd
    · have next : (marks + 1) % 2 = 1 := by omega
      rw [even, next]
      rfl
    · have next : (marks + 1) % 2 = 0 := by omega
      rw [odd, next]
      rfl
  · simp [pendingEscape, mark]

namespace Scanner

variable {s : Scanner}

/-- Outside comments an escape mark that is not escaped itself is an escape. -/
theorem Coherent.escaped_of_escapeMark (coherent : s.Coherent) (plain : s.escaped = false)
    (noComment : s.context.mode ≠ .comment) (next : Option Char) (pos : Int) :
    (s.step next escapeMark pos).escaped = true := by
  have noLetter : isAlphanumeric escapeMark = false := by decide +kernel
  have noMark : escapeMark ∉ pathMarks ∧ escapeMark ∉ nameMarks ∧ escapeMark ≠ star ∧
      escapeMark ≠ openParen := by decide
  by_cases word : s.context.mode = .literal ∨ s.context.mode = .wildcard
  · rcases word with mode | mode
    · simp [Scanner.step, plain, mode, stepPlain, stepLiteral, noLetter, noMark, keepEscape]
    · simp [Scanner.step, plain, mode, stepPlain, stepWildcard, noLetter, noMark, keepEscape]
  have apart : s.continues escapeMark = false := by
    cases mode : s.context.mode with
    | literal => exact absurd (.inl mode) word
    | wildcard => exact absurd (.inr mode) word
    | operator =>
      apply Bool.eq_false_iff.mpr
      intro goesOn
      exact absurd (coherent.direction_of_continues mode goesOn) (by decide)
    | substitution => simp [continues, mode, noLetter, noMark]
    | _ => simp [continues, mode]
  rw [coherent.step_eq plain apart]
  rcases coherent.context_settle with (start | quote) | comment
  · have noBlank : isBlank escapeMark = false := by decide
    simp [stepPlain, start, Scanner.stepStart, noBlank, keepEscape, enter]
  · simp [stepPlain, quote.1, Scanner.stepQuote, keepEscape]
  · exact absurd comment noComment

theorem escaped_stepStart (plain : s.escaped = false) {c : Char} (noMark : c ≠ escapeMark)
    (next : Option Char) (pos : Int) : (s.stepStart next c pos).escaped = false := by
  refine s.stepStart_cases (motive := fun s => s.escaped = false) next c pos ?blank ?escape ?quote
    ?operator ?assign ?symbol ?comment ?sigil ?opening ?closing ?star ?word
  case escape => exact fun mark => absurd mark noMark
  case closing =>
    intro _
    rw [pop_escaped]
    exact plain
  all_goals
    intros
    exact plain

/-- Nothing but an escape mark is an escape. -/
theorem Coherent.escaped_of_ne_escapeMark (coherent : s.Coherent) {c : Char}
    (noMark : c ≠ escapeMark) (next : Option Char) (pos : Int) :
    (s.step next c pos).escaped = false := by
  refine coherent.step_cases (motive := fun s => s.escaped = false)
    ?escaped ?goesOn ?start ?quote ?comment
  case escaped => exact fun _ => rfl
  case goesOn =>
    intro plain goesOn
    refine step_cases_of_continues (motive := fun s => s.escaped = false) next plain goesOn
      ?keep ?escape ?star ?double ?subshell
    case escape => exact fun _ mark => absurd mark noMark
    all_goals
      intros
      exact plain
  case start =>
    intro plain _ _
    exact escaped_stepStart (coherent.settle plain).2 noMark next pos
  case quote =>
    intro plain _
    obtain ⟨_, plain⟩ := coherent.settle plain
    refine s.settle.stepQuote_cases (motive := fun s => s.escaped = false) c pos
      (fun mark => absurd mark noMark) ?sigil ?text ?closing
    all_goals
      intros
      exact plain
  case comment =>
    intro plain _
    unfold stepComment
    split
    case isTrue => exact plain
    case isFalse => exact plain

/-- Outside comments an escape is pending where the text that was read says so. -/
theorem escaped_run (start : Int) (text : List Char) (after : Option Char) :
    (({} : Scanner).run start text after).context.mode ≠ .comment →
      (({} : Scanner).run start text after).escaped = pendingEscape text := by
  refine (coherent_fresh.run_induction
    (motive := fun read s => s.context.mode ≠ .comment → s.escaped = pendingEscape read)
    start text after (fun _ => rfl) ?_).2
  intro read s next c coherent now noComment
  rw [pendingEscape_concat]
  by_cases mark : c = escapeMark
  · subst mark
    have fits := coherent.fits
    by_cases comment : s.context.mode = .comment
    · -- a comment goes on with an escape mark
      have noLineEnd : escapeMark ≠ '\n' := by decide
      simp only [Fits, comment] at fits
      simp [noLineEnd, Scanner.step, fits.2, comment, stepPlain, stepComment,
        Scanner.keep] at noComment
    rw [← now comment]
    cases plain : s.escaped with
    | true => simp [Scanner.step, plain]
    | false => simp [coherent.escaped_of_escapeMark plain comment]
  · rw [coherent.escaped_of_ne_escapeMark mark]
    simp [mark]

/-! ## Lines that leave nothing open -/

/-- Nothing is open or pending once the last token is settled. -/
structure Closed (s : Scanner) : Prop where
  coherent : s.Coherent
  plain : s.escaped = false
  start : s.settle.context.mode = .start
  stack : s.settle.stack = []

theorem Closed.buffer (closed : s.Closed) : s.settle.buffer = "" := by
  have fits := (closed.coherent.settle closed.plain).1.fits
  simp only [Fits, closed.start] at fits
  exact fits.1

/-- A line that ends neither in a comment nor in an escape leaves nothing open or pending. -/
theorem closed_of_tokenize {line : String} {strictComments : Bool} {tokens : List Token}
    (ran : tokenize line strictComments = .ok tokens)
    (ended : ∀ token ∈ tokens.getLast?, token.kind ≠ .comment)
    (noEscape : pendingEscape (strip line.toList) = false) :
    (ofText line.toList).Closed ∧ tokens = (ofText line.toList).settle.tokens := by
  obtain ⟨coherent, rfl, closed, noQuote⟩ := of_tokenize_eq_ok ran
  have noComment : (ofText line.toList).context.mode ≠ .comment := by
    intro comment
    have last : (ofText line.toList).complete.tokens.getLast?.map Token.kind = some .comment := by
      simp [complete, comment, tokens, flush]
    obtain ⟨token, member, kind⟩ := Option.map_eq_some_iff.mp last
    exact ended token member kind
  rw [complete, if_neg noComment] at closed noQuote ⊢
  refine ⟨⟨coherent, (escaped_run _ _ _ noComment).trans noEscape, ?_, closed⟩, rfl⟩
  rcases coherent.context_settle with (start | quote) | comment
  · exact start
  · exact absurd quote.1 noQuote
  · exact absurd comment noComment

end Scanner

end ShellLine
