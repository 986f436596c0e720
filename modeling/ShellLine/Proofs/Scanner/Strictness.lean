import ShellLine.Proofs.Scanner.Lexemes

/-! # Comments at the end of a text

Only a newline ends a comment, so that a comment that ends a text is still being read there. Strict
reading rejects such a text and no other one. The blanks at the ends of a line are no part of the
text, though, newlines included: whether the last comment of a line is rejected does not depend on
the newline that closes it. `tokenize_strict` states what does decide it.
-/

namespace ShellLine

open Alphabet Text

namespace Scanner

variable {start : Int} {text : List Char} {s : Scanner} {c : Char} {pos : Int}

/-! ## Both ways of ending a text -/

/-- Strict reading rejects a text that ends in a comment. -/
theorem finish_strict_of_comment (comment : s.context.mode = .comment) :
    s.finish true = (s, some (.unterminatedComment s.bufferPos)) := by
  simp [finish, closeNames, incomplete, comment]

/-- The end of a text starts no comment. -/
theorem Coherent.closeNames_of_ne (coherent : s.Coherent) (noComment : s.context.mode ≠ .comment) :
    s.closeNames.context.mode ≠ .comment := by
  by_cases name : s.context.mode = .substitution
  · rw [closeNames_of_substitution coherent name]
    rcases coherent.context_settle.resolve_right noComment with start | quote
    · simp [start]
    · simp [quote.1]
  · simpa [closeNames, name] using noComment

/-- Strict reading makes no difference elsewhere. -/
theorem Coherent.finish_strict_of_ne (coherent : s.Coherent)
    (noComment : s.context.mode ≠ .comment) : s.finish true = s.finish false := by
  have closed := coherent.closeNames_of_ne noComment
  have same : s.closeNames.incomplete true = s.closeNames.incomplete false := by
    unfold incomplete
    split
    case h_1 => rfl
    case h_2 comment => exact absurd comment closed
    case h_3 => rfl
  simp only [finish, same]

/-! ## The last token -/

/-- A comment that ends a text is its last token. -/
theorem Coherent.head?_complete_of_comment (coherent : s.Coherent)
    (comment : s.context.mode = .comment) : s.buffer ≠ "" ∧
      s.complete.emitted.head? = some ⟨.comment, s.buffer, s.bufferPos, false, false⟩ := by
  have fits := coherent.fits
  simp only [Fits, comment] at fits
  rw [Scanner.complete, if_pos comment, emitted_flush fits.1]
  exact ⟨fits.1, rfl⟩

/-- Whether the newest token is a symbol if the state is between tokens. -/
def AfterSymbol (s : Scanner) : Prop :=
  s.context.mode = .start → ∃ newest ∈ s.emitted.head?, newest.kind = .symbol

theorem afterSymbol_of_mode (mode : ScanMode) (inMode : s.context.mode = mode)
    (apart : mode ≠ .start) : s.AfterSymbol :=
  fun start => absurd (inMode.symm.trans start) apart

theorem afterSymbol_stepStart (inked : isBlank c = false) (next : Option Char) :
    (s.stepStart next c pos).AfterSymbol := by
  refine s.stepStart_cases next c pos ?blank ?escape ?quote ?operator ?assign ?symbol ?comment ?sigil
    ?opening ?closing ?star ?word
  case blank =>
    intro blank
    rw [blank] at inked
    cases inked
  case assign => exact fun _ _ => ⟨_, rfl, rfl⟩
  case symbol => exact fun _ _ _ => ⟨_, rfl, rfl⟩
  case opening => exact fun _ _ => ⟨_, rfl, rfl⟩
  case closing =>
    intro _ _
    rw [pop_emitted]
    exact ⟨_, rfl, rfl⟩
  case escape => exact fun _ => afterSymbol_of_mode .literal rfl (by decide)
  case quote => exact fun _ => afterSymbol_of_mode .quote rfl (by decide)
  case operator => exact fun _ => afterSymbol_of_mode .operator rfl (by decide)
  case comment => exact fun _ => afterSymbol_of_mode .comment rfl (by decide)
  case sigil => exact fun _ => afterSymbol_of_mode .substitution rfl (by decide)
  case star => exact fun _ => afterSymbol_of_mode .wildcard rfl (by decide)
  case word => exact fun _ _ _ _ _ => afterSymbol_of_mode .literal rfl (by decide)

theorem afterSymbol_stepQuote (quote : s.context.IsQuote) : (s.stepQuote c pos).AfterSymbol := by
  refine s.stepQuote_cases c pos ?escape ?sigil ?text ?closing
  case escape => exact fun _ => afterSymbol_of_mode .quote quote.1 (by decide)
  case sigil => exact fun _ => afterSymbol_of_mode .substitution rfl (by decide)
  case text => exact fun _ _ _ => afterSymbol_of_mode .quote quote.1 (by decide)
  case closing => exact fun _ _ => ⟨_, rfl, rfl⟩

/-- A character that is not blank leads to a place between tokens only if it ends a symbol. -/
theorem Coherent.afterSymbol_step (coherent : s.Coherent) (inked : isBlank c = false)
    (next : Option Char) : (s.step next c pos).AfterSymbol := by
  refine coherent.step_cases ?escaped ?goesOn ?start ?quote ?comment
  case escaped =>
    intro escaped mode
    have mode : s.context.mode = .start := mode
    have fits := coherent.fits
    simp [Fits, mode, escaped] at fits
  case goesOn =>
    intro plain goesOn
    refine step_cases_of_continues next plain goesOn ?keep ?escape ?star ?double ?subshell
    case keep =>
      intro built
      rcases built with mode | mode | mode <;> exact afterSymbol_of_mode _ mode (by decide)
    case escape =>
      intro built _
      rcases built with mode | mode <;> exact afterSymbol_of_mode _ mode (by decide)
    case star => exact fun _ _ => afterSymbol_of_mode .wildcard rfl (by decide)
    case double => exact fun _ _ _ => ⟨_, rfl, rfl⟩
    case subshell => exact fun _ _ _ _ => ⟨_, rfl, rfl⟩
  case start => exact fun _ _ _ => afterSymbol_stepStart inked next
  case quote => exact fun _ quote => afterSymbol_stepQuote quote
  case comment =>
    intro _ mode
    have inLine : c ≠ '\n' := by
      rintro rfl
      exact absurd inked (by decide)
    rw [stepComment, if_neg inLine]
    exact afterSymbol_of_mode _ mode (by decide)

/-- A text that ends outside comments ends in another token than a comment. -/
theorem Shaped.noComment_complete {read : List Char} (shaped : s.Shaped start text read)
    (noComment : s.context.mode ≠ .comment)
    (settled : s.context.mode = .start → ∀ newest ∈ s.emitted.head?, newest.kind ≠ .comment) :
    ∀ newest ∈ s.complete.emitted.head?, newest.kind ≠ .comment := by
  have building := shaped.building
  rw [Scanner.complete, if_neg noComment]
  intro newest last
  cases mode : s.context.mode with
  | start =>
    rw [settle_eq_self (.inl mode)] at last
    exact settled mode newest last
  | literal =>
    rw [settle_of_literal mode] at last
    obtain rfl := Option.some_inj.mp last
    change (if reservedWords.contains s.buffer then _ else _) ≠ _
    split <;> decide
  | wildcard =>
    rw [settle_of_wildcard mode] at last
    obtain rfl := Option.some_inj.mp last
    simp
  | operator =>
    rw [settle_of_operator mode] at last
    obtain rfl := Option.some_inj.mp last
    simp
  | quote =>
    rw [settle_eq_self (.inr (.inl mode))] at last
    simp only [Building, mode] at building
    obtain ⟨_, leading, same, leads⟩ := building
    obtain rfl := Option.some_inj.mp (last.symm.trans same)
    intro comment
    simp [Token.leadsText, Token.isMark, Token.isSymbol, comment] at leads
  | substitution =>
    rw [settle_of_substitution mode, pop_emitted, flushName] at last
    split at last
    case isTrue =>
      simp only [Building, mode] at building
      obtain ⟨_, leading, same, isSigil, _⟩ := building
      obtain rfl := Option.some_inj.mp (last.symm.trans same)
      simp [kind_of_isMark isSigil]
    case isFalse =>
      obtain rfl := Option.some_inj.mp last
      simp
  | comment => exact absurd mode noComment

/-- No comment is finished at the end of a text that ends in a character that is not blank. -/
theorem noComment_of_run (inked : ∀ c ∈ text.getLast?, isBlank c = false)
    (noComment : (({} : Scanner).run start text).context.mode ≠ .comment) :
    ∀ newest ∈ (({} : Scanner).run start text).complete.emitted.head?, newest.kind ≠ .comment := by
  refine (shaped_run start text).noComment_complete noComment fun mode => ?_
  rcases List.eq_nil_or_concat text with rfl | ⟨init, c, rfl⟩
  · simp [run]
  · rw [List.concat_eq_append] at inked mode ⊢
    have noBlank : isBlank c = false := inked c (by simp)
    rw [run_append] at mode ⊢
    have coherent := coherent_run coherent_fresh start init (some c)
    obtain ⟨symbol, last, kind⟩ := coherent.afterSymbol_step noBlank _ mode
    intro newest same
    obtain rfl := Option.some_inj.mp (last.symm.trans same)
    simp [kind]

end Scanner

/-! ## Strict reading -/

/-- Whatever the options are, tokens are those that a line has without them. -/
theorem tokenize_of_options {line : String} {strictComments : Bool} {maxLength : Option Int}
    {tokens : List Token} (ran : tokenize line strictComments maxLength = .ok tokens) :
    tokenize line = .ok tokens := by
  have coherent := Scanner.coherent_ofText line.toList
  rw [tokenize_limited] at ran
  split at ran
  case h_1 => cases ran
  case h_2 =>
    cases strictComments with
    | false => exact ran
    | true =>
      by_cases comment : (Scanner.ofText line.toList).context.mode = .comment
      · rw [tokenize_eq, Scanner.finish_strict_of_comment comment] at ran
        cases ran
      · rw [tokenize_eq, coherent.finish_strict_of_ne comment] at ran
        rw [tokenize_eq, ran]

/-- Of the lines that have tokens, strict reading rejects those whose last token is a comment, which
then goes to the end of the line but for the blanks there. It reads the others as usual. -/
theorem tokenize_strict {line : String} {tokens : List Token} (ran : tokenize line = .ok tokens) :
    (∀ last ∈ tokens.getLast?, last.kind = .comment →
      tokenize line true = .error (.unterminatedComment last.pos) ∧
        last.endPos = some (leadingBlanks line.toList + (strip line.toList).length)) ∧
    ((∀ last ∈ tokens.getLast?, last.kind ≠ .comment) → tokenize line true = .ok tokens) := by
  obtain ⟨coherent, all, _, _⟩ := Scanner.of_tokenize_eq_ok ran
  have newest : tokens.getLast? = (Scanner.ofText line.toList).complete.emitted.head? := by
    rw [all, Scanner.tokens, List.getLast?_reverse]
  rw [newest]
  by_cases comment : (Scanner.ofText line.toList).context.mode = .comment
  · have tracks := Scanner.tracks_run (leadingBlanks line.toList) (strip line.toList)
    obtain ⟨built, isComment⟩ := coherent.head?_complete_of_comment comment
    have rejected := tokenize_eq line true
    rw [Scanner.finish_strict_of_comment comment] at rejected
    rw [isComment]
    constructor
    · intro last same _
      obtain rfl := Option.some_inj.mp same
      exact ⟨rejected, tracks.endPos_eq built .comment⟩
    · intro noComment
      exact absurd rfl (noComment _ rfl)
  · have inked : ∀ c ∈ (strip line.toList).getLast?, isBlank c = false :=
      fun c last => isBlank_of_getLast?_stripEnd last
    have noComment := Scanner.noComment_of_run inked comment
    constructor
    · intro last same kind
      exact absurd kind (noComment last same)
    · intro _
      rw [← ran, tokenize_eq, tokenize_eq, coherent.finish_strict_of_ne comment]

/-- A comment is rejected where nothing follows it. -/
theorem tokenize_strict_comment :
    tokenize "ls # c" = .ok
        [⟨.literal, "ls", some 0, false, false⟩, ⟨.comment, "# c", some 3, false, false⟩] ∧
      tokenize "ls # c" true = .error (.unterminatedComment (some 3)) := by
  have ran : tokenize "ls # c" = .ok
      [⟨.literal, "ls", some 0, false, false⟩, ⟨.comment, "# c", some 3, false, false⟩] := rfl
  exact ⟨ran, ((tokenize_strict ran).1 _ rfl rfl).1⟩

/-- A comment at the end of a line is rejected although a newline closes it. -/
theorem tokenize_strict_newline :
    tokenize "ls # c\n" = .ok
        [⟨.literal, "ls", some 0, false, false⟩, ⟨.comment, "# c", some 3, false, false⟩] ∧
      '\n' ∈ "ls # c\n".toList.drop 3 ∧
      tokenize "ls # c\n" true = .error (.unterminatedComment (some 3)) :=
  ⟨rfl, by decide, rfl⟩

end ShellLine
