import ShellLine.Token.Tokenizer

/-! # Coherent scanners

What the mode says about the rest of the state, in every state that a scan from a fresh start goes
through: where a token is being built, which delimiter is waited for, and what may be resumed. With
it a step is one of two things. A character goes on with the token being built, or that token is
settled and the character is read in one of the modes between tokens, in quoted text and in
comments: `step_eq`.
-/

namespace ShellLine

open Alphabet Text

namespace ScanContext

/-- Quoted text that waits for a quote mark. -/
def IsQuote (context : ScanContext) : Prop :=
  context.mode = .quote ∧ ∃ mark ∈ quoteMarks, context.delimiter = String.singleton mark

/-- What may be on the stack. -/
def Resumable (context : ScanContext) : Prop :=
  context.mode = .start ∨ context.IsQuote

/-- A substitution is never resumed. -/
theorem Resumable.apart {context : ScanContext} (resumable : context.Resumable) :
    context.mode ≠ .substitution := by
  rcases resumable with start | quote
  · simp [start]
  · simp [quote.1]

theorem resumable_group (pos : Int) : (group pos).Resumable :=
  .inl rfl

end ScanContext

namespace Scanner

/-- The mode fits what has been read of the current token. -/
def Fits (s : Scanner) : Prop :=
  match s.context.mode with
  | .start => s.buffer = "" ∧ s.escaped = false
  | .literal => s.buffer ≠ ""
  | .wildcard => s.buffer ≠ ""
  | .quote => s.context.IsQuote ∧ (s.escaped → s.buffer ≠ "")
  | .substitution => s.stack ≠ [] ∧ s.escaped = false
  | .operator => s.buffer ≠ "" ∧ s.escaped = false ∧
      ∃ mark ∈ directionMarks, s.buffer = String.singleton mark ∧ s.context.delimiter = s.buffer
  | .comment => s.buffer ≠ "" ∧ s.escaped = false

/-- The mode fits the current token, and so do the modes to be resumed. -/
structure Coherent (s : Scanner) : Prop where
  fits : s.Fits
  resumable : ∀ outer ∈ s.stack, outer.Resumable

theorem coherent_fresh : Coherent {} :=
  ⟨⟨rfl, rfl⟩, nofun⟩

/-! ## Settling the token being built -/

/-- Whether a character goes on with the token being built, or follows its sigil as a
parenthesis. -/
def continues (s : Scanner) (c : Char) : Bool :=
  match s.context.mode with
  | .literal | .wildcard => isAlphanumeric c || pathMarks.contains c || c == escapeMark || c == star
  | .operator => String.singleton c == s.context.delimiter
  | .substitution =>
    isAlphanumeric c || nameMarks.contains c || (c == openParen && s.buffer == "")
  | _ => false

/-- Finishes a word, an operator or a name, and goes back to what is around it. -/
def settle (s : Scanner) : Scanner :=
  match s.context.mode with
  | .literal => s.flushWord.enter {}
  | .wildcard => (s.flush .wildcard).enter {}
  | .operator => (s.flush .symbol).enter {}
  | .substitution => s.flushName.pop
  | _ => s

theorem settle_of_literal {s : Scanner} (mode : s.context.mode = .literal) :
    s.settle = s.flushWord.enter {} := by
  simp [settle, mode]

theorem settle_of_wildcard {s : Scanner} (mode : s.context.mode = .wildcard) :
    s.settle = (s.flush .wildcard).enter {} := by
  simp [settle, mode]

theorem settle_of_operator {s : Scanner} (mode : s.context.mode = .operator) :
    s.settle = (s.flush .symbol).enter {} := by
  simp [settle, mode]

theorem settle_of_substitution {s : Scanner} (mode : s.context.mode = .substitution) :
    s.settle = s.flushName.pop := by
  simp [settle, mode]

theorem settle_eq_self {s : Scanner}
    (mode : s.context.mode = .start ∨ s.context.mode = .quote ∨ s.context.mode = .comment) :
    s.settle = s := by
  rcases mode with mode | mode | mode <;> simp [settle, mode]

@[simp]
theorem stepPlain_enter_start (s : Scanner) (next : Option Char) (c : Char) (pos : Int) :
    (s.enter {}).stepPlain next c pos = s.stepStart next c pos :=
  rfl

@[simp]
theorem flushName_stack (s : Scanner) : s.flushName.stack = s.stack := by
  unfold flushName
  split <;> rfl

@[simp]
theorem flushName_escaped (s : Scanner) : s.flushName.escaped = s.escaped := by
  unfold flushName
  split <;> rfl

@[simp]
theorem flushName_buffer (s : Scanner) : s.flushName.buffer = "" := by
  unfold flushName
  split
  case isTrue empty => exact empty
  case isFalse => rfl

theorem coherent_of_start {s : Scanner} (mode : s.context.mode = .start) (empty : s.buffer = "")
    (plain : s.escaped = false) (resumable : ∀ outer ∈ s.stack, outer.Resumable) : s.Coherent :=
  ⟨by simp [Fits, mode, empty, plain], resumable⟩

theorem resumable_pop {s : Scanner} (resumable : ∀ outer ∈ s.stack, outer.Resumable) :
    s.pop.context.Resumable := by
  unfold pop
  split
  case h_1 => exact .inl rfl
  case h_2 outer rest stack => exact resumable outer (stack ▸ List.mem_cons_self)

/-- A context that is resumed with nothing built fits. -/
theorem coherent_pop {s : Scanner} (empty : s.buffer = "") (plain : s.escaped = false)
    (resumable : ∀ outer ∈ s.stack, outer.Resumable) : s.pop.Coherent := by
  cases stack : s.stack with
  | nil =>
    have popped : s.pop = s.enter {} := by simp [pop, stack, enter]
    rw [popped]
    exact coherent_of_start rfl empty plain resumable
  | cons outer rest =>
    have popped : s.pop = { s with context := outer, stack := rest } := by simp [pop, stack]
    have others : ∀ other ∈ rest, other.Resumable := fun other member =>
      resumable other (stack ▸ List.mem_cons_of_mem _ member)
    rw [popped]
    rcases resumable outer (stack ▸ List.mem_cons_self) with start | quote
    · exact coherent_of_start start empty plain others
    · refine ⟨?_, others⟩
      simp [Fits, quote.1, quote, plain]

@[simp]
theorem pop_escaped (s : Scanner) : s.pop.escaped = s.escaped := by
  unfold pop
  split <;> rfl

@[simp]
theorem pop_buffer (s : Scanner) : s.pop.buffer = s.buffer := by
  unfold pop
  split <;> rfl

@[simp]
theorem pop_emitted (s : Scanner) : s.pop.emitted = s.emitted := by
  unfold pop
  split <;> rfl

/-- A settled scanner is between tokens, in quoted text or in a comment. -/
theorem Coherent.context_settle {s : Scanner} (coherent : s.Coherent) :
    s.settle.context.Resumable ∨ s.context.mode = .comment := by
  have fits := coherent.fits
  cases mode : s.context.mode with
  | start =>
    rw [settle_eq_self (.inl mode)]
    exact .inl (.inl mode)
  | quote =>
    simp only [Fits, mode] at fits
    rw [settle_eq_self (.inr (.inl mode))]
    exact .inl (.inr fits.1)
  | literal =>
    rw [settle_of_literal mode]
    exact .inl (.inl rfl)
  | wildcard =>
    rw [settle_of_wildcard mode]
    exact .inl (.inl rfl)
  | operator =>
    rw [settle_of_operator mode]
    exact .inl (.inl rfl)
  | substitution =>
    simp only [Fits, mode] at fits
    obtain ⟨outer, rest, stack⟩ := List.exists_cons_of_ne_nil fits.1
    have popped : s.flushName.pop.context = outer := by simp [pop, stack]
    rw [settle_of_substitution mode, popped]
    exact .inl (coherent.resumable outer (stack ▸ List.mem_cons_self))
  | comment => exact .inr rfl

theorem Coherent.settle {s : Scanner} (coherent : s.Coherent) (plain : s.escaped = false) :
    s.settle.Coherent ∧ s.settle.escaped = false := by
  obtain ⟨fits, resumable⟩ := coherent
  cases mode : s.context.mode with
  | start =>
    rw [settle_eq_self (.inl mode)]
    exact ⟨⟨fits, resumable⟩, plain⟩
  | literal =>
    rw [settle_of_literal mode]
    exact ⟨coherent_of_start rfl rfl plain resumable, plain⟩
  | wildcard =>
    rw [settle_of_wildcard mode]
    exact ⟨coherent_of_start rfl rfl plain resumable, plain⟩
  | quote =>
    rw [settle_eq_self (.inr (.inl mode))]
    exact ⟨⟨fits, resumable⟩, plain⟩
  | substitution =>
    have popped := coherent_pop s.flushName_buffer (s.flushName_escaped.trans plain)
      (by rwa [s.flushName_stack])
    rw [settle_of_substitution mode]
    exact ⟨popped, by rw [pop_escaped, flushName_escaped, plain]⟩
  | operator =>
    rw [settle_of_operator mode]
    exact ⟨coherent_of_start rfl rfl plain resumable, plain⟩
  | comment =>
    rw [settle_eq_self (.inr (.inr mode))]
    exact ⟨⟨fits, resumable⟩, plain⟩

/-! ## Steps -/

/-- An operator goes on with a direction mark only. -/
theorem Coherent.direction_of_continues {s : Scanner} (coherent : s.Coherent)
    (mode : s.context.mode = .operator) {c : Char} (goesOn : s.continues c) :
    c ∈ directionMarks := by
  have fits := coherent.fits
  simp only [Fits, mode] at fits
  obtain ⟨_, _, mark, direction, built, delimiter⟩ := fits
  simp only [continues, mode, delimiter, built, beq_iff_eq] at goesOn
  exact String.singleton_inj.mp goesOn ▸ direction

theorem isMark_assignToken (s : Scanner) (next : Option Char) (pos : Int) :
    (s.assignToken next pos).isMark assign :=
  Token.isMark_iff.mpr ⟨rfl, rfl⟩

/-- What is built of an operator is an operator by itself. -/
theorem Coherent.operator_of_mode {s : Scanner} (coherent : s.Coherent)
    (mode : s.context.mode = .operator) : s.buffer ∈ redirectOperators := by
  have fits := coherent.fits
  simp only [Fits, mode] at fits
  obtain ⟨_, _, mark, direction, built, _⟩ := fits
  simp only [directionMarks, List.mem_cons, List.not_mem_nil, or_false] at direction
  rw [built]
  rcases direction with rfl | rfl <;> decide

/-- So it is with a second copy of its mark. -/
theorem Coherent.operator_of_double {s : Scanner} (coherent : s.Coherent)
    (mode : s.context.mode = .operator) {c : Char}
    (same : String.singleton c = s.context.delimiter) : s.buffer.push c ∈ redirectOperators := by
  have fits := coherent.fits
  simp only [Fits, mode] at fits
  obtain ⟨_, _, mark, direction, built, delimiter⟩ := fits
  rw [delimiter, built] at same
  obtain rfl := String.singleton_inj.mp same
  simp only [directionMarks, List.mem_cons, List.not_mem_nil, or_false] at direction
  rw [built]
  rcases direction with rfl | rfl <;> decide

/-- A character that neither goes on with a token nor is taken as it is settles that token, and is
read in the mode after it. -/
theorem Coherent.step_eq {s : Scanner} (coherent : s.Coherent) (plain : s.escaped = false) {c : Char}
    (apart : s.continues c = false) (next : Option Char) (pos : Int) :
    s.step next c pos = s.settle.stepPlain next c pos := by
  obtain ⟨fits, resumable⟩ := coherent
  cases mode : s.context.mode with
  | start => simp [step, plain, settle_eq_self (.inl mode), mode]
  | quote => simp [step, plain, settle_eq_self (.inr (.inl mode)), mode]
  | comment => simp [step, plain, settle_eq_self (.inr (.inr mode)), mode]
  | literal =>
    simp only [continues, mode, Bool.or_eq_false_iff, List.contains_eq_mem, decide_eq_false_iff_not,
      beq_eq_false_iff_ne] at apart
    rw [settle_of_literal mode, stepPlain_enter_start]
    simp [step, plain, mode, stepPlain, stepLiteral, apart]
  | wildcard =>
    simp only [continues, mode, Bool.or_eq_false_iff, List.contains_eq_mem, decide_eq_false_iff_not,
      beq_eq_false_iff_ne] at apart
    rw [settle_of_wildcard mode, stepPlain_enter_start]
    simp [step, plain, mode, stepPlain, stepWildcard, apart]
  | operator =>
    simp only [continues, mode, beq_eq_false_iff_ne] at apart
    rw [settle_of_operator mode, stepPlain_enter_start]
    simp [step, plain, mode, stepPlain, stepOperator, apart]
  | substitution =>
    simp only [Fits, mode] at fits
    obtain ⟨outer, rest, stack⟩ := List.exists_cons_of_ne_nil fits.1
    have apartName : ¬ (isAlphanumeric c ∨ c ∈ nameMarks) ∧ ¬ (c = openParen ∧ s.buffer = "") := by
      simpa [continues, mode] using apart
    have resumed : s.flushName.pop = { s.flushName with context := outer, stack := rest } := by
      simp [pop, stack]
    have noName : outer.mode ≠ .substitution := (resumable outer (stack ▸ List.mem_cons_self)).apart
    rw [settle_of_substitution mode, resumed]
    simp [step, plain, mode, stepSubstitution, apartName, stack, resume, noName]

/-- What a step can do that goes on with the token at hand, by the character that it reads. -/
theorem step_cases_of_class {motive : Scanner → Prop} {s : Scanner} {c : Char} {pos : Int}
    (next : Option Char) (plain : s.escaped = false) (goesOn : s.continues c)
    (letter : s.context.mode = .literal → isAlphanumeric c ∨ c ∈ pathMarks → motive (s.keep c pos))
    (pattern : s.context.mode = .wildcard → isAlphanumeric c ∨ c ∈ pathMarks ∨ c = star →
      motive (s.keep c pos))
    (name : s.context.mode = .substitution → isAlphanumeric c ∨ c ∈ nameMarks →
      motive (s.keep c pos))
    (escape : s.context.mode = .literal ∨ s.context.mode = .wildcard → c = escapeMark →
      motive (s.keepEscape c pos))
    (star : s.context.mode = .literal → c = star → motive ((s.keep c pos).enter (.ofMode .wildcard)))
    (double : s.context.mode = .operator → String.singleton c = s.context.delimiter →
      motive (((s.keep c pos).flush .symbol).enter {}))
    (subshell : s.context.mode = .substitution → c = openParen → s.buffer = "" →
      motive (s.openSubshell c pos)) :
    motive (s.step next c pos) := by
  cases mode : s.context.mode with
  | literal =>
    simp only [step, plain, mode, stepPlain, stepLiteral, Bool.false_eq_true, reduceCtorEq, ↓reduceIte]
    split
    case isTrue found => exact letter mode found
    case isFalse =>
      split
      case isTrue mark => exact escape (.inl mode) mark
      case isFalse =>
        split
        case isTrue mark => exact star mode mark
        case isFalse => simp_all [continues]
  | wildcard =>
    simp only [step, plain, mode, stepPlain, stepWildcard, Bool.false_eq_true, reduceCtorEq, ↓reduceIte]
    split
    case isTrue found => exact pattern mode found
    case isFalse =>
      split
      case isTrue mark => exact escape (.inr mode) mark
      case isFalse => simp_all [continues]
  | operator =>
    have same : String.singleton c = s.context.delimiter := by simpa [continues, mode] using goesOn
    simp only [step, plain, mode, stepPlain, stepOperator, same, Bool.false_eq_true, reduceCtorEq,
      ↓reduceIte]
    exact double mode same
  | substitution =>
    simp only [step, plain, mode, stepSubstitution, Bool.false_eq_true, ↓reduceIte]
    split
    case isTrue found => exact name mode found
    case isFalse =>
      split
      case isTrue opens => exact subshell mode opens.1 opens.2
      case isFalse => simp_all [continues]
  | start => simp [continues, mode] at goesOn
  | quote => simp [continues, mode] at goesOn
  | comment => simp [continues, mode] at goesOn

/-- What a step can do that goes on with the token at hand. -/
theorem step_cases_of_continues {motive : Scanner → Prop} {s : Scanner} {c : Char} {pos : Int}
    (next : Option Char) (plain : s.escaped = false) (goesOn : s.continues c)
    (keep : s.context.mode = .literal ∨ s.context.mode = .wildcard ∨ s.context.mode = .substitution →
      motive (s.keep c pos))
    (escape : s.context.mode = .literal ∨ s.context.mode = .wildcard → c = escapeMark →
      motive (s.keepEscape c pos))
    (star : s.context.mode = .literal → c = star → motive ((s.keep c pos).enter (.ofMode .wildcard)))
    (double : s.context.mode = .operator → String.singleton c = s.context.delimiter →
      motive (((s.keep c pos).flush .symbol).enter {}))
    (subshell : s.context.mode = .substitution → c = openParen → s.buffer = "" →
      motive (s.openSubshell c pos)) :
    motive (s.step next c pos) :=
  step_cases_of_class next plain goesOn (fun mode _ => keep (.inl mode))
    (fun mode _ => keep (.inr (.inl mode))) (fun mode _ => keep (.inr (.inr mode))) escape star double
    subshell

/-- What a character can do between tokens. -/
theorem stepStart_cases {motive : Scanner → Prop} (s : Scanner) (next : Option Char) (c : Char)
    (pos : Int) (blank : isBlank c → motive (s.enter {}))
    (escape : c = escapeMark → motive ((s.keepEscape c pos).enter (.ofMode .literal)))
    (quote : c ∈ quoteMarks → motive ((s.emit (.ofMark c pos)).enter (.quote c pos)))
    (operator : c ∈ directionMarks → motive ((s.keep c pos).enter (.operator c)))
    (assign : c = assign → motive ((s.emit (s.assignToken next pos)).enter {}))
    (symbol : c ∈ plainSymbols → c ≠ Alphabet.assign → motive ((s.emit (.ofMark c pos)).enter {}))
    (comment : c = commentMark → motive ((s.keep c pos).enter (.ofMode .comment)))
    (sigil : c = sigil →
      motive (((s.emit (.ofMark c pos)).push (.group pos)).enter (.ofMode .substitution)))
    (opening : c = openParen → motive (((s.emit (.ofMark c pos)).push (.group pos)).enter {}))
    (closing : c = closeParen → motive (s.emit (.ofMark c pos)).pop)
    (star : c = star → motive ((s.keep c pos).enter (.ofMode .wildcard)))
    (word : isBlank c = false → c ∉ quoteMarks → c ∉ directionMarks → c ∉ plainSymbols →
      c ∉ [escapeMark, commentMark, Alphabet.sigil, openParen, closeParen, Alphabet.star] →
      motive ((s.keep c pos).enter (.ofMode .literal))) :
    motive (s.stepStart next c pos) := by
  unfold stepStart
  by_cases isBlank : isBlank c
  · rw [if_pos isBlank]
    exact blank isBlank
  rw [if_neg isBlank]
  by_cases isEscape : c = escapeMark
  · rw [if_pos isEscape]
    exact escape isEscape
  rw [if_neg isEscape]
  by_cases isQuote : c ∈ quoteMarks
  · rw [if_pos isQuote]
    exact quote isQuote
  rw [if_neg isQuote]
  by_cases isDirection : c ∈ directionMarks
  · rw [if_pos isDirection]
    exact operator isDirection
  rw [if_neg isDirection]
  by_cases isAssign : c = Alphabet.assign
  · rw [if_pos isAssign]
    exact assign isAssign
  rw [if_neg isAssign]
  by_cases isSymbol : c ∈ plainSymbols
  · rw [if_pos isSymbol]
    exact symbol isSymbol isAssign
  rw [if_neg isSymbol]
  by_cases isComment : c = commentMark
  · rw [if_pos isComment]
    exact comment isComment
  rw [if_neg isComment]
  by_cases isSigil : c = Alphabet.sigil
  · rw [if_pos isSigil]
    exact sigil isSigil
  rw [if_neg isSigil]
  by_cases isOpening : c = openParen
  · rw [if_pos isOpening]
    exact opening isOpening
  rw [if_neg isOpening]
  by_cases isClosing : c = closeParen
  · rw [if_pos isClosing]
    exact closing isClosing
  rw [if_neg isClosing]
  by_cases isStar : c = Alphabet.star
  · rw [if_pos isStar]
    exact star isStar
  rw [if_neg isStar]
  exact word (by simpa using isBlank) isQuote isDirection isSymbol
    (by simp [isEscape, isComment, isSigil, isOpening, isClosing, isStar])

/-- What a character can do in quoted text. -/
theorem stepQuote_cases {motive : Scanner → Prop} (s : Scanner) (c : Char) (pos : Int)
    (escape : c = escapeMark → motive (s.keepEscape c pos))
    (sigil : c = sigil →
      motive (((s.endFragment c pos).push s.context).enter (.ofMode .substitution)))
    (text : String.singleton c ≠ s.context.delimiter → c ≠ escapeMark → c ≠ Alphabet.sigil →
      motive (s.keep c pos))
    (closing : String.singleton c = s.context.delimiter → motive ((s.endFragment c pos).enter {})) :
    motive (s.stepQuote c pos) := by
  unfold stepQuote
  by_cases isEscape : c = escapeMark
  · rw [if_pos isEscape]
    exact escape isEscape
  rw [if_neg isEscape]
  by_cases isSigil : c = Alphabet.sigil
  · rw [if_pos isSigil]
    exact sigil isSigil
  rw [if_neg isSigil]
  by_cases isText : String.singleton c ≠ s.context.delimiter
  · rw [if_pos isText]
    exact text isText isEscape isSigil
  · rw [if_neg isText]
    exact closing (Decidable.not_not.mp isText)

/-- What a step can do: it takes a character as it is, goes on with the token at hand, or settles
that token first, which the character is no part of. -/
theorem Coherent.step_cases_apart {motive : Scanner → Prop} {s : Scanner} (coherent : s.Coherent)
    {next : Option Char} {c : Char} {pos : Int}
    (escaped : s.escaped → motive { s.keep c pos with escaped := false })
    (goesOn : s.escaped = false → s.continues c → motive (s.step next c pos))
    (start : s.escaped = false → s.continues c = false → s.settle.context.mode = .start →
      s.settle.buffer = "" → motive (s.settle.stepStart next c pos))
    (quote : s.escaped = false → s.continues c = false → s.settle.context.IsQuote →
      motive (s.settle.stepQuote c pos))
    (comment : s.escaped = false → s.context.mode = .comment → motive (s.stepComment c pos)) :
    motive (s.step next c pos) := by
  by_cases isEscaped : s.escaped
  · have taken : s.step next c pos = { s.keep c pos with escaped := false } := by
      simp [step, isEscaped]
    rw [taken]
    exact escaped isEscaped
  have plain : s.escaped = false := by simpa using isEscaped
  by_cases continued : s.continues c
  · exact goesOn plain continued
  have apart : s.continues c = false := by simpa using continued
  obtain ⟨settled, -⟩ := coherent.settle plain
  rw [coherent.step_eq plain apart]
  rcases coherent.context_settle with (mode | isQuote) | mode
  · have empty : s.settle.buffer = "" := by
      have fits := settled.fits
      simp only [Fits, mode] at fits
      exact fits.1
    rw [stepPlain, mode]
    exact start plain apart mode empty
  · rw [stepPlain, isQuote.1]
    exact quote plain apart isQuote
  · rw [settle_eq_self (.inr (.inr mode)), stepPlain, mode]
    exact comment plain mode

/-- What a step can do, whatever the character that settles a token is. -/
theorem Coherent.step_cases {motive : Scanner → Prop} {s : Scanner} (coherent : s.Coherent)
    {next : Option Char} {c : Char} {pos : Int}
    (escaped : s.escaped → motive { s.keep c pos with escaped := false })
    (goesOn : s.escaped = false → s.continues c → motive (s.step next c pos))
    (start : s.escaped = false → s.settle.context.mode = .start → s.settle.buffer = "" →
      motive (s.settle.stepStart next c pos))
    (quote : s.escaped = false → s.settle.context.IsQuote → motive (s.settle.stepQuote c pos))
    (comment : s.escaped = false → s.context.mode = .comment → motive (s.stepComment c pos)) :
    motive (s.step next c pos) :=
  coherent.step_cases_apart escaped goesOn (fun plain _ => start plain) (fun plain _ => quote plain)
    comment

/-! ## Coherence of every state -/

theorem Coherent.stepStart {s : Scanner} (empty : s.buffer = "") (plain : s.escaped = false)
    (resumable : ∀ outer ∈ s.stack, outer.Resumable) (next : Option Char) (c : Char) (pos : Int) :
    (s.stepStart next c pos).Coherent := by
  have pushed : ∀ outer ∈ ScanContext.group pos :: s.stack, outer.Resumable := by
    intro outer member
    rcases List.mem_cons.mp member with rfl | member
    · exact ScanContext.resumable_group pos
    · exact resumable outer member
  refine s.stepStart_cases next c pos ?blank ?escape ?quote ?operator ?assign ?symbol ?comment
    ?sigil ?opening ?closing ?star ?word
  case blank => exact fun _ => coherent_of_start rfl empty plain resumable
  case escape => exact fun _ => ⟨String.push_ne_empty, resumable⟩
  case quote =>
    intro mark
    refine ⟨⟨⟨rfl, c, mark, rfl⟩, fun escaped => ?_⟩, resumable⟩
    rw [show s.escaped = true from escaped] at plain
    cases plain
  case operator =>
    intro mark
    have kept : s.buffer.push c = String.singleton c := by
      rw [empty]
      rfl
    exact ⟨⟨String.push_ne_empty, plain, c, mark, kept, kept.symm⟩, resumable⟩
  case assign => exact fun _ => coherent_of_start rfl empty plain resumable
  case symbol => exact fun _ _ => coherent_of_start rfl empty plain resumable
  case comment => exact fun _ => ⟨⟨String.push_ne_empty, plain⟩, resumable⟩
  case sigil => exact fun _ => ⟨⟨List.cons_ne_nil _ _, plain⟩, pushed⟩
  case opening => exact fun _ => coherent_of_start rfl empty plain pushed
  case closing =>
    intro _
    exact coherent_pop (s := s.emit (.ofMark c pos)) empty plain resumable
  case star => exact fun _ => ⟨String.push_ne_empty, resumable⟩
  case word => exact fun _ _ _ _ _ => ⟨String.push_ne_empty, resumable⟩

theorem Coherent.stepQuote {s : Scanner} (quote : s.context.IsQuote) (plain : s.escaped = false)
    (resumable : ∀ outer ∈ s.stack, outer.Resumable) (c : Char) (pos : Int) :
    (s.stepQuote c pos).Coherent := by
  have pushed : ∀ outer ∈ s.context :: s.stack, outer.Resumable := by
    intro outer member
    rcases List.mem_cons.mp member with rfl | member
    · exact .inr quote
    · exact resumable outer member
  refine s.stepQuote_cases c pos ?escape ?sigil ?text ?closing
  case escape =>
    intro _
    refine ⟨?_, resumable⟩
    simp [Fits, keepEscape, keep, quote.1, quote]
  case sigil => exact fun _ => ⟨⟨List.cons_ne_nil _ _, plain⟩, pushed⟩
  case text =>
    intro _ _ _
    refine ⟨?_, resumable⟩
    simp [Fits, keep, quote.1, quote]
  case closing => exact fun _ => coherent_of_start rfl rfl plain resumable

/-- A step leaves a coherent scanner coherent. -/
theorem Coherent.step {s : Scanner} (coherent : s.Coherent) (next : Option Char) (c : Char)
    (pos : Int) : (s.step next c pos).Coherent := by
  obtain ⟨fits, resumable⟩ := id coherent
  refine coherent.step_cases ?escaped ?goesOn ?start ?quote ?comment
  case escaped =>
    intro escaped
    refine ⟨?_, resumable⟩
    cases mode : s.context.mode <;> simp_all [Fits, keep]
  case goesOn =>
    intro plain goesOn
    refine step_cases_of_continues next plain goesOn ?keep ?escape ?star ?double ?subshell
    case keep =>
      rintro (mode | mode | mode) <;> refine ⟨?_, resumable⟩ <;> simp_all [Fits, Scanner.keep]
    case escape =>
      rintro (mode | mode) _ <;> refine ⟨?_, resumable⟩ <;> simp_all [Fits, Scanner.keep, keepEscape]
    case star => exact fun _ _ => ⟨String.push_ne_empty, resumable⟩
    case double => exact fun _ _ => coherent_of_start rfl rfl plain resumable
    case subshell => exact fun _ _ empty => coherent_of_start rfl empty plain resumable
  case start =>
    intro plain mode empty
    obtain ⟨settled, plain⟩ := coherent.settle plain
    exact .stepStart empty plain settled.resumable next c pos
  case quote =>
    intro plain quote
    obtain ⟨settled, plain⟩ := coherent.settle plain
    exact .stepQuote quote plain settled.resumable c pos
  case comment =>
    intro plain mode
    unfold stepComment
    split
    case isTrue => exact coherent_of_start rfl rfl plain resumable
    case isFalse =>
      refine ⟨?_, resumable⟩
      simp [Fits, keep, mode, plain]

/-- What a coherent scanner has at first, and every step on the text keeps, it has after the whole
text. -/
theorem Coherent.run_induction_within {motive : List Char → Scanner → Prop} {s : Scanner}
    (coherent : s.Coherent) (start : Int) (text : List Char) (after : Option Char)
    (fresh : motive [] s)
    (step : ∀ read (s : Scanner) c rest, text = read ++ c :: rest → s.Coherent → motive read s →
      motive (read ++ [c]) (s.step (rest.head?.or after) c (start + read.length))) :
    (s.run start text after).Coherent ∧ motive text (s.run start text after) := by
  suffices ∀ rest read (s : Scanner), text = read ++ rest → s.Coherent → motive read s →
      (s.run (start + read.length) rest after).Coherent ∧
        motive text (s.run (start + read.length) rest after) by
    simpa using this text [] s rfl coherent fresh
  intro rest
  induction rest with
  | nil =>
    intro read s split coherent now
    obtain rfl : text = read := by simpa using split
    exact ⟨coherent, now⟩
  | cons c rest ih =>
    intro read s split coherent now
    have stepped := step read s c rest split coherent now
    have later := ih (read ++ [c]) _ (by simp [split]) (coherent.step _ c _) stepped
    simpa [run, Int.add_assoc] using later

/-- What every step keeps, whatever comes next, it has after the whole text, too. -/
theorem Coherent.run_induction {motive : List Char → Scanner → Prop} {s : Scanner}
    (coherent : s.Coherent) (start : Int) (text : List Char) (after : Option Char)
    (fresh : motive [] s)
    (step : ∀ read (s : Scanner) next c, s.Coherent → motive read s →
      motive (read ++ [c]) (s.step next c (start + read.length))) :
    (s.run start text after).Coherent ∧ motive text (s.run start text after) :=
  coherent.run_induction_within start text after fresh fun read s c _ _ coherent now =>
    step read s _ c coherent now

theorem coherent_run {s : Scanner} (coherent : s.Coherent) (start : Int) (text : List Char)
    (after : Option Char) : (s.run start text after).Coherent :=
  (coherent.run_induction (motive := fun _ _ => True) start text after trivial
    fun _ _ _ _ _ _ => trivial).1

theorem coherent_ofText (text : List Char) : (ofText text).Coherent :=
  coherent_run coherent_fresh ..

/-! ## The end of a text -/

/-- Finishes the token that the end of the text completes. -/
def complete (s : Scanner) : Scanner :=
  if s.context.mode = .comment then s.flush .comment else s.settle

theorem closeNames_of_substitution {s : Scanner} (coherent : s.Coherent)
    (mode : s.context.mode = .substitution) : s.closeNames = s.settle := by
  obtain ⟨fits, resumable⟩ := coherent
  simp only [Fits, mode] at fits
  obtain ⟨outer, rest, stack⟩ := List.exists_cons_of_ne_nil fits.1
  have noName : outer.mode ≠ .substitution := (resumable outer (stack ▸ List.mem_cons_self)).apart
  simp [settle, closeNames, closeNames.unwind, mode, stack, noName, pop]

theorem flushLast_of_empty {s : Scanner} (empty : s.buffer = "") : s.flushLast = s := by
  simp [flushLast, empty]

/-- At the end of a text names are closed first, then the last token is finished. -/
theorem Coherent.flushLast_closeNames {s : Scanner} (coherent : s.Coherent) :
    s.closeNames.flushLast.emitted = s.complete.emitted ∧
      s.closeNames.flushLast.stack = s.complete.stack ∧
      (s.complete.context.mode = .quote → s.closeNames.context.mode = .quote) := by
  have fits := coherent.fits
  by_cases name : s.context.mode = .substitution
  · have noComment : s.context.mode ≠ .comment := by simp [name]
    have empty : s.settle.buffer = "" := by simp [settle_of_substitution name]
    rw [closeNames_of_substitution coherent name, flushLast_of_empty empty, complete,
      if_neg noComment]
    exact ⟨rfl, rfl, id⟩
  have closed : s.closeNames = s := by simp [closeNames, name]
  rw [closed]
  cases mode : s.context.mode with
  | start =>
    simp only [Fits, mode] at fits
    simp [flushLast_of_empty fits.1, complete, settle_eq_self (.inl mode), mode]
  | literal =>
    simp only [Fits, mode] at fits
    simp [flushLast, fits, complete, settle_of_literal mode, mode, enter]
  | wildcard =>
    simp only [Fits, mode] at fits
    simp [flushLast, fits, complete, settle_of_wildcard mode, mode, enter]
  | quote => simp [flushLast, complete, settle_eq_self (.inr (.inl mode)), mode]
  | substitution => exact absurd mode name
  | operator =>
    simp only [Fits, mode] at fits
    simp [flushLast, fits, complete, settle_of_operator mode, mode, enter]
  | comment =>
    simp only [Fits, mode] at fits
    simp [flushLast, fits, complete, mode, flush]

/-- Nothing but the text of an open quote is left in the buffer. -/
theorem Coherent.buffer_complete {s : Scanner} (coherent : s.Coherent)
    (closed : s.complete.context.mode ≠ .quote) : s.complete.buffer = "" := by
  have fits := coherent.fits
  unfold complete at closed ⊢
  cases mode : s.context.mode with
  | start =>
    simp only [Fits, mode] at fits
    simp [settle_eq_self (.inl mode), fits.1]
  | literal => simp [settle_of_literal mode, enter, flushWord, flush]
  | wildcard => simp [settle_of_wildcard mode, enter, flush]
  | quote => simp [mode, settle_eq_self (.inr (.inl mode))] at closed
  | substitution => simp [settle_of_substitution mode]
  | operator => simp [settle_of_operator mode, enter, flush]
  | comment => simp [flush]

/-- A text that ends without a fault leaves nothing open. -/
theorem Coherent.finish_eq_ok {s last : Scanner} {strictComments : Bool} (coherent : s.Coherent)
    (ended : s.finish strictComments = (last, none)) :
    last.emitted = s.complete.emitted ∧ s.complete.stack = [] ∧
      s.complete.context.mode ≠ .quote := by
  obtain ⟨emitted, stack, quote⟩ := coherent.flushLast_closeNames
  simp only [finish] at ended
  split at ended
  case h_1 => cases ended
  case h_2 whole =>
    obtain ⟨rfl, closed⟩ := Prod.mk.inj ended
    refine ⟨emitted, ?_, fun quoted => ?_⟩
    · simpa [dangling, stack] using closed
    · simp [incomplete, quote quoted] at whole

/-- What is on the stack at the end was there before. -/
theorem mem_stack_of_complete {s : Scanner} {outer : ScanContext}
    (member : outer ∈ s.complete.stack) : outer ∈ s.stack := by
  unfold complete settle at member
  split at member
  case isTrue => exact member
  case isFalse =>
    split at member
    case h_4 =>
      cases stack : s.stack with
      | nil => simp [pop, stack] at member
      | cons first rest =>
        have popped : outer ∈ rest := by simpa [pop, stack] using member
        exact List.mem_cons_of_mem _ popped
    all_goals exact member

/-- A text ends between tokens, in quoted text or in a comment. -/
theorem Coherent.context_complete {s : Scanner} (coherent : s.Coherent) :
    s.complete.context.Resumable ∨ s.complete.context.mode = .comment := by
  unfold complete
  split
  case isTrue comment => exact .inr comment
  case isFalse noComment => exact .inl (coherent.context_settle.resolve_right noComment)

/-- In quoted text there is nothing to finish but names. -/
theorem Coherent.complete_of_quote {s : Scanner} (coherent : s.Coherent)
    (quote : s.closeNames.context.mode = .quote) : s.complete = s.closeNames := by
  by_cases name : s.context.mode = .substitution
  · have noComment : s.context.mode ≠ .comment := by simp [name]
    rw [closeNames_of_substitution coherent name, complete, if_neg noComment]
  · have closed : s.closeNames = s := by simp [closeNames, name]
    rw [closed] at quote ⊢
    have noComment : s.context.mode ≠ .comment := by simp [quote]
    rw [complete, if_neg noComment, settle_eq_self (.inr (.inl quote))]

/-- Where a text ends in quoted text, the quote is unterminated. -/
theorem Coherent.finish_of_quote {s : Scanner} (coherent : s.Coherent)
    (quote : s.complete.context.mode = .quote) (strictComments : Bool) :
    s.finish strictComments = (s.complete,
      some (.unterminatedQuote s.complete.context.delimiter s.complete.context.opened)) := by
  have same := coherent.complete_of_quote (coherent.flushLast_closeNames.2.2 quote)
  rw [same] at quote ⊢
  simp [finish, incomplete, quote]

/-- Where a text ends outside quoted text, only what is still on the stack is a fault. -/
theorem Coherent.finish_of_closed {s : Scanner} (coherent : s.Coherent)
    (closed : s.complete.context.mode ≠ .quote) :
    (s.finish false).1.emitted = s.complete.emitted ∧
      (s.finish false).2 = s.complete.dangling := by
  obtain ⟨emitted, stack, _⟩ := coherent.flushLast_closeNames
  have whole : s.closeNames.incomplete false = none := by
    unfold incomplete
    split
    case h_1 quote => exact absurd (coherent.complete_of_quote quote ▸ quote) closed
    case h_2 => rfl
    case h_3 => rfl
  simp only [finish, whole]
  exact ⟨emitted, by rw [dangling, dangling, stack]⟩

/-- Where a text ends, its tokens and its fault are known once the last token is finished. -/
theorem tokenize_eq_complete (line : String) :
    let last := (ofText line.toList).complete
    tokenize line =
      if last.context.mode = .quote then
        .error (.unterminatedQuote last.context.delimiter last.context.opened)
      else match last.dangling with
        | some fault => .error fault
        | none => .ok last.tokens := by
  intro last
  have coherent := coherent_ofText line.toList
  rw [tokenize_eq]
  by_cases quote : last.context.mode = .quote
  · rw [coherent.finish_of_quote quote, if_pos quote]
  · obtain ⟨emitted, fault⟩ := coherent.finish_of_closed quote
    rw [if_neg quote, ← fault, tokens, ← emitted, ← tokens]
    cases (ofText line.toList).finish false with
    | mk ended fault => cases fault <;> rfl

/-- What it takes for the text of a line to have tokens. -/
theorem of_tokenize_eq_ok {line : String} {strictComments : Bool} {tokens : List Token}
    (ran : tokenize line strictComments = .ok tokens) :
    (ofText line.toList).Coherent ∧ tokens = (ofText line.toList).complete.tokens ∧
      (ofText line.toList).complete.stack = [] ∧
      (ofText line.toList).complete.context.mode ≠ .quote := by
  have coherent := coherent_ofText line.toList
  rw [tokenize_eq] at ran
  split at ran
  case h_1 => cases ran
  case h_2 last ended =>
    cases ran
    obtain ⟨emitted, stack, quote⟩ := coherent.finish_eq_ok ended
    exact ⟨coherent, congrArg List.reverse emitted, stack, quote⟩

end Scanner

end ShellLine
