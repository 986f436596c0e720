import ShellLine.Proofs.Scanner.Coherence

/-! # Scans within scans

A scan that starts between tokens in the middle of another one goes through the same states as a
scan from a fresh start, with what the outer scan has already read and is to resume below it and the
positions counted from elsewhere: `s.within outer offset`. Only two steps look at what is below, and
they are ruled out by `Spares`: a closing parenthesis without a partner, and a sign with nothing in
front of it. Where the outer scan has nothing to resume, only the sign is left, and the text ends in
the same way as by itself: `Coherent.run_within_of_stack`, `Coherent.finish_within`.
-/

namespace ShellLine

open Alphabet Text

/-- The same token with its position counted from elsewhere. -/
def Token.shift (offset : Int) (token : Token) : Token :=
  { token with pos := token.pos.map (· + offset) }

/-- The same context with its position counted from elsewhere. -/
def ScanContext.shift (offset : Int) (context : ScanContext) : ScanContext :=
  { context with opened := context.opened.map (· + offset) }

/-- The same fault with its position counted from elsewhere. -/
def LexicalFault.shift (offset : Int) : LexicalFault → LexicalFault
  | .unterminatedQuote delimiter opened => .unterminatedQuote delimiter (opened.map (· + offset))
  | .unterminatedComment opened => .unterminatedComment (opened.map (· + offset))
  | .danglingContext count opened => .danglingContext count (opened.map (· + offset))
  | .inputTooLong length limit => .inputTooLong length limit

/-- Only the position is reported differently. -/
theorem LexicalFault.diagnostic_shift (offset : Int) (fault : LexicalFault) :
    (fault.shift offset).diagnostic =
      { fault.diagnostic with pos := fault.diagnostic.pos.map (· + offset) } := by
  cases fault <;> rfl

theorem Token.endPos_shift (offset : Int) (token : Token) :
    (token.shift offset).endPos = token.endPos.map (· + offset) := by
  cases pos : token.pos with
  | none => simp [endPos, shift, pos]
  | some pos => simp [endPos, shift, pos, Int.add_right_comm]

namespace Scanner

/-- A scanner that has started where the outer one stands, with positions counted from elsewhere. -/
def within (s outer : Scanner) (offset : Int) : Scanner where
  context := s.context.shift offset
  stack := s.stack.map (.shift offset) ++ outer.stack
  buffer := s.buffer
  bufferPos := s.bufferPos.map (· + offset)
  escaped := s.escaped
  emitted := s.emitted.map (.shift offset) ++ outer.emitted

/-! ## Parts of a step -/

section Parts

variable (s outer : Scanner) (offset : Int) (c : Char) (pos : Int)

theorem enter_within (context : ScanContext) :
    (s.within outer offset).enter (context.shift offset) = (s.enter context).within outer offset :=
  rfl

/-- Contexts without a position are the same everywhere. -/
theorem enter_within_of_opened {context : ScanContext} (opened : context.opened = none) :
    (s.within outer offset).enter context = (s.enter context).within outer offset := by
  have same : context.shift offset = context := by
    obtain ⟨mode, delimiter, _⟩ := context
    cases opened
    rfl
  rw [← enter_within, same]

theorem keep_within :
    (s.within outer offset).keep c (pos + offset) = (s.keep c pos).within outer offset := by
  by_cases empty : s.buffer = ""
  · simp [keep, within, empty]
  · simp [keep, within, empty]

theorem keepEscape_within :
    (s.within outer offset).keepEscape c (pos + offset) =
      (s.keepEscape c pos).within outer offset := by
  rw [keepEscape, keep_within]
  rfl

theorem emit_within (token : Token) :
    (s.within outer offset).emit (token.shift offset) = (s.emit token).within outer offset :=
  rfl

theorem flush_within (kind : TokenKind) (fallback : Option Int) :
    (s.within outer offset).flush kind (fallback.map (· + offset)) =
      (s.flush kind fallback).within outer offset := by
  by_cases empty : s.buffer = ""
  · simp [flush, within, empty, Token.shift]
  · simp [flush, within, empty, Token.shift]

theorem flushWord_within :
    (s.within outer offset).flushWord = s.flushWord.within outer offset :=
  flush_within _ _ _ _ none

theorem flushName_within :
    (s.within outer offset).flushName = s.flushName.within outer offset := by
  have same : (s.within outer offset).buffer = s.buffer := rfl
  by_cases empty : s.buffer = ""
  · simp [flushName, same, empty]
  · simpa [flushName, same, empty] using flush_within s outer offset .identifier none

theorem endFragment_within :
    (s.within outer offset).endFragment c (pos + offset) =
      (s.endFragment c pos).within outer offset := by
  have flushed : (s.within outer offset).flush .fragment (some (pos + offset)) =
      (s.flush .fragment (some pos)).within outer offset :=
    flush_within s outer offset .fragment (some pos)
  rw [endFragment, flushed]
  rfl

/-- Nothing is taken off that lies below. -/
theorem pop_within (returns : s.stack ≠ [] ∨ outer.stack = []) :
    (s.within outer offset).pop = s.pop.within outer offset := by
  cases stack : s.stack with
  | nil =>
    have nothing : outer.stack = [] := by simpa [stack] using returns
    simp [pop, within, stack, nothing, ScanContext.shift]
  | cons context rest => simp [pop, within, stack]

/-- A sign touches the same token on its left, or none. -/
theorem assignToken_within (next : Option Char)
    (apart : s.emitted ≠ [] ∨ outer.emitted.head?.bind Token.endPos ≠ some (pos + offset)) :
    (s.within outer offset).assignToken next (pos + offset) =
      (s.assignToken next pos).shift offset := by
  have joined : ((s.within outer offset).emitted.head?.bind Token.endPos == some (pos + offset)) =
      (s.emitted.head?.bind Token.endPos == some pos) := by
    cases emitted : s.emitted with
    | nil =>
      simpa [within, emitted] using apart
    | cons token rest =>
      rw [Bool.eq_iff_iff]
      simp [within, emitted, Token.endPos_shift]
  simp [assignToken, joined, Token.shift]

end Parts

/-! ## Steps -/

variable {s outer : Scanner} {offset : Int} {c : Char} {pos : Int}

/-- Reading the character between tokens does not look at what is below. -/
structure Spares (s outer : Scanner) (offset : Int) (c : Char) (pos : Int) : Prop where
  returns : c = closeParen → s.stack ≠ [] ∨ outer.stack = []
  apart : c = assign →
    s.emitted ≠ [] ∨ outer.emitted.head?.bind Token.endPos ≠ some (pos + offset)

theorem stepStart_within (spares : s.Spares outer offset c pos) (next : Option Char) :
    (s.within outer offset).stepStart next c (pos + offset) =
      (s.stepStart next c pos).within outer offset := by
  have emitMark : (s.within outer offset).emit (.ofMark c (some (pos + offset))) =
      (s.emit (.ofMark c (some pos))).within outer offset :=
    emit_within s outer offset (.ofMark c pos)
  unfold stepStart
  by_cases blank : isBlank c
  · rw [if_pos blank, if_pos blank, enter_within_of_opened _ _ _ rfl]
  rw [if_neg blank, if_neg blank]
  by_cases escape : c = escapeMark
  · rw [if_pos escape, if_pos escape, keepEscape_within, enter_within_of_opened _ _ _ rfl]
  rw [if_neg escape, if_neg escape]
  by_cases quote : c ∈ quoteMarks
  · rw [if_pos quote, if_pos quote, emitMark]
    rfl
  rw [if_neg quote, if_neg quote]
  by_cases direction : c ∈ directionMarks
  · rw [if_pos direction, if_pos direction, keep_within, enter_within_of_opened _ _ _ rfl]
  rw [if_neg direction, if_neg direction]
  by_cases sign : c = assign
  · rw [if_pos sign, if_pos sign, assignToken_within _ _ _ _ next (spares.apart sign)]
    rfl
  rw [if_neg sign, if_neg sign]
  by_cases symbol : c ∈ plainSymbols
  · rw [if_pos symbol, if_pos symbol, emitMark]
    rfl
  rw [if_neg symbol, if_neg symbol]
  by_cases comment : c = commentMark
  · rw [if_pos comment, if_pos comment, keep_within, enter_within_of_opened _ _ _ rfl]
  rw [if_neg comment, if_neg comment]
  by_cases opener : c = sigil
  · rw [if_pos opener, if_pos opener, emitMark]
    rfl
  rw [if_neg opener, if_neg opener]
  by_cases opening : c = openParen
  · rw [if_pos opening, if_pos opening, emitMark]
    rfl
  rw [if_neg opening, if_neg opening]
  by_cases closing : c = closeParen
  · have returns : (s.emit (.ofMark c (some pos))).stack ≠ [] ∨ outer.stack = [] :=
      spares.returns closing
    rw [if_pos closing, if_pos closing, emitMark, pop_within _ _ _ returns]
  rw [if_neg closing, if_neg closing, keep_within, enter_within_of_opened _ _ _ rfl]

theorem stepQuote_within :
    (s.within outer offset).stepQuote c (pos + offset) =
      (s.stepQuote c pos).within outer offset := by
  have delimiter : (s.within outer offset).context.delimiter = s.context.delimiter := rfl
  unfold stepQuote
  by_cases escape : c = escapeMark
  · rw [if_pos escape, if_pos escape, keepEscape_within]
  rw [if_neg escape, if_neg escape]
  by_cases opener : c = sigil
  · rw [if_pos opener, if_pos opener, endFragment_within]
    rfl
  rw [if_neg opener, if_neg opener, delimiter]
  by_cases text : String.singleton c ≠ s.context.delimiter
  · rw [if_pos text, if_pos text, keep_within]
  · rw [if_neg text, if_neg text, endFragment_within]
    rfl

theorem stepComment_within :
    (s.within outer offset).stepComment c (pos + offset) =
      (s.stepComment c pos).within outer offset := by
  have flushed : (s.within outer offset).flush .comment = (s.flush .comment).within outer offset :=
    flush_within s outer offset .comment none
  unfold stepComment
  by_cases lineEnd : c = '\n'
  · rw [if_pos lineEnd, if_pos lineEnd, flushed]
    rfl
  · rw [if_neg lineEnd, if_neg lineEnd, keep_within]

/-- Settling a token does not look at what is below, as a name has its own context to go back to. -/
theorem Coherent.settle_within (coherent : s.Coherent) :
    (s.within outer offset).settle = s.settle.within outer offset := by
  have fits := coherent.fits
  have flushed (kind : TokenKind) :
      (s.within outer offset).flush kind = (s.flush kind).within outer offset :=
    flush_within s outer offset kind none
  have sameMode : (s.within outer offset).context.mode = s.context.mode := rfl
  cases mode : s.context.mode with
  | start => rw [settle_eq_self (.inl mode), settle_eq_self (.inl (sameMode.trans mode))]
  | quote =>
    rw [settle_eq_self (.inr (.inl mode)), settle_eq_self (.inr (.inl (sameMode.trans mode)))]
  | comment =>
    rw [settle_eq_self (.inr (.inr mode)), settle_eq_self (.inr (.inr (sameMode.trans mode)))]
  | literal =>
    rw [settle_of_literal mode, settle_of_literal (sameMode.trans mode), flushWord_within,
      enter_within_of_opened _ _ _ rfl]
  | wildcard =>
    rw [settle_of_wildcard mode, settle_of_wildcard (sameMode.trans mode), flushed,
      enter_within_of_opened _ _ _ rfl]
  | operator =>
    rw [settle_of_operator mode, settle_of_operator (sameMode.trans mode), flushed,
      enter_within_of_opened _ _ _ rfl]
  | substitution =>
    simp only [Fits, mode] at fits
    have returns : s.flushName.stack ≠ [] ∨ outer.stack = [] := by simp [fits]
    rw [settle_of_substitution mode, settle_of_substitution (sameMode.trans mode),
      flushName_within, pop_within _ _ _ returns]

theorem Coherent.within (coherent : s.Coherent) (below : ∀ context ∈ outer.stack, context.Resumable)
    (offset : Int) : (s.within outer offset).Coherent := by
  obtain ⟨fits, resumable⟩ := coherent
  constructor
  · have sameMode : (s.within outer offset).context.mode = s.context.mode := rfl
    simp only [Fits, sameMode] at fits ⊢
    cases mode : s.context.mode with
    | substitution =>
      simp only [mode] at fits
      exact ⟨by simp [Scanner.within, fits.1], fits.2⟩
    | _ =>
      simp only [mode] at fits
      exact fits
  · intro context member
    rcases List.mem_append.mp member with shifted | outside
    · obtain ⟨context, inside, rfl⟩ := List.mem_map.mp shifted
      exact resumable context inside
    · exact below context outside

theorem step_within_of_continues (plain : s.escaped = false) (goesOn : s.continues c)
    (next : Option Char) :
    (s.within outer offset).step next c (pos + offset) =
      (s.step next c pos).within outer offset := by
  have sameMode : (s.within outer offset).context.mode = s.context.mode := rfl
  have sameEscaped : (s.within outer offset).escaped = s.escaped := rfl
  have sameDelimiter : (s.within outer offset).context.delimiter = s.context.delimiter := rfl
  have sameBuffer : (s.within outer offset).buffer = s.buffer := rfl
  simp only [step, sameEscaped, plain, sameMode, Bool.false_eq_true, ↓reduceIte]
  unfold continues at goesOn
  cases mode : s.context.mode with
  | start => simp [mode] at goesOn
  | quote => simp [mode] at goesOn
  | comment => simp [mode] at goesOn
  | literal =>
    simp only [reduceCtorEq, ↓reduceIte, stepPlain, sameMode, mode, stepLiteral]
    by_cases kept : isAlphanumeric c ∨ c ∈ pathMarks
    · rw [if_pos kept, if_pos kept, keep_within]
    rw [if_neg kept, if_neg kept]
    by_cases escape : c = escapeMark
    · rw [if_pos escape, if_pos escape, keepEscape_within]
    rw [if_neg escape, if_neg escape]
    by_cases isStar : c = star
    · rw [if_pos isStar, if_pos isStar, keep_within, enter_within_of_opened _ _ _ rfl]
    · simp_all
  | wildcard =>
    simp only [reduceCtorEq, ↓reduceIte, stepPlain, sameMode, mode, stepWildcard]
    by_cases kept : isAlphanumeric c ∨ c ∈ pathMarks ∨ c = star
    · rw [if_pos kept, if_pos kept, keep_within]
    rw [if_neg kept, if_neg kept]
    by_cases escape : c = escapeMark
    · rw [if_pos escape, if_pos escape, keepEscape_within]
    · simp_all
  | operator =>
    simp only [mode, beq_iff_eq] at goesOn
    have flushed : ((s.keep c pos).within outer offset).flush .symbol =
        ((s.keep c pos).flush .symbol).within outer offset :=
      flush_within (s.keep c pos) outer offset .symbol none
    simp only [reduceCtorEq, ↓reduceIte, stepPlain, sameMode, mode, stepOperator, sameDelimiter,
      goesOn]
    rw [keep_within, flushed, enter_within_of_opened _ _ _ rfl]
  | substitution =>
    simp only [↓reduceIte, stepSubstitution, sameBuffer]
    by_cases kept : isAlphanumeric c ∨ c ∈ nameMarks
    · rw [if_pos kept, if_pos kept, keep_within]
    rw [if_neg kept, if_neg kept]
    by_cases opens : c = openParen ∧ s.buffer = ""
    · rw [if_pos opens, if_pos opens]
      rfl
    · simp_all

/-- A step does not look at what is below. -/
theorem Coherent.step_within (coherent : s.Coherent)
    (below : ∀ context ∈ outer.stack, context.Resumable)
    (spares : s.escaped = false → s.continues c = false → s.settle.context.mode = .start →
      s.settle.Spares outer offset c pos) (next : Option Char) :
    (s.within outer offset).step next c (pos + offset) =
      (s.step next c pos).within outer offset := by
  have sameMode (s : Scanner) : (s.within outer offset).context.mode = s.context.mode := rfl
  have sameEscaped : (s.within outer offset).escaped = s.escaped := rfl
  have sameGoesOn : (s.within outer offset).continues c = s.continues c := rfl
  cases escaped : s.escaped with
  | true =>
    rw [Scanner.step, Scanner.step, if_pos escaped, if_pos (sameEscaped.trans escaped),
      keep_within]
    rfl
  | false =>
  by_cases goesOn : s.continues c
  · exact step_within_of_continues escaped goesOn next
  have apart : s.continues c = false := by simpa using goesOn
  rw [(coherent.within below offset).step_eq escaped apart, coherent.step_eq escaped apart,
    coherent.settle_within, stepPlain, stepPlain, sameMode]
  rcases coherent.context_settle with (start | quote) | comment
  · rw [start]
    exact stepStart_within (spares escaped apart start) next
  · rw [quote.1]
    exact stepQuote_within
  · rw [settle_eq_self (.inr (.inr comment)), comment]
    exact stepComment_within

/-! ## Whole texts -/

/-- A text does not look at what is below if nothing is to be resumed there, unless it has a sign
right behind the last token. -/
theorem Coherent.run_within_of_stack (coherent : s.Coherent) (closed : outer.stack = [])
    {text : List Char} (apart : ∀ index : Nat, text[index]? = some assign →
      outer.emitted.head?.bind Token.endPos ≠ some (pos + index + offset)) (after : Option Char) :
    (s.within outer offset).run (pos + offset) text after =
      (s.run pos text after).within outer offset := by
  induction text generalizing s pos with
  | nil => rfl
  | cons c rest ih =>
    have below : ∀ context ∈ outer.stack, context.Resumable := by simp [closed]
    have spares : s.settle.Spares outer offset c pos := by
      refine ⟨fun _ => .inr closed, fun sign => .inr ?_⟩
      simpa using apart 0 (by simp [sign])
    have later : ∀ index : Nat, rest[index]? = some assign →
        outer.emitted.head?.bind Token.endPos ≠ some (pos + 1 + index + offset) := by
      intro index found
      have place : pos + 1 + index + offset = pos + (index + 1 : Nat) + offset := by omega
      rw [place]
      exact apart (index + 1) (by simpa using found)
    have same : (s.within outer offset).step (rest.head?.or after) c (pos + offset) =
        (s.step (rest.head?.or after) c pos).within outer offset :=
      coherent.step_within below (fun _ _ _ => spares) _
    have moved : pos + offset + 1 = pos + 1 + offset := by omega
    rw [run, run, same, moved, ih (coherent.step ..) later]

theorem Coherent.closeNames_within (coherent : s.Coherent)
    (below : ∀ context ∈ outer.stack, context.Resumable) :
    (s.within outer offset).closeNames = s.closeNames.within outer offset := by
  have sameMode : (s.within outer offset).context.mode = s.context.mode := rfl
  by_cases name : s.context.mode = .substitution
  · rw [closeNames_of_substitution coherent name, coherent.settle_within.symm]
    exact closeNames_of_substitution (coherent.within below offset) name
  · simp [closeNames, sameMode, name]

theorem flushLast_within : (s.within outer offset).flushLast = s.flushLast.within outer offset := by
  have sameMode : (s.within outer offset).context.mode = s.context.mode := rfl
  have sameBuffer : (s.within outer offset).buffer = s.buffer := rfl
  have flushed (kind : TokenKind) :
      (s.within outer offset).flush kind = (s.flush kind).within outer offset :=
    flush_within s outer offset kind none
  by_cases empty : s.buffer = ""
  · rw [flushLast_of_empty empty, flushLast_of_empty (sameBuffer.trans empty)]
  · simp only [flushLast, sameBuffer, empty, ↓reduceIte, sameMode]
    cases s.context.mode with
    | literal => exact flushWord_within ..
    | wildcard | operator | comment => exact flushed _
    | start | quote | substitution => rfl

theorem incomplete_within (strictComments : Bool) :
    (s.within outer offset).incomplete strictComments =
      (s.incomplete strictComments).map (.shift offset) := by
  have sameMode : (s.within outer offset).context.mode = s.context.mode := rfl
  simp only [incomplete, sameMode]
  cases s.context.mode with
  | quote => rfl
  | comment => cases strictComments <;> rfl
  | start | literal | wildcard | substitution | operator => rfl

theorem dangling_within (closed : outer.stack = []) :
    (s.within outer offset).dangling = s.dangling.map (.shift offset) := by
  cases stack : s.stack with
  | nil => simp [dangling, Scanner.within, stack, closed]
  | cons context rest =>
    simp [dangling, Scanner.within, stack, closed, LexicalFault.shift, ScanContext.shift]

/-- A text ends in the same way if nothing is to be resumed below. -/
theorem Coherent.finish_within (coherent : s.Coherent) (closed : outer.stack = [])
    (strictComments : Bool) : (s.within outer offset).finish strictComments =
      ((s.finish strictComments).1.within outer offset,
        (s.finish strictComments).2.map (.shift offset)) := by
  have below : ∀ context ∈ outer.stack, context.Resumable := by simp [closed]
  simp only [finish, coherent.closeNames_within below, incomplete_within]
  cases s.closeNames.incomplete strictComments with
  | some fault => rfl
  | none => simp only [Option.map_none, flushLast_within, dangling_within closed]

end Scanner

end ShellLine
