import ShellLine.Proofs.Scanner.Coherence

/-! # Between tokens and in quoted text

What the scanner makes of the characters around a piece of text. Blanks and closing parentheses end
the token before them, quoted text goes on up to its mark, and what comes after a text matters for a
sign at its end only: `Coherent.step_next`.
-/

namespace ShellLine

open Alphabet Text

/-- A blank is no letter and no numeral. -/
theorem isAlphanumeric_of_isBlank {c : Char} (blank : isBlank c) : isAlphanumeric c = false := by
  have apart : ∀ range ∈ blankRanges, ∀ n ∈ List.range' range.1 (range.2 + 1 - range.1),
      alphanumericRanges.covers n = false := by decide +kernel
  obtain ⟨range, member, first, last⟩ := (Ranges.covers_iff blankRanges_ascends _).mp blank
  exact apart range member c.toNat (List.mem_range'_1.mpr ⟨first, by omega⟩)

/-- Whether a character is part of no word, operator or name. -/
def separates (c : Char) : Bool :=
  !isAlphanumeric c &&
    !(pathMarks ++ nameMarks ++ directionMarks ++ [escapeMark, star, openParen]).contains c

theorem separates_of_isBlank {c : Char} (blank : isBlank c) : separates c := by
  have apart : (pathMarks ++ nameMarks ++ directionMarks ++ [escapeMark, star, openParen]).all
      (!isBlank ·) := by decide
  have noMark : c ∉ pathMarks ++ nameMarks ++ directionMarks ++ [escapeMark, star, openParen] := by
    intro member
    have noBlank := List.all_eq_true.mp apart c member
    rw [blank] at noBlank
    cases noBlank
  simp only [separates, isAlphanumeric_of_isBlank blank, Bool.not_false, Bool.true_and]
  simpa using noMark

theorem separates_closeParen : separates closeParen := by decide +kernel

theorem separates_assign : separates assign := by decide +kernel

namespace Scanner

variable {s : Scanner} {c : Char} {pos : Int}

/-- A character that separates goes on with no token. -/
theorem Coherent.continues_of_separates (coherent : s.Coherent) (separates : separates c) :
    s.continues c = false := by
  simp only [ShellLine.separates, List.append_assoc, List.contains_eq_mem, List.mem_append,
    List.mem_cons, List.not_mem_nil, or_false, Bool.and_eq_true, Bool.not_eq_true',
    decide_eq_false_iff_not, not_or] at separates
  cases mode : s.context.mode with
  | operator =>
    apply Bool.eq_false_iff.mpr
    intro goesOn
    exact separates.2.2.2.1 (coherent.direction_of_continues mode goesOn)
  | _ => simp [continues, mode, separates]

/-! ## Blanks -/

/-- A blank settles the token in front of it. -/
theorem Coherent.step_of_isBlank (coherent : s.Coherent) (plain : s.escaped = false)
    (start : s.settle.context.mode = .start) (blank : isBlank c) (next : Option Char) :
    s.step next c pos = s.settle.enter {} := by
  rw [coherent.step_eq plain (coherent.continues_of_separates (separates_of_isBlank blank)),
    stepPlain, start]
  exact if_pos blank

/-- Between tokens blanks are of no account. -/
theorem run_of_isBlank {gap : List Char} (fresh : s.context = {}) (plain : s.escaped = false)
    (blank : ∀ c ∈ gap, isBlank c) (after : Option Char) : s.run pos gap after = s := by
  induction gap generalizing pos with
  | nil => rfl
  | cons c rest ih =>
    rw [List.forall_mem_cons] at blank
    have entered : s.enter {} = s := by
      rw [← fresh, enter_context]
    have skipped (next : Option Char) : s.step next c pos = s.enter {} := by
      simp [step, plain, fresh, stepPlain, stepStart, blank.1]
    rw [run, skipped, entered, ih blank.2]

/-- Blanks in front of a character that separates are of no account, either. -/
theorem Coherent.run_of_separates (coherent : s.Coherent) (plain : s.escaped = false)
    (start : s.settle.context.mode = .start) {gap : List Char} (blank : ∀ c ∈ gap, isBlank c)
    (apart : separates c) (after : Option Char) :
    s.run pos (gap ++ [c]) after = s.settle.stepStart after c (pos + gap.length) := by
  have taken {s : Scanner} (coherent : s.Coherent) (plain : s.escaped = false)
      (start : s.settle.context.mode = .start) (pos : Int) :
      s.step after c pos = s.settle.stepStart after c pos := by
    rw [coherent.step_eq plain (coherent.continues_of_separates apart), stepPlain, start]
  cases gap with
  | nil => simpa [run] using taken coherent plain start pos
  | cons first rest =>
    rw [List.forall_mem_cons] at blank
    have settled (next : Option Char) : s.step next first pos = s.settle.enter {} :=
      coherent.step_of_isBlank plain start blank.1 next
    obtain ⟨_, plainSettled⟩ := coherent.settle plain
    have fresh : (s.settle.enter {}).Coherent := by
      rw [← settled none]
      exact coherent.step ..
    have between : (s.settle.enter {}).context = {} := rfl
    have same : (s.settle.enter {}).settle = s.settle.enter {} := settle_eq_self (.inl rfl)
    have skipped (after : Option Char) :
        (s.settle.enter {}).run (pos + 1) rest after = s.settle.enter {} :=
      run_of_isBlank between plainSettled blank.2 after
    have stands : pos + 1 + rest.length = pos + (first :: rest).length := by
      rw [List.length_cons]
      omega
    rw [List.cons_append, run, settled, run_append, skipped, run, run, List.head?_nil,
      Option.none_or, taken fresh plainSettled (by rw [same]; rfl), same, stands]
    rfl

/-- A closing parenthesis goes back to what is around the group. -/
theorem Coherent.run_closeParen (coherent : s.Coherent) (plain : s.escaped = false)
    (start : s.settle.context.mode = .start) {gap : List Char} (blank : ∀ c ∈ gap, isBlank c)
    (after : Option Char) : s.run pos (gap ++ [closeParen]) after =
      (s.settle.emit (.ofMark closeParen (some (pos + gap.length)))).pop :=
  coherent.run_of_separates plain start blank separates_closeParen after

/-! ## Quoted text -/

theorem step_of_quote (mode : s.context.mode = .quote) (plain : s.escaped = false)
    (next : Option Char) : s.step next c pos = s.stepQuote c pos := by
  simp [step, plain, mode, stepPlain]

/-- Text without its mark, a sigil or an escape mark is quoted as it is. -/
theorem run_quote {text : List Char} (mode : s.context.mode = .quote) (plain : s.escaped = false)
    (inert : ∀ c ∈ text, String.singleton c ≠ s.context.delimiter ∧ c ≠ sigil ∧ c ≠ escapeMark)
    (pos : Int) (after : Option Char) : s.run pos text after =
      { s with
        buffer := s.buffer ++ String.ofList text
        bufferPos := if s.buffer = "" ∧ text ≠ [] then some pos else s.bufferPos } := by
  induction text generalizing s pos with
  | nil => simp [run]
  | cons c rest ih =>
    rw [List.forall_mem_cons] at inert
    have kept : s.step (rest.head?.or after) c pos = s.keep c pos := by
      simp [step_of_quote mode plain, stepQuote, inert.1]
    have built : s.buffer.push c ++ String.ofList rest = s.buffer ++ String.ofList (c :: rest) := by
      rw [String.ofList_cons, String.push_eq_append, String.append_assoc]
    rw [run, kept, @ih (s.keep c pos) mode plain inert.2]
    simp [keep, built]

/-- Up to a symbol quoted text is one fragment. -/
theorem endFragment_run_quote {text : List Char} (mode : s.context.mode = .quote)
    (plain : s.escaped = false) (empty : s.buffer = "")
    (inert : ∀ c ∈ text, String.singleton c ≠ s.context.delimiter ∧ c ≠ sigil ∧ c ≠ escapeMark)
    (c : Char) (pos : Int) (after : Option Char) :
    (s.run pos text after).endFragment c (pos + text.length) =
      { s with
        bufferPos := none
        emitted := .ofMark c (some (pos + text.length)) ::
          ⟨.fragment, String.ofList text, some pos, false, false⟩ :: s.emitted } := by
  rw [run_quote mode plain inert]
  by_cases nothing : text = []
  · simp [endFragment, flush, emit, empty, nothing]
  · simp [endFragment, flush, emit, empty, nothing]

/-- Quoted text up to a substituted group puts the quote on the stack. -/
theorem run_quote_subshell {text : List Char} (mode : s.context.mode = .quote)
    (plain : s.escaped = false) (empty : s.buffer = "")
    (inert : ∀ c ∈ text, String.singleton c ≠ s.context.delimiter ∧ c ≠ sigil ∧ c ≠ escapeMark)
    (after : Option Char) : s.run pos (text ++ [sigil, openParen]) after =
      { s with
        context := {}
        stack := s.context :: s.stack
        bufferPos := none
        emitted := .ofMark openParen (some (pos + text.length + 1)) ::
          .ofMark sigil (some (pos + text.length)) ::
          ⟨.fragment, String.ofList text, some pos, false, false⟩ :: s.emitted } := by
  have fragment := endFragment_run_quote mode plain empty inert sigil pos (some sigil)
  have read := run_quote mode plain inert pos (some sigil)
  have ahead : [sigil, openParen].head?.or after = some sigil := rfl
  rw [run_append, ahead]
  generalize s.run pos text (some sigil) = quoted at fragment read
  have context : quoted.context = s.context := by rw [read]
  have opened (next : Option Char) : quoted.step next sigil (pos + text.length) =
      ((quoted.endFragment sigil (pos + text.length)).push s.context).enter
        (.ofMode .substitution) := by
    rw [step_of_quote (context ▸ mode) (by rw [read, plain]), ← context]
    rfl
  have noName : ¬ (isAlphanumeric openParen ∨ openParen ∈ nameMarks) := by decide +kernel
  rw [run, opened, fragment, run, run]
  simp [step, enter, push, plain, ScanContext.ofMode, stepSubstitution, noName, empty, openSubshell,
    emit]

/-- Quoted text up to its mark ends the quote. -/
theorem run_quote_mark {text : List Char} (mode : s.context.mode = .quote)
    (plain : s.escaped = false) (empty : s.buffer = "")
    (inert : ∀ c ∈ text, String.singleton c ≠ s.context.delimiter ∧ c ≠ sigil ∧ c ≠ escapeMark)
    (closes : String.singleton c = s.context.delimiter) (apart : c ≠ sigil ∧ c ≠ escapeMark)
    (after : Option Char) : s.run pos (text ++ [c]) after =
      { s with
        context := {}
        bufferPos := none
        emitted := .ofMark c (some (pos + text.length)) ::
          ⟨.fragment, String.ofList text, some pos, false, false⟩ :: s.emitted } := by
  have fragment := endFragment_run_quote mode plain empty inert c pos (some c)
  have read := run_quote mode plain inert pos (some c)
  have ahead : [c].head?.or after = some c := rfl
  rw [run_append, ahead]
  generalize s.run pos text (some c) = quoted at fragment read
  have context : quoted.context = s.context := by rw [read]
  rw [run, run, step_of_quote (context ▸ mode) (by rw [read, plain]), stepQuote, if_neg apart.2,
    if_neg apart.1, context, if_neg (not_not_intro closes), fragment]
  rfl

/-! ## Signs at the end -/

theorem step_of_ne_assign (noSign : c ≠ assign) (next other : Option Char) :
    s.step next c pos = s.step other c pos := by
  have start (s : Scanner) : s.stepStart next c pos = s.stepStart other c pos := by
    simp only [stepStart, noSign, ↓reduceIte]
  have plain (s : Scanner) : s.stepPlain next c pos = s.stepPlain other c pos := by
    simp only [stepPlain, stepLiteral, stepWildcard, stepOperator, start]
  have resumed (stack : List ScanContext) (s : Scanner) :
      s.resume next c pos stack = s.resume other c pos stack := by
    induction stack generalizing s with
    | nil => simp only [resume, start]
    | cons outer rest ih => simp only [resume, plain, ih]
  simp only [step, stepSubstitution, plain, resumed]

/-- What comes next matters for a sign only. -/
theorem Coherent.step_next (coherent : s.Coherent) (c : Char) (pos : Int) :
    (∀ next other, s.step next c pos = s.step other c pos) ∨
      ∀ next, s.step next c pos = (s.settle.emit (s.settle.assignToken next pos)).enter {} := by
  by_cases sign : c = assign
  case neg => exact .inl (step_of_ne_assign sign)
  subst sign
  cases escaped : s.escaped with
  | true =>
    apply Or.inl
    intro next other
    rw [Scanner.step, Scanner.step, if_pos escaped, if_pos escaped]
  | false =>
    have taken (next : Option Char) :
        s.step next assign pos = s.settle.stepPlain next assign pos :=
      coherent.step_eq escaped (coherent.continues_of_separates separates_assign) next pos
    simp only [taken, stepPlain]
    rcases coherent.context_settle with (start | quote) | comment
    · rw [start]
      exact .inr fun _ => rfl
    · rw [quote.1]
      exact .inl fun _ _ => rfl
    · rw [settle_eq_self (.inr (.inr comment)), comment]
      exact .inl fun _ _ => rfl

/-- What comes after a text matters only if the text ends with a sign and no blank comes. -/
theorem Coherent.run_after (coherent : s.Coherent) {text : List Char} {after : Option Char}
    (apart : text.getLast? ≠ some assign ∨ ∀ c ∈ after, isBlank c) :
    s.run pos text after = s.run pos text := by
  rcases List.eq_nil_or_concat text with rfl | ⟨init, c, rfl⟩
  · rfl
  have last (after : Option Char) : s.run pos (init ++ [c]) after =
      (s.run pos init (some c)).step after c (pos + init.length) := by
    rw [run_append, run, run, List.head?_nil, Option.none_or]
    rfl
  have before : (s.run pos init (some c)).Coherent := coherent_run coherent ..
  rw [List.concat_eq_append, last, last]
  rcases apart with noSign | blank
  · have noSign : c ≠ assign := by simpa using noSign
    exact step_of_ne_assign noSign after none
  rcases before.step_next c (pos + init.length) with same | signed
  · exact same after none
  · have unjoined : after.any (fun c => !isBlank c && c != commentMark) = false := by
      cases after with
      | none => rfl
      | some c => simp [blank c rfl]
    simp only [signed, assignToken, unjoined, Option.any_none]

end Scanner

end ShellLine
