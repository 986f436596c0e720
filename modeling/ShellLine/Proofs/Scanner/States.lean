import ShellLine.Proofs.Scanner.Escapes
import ShellLine.Proofs.Scanner.Layout

/-! # The states of a scan

How the parts of a state belong together, and which places in the text they point at. What is built
of a token is known from the layout of the text, `Tracks`, and what is gone back to after it from
the marks that opened it, `Anchors`. Coherence ties the one to the other by the mode, so that each
of them is kept by every step. `consistent_of_mem_trace` says what this comes to in all the states
that a line goes through.
-/

namespace ShellLine

open Alphabet Text

/-! ## Where contexts were opened -/

/-- The context was opened by the character of the text at its position: by a quote mark, or else,
between tokens, by a sigil or a parenthesis. -/
inductive ScanContext.Anchored (text : List Char) : ScanContext → Prop
  | group {pos : Nat} {c : Char} :
    text[pos]? = some c → c = sigil ∨ c = openParen → Anchored text (.group pos)
  | quote {pos : Nat} {mark : Char} :
    text[pos]? = some mark → mark ∈ quoteMarks → Anchored text (.quote mark pos)

theorem ScanContext.Anchored.exists_mark {text : List Char} {context : ScanContext}
    (anchored : context.Anchored text) (mode : context.mode = .quote) :
    ∃ (mark : Char) (pos : Nat), context = .quote mark pos ∧ text[pos]? = some mark := by
  cases anchored with
  | group => cases mode
  | quote found _ => exact ⟨_, _, rfl, found⟩

namespace Scanner

/-- The quote that is being read and everything on the stack was opened in the text. -/
structure Anchors (text : List Char) (s : Scanner) : Prop where
  quote : s.context.mode = .quote → s.context.Anchored text
  stack : ∀ outer ∈ s.stack, outer.Anchored text

section Anchors

variable {text : List Char} {s after : Scanner} {c : Char} {stop : Nat}

theorem anchors_fresh (text : List Char) : Anchors text {} :=
  ⟨nofun, nofun⟩

theorem Anchors.congr (anchors : s.Anchors text) (context : after.context = s.context)
    (stack : after.stack = s.stack) : after.Anchors text :=
  ⟨context ▸ anchors.quote, stack ▸ anchors.stack⟩

/-- Outside quotes only the stack matters. -/
theorem Anchors.inMode (mode : ScanMode) (inMode : after.context.mode = mode) (apart : mode ≠ .quote)
    (stack : ∀ outer ∈ after.stack, outer.Anchored text) : after.Anchors text :=
  ⟨fun quote => absurd (inMode.symm.trans quote) apart, stack⟩

theorem Anchors.pop (stack : ∀ outer ∈ s.stack, outer.Anchored text) : s.pop.Anchors text := by
  unfold Scanner.pop
  split
  case h_1 => exact .inMode .start rfl (by decide) stack
  case h_2 outer rest same =>
    rw [same] at stack
    exact ⟨fun _ => stack outer List.mem_cons_self,
      fun other member => stack other (List.mem_cons_of_mem _ member)⟩

theorem Anchors.settle (anchors : s.Anchors text) : s.settle.Anchors text := by
  cases mode : s.context.mode with
  | literal =>
    rw [settle_of_literal mode]
    exact .inMode .start rfl (by decide) anchors.stack
  | wildcard =>
    rw [settle_of_wildcard mode]
    exact .inMode .start rfl (by decide) anchors.stack
  | operator =>
    rw [settle_of_operator mode]
    exact .inMode .start rfl (by decide) anchors.stack
  | substitution =>
    rw [settle_of_substitution mode]
    exact .pop (by rw [flushName_stack]; exact anchors.stack)
  | start => rwa [settle_eq_self (.inl mode)]
  | quote => rwa [settle_eq_self (.inr (.inl mode))]
  | comment => rwa [settle_eq_self (.inr (.inr mode))]

theorem Anchors.stepStart (anchors : s.Anchors text) (found : text[stop]? = some c)
    (next : Option Char) : (s.stepStart next c stop).Anchors text := by
  have pushed (opens : c = sigil ∨ c = openParen) :
      ∀ outer ∈ ScanContext.group stop :: s.stack, outer.Anchored text :=
    List.forall_mem_cons.mpr ⟨.group found opens, anchors.stack⟩
  refine s.stepStart_cases next c stop ?blank ?escape ?quote ?operator ?assign ?symbol ?comment
    ?sigil ?opening ?closing ?star ?word
  case quote => exact fun mark => ⟨fun _ => .quote found mark, anchors.stack⟩
  case sigil => exact fun opens => .inMode .substitution rfl (by decide) (pushed (.inl opens))
  case opening => exact fun opens => .inMode .start rfl (by decide) (pushed (.inr opens))
  case closing => exact fun _ => .pop anchors.stack
  case escape => exact fun _ => .inMode .literal rfl (by decide) anchors.stack
  case operator => exact fun _ => .inMode .operator rfl (by decide) anchors.stack
  case comment => exact fun _ => .inMode .comment rfl (by decide) anchors.stack
  case star => exact fun _ => .inMode .wildcard rfl (by decide) anchors.stack
  case word => exact fun _ _ _ _ _ => .inMode .literal rfl (by decide) anchors.stack
  all_goals
    intros
    exact .inMode .start rfl (by decide) anchors.stack

theorem Anchors.stepQuote (anchors : s.Anchors text) (quote : s.context.IsQuote) (pos : Int) :
    (s.stepQuote c pos).Anchors text := by
  refine s.stepQuote_cases c pos ?escape ?sigil ?text ?closing
  case escape => exact fun _ => anchors.congr rfl rfl
  case text => exact fun _ _ _ => anchors.congr rfl rfl
  case closing => exact fun _ => .inMode .start rfl (by decide) anchors.stack
  case sigil =>
    -- what is resumed after the name is the quote itself, which keeps the place of its mark
    exact fun _ => .inMode .substitution rfl (by decide)
      (List.forall_mem_cons.mpr ⟨anchors.quote quote.1, anchors.stack⟩)

/-- A step opens contexts where the text has the marks that open them. -/
theorem Anchors.step (anchors : s.Anchors text) (coherent : s.Coherent)
    (found : text[stop]? = some c) (next : Option Char) : (s.step next c stop).Anchors text := by
  refine coherent.step_cases ?escaped ?goesOn ?start ?quote ?comment
  case escaped => exact fun _ => anchors.congr rfl rfl
  case goesOn =>
    intro plain goesOn
    refine step_cases_of_continues next plain goesOn ?keep ?escape ?star ?double ?subshell
    case keep => exact fun _ => anchors.congr rfl rfl
    case escape => exact fun _ _ => anchors.congr rfl rfl
    case star => exact fun _ _ => .inMode .wildcard rfl (by decide) anchors.stack
    case double => exact fun _ _ => .inMode .start rfl (by decide) anchors.stack
    case subshell => exact fun _ _ _ => .inMode .start rfl (by decide) anchors.stack
  case start => exact fun _ _ _ => anchors.settle.stepStart found next
  case quote => exact fun _ quote => anchors.settle.stepQuote quote stop
  case comment =>
    intro _ mode
    unfold stepComment
    split
    case isTrue => exact .inMode .start rfl (by decide) anchors.stack
    case isFalse => exact anchors.congr rfl rfl

end Anchors

/-- Reading a piece of a text from a fresh start lays it out and opens contexts at their marks. -/
theorem tracks_and_anchors_run {text read : List Char} {start : Nat} (after : Option Char)
    (ahead : read <+: text.drop start) :
    (({} : Scanner).run start read after).Tracks start read ∧
      (({} : Scanner).run start read after).Anchors text := by
  refine (coherent_fresh.run_induction_within
    (motive := fun before s => s.Tracks start before ∧ s.Anchors text) start read after
    ⟨⟨[], .nil, rfl, fun built => absurd rfl built⟩, anchors_fresh text⟩ ?_).2
  rintro before s c rest split coherent ⟨tracks, anchors⟩
  have found : text[start + before.length]? = some c := by
    obtain ⟨more, same⟩ := ahead
    rw [← List.getElem?_drop, ← same, split]
    simp
  exact ⟨tracks.step coherent _ c, anchors.step coherent found _⟩

/-! ## States -/

/-- How the parts of a state belong together after the character at an index of the text. -/
structure Consistent (text : List Char) (index : Nat) (s : Scanner) : Prop where
  /-- Between tokens nothing is built. -/
  empty : s.context.mode = .start → s.buffer = ""
  /-- Words, operators and comments have a first character. -/
  built : s.context.mode ∈ [ScanMode.literal, .wildcard, .operator, .comment] → s.buffer ≠ ""
  /-- Only quotes are resumed, and places between tokens, and each of them was opened in the
  text. -/
  stack : ∀ outer ∈ s.stack, outer.Anchored text
  /-- There is something to resume after a name. -/
  resumes : s.context.mode = .substitution → s.stack ≠ []
  /-- An escape is pending only after its mark, in a word or in quoted text. -/
  escaped : s.escaped → s.context.mode ∈ [ScanMode.literal, .wildcard, .quote] ∧
    s.buffer.toList.getLast? = some escapeMark
  /-- What is built is the text from its position to the index, after all finished tokens. -/
  buffer : s.buffer ≠ "" → ∃ start : Nat, s.bufferPos = some (start : Int) ∧
    s.buffer.toList = (text.take (index + 1)).drop start ∧
    ∀ token ∈ s.emitted, ∃ stop ≤ (start : Int), token.endPos = some stop
  /-- A quote waits for the mark that the text has at its position. -/
  quote : s.context.mode = .quote → ∃ (mark : Char) (pos : Nat),
    s.context = .quote mark pos ∧ text[pos]? = some mark
  /-- A character that does not go on with what is built is read by a mode that hands it to no
  other one, after at most one context was taken off the stack. -/
  handover : ∀ (next : Option Char) (c : Char) (pos : Int),
    s.escaped = false → s.continues c = false →
      s.step next c pos = s.settle.stepPlain next c pos ∧
      s.settle.context.mode ∈ [ScanMode.start, .quote, .comment] ∧
      s.settle.stack = if s.context.mode = .substitution then s.stack.tail else s.stack

section States

variable {text : List Char} {index : Nat} {s : Scanner}

/-- Settling a token takes a context off the stack at the end of a name, and nowhere else. -/
theorem Coherent.stack_settle (coherent : s.Coherent) :
    s.settle.stack = if s.context.mode = .substitution then s.stack.tail else s.stack := by
  have fits := coherent.fits
  cases mode : s.context.mode with
  | substitution =>
    simp only [Fits, mode] at fits
    obtain ⟨outer, rest, stack⟩ := List.exists_cons_of_ne_nil fits.1
    rw [settle_of_substitution mode, if_pos rfl]
    simp [Scanner.pop, stack]
  | start => rw [settle_eq_self (.inl mode), if_neg (by decide)]
  | quote => rw [settle_eq_self (.inr (.inl mode)), if_neg (by decide)]
  | comment => rw [settle_eq_self (.inr (.inr mode)), if_neg (by decide)]
  | literal =>
    rw [settle_of_literal mode, if_neg (by decide)]
    rfl
  | wildcard =>
    rw [settle_of_wildcard mode, if_neg (by decide)]
    rfl
  | operator =>
    rw [settle_of_operator mode, if_neg (by decide)]
    rfl

theorem Coherent.mode_settle (coherent : s.Coherent) :
    s.settle.context.mode ∈ [ScanMode.start, .quote, .comment] := by
  rcases coherent.context_settle with (start | quote) | comment
  · simp [start]
  · simp [quote.1]
  · simp [settle_eq_self (.inr (.inr comment)), comment]

/-- What is built is the end of the text that has been read, and lies after the finished tokens. -/
theorem Tracks.buffer_eq {start : Nat} {leading read : List Char} (tracks : s.Tracks start read)
    (length : leading.length = start) (built : s.buffer ≠ "") :
    ∃ place : Nat, s.bufferPos = some (place : Int) ∧
      s.buffer.toList = (leading ++ read).drop place ∧
      ∀ token ∈ s.emitted, ∃ stop ≤ (place : Int), token.endPos = some stop := by
  obtain ⟨covered, laid, rfl, placed⟩ := tracks
  refine ⟨start + covered.length, by simpa using placed built, ?_, fun token member => ?_⟩
  · rw [← length, ← List.length_append, ← List.append_assoc, List.drop_left]
  · obtain ⟨before, behind, rfl, pos⟩ := laid.exists_split member
    refine ⟨start + before.length + token.value.length, ?_, by simp [Token.endPos, pos]⟩
    simp only [List.length_append, String.length_toList]
    omega

theorem Tracks.getLast?_buffer {start : Int} {read : List Char} {c : Char}
    (tracks : s.Tracks start (read ++ [c])) (built : s.buffer ≠ "") :
    s.buffer.toList.getLast? = some c := by
  obtain ⟨covered, _, same, _⟩ := tracks
  have last := congrArg List.getLast? same
  rw [List.getLast?_concat, List.getLast?_append] at last
  cases newest : s.buffer.toList.getLast? with
  | none => exact absurd (String.toList_eq_nil_iff.mp (List.getLast?_eq_none_iff.mp newest)) built
  | some newest => simpa [newest] using last.symm

/-- An escape is pending only right after an escape mark. -/
theorem eq_escapeMark_of_escaped {start : Int} {read : List Char} {c : Char} {after : Option Char}
    (escaped : (({} : Scanner).run start (read ++ [c]) after).escaped) : c = escapeMark := by
  have before := coherent_run coherent_fresh start read (some c)
  rw [run_append] at escaped
  refine Decidable.byContradiction fun noMark => ?_
  exact Bool.eq_false_iff.mp (before.escaped_of_ne_escapeMark noMark after _) escaped

/-- Only a character of a word or of quoted text is going to be escaped. -/
theorem Coherent.mode_of_escaped (coherent : s.Coherent) (escaped : s.escaped) :
    s.context.mode ∈ [ScanMode.literal, .wildcard, .quote] ∧ s.buffer ≠ "" := by
  have fits := coherent.fits
  cases mode : s.context.mode <;> simp_all [Fits]

theorem Coherent.consistent (coherent : s.Coherent) (anchors : s.Anchors text) {start : Nat}
    {leading read : List Char} {c : Char} (tracks : s.Tracks start (read ++ [c]))
    (length : leading.length = start) (taken : text.take (index + 1) = leading ++ (read ++ [c]))
    (marked : s.escaped → c = escapeMark) : s.Consistent text index where
  empty mode := by
    have fits := coherent.fits
    simp only [Fits, mode] at fits
    exact fits.1
  built inMode := by
    have fits := coherent.fits
    simp only [List.mem_cons, List.not_mem_nil, or_false] at inMode
    rcases inMode with mode | mode | mode | mode <;> simp only [Fits, mode] at fits
    · exact fits
    · exact fits
    · exact fits.1
    · exact fits.1
  stack := anchors.stack
  resumes mode := by
    have fits := coherent.fits
    simp only [Fits, mode] at fits
    exact fits.1
  escaped escaped := by
    obtain ⟨inMode, built⟩ := coherent.mode_of_escaped escaped
    refine ⟨inMode, ?_⟩
    rw [tracks.getLast?_buffer built, marked escaped]
  buffer built := taken ▸ tracks.buffer_eq length built
  quote mode := (anchors.quote mode).exists_mark mode
  handover next c pos plain apart :=
    ⟨coherent.step_eq plain apart next pos, coherent.mode_settle, coherent.stack_settle⟩

end States

end Scanner

/-- In the states that reading a line goes through, the parts belong together. -/
theorem consistent_of_mem_trace {tokenizer : Tokenizer} {c : Char} {pos : Int} {s : Scanner}
    (member : (c, pos, s) ∈ tokenizer.trace) :
    ∃ index : Nat, pos = index ∧ tokenizer.text.toList[index]? = some c ∧
      s.Consistent tokenizer.text.toList index := by
  rw [Tokenizer.trace] at member
  split at member
  case isTrue => cases member
  case isFalse =>
    obtain ⟨read, rest, split, rfl, rfl⟩ := Scanner.exists_of_mem_trace member
    obtain ⟨leading, trailing, length, _, _, same⟩ := exists_eq_append_strip tokenizer.text.toList
    have whole : tokenizer.text.toList = leading ++ (read ++ [c]) ++ (rest ++ trailing) := by
      rw [same, split]
      simp
    have ahead : read ++ [c] <+: tokenizer.text.toList.drop (leadingBlanks tokenizer.text.toList) :=
      .trans ⟨rest, by simp [split]⟩ (strip_prefix_drop _)
    obtain ⟨tracks, anchors⟩ := Scanner.tracks_and_anchors_run rest.head? ahead
    have coherent := Scanner.coherent_run Scanner.coherent_fresh
      (leadingBlanks tokenizer.text.toList) (read ++ [c]) rest.head?
    refine ⟨leading.length + read.length, by rw [length, Int.natCast_add], ?_, ?_⟩
    · rw [whole]
      simp
    · refine coherent.consistent anchors tracks length ?_ Scanner.eq_escapeMark_of_escaped
      rw [whole]
      exact List.take_left' (by simp [Nat.add_assoc])

/-- The state after the escape mark in ` "$(a\"`, where a word is built in a group in a quote. -/
theorem consistent_in_group :
    let s : Scanner :=
      { context := .ofMode .literal, stack := [.quote '"' 1], buffer := "a\\", bufferPos := some 4,
        escaped := true,
        emitted := [⟨.symbol, "(", some 3, false, false⟩, ⟨.symbol, "$", some 2, false, false⟩,
          ⟨.fragment, "", some 2, false, false⟩, ⟨.symbol, "\"", some 1, false, false⟩] }
    ('\\', 5, s) ∈ Tokenizer.trace { text := " \"$(a\\\"" } ∧
      ∃ index : Nat, (5 : Int) = index ∧ " \"$(a\\\"".toList[index]? = some '\\' ∧
        s.Consistent " \"$(a\\\"".toList index := by
  intro s
  have member : ('\\', 5, s) ∈ Tokenizer.trace { text := " \"$(a\\\"" } :=
    List.mem_of_getElem? (i := 4) rfl
  exact ⟨member, consistent_of_mem_trace member⟩

end ShellLine
