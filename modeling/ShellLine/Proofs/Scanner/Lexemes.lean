import ShellLine.Proofs.Scanner.Forms

/-! # Every token has its form

While a text is read, the token being built keeps to the form that its mode asks for, `Building`. A
character that does not go on with it ends it, so that what is finished takes up as much of the text
as its form allows. So every token of a line has the form of its kind: `lexeme_of_tokenize`.
-/

namespace ShellLine

open Alphabet Text

/-! ## Characters that end a token -/

/-- What goes on with a word without a star is a letter, a numeral, a path mark, a star or an escape
mark. -/
theorem continuesWord_of_continues {s : Scanner} {c : Char}
    (mode : s.context.mode = .literal ∨ s.context.mode = .wildcard) :
    s.continues c = (continuesWord c || c == escapeMark) := by
  rcases mode with mode | mode <;>
    simp [Scanner.continues, mode, continuesWord, Bool.or_assoc, Bool.or_comm (c == escapeMark)]

/-- The words of the language are no wildcards. -/
theorem star_not_mem_units_of_reserved :
    ∀ word ∈ reservedWords, .plain star ∉ units word.toList := by
  decide

/-! ## Tokens being built -/

/-- An escape is pending exactly if the last unit is. -/
def Escapes (buffer : String) (escaped : Bool) : Prop :=
  .pending ∈ units buffer.toList ↔ escaped

/-- A word so far, with an unescaped star in it or without one. -/
structure BuildsWord (buffer : String) (escaped starred : Bool) : Prop where
  escapes : Escapes buffer escaped
  shape : WordUnits (units buffer.toList)
  starred : .plain star ∈ units buffer.toList ↔ starred

/-- Quoted text so far. -/
structure BuildsText (delimiter buffer : String) (escaped : Bool) : Prop where
  escapes : Escapes buffer escaped
  shape : FragmentUnits delimiter (units buffer.toList)

section Buffers

variable {delimiter buffer : String} {starred : Bool} {c : Char}

theorem units_ne_nil (built : buffer ≠ "") : units buffer.toList ≠ [] := by
  intro none
  have text := flatMap_chars_units buffer.toList
  rw [none] at text
  exact built (String.toList_eq_nil_iff.mp text.symm)

theorem Escapes.push (escapes : Escapes buffer false) (noMark : c ≠ escapeMark) :
    units (buffer.push c).toList = units buffer.toList ++ [.plain c] ∧
      Escapes (buffer.push c) false := by
  have whole : .pending ∉ units buffer.toList := by simpa using mt escapes.mp
  have longer : units (buffer.push c).toList = units buffer.toList ++ [.plain c] := by
    rw [String.toList_push, units_append whole, units_singleton noMark]
  refine ⟨longer, ?_⟩
  rw [Escapes, longer]
  simp [whole]

theorem Escapes.pushMark (escapes : Escapes buffer false) :
    units (buffer.push escapeMark).toList = units buffer.toList ++ [.pending] ∧
      Escapes (buffer.push escapeMark) true := by
  have whole : .pending ∉ units buffer.toList := by simpa using mt escapes.mp
  have longer : units (buffer.push escapeMark).toList = units buffer.toList ++ [.pending] := by
    rw [String.toList_push, units_append whole, units_mark]
  refine ⟨longer, ?_⟩
  rw [Escapes, longer]
  simp

theorem Escapes.pushEscaped (escapes : Escapes buffer true) (c : Char) :
    ∃ init, units buffer.toList = init ++ [.pending] ∧
      units (buffer.push c).toList = init ++ [.escaped c] ∧ Escapes (buffer.push c) false := by
  obtain ⟨init, whole, same, escape⟩ := units_of_pending (escapes.mpr rfl)
  have longer : units (buffer.push c).toList = init ++ [.escaped c] := by
    rw [String.toList_push, escape]
  refine ⟨init, same, longer, ?_⟩
  rw [Escapes, longer]
  simp [whole]

theorem BuildsWord.push (word : BuildsWord buffer false starred) (built : buffer ≠ "")
    (noMark : c ≠ escapeMark) (later : continuesWord c) :
    BuildsWord (buffer.push c) false (starred || c == star) := by
  obtain ⟨longer, escapes⟩ := word.escapes.push noMark
  have shape : WordUnits (units buffer.toList ++ [.plain c]) :=
    word.shape.concat (units_ne_nil built) (by simpa using later)
  refine ⟨escapes, longer ▸ shape, ?_⟩
  rw [longer]
  simp [word.starred, @eq_comm _ c star]

theorem BuildsWord.pushMark (word : BuildsWord buffer false starred) (built : buffer ≠ "") :
    BuildsWord (buffer.push escapeMark) true starred := by
  obtain ⟨longer, escapes⟩ := word.escapes.pushMark
  refine ⟨escapes, longer ▸ word.shape.concat (units_ne_nil built) (by simp), ?_⟩
  rw [longer]
  simp [word.starred]

theorem BuildsWord.pushEscaped (word : BuildsWord buffer true starred) (c : Char) :
    BuildsWord (buffer.push c) false starred := by
  obtain ⟨init, same, longer, escapes⟩ := word.escapes.pushEscaped c
  refine ⟨escapes, longer ▸ (same ▸ word.shape).escape c, ?_⟩
  rw [← word.starred, same, longer]
  simp

theorem BuildsText.push (quoted : BuildsText delimiter buffer false) (noMark : c ≠ escapeMark)
    (inside : c ≠ sigil ∧ String.singleton c ≠ delimiter) :
    BuildsText delimiter (buffer.push c) false := by
  obtain ⟨longer, escapes⟩ := quoted.escapes.push noMark
  exact ⟨escapes, longer ▸ quoted.shape.concat (by simpa using inside)⟩

theorem BuildsText.pushMark (quoted : BuildsText delimiter buffer false) :
    BuildsText delimiter (buffer.push escapeMark) true := by
  obtain ⟨longer, escapes⟩ := quoted.escapes.pushMark
  exact ⟨escapes, longer ▸ quoted.shape.concat (by simp)⟩

theorem BuildsText.pushEscaped (quoted : BuildsText delimiter buffer true) (c : Char) :
    BuildsText delimiter (buffer.push c) false := by
  obtain ⟨init, same, longer, escapes⟩ := quoted.escapes.pushEscaped c
  exact ⟨escapes, longer ▸ (same ▸ quoted.shape).escape c⟩

theorem buildsText_empty (delimiter : String) : BuildsText delimiter "" false :=
  ⟨by simp [Escapes, units], by simp [FragmentUnits, units]⟩

/-- A word starts. -/
theorem buildsWord_first (first : startsWord c) :
    BuildsWord ("".push c) false (c == star) := by
  have noMark : c ≠ escapeMark := by
    rintro rfl
    exact absurd first (by decide)
  have single : units ("".push c).toList = [.plain c] := by
    rw [String.toList_push, String.toList_empty, List.nil_append, units_singleton noMark]
  refine ⟨?_, single ▸ wordUnits_singleton (by simpa using first), ?_⟩
  · rw [Escapes, single]
    simp
  · rw [single]
    simp [@eq_comm _ c star]

/-- A word starts with an escape. -/
theorem buildsWord_mark : BuildsWord ("".push escapeMark) true false := by
  have single : units ("".push escapeMark).toList = [.pending] := rfl
  refine ⟨?_, single ▸ wordUnits_singleton (by simp), ?_⟩
  · rw [Escapes, single]
    simp
  · rw [single]
    simp

end Buffers

namespace Scanner

/-- What has been built of a token keeps to the form of its kind. -/
def Building (start : Int) (read : List Char) (s : Scanner) : Prop :=
  match s.context.mode with
  | .start | .operator => True
  | .literal => BuildsWord s.buffer s.escaped false
  | .wildcard => BuildsWord s.buffer s.escaped true
  | .quote => BuildsText s.context.delimiter s.buffer s.escaped ∧
      ∃ last ∈ s.emitted.head?, last.leadsText
  | .substitution => (∀ c ∈ s.buffer.toList, continuesName c) ∧
      ∃ mark ∈ s.emitted.head?, mark.isMark sigil ∧
        mark.endPos = some (start + read.length - s.buffer.length)
  | .comment => s.buffer.toList.head? = some commentMark ∧ '\n' ∉ s.buffer.toList

/-- The finished tokens have their forms, and the token being built is about to. -/
structure Shaped (start : Int) (text read : List Char) (s : Scanner) : Prop where
  lexemes : Lexemes start text s.emitted
  building : s.Building start read

variable {start : Int} {text read rest : List Char} {s : Scanner} {c : Char}

/-! ## Finished tokens -/

/-- The token that a flush adds. -/
theorem emitted_flush {kind : TokenKind} {fallback : Option Int} (built : s.buffer ≠ "") :
    (s.flush kind fallback).emitted = ⟨kind, s.buffer, s.bufferPos, false, false⟩ :: s.emitted := by
  simp [flush, built]

/-- What is built ends where the text has been read to. -/
theorem Tracks.bufferPos_eq (tracks : s.Tracks start read) (built : s.buffer ≠ "") :
    s.bufferPos = some (start + read.length - s.buffer.length) := by
  obtain ⟨covered, _, rfl, placed⟩ := tracks
  rw [placed built, Option.some_inj, List.length_append, String.length_toList]
  omega

theorem Tracks.endPos_eq (tracks : s.Tracks start read) (built : s.buffer ≠ "")
    (kind : TokenKind) :
    (⟨kind, s.buffer, s.bufferPos, false, false⟩ : Token).endPos = some (start + read.length) := by
  simp only [Token.endPos, tracks.bufferPos_eq built, Option.map_some, Option.some_inj]
  omega

/-- A word that nothing goes on with has its form. -/
theorem wordForm_of_builds {starred : Bool} {kind : TokenKind} (tracks : s.Tracks start read)
    (built : s.buffer ≠ "") (word : BuildsWord s.buffer s.escaped starred)
    (reserved : kind = .controlOperator ↔ s.buffer ∈ reservedWords)
    (wildcard : kind = .wildcard ↔ starred)
    (ends : ∀ c ∈ text[read.length]?, (continuesWord c || c == escapeMark) = false)
    (whole : s.escaped → read.length = text.length) :
    WordForm start text ⟨kind, s.buffer, s.bufferPos, false, false⟩ := by
  have endPos := tracks.endPos_eq built kind
  refine ⟨word.shape, fun ahead behind split => ?_, reserved, wildcard.trans word.starred.symm, ?_⟩
  · have pending : .pending ∈ units s.buffer.toList := by simp [split]
    refine ⟨eq_nil_of_pending split, ?_⟩
    rw [endPos, whole (word.escapes.mp pending)]
  · intro c follows
    rw [follower_eq endPos] at follows
    simpa using ends c follows

/-- A token in the form of a word. -/
theorem lexeme_of_word {before : List Token} {kind : TokenKind} {value : String} {pos : Option Int}
    (word : WordForm start text ⟨kind, value, pos, false, false⟩)
    (isWord : kind = .literal ∨ kind = .controlOperator ∨ kind = .wildcard) :
    Lexeme start text before ⟨kind, value, pos, false, false⟩ := by
  rcases isWord with rfl | rfl | rfl <;> exact .of_form word rfl ⟨rfl, rfl⟩

/-- What is built of a token is that token where nothing goes on with it. -/
theorem Shaped.settle (shaped : s.Shaped start text read) (tracks : s.Tracks start read)
    (coherent : s.Coherent) (ends : ∀ c ∈ text[read.length]?, s.continues c = false)
    (whole : s.escaped → read.length = text.length) : Lexemes start text s.settle.emitted := by
  obtain ⟨lexemes, building⟩ := shaped
  have fits := coherent.fits
  cases mode : s.context.mode with
  | start => rwa [settle_eq_self (.inl mode)]
  | quote => rwa [settle_eq_self (.inr (.inl mode))]
  | comment => rwa [settle_eq_self (.inr (.inr mode))]
  | literal =>
    simp only [Fits, mode] at fits
    simp only [Building, mode] at building
    simp only [continuesWord_of_continues (.inl mode)] at ends
    rw [settle_of_literal mode]
    change Lexemes start text s.flushWord.emitted
    rw [flushWord, emitted_flush fits]
    refine .cons (lexeme_of_word (wordForm_of_builds tracks fits building ?_ ?_ ends whole) ?_) lexemes
    all_goals split <;> simp_all
  | wildcard =>
    simp only [Fits, mode] at fits
    simp only [Building, mode] at building
    simp only [continuesWord_of_continues (.inr mode)] at ends
    have starred : .plain star ∈ units s.buffer.toList := building.starred.mpr rfl
    have unreserved : s.buffer ∉ reservedWords := fun reserved =>
      star_not_mem_units_of_reserved _ reserved starred
    rw [settle_of_wildcard mode]
    change Lexemes start text (s.flush .wildcard).emitted
    rw [emitted_flush fits]
    refine .cons (lexeme_of_word (wordForm_of_builds tracks fits building ?_ ?_ ends whole) ?_) lexemes
    all_goals simp [unreserved]
  | operator =>
    simp only [continues, mode] at ends
    simp only [Fits, mode] at fits
    obtain ⟨built, _, mark, _, same, delimiter⟩ := fits
    rw [settle_of_operator mode]
    change Lexemes start text (s.flush .symbol).emitted
    rw [emitted_flush built]
    refine .cons (lexeme_operator (coherent.operator_of_mode mode) ?_) lexemes
    intro other _ single follows
    rw [follower_eq (tracks.endPos_eq built _)] at follows
    simpa [delimiter, single] using ends other follows
  | substitution =>
    simp only [Building, mode] at building
    obtain ⟨letters, mark, newest, isSigil, adjoins⟩ := building
    rw [settle_of_substitution mode, pop_emitted, flushName]
    by_cases empty : s.buffer = ""
    · rwa [if_pos empty]
    · rw [if_neg empty, emitted_flush empty]
      refine .cons (.of_form ?_ rfl ⟨rfl, rfl⟩) lexemes
      refine ⟨⟨mark, by simpa using newest, isSigil, ?_⟩, empty, letters, fun c follows => ?_⟩
      · rw [adjoins, tracks.bufferPos_eq empty]
      · rw [follower_eq (tracks.endPos_eq empty _)] at follows
        have apart := ends c follows
        simp only [continues, mode, Bool.or_eq_false_iff] at apart
        simpa [continuesName] using apart.1

/-- A comment is finished at the end of its line. -/
theorem Shaped.flushComment (shaped : s.Shaped start text read) (tracks : s.Tracks start read)
    (coherent : s.Coherent) (mode : s.context.mode = .comment)
    (ends : ∀ c ∈ text[read.length]?, c = '\n') : Lexemes start text (s.flush .comment).emitted := by
  obtain ⟨lexemes, building⟩ := shaped
  have fits := coherent.fits
  simp only [Fits, mode] at fits
  simp only [Building, mode] at building
  rw [emitted_flush fits.1]
  refine .cons (.of_form ⟨building.1, building.2, fun c follows => ?_⟩ rfl ⟨rfl, rfl⟩) lexemes
  rw [follower_eq (tracks.endPos_eq fits.1 _)] at follows
  exact ends c follows

/-! ## Contexts that are resumed -/

theorem leadsText_ofMark {pos : Option Int} (leads : c ∈ quoteMarks ++ [sigil, closeParen]) :
    (Token.ofMark c pos).leadsText := by
  simp only [quoteMarks, List.cons_append, List.nil_append, List.mem_cons, List.not_mem_nil,
    or_false] at leads
  rcases leads with rfl | rfl | rfl | rfl <;> rfl

/-- Nothing is built yet in a context that is resumed. -/
theorem building_pop (empty : s.buffer = "") (plain : s.escaped = false)
    (resumable : ∀ outer ∈ s.stack, outer.Resumable)
    (leads : ∃ last ∈ s.emitted.head?, last.leadsText) : s.pop.Building start read := by
  rcases resumable_pop resumable with mode | quote
  · simp only [Building, mode]
  · simp only [Building, quote.1, pop_buffer, pop_escaped, pop_emitted, empty, plain]
    exact ⟨buildsText_empty _, leads⟩

/-- Quoted text goes on where a name or a lone sigil ends. -/
theorem Shaped.building_settle (shaped : s.Shaped start text read) (coherent : s.Coherent)
    (plain : s.escaped = false) : s.settle.Building start read := by
  have building := shaped.building
  cases mode : s.context.mode with
  | start => rwa [settle_eq_self (.inl mode)]
  | quote => rwa [settle_eq_self (.inr (.inl mode))]
  | comment => rwa [settle_eq_self (.inr (.inr mode))]
  | literal =>
    rw [settle_of_literal mode]
    trivial
  | wildcard =>
    rw [settle_of_wildcard mode]
    trivial
  | operator =>
    rw [settle_of_operator mode]
    trivial
  | substitution =>
    simp only [Building, mode] at building
    obtain ⟨_, mark, newest, isSigil, _⟩ := building
    rw [settle_of_substitution mode]
    refine building_pop s.flushName_buffer (s.flushName_escaped.trans plain)
      (by rw [flushName_stack]; exact coherent.resumable) ?_
    unfold flushName
    split
    case isTrue => exact ⟨mark, newest, by simp [Token.leadsText, isSigil]⟩
    case isFalse => exact ⟨_, rfl, rfl⟩

/-! ## Whole steps -/

/-- A sign records what it touches. -/
theorem lexeme_assignToken (split : text = read ++ c :: rest) :
    Lexeme start text s.emitted.reverse (s.assignToken rest.head? (start + read.length)) := by
  have isSign : (s.assignToken rest.head? (start + read.length)).isMark assign :=
    s.isMark_assignToken ..
  have form : SymbolForm start text (s.assignToken rest.head? (start + read.length)) := by
    have known : String.singleton assign ∈ symbolValues := by decide
    refine ⟨known, fun mark direction same => ?_⟩
    exact absurd (String.singleton_inj.mp same ▸ direction) (by decide)
  have ends : (s.assignToken rest.head? (start + read.length)).endPos =
      some (start + (read.length + 1 : Nat)) := by
    simp [Token.endPos, assignToken, Int.add_assoc]
  refine ⟨form, ?_, ?_⟩
  · rw [isSign, List.getLast?_reverse]
    cases newest : s.emitted.head? <;> simp [assignToken, newest]
  · have after : text[read.length + 1]? = rest.head? := by
      rw [split, List.getElem?_append_right (by omega), Nat.add_sub_cancel_left, List.getElem?_cons_succ,
        List.head?_eq_getElem?]
    rw [isSign, follower_eq ends, after]
    rfl

theorem shaped_stepStart (lexemes : Lexemes start text s.emitted) (empty : s.buffer = "")
    (plain : s.escaped = false) (resumable : ∀ outer ∈ s.stack, outer.Resumable)
    (split : text = read ++ c :: rest) :
    (s.stepStart rest.head? c (start + read.length)).Shaped start text (read ++ [c]) := by
  have single (mark : c ∈ quoteMarks ++ [semicolon, pipe, sigil, openParen, closeParen]) :
      Lexemes start text (s.emit (.ofMark c (some (start + read.length)))).emitted :=
    .cons (lexeme_ofMark mark) lexemes
  refine s.stepStart_cases rest.head? c _ ?blank ?escape ?quote ?operator ?assign ?symbol ?comment
    ?sigil ?opening ?closing ?star ?word
  case blank => exact fun _ => ⟨lexemes, trivial⟩
  case operator => exact fun _ => ⟨lexemes, trivial⟩
  case escape =>
    rintro rfl
    refine ⟨lexemes, ?_⟩
    change BuildsWord (s.buffer.push escapeMark) true false
    rw [empty]
    exact buildsWord_mark
  case quote =>
    intro mark
    refine ⟨single (List.mem_append_left _ mark), ?_, _, rfl,
      leadsText_ofMark (List.mem_append_left _ mark)⟩
    change BuildsText (String.singleton c) s.buffer s.escaped
    rw [empty, plain]
    exact buildsText_empty _
  case assign => exact fun _ => ⟨.cons (lexeme_assignToken split) lexemes, trivial⟩
  case symbol =>
    intro symbol noSign
    refine ⟨single ?_, trivial⟩
    simp only [plainSymbols, List.mem_cons, List.not_mem_nil, or_false] at symbol
    rcases symbol with rfl | rfl | rfl
    · decide
    · exact absurd rfl noSign
    · decide
  case comment =>
    rintro rfl
    refine ⟨lexemes, ?_⟩
    change (s.buffer.push commentMark).toList.head? = _ ∧ _ ∉ (s.buffer.push commentMark).toList
    rw [empty]
    decide
  case sigil =>
    rintro rfl
    refine ⟨single (by decide), ?_, _, rfl, isMark_ofMark _ _, ?_⟩
    · change ∀ c ∈ s.buffer.toList, continuesName c
      simp [empty]
    · change (Token.ofMark sigil (some (start + read.length))).endPos =
        some (start + (read ++ [sigil]).length - s.buffer.length)
      simp [Token.endPos, Token.ofMark, empty, Int.add_assoc]
  case opening =>
    rintro rfl
    exact ⟨single (by decide), trivial⟩
  case closing =>
    rintro rfl
    refine ⟨?_, building_pop empty plain resumable ⟨_, rfl, leadsText_ofMark (by decide)⟩⟩
    rw [pop_emitted]
    exact single (by decide)
  case star =>
    rintro rfl
    refine ⟨lexemes, ?_⟩
    change BuildsWord (s.buffer.push Alphabet.star) s.escaped true
    rw [empty, plain]
    exact buildsWord_first (by decide)
  case word =>
    intro noBlank noQuote noDirection noSymbol others
    refine ⟨lexemes, ?_⟩
    change BuildsWord (s.buffer.push c) s.escaped false
    simp only [List.mem_cons, List.not_mem_nil, or_false, not_or] at others
    have noStar : (c == Alphabet.star) = false := by simpa using others.2.2.2.2.2
    have first : startsWord c := by
      simp [startsWord, noBlank, noQuote, noDirection, noSymbol, others]
    have word := buildsWord_first first
    rw [noStar] at word
    rwa [empty, plain]

/-- Text is finished by a sigil or by the mark that quotes it. -/
theorem lexemes_endFragment (shaped : s.Shaped start text read) (nests : s.Nests)
    (quote : s.context.IsQuote) (plain : s.escaped = false)
    (mark : c ∈ quoteMarks ++ [semicolon, pipe, sigil, openParen, closeParen]) :
    Lexemes start text (s.endFragment c (start + read.length)).emitted := by
  obtain ⟨lexemes, building⟩ := shaped
  simp only [Building, quote.1] at building
  obtain ⟨quoted, last, newest, leads⟩ := building
  obtain ⟨around, opened, _⟩ : ∃ around, unclosed s.tokens = s.context.openingMark :: around ∧
      Encloses s.stack around := by
    simpa only [Nests, Opens, quote.1] using nests
  have form (token : Token) (value : token.value = s.buffer) :
      FragmentForm s.emitted.reverse token := by
    refine ⟨⟨s.context.openingMark, ?_, quote.opensQuote, ?_⟩, ?_, last, ?_, leads⟩
    · rw [← tokens, opened]
      rfl
    · rw [value]
      exact quoted.shape
    · rw [value]
      exact fun pending => absurd (quoted.escapes.mp pending) (by simp [plain])
    · rwa [List.getLast?_reverse]
  exact .cons (lexeme_ofMark mark) (.cons (.of_form (form _ rfl) rfl ⟨rfl, rfl⟩) lexemes)

theorem shaped_stepQuote (shaped : s.Shaped start text read) (nests : s.Nests)
    (quote : s.context.IsQuote) (plain : s.escaped = false) :
    (s.stepQuote c (start + read.length)).Shaped start text (read ++ [c]) := by
  have fragment (mark : c ∈ quoteMarks ++ [semicolon, pipe, sigil, openParen, closeParen]) :
      Lexemes start text (s.endFragment c (start + read.length)).emitted :=
    lexemes_endFragment shaped nests quote plain mark
  obtain ⟨lexemes, building⟩ := shaped
  simp only [Building, quote.1, plain] at building
  obtain ⟨quoted, leads⟩ := building
  refine s.stepQuote_cases c _ ?escape ?sigil ?text ?closing
  case escape =>
    rintro rfl
    refine ⟨lexemes, ?_⟩
    simp only [Building, keepEscape, keep, quote.1]
    exact ⟨quoted.pushMark, leads⟩
  case sigil =>
    rintro rfl
    refine ⟨fragment (by decide), ?_, _, rfl, isMark_ofMark _ _, ?_⟩
    · change ∀ c ∈ "".toList, continuesName c
      simp
    · change (Token.ofMark sigil (some (start + read.length))).endPos =
        some (start + (read ++ [sigil]).length - "".length)
      simp [Token.endPos, Token.ofMark, Int.add_assoc]
  case text =>
    intro inside noMark noSigil
    refine ⟨lexemes, ?_⟩
    simp only [Building, keep, quote.1, plain]
    exact ⟨quoted.push noMark ⟨noSigil, inside⟩, leads⟩
  case closing =>
    intro same
    obtain ⟨mark, member, delimiter⟩ := quote.2
    obtain rfl : c = mark := String.singleton_inj.mp (same.trans delimiter)
    exact ⟨fragment (List.mem_append_left _ member), trivial⟩

/-- A character that is escaped belongs to the token being built, whatever it is. -/
theorem Shaped.escaped (shaped : s.Shaped start text read) (coherent : s.Coherent)
    (escaped : s.escaped) (pos : Int) :
    Shaped start text (read ++ [c]) { s.keep c pos with escaped := false } := by
  obtain ⟨lexemes, building⟩ := shaped
  have fits := coherent.fits
  refine ⟨lexemes, ?_⟩
  cases mode : s.context.mode with
  | literal =>
    simp only [Building, mode, escaped] at building
    simp only [Building, keep, mode]
    exact building.pushEscaped c
  | wildcard =>
    simp only [Building, mode, escaped] at building
    simp only [Building, keep, mode]
    exact building.pushEscaped c
  | quote =>
    simp only [Building, mode, escaped] at building
    simp only [Building, keep, mode]
    exact ⟨building.1.pushEscaped c, building.2⟩
  | start => simp [Fits, mode, escaped] at fits
  | substitution => simp [Fits, mode, escaped] at fits
  | operator => simp [Fits, mode, escaped] at fits
  | comment => simp [Fits, mode, escaped] at fits

/-- A letter, a numeral or a path mark is neither a star nor an escape mark. -/
theorem apart_of_letter (letter : isAlphanumeric c ∨ c ∈ pathMarks) :
    c ≠ star ∧ c ≠ escapeMark := by
  have apart {mark : Char} (same : mark = star ∨ mark = escapeMark) :
      ¬ (isAlphanumeric mark ∨ mark ∈ pathMarks) := by
    rcases same with rfl | rfl <;> decide +kernel
  exact ⟨fun same => apart (.inl same) letter, fun same => apart (.inr same) letter⟩

theorem Shaped.step_of_continues (shaped : s.Shaped start text read)
    (coherent : s.Coherent) (plain : s.escaped = false) (goesOn : s.continues c)
    (next : Option Char) :
    (s.step next c (start + read.length)).Shaped start text (read ++ [c]) := by
  obtain ⟨lexemes, building⟩ := shaped
  have fits := coherent.fits
  refine step_cases_of_class next plain goesOn ?letter ?pattern ?name ?escape ?star ?double ?subshell
  case letter =>
    intro mode letter
    obtain ⟨noStar, noMark⟩ := apart_of_letter letter
    simp only [Fits, mode] at fits
    simp only [Building, mode, plain] at building
    have later : continuesWord c := by
      simp only [continuesWord, Bool.or_eq_true, List.contains_eq_mem, decide_eq_true_eq]
      exact .inl letter
    have word := building.push fits noMark later
    have starless : (false || c == Alphabet.star) = false := by simpa using noStar
    rw [starless] at word
    refine ⟨lexemes, ?_⟩
    simpa only [Building, keep, mode, plain] using word
  case pattern =>
    intro mode continued
    have noMark : c ≠ escapeMark := by
      rcases or_assoc.mpr continued with letter | rfl
      · exact (apart_of_letter letter).2
      · decide
    simp only [Fits, mode] at fits
    simp only [Building, mode, plain] at building
    have later : continuesWord c := by simpa [continuesWord, or_assoc] using continued
    refine ⟨lexemes, ?_⟩
    simpa only [Building, keep, mode, plain, Bool.true_or] using building.push fits noMark later
  case name =>
    intro mode letter
    simp only [Building, mode] at building
    obtain ⟨letters, mark, newest, isSigil, adjoins⟩ := building
    refine ⟨lexemes, ?_⟩
    simp only [Building, keep, mode]
    refine ⟨?_, mark, newest, isSigil, ?_⟩
    · rw [String.toList_push, List.forall_mem_append]
      exact ⟨letters, by simpa [continuesName] using letter⟩
    · rw [adjoins, Option.some_inj, List.length_append, String.length_push, List.length_singleton]
      omega
  case escape =>
    rintro (mode | mode) rfl
    all_goals
      simp only [Fits, mode] at fits
      simp only [Building, mode, plain] at building
      refine ⟨lexemes, ?_⟩
      simp only [Building, keepEscape, keep, mode]
      exact building.pushMark fits
  case star =>
    rintro mode rfl
    simp only [Fits, mode] at fits
    simp only [Building, mode, plain] at building
    have word := building.push (c := Alphabet.star) fits (by decide) (by decide +kernel)
    refine ⟨lexemes, ?_⟩
    change BuildsWord (s.buffer.push Alphabet.star) s.escaped true
    rwa [plain]
  case double =>
    intro mode same
    have doubled : (s.keep c (start + read.length)).buffer ∈ redirectOperators :=
      coherent.operator_of_double mode same
    refine ⟨.cons (lexeme_operator doubled fun mark _ single => ?_) lexemes, trivial⟩
    -- a doubled operator is no single mark
    simp only [Fits, mode] at fits
    have length := congrArg String.length single
    have built : s.buffer.length ≠ 0 := by simpa using fits.1
    simp only [keep, String.length_push, String.length_singleton] at length
    omega
  case subshell =>
    rintro mode rfl empty
    exact ⟨.cons (lexeme_ofMark (by decide)) lexemes, trivial⟩

/-- A step that reads the next character of the text keeps the tokens in their forms. -/
theorem Shaped.step (shaped : s.Shaped start text read) (tracks : s.Tracks start read)
    (nests : s.Nests) (coherent : s.Coherent) (split : text = read ++ c :: rest) :
    (s.step rest.head? c (start + read.length)).Shaped start text (read ++ [c]) := by
  have found : text[read.length]? = some c := by simp [split]
  have settled (plain : s.escaped = false) (apart : s.continues c = false) :
      Lexemes start text s.settle.emitted :=
    shaped.settle tracks coherent (by simpa [found] using apart) (by simp [plain])
  refine coherent.step_cases_apart ?escaped ?goesOn ?start ?quote ?comment
  case escaped => exact fun escaped => shaped.escaped coherent escaped _
  case goesOn => exact fun plain goesOn => shaped.step_of_continues coherent plain goesOn _
  case start =>
    intro plain apart mode empty
    obtain ⟨later, plainLater⟩ := coherent.settle plain
    exact shaped_stepStart (settled plain apart) empty plainLater later.resumable split
  case quote =>
    intro plain apart quote
    exact shaped_stepQuote ⟨settled plain apart, shaped.building_settle coherent plain⟩
      (nests.settle coherent) quote (coherent.settle plain).2
  case comment =>
    intro plain mode
    unfold stepComment
    split
    case isTrue newline =>
      exact ⟨shaped.flushComment tracks coherent mode (by simpa [found] using newline), trivial⟩
    case isFalse inLine =>
      have building := shaped.building
      simp only [Building, mode] at building
      refine ⟨shaped.lexemes, ?_⟩
      simp only [Building, keep, mode, String.toList_push, List.head?_append, building.1,
        List.mem_append, List.mem_singleton, building.2]
      exact ⟨rfl, by simpa [eq_comm] using inLine⟩

/-- At the end of the text there is nothing to go on with. -/
theorem Shaped.complete (shaped : s.Shaped start text text) (tracks : s.Tracks start text)
    (coherent : s.Coherent) : Lexemes start text s.complete.emitted := by
  unfold Scanner.complete
  split
  case isTrue mode => exact shaped.flushComment tracks coherent mode (by simp)
  case isFalse => exact shaped.settle tracks coherent (by simp) fun _ => rfl

/-- Reading a text from a fresh start gives its tokens their forms. -/
theorem shaped_run (start : Int) (text : List Char) :
    (({} : Scanner).run start text).Shaped start text text := by
  refine (coherent_fresh.run_induction_within (motive := fun read s =>
    s.Tracks start read ∧ s.Nests ∧ s.Shaped start text read) start text none ?_ ?_).2.2.2
  · exact ⟨⟨[], .nil, rfl, fun built => absurd rfl built⟩, .nil, .nil, trivial⟩
  · rintro read s c rest split coherent ⟨tracks, nests, shaped⟩
    rw [Option.or_none]
    exact ⟨tracks.step coherent _ c, nests.step coherent _ c _,
      shaped.step tracks nests coherent split⟩

end Scanner

/-! ## The tokens of a line -/

theorem lexemes_of_tokenize {line : String} {tokens : List Token}
    (ran : tokenize line = .ok tokens) :
    Lexemes (leadingBlanks line.toList) (strip line.toList) tokens.reverse := by
  obtain ⟨coherent, rfl, _, _⟩ := Scanner.of_tokenize_eq_ok ran
  rw [Scanner.tokens, List.reverse_reverse]
  exact (Scanner.shaped_run ..).complete (Scanner.tracks_run ..) coherent

/-- Each token of a line has the form of its kind, in the text of the line without the blanks at its
ends. -/
theorem lexeme_of_tokenize {line : String} {tokens before after : List Token} {token : Token}
    (ran : tokenize line = .ok tokens) (split : tokens = before ++ token :: after) :
    Lexeme (leadingBlanks line.toList) (strip line.toList) before token :=
  (lexemes_of_tokenize ran).lexeme split

/-- The first text of a quote, in which the mark and the sigil are escaped, up to a sigil. -/
theorem lexeme_escaped_text :
    tokenize " e \"\\\"\\$$x\" " = .ok
        ([⟨.literal, "e", some 1, false, false⟩, ⟨.symbol, "\"", some 3, false, false⟩] ++
          ⟨.fragment, "\\\"\\$", some 4, false, false⟩ ::
          [⟨.symbol, "$", some 8, false, false⟩, ⟨.identifier, "x", some 9, false, false⟩,
            ⟨.fragment, "", some 10, false, false⟩, ⟨.symbol, "\"", some 10, false, false⟩]) ∧
      Lexeme 1 "e \"\\\"\\$$x\"".toList
        [⟨.literal, "e", some 1, false, false⟩, ⟨.symbol, "\"", some 3, false, false⟩]
        ⟨.fragment, "\\\"\\$", some 4, false, false⟩ := by
  have ran : tokenize " e \"\\\"\\$$x\" " = .ok
      ([⟨.literal, "e", some 1, false, false⟩, ⟨.symbol, "\"", some 3, false, false⟩] ++
        ⟨.fragment, "\\\"\\$", some 4, false, false⟩ ::
        [⟨.symbol, "$", some 8, false, false⟩, ⟨.identifier, "x", some 9, false, false⟩,
          ⟨.fragment, "", some 10, false, false⟩, ⟨.symbol, "\"", some 10, false, false⟩]) := rfl
  exact ⟨ran, lexeme_of_tokenize ran rfl⟩

end ShellLine
