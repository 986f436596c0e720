import Mathlib.Data.List.Induction
import ShellLine.Proofs.Scanner.Adjacency
import ShellLine.Proofs.Scanner.Concatenation
import ShellLine.Proofs.Scanner.Strictness

/-! # Words and comments by themselves

The text of a word is a line whose one token is that word again, and so it is with a comment,
whatever was around them. Blanks at the end are trimmed, of which a word can have no more than one,
and that one escaped; then its escape mark is left. So what a word is depends on its text alone:
`run_word` says what the scanner has built after each beginning of it.
-/

namespace ShellLine

open Alphabet Text

/-! ## Words that are cut short -/

/-- Trimming takes nothing off a text that does not end in a blank. -/
theorem Text.stripEnd_eq_self_iff {text : List Char} :
    stripEnd text = text ↔ ¬ ∃ c ∈ text.getLast?, isBlank c := by
  constructor
  · rintro same ⟨c, last, blank⟩
    rw [← same] at last
    rw [isBlank_of_getLast?_stripEnd last] at blank
    cases blank
  · intro ends
    obtain ⟨blanks, blank, same⟩ := exists_eq_stripEnd_append text
    rcases List.eq_nil_or_concat blanks with rfl | ⟨init, c, rfl⟩
    · exact (same.trans (List.append_nil _)).symm
    · refine absurd ⟨c, ?_, blank c (by simp)⟩ ends
      rw [same, List.concat_eq_append, ← List.append_assoc, List.getLast?_concat]
      rfl

theorem WordUnits.left {us vs : List TextUnit} (word : WordUnits (us ++ vs)) : WordUnits us := by
  cases us with
  | nil => exact ⟨by simp, by simp⟩
  | cons unit rest =>
    exact ⟨word.first, fun c member => word.later c (List.mem_append_left _ member)⟩

/-- What a word begins with is a word. -/
theorem WordUnits.of_append {text more : List Char} (word : WordUnits (units (text ++ more))) :
    WordUnits (units text) := by
  by_cases pending : .pending ∈ units text
  · cases more with
    | nil => simpa using word
    | cons c rest =>
      obtain ⟨init, _, same, escape⟩ := units_append_of_pending pending
      rw [escape] at word
      rw [same]
      cases init with
      | nil => exact wordUnits_singleton (by simp)
      | cons unit rest => exact word.left.concat (List.cons_ne_nil _ _) (by simp)
  · rw [units_append pending] at word
    exact word.left

theorem isBlank_of_continuesWord {c : Char} (later : continuesWord c) : isBlank c = false := by
  have marks : (star :: pathMarks).all fun c => !isBlank c := by decide
  rw [Bool.eq_false_iff]
  intro blank
  have mark : c ∈ star :: pathMarks := by
    simpa [continuesWord, isAlphanumeric_of_isBlank blank, or_comm] using later
  simpa [blank] using List.all_eq_true.mp marks c mark

/-- A word has no blanks but those that are escaped. -/
theorem WordUnits.isBlank_of_plain {us : List TextUnit} (word : WordUnits us) {c : Char}
    (member : .plain c ∈ us) : isBlank c = false := by
  cases us with
  | nil => cases member
  | cons unit rest =>
    rcases List.mem_cons.mp member with same | later
    · have first := word.first c (by simp [same])
      simp only [startsWord, Bool.and_eq_true, Bool.not_eq_true'] at first
      exact first.1
    · exact isBlank_of_continuesWord (word.later c later)

/-- Trimming takes nothing off a word, or else the blank that its last unit escapes. -/
theorem WordUnits.stripEnd_cases {text : List Char} (word : WordUnits (units text)) :
    stripEnd text = text ∨ ∃ init c, isBlank c ∧ units text = init ++ [.escaped c] ∧
      units (stripEnd text) = init ++ [.pending] := by
  obtain ⟨blanks, blank, same⟩ := exists_eq_stripEnd_append text
  generalize stripEnd text = kept at same
  subst same
  have noMark {c : Char} (member : c ∈ blanks) : c ≠ escapeMark := by
    rintro rfl
    exact absurd (blank _ member) (by decide)
  cases blanks with
  | nil => exact .inl (List.append_nil _).symm
  | cons c rest =>
    have white := blank c List.mem_cons_self
    by_cases pending : .pending ∈ units kept
    · obtain ⟨init, _, cut, escape⟩ := units_append_of_pending pending
      cases rest with
      | nil => exact .inr ⟨init, c, white, by simp [escape, units], cut⟩
      | cons next rest =>
        have noBlank := word.isBlank_of_plain (c := next)
          (by simp [escape, units_cons (noMark (.tail _ List.mem_cons_self))])
        rw [blank next (.tail _ List.mem_cons_self)] at noBlank
        cases noBlank
    · have noBlank := word.isBlank_of_plain (c := c)
        (by simp [units_append pending, units_cons (noMark List.mem_cons_self)])
      rw [white] at noBlank
      cases noBlank

theorem WordUnits.stripEnd_eq_self_iff {text : List Char} (word : WordUnits (units text)) :
    stripEnd text = text ↔ ¬ ∃ init c, units text = init ++ [.escaped c] ∧ isBlank c := by
  constructor
  · rintro same ⟨init, c, whole, blank⟩
    refine Text.stripEnd_eq_self_iff.mp same ⟨c, ?_, blank⟩
    rw [← flatMap_chars_units text, whole]
    simp [TextUnit.chars]
  · intro ends
    obtain same | ⟨init, c, blank, whole, _⟩ := word.stripEnd_cases
    · exact same
    · exact absurd ⟨init, c, whole, blank⟩ ends

/-- Trimming does not make a word a wildcard, or keep it from being one. -/
theorem WordUnits.star_mem_stripEnd {text : List Char} (word : WordUnits (units text)) :
    .plain star ∈ units (stripEnd text) ↔ .plain star ∈ units text := by
  obtain same | ⟨init, c, _, whole, cut⟩ := word.stripEnd_cases
  · rw [same]
  · simp [whole, cut]

theorem escapeMark_mem {text : List Char} (unit : TextUnit) (member : unit ∈ units text)
    (mark : escapeMark ∈ unit.chars) : escapeMark ∈ text := by
  rw [← flatMap_chars_units text]
  exact List.mem_flatMap.mpr ⟨unit, member, mark⟩

/-- Trimming does not make a word reserved, or keep it from being so. -/
theorem WordUnits.reserved_stripEnd {text : List Char} (word : WordUnits (units text)) :
    String.ofList (stripEnd text) ∈ reservedWords ↔ String.ofList text ∈ reservedWords := by
  obtain same | ⟨init, c, _, whole, cut⟩ := word.stripEnd_cases
  · rw [same]
  · have mark : escapeMark ∈ text :=
      escapeMark_mem (.escaped c) (by simp [whole]) (by simp [TextUnit.chars])
    have markCut : escapeMark ∈ stripEnd text :=
      escapeMark_mem .pending (by simp [cut]) (by simp [TextUnit.chars])
    refine iff_of_false (fun reserved => ?_) fun reserved => ?_
    · exact escapeMark_not_mem_of_reserved _ reserved (by simpa using markCut)
    · exact escapeMark_not_mem_of_reserved _ reserved (by simpa using mark)

/-- The kind of a word with the given text. -/
def wordKind (text : List Char) : TokenKind :=
  if .plain star ∈ units text then .wildcard
  else if String.ofList text ∈ reservedWords then .controlOperator
  else .literal

/-- Trimming leaves a word of the same kind. -/
theorem WordUnits.wordKind_stripEnd {text : List Char} (word : WordUnits (units text)) :
    wordKind (stripEnd text) = wordKind text := by
  simp only [wordKind, word.star_mem_stripEnd, word.reserved_stripEnd]

namespace Scanner

variable {read text : List Char} {c : Char}

/-! ## Words -/

/-- The scanner after a text that is the beginning of a word. -/
def ofWord (read : List Char) : Scanner where
  context := .ofMode (if .plain star ∈ units read then .wildcard else .literal)
  buffer := String.ofList read
  bufferPos := some 0
  escaped := decide (.pending ∈ units read)

theorem step_first (word : WordUnits (units [c])) (next : Option Char) :
    ({} : Scanner).step next c 0 = ofWord [c] := by
  by_cases mark : c = escapeMark
  · subst mark
    rfl
  · rw [units_singleton mark] at word
    have first : startsWord c := word.first c rfl
    simp only [startsWord, List.contains_eq_mem, List.mem_append, List.mem_cons, Bool.and_eq_true,
      Bool.not_eq_true', decide_eq_false_iff_not, not_or] at first
    have noAssign : c ≠ assign := by
      rintro rfl
      exact first.2.1.2 (by decide)
    by_cases isStar : c = star
    · subst isStar
      rfl
    · simp [step, stepPlain, stepStart, first, noAssign, isStar, Ne.symm isStar, ofWord, units,
        keep, enter]

section Step

variable (built : read ≠ []) (next : Option Char) (pos : Int)
include built

/-- The character after an escape mark belongs to the word, whatever it is. -/
theorem step_ofWord_escaped (pending : .pending ∈ units read) :
    (ofWord read).step next c pos = ofWord (read ++ [c]) := by
  obtain ⟨init, whole, same, escape⟩ := units_append_of_pending pending
  simp [step, ofWord, same, escape, units, keep, built, whole]

theorem step_ofWord_mark (whole : .pending ∉ units read) :
    (ofWord read).step next escapeMark pos = ofWord (read ++ [escapeMark]) := by
  have noLetter : isAlphanumeric escapeMark = false := by decide +kernel
  have noMark : escapeMark ∉ pathMarks ∧ escapeMark ≠ star := by decide
  by_cases starred : .plain star ∈ units read
  · simp [step, ofWord, whole, starred, units_append, units, stepPlain, stepWildcard,
      ScanContext.ofMode, noLetter, noMark, keepEscape, keep, built]
  · simp [step, ofWord, whole, starred, units_append, units, stepPlain, stepLiteral,
      ScanContext.ofMode, noLetter, noMark, keepEscape, keep, built]

/-- A star makes the word a wildcard, and nothing else does. -/
theorem step_ofWord_letter (whole : .pending ∉ units read) (noMark : c ≠ escapeMark)
    (later : continuesWord c) : (ofWord read).step next c pos = ofWord (read ++ [c]) := by
  have longer : units (read ++ [c]) = units read ++ [.plain c] := by
    rw [units_append whole, units_singleton noMark]
  simp only [continuesWord, Bool.or_eq_true, List.contains_eq_mem, decide_eq_true_eq,
    beq_iff_eq] at later
  by_cases starred : .plain star ∈ units read
  · simp [step, ofWord, longer, whole, starred, stepPlain, stepWildcard, ScanContext.ofMode,
      or_assoc.mp later, keep, built]
  by_cases letter : isAlphanumeric c ∨ c ∈ pathMarks
  · have noStar : star ≠ c := Ne.symm (apart_of_letter letter).1
    simp [step, ofWord, longer, whole, starred, stepPlain, stepLiteral, ScanContext.ofMode,
      letter, noStar, keep, built]
  · have isStar : c = star := later.resolve_left letter
    subst isStar
    simp [step, ofWord, longer, whole, starred, stepPlain, stepLiteral, ScanContext.ofMode,
      letter, noMark, keep, enter, built]

theorem step_ofWord (word : WordUnits (units (read ++ [c]))) :
    (ofWord read).step next c pos = ofWord (read ++ [c]) := by
  by_cases pending : .pending ∈ units read
  · exact step_ofWord_escaped built next pos pending
  by_cases mark : c = escapeMark
  · subst mark
    exact step_ofWord_mark built next pos pending
  · have ahead : units (String.ofList read).toList ≠ [] := units_ne_nil (by simpa using built)
    rw [String.toList_ofList] at ahead
    rw [units_append pending, units_singleton mark] at word
    exact step_ofWord_letter built next pos pending mark
      (word.later c (by simp [List.tail_append_of_ne_nil ahead]))

end Step

/-- Whatever comes next, reading a word from a fresh start builds it. -/
theorem run_word (built : text ≠ []) (word : WordUnits (units text)) (after : Option Char) :
    ({} : Scanner).run 0 text after = ofWord text := by
  induction text using List.reverseRecOn generalizing after with
  | nil => exact absurd rfl built
  | append_singleton read c ih =>
    rw [run_append]
    by_cases first : read = []
    · subst first
      exact step_first word _
    · rw [ih first word.of_append]
      exact step_ofWord first _ _ word

/-- At the end of the text the word is the only token. -/
theorem complete_ofWord (built : text ≠ []) :
    (ofWord text).complete.context = {} ∧ (ofWord text).complete.stack = [] ∧
      (ofWord text).complete.tokens =
        [⟨wordKind text, String.ofList text, some 0, false, false⟩] := by
  by_cases starred : .plain star ∈ units text
  · simp [complete, ofWord, starred, ScanContext.ofMode, settle, flush, enter, built, wordKind,
      tokens]
  · simp [complete, ofWord, starred, ScanContext.ofMode, settle, flushWord, flush, enter, built,
      wordKind, tokens]

/-! ## Comments -/

/-- The scanner after a text that is the beginning of a comment. -/
def ofComment (read : List Char) : Scanner where
  context := .ofMode .comment
  buffer := String.ofList read
  bufferPos := some 0

theorem step_ofComment (built : read ≠ []) (inLine : c ≠ '\n') (next : Option Char) (pos : Int) :
    (ofComment read).step next c pos = ofComment (read ++ [c]) := by
  simp [step, ofComment, stepPlain, stepComment, ScanContext.ofMode, keep, inLine, built]

/-- Whatever comes next, reading a comment from a fresh start builds it. -/
theorem run_comment (opens : text.head? = some commentMark) (inLine : '\n' ∉ text)
    (after : Option Char) : ({} : Scanner).run 0 text after = ofComment text := by
  induction text using List.reverseRecOn generalizing after with
  | nil => cases opens
  | append_singleton read c ih =>
    rw [List.mem_append, not_or, List.mem_singleton] at inLine
    rw [run_append]
    by_cases first : read = []
    · subst first
      obtain rfl : c = commentMark := by simpa using opens
      rfl
    · have opensRead : read.head? = some commentMark := by
        obtain ⟨mark, rest, rfl⟩ := List.exists_cons_of_ne_nil first
        simpa using opens
      rw [ih opensRead inLine.1]
      exact step_ofComment first (Ne.symm inLine.2) after _

/-- At the end of the text the comment is the only token. -/
theorem complete_ofComment (built : text ≠ []) :
    (ofComment text).complete.context = .ofMode .comment ∧ (ofComment text).complete.stack = [] ∧
      (ofComment text).complete.tokens =
        [⟨.comment, String.ofList text, some 0, false, false⟩] := by
  simp [complete, ofComment, ScanContext.ofMode, flush, built, tokens]

/-- A text that leaves nothing open has the tokens that are finished at its end. -/
theorem tokenize_of_run {line : String} {last : Scanner}
    (read : ({} : Scanner).run 0 (stripEnd line.toList) = last)
    (outside : last.complete.context.mode ≠ .quote) (closed : last.complete.stack = []) :
    tokenize line = .ok last.complete.tokens := by
  rw [tokenize_eq_complete, ofText_eq_run, read]
  simp [outside, dangling, closed]

end Scanner

/-! ## Tokens by themselves -/

section Alone

variable {value : String}

/-- The text of a word is that word again, or what trimming leaves of it. -/
theorem tokenize_word (built : value ≠ "") (word : WordUnits (units value.toList)) :
    tokenize value = .ok [⟨wordKind value.toList,
      String.ofList (stripEnd value.toList), some 0, false, false⟩] := by
  have kept : stripEnd value.toList ≠ [] := by
    obtain same | ⟨init, c, _, _, cut⟩ := word.stripEnd_cases
    · simpa [same] using built
    · intro none
      simp [none, units] at cut
  have wordKept : WordUnits (units (stripEnd value.toList)) := by
    obtain ⟨blanks, _, same⟩ := exists_eq_stripEnd_append value.toList
    rw [same] at word
    exact word.of_append
  obtain ⟨between, closed, tokens⟩ := Scanner.complete_ofWord kept
  have read := Scanner.run_word kept wordKept none
  rw [Scanner.tokenize_of_run read (by simp [between]) closed, tokens,
    word.wordKind_stripEnd]

/-- The text of a comment is that comment again, without the blanks at its end. -/
theorem tokenize_comment (opens : value.toList.head? = some commentMark)
    (inLine : '\n' ∉ value.toList) :
    tokenize value =
      .ok [⟨.comment, String.ofList (stripEnd value.toList), some 0, false, false⟩] := by
  obtain ⟨rest, text⟩ := List.head?_eq_some_iff.mp opens
  have kept : stripEnd value.toList = commentMark :: stripEnd rest := by
    rw [text]
    exact stripEnd_append_cons (by decide) [] rest
  have opensKept : (stripEnd value.toList).head? = some commentMark := by rw [kept]; rfl
  have inLineKept : '\n' ∉ stripEnd value.toList := by
    obtain ⟨blanks, _, same⟩ := exists_eq_stripEnd_append value.toList
    rw [same] at inLine
    exact fun member => inLine (List.mem_append_left _ member)
  have built : stripEnd value.toList ≠ [] := by simp [kept]
  have read := Scanner.run_comment opensKept inLineKept none
  obtain ⟨context, closed, tokens⟩ := Scanner.complete_ofComment built
  rw [Scanner.tokenize_of_run read (by simp [context, ScanContext.ofMode]) closed, tokens]

end Alone

/-- The token in a line of its own, where trimming takes off the blanks at its end. -/
def Token.alone (token : Token) : Token :=
  { token with value := String.ofList (stripEnd token.value.toList), pos := some 0 }

/-- A comment ends in a blank, or a word in an escaped one. -/
def Token.EndsBlank (token : Token) : Prop :=
  if token.kind = .comment then ∃ c ∈ token.value.toList.getLast?, isBlank c
  else ∃ init c, units token.value.toList = init ++ [.escaped c] ∧ isBlank c

theorem Token.alike_alone_iff (token : Token) :
    token.alone.alike token = true ↔ stripEnd token.value.toList = token.value.toList := by
  rw [alike_iff, ← String.toList_inj]
  simp [alone]

section Forms

variable {start : Int} {text : List Char} {before : List Token} {token : Token}

theorem Form.word (form : Form start text before token)
    (kind : token.kind ∈ [.literal, .controlOperator, .wildcard]) : WordForm start text token := by
  simp only [List.mem_cons, List.not_mem_nil, or_false] at kind
  rcases kind with kind | kind | kind <;> simpa only [Form, kind] using form

theorem Form.comment (form : Form start text before token) (kind : token.kind = .comment) :
    CommentForm start text token := by
  simpa only [Form, kind] using form

/-- The text of a word tells its kind. -/
theorem WordForm.wordKind_eq (word : WordForm start text token)
    (kind : token.kind ∈ [.literal, .controlOperator, .wildcard]) :
    wordKind token.value.toList = token.kind := by
  unfold wordKind
  rw [String.ofList_toList]
  simp only [← word.wildcard, ← word.reserved]
  simp only [List.mem_cons, List.not_mem_nil, or_false] at kind
  rcases kind with kind | kind | kind <;> simp [kind]

end Forms

/-- The text of a word or a comment among the tokens of a line is a line with that token alone. It
is cut short only if it ends in a blank that belongs to it. -/
theorem tokenize_value {line : String} {strictComments : Bool} {maxLength : Option Int}
    {tokens : List Token} {token : Token}
    (ran : tokenize line strictComments maxLength = .ok tokens) (member : token ∈ tokens)
    (kind : token.kind ∈ [.literal, .controlOperator, .wildcard, .comment]) :
    tokenize token.value = .ok [token.alone] ∧
      (token.alone.alike token = false ↔ token.EndsBlank) := by
  have ran := tokenize_of_options ran
  obtain ⟨before, after, split⟩ := List.append_of_mem member
  obtain ⟨form, left, right⟩ := (lexemes_of_tokenize ran).lexeme split
  have noSign : token.isMark assign = false := by
    rw [Bool.eq_false_iff]
    intro sign
    simp [kind_of_isMark sign] at kind
  rw [noSign, Bool.false_and] at left right
  rw [← Bool.not_eq_true, Token.alike_alone_iff, Token.EndsBlank]
  by_cases comment : token.kind = .comment
  · obtain ⟨opens, inLine, _⟩ := form.comment comment
    rw [if_pos comment, stripEnd_eq_self_iff, not_not, tokenize_comment opens inLine]
    simp [Token.alone, comment, left, right]
  · have isWord : token.kind ∈ [.literal, .controlOperator, .wildcard] := by
      simpa [comment] using kind
    have word := form.word isWord
    have built : token.value ≠ "" := by
      intro empty
      have faithful : Faithful line.toList tokens := faithful_of_laid (laid_of_tokenize ran)
      simp [faithful.fragment_of_empty token member empty] at kind
    rw [if_neg comment, word.units.stripEnd_eq_self_iff, not_not, tokenize_word built word.units,
      word.wordKind_eq isWord]
    simp [Token.alone, left, right]

/-- A wildcard in a quoted substitution, whose escaped blank is cut off when it stands alone. -/
theorem tokenize_value_wildcard :
    let token : Token := ⟨.wildcard, "b*\\ ", some 7, false, false⟩
    let tokens : List Token :=
      [⟨.literal, "x", some 0, false, false⟩, ⟨.symbol, "\"", some 2, false, false⟩,
        ⟨.fragment, "", some 3, false, false⟩, ⟨.symbol, "$", some 3, false, false⟩,
        ⟨.symbol, "(", some 4, false, false⟩, ⟨.literal, "a", some 5, false, false⟩, token,
        ⟨.controlOperator, "if", some 12, false, false⟩, ⟨.symbol, ")", some 14, false, false⟩,
        ⟨.fragment, "", some 15, false, false⟩, ⟨.symbol, "\"", some 15, false, false⟩]
    tokenize "x \"$(a b*\\  if)\"" = .ok tokens ∧ token ∈ tokens ∧
      token.kind ∈ [.literal, .controlOperator, .wildcard, .comment] ∧
      tokenize "b*\\ " = .ok [⟨.wildcard, "b*\\", some 0, false, false⟩] ∧ token.EndsBlank := by
  intro token tokens
  have ran : tokenize "x \"$(a b*\\  if)\"" = .ok tokens := rfl
  have member : token ∈ tokens := by decide
  have kind : token.kind ∈ [.literal, .controlOperator, .wildcard, .comment] := by decide
  have trimmed : token.alone = ⟨.wildcard, "b*\\", some 0, false, false⟩ := by decide +kernel
  obtain ⟨alone, cut⟩ := tokenize_value ran member kind
  rw [trimmed] at alone cut
  exact ⟨ran, member, kind, alone, cut.mp (by decide)⟩

end ShellLine
