import ShellLine.Proofs.Nesting.Unclosed
import ShellLine.Text.Units

/-! # The forms of tokens

What a token of each kind looks like, and what ends it. Words and quoted text are made of units, so
that an escaped character counts as no character of its own; words and names go on as long as the
text lets them. `Lexeme` says this of a token that stands in a text after some other tokens.
-/

namespace ShellLine

open Alphabet Text

/-! ## Classes of characters -/

/-- Whether a character may be the first of a word without being escaped. -/
def startsWord (c : Char) : Bool :=
  !isBlank c && !(quoteMarks ++ directionMarks ++ plainSymbols ++
    [escapeMark, commentMark, sigil, openParen, closeParen]).contains c

/-- Whether a character goes on with a word without being escaped. -/
def continuesWord (c : Char) : Bool :=
  isAlphanumeric c || pathMarks.contains c || c == star

/-- Whether a character is one of a name. -/
def continuesName (c : Char) : Bool :=
  isAlphanumeric c || nameMarks.contains c

/-! ## Units of words and of quoted text -/

/-- The units of a word. Only a word that an escape starts has any character for its first. -/
structure WordUnits (us : List TextUnit) : Prop where
  first : ∀ c, us.head? = some (.plain c) → startsWord c
  later : ∀ c, .plain c ∈ us.tail → continuesWord c

theorem wordUnits_singleton {unit : TextUnit} (first : ∀ c, unit = .plain c → startsWord c) :
    WordUnits [unit] :=
  ⟨by simpa using first, by simp⟩

theorem WordUnits.concat {us : List TextUnit} {unit : TextUnit} (word : WordUnits us)
    (built : us ≠ []) (later : ∀ c, unit = .plain c → continuesWord c) :
    WordUnits (us ++ [unit]) := by
  constructor
  · obtain ⟨first, rest, rfl⟩ := List.exists_cons_of_ne_nil built
    exact word.first
  · intro c member
    rw [List.tail_append_of_ne_nil built, List.mem_append, List.mem_singleton] at member
    rcases member with earlier | last
    · exact word.later c earlier
    · exact later c last.symm

/-- A character that is escaped may be any. -/
theorem WordUnits.escape {us : List TextUnit} (word : WordUnits (us ++ [.pending])) (c : Char) :
    WordUnits (us ++ [.escaped c]) := by
  cases us with
  | nil => exact wordUnits_singleton (by simp)
  | cons first rest =>
    refine ⟨word.first, fun other member => word.later other ?_⟩
    simpa using member

/-- The units of the text that a mark quotes: nothing in it is a sigil or closes the quote. -/
def FragmentUnits (delimiter : String) (us : List TextUnit) : Prop :=
  ∀ c, .plain c ∈ us → c ≠ sigil ∧ String.singleton c ≠ delimiter

theorem FragmentUnits.concat {delimiter : String} {us : List TextUnit} {unit : TextUnit}
    (fragment : FragmentUnits delimiter us)
    (last : ∀ c, unit = .plain c → c ≠ sigil ∧ String.singleton c ≠ delimiter) :
    FragmentUnits delimiter (us ++ [unit]) := by
  intro c member
  rcases List.mem_append.mp member with earlier | same
  · exact fragment c earlier
  · exact last c (List.mem_singleton.mp same).symm

theorem FragmentUnits.escape {delimiter : String} {us : List TextUnit}
    (fragment : FragmentUnits delimiter (us ++ [.pending])) (c : Char) :
    FragmentUnits delimiter (us ++ [.escaped c]) :=
  fun other member => fragment other (by simpa using member)

/-! ## Tokens in a text -/

/-- The character right after a token, in a text that starts at the given position. -/
def follower (start : Int) (text : List Char) (token : Token) : Option Char :=
  token.endPos.bind fun stop => text[(stop - start).toNat]?

theorem follower_eq {start : Int} {text : List Char} {token : Token} {index : Nat}
    (ends : token.endPos = some (start + index)) : follower start text token = text[index]? := by
  have place : (start + (index : Int) - start).toNat = index := by omega
  rw [follower, ends, Option.bind_some, place]

/-- The tokens that are symbols. -/
def symbolValues : List String :=
  redirectOperators ++ (quoteMarks ++ plainSymbols ++ [sigil, openParen, closeParen]).map
    String.singleton

section Forms

variable (start : Int) (text : List Char) (before : List Token) (token : Token)

/-- A word takes up all the units that it can. -/
structure WordForm : Prop where
  units : WordUnits (units token.value.toList)
  /-- Only at the end of the text there is nothing to escape. -/
  pending : ∀ ahead behind, Text.units token.value.toList = ahead ++ .pending :: behind →
    behind = [] ∧ token.endPos = some (start + text.length)
  reserved : token.kind = .controlOperator ↔ token.value ∈ reservedWords
  wildcard : token.kind = .wildcard ↔ .plain star ∈ Text.units token.value.toList
  maximal : ∀ c ∈ follower start text token, continuesWord c = false ∧ c ≠ escapeMark

/-- A name takes up all the characters after its sigil that it can. -/
structure NameForm : Prop where
  sigil : ∃ mark ∈ before.getLast?, mark.isMark sigil ∧ mark.endPos = token.pos
  nonempty : token.value ≠ ""
  letters : ∀ c ∈ token.value.toList, continuesName c
  maximal : ∀ c ∈ follower start text token, continuesName c = false

/-- Whether quoted text may come after a token. -/
def Token.leadsText (token : Token) : Bool :=
  token.kind == .identifier || token.isMark Alphabet.sigil || token.isMark closeParen ||
    token.isSymbol (quoteMarks.map String.singleton)

/-- Quoted text is all of whole units, up to its sigil or its own mark, which is the innermost one
that is open. -/
structure FragmentForm : Prop where
  quoted : ∃ opening ∈ (unclosed before).head?, opening.isSymbol (quoteMarks.map String.singleton) ∧
    FragmentUnits opening.value (units token.value.toList)
  whole : .pending ∉ units token.value.toList
  leads : ∃ last ∈ before.getLast?, last.leadsText

/-- An operator is doubled where it can be. -/
structure SymbolForm : Prop where
  known : token.value ∈ symbolValues
  doubled : ∀ mark ∈ directionMarks, token.value = String.singleton mark →
    follower start text token ≠ some mark

/-- A comment goes on to the end of its line. -/
structure CommentForm : Prop where
  opens : token.value.toList.head? = some commentMark
  inLine : '\n' ∉ token.value.toList
  ends : ∀ c ∈ follower start text token, c = '\n'

/-- The form that a token has for its kind. -/
def Form : Prop :=
  match token.kind with
  | .literal | .controlOperator | .wildcard => WordForm start text token
  | .identifier => NameForm start text before token
  | .fragment => FragmentForm before token
  | .symbol => SymbolForm start text token
  | .comment => CommentForm start text token

/-- A token as it stands in a text after some others. Only a sign records what it touches: the token
before it, and a character after it that is neither blank nor starts a comment. -/
structure Lexeme : Prop where
  form : Form start text before token
  left : token.joinedLeft =
    (token.isMark assign && before.getLast?.any (·.endPos == token.pos))
  right : token.joinedRight =
    (token.isMark assign && (follower start text token).any fun c => !isBlank c && c != commentMark)

end Forms

/-- Tokens, newest first, each of which stands in the text after the ones before it. -/
inductive Lexemes (start : Int) (text : List Char) : List Token → Prop
  | nil : Lexemes start text []
  | cons {token : Token} {older : List Token} :
      Lexeme start text older.reverse token → Lexemes start text older →
      Lexemes start text (token :: older)

section Lexemes

variable {start : Int} {text : List Char} {before tokens : List Token} {token : Token}

/-- Every token has its form. -/
theorem Lexemes.lexeme (lexemes : Lexemes start text tokens.reverse) {after : List Token}
    (split : tokens = before ++ token :: after) : Lexeme start text before token := by
  subst split
  rw [List.reverse_append, List.reverse_cons, List.append_assoc] at lexemes
  generalize after.reverse = newer at lexemes
  induction newer with
  | nil =>
    cases lexemes with
    | cons lexeme _ => simpa using lexeme
  | cons newest newer ih =>
    cases lexemes with
    | cons _ older => exact ih older

/-- A token that is no sign records nothing. -/
theorem Lexeme.of_form (form : Form start text before token) (noSign : token.isMark assign = false)
    (unjoined : token.joinedLeft = false ∧ token.joinedRight = false) :
    Lexeme start text before token :=
  ⟨form, by simp [noSign, unjoined], by simp [noSign, unjoined]⟩

/-- A symbol of one character that is neither a sign nor the mark of an operator. -/
theorem lexeme_ofMark {c : Char} {pos : Option Int}
    (single : c ∈ quoteMarks ++ [semicolon, pipe, sigil, openParen, closeParen]) :
    Lexeme start text before (.ofMark c pos) := by
  have known : (quoteMarks ++ [semicolon, pipe, sigil, openParen, closeParen]).all fun c =>
      symbolValues.contains (String.singleton c) := by decide
  have apart : (quoteMarks ++ [semicolon, pipe, sigil, openParen, closeParen]).all fun c =>
      !directionMarks.contains c := by decide
  have symbol : String.singleton c ∈ symbolValues := by
    simpa using List.all_eq_true.mp known c single
  have noDirection : c ∉ directionMarks := by simpa using List.all_eq_true.mp apart c single
  have form : SymbolForm start text (.ofMark c pos) :=
    ⟨symbol, fun mark direction same =>
      absurd (String.singleton_inj.mp same ▸ direction) noDirection⟩
  refine .of_form form (isMark_of_isMark (isMark_ofMark c pos) ?_) ⟨rfl, rfl⟩
  exact ne_of_mem_of_not_mem single (by decide)

/-- An operator that is doubled, or that its own mark does not follow. -/
theorem lexeme_operator {value : String} {pos : Option Int}
    (operator : value ∈ redirectOperators)
    (doubled : ∀ mark ∈ directionMarks, value = String.singleton mark →
      follower start text ⟨.symbol, value, pos, false, false⟩ ≠ some mark) :
    Lexeme start text before ⟨.symbol, value, pos, false, false⟩ := by
  have form : SymbolForm start text ⟨.symbol, value, pos, false, false⟩ :=
    ⟨List.mem_append_left _ operator, doubled⟩
  refine .of_form form (Bool.eq_false_iff.mpr fun sign => ?_) ⟨rfl, rfl⟩
  obtain rfl : value = String.singleton assign := (Token.isMark_iff.mp sign).2
  exact absurd operator (by decide)

end Lexemes

end ShellLine
