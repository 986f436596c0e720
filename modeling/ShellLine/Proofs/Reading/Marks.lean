import ShellLine.Alphabet
import ShellLine.Token.Basic

/-! # Marks

Kinds of tokens exclude each other, and a symbol is at most one mark.
-/

namespace ShellLine

open Alphabet

theorem isMark_ofMark (mark : Char) (pos : Option Int) : (Token.ofMark mark pos).isMark mark := by
  simp [Token.isMark_iff, Token.ofMark]

theorem kind_of_isMark {token : Token} {mark : Char} (found : token.isMark mark) :
    token.kind = .symbol :=
  (Token.isMark_iff.mp found).1

theorem kind_of_isSymbol {token : Token} {values : List String} (found : token.isSymbol values) :
    token.kind = .symbol := by
  simp only [Token.isSymbol, Bool.and_eq_true, beq_iff_eq] at found
  exact found.1

theorem isWord_of_symbol {token : Token} (symbol : token.kind = .symbol) :
    token.isWord = false := by
  simp [Token.isWord, symbol]

/-- A symbol is at most one mark. -/
theorem isMark_of_isMark {token : Token} {mark other : Char} (found : token.isMark mark)
    (apart : mark ≠ other) : token.isMark other = false := by
  obtain ⟨symbol, value⟩ := Token.isMark_iff.mp found
  simpa [Token.isMark, Token.isSymbol, symbol, value] using apart

/-- A mark is none of the symbols that it is not listed with. -/
theorem isSymbol_of_isMark {token : Token} {mark : Char} {values : List String}
    (found : token.isMark mark) (listed : values ≠ []) (apart : String.singleton mark ∉ values) :
    token.isSymbol values = false := by
  obtain ⟨symbol, value⟩ := Token.isMark_iff.mp found
  simp [Token.isSymbol, symbol, value, listed, apart]

/-- Whether a sigil can introduce the token: it is a name, or opens a group. -/
def Token.introduced (token : Token) : Bool :=
  token.kind == .identifier || token.isMark openParen

theorem noSigil_of_introduced {token : Token} (introduced : token.introduced) :
    token.isMark sigil = false := by
  simp only [Token.introduced, Bool.or_eq_true, beq_iff_eq] at introduced
  rcases introduced with name | opens
  · simp [Token.isMark, Token.isSymbol, name]
  · exact isMark_of_isMark opens (by decide)

/-- Quote marks are the only symbols that open a quote. -/
theorem opensQuote_iff {token : Token} :
    token.isSymbol (quoteMarks.map String.singleton) ↔
      token.kind = .symbol ∧ ∃ mark ∈ quoteMarks, token.value = String.singleton mark := by
  simp [Token.isSymbol, quoteMarks]

/-- No other mark opens a quote. -/
theorem not_opensQuote {token : Token} {mark : Char} (found : token.isMark mark)
    (apart : mark ∉ quoteMarks) : token.isSymbol (quoteMarks.map String.singleton) = false := by
  rw [Bool.eq_false_iff, ne_eq, opensQuote_iff]
  rintro ⟨_, other, member, value⟩
  rw [(Token.isMark_iff.mp found).2, String.singleton_inj] at value
  exact apart (value ▸ member)

/-- No other mark closes a quote. -/
theorem not_closesQuote {opening token : Token} {mark : Char}
    (opens : opening.isSymbol (quoteMarks.map String.singleton)) (found : token.isMark mark)
    (apart : mark ∉ quoteMarks) : token.isSymbol [opening.value] = false := by
  obtain ⟨_, other, member, value⟩ := opensQuote_iff.mp opens
  have different : mark ≠ other := fun same => apart (same ▸ member)
  rw [value]
  exact isMark_of_isMark found different

end ShellLine
