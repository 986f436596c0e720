import ShellLine.Proofs.Grammar.Parentheses
import ShellLine.Proofs.Nesting.Partners
import ShellLine.Proofs.Scanner.Strictness

/-! # When parentheses are reported as unbalanced

On the tokens of a line the parser is right about closing parentheses: the one that it reports has no
partner. The opening parentheses that it reports do have one. They are those of substitutions, and
before the partner comes a token that the list in front of it does not go on with: another opening
parenthesis, an assigning sign, a quote mark or a wildcard.
-/

namespace ShellLine

open Alphabet Grammar Cursor

/-! ## The two ways -/

/-- The closing parenthesis has no partner: nothing is left open before it. -/
def Unmatched (tokens : List Token) (closing : Token) : Prop :=
  ∃ before after, tokens = before ++ closing :: after ∧ closing.isMark closeParen ∧
    WellNested false before

/-- Whether a token outside quoted text neither goes on with a list nor closes it. -/
def Token.interrupts (token : Token) : Bool :=
  token.isMark openParen || token.isMark assign || token.kind == .wildcard ||
    token.isSymbol (quoteMarks.map String.singleton)

/-- The parenthesis of a substitution has a partner, but the list between them is interrupted. -/
def Interrupted (tokens : List Token) (opening : Token) : Prop :=
  ∃ before inner closing after, tokens = before ++ opening :: (inner ++ closing :: after) ∧
    (∃ mark ∈ (withoutComments before).getLast?, mark.isMark sigil) ∧ opening.isMark openParen ∧
    WellNested false inner ∧ closing.isMark closeParen ∧
    ∃ used stop more tree, withoutComments inner = used ++ stop :: more ∧ ListPhrase used tree ∧
      stop.interrupts

/-! ## The token that interrupts a list -/

/-- The symbols are those that a list goes on with, those that interrupt it and the one that closes
it. -/
theorem interrupts_of_symbol {token : Token} (symbol : token.kind = .symbol)
    (known : token.value ∈ symbolValues) (apart : extendsList token = false)
    (noClosing : token.isMark closeParen = false) : token.interrupts := by
  simp only [Token.isMark, Token.isSymbol, Token.isWord, Token.interrupts, extendsList,
    extendsPipeline, extendsCommand, symbol] at apart noClosing ⊢
  generalize token.value = value at known apart noClosing ⊢
  revert value
  decide

section Lists

variable {start : Int} {text : List Char} {tokens before read more : List Token}
  {opening stop : Token} {tree : Node}

/-- No name comes right after a list, nor right after a parenthesis. -/
theorem noName_after_list {token : Token} (opens : opening.isMark openParen)
    (phrase : ListPhrase (withoutComments read) tree)
    (name : NameForm start text (before ++ opening :: read) token) : False := by
  obtain ⟨mark, last, sigil, _⟩ := name.sigil
  cases newest : read.getLast? with
  | none =>
    rw [List.getLast?_eq_none_iff] at newest
    simp only [newest, List.getLast?_concat, Option.mem_def, Option.some.injEq] at last
    rw [← last, isMark_of_isMark opens (by decide)] at sigil
    cases sigil
  | some token =>
    obtain ⟨earlier, rfl⟩ := List.getLast?_eq_some_iff.mp newest
    rw [← List.cons_append, ← List.append_assoc, List.getLast?_concat] at last
    obtain rfl := Option.some.inj last
    have kept : token.kind ≠ .comment := by simp [kind_of_isMark sigil]
    rw [withoutComments_append, withoutComments_cons kept] at phrase
    obtain ⟨_, ahead, _⟩ := phrase.pieces.introduced_after rfl sigil
    cases ahead

/-- What a list stops in front of either closes it or interrupts it. -/
theorem interrupts_of_stop (lexemes : Lexemes start text tokens.reverse)
    (split : tokens = before ++ opening :: (read ++ stop :: more)) (opens : opening.isMark openParen)
    (phrase : ListPhrase (withoutComments read) tree) (kept : stop.kind ≠ .comment)
    (noFragment : stop.kind ≠ .fragment) (halted : extendsList stop = false)
    (noClosing : stop.isMark closeParen = false) : stop.interrupts := by
  have stands : tokens = (before ++ opening :: read) ++ stop :: more := by simpa using split
  have form := (lexemes.lexeme stands).form
  have noWord : stop.isWord = false := by
    simp only [extendsList, extendsPipeline, extendsCommand, Bool.or_eq_false_iff] at halted
    exact halted.1.1.1.1
  unfold Form at form
  cases kind : stop.kind with
  | literal => simp [Token.isWord, kind] at noWord
  | controlOperator => simp [Token.isWord, kind] at noWord
  | comment => exact absurd kind kept
  | fragment => exact absurd kind noFragment
  | wildcard => simp [Token.interrupts, kind]
  | identifier =>
    rw [kind] at form
    exact (noName_after_list opens phrase form).elim
  | symbol =>
    rw [kind] at form
    exact interrupts_of_symbol kind form.known halted noClosing

/-- The parenthesis that a list stops short after is that of a substitution, and has a partner. -/
theorem interrupted_of_stopsShort {after : Cursor} (lexemes : Lexemes start text tokens.reverse)
    (followed : follow true [] tokens = some []) (short : StopsShort opening after)
    (same : after.tokens.toList = withoutComments tokens) : Interrupted tokens opening := by
  obtain ⟨first, mark, used, tree, read, sigil, opens, phrase, halted, noClosing⟩ := short
  have whole : withoutComments tokens = (first ++ [mark]) ++ opening :: (used ++ after.rest) := by
    rw [← same, ← taken_append_rest, read]
    simp
  obtain ⟨before, later, rfl, firsts, lasts⟩ := exists_split_of_withoutComments whole
  have last : mark ∈ (withoutComments before).getLast? := by simp [firsts]
  obtain ⟨outer, ahead⟩ := exists_follow_group followed last sigil opens
  cases rest : after.rest with
  | nil =>
    -- the group is still open where the tokens end
    have unclosed := follow_withoutComments ahead
    rw [lasts, rest, List.append_nil, phrase.neutral (.inr ⟨outer, rfl⟩)] at unclosed
    cases unclosed
  | cons stop more =>
    rw [rest] at lasts
    obtain ⟨inside, beyond, rfl, rfl, rfl⟩ := exists_split_of_withoutComments lasts
    have current := current_of_rest rest
    have apart : extendsList stop = false := by simpa [Halted, current] using halted
    have noParen : stop.isMark closeParen = false := by simpa [atMark, current] using noClosing
    have kept : stop.kind ≠ .comment := by
      have member : stop ∈ withoutComments (inside ++ stop :: beyond) := by simp [lasts]
      simpa using (List.mem_filter.mp member).2
    have noFragment := noFragment_of_follow ahead phrase.neutral
    obtain ⟨between, closing, later, rfl, nested, closes⟩ :=
      exists_partner ahead phrase.neutral noParen
    refine ⟨before, inside ++ stop :: between, closing, later, by simp, ⟨mark, last, sigil⟩, opens,
      nested, closes, withoutComments inside, stop, withoutComments between, tree, ?_, phrase, ?_⟩
    · rw [withoutComments_append, withoutComments_cons kept]
    · exact interrupts_of_stop lexemes rfl opens phrase kept noFragment apart noParen

/-- A closing parenthesis right after a list has no partner. -/
theorem unmatched_of_list {closing : Token} {used later : List Token}
    (followed : follow true [] tokens = some [])
    (whole : withoutComments tokens = used ++ closing :: later) (phrase : ListPhrase used tree)
    (closes : closing.isMark closeParen) :
    Unmatched tokens closing ∧ ¬ WellNested false tokens := by
  obtain ⟨before, after, rfl, rfl, _⟩ := exists_split_of_withoutComments whole
  rw [follow_append, Option.bind_eq_some_iff] at followed
  obtain ⟨frames, first, _⟩ := followed
  have nested : WellNested false before :=
    wellNested_of_follow (follow_of_withoutComments first (phrase.neutral (.inl rfl)))
  refine ⟨⟨before, after, rfl, closes, nested⟩, fun all => ?_⟩
  have none := nested.follow_closeParen closes after
  rw [all.neutral (.inl rfl)] at none
  cases none

end Lists

/-- Where the parser reports an unbalanced parenthesis of a line, a closing one has no partner, or an
opening one has a partner, but the list between them is interrupted. On a line whose parentheses all
have partners it is the latter. -/
theorem unbalanced_of_tokenize {line : String} {strictComments : Bool} {maxLength : Option Int}
    {tokens : List Token} {maxDepth : Int} {fault : StructuralFault}
    (ran : tokenize line strictComments maxLength = .ok tokens)
    (failed : parse tokens maxDepth = .error fault) (kind : fault.kind = .unbalancedParenthesis) :
    (∃ closing, fault = .unmatchedParen closing ∧ Unmatched tokens closing ∧
      ¬ WellNested false tokens) ∨
    ∃ opening, fault = .missingParen opening ∧ Interrupted tokens opening := by
  have ran := tokenize_of_options ran
  have followed := follow_of_tokenize ran
  have some : withoutComments tokens ≠ [] := by
    intro comments
    rw [parse_of_comments comments] at failed
    split at failed
    · cases failed
      cases kind
    · cases failed
  rw [parse] at failed
  split at failed
  case h_1 => cases failed
  case h_2 fault after parsed =>
    cases failed
    have mixed := commentOnly_ofTokens maxDepth some
    obtain ⟨closing, used, tree, more, rfl, closes, ahead, phrase⟩ | ⟨opening, rfl, short, same⟩ :=
      parse_blames mixed parsed kind
    · rw [rest_ofTokens] at ahead
      exact .inl ⟨closing, rfl, unmatched_of_list followed ahead phrase closes⟩
    · have kept : after.tokens.toList = withoutComments tokens := by rw [same]; rfl
      exact .inr ⟨opening, rfl, interrupted_of_stopsShort (lexemes_of_tokenize ran) followed short kept⟩

/-- The list in the substitution of `echo $(ls (a))` is interrupted by a group. -/
theorem interrupted_by_group :
    let tokens : List Token :=
      [⟨.literal, "echo", some 0, false, false⟩, ⟨.symbol, "$", some 5, false, false⟩,
        ⟨.symbol, "(", some 6, false, false⟩, ⟨.literal, "ls", some 7, false, false⟩,
        ⟨.symbol, "(", some 10, false, false⟩, ⟨.literal, "a", some 11, false, false⟩,
        ⟨.symbol, ")", some 12, false, false⟩, ⟨.symbol, ")", some 13, false, false⟩]
    let opening : Token := ⟨.symbol, "(", some 6, false, false⟩
    tokenize "echo $(ls (a))" = .ok tokens ∧ parse tokens = .error (.missingParen opening) ∧
      Interrupted tokens opening := by
  intro tokens opening
  have ran : tokenize "echo $(ls (a))" = .ok tokens := rfl
  have failed : parse tokens = .error (.missingParen opening) := rfl
  refine ⟨ran, failed, ?_⟩
  obtain ⟨_, same, _⟩ | ⟨_, same, interrupted⟩ := unbalanced_of_tokenize ran failed rfl
  · cases same
  · cases same
    exact interrupted

/-- Every parenthesis of `echo $(ls (a))` has a partner, and yet one is reported as missing. -/
theorem missingParen_of_matched :
    ∃ tokens, tokenize "echo $(ls (a))" = .ok tokens ∧ WellNested false tokens ∧
      ∃ fault, parse tokens = .error fault ∧ fault.kind = .unbalancedParenthesis ∧
        fault.detail = "Missing ')'" :=
  ⟨_, rfl, wellNested_of_follow (by decide), _, rfl, rfl, rfl⟩

end ShellLine
