import ShellLine.Proofs.Grammar.Alike
import ShellLine.Proofs.Nesting.Enclosure
import ShellLine.Proofs.Nesting.Phrases
import ShellLine.Proofs.Scanner.Endings
import ShellLine.Proofs.Scanner.Escapes
import ShellLine.Proofs.Scanner.Layout

/-! # Commands within quotes

A quote goes on where it was left, whatever command is substituted into it.
-/

namespace ShellLine

open Alphabet Text

namespace Grammar

/-- Tokens are alike where one differs in its position. -/
theorem alike_shift (offset : Int) (next : Option Token) (tokens : List Token) :
    Alike next tokens (tokens.map (.shift offset)) := by
  induction tokens with
  | nil => exact .nil
  | cons token rest ih => exact .cons ⟨rfl, rfl, rfl⟩ (fun _ => rfl) ih

end Grammar

theorem withoutComments_shift (offset : Int) (tokens : List Token) :
    withoutComments (tokens.map (.shift offset)) =
      (withoutComments tokens).map (.shift offset) := by
  rw [withoutComments, List.filter_map]
  rfl

namespace Scanner

open Grammar

/-! ## A line in front of a closing parenthesis -/

/-- Nothing is open or pending, and the tokens have the tree. -/
structure Whole (s : Scanner) (tree : Node) : Prop where
  plain : s.escaped = false
  start : s.settle.context.mode = .start
  closed : s.settle.stack = []
  empty : s.settle.buffer = ""
  phrase : ListPhrase (withoutComments s.settle.tokens) tree

/-- The end of the text may have anything after it. -/
theorem Whole.run {start : Int} {text : List Char} {tree : Node} {before : Option Char}
    (whole : (({} : Scanner).run start text before).Whole tree) (after : Option Char) :
    (({} : Scanner).run start text after).Whole tree := by
  rcases List.eq_nil_or_concat text with rfl | ⟨init, c, rfl⟩
  · exact whole
  have last (after : Option Char) : ({} : Scanner).run start (init ++ [c]) after =
      (({} : Scanner).run start init (some c)).step after c (start + init.length) := by
    rw [run_append, Scanner.run, Scanner.run, List.head?_nil, Option.none_or]
    rfl
  have coherent : (({} : Scanner).run start init (some c)).Coherent := coherent_run coherent_fresh ..
  rw [List.concat_eq_append, last] at whole ⊢
  rcases coherent.step_next c (start + init.length) with same | stepped
  · rwa [same after before]
  · generalize (({} : Scanner).run start init (some c)).settle = settled at stepped
    have ended (token : Token) :
        ((settled.emit token).enter {}).settle = (settled.emit token).enter {} :=
      settle_eq_self (.inl rfl)
    let sign (next : Option Char) : Token := settled.assignToken next (start + init.length)
    have signed (next : Option Char) :
        withoutComments ((settled.emit (sign next)).enter {}).tokens =
          withoutComments settled.tokens ++ [sign next] := by
      rw [tokens, enter, emit, List.reverse_cons, withoutComments_append]
      rfl
    obtain ⟨plain, -, closed, empty, phrase⟩ := whole
    rw [stepped] at plain
    rw [stepped, ended] at closed empty phrase
    rw [stepped]
    refine ⟨plain, rfl, closed, empty, ?_⟩
    rw [signed] at phrase
    rw [ended, signed]
    have resembles : Resembles (sign before) (sign after) := ⟨rfl, rfl, rfl⟩
    exact phrase.alike (.concat resembles _)

/-- A line with a tree that does not end in a comment or an escape leaves nothing open or
pending. -/
theorem whole_of_tokenize {line : String} {tokens : List Token} {tree : Node}
    (ran : tokenize line = .ok tokens) (ended : ∀ token ∈ tokens.getLast?, token.kind ≠ .comment)
    (noEscape : pendingEscape (strip line.toList) = false)
    (phrase : ListPhrase (withoutComments tokens) tree) : (ofText line.toList).Whole tree := by
  obtain ⟨closed, rfl⟩ := closed_of_tokenize ran ended noEscape
  exact ⟨closed.plain, closed.start, closed.stack, closed.buffer, phrase⟩

/-- No tree has a sign in front of everything else. -/
theorem not_sign_of_phrase {tokens : List Token} {tree : Node}
    (phrase : ListPhrase (withoutComments tokens) tree) :
    ∀ token ∈ tokens.head?, token.isMark assign = false := by
  intro token first
  obtain ⟨rest, rfl⟩ := List.head?_eq_some_iff.mp first
  by_cases comment : token.kind = .comment
  · simp [Token.isMark, Token.isSymbol, comment]
  · rw [withoutComments_cons comment] at phrase
    obtain ⟨other, others, same, apart⟩ := phrase.opens
    obtain ⟨rfl, rfl⟩ := List.cons.inj same
    exact apart assign (by decide)

/-- The parentheses of a whole line are all matched. -/
theorem Whole.strict {start : Int} {text : List Char} {tree : Node} {after : Option Char}
    (whole : (({} : Scanner).run start text after).Whole tree) :
    follow false [] (({} : Scanner).run start text after).settle.tokens = some [] := by
  have coherent : (({} : Scanner).run start text after).Coherent := coherent_run coherent_fresh ..
  obtain ⟨frames, followed, matched⟩ := (followed_run start text after).settle coherent
  simp only [Matches, whole.start, whole.closed, framesOf] at matched
  subst matched
  exact follow_of_withoutComments followed (whole.phrase.neutral (.inl rfl))

/-- A whole line in a group leads from the start of the group back to what is around it. -/
theorem Whole.run_group {line : List Char} {tree : Node} (whole : (ofText line).Whole tree)
    {context : ScanContext} {below : List ScanContext}
    (resumable : ∀ outer ∈ context :: below, outer.Resumable) (emitted : List Token) (pos : Int)
    (after : Option Char) :
    ∃ inner closing bufferPos,
      ({ stack := context :: below, emitted } : Scanner).run pos (line ++ [closeParen]) after =
        { context, stack := below, bufferPos, emitted := closing :: (inner.reverse ++ emitted) } ∧
      ListPhrase (withoutComments inner) tree ∧ closing.isMark closeParen := by
  let outer : Scanner := { stack := context :: below, emitted }
  obtain ⟨leading, trailing, length, blankBefore, blankAfter, shape⟩ := exists_eq_append_strip line
  have split : line ++ [closeParen] = leading ++ (strip line ++ (trailing ++ [closeParen])) := by
    rw [← List.append_assoc, ← List.append_assoc, ← shape]
  let next := (trailing ++ [closeParen]).head?.or after
  let inner : Scanner := ({} : Scanner).run (leadingBlanks line) (strip line) next
  have whole : inner.Whole tree := whole.run next
  have coherent : inner.Coherent := coherent_run coherent_fresh ..
  have around : ∀ context ∈ outer.stack, context.Resumable := resumable
  have inside : (inner.within outer pos).Coherent := coherent.within around pos
  have plain : (inner.within outer pos).escaped = false := whole.plain
  have settled : (inner.within outer pos).settle = inner.settle.within outer pos :=
    coherent.settle_within
  have start : (inner.within outer pos).settle.context.mode = .start := by
    rw [settled]
    exact whole.start
  have ahead : inner.tokens <+: inner.settle.tokens := List.reverse_prefix.mpr inner.suffix_settle
  have read : outer.run (pos + leading.length) (strip line) next = inner.within outer pos := by
    have placed : (({} : Scanner).within outer pos).run (leadingBlanks line + pos) (strip line)
        next = inner.within outer pos :=
      coherent_fresh.run_within followed_fresh around ⟨_, whole.strict⟩
        (not_sign_of_phrase whole.phrase) ahead
    rw [length, Int.add_comm]
    exact placed
  have settledPlain : inner.settle.escaped = false := (coherent.settle whole.plain).2
  let stop : Int := pos + leading.length + (strip line).length + trailing.length
  refine ⟨inner.settle.tokens.map (.shift pos), .ofMark closeParen (some stop),
    inner.settle.bufferPos.map (· + pos), ?_, ?_, isMark_ofMark closeParen _⟩
  · have closed : (inner.within outer pos).run (pos + leading.length + (strip line).length)
        (trailing ++ [closeParen]) after =
          ((inner.settle.within outer pos).emit (.ofMark closeParen (some stop))).pop := by
      rw [inside.run_closeParen plain start blankAfter, settled]
    rw [split, run_append, run_of_isBlank rfl rfl blankBefore, run_append, read, closed]
    simp [pop, emit, Scanner.within, outer, whole.closed, whole.empty, settledPlain, tokens]
  · rw [withoutComments_shift]
    exact whole.phrase.alike (alike_shift pos none _)

/-! ## The whole line -/

/-- A text without blanks at its ends is scanned as it is. -/
theorem ofText_of_not_isBlank {first last : Char} (noBlank : isBlank first = false)
    (noBlankLast : isBlank last = false) (text : List Char) :
    ofText (first :: (text ++ [last])) = ({} : Scanner).run 0 (first :: (text ++ [last])) := by
  have stripped : strip (first :: (text ++ [last])) = first :: (text ++ [last]) := by
    simp [strip, stripStart, stripEnd, noBlank, noBlankLast]
  have leading : leadingBlanks (first :: (text ++ [last])) = 0 := by
    simp [leadingBlanks, noBlank]
  rw [ofText, stripped, leading]
  rfl

/-- Between tokens a text may end. -/
theorem tokenize_of_ofText {line : String} (context : (ofText line.toList).context = {})
    (closed : (ofText line.toList).stack = []) (empty : (ofText line.toList).buffer = "") :
    tokenize line = .ok (ofText line.toList).tokens := by
  rw [tokenize_eq]
  simp [finish, closeNames, incomplete, flushLast, dangling, context, closed, empty]

/-- A quote in front of anything is the first argument of a command. -/
theorem run_echo {mark : Char} (quote : mark ∈ quoteMarks) (rest : List Char)
    (after : Option Char) :
    ({} : Scanner).run 0 ("echo ".toList ++ mark :: rest) after =
      ({ context := .quote mark 5
         emitted := [.ofMark mark (some 5), ⟨.literal, "echo", some 0, false, false⟩] } :
        Scanner).run 6 rest after := by
  simp only [quoteMarks, List.mem_cons, List.not_mem_nil, or_false] at quote
  rcases quote with rfl | rfl <;> rfl

/-- The tokens of a line in a quote stand between those of the quote. -/
theorem Whole.tokenize {line before behind : String} {tree : Node}
    (whole : (ofText line.toList).Whole tree) {mark : Char} (quote : mark ∈ quoteMarks)
    (inert : ∀ c ∈ before.toList ++ behind.toList, c ≠ mark ∧ c ≠ sigil ∧ c ≠ escapeMark) :
    ∃ inner closing signPos parenPos lastPos stop,
      ShellLine.tokenize ("echo " ++ String.singleton mark ++ before ++ "$(" ++ line ++ ")" ++ behind
        ++ String.singleton mark) =
          .ok (⟨.literal, "echo", some 0, false, false⟩ :: .ofMark mark (some 5) ::
            ⟨.fragment, before, some 6, false, false⟩ :: .ofMark sigil signPos ::
            .ofMark openParen parenPos :: (inner ++ [closing,
              ⟨.fragment, behind, lastPos, false, false⟩, .ofMark mark stop])) ∧
      ListPhrase (withoutComments inner) tree ∧ closing.isMark closeParen := by
  rw [List.forall_mem_append] at inert
  let context : ScanContext := .quote mark 5
  have isQuote : context.IsQuote := ⟨rfl, mark, quote, rfl⟩
  have apart : isBlank mark = false ∧ mark ≠ sigil ∧ mark ≠ escapeMark := by
    simp only [quoteMarks, List.mem_cons, List.not_mem_nil, or_false] at quote
    rcases quote with rfl | rfl <;> decide
  have inside {text : List Char} (inert : ∀ c ∈ text, c ≠ mark ∧ c ≠ sigil ∧ c ≠ escapeMark) :
      ∀ c ∈ text, String.singleton c ≠ context.delimiter ∧ c ≠ sigil ∧ c ≠ escapeMark := by
    intro c member
    obtain ⟨noMark, others⟩ := inert c member
    exact ⟨mt String.singleton_inj.mp noMark, others⟩
  have resumable : ∀ outer ∈ [context], outer.Resumable := by
    simpa using .inr isQuote
  let text := "echo ".toList ++ mark :: ((before.toList ++ [sigil, openParen]) ++
    ((line.toList ++ [closeParen]) ++ (behind.toList ++ [mark])))
  have shape : ("echo " ++ String.singleton mark ++ before ++ "$(" ++ line ++ ")" ++ behind
      ++ String.singleton mark).toList = text := by
    simp [text]
  have whole_text : ofText text = ({} : Scanner).run 0 text := by
    let middle := "cho ".toList ++ mark :: ((before.toList ++ [sigil, openParen]) ++
      ((line.toList ++ [closeParen]) ++ behind.toList))
    have split : text = 'e' :: (middle ++ [mark]) := by
      simp [text, middle]
    rw [split, ofText_of_not_isBlank (by decide) apart.1]
  let signPos : Int := 6 + before.toList.length
  let groupPos : Int := 6 + (before.toList ++ [sigil, openParen]).length
  let lastPos : Int := groupPos + (line.toList ++ [closeParen]).length
  obtain ⟨inner, closing, bufferPos, group, phrase, closes⟩ := whole.run_group resumable
    [.ofMark openParen (some (signPos + 1)), .ofMark sigil (some signPos),
      ⟨.fragment, before, some 6, false, false⟩, .ofMark mark (some 5),
      ⟨.literal, "echo", some 0, false, false⟩] groupPos ((behind.toList ++ [mark]).head?.or none)
  have read : ofText text =
      { bufferPos := none
        emitted := .ofMark mark (some (lastPos + behind.toList.length)) ::
          ⟨.fragment, behind, some lastPos, false, false⟩ :: closing :: (inner.reverse ++
            [.ofMark openParen (some (signPos + 1)), .ofMark sigil (some signPos),
              ⟨.fragment, before, some 6, false, false⟩, .ofMark mark (some 5),
              ⟨.literal, "echo", some 0, false, false⟩]) } := by
    rw [whole_text, run_echo quote, run_append, run_quote_subshell rfl rfl rfl (inside inert.1),
      run_append, String.ofList_toList, group,
      run_quote_mark rfl rfl rfl (inside inert.2) rfl apart.2, String.ofList_toList]
  refine ⟨inner, closing, some signPos, some (signPos + 1), some lastPos,
    some (lastPos + behind.toList.length), ?_, phrase, closes⟩
  rw [← shape] at read
  rw [tokenize_of_ofText (by rw [read]) (by rw [read]) (by rw [read]), read]
  simp [tokens]

end Scanner

namespace Grammar

/-- A quote with one group in it, as the only argument of a command. -/
theorem ListPhrase.quoted {word opening text sign paren closing last ending : Token}
    {inner : List Token} {tree : Node} (phrase : ListPhrase inner tree) (isWord : word.isWord)
    (opens : opening.isSymbol (quoteMarks.map String.singleton)) (fragment : text.kind = .fragment)
    (mark : sign.isMark sigil) (opensGroup : paren.isMark openParen)
    (closesGroup : closing.isMark closeParen) (lastFragment : last.kind = .fragment)
    (closes : ending.isSymbol [opening.value]) :
    ListPhrase (word :: opening :: text :: sign :: paren :: (inner ++ [closing, last, ending]))
      (.command (some (.literal word.value))
        [.quote opening.value [.string text.value, .subshell tree, .string last.value]] [] []) := by
  have group : SubstitutionPhrase (sign :: paren :: (inner ++ [closing])) (.subshell tree) :=
    .subshell mark opensGroup phrase closesGroup
  have parts : InterpolationsPhrase (sign :: paren :: (inner ++ [closing]) ++ [last])
      [.subshell tree, .string last.value] :=
    .cons group lastFragment .nil
  have quoted := QuotePhrase.mixed opens fragment parts (List.cons_ne_nil _ _) closes
  have argument : ArgumentPhrase _ none _ := .value (.quote quoted) (by simp [assigns])
  have trailing : TrailingPhrase _ [_] [] := .argument argument .nil
  have noSign : opening.isMark assign = false := by
    apply Bool.eq_false_iff.mpr
    intro sign
    rw [not_opensQuote sign (by decide)] at opens
    cases opens
  have head : HeadPhrase [word] (some opening) (.literal word.value) :=
    .word isWord (by simp [assigns, noSign])
  have command := CommandPhrase.headed .nil head trailing
  have single := ListPhrase.single (.mk command .nil) .nil
  simpa using single

end Grammar

open Grammar

/-- A quote is resumed around any command that is substituted into it. The command may end neither
in a comment nor in a pending escape, which would take the closing parenthesis with them. -/
theorem parse_quoted_substitution {line before behind : String} {tokens : List Token} {tree : Node}
    {maxDepth : Int} {mark : Char} (limit : 0 ≤ maxDepth)
    (ran : tokenize line = .ok tokens) (parsed : parse tokens maxDepth = .ok tree)
    (kept : ∃ token ∈ tokens, token.kind ≠ .comment)
    (ended : ∀ token ∈ tokens.getLast?, token.kind ≠ .comment)
    (noEscape : pendingEscape (strip line.toList) = false) (quote : mark ∈ quoteMarks)
    (inert : ∀ c ∈ before.toList ++ behind.toList, c ≠ mark ∧ c ≠ sigil ∧ c ≠ escapeMark) :
    ∃ quoted, tokenize ("echo " ++ String.singleton mark ++ before ++ "$(" ++ line ++ ")" ++ behind
        ++ String.singleton mark) = .ok quoted ∧
      parse quoted (maxDepth + 2) = .ok (.command (some (.literal "echo"))
        [.quote (String.singleton mark) [.string before, .subshell tree, .string behind]] [] []) := by
  obtain ⟨phrase, fits⟩ := (parse_eq_ok_iff (withoutComments_ne_nil kept)).mp parsed
  have whole := Scanner.whole_of_tokenize ran ended noEscape phrase
  obtain ⟨inner, closing, signPos, parenPos, lastPos, stop, ran, phrase, closes⟩ :=
    whole.tokenize quote inert
  let word : Token := ⟨.literal, "echo", some 0, false, false⟩
  let text : Token := ⟨.fragment, before, some 6, false, false⟩
  let last : Token := ⟨.fragment, behind, lastPos, false, false⟩
  have opens : (Token.ofMark mark (some 5)).isSymbol (quoteMarks.map String.singleton) :=
    opensQuote_iff.mpr ⟨rfl, mark, quote, rfl⟩
  have quoted : ListPhrase (word :: .ofMark mark (some 5) :: text :: .ofMark sigil signPos ::
      .ofMark openParen parenPos :: (withoutComments inner ++ [closing, last, .ofMark mark stop])) _ :=
    phrase.quoted rfl opens rfl (isMark_ofMark sigil signPos) (isMark_ofMark openParen parenPos)
      closes rfl (isMark_ofMark mark stop)
  have closingKept : closing.kind ≠ .comment := by simp [kind_of_isMark closes]
  have filtered : withoutComments (word :: .ofMark mark (some 5) :: text :: .ofMark sigil signPos ::
      .ofMark openParen parenPos :: (inner ++ [closing, last, .ofMark mark stop])) =
        word :: .ofMark mark (some 5) :: text :: .ofMark sigil signPos ::
          .ofMark openParen parenPos :: (withoutComments inner ++
            [closing, last, .ofMark mark stop]) := by
    simp [withoutComments, word, text, last, Token.ofMark, closingKept]
  refine ⟨_, ran, (parse_eq_ok_iff ?_).mpr ⟨filtered ▸ quoted, ?_⟩⟩
  · rw [filtered]
    exact List.cons_ne_nil _ _
  · simp only [Node.levels, Node.levelsOption, Node.levelsAll, Node.levelsInQuote]
    omega

/-- The line `ls 'a'=` in a quote with the same mark. -/
theorem parse_quoted_sign : ∃ quoted, tokenize "echo 'x $(ls 'a'=)!'" = .ok quoted ∧
    parse quoted 3 = .ok (.command (some (.literal "echo"))
      [.quote "'" [.string "x ", .subshell (.command (some (.literal "ls"))
        [.string "'a'", .literal "="] [] []), .string "!"]] [] []) := by
  have ran : tokenize "ls 'a'=" = .ok [⟨.literal, "ls", some 0, false, false⟩,
    ⟨.symbol, "'", some 3, false, false⟩, ⟨.fragment, "a", some 4, false, false⟩,
    ⟨.symbol, "'", some 5, false, false⟩, ⟨.symbol, "=", some 6, true, false⟩] := rfl
  have parsed : parse _ 1 =
      .ok (.command (some (.literal "ls")) [.string "'a'", .literal "="] [] []) :=
    (rfl : parse [⟨.literal, "ls", some 0, false, false⟩,
      ⟨.symbol, "'", some 3, false, false⟩, ⟨.fragment, "a", some 4, false, false⟩,
      ⟨.symbol, "'", some 5, false, false⟩, ⟨.symbol, "=", some 6, true, false⟩] 1 = _)
  have shape : "echo 'x $(ls 'a'=)!'" = "echo " ++ String.singleton '\'' ++ "x " ++ "$(" ++
      "ls 'a'=" ++ ")" ++ "!" ++ String.singleton '\'' := by decide
  have inert : ∀ c ∈ "x ".toList ++ "!".toList, c ≠ '\'' ∧ c ≠ sigil ∧ c ≠ escapeMark := by
    simp [sigil, escapeMark]
  have quoted := parse_quoted_substitution (by decide) ran parsed ⟨_, List.mem_cons_self, by decide⟩
    (by simp) (by decide) (by decide) inert
  rw [shape]
  exact quoted

end ShellLine
