import ShellLine.Proofs.Nesting.Frames
import ShellLine.Proofs.Scanner.Layout

/-! # What a line leaves open

The scanner keeps no list of the quotes and groups that are open. Its tokens tell, also where it
stops with a fault: `unclosed` reads off them which symbols are still to be closed. Those are the
parentheses and quotes that the stack and the context stand for, `Scanner.Opens`, which every step
keeps. So the end of a line is a fault exactly if its tokens leave a symbol unclosed, and which
fault it is depends on the innermost one: `tokenize_judged`.
-/

namespace ShellLine

open Alphabet Text

/-- No quote is opened by a parenthesis. -/
theorem not_openParen_of_opensQuote {token : Token}
    (opens : token.isSymbol (quoteMarks.map String.singleton)) : token.isMark openParen = false := by
  rw [Bool.eq_false_iff]
  intro group
  rw [not_opensQuote group (by decide)] at opens
  cases opens

/-! ## Unclosed symbols -/

/-- The symbols that are still to be closed after one more token, innermost first. A quote mark
closes the innermost symbol if that is the same mark, and opens a quote otherwise. A closing
parenthesis closes the innermost group, if there is one. -/
def unclosedAfter (opened : List Token) (token : Token) : List Token :=
  if token.isSymbol (quoteMarks.map String.singleton) then
    if opened.head?.any (·.isSymbol [token.value]) then opened.tail else token :: opened
  else if token.isMark openParen then token :: opened
  else if token.isMark closeParen then opened.eraseP (·.isMark openParen)
  else opened

/-- The symbols that some tokens leave unclosed, innermost first. -/
def unclosed (tokens : List Token) : List Token :=
  tokens.foldl unclosedAfter []

section Tokens

variable {opened : List Token} {token : Token}

theorem unclosedAfter_of_plain (plain : token.plain) : unclosedAfter opened token = opened := by
  simp only [Token.plain, Bool.and_eq_true, bne_iff_ne, Bool.not_eq_true'] at plain
  simp [unclosedAfter, plain]

theorem unclosedAfter_of_fragment (fragment : token.kind = .fragment) :
    unclosedAfter opened token = opened := by
  simp [unclosedAfter, Token.isMark, Token.isSymbol, fragment]

/-- A quote opens between tokens, where at most a parenthesis is the innermost symbol. -/
theorem unclosedAfter_of_opensQuote (opens : token.isSymbol (quoteMarks.map String.singleton))
    (between : ∀ innermost ∈ opened.head?, innermost.isMark openParen) :
    unclosedAfter opened token = token :: opened := by
  have other : opened.head?.any (·.isSymbol [token.value]) = false := by
    rw [Option.any_eq_false]
    intro innermost first
    simpa using not_closesQuote opens (between innermost first) (by decide)
  simp [unclosedAfter, opens, other]

theorem unclosedAfter_of_closesQuote {opening : Token}
    (opens : token.isSymbol (quoteMarks.map String.singleton))
    (same : opening.isSymbol [token.value]) :
    unclosedAfter (opening :: opened) token = opened := by
  simp [unclosedAfter, opens, same]

theorem unclosedAfter_of_openParen (opens : token.isMark openParen) :
    unclosedAfter opened token = token :: opened := by
  simp [unclosedAfter, not_opensQuote opens (by decide), opens]

theorem unclosedAfter_of_closeParen (closes : token.isMark closeParen) :
    unclosedAfter opened token = opened.eraseP (·.isMark openParen) := by
  have noOpening : token.isMark openParen = false := isMark_of_isMark closes (by decide)
  simp [unclosedAfter, not_opensQuote closes (by decide), noOpening, closes]

theorem mem_of_mem_unclosedAfter {opening : Token} (member : opening ∈ unclosedAfter opened token) :
    opening ∈ opened ∨ opening = token := by
  unfold unclosedAfter at member
  split at member
  case isTrue =>
    split at member
    · exact .inl (List.mem_of_mem_tail member)
    · exact (List.mem_cons.mp member).symm
  case isFalse =>
    split at member
    · exact (List.mem_cons.mp member).symm
    · split at member
      · exact .inl (List.mem_of_mem_eraseP member)
      · exact .inl member

/-- Every unclosed symbol is one of the tokens. -/
theorem mem_of_mem_unclosed {tokens : List Token} {opening : Token}
    (member : opening ∈ unclosed tokens) : opening ∈ tokens := by
  suffices ∀ opened, opening ∈ tokens.foldl unclosedAfter opened →
      opening ∈ opened ∨ opening ∈ tokens by
    simpa using this [] member
  clear member
  induction tokens with
  | nil => exact fun opened member => .inl member
  | cons token rest ih =>
    intro opened member
    rcases ih _ member with early | later
    · exact (mem_of_mem_unclosedAfter early).imp id fun same => List.mem_cons.mpr (.inl same)
    · exact .inr (List.mem_cons_of_mem _ later)

end Tokens

/-! ## What the stack stands for -/

/-- The mark that opened a quote. -/
def ScanContext.openingMark (context : ScanContext) : Token :=
  ⟨.symbol, context.delimiter, context.opened, false, false⟩

theorem ScanContext.IsQuote.opensQuote {context : ScanContext} (quote : context.IsQuote) :
    context.openingMark.isSymbol (quoteMarks.map String.singleton) :=
  opensQuote_iff.mpr ⟨rfl, quote.2⟩

/-- The symbols that are open inside the constructs of a stack: a parenthesis for each of them, and
the mark of a quote that is to be resumed. -/
inductive Encloses : List ScanContext → List Token → Prop
  | nil : Encloses [] []
  | group {outer : ScanContext} {rest : List ScanContext} {paren : Token} {opened : List Token} :
      outer.mode ≠ .quote → paren.isMark openParen → Encloses rest opened →
      Encloses (outer :: rest) (paren :: opened)
  | quoted {outer : ScanContext} {rest : List ScanContext} {paren : Token} {opened : List Token} :
      outer.mode = .quote → paren.isMark openParen → Encloses rest opened →
      Encloses (outer :: rest) (paren :: outer.openingMark :: opened)

theorem Encloses.head {stack : List ScanContext} {opened : List Token}
    (encloses : Encloses stack opened) : ∀ innermost ∈ opened.head?, innermost.isMark openParen := by
  cases encloses with
  | nil => simp
  | group _ opens _ => simpa using opens
  | quoted _ opens _ => simpa using opens

/-- There are as many open groups as there are contexts on the stack. -/
theorem Encloses.count {stack : List ScanContext} {opened : List Token}
    (encloses : Encloses stack opened) (resumable : ∀ outer ∈ stack, outer.Resumable) :
    opened.countP (·.isMark openParen) = stack.length := by
  induction encloses with
  | nil => rfl
  | group _ opens _ ih =>
    rw [List.forall_mem_cons] at resumable
    simp [opens, ih resumable.2]
  | @quoted outer rest paren opened quote opens _ ih =>
    rw [List.forall_mem_cons] at resumable
    have isQuote : outer.IsQuote := by
      rcases resumable.1 with start | isQuote
      · simp [start] at quote
      · exact isQuote
    have noParen := not_openParen_of_opensQuote isQuote.opensQuote
    simp [opens, noParen, ih resumable.2]

namespace Scanner

/-- The open symbols are those that the stack and the context stand for. After a sigil the context
on top of the stack waits for a parenthesis that may still come. -/
def Opens (s : Scanner) (opened : List Token) : Prop :=
  match s.context.mode with
  | .quote => ∃ around, opened = s.context.openingMark :: around ∧ Encloses s.stack around
  | .substitution => ∀ paren : Token, paren.isMark openParen → Encloses s.stack (paren :: opened)
  | _ => Encloses s.stack opened

/-- What the tokens leave unclosed is what the stack and the context stand for. -/
def Nests (s : Scanner) : Prop :=
  s.Opens (unclosed s.tokens)

/-! ## Single tokens -/

theorem unclosed_emit (s : Scanner) (token : Token) :
    unclosed (s.emit token).tokens = unclosedAfter (unclosed s.tokens) token := by
  simp [unclosed, tokens, emit]

theorem unclosed_flush (s : Scanner) {kind : TokenKind} {fallback : Option Int}
    (inert : ∀ token : Token, token.kind = kind → token.value = s.buffer →
      ∀ opened, unclosedAfter opened token = opened) :
    unclosed (s.flush kind fallback).tokens = unclosed s.tokens := by
  simp only [unclosed, tokens, flush, List.reverse_cons, List.foldl_append, List.foldl_cons,
    List.foldl_nil]
  exact inert _ rfl rfl _

theorem unclosed_flush_of_kind (s : Scanner) {kind : TokenKind} {fallback : Option Int}
    (noSymbol : kind ≠ .symbol) :
    unclosed (s.flush kind fallback).tokens = unclosed s.tokens := by
  refine s.unclosed_flush fun token same _ opened => ?_
  by_cases fragment : token.kind = .fragment
  · exact unclosedAfter_of_fragment fragment
  · exact unclosedAfter_of_plain (plain_of_kind (same ▸ noSymbol) fragment)

theorem unclosed_flush_operator {s : Scanner} (operator : s.buffer ∈ redirectOperators) :
    unclosed (s.flush .symbol).tokens = unclosed s.tokens :=
  s.unclosed_flush fun _ symbol value _ =>
    unclosedAfter_of_plain (plain_of_operator symbol (value ▸ operator))

theorem unclosed_flushName (s : Scanner) : unclosed s.flushName.tokens = unclosed s.tokens := by
  unfold flushName
  split
  case isTrue => rfl
  case isFalse => exact s.unclosed_flush_of_kind (by decide)

/-- A context that is resumed stands for what was open around its parenthesis. -/
theorem opens_pop {s : Scanner} {paren : Token} {opened : List Token}
    (encloses : Encloses s.stack (paren :: opened)) (resumable : ∀ outer ∈ s.stack, outer.Resumable) :
    s.pop.Opens opened := by
  generalize stack : s.stack = contexts at encloses resumable
  cases encloses with
  | @group outer rest _ _ noQuote _ encloses =>
    have start : outer.mode = .start :=
      (resumable outer List.mem_cons_self).resolve_right fun quote => noQuote quote.1
    simpa [pop, stack, Opens, start] using encloses
  | @quoted outer rest _ _ quote _ encloses =>
    simpa [pop, stack, Opens, quote] using encloses

/-! ## Whole steps -/

variable {s : Scanner} {next : Option Char} {c : Char} {pos : Int}

/-- What keeps the tokens, the context and the stack keeps what is open. -/
theorem Nests.congr {kept : Scanner} (nests : s.Nests) (tokens : kept.tokens = s.tokens)
    (context : kept.context = s.context) (stack : kept.stack = s.stack) : kept.Nests := by
  unfold Nests Opens at nests ⊢
  rwa [tokens, context, stack]

/-- What settles a token neither opens nor closes anything. -/
theorem unclosed_settle (coherent : s.Coherent) : unclosed s.settle.tokens = unclosed s.tokens := by
  cases mode : s.context.mode with
  | start => rw [settle_eq_self (.inl mode)]
  | quote => rw [settle_eq_self (.inr (.inl mode))]
  | comment => rw [settle_eq_self (.inr (.inr mode))]
  | literal =>
    rw [settle_of_literal mode]
    exact s.unclosed_flush_of_kind (by split <;> decide)
  | wildcard =>
    rw [settle_of_wildcard mode]
    exact s.unclosed_flush_of_kind (by decide)
  | operator =>
    rw [settle_of_operator mode]
    exact unclosed_flush_operator (coherent.operator_of_mode mode)
  | substitution =>
    rw [settle_of_substitution mode, tokens, pop_emitted, ← tokens, unclosed_flushName]

theorem Nests.settle (nests : s.Nests) (coherent : s.Coherent) : s.settle.Nests := by
  rw [Nests, unclosed_settle coherent]
  cases mode : s.context.mode with
  | start => rwa [settle_eq_self (.inl mode)]
  | quote => rwa [settle_eq_self (.inr (.inl mode))]
  | comment => rwa [settle_eq_self (.inr (.inr mode))]
  | literal =>
    simp only [Nests, Opens, mode] at nests
    rw [settle_of_literal mode]
    exact nests
  | wildcard =>
    simp only [Nests, Opens, mode] at nests
    rw [settle_of_wildcard mode]
    exact nests
  | operator =>
    simp only [Nests, Opens, mode] at nests
    rw [settle_of_operator mode]
    exact nests
  | substitution =>
    simp only [Nests, Opens, mode] at nests
    have encloses := nests (.ofMark openParen) (isMark_ofMark _ _)
    rw [← flushName_stack] at encloses
    rw [settle_of_substitution mode]
    exact opens_pop encloses (by rw [flushName_stack]; exact coherent.resumable)

theorem Nests.stepStart (nests : s.Nests) (mode : s.context.mode = .start)
    (resumable : ∀ outer ∈ s.stack, outer.Resumable) : (s.stepStart next c pos).Nests := by
  simp only [Nests, Opens, mode] at nests
  have isMark := isMark_ofMark c (some pos)
  have plain (apart : c ∉ quoteMarks ∧ c ≠ openParen ∧ c ≠ closeParen) :
      unclosed (s.emit (.ofMark c pos)).tokens = unclosed s.tokens :=
    (unclosed_emit ..).trans (unclosedAfter_of_plain (plain_of_mark apart isMark))
  refine s.stepStart_cases next c pos ?blank ?escape ?quote ?operator ?assign ?symbol ?comment
    ?sigil ?opening ?closing ?star ?word
  case blank => exact fun _ => nests
  case escape => exact fun _ => nests
  case operator => exact fun _ => nests
  case comment => exact fun _ => nests
  case star => exact fun _ => nests
  case word => exact fun _ _ _ _ _ => nests
  case quote =>
    intro mark
    refine ⟨unclosed s.tokens, ?_, nests⟩
    exact (unclosed_emit ..).trans
      (unclosedAfter_of_opensQuote (opensQuote_iff.mpr ⟨rfl, c, mark, rfl⟩) nests.head)
  case assign =>
    intro _
    have plain : (s.assignToken next pos).plain :=
      plain_of_mark (by decide) (s.isMark_assignToken next pos)
    change Encloses s.stack (unclosed (s.emit (s.assignToken next pos)).tokens)
    rwa [unclosed_emit, unclosedAfter_of_plain plain]
  case symbol =>
    intro symbol _
    change Encloses s.stack (unclosed (s.emit (.ofMark c pos)).tokens)
    rwa [plain (apart_of_plainSymbols symbol)]
  case sigil =>
    rintro rfl paren opens
    change Encloses _ (paren :: unclosed (s.emit (.ofMark Alphabet.sigil pos)).tokens)
    rw [plain (by decide)]
    exact .group (show ScanMode.start ≠ .quote by decide) opens nests
  case opening =>
    rintro rfl
    change Encloses _ (unclosed (s.emit (.ofMark openParen pos)).tokens)
    rw [unclosed_emit, unclosedAfter_of_openParen isMark]
    exact .group (show ScanMode.start ≠ .quote by decide) isMark nests
  case closing =>
    rintro rfl
    rw [Nests, tokens, pop_emitted, ← tokens, unclosed_emit, unclosedAfter_of_closeParen isMark]
    cases opened : unclosed s.tokens with
    | nil =>
      rw [opened] at nests
      generalize stack : s.stack = contexts at nests
      cases nests
      simpa [pop, emit, stack, Opens] using Encloses.nil
    | cons paren around =>
      rw [opened] at nests
      have opens : paren.isMark openParen := nests.head paren rfl
      have closed : (paren :: around).eraseP (·.isMark openParen) = around :=
        List.eraseP_cons_of_pos opens
      rw [closed]
      exact opens_pop (s := s.emit _) nests resumable

theorem Nests.stepQuote (nests : s.Nests) (quote : s.context.IsQuote) :
    (s.stepQuote c pos).Nests := by
  obtain ⟨around, opened, encloses⟩ : ∃ around,
      unclosed s.tokens = s.context.openingMark :: around ∧ Encloses s.stack around := by
    simpa only [Nests, Opens, quote.1] using nests
  have afterText : unclosed (s.endFragment c pos).tokens =
      unclosedAfter (s.context.openingMark :: around) (.ofMark c pos) := by
    rw [endFragment, unclosed_emit, s.unclosed_flush_of_kind (by decide), opened]
  refine s.stepQuote_cases c pos ?escape ?sigil ?text ?closing
  case escape => exact fun _ => nests.congr rfl rfl rfl
  case text => exact fun _ _ _ => nests.congr rfl rfl rfl
  case sigil =>
    rintro rfl paren opens
    change Encloses (s.context :: s.stack)
      (paren :: unclosed (s.endFragment Alphabet.sigil pos).tokens)
    rw [afterText, unclosedAfter_of_plain (plain_of_mark (by decide) (isMark_ofMark _ _))]
    exact .quoted quote.1 opens encloses
  case closing =>
    intro same
    obtain ⟨mark, member, delimiter⟩ := quote.2
    obtain rfl : c = mark := String.singleton_inj.mp (same.trans delimiter)
    have opens : (Token.ofMark c pos).isSymbol (quoteMarks.map String.singleton) :=
      opensQuote_iff.mpr ⟨rfl, c, member, rfl⟩
    have closes : s.context.openingMark.isMark c := Token.isMark_iff.mpr ⟨rfl, delimiter⟩
    change Encloses s.stack (unclosed (s.endFragment c pos).tokens)
    rwa [afterText, unclosedAfter_of_closesQuote opens closes]

theorem Nests.openSubshell (nests : s.Nests) (mode : s.context.mode = .substitution) :
    (s.openSubshell openParen pos).Nests := by
  simp only [Nests, Opens, mode] at nests
  have opens := isMark_ofMark openParen (some pos)
  change Encloses s.stack (unclosed (s.emit (.ofMark openParen pos)).tokens)
  rw [unclosed_emit, unclosedAfter_of_openParen opens]
  exact nests _ opens

theorem Nests.flushComment (nests : s.Nests) (mode : s.context.mode = .comment) :
    Encloses s.stack (unclosed (s.flush .comment).tokens) := by
  simp only [Nests, Opens, mode] at nests
  rwa [s.unclosed_flush_of_kind (by decide)]

/-- A step keeps the stack and the unclosed symbols together. -/
theorem Nests.step (nests : s.Nests) (coherent : s.Coherent) (next : Option Char) (c : Char)
    (pos : Int) : (s.step next c pos).Nests := by
  have fits := coherent.fits
  refine coherent.step_cases ?escaped ?goesOn ?start ?quote ?comment
  case escaped => exact fun _ => nests.congr rfl rfl rfl
  case goesOn =>
    intro plain goesOn
    refine step_cases_of_continues next plain goesOn ?keep ?escape ?star ?double ?subshell
    case keep => exact fun _ => nests.congr rfl rfl rfl
    case escape => exact fun _ _ => nests.congr rfl rfl rfl
    case star =>
      intro mode _
      simp only [Nests, Opens, mode] at nests
      exact nests
    case double =>
      intro mode same
      simp only [Nests, Opens, mode] at nests
      have doubled : (s.keep c pos).buffer ∈ redirectOperators :=
        coherent.operator_of_double mode same
      change Encloses s.stack (unclosed ((s.keep c pos).flush .symbol).tokens)
      rwa [unclosed_flush_operator doubled]
    case subshell =>
      rintro mode rfl _
      exact nests.openSubshell mode
  case start =>
    intro plain mode _
    obtain ⟨settled, _⟩ := coherent.settle plain
    exact (nests.settle coherent).stepStart mode settled.resumable
  case quote => exact fun _ quote => (nests.settle coherent).stepQuote quote
  case comment =>
    intro _ mode
    unfold stepComment
    split
    case isTrue => exact nests.flushComment mode
    case isFalse => exact nests.congr rfl rfl rfl

/-- The end of a text keeps them together as well. -/
theorem Nests.complete (nests : s.Nests) (coherent : s.Coherent) : s.complete.Nests := by
  by_cases mode : s.context.mode = .comment
  · rw [Scanner.complete, if_pos mode]
    have flushed : (s.flush .comment).context.mode = .comment := mode
    simp only [Nests, Opens, flushed]
    exact nests.flushComment mode
  · rw [Scanner.complete, if_neg mode]
    exact nests.settle coherent

/-- Outside quoted text the stack stands for all that is open at the end of a text. -/
theorem Nests.encloses_complete (nests : s.Nests) (coherent : s.Coherent)
    (closed : s.complete.context.mode ≠ .quote) :
    Encloses s.complete.stack (unclosed s.complete.tokens) := by
  have settled := nests.complete coherent
  rcases coherent.context_complete with (start | isQuote) | comment
  · simpa only [Nests, Opens, start] using settled
  · exact absurd isQuote.1 closed
  · simpa only [Nests, Opens, comment] using settled

/-- Reading a text from a fresh start keeps them together. -/
theorem nests_run (start : Int) (text : List Char) (after : Option Char) :
    (({} : Scanner).run start text after).Nests :=
  (coherent_fresh.run_induction (motive := fun _ s => s.Nests) start text after .nil
    fun _ _ next c coherent nests => nests.step coherent next c _).2

end Scanner

/-! ## The verdict on a line -/

/-- How the end of a text is judged by the symbols that are unclosed, the innermost of which
decides. -/
inductive Verdict : List Token → Option LexicalFault → Prop
  | closed : Verdict [] none
  | quote {opening : Token} {around : List Token} :
      opening.isSymbol (quoteMarks.map String.singleton) →
      Verdict (opening :: around) (some (.unterminatedQuote opening.value opening.pos))
  | group {opening : Token} {around : List Token} {opened : Option Int} :
      opening.isMark openParen →
      Verdict (opening :: around)
        (some (.danglingContext ((opening :: around).countP (·.isMark openParen)) opened))

/-- The end of a text is judged by what its tokens leave unclosed. -/
theorem Scanner.Nests.verdict {s : Scanner} (nests : s.Nests) (coherent : s.Coherent) :
    Verdict (unclosed (s.finish false).1.tokens) (s.finish false).2 := by
  have settled := nests.complete coherent
  by_cases quote : s.complete.context.mode = .quote
  case pos =>
    obtain ⟨around, opened, _⟩ : ∃ around, unclosed s.complete.tokens =
        s.complete.context.openingMark :: around ∧ Encloses s.complete.stack around := by
      simpa only [Nests, Opens, quote] using settled
    have isQuote : s.complete.context.IsQuote := by
      rcases coherent.context_complete with (start | isQuote) | comment
      · simp [start] at quote
      · exact isQuote
      · simp [comment] at quote
    rw [coherent.finish_of_quote quote, opened]
    exact .quote isQuote.opensQuote
  case neg =>
    obtain ⟨emitted, fault⟩ := coherent.finish_of_closed quote
    have encloses := nests.encloses_complete coherent quote
    have count := encloses.count fun outer member =>
      coherent.resumable outer (mem_stack_of_complete member)
    rw [fault, tokens, emitted, ← tokens, dangling, ← count]
    have innermost := encloses.head
    cases opened : unclosed s.complete.tokens with
    | nil =>
      rw [opened] at count
      have nothing : s.complete.stack = [] := List.eq_nil_of_length_eq_zero count.symm
      rw [nothing]
      exact .closed
    | cons paren around =>
      rw [opened] at count innermost
      have opens : paren.isMark openParen := innermost paren rfl
      obtain ⟨outer, rest, stack⟩ : ∃ outer rest, s.complete.stack = outer :: rest := by
        refine List.exists_cons_of_length_pos ?_
        simp [← count, opens]
      rw [stack]
      exact .group opens

/-- The tokens that reading a line leaves, also where it stops with a fault. -/
def leftover (line : String) : List Token :=
  match Tokenizer.tokenize.run { text := line } with
  | .ok _ after => after.scanner.tokens
  | .error _ after => after.scanner.tokens

theorem leftover_eq (line : String) :
    leftover line = ((Scanner.ofText line.toList).finish false).1.tokens := by
  rw [leftover, Tokenizer.tokenize_run]
  simp only [Tokenizer.lengthFault, Option.bind_none]
  cases (Scanner.ofText line.toList).finish false with
  | mk last fault => cases fault <;> rfl

theorem leftover_eq_complete (line : String) :
    leftover line = (Scanner.ofText line.toList).complete.tokens := by
  have coherent := Scanner.coherent_ofText line.toList
  rw [leftover_eq, Scanner.tokens, Scanner.tokens]
  by_cases quote : (Scanner.ofText line.toList).complete.context.mode = .quote
  · rw [coherent.finish_of_quote quote]
  · rw [(coherent.finish_of_closed quote).1]

/-- The tokens that reading a line leaves stand in it. -/
theorem exists_split_of_mem_leftover {line : String} {token : Token}
    (member : token ∈ leftover line) :
    ∃ before after, line.toList = before ++ (token.value.toList ++ after) ∧
      token.pos = some (before.length : Int) := by
  have coherent := Scanner.coherent_ofText line.toList
  obtain ⟨leading, trailing, length, _, _, same⟩ := exists_eq_append_strip line.toList
  obtain ⟨covered, laid, read, _⟩ : (Scanner.ofText line.toList).complete.Tracks _ _ :=
    (Scanner.tracks_run (leadingBlanks line.toList) (strip line.toList)).complete coherent
  rw [leftover_eq_complete, Scanner.tokens, List.mem_reverse] at member
  obtain ⟨before, after, split, pos⟩ := laid.exists_split member
  generalize (Scanner.ofText line.toList).complete.buffer.toList = unfinished at read
  refine ⟨leading ++ before, after ++ (unfinished ++ trailing), ?_, ?_⟩
  · rw [same, read, split]
    simp
  · rw [pos, ← length, List.length_append, Int.natCast_add]

theorem pos_of_mem_leftover {line : String} {token : Token} (member : token ∈ leftover line) :
    ∃ pos : Nat, token.pos = some (pos : Int) := by
  obtain ⟨before, _, _, pos⟩ := exists_split_of_mem_leftover member
  exact ⟨before.length, pos⟩

/-- A line is judged by the symbols that its tokens leave unclosed, innermost first. -/
structure Judged (opened : List Token) (outcome : Except LexicalFault (List Token)) : Prop where
  /-- It has tokens exactly if everything is closed. -/
  accepted : (∃ tokens, outcome = .ok tokens) ↔ opened = []
  /-- A quote is unterminated exactly if the innermost unclosed symbol is a quote mark. -/
  unterminated : (∃ fault, outcome = .error fault ∧ fault.kind = .unterminatedQuote) ↔
    ∃ opening ∈ opened.head?, opening.isSymbol (quoteMarks.map String.singleton)
  /-- The fault tells that mark and where it stands. -/
  quote : ∀ fault, outcome = .error fault → fault.kind = .unterminatedQuote →
    ∃ opening ∈ opened.head?, ∃ pos : Nat, opening.pos = some (pos : Int) ∧
      fault.diagnostic.pos = some (pos : Int) ∧
      fault.diagnostic.detail = "Unterminated " ++ opening.value ++ " quote"
  /-- A context is left dangling exactly if the innermost unclosed symbol is a parenthesis. -/
  dangling : (∃ fault, outcome = .error fault ∧ fault.kind = .danglingContext) ↔
    ∃ opening ∈ opened.head?, opening.isMark openParen
  /-- The fault tells how many groups are open. -/
  groups : ∀ fault, outcome = .error fault → fault.kind = .danglingContext →
    fault.diagnostic.detail = toString (opened.countP (·.isMark openParen)) ++
      " unclosed substitution or group context(s)"

/-- A verdict on a text judges the outcome of reading it. -/
theorem Verdict.judged {opened : List Token} {fault : Option LexicalFault}
    (verdict : Verdict opened fault)
    (placed : ∀ opening ∈ opened.head?, ∃ pos : Nat, opening.pos = some (pos : Int))
    (tokens : List Token) : Judged opened (fault.elim (.ok tokens) .error) := by
  cases verdict with
  | closed => constructor <;> simp
  | @quote opening around opens =>
    obtain ⟨pos, stands⟩ := placed opening rfl
    have noGroup := not_openParen_of_opensQuote opens
    constructor
    case quote =>
      rintro _ ⟨⟩ _
      exact ⟨opening, rfl, pos, stands, stands, rfl⟩
    all_goals simp [LexicalFault.kind, opens, noGroup]
  | group opens =>
    have noQuote := not_opensQuote opens (by decide)
    constructor
    case groups =>
      rintro _ ⟨⟩ _
      rfl
    all_goals simp [LexicalFault.kind, opens, noQuote]

/-- Whether a line has tokens, and what is wrong if it has none, can be told from what reading it
leaves. -/
theorem tokenize_judged (line : String) : Judged (unclosed (leftover line)) (tokenize line) := by
  have coherent : (Scanner.ofText line.toList).Coherent :=
    Scanner.coherent_run Scanner.coherent_fresh ..
  have nests : (Scanner.ofText line.toList).Nests := Scanner.nests_run ..
  have placed : ∀ opening ∈ (unclosed (leftover line)).head?,
      ∃ pos : Nat, opening.pos = some (pos : Int) := fun opening first =>
    pos_of_mem_leftover (mem_of_mem_unclosed (List.mem_of_mem_head? first))
  have verdict := nests.verdict coherent
  rw [leftover_eq] at placed ⊢
  rw [tokenize_eq]
  have judged := verdict.judged placed ((Scanner.ofText line.toList).finish false).1.tokens
  cases ended : (Scanner.ofText line.toList).finish false with
  | mk last fault =>
    rw [ended] at judged
    cases fault <;> exact judged

/-- A group inside of a quote is to be closed first. -/
example : (unclosed (leftover "a \"$(b")).map Token.value = ["(", "\""] :=
  rfl

end ShellLine
