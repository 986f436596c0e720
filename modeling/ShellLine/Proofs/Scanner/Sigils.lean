import Mathlib.Data.List.Chain
import ShellLine.Proofs.Reading.Marks
import ShellLine.Proofs.Scanner.Endings
import ShellLine.Proofs.Scanner.Layout

/-! # What stands right after a sigil

Whether a sigil introduces something is decided by the one character after it. If that starts a name
or opens a group, then the next token is that name or that parenthesis; otherwise the next token is
no name. `Adjoins` keeps this while a text is read, and says of a sigil with no token after it yet
what is known so far: nothing, the start of a name, or that nothing adjoins it.
-/

namespace ShellLine

open Alphabet Text

/-- Whether a character right after a sigil starts what the sigil introduces. -/
def introduces (c : Char) : Bool :=
  isAlphanumeric c || nameMarks.contains c || c == openParen

theorem introduces_of_isBlank {c : Char} (blank : isBlank c) : introduces c = false := by
  have apart := separates_of_isBlank blank
  simp only [separates, List.append_assoc, List.contains_eq_mem, List.mem_append,
    List.mem_cons, List.not_mem_nil, or_false, Bool.and_eq_true, Bool.not_eq_true',
    decide_eq_false_iff_not, not_or] at apart
  simp [introduces, apart]

/-! ## Tokens side by side -/

/-- If the token is a sigil of the text, then nothing adjoins it that a sigil introduces. -/
def Alone (text : List Char) (token : Token) : Prop :=
  token.isMark sigil → ∃ pos : Nat, token.pos = some (pos : Int) ∧
    text[pos + 1]?.any introduces = false

/-- What the text allows for a token and the next one. -/
inductive Sits (text : List Char) : Token → Token → Prop
  | alone {token next : Token} :
      Alone text token → next.kind ≠ .identifier → Sits text token next
  | adjoined {token next : Token} {pos : Nat} :
      token.isMark sigil → token.pos = some (pos : Int) → text[pos + 1]?.any introduces →
      next.introduced → next.pos = some ((pos + 1 : Nat) : Int) → Sits text token next

/-- Tokens, newest first, whose neighbours sit in the text. -/
def Chained (text : List Char) (tokens : List Token) : Prop :=
  tokens.IsChain fun next token => Sits text token next

/-- The next token is not going to be a name. -/
structure Settled (text : List Char) (tokens : List Token) : Prop where
  chained : Chained text tokens
  alone : ∀ last ∈ tokens.head?, Alone text last

section Tokens

variable {text : List Char} {tokens : List Token} {next : Token}

theorem alone_of_ne (noSigil : next.isMark sigil = false) : Alone text next := by
  simp [Alone, noSigil]

theorem Settled.chained_cons (settled : Settled text tokens) (noName : next.kind ≠ .identifier) :
    Chained text (next :: tokens) :=
  List.isChain_cons.mpr
    ⟨fun last first => .alone (settled.alone last first) noName, settled.chained⟩

theorem Settled.cons (settled : Settled text tokens) (noName : next.kind ≠ .identifier)
    (noSigil : next.isMark sigil = false) : Settled text (next :: tokens) :=
  ⟨settled.chained_cons noName, by simpa using alone_of_ne noSigil⟩

end Tokens

/-! ## Sigils while a text is read -/

namespace Scanner

/-- The newest token is a sigil, and either it was read last or the name that it introduces is in the
buffer. -/
def Introducing (text : List Char) (stop : Nat) (s : Scanner) : Prop :=
  ∃ mark older, ∃ pos : Nat, s.emitted = mark :: older ∧ mark.isMark sigil ∧
    mark.pos = some (pos : Int) ∧ Chained text s.emitted ∧
    (s.buffer = "" ∧ stop = pos + 1 ∨
      s.buffer ≠ "" ∧ s.bufferPos = some ((pos + 1 : Nat) : Int) ∧ text[pos + 1]?.any introduces)

/-- The tokens sit in a text that has been read up to an index. -/
def Adjoins (text : List Char) (stop : Nat) (s : Scanner) : Prop :=
  if s.context.mode = .substitution then s.Introducing text stop else Settled text s.emitted

end Scanner

section Steps

open Scanner

variable {text : List Char} {stop : Nat} {s : Scanner} {c : Char} {pos : Int}

theorem Scanner.Adjoins.inMode (mode : ScanMode) (inMode : s.context.mode = mode)
    (apart : mode ≠ .substitution) (settled : Settled text s.emitted) : s.Adjoins text stop := by
  rwa [Scanner.Adjoins, if_neg (inMode ▸ apart)]

theorem Scanner.Adjoins.afterSigil (mode : s.context.mode = .substitution)
    (introducing : s.Introducing text stop) : s.Adjoins text stop := by
  rwa [Scanner.Adjoins, if_pos mode]

/-- Only a name or a sigil changes what is to be said. -/
theorem Settled.flush {kind : TokenKind} {fallback : Option Int}
    (settled : Settled text s.emitted) (noName : kind ≠ .identifier)
    (noSigil : kind = .symbol → s.buffer ≠ String.singleton sigil) :
    Settled text (s.flush kind fallback).emitted := by
  refine settled.cons noName (Bool.eq_false_iff.mpr fun mark => ?_)
  obtain ⟨symbol, value⟩ := Token.isMark_iff.mp mark
  exact noSigil symbol value

theorem Settled.flush_operator (settled : Settled text s.emitted)
    (operator : s.buffer ∈ redirectOperators) : Settled text (s.flush .symbol).emitted := by
  refine settled.flush (by decide) ?_
  rintro - same
  exact absurd (same ▸ operator) (by decide)

theorem Settled.emit_ofMark (settled : Settled text s.emitted) (apart : c ≠ sigil) :
    Settled text (s.emit (.ofMark c pos)).emitted :=
  settled.cons (show TokenKind.symbol ≠ .identifier by decide)
    (isMark_of_isMark (isMark_ofMark c pos) apart)

/-- A sigil is read. -/
theorem Settled.introducing {after : Scanner} {tokens : List Token} (settled : Settled text tokens)
    (emitted : after.emitted = .ofMark sigil (stop : Int) :: tokens) (empty : after.buffer = "") :
    after.Introducing text (stop + 1) := by
  refine ⟨_, _, stop, emitted, isMark_ofMark .., rfl, ?_, .inl ⟨empty, rfl⟩⟩
  rw [emitted]
  exact settled.chained_cons (show TokenKind.symbol ≠ .identifier by decide)

theorem Settled.stepStart (settled : Settled text s.emitted) (empty : s.buffer = "")
    (resumable : ∀ outer ∈ s.stack, outer.Resumable) (next : Option Char) :
    (s.stepStart next c stop).Adjoins text (stop + 1) := by
  have emitted (apart : c ≠ sigil) : Settled text (s.emit (.ofMark c (stop : Int))).emitted :=
    settled.emit_ofMark apart
  refine s.stepStart_cases next c stop ?blank ?escape ?quote ?operator ?assign ?symbol ?comment
    ?sigil ?opening ?closing ?star ?word
  case blank => exact fun _ => .inMode .start rfl (by decide) settled
  case escape => exact fun _ => .inMode .literal rfl (by decide) settled
  case operator => exact fun _ => .inMode .operator rfl (by decide) settled
  case comment => exact fun _ => .inMode .comment rfl (by decide) settled
  case star => exact fun _ => .inMode .wildcard rfl (by decide) settled
  case word =>
    exact fun _ _ _ _ _ => .inMode .literal rfl (by decide) settled
  case quote =>
    intro mark
    exact .inMode .quote rfl (by decide) (emitted (ne_of_mem_of_not_mem mark (by decide)))
  case assign =>
    intro _
    have signed : Settled text (s.emit (s.assignToken next stop)).emitted :=
      settled.cons (show TokenKind.symbol ≠ .identifier by decide)
        (isMark_of_isMark (s.isMark_assignToken next stop) (by decide))
    exact .inMode .start rfl (by decide) signed
  case symbol =>
    intro symbol _
    exact .inMode .start rfl (by decide) (emitted (ne_of_mem_of_not_mem symbol (by decide)))
  case sigil =>
    rintro rfl
    exact .afterSigil rfl (settled.introducing rfl empty)
  case opening =>
    rintro rfl
    exact .inMode .start rfl (by decide) (emitted (by decide))
  case closing =>
    rintro rfl
    have popped : (s.emit (.ofMark closeParen (stop : Int))).pop.context.Resumable :=
      Scanner.resumable_pop resumable
    refine .inMode _ rfl popped.apart ?_
    rw [Scanner.pop_emitted]
    exact emitted (by decide)

theorem Settled.stepQuote (settled : Settled text s.emitted) (quote : s.context.IsQuote) :
    (s.stepQuote c stop).Adjoins text (stop + 1) := by
  have afterText : Settled text (s.flush .fragment (some (stop : Int))).emitted :=
    settled.flush (by decide) (by simp)
  refine s.stepQuote_cases c stop ?escape ?sigil ?text ?closing
  case escape => exact fun _ => .inMode .quote quote.1 (by decide) settled
  case text => exact fun _ _ _ => .inMode .quote quote.1 (by decide) settled
  case sigil =>
    rintro rfl
    exact .afterSigil rfl (afterText.introducing rfl rfl)
  case closing =>
    intro same
    obtain ⟨mark, member, delimiter⟩ := quote.2
    obtain rfl : c = mark := String.singleton_inj.mp (same.trans delimiter)
    have apart : c ≠ sigil := ne_of_mem_of_not_mem member (by decide)
    exact .inMode .start rfl (by decide) (afterText.emit_ofMark apart)

/-- What ends a name or takes its place settles the sigil. -/
theorem Scanner.Introducing.settle (introducing : s.Introducing text stop)
    (mode : s.context.mode = .substitution)
    (ends : s.buffer = "" → text[stop]?.any introduces = false) :
    Settled text s.settle.emitted := by
  obtain ⟨mark, older, pos, emitted, isMark, placed, chained, built⟩ := introducing
  rw [settle_of_substitution mode, pop_emitted, flushName]
  rcases built with ⟨empty, rfl⟩ | ⟨name, stands, adjoins⟩
  · rw [if_pos empty, emitted]
    refine ⟨emitted ▸ chained, ?_⟩
    rintro _ ⟨⟩ _
    exact ⟨pos, placed, ends empty⟩
  · have named : (s.flush .identifier).emitted =
        ⟨.identifier, s.buffer, some ((pos + 1 : Nat) : Int), false, false⟩ :: mark :: older := by
      simp [flush, name, stands, emitted]
    rw [if_neg name, named]
    refine ⟨?_, ?_⟩
    · exact List.isChain_cons_cons.mpr ⟨.adjoined isMark placed adjoins rfl rfl, emitted ▸ chained⟩
    · rintro _ ⟨⟩
      exact alone_of_ne rfl

/-- A token that is no name leaves no name to come. -/
theorem Settled.settle (settled : Settled text s.emitted) (coherent : s.Coherent)
    (noName : s.context.mode ≠ .substitution) : Settled text s.settle.emitted := by
  cases mode : s.context.mode with
  | start => rwa [settle_eq_self (.inl mode)]
  | quote => rwa [settle_eq_self (.inr (.inl mode))]
  | comment => rwa [settle_eq_self (.inr (.inr mode))]
  | substitution => exact absurd mode noName
  | literal =>
    rw [settle_of_literal mode]
    refine settled.flush ?_ ?_ <;> split <;> simp
  | wildcard =>
    rw [settle_of_wildcard mode]
    exact settled.flush (by decide) (by simp)
  | operator =>
    rw [settle_of_operator mode]
    exact settled.flush_operator (coherent.operator_of_mode mode)

/-- A character goes on with a name, or opens a group right after the sigil. -/
theorem Scanner.Introducing.step_of_continues (introducing : s.Introducing text stop)
    (mode : s.context.mode = .substitution) (plain : s.escaped = false)
    (found : text[stop]? = some c) (goesOn : s.continues c) (next : Option Char) :
    (s.step next c stop).Adjoins text (stop + 1) := by
  obtain ⟨mark, older, pos, emitted, isMark, placed, chained, built⟩ := introducing
  simp only [Scanner.step, plain, mode, stepSubstitution, Bool.false_eq_true, ↓reduceIte]
  split
  case isTrue letter =>
    refine .afterSigil mode ⟨mark, older, pos, emitted, isMark, placed, chained, .inr ?_⟩
    refine ⟨String.push_ne_empty, ?_⟩
    rcases built with ⟨empty, rfl⟩ | ⟨name, stands, adjoins⟩
    · exact ⟨if_pos empty, by simp [found, introduces, letter]⟩
    · exact ⟨(if_neg name).trans stands, adjoins⟩
  case isFalse noLetter =>
    split
    case isFalse noParen => simp_all [continues]
    case isTrue opens =>
      obtain ⟨rfl, empty⟩ := opens
      obtain rfl : stop = pos + 1 := by
        rcases built with ⟨_, fresh⟩ | ⟨name, _⟩
        · exact fresh
        · exact absurd empty name
      have group := isMark_ofMark openParen (some ((pos + 1 : Nat) : Int))
      have sits : Sits text mark (.ofMark openParen ((pos + 1 : Nat) : Int)) :=
        .adjoined isMark placed (by simp [found, introduces])
          (by rw [Token.introduced, group, Bool.or_true]) rfl
      refine .inMode .start rfl (by decide) ⟨?_, ?_⟩
      · change Chained text (.ofMark openParen ((pos + 1 : Nat) : Int) :: s.emitted)
        rw [emitted] at chained ⊢
        exact List.isChain_cons_cons.mpr ⟨sits, chained⟩
      · rintro _ ⟨⟩
        exact alone_of_ne (isMark_of_isMark group (by decide))

theorem Scanner.Introducing.step (introducing : s.Introducing text stop) (coherent : s.Coherent)
    (mode : s.context.mode = .substitution) (found : text[stop]? = some c) (next : Option Char) :
    (s.step next c stop).Adjoins text (stop + 1) := by
  have fits := coherent.fits
  simp only [Fits, mode] at fits
  by_cases goesOn : s.continues c
  · exact introducing.step_of_continues mode fits.2 found goesOn next
  -- the character at hand is the one after the sigil, unless it ends a name
  have apart : s.continues c = false := by simpa using goesOn
  have ends (empty : s.buffer = "") : text[stop]?.any introduces = false := by
    simpa [found, continues, mode, empty, introduces] using apart
  have settled := introducing.settle mode ends
  rw [coherent.step_eq fits.2 apart]
  rcases coherent.context_settle with (start | quote) | comment
  · have empty : s.settle.buffer = "" := by simp [settle_of_substitution mode]
    rw [stepPlain, start]
    exact settled.stepStart empty (coherent.settle fits.2).1.resumable next
  · rw [stepPlain, quote.1]
    exact settled.stepQuote quote
  · simp [mode] at comment

theorem Settled.step (settled : Settled text s.emitted) (coherent : s.Coherent)
    (noName : s.context.mode ≠ .substitution) (next : Option Char) :
    (s.step next c stop).Adjoins text (stop + 1) := by
  have later := settled.settle coherent noName
  refine coherent.step_cases ?escaped ?goesOn ?start ?quote ?comment
  case escaped => exact fun _ => .inMode _ rfl noName settled
  case goesOn =>
    intro plain goesOn
    refine step_cases_of_continues next plain goesOn ?keep ?escape ?star ?double ?subshell
    case keep => exact fun _ => .inMode _ rfl noName settled
    case escape => exact fun _ _ => .inMode _ rfl noName settled
    case star => exact fun _ _ => .inMode .wildcard rfl (by decide) settled
    case double =>
      intro mode same
      have kept : Settled text (s.keep c stop).emitted := settled
      exact .inMode .start rfl (by decide)
        (kept.flush_operator (coherent.operator_of_double mode same))
    case subshell => exact fun mode => absurd mode noName
  case start =>
    intro plain _ empty
    exact later.stepStart empty (coherent.settle plain).1.resumable next
  case quote => exact fun _ quote => later.stepQuote quote
  case comment =>
    intro _ mode
    unfold stepComment
    split
    case isTrue => exact .inMode .start rfl (by decide) (settled.flush (by decide) (by simp))
    case isFalse => exact .inMode _ rfl noName settled

/-- A step keeps the tokens in the text. -/
theorem Scanner.Adjoins.step (adjoins : s.Adjoins text stop) (coherent : s.Coherent)
    (found : text[stop]? = some c) (next : Option Char) :
    (s.step next c stop).Adjoins text (stop + 1) := by
  by_cases mode : s.context.mode = .substitution
  · rw [Adjoins, if_pos mode] at adjoins
    exact adjoins.step coherent mode found next
  · rw [Adjoins, if_neg mode] at adjoins
    exact adjoins.step coherent mode next

/-- The end of a text leaves its last sigil alone. -/
theorem Scanner.Adjoins.complete (adjoins : s.Adjoins text stop) (coherent : s.Coherent)
    (ends : text[stop]?.any introduces = false) : Settled text s.complete.emitted := by
  by_cases mode : s.context.mode = .substitution
  · have noComment : s.context.mode ≠ .comment := by simp [mode]
    rw [Adjoins, if_pos mode] at adjoins
    rw [Scanner.complete, if_neg noComment]
    exact adjoins.settle mode fun _ => ends
  · rw [Adjoins, if_neg mode] at adjoins
    unfold Scanner.complete
    split
    case isTrue => exact adjoins.flush (by decide) (by simp)
    case isFalse => exact adjoins.settle coherent mode

/-- Reading a piece of a text from a fresh start keeps its tokens in the text. -/
theorem adjoins_run {start : Nat} {read : List Char} (ahead : read <+: text.drop start) :
    (({} : Scanner).run start read).Adjoins text (start + read.length) := by
  refine (Scanner.coherent_fresh.run_induction
    (motive := fun read s => read <+: text.drop start → s.Adjoins text (start + read.length))
    start read none ?_ ?_).2 ahead
  · exact fun _ => .inMode .start rfl (by decide) ⟨.nil, by simp⟩
  · intro read s next c coherent before ahead
    have earlier : read <+: text.drop start := (List.prefix_append _ _).trans ahead
    have found : text[start + read.length]? = some c := by
      obtain ⟨rest, split⟩ := ahead
      rw [← List.getElem?_drop, ← split]
      simp
    have stepped := (before earlier).step coherent found next
    rw [List.length_append]
    exact stepped

end Steps

/-- The tokens of a line sit in it. -/
theorem settled_of_tokenize {line : String} {tokens : List Token} (ran : tokenize line = .ok tokens) :
    Settled line.toList tokens.reverse := by
  obtain ⟨coherent, rfl, _, _⟩ := Scanner.of_tokenize_eq_ok ran
  obtain ⟨trailing, dropped, white⟩ := exists_drop_leadingBlanks line.toList
  have ends : line.toList[leadingBlanks line.toList + (strip line.toList).length]?.any introduces =
      false := by
    rw [← List.getElem?_drop, dropped]
    cases trailing with
    | nil => simp
    | cons c rest => simpa using introduces_of_isBlank (white c List.mem_cons_self)
  rw [Scanner.tokens, List.reverse_reverse]
  exact (adjoins_run (strip_prefix_drop line.toList)).complete coherent ends

end ShellLine
