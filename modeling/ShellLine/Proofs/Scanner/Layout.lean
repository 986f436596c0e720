import ShellLine.Proofs.Scanner.Coherence

/-! # Where the tokens of a line lie

A scan neither drops nor invents a character. Its tokens lie in the text in their order, and what
lies in none of them is blank: `Laid` builds up such a layout from the left, a token or a blank at a
time. The characters in the buffer come after everything that is laid out, `Tracks`, and steps add
to the one or the other.
-/

namespace ShellLine

open Alphabet Text

/-- Tokens, newest first, that lie in a text that starts at the given position, with nothing but
blanks around them. -/
inductive Laid (start : Int) : List Char → List Token → Prop
  | nil : Laid start [] []
  | blank {text : List Char} {tokens : List Token} {c : Char} :
      Laid start text tokens → isBlank c → Laid start (text ++ [c]) tokens
  | token {text : List Char} {tokens : List Token} {token : Token} :
      Laid start text tokens → token.pos = some (start + text.length) →
      (token.value = "" → token.kind = .fragment) →
      Laid start (text ++ token.value.toList) (token :: tokens)

/-- The character with that index is one of the token's. -/
def Token.Covers (token : Token) (index : Int) : Prop :=
  ∃ pos, token.pos = some pos ∧ pos ≤ index ∧ index < pos + token.value.length

namespace Laid

variable {start : Int} {text : List Char} {tokens : List Token}

/-- A token stands at its position. -/
theorem exists_split (laid : Laid start text tokens) {token : Token} (member : token ∈ tokens) :
    ∃ before after, text = before ++ token.value.toList ++ after ∧
      token.pos = some (start + before.length) := by
  induction laid with
  | nil => cases member
  | @blank text tokens c _ _ ih =>
    obtain ⟨before, after, rfl, pos⟩ := ih member
    exact ⟨before, after ++ [c], by simp, pos⟩
  | @token text tokens last _ placed _ ih =>
    rcases List.mem_cons.mp member with rfl | earlier
    · exact ⟨text, [], by simp, placed⟩
    · obtain ⟨before, after, rfl, pos⟩ := ih earlier
      exact ⟨before, after ++ last.value.toList, by simp, pos⟩

/-- Tokens do not overlap. -/
theorem pairwise (laid : Laid start text tokens) :
    tokens.Pairwise fun later earlier =>
      ∃ stop pos, earlier.endPos = some stop ∧ later.pos = some pos ∧ stop ≤ pos := by
  induction laid with
  | nil => exact .nil
  | blank _ _ ih => exact ih
  | @token text tokens last laid placed _ ih =>
    refine .cons (fun earlier member => ?_) ih
    obtain ⟨before, after, rfl, pos⟩ := laid.exists_split member
    have stop : earlier.endPos = some (start + before.length + earlier.value.length) := by
      simp [Token.endPos, pos]
    refine ⟨_, _, stop, placed, ?_⟩
    simp only [List.length_append, String.length_toList]
    omega

theorem fragment_of_empty (laid : Laid start text tokens) {token : Token} (member : token ∈ tokens)
    (empty : token.value = "") : token.kind = .fragment := by
  induction laid with
  | nil => cases member
  | blank _ _ ih => exact ih member
  | token _ _ fragment ih =>
    rcases List.mem_cons.mp member with rfl | earlier
    · exact fragment empty
    · exact ih earlier

/-- What lies in no token is blank. -/
theorem blank_of_uncovered (laid : Laid start text tokens) {index : Nat} {c : Char}
    (found : text[index]? = some c) (free : ∀ token ∈ tokens, ¬ token.Covers (start + index)) :
    isBlank c := by
  induction laid with
  | nil => simp at found
  | @blank text tokens last _ white ih =>
    by_cases inside : index < text.length
    · rw [List.getElem?_append_left inside] at found
      exact ih found free
    · rw [List.getElem?_append_right (by omega)] at found
      obtain rfl : c = last := by simpa using List.mem_of_getElem? found
      exact white
  | @token text tokens last _ placed _ ih =>
    by_cases inside : index < text.length
    · rw [List.getElem?_append_left inside] at found
      exact ih found fun token member => free token (List.mem_cons_of_mem _ member)
    · rw [List.getElem?_append_right (by omega)] at found
      obtain ⟨bound, _⟩ := List.getElem?_eq_some_iff.mp found
      rw [String.length_toList] at bound
      exact absurd ⟨_, placed, by omega, by omega⟩ (free last List.mem_cons_self)

/-- The tokens and the blanks in front of them make up the text. -/
theorem exists_gaps (laid : Laid start text tokens) :
    ∃ gaps last, gaps.length = tokens.length ∧ (∀ gap ∈ last :: gaps, ∀ c ∈ gap, isBlank c) ∧
      text = (List.zipWith (fun gap token => gap ++ token.value.toList) gaps tokens.reverse).flatten
        ++ last := by
  induction laid with
  | nil => exact ⟨[], [], rfl, by simp, rfl⟩
  | @blank text tokens c _ white ih =>
    obtain ⟨gaps, last, length, blank, rfl⟩ := ih
    refine ⟨gaps, last ++ [c], length, ?_, by simp⟩
    simp only [List.forall_mem_cons, List.forall_mem_append] at blank ⊢
    exact ⟨⟨blank.1, by simpa using white⟩, blank.2⟩
  | @token text tokens token _ _ _ ih =>
    obtain ⟨gaps, last, length, blank, rfl⟩ := ih
    refine ⟨gaps ++ [last], [], by simp [length], ?_, ?_⟩
    · simp only [List.forall_mem_cons, List.forall_mem_append] at blank ⊢
      exact ⟨by simp, blank.2, blank.1, by simp⟩
    · rw [List.reverse_cons, List.zipWith_append (by simpa using length)]
      simp

end Laid

namespace Scanner

variable {start : Int} {read : List Char} {s : Scanner} {c : Char}

/-- What has been read are the finished tokens and the blanks between them, and then the
buffer. -/
def Tracks (start : Int) (read : List Char) (s : Scanner) : Prop :=
  ∃ covered, Laid start covered s.emitted ∧ read = covered ++ s.buffer.toList ∧
    (s.buffer ≠ "" → s.bufferPos = some (start + covered.length))

/-! ## Parts of a step -/

theorem Tracks.keep (tracks : s.Tracks start read) :
    (s.keep c (start + read.length)).Tracks start (read ++ [c]) := by
  obtain ⟨covered, laid, rfl, placed⟩ := tracks
  refine ⟨covered, laid, by simp [Scanner.keep], fun _ => ?_⟩
  by_cases empty : s.buffer = ""
  · simp [Scanner.keep, empty]
  · simp [Scanner.keep, empty, placed empty]

theorem Tracks.flush {kind : TokenKind} {fallback : Option Int} (tracks : s.Tracks start read)
    (fragment : s.buffer = "" → kind = .fragment ∧ fallback = some (start + read.length)) :
    (s.flush kind fallback).Tracks start read := by
  obtain ⟨covered, laid, rfl, placed⟩ := tracks
  have pos : (if s.buffer = "" then fallback else s.bufferPos) = some (start + covered.length) := by
    by_cases empty : s.buffer = ""
    · simpa [empty] using (fragment empty).2
    · simpa [empty] using placed empty
  let token : Token := ⟨kind, s.buffer, if s.buffer = "" then fallback else s.bufferPos, false, false⟩
  have laidToken : Laid start (covered ++ token.value.toList) (token :: s.emitted) :=
    .token laid pos fun empty => (fragment empty).1
  exact ⟨_, laidToken, by simp [Scanner.flush, token], fun built => absurd rfl built⟩

theorem Tracks.flushWord (tracks : s.Tracks start read) (built : s.buffer ≠ "") :
    s.flushWord.Tracks start read :=
  tracks.flush fun empty => absurd empty built

theorem Tracks.flushName (tracks : s.Tracks start read) : s.flushName.Tracks start read := by
  unfold Scanner.flushName
  split
  case isTrue => exact tracks
  case isFalse built => exact tracks.flush fun empty => absurd empty built

theorem Tracks.emit {token : Token} (tracks : s.Tracks start read) (empty : s.buffer = "")
    (value : token.value = String.singleton c) (pos : token.pos = some (start + read.length)) :
    (s.emit token).Tracks start (read ++ [c]) := by
  obtain ⟨covered, laid, rfl, placed⟩ := tracks
  simp only [empty, String.toList_empty, List.append_nil] at pos ⊢
  refine ⟨covered ++ token.value.toList, .token laid pos fun none => ?_, ?_, fun built => ?_⟩
  · rw [value] at none
    exact absurd none String.push_ne_empty
  · simp [Scanner.emit, value, empty]
  · exact absurd empty built

theorem Tracks.skip (tracks : s.Tracks start read) (empty : s.buffer = "") (white : isBlank c) :
    s.Tracks start (read ++ [c]) := by
  obtain ⟨covered, laid, rfl, placed⟩ := tracks
  refine ⟨covered ++ [c], .blank laid white, by simp [empty], fun built => absurd empty built⟩

theorem Tracks.pop (tracks : s.Tracks start read) : s.pop.Tracks start read := by
  unfold Scanner.pop
  split <;> exact tracks

theorem Tracks.endFragment (tracks : s.Tracks start read) :
    (s.endFragment c (start + read.length)).Tracks start (read ++ [c]) :=
  (tracks.flush fun _ => ⟨rfl, rfl⟩).emit rfl rfl rfl

/-! ## Whole steps -/

theorem Tracks.stepStart (tracks : s.Tracks start read) (empty : s.buffer = "")
    (next : Option Char) : (s.stepStart next c (start + read.length)).Tracks start (read ++ [c]) := by
  have emitted : (s.emit (.ofMark c (some (start + read.length)))).Tracks start (read ++ [c]) :=
    tracks.emit empty rfl rfl
  refine s.stepStart_cases next c _ ?blank ?escape ?quote ?operator ?assign ?symbol ?comment
    ?sigil ?opening ?closing ?star ?word
  case blank => exact fun white => tracks.skip empty white
  case escape => exact fun _ => tracks.keep
  case quote => exact fun _ => emitted
  case operator => exact fun _ => tracks.keep
  case assign => exact fun sign => tracks.emit empty (by rw [sign]; rfl) rfl
  case symbol => exact fun _ _ => emitted
  case comment => exact fun _ => tracks.keep
  case sigil => exact fun _ => emitted
  case opening => exact fun _ => emitted
  case closing => exact fun _ => emitted.pop
  case star => exact fun _ => tracks.keep
  case word => exact fun _ _ _ _ _ => tracks.keep

theorem Tracks.stepQuote (tracks : s.Tracks start read) :
    (s.stepQuote c (start + read.length)).Tracks start (read ++ [c]) := by
  refine s.stepQuote_cases c _ ?escape ?sigil ?text ?closing
  case escape => exact fun _ => tracks.keep
  case sigil => exact fun _ => tracks.endFragment
  case text => exact fun _ _ _ => tracks.keep
  case closing => exact fun _ => tracks.endFragment

theorem Tracks.settle (tracks : s.Tracks start read) (coherent : s.Coherent) :
    s.settle.Tracks start read := by
  have fits := coherent.fits
  cases mode : s.context.mode with
  | literal =>
    simp only [Fits, mode] at fits
    rw [settle_of_literal mode]
    exact tracks.flushWord fits
  | wildcard =>
    simp only [Fits, mode] at fits
    rw [settle_of_wildcard mode]
    exact tracks.flush fun empty => absurd empty fits
  | operator =>
    simp only [Fits, mode] at fits
    rw [settle_of_operator mode]
    exact tracks.flush fun empty => absurd empty fits.1
  | substitution =>
    rw [settle_of_substitution mode]
    exact tracks.flushName.pop
  | start => rwa [settle_eq_self (.inl mode)]
  | quote => rwa [settle_eq_self (.inr (.inl mode))]
  | comment => rwa [settle_eq_self (.inr (.inr mode))]

/-- A step adds the character it reads to the layout. -/
theorem Tracks.step (tracks : s.Tracks start read) (coherent : s.Coherent) (next : Option Char)
    (c : Char) : (s.step next c (start + read.length)).Tracks start (read ++ [c]) := by
  refine coherent.step_cases ?escaped ?goesOn ?start ?quote ?comment
  case escaped => exact fun _ => tracks.keep
  case goesOn =>
    intro plain goesOn
    refine step_cases_of_continues next plain goesOn ?keep ?escape ?star ?double ?subshell
    case keep => exact fun _ => tracks.keep
    case escape => exact fun _ _ => tracks.keep
    case star => exact fun _ _ => tracks.keep
    case double => exact fun _ _ => tracks.keep.flush fun empty => absurd empty String.push_ne_empty
    case subshell => exact fun _ _ empty => tracks.emit empty rfl rfl
  case start => exact fun _ _ empty => (tracks.settle coherent).stepStart empty next
  case quote => exact fun _ _ => (tracks.settle coherent).stepQuote
  case comment =>
    intro _ mode
    have fits := coherent.fits
    simp only [Fits, mode] at fits
    unfold stepComment
    split
    case isTrue newline =>
      have flushed : (s.flush .comment).Tracks start read :=
        tracks.flush fun empty => absurd empty fits.1
      exact flushed.skip rfl (by rw [newline]; decide)
    case isFalse => exact tracks.keep

theorem Tracks.complete (tracks : s.Tracks start read) (coherent : s.Coherent) :
    s.complete.Tracks start read := by
  unfold Scanner.complete
  split
  case isTrue mode =>
    have fits := coherent.fits
    simp only [Fits, mode] at fits
    exact tracks.flush fun empty => absurd empty fits.1
  case isFalse => exact tracks.settle coherent

/-- Reading a text from a fresh start lays it out. -/
theorem tracks_run (start : Int) (text : List Char) :
    (({} : Scanner).run start text).Tracks start text :=
  (coherent_fresh.run_induction start text none ⟨[], .nil, rfl, fun built => absurd rfl built⟩
    fun _ _ next c coherent tracks => tracks.step coherent next c).2

end Scanner

/-! ## The tokens of a line -/

/-- The tokens are the text, piece by piece. -/
structure Faithful (text : List Char) (tokens : List Token) : Prop where
  /-- A token has a position, and its value is what stands there. -/
  value_eq : ∀ token ∈ tokens, ∃ pos : Nat, token.pos = some (pos : Int) ∧
    token.value.toList = (text.drop pos).take token.value.length
  /-- A token ends before the next one starts. -/
  ordered : tokens.Pairwise fun earlier later =>
    ∃ stop pos, earlier.endPos = some stop ∧ later.pos = some pos ∧ stop ≤ pos
  /-- Only quoted text can be empty. -/
  fragment_of_empty : ∀ token ∈ tokens, token.value = "" → token.kind = .fragment
  /-- A character in no token is blank. -/
  blank_of_uncovered : ∀ (index : Nat) c, text[index]? = some c →
    (∀ token ∈ tokens, ¬ token.Covers index) → isBlank c
  /-- The values with the blanks in front of them make up the text between its outer blanks. -/
  rebuilds : ∃ gaps last, gaps.length = tokens.length ∧
    (∀ gap ∈ last :: gaps, ∀ c ∈ gap, isBlank c) ∧
    strip text =
      (List.zipWith (fun gap token => gap ++ token.value.toList) gaps tokens).flatten ++ last

/-- A text without its outer blanks stands after the leading ones. -/
theorem exists_eq_append_strip (text : List Char) :
    ∃ leading trailing, leading.length = leadingBlanks text ∧ (∀ c ∈ leading, isBlank c) ∧
      (∀ c ∈ trailing, isBlank c) ∧ text = leading ++ strip text ++ trailing := by
  obtain ⟨trailing, white, same⟩ := exists_eq_stripEnd_append (stripStart text)
  refine ⟨text.takeWhile isBlank, trailing, rfl, fun c member => ?_, white, ?_⟩
  · exact List.all_eq_true.mp List.all_takeWhile c member
  · rw [strip, List.append_assoc, ← same, stripStart, List.takeWhile_append_dropWhile]

/-- After its leading blanks a text goes on with all but the trailing ones. -/
theorem exists_drop_leadingBlanks (text : List Char) :
    ∃ trailing, text.drop (leadingBlanks text) = strip text ++ trailing ∧
      ∀ c ∈ trailing, isBlank c := by
  obtain ⟨leading, trailing, length, _, white, same⟩ := exists_eq_append_strip text
  refine ⟨trailing, ?_, white⟩
  rw [← length]
  exact (congrArg (List.drop leading.length) same).trans (by simp)

theorem strip_prefix_drop (text : List Char) : strip text <+: text.drop (leadingBlanks text) := by
  obtain ⟨trailing, same, _⟩ := exists_drop_leadingBlanks text
  exact ⟨trailing, same.symm⟩

theorem faithful_of_laid {text : List Char} {tokens : List Token}
    (laid : Laid (leadingBlanks text) (strip text) tokens.reverse) : Faithful text tokens := by
  obtain ⟨leading, trailing, length, whiteBefore, whiteAfter, same⟩ := exists_eq_append_strip text
  constructor
  · intro token member
    obtain ⟨before, after, split, pos⟩ := laid.exists_split (List.mem_reverse.mpr member)
    refine ⟨leadingBlanks text + before.length, by simpa using pos, ?_⟩
    have shape : text = (leading ++ before) ++ (token.value.toList ++ (after ++ trailing)) := by
      rw [same, split]
      simp
    have stands : (token.value.toList ++ (after ++ trailing)).take token.value.length =
        token.value.toList := by
      rw [← String.length_toList, List.take_left]
    rw [← length, ← List.length_append, shape, List.drop_left, stands]
  · exact List.pairwise_reverse.mp laid.pairwise
  · exact fun token member => laid.fragment_of_empty (List.mem_reverse.mpr member)
  · intro index c found free
    by_cases early : index < leading.length
    · have member : c ∈ leading := by
        rw [same, List.append_assoc, List.getElem?_append_left early] at found
        exact List.mem_of_getElem? found
      exact whiteBefore c member
    by_cases inside : index - leading.length < (strip text).length
    · rw [same, List.append_assoc, List.getElem?_append_right (by omega),
        List.getElem?_append_left inside] at found
      refine laid.blank_of_uncovered found fun token member => ?_
      have place : (leadingBlanks text : Int) + (index - leading.length : Nat) = index := by omega
      rw [place]
      exact free token (List.mem_reverse.mp member)
    · have member : c ∈ trailing := by
        rw [same, List.append_assoc, List.getElem?_append_right (by omega),
          List.getElem?_append_right (by omega)] at found
        exact List.mem_of_getElem? found
      exact whiteAfter c member
  · simpa using laid.exists_gaps

/-- The tokens of a line lie between its outer blanks. -/
theorem laid_of_tokenize {line : String} {tokens : List Token} (ran : tokenize line = .ok tokens) :
    Laid (leadingBlanks line.toList) (strip line.toList) tokens.reverse := by
  obtain ⟨coherent, rfl, _, closed⟩ := Scanner.of_tokenize_eq_ok ran
  obtain ⟨covered, laid, read, _⟩ :=
    (Scanner.tracks_run (leadingBlanks line.toList) (strip line.toList)).complete coherent
  have empty := coherent.buffer_complete closed
  rw [Scanner.ofText] at empty
  rw [empty, String.toList_empty, List.append_nil] at read
  rw [Scanner.tokens, List.reverse_reverse, read]
  exact laid

/-- Whatever a line is made of, its tokens are the line again. -/
theorem tokenize_faithful {line : String} {tokens : List Token} (ran : tokenize line = .ok tokens) :
    Faithful line.toList tokens :=
  faithful_of_laid (laid_of_tokenize ran)

/-- The tokens of a quote with a name in it, an empty text at its end. -/
theorem faithful_quote :
    Faithful "a \"$b\"".toList
      [⟨.literal, "a", some 0, false, false⟩, ⟨.symbol, "\"", some 2, false, false⟩,
        ⟨.fragment, "", some 3, false, false⟩, ⟨.symbol, "$", some 3, false, false⟩,
        ⟨.identifier, "b", some 4, false, false⟩, ⟨.fragment, "", some 5, false, false⟩,
        ⟨.symbol, "\"", some 5, false, false⟩] :=
  tokenize_faithful rfl

end ShellLine
