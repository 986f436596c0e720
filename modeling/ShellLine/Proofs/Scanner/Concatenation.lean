import ShellLine.Proofs.Scanner.Endings
import ShellLine.Proofs.Scanner.Escapes
import ShellLine.Proofs.Scanner.Layout
import ShellLine.Proofs.Scanner.Within

/-! # Lines that are put together

Blanks, a pipe or a semicolon bring the scanner back to a fresh start, however it came to where it
is, if only the line in front of them leaves nothing open: `Closed.run_blank`, `Closed.run_mark`. So
the tokens of a line that is put together are those of its parts: `tokenize_append`.
-/

namespace ShellLine

open Alphabet Text

namespace Text

/-! ## Trimming -/

theorem stripEnd_append_blank {blanks : List Char} (blank : ∀ c ∈ blanks, isBlank c)
    (text : List Char) : stripEnd (text ++ blanks) = stripEnd text := by
  have dropped : ∀ c ∈ blanks.reverse, isBlank c := fun c member =>
    blank c (List.mem_reverse.mp member)
  rw [stripEnd, List.reverse_append, List.dropWhile_append_of_pos dropped, stripEnd]

theorem stripEnd_append {second : List Char} (kept : stripEnd second ≠ []) (first : List Char) :
    stripEnd (first ++ second) = first ++ stripEnd second := by
  have kept : second.reverse.dropWhile isBlank ≠ [] := by simpa [stripEnd] using kept
  simp [stripEnd, List.dropWhile_append, kept]

theorem stripEnd_append_cons {c : Char} (noBlank : isBlank c = false) (first second : List Char) :
    stripEnd (first ++ c :: second) = first ++ c :: stripEnd second := by
  have alone : stripEnd (c :: second) = c :: stripEnd second := by
    by_cases nothing : stripEnd second = []
    · have dropped : second.reverse.dropWhile isBlank = [] := by simpa [stripEnd] using nothing
      rw [nothing, stripEnd, List.reverse_cons, List.dropWhile_append, dropped]
      simp [noBlank]
    · exact stripEnd_append nothing [c]
  rw [stripEnd_append (by simp [alone]), alone]

end Text

namespace Scanner

variable {s : Scanner}

/-- The blanks in front of a text are of no account. -/
theorem ofText_eq_run (text : List Char) : ofText text = ({} : Scanner).run 0 (stripEnd text) := by
  have blank : ∀ c ∈ text.takeWhile isBlank, isBlank c := fun c member =>
    List.all_eq_true.mp List.all_takeWhile c member
  have parts : text = text.takeWhile isBlank ++ stripStart text :=
    List.takeWhile_append_dropWhile.symm
  have start := List.head?_dropWhile_not isBlank text
  rw [← stripStart] at start
  rw [ofText, strip, leadingBlanks]
  generalize text.takeWhile isBlank = leading, stripStart text = rest at *
  subst parts
  cases rest with
  | nil =>
    rw [List.append_nil, ← List.nil_append leading, stripEnd_append_blank blank]
    rfl
  | cons c rest =>
    have noBlank : isBlank c = false := start
    have alone : stripEnd (c :: rest) = c :: stripEnd rest := stripEnd_append_cons noBlank [] rest
    rw [stripEnd_append_cons noBlank, ← alone, run_append, run_of_isBlank rfl rfl blank,
      Int.zero_add]

/-! ## Back to a fresh start -/

/-- Nothing has a place that is not built. -/
def Placed (s : Scanner) : Prop :=
  s.buffer = "" → s.bufferPos = none

theorem Placed.settle (placed : s.Placed) : s.settle.Placed := by
  have named : s.flushName.Placed := by
    unfold flushName
    split
    case isTrue => exact placed
    case isFalse => exact fun _ => rfl
  unfold Scanner.settle
  split
  case h_4 =>
    unfold pop
    split <;> exact named
  case h_5 => exact placed
  all_goals exact fun _ => rfl

theorem placed_of_built (built : s.buffer ≠ "") : s.Placed :=
  fun empty => absurd empty built

theorem Placed.stepStart (placed : s.Placed) (next : Option Char) (c : Char) (pos : Int) :
    (s.stepStart next c pos).Placed := by
  refine s.stepStart_cases next c pos ?blank ?escape ?quote ?operator ?assign ?symbol ?comment
    ?sigil ?opening ?closing ?star ?word
  case blank => exact fun _ => placed
  case quote => exact fun _ => placed
  case assign => exact fun _ => placed
  case symbol => exact fun _ _ => placed
  case sigil => exact fun _ => placed
  case opening => exact fun _ => placed
  case closing =>
    intro _
    unfold pop
    split <;> exact placed
  all_goals
    intros
    exact placed_of_built String.push_ne_empty

theorem placed_stepQuote (c : Char) (pos : Int) : (s.stepQuote c pos).Placed := by
  refine s.stepQuote_cases c pos ?escape ?sigil ?text ?closing
  case escape => exact fun _ => placed_of_built String.push_ne_empty
  case sigil => exact fun _ _ => rfl
  case text => exact fun _ _ _ => placed_of_built String.push_ne_empty
  case closing => exact fun _ _ => rfl

/-- A step gives a place only to what it builds. -/
theorem Placed.step (placed : s.Placed) (coherent : s.Coherent) (next : Option Char) (c : Char)
    (pos : Int) : (s.step next c pos).Placed := by
  refine coherent.step_cases ?escaped ?goesOn ?start ?quote ?comment
  case escaped => exact fun _ => placed_of_built String.push_ne_empty
  case goesOn =>
    intro plain goesOn
    refine step_cases_of_continues next plain goesOn ?keep ?escape ?star ?double ?subshell
    case double => exact fun _ _ _ => rfl
    case subshell => exact fun _ _ _ => placed
    all_goals
      intros
      exact placed_of_built String.push_ne_empty
  case start => exact fun _ _ _ => placed.settle.stepStart next c pos
  case quote => exact fun _ _ => placed_stepQuote c pos
  case comment =>
    intro _ _
    unfold stepComment
    split
    case isTrue => exact fun _ => rfl
    case isFalse => exact placed_of_built String.push_ne_empty

theorem placed_ofText (text : List Char) : (ofText text).Placed :=
  (coherent_fresh.run_induction (motive := fun _ s => s.Placed) (leadingBlanks text) (strip text)
    none (fun _ => rfl) fun _ _ next c coherent placed => placed.step coherent next c _).2

/-- Between tokens a scanner with nothing open or pending has its tokens only. -/
theorem Closed.enter_settle (closed : s.Closed) (placed : s.Placed) :
    s.settle.enter {} = { emitted := s.settle.emitted } := by
  have plain : s.settle.escaped = false := (closed.coherent.settle closed.plain).2
  have nowhere : s.settle.bufferPos = none := placed.settle closed.buffer
  simp [enter, closed.stack, closed.buffer, nowhere, plain]

/-- Blanks lead back to a fresh start. -/
theorem Closed.run_blank (closed : s.Closed) (placed : s.Placed) {gap : List Char}
    (blank : ∀ c ∈ gap, isBlank c) (nonempty : gap ≠ []) (pos : Int) (after : Option Char) :
    s.run pos gap after = { emitted := s.settle.emitted } := by
  obtain ⟨c, rest, rfl⟩ := List.exists_cons_of_ne_nil nonempty
  rw [List.forall_mem_cons] at blank
  rw [run, closed.coherent.step_of_isBlank closed.plain closed.start blank.1,
    closed.enter_settle placed, run_of_isBlank rfl rfl blank.2]

/-- So does a pipe or a semicolon, with blanks in front of it or without. -/
theorem Closed.run_mark (closed : s.Closed) (placed : s.Placed) {gap : List Char}
    (blank : ∀ c ∈ gap, isBlank c) {mark : Char} (symbol : mark ∈ [pipe, semicolon]) (pos : Int)
    (after : Option Char) : s.run pos (gap ++ [mark]) after =
      { emitted := .ofMark mark (some (pos + gap.length)) :: s.settle.emitted } := by
  have apart : separates mark ∧ ∀ s : Scanner, s.stepStart after mark (pos + gap.length) =
      (s.emit (.ofMark mark (some (pos + gap.length)))).enter {} := by
    simp only [List.mem_cons, List.not_mem_nil, or_false] at symbol
    rcases symbol with rfl | rfl
    · exact ⟨by decide +kernel, fun _ => rfl⟩
    · exact ⟨by decide +kernel, fun _ => rfl⟩
  have emitted (token : Token) : (s.settle.emit token).enter {} = (s.settle.enter {}).emit token :=
    rfl
  rw [closed.coherent.run_of_separates closed.plain closed.start blank apart.1, apart.2, emitted,
    closed.enter_settle placed]
  rfl

/-! ## The rest of the text -/

/-- A token ends in the text that has been read. -/
theorem endPos_le_length {text : List Char} {token : Token} {stop : Int}
    (member : token ∈ (ofText text).settle.emitted) (ends : token.endPos = some stop) :
    stop ≤ (stripEnd text).length := by
  rw [ofText_eq_run] at member
  have coherent : (({} : Scanner).run 0 (stripEnd text)).Coherent :=
    coherent_run coherent_fresh ..
  obtain ⟨covered, laid, read, -⟩ := (tracks_run 0 (stripEnd text)).settle coherent
  obtain ⟨before, after, rfl, pos⟩ := laid.exists_split member
  simp only [Token.endPos, pos, Option.map_some, Option.some.injEq] at ends
  have length := congrArg List.length read
  simp only [List.length_append, String.length_toList] at length
  omega

/-- Behind a text that leads back to a fresh start the rest is read as by itself. -/
theorem ofText_append {first gap second whole : List Char} {emitted : List Token} {offset : Int}
    (parts : stripEnd whole = stripEnd first ++ gap ++ stripEnd second) (nonempty : gap ≠ [])
    (place : (stripEnd first).length + gap.length = offset)
    (unsigned : (stripEnd first).getLast? ≠ some assign ∨ ∀ c ∈ gap.head?, isBlank c)
    (fresh : ∀ after, (ofText first).run (stripEnd first).length gap after = { emitted })
    (apart : ∀ index : Nat, (stripEnd second)[index]? = some assign →
      emitted.head?.bind Token.endPos ≠ some (index + offset)) :
    ofText whole = (ofText second).within { emitted } offset := by
  let outer : Scanner := { emitted }
  have ahead : (gap ++ stripEnd second).head?.or none = gap.head? := by
    obtain ⟨c, rest, rfl⟩ := List.exists_cons_of_ne_nil nonempty
    rfl
  have before : ({} : Scanner).run 0 (stripEnd first) gap.head? = ofText first := by
    rw [coherent_fresh.run_after unsigned, ofText_eq_run]
  have behind : (({} : Scanner).within outer offset).run (0 + offset) (stripEnd second) none =
      (({} : Scanner).run 0 (stripEnd second)).within outer offset := by
    refine coherent_fresh.run_within_of_stack rfl (fun index found => ?_) none
    rw [Int.zero_add]
    exact apart index found
  calc ofText whole
    _ = ({} : Scanner).run 0 (stripEnd first ++ (gap ++ stripEnd second)) := by
      rw [ofText_eq_run, parts, List.append_assoc]
    _ = outer.run offset (stripEnd second) := by
      rw [run_append, ahead, before, run_append, Int.zero_add, fresh, place]
    _ = (({} : Scanner).within outer offset).run (0 + offset) (stripEnd second) none := by
      rw [Int.zero_add]
      rfl
    _ = (ofText second).within outer offset := by
      rw [behind, ofText_eq_run]

end Scanner

open Scanner

/-- The outcome for a text behind other tokens, with positions counted from elsewhere. -/
def resumed (before : List Token) (offset : Int) :
    Except LexicalFault (List Token) → Except LexicalFault (List Token)
  | .ok tokens => .ok (before ++ tokens.map (.shift offset))
  | .error fault => .error (fault.shift offset)

/-- The text behind a fresh start ends in the same way as by itself. -/
theorem tokenize_of_within {line second : String} {emitted : List Token} {offset : Int}
    (read : ofText line.toList = (ofText second.toList).within { emitted } offset)
    (strictComments : Bool) :
    tokenize line strictComments =
      resumed emitted.reverse offset (tokenize second strictComments) := by
  have coherent := coherent_ofText second.toList
  rw [tokenize_eq, tokenize_eq, read, coherent.finish_within rfl]
  obtain ⟨last, fault⟩ := (ofText second.toList).finish strictComments
  cases fault with
  | some fault => rfl
  | none => simp [resumed, tokens, Scanner.within]

/-- Blanks at the end of a line are of no account. -/
theorem tokenize_append_isBlank {blanks : String} (blank : ∀ c ∈ blanks.toList, isBlank c)
    (line : String) (strictComments : Bool) :
    tokenize (line ++ blanks) strictComments = tokenize line strictComments := by
  rw [tokenize_eq, tokenize_eq, ofText_eq_run, ofText_eq_run, String.toList_append,
    stripEnd_append_blank blank]

section Parts

variable {first : String} {strictComments : Bool} {tokens : List Token}
  (ran : tokenize first strictComments = .ok tokens)
  (ended : ∀ token ∈ tokens.getLast?, token.kind ≠ .comment)
  (noEscape : pendingEscape (strip first.toList) = false)
include ran ended noEscape

theorem tokenize_append_blank {gap : String} (nonempty : gap ≠ "")
    (blank : ∀ c ∈ gap.toList, isBlank c) (second : String) :
    tokenize (first ++ gap ++ second) strictComments =
      resumed tokens (first.length + gap.length) (tokenize second strictComments) := by
  by_cases nothing : stripEnd second.toList = []
  · have blankSecond : ∀ c ∈ second.toList, isBlank c := by
      obtain ⟨blanks, blank, shape⟩ := exists_eq_stripEnd_append second.toList
      rwa [shape, nothing, List.nil_append]
    have alone : tokenize second strictComments = .ok [] := by
      have skipped := tokenize_append_isBlank blankSecond "" strictComments
      rwa [String.empty_append] at skipped
    rw [tokenize_append_isBlank blankSecond, tokenize_append_isBlank blank, ran, alone]
    simp [resumed]
  · obtain ⟨closed, rfl⟩ := closed_of_tokenize ran ended noEscape
    obtain ⟨trailing, blankTrailing, shape⟩ := exists_eq_stripEnd_append first.toList
    have blanks : ∀ c ∈ trailing ++ gap.toList, isBlank c :=
      List.forall_mem_append.mpr ⟨blankTrailing, blank⟩
    have some : trailing ++ gap.toList ≠ [] := by simp [nonempty]
    have parts : stripEnd (first ++ gap ++ second).toList =
        stripEnd first.toList ++ (trailing ++ gap.toList) ++ stripEnd second.toList := by
      rw [String.toList_append, stripEnd_append nothing, String.toList_append,
        ← List.append_assoc (stripEnd _), ← shape]
    have lengthFirst := congrArg List.length shape
    have lengthGap := List.length_pos_iff.mpr some
    rw [List.length_append, String.length_toList] at lengthFirst
    rw [List.length_append, String.length_toList] at lengthGap
    refine tokenize_of_within (ofText_append parts some ?place
      (.inr fun c first => blanks c (List.mem_of_mem_head? first))
      (closed.run_blank (placed_ofText _) blanks some _) ?apart) strictComments
    case place =>
      rw [List.length_append, String.length_toList]
      omega
    case apart =>
      intro index _ same
      obtain ⟨token, head, ends⟩ := Option.bind_eq_some_iff.mp same
      have early := endPos_le_length (List.mem_of_head? head) ends
      omega

theorem tokenize_append_mark {mark : Char} (symbol : mark ∈ [pipe, semicolon])
    (noSign : first.toList.getLast? ≠ some assign) {second : String}
    (noSignAhead : second.toList.head? ≠ some assign) :
    tokenize (first ++ String.singleton mark ++ second) strictComments =
      resumed (tokens ++ [.ofMark mark (some first.length)]) (first.length + 1)
        (tokenize second strictComments) := by
  obtain ⟨closed, rfl⟩ := closed_of_tokenize ran ended noEscape
  obtain ⟨trailing, blank, shape⟩ := exists_eq_stripEnd_append first.toList
  have noBlank : isBlank mark = false := by
    simp only [List.mem_cons, List.not_mem_nil, or_false] at symbol
    rcases symbol with rfl | rfl <;> decide
  have parts : stripEnd (first ++ String.singleton mark ++ second).toList =
      stripEnd first.toList ++ (trailing ++ [mark]) ++ stripEnd second.toList := by
    have whole : (first ++ String.singleton mark ++ second).toList =
        first.toList ++ mark :: second.toList := by simp
    rw [whole, stripEnd_append_cons noBlank, ← List.append_assoc (stripEnd _), ← shape]
    simp
  have lengthFirst := congrArg List.length shape
  rw [List.length_append, String.length_toList] at lengthFirst
  have stands : ((stripEnd first.toList).length + trailing.length : Int) = first.length := by
    omega
  have read := closed.run_mark (placed_ofText _) blank symbol (stripEnd first.toList).length
  rw [stands] at read
  have whole : ofText (first ++ String.singleton mark ++ second).toList =
      (ofText second.toList).within
        { emitted := .ofMark mark (some first.length) :: (ofText first.toList).settle.emitted }
        (first.length + 1) := by
    refine ofText_append parts (by simp) ?place ?unsigned read ?apart
    case place =>
      rw [List.length_append, List.length_singleton]
      omega
    case unsigned =>
      cases trailing with
      | nil =>
        rw [List.append_nil] at shape
        exact .inl (shape ▸ noSign)
      | cons c rest => exact .inr (by simpa using blank c List.mem_cons_self)
    case apart =>
      -- only a sign that is the first character could touch the mark
      intro index found same
      obtain rfl : index = 0 := by
        simp only [List.head?_cons, Option.bind_some, Token.endPos, Token.ofMark, Option.map_some,
          String.length_singleton, Option.some.injEq] at same
        omega
      obtain ⟨rest, signed⟩ := List.head?_eq_some_iff.mp (List.head?_eq_getElem? ▸ found)
      obtain ⟨blanks, -, shapeSecond⟩ := exists_eq_stripEnd_append second.toList
      exact noSignAhead (by rw [shapeSecond, signed]; rfl)
  rw [tokenize_of_within whole, List.reverse_cons]
  rfl

end Parts

/-- Blanks between two lines separate their tokens, whatever the lines are made of, unless the
first one ends in a comment or an escape, which would take them. So do a pipe and a semicolon, if
no sign touches them. -/
theorem tokenize_append {first : String} {strictComments : Bool} {tokens : List Token}
    (ran : tokenize first strictComments = .ok tokens)
    (ended : ∀ token ∈ tokens.getLast?, token.kind ≠ .comment)
    (noEscape : pendingEscape (strip first.toList) = false) (second : String) :
    (∀ gap : String, gap ≠ "" → (∀ c ∈ gap.toList, isBlank c) →
      tokenize (first ++ gap ++ second) strictComments =
        resumed tokens (first.length + gap.length) (tokenize second strictComments)) ∧
    ∀ mark ∈ [pipe, semicolon], first.toList.getLast? ≠ some assign →
      second.toList.head? ≠ some assign →
      tokenize (first ++ String.singleton mark ++ second) strictComments =
        resumed (tokens ++ [.ofMark mark (some first.length)]) (first.length + 1)
          (tokenize second strictComments) :=
  ⟨fun _ nonempty blank => tokenize_append_blank ran ended noEscape nonempty blank second,
    fun _ symbol noSign noSignAhead =>
      tokenize_append_mark ran ended noEscape symbol noSign noSignAhead⟩

/-- The sign behind the blanks touches no name, and the quote behind the pipe is open where it
stands in the whole line. -/
theorem tokenize_append_name :
    tokenize ("x=$y" ++ " \t" ++ "=z") =
        .ok [⟨.literal, "x", some 0, false, false⟩, ⟨.symbol, "=", some 1, true, true⟩,
          ⟨.symbol, "$", some 2, false, false⟩, ⟨.identifier, "y", some 3, false, false⟩,
          ⟨.symbol, "=", some 6, false, true⟩, ⟨.literal, "z", some 7, false, false⟩] ∧
      tokenize ("x=$y" ++ String.singleton '|' ++ " 'z") =
        .error (.unterminatedQuote "'" (some 6)) := by
  have ran : tokenize "x=$y" = .ok [⟨.literal, "x", some 0, false, false⟩,
    ⟨.symbol, "=", some 1, true, true⟩, ⟨.symbol, "$", some 2, false, false⟩,
    ⟨.identifier, "y", some 3, false, false⟩] := rfl
  have ended : ∀ token ∈ [(⟨.literal, "x", some 0, false, false⟩ : Token),
      ⟨.symbol, "=", some 1, true, true⟩, ⟨.symbol, "$", some 2, false, false⟩,
      ⟨.identifier, "y", some 3, false, false⟩].getLast?, token.kind ≠ .comment := by
    simp
  have noSign : "x=$y".toList.getLast? ≠ some assign := by simp [assign]
  have noSignAhead : " 'z".toList.head? ≠ some assign := by simp [assign]
  have blank : ∀ c ∈ " \t".toList, isBlank c := List.all_eq_true.mp rfl
  exact ⟨(tokenize_append ran ended (by decide) "=z").1 " \t" (by decide) blank,
    (tokenize_append ran ended (by decide) " 'z").2 '|' (by decide) noSign noSignAhead⟩

end ShellLine
