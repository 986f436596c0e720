import ShellLine.Proofs.Scanner.Coherence

/-! # Scans of a text in which a character is exchanged

A scanner that has read an escaped character does not look at it again: with another one in its
place it goes through the same states, but for that place in what it has built or finished,
`s.recast place d`. Only reserved words are told from others by what they are made of, and no
reserved word has an escape mark, as what is built around the place has, by `Past`.
-/

namespace ShellLine

open Alphabet Text

/-! ## Texts and tokens -/

/-- A text that stands at the given position, with another character at one place of the line. -/
def recastText (place : Int) (d : Char) (pos : Option Int) (value : String) : String :=
  match pos with
  | none => value
  | some pos =>
    if pos ≤ place then String.ofList (value.toList.set (place - pos).toNat d) else value

/-- The token with another character at one place of the line. -/
def Token.recast (place : Int) (d : Char) (token : Token) : Token :=
  { token with value := recastText place d token.pos token.value }

section Texts

variable {place pos : Int} {d : Char} {value : String}

@[simp]
theorem length_recastText (place : Int) (d : Char) (pos : Option Int) (value : String) :
    (recastText place d pos value).length = value.length := by
  unfold recastText
  split
  case h_1 => rfl
  case h_2 => split <;> simp [← String.length_toList]

@[simp]
theorem recastText_eq_empty_iff {place : Int} {d : Char} {pos : Option Int} {value : String} :
    recastText place d pos value = "" ↔ value = "" := by
  rw [← String.length_eq_zero_iff, length_recastText, String.length_eq_zero_iff]

@[simp]
theorem recastText_empty (place : Int) (d : Char) (pos : Option Int) :
    recastText place d pos "" = "" :=
  recastText_eq_empty_iff.mpr rfl

theorem recastText_of_later (later : place < pos) : recastText place d (some pos) value = value :=
  if_neg (by omega)

theorem recastText_of_endPos_le (ended : pos + value.length ≤ place) :
    recastText place d (some pos) value = value := by
  have outside : value.toList.length ≤ (place - pos).toNat := by
    rw [String.length_toList]
    omega
  simp [recastText, List.set_eq_of_length_le outside]

theorem recastText_push (inside : pos ≤ place → place < pos + value.length) (c : Char) :
    (recastText place d (some pos) value).push c =
      recastText place d (some pos) (value.push c) := by
  simp only [recastText]
  split
  case isFalse => rfl
  case isTrue before =>
    have within : (place - pos).toNat < value.toList.length := by
      have inside := inside before
      rw [String.length_toList]
      omega
    apply String.toList_inj.mp
    simp [List.set_append_left _ _ within]

theorem toList_recastText {ahead behind : List Char} {c : Char}
    (shape : value.toList = ahead ++ c :: behind) (stands : pos + ahead.length = place) :
    (recastText place d (some pos) value).toList = ahead ++ d :: behind := by
  have index : (place - pos).toNat = ahead.length := by omega
  have before : pos ≤ place := by omega
  simp [recastText, before, shape, index]

@[simp]
theorem Token.endPos_recast (place : Int) (d : Char) (token : Token) :
    (token.recast place d).endPos = token.endPos := by
  simp [Token.endPos, Token.recast]

end Texts

namespace Scanner

variable {s after : Scanner} {place pos : Int} {c : Char}

/-- The same scan of a text with another character at one place. -/
def recast (s : Scanner) (place : Int) (d : Char) : Scanner :=
  { s with
    buffer := recastText place d s.bufferPos s.buffer
    emitted := s.emitted.map (·.recast place d) }

/-- The token being built stands behind the place, or the character there is escaped in it. -/
def Past (s : Scanner) (place : Int) : Prop :=
  ∀ pos, s.bufferPos = some pos → pos ≤ place → ∃ ahead c behind,
    s.buffer.toList = ahead ++ escapeMark :: c :: behind ∧ pos + ahead.length + 1 = place

/-! ## Parts of a step -/

section Parts

variable (d : Char)

theorem enter_recast (context : ScanContext) :
    (s.recast place d).enter context = (s.enter context).recast place d :=
  rfl

theorem push_recast (context : ScanContext) :
    (s.recast place d).push context = (s.push context).recast place d :=
  rfl

theorem pop_recast : (s.recast place d).pop = s.pop.recast place d := by
  cases stack : s.stack <;> simp [pop, recast, stack]

theorem keep_recast (past : s.Past place) (later : place < pos) :
    (s.recast place d).keep c pos = (s.keep c pos).recast place d := by
  by_cases empty : s.buffer = ""
  · simp [keep, recast, empty, recastText_of_later later]
  · have pushed : (recastText place d s.bufferPos s.buffer).push c =
        recastText place d s.bufferPos (s.buffer.push c) := by
      cases known : s.bufferPos with
      | none => rfl
      | some start =>
        refine recastText_push (fun before => ?_) c
        obtain ⟨ahead, _, behind, shape, stands⟩ := past start known before
        rw [← String.length_toList, shape, List.length_append, List.length_cons, List.length_cons]
        omega
    simp [keep, recast, empty, pushed]

theorem keepEscape_recast (past : s.Past place) (later : place < pos) :
    (s.recast place d).keepEscape c pos = (s.keepEscape c pos).recast place d := by
  rw [keepEscape, keep_recast d past later]
  rfl

theorem emit_recast {token : Token} (same : token.recast place d = token) :
    (s.recast place d).emit token = (s.emit token).recast place d := by
  simp [emit, recast, same]

theorem emit_ofMark_recast (later : place < pos) :
    (s.recast place d).emit (.ofMark c (some pos)) =
      (s.emit (.ofMark c (some pos))).recast place d :=
  emit_recast d (by simp [Token.recast, Token.ofMark, recastText_of_later later])

theorem flush_recast (kind : TokenKind) (fallback : Option Int) :
    (s.recast place d).flush kind fallback = (s.flush kind fallback).recast place d := by
  by_cases empty : s.buffer = ""
  · simp [flush, recast, empty, Token.recast]
  · simp [flush, recast, empty, Token.recast]

theorem flushName_recast : (s.recast place d).flushName = s.flushName.recast place d := by
  by_cases empty : s.buffer = ""
  · simp [flushName, recast, empty]
  · have built : (s.recast place d).buffer ≠ "" := by simpa [recast] using empty
    rw [flushName, if_neg built, flush_recast, flushName, if_neg empty]

/-- A word with an escape in it is not reserved, whatever is escaped. -/
theorem reserved_recast (past : s.Past place) :
    reservedWords.contains (s.recast place d).buffer = reservedWords.contains s.buffer := by
  cases known : s.bufferPos with
  | none => simp [recast, known, recastText]
  | some pos =>
    by_cases before : pos ≤ place
    · obtain ⟨ahead, c, behind, shape, stands⟩ := past pos known before
      have shape : s.buffer.toList = (ahead ++ [escapeMark]) ++ c :: behind := by simp [shape]
      have recasted :
          (s.recast place d).buffer.toList = (ahead ++ [escapeMark]) ++ d :: behind := by
        rw [recast, known]
        refine toList_recastText shape ?_
        rw [List.length_append, List.length_singleton]
        omega
      have apart (word : String) (mark : escapeMark ∈ word.toList) :
          reservedWords.contains word = false := by
        have unreserved : word ∉ reservedWords := fun reserved =>
          escapeMark_not_mem_of_reserved word reserved mark
        simpa using unreserved
      rw [apart s.buffer (by simp [shape]), apart _ (by simp [recasted])]
    · rw [recast, known, recastText_of_later (by omega)]

theorem flushWord_recast (past : s.Past place) :
    (s.recast place d).flushWord = s.flushWord.recast place d := by
  rw [flushWord, reserved_recast d past, flush_recast, flushWord]

theorem endFragment_recast (later : place < pos) :
    (s.recast place d).endFragment c pos = (s.endFragment c pos).recast place d := by
  rw [endFragment, flush_recast, emit_ofMark_recast d later, endFragment]

theorem openSubshell_recast (later : place < pos) :
    (s.recast place d).openSubshell c pos = (s.openSubshell c pos).recast place d := by
  rw [openSubshell, emit_ofMark_recast d later, enter_recast, openSubshell]

/-- A sign touches what it touched. -/
theorem assignToken_recast (next : Option Char) :
    (s.recast place d).assignToken next pos = s.assignToken next pos := by
  have joined : (s.recast place d).emitted.head?.bind Token.endPos =
      s.emitted.head?.bind Token.endPos := by
    cases emitted : s.emitted <;> simp [recast, emitted]
  simp [assignToken, joined]

theorem emit_assignToken_recast (later : place < pos) (next : Option Char) :
    (s.recast place d).emit ((s.recast place d).assignToken next pos) =
      (s.emit (s.assignToken next pos)).recast place d := by
  rw [assignToken_recast]
  exact emit_recast d (by simp [Token.recast, assignToken, recastText_of_later later])

end Parts

/-- Where nothing is being built, the place is past. -/
theorem past_of_bufferPos (nothing : s.bufferPos = none) : s.Past place := by
  intro pos known
  rw [nothing] at known
  cases known

theorem past_flushName (past : s.Past place) : s.flushName.Past place := by
  unfold flushName
  split
  case isTrue => exact past
  case isFalse => exact past_of_bufferPos rfl

/-! ## One character in each mode -/

section Steps

variable (d : Char) (past : s.Past place) (later : place < pos) (next : Option Char)
include past later

theorem stepStart_recast :
    (s.recast place d).stepStart next c pos = (s.stepStart next c pos).recast place d := by
  simp only [stepStart, apply_ite (recast · place d), enter_recast, push_recast, pop_recast,
    keep_recast d past later, keepEscape_recast d past later, emit_ofMark_recast d later,
    emit_assignToken_recast d later]

theorem stepQuote_recast :
    (s.recast place d).stepQuote c pos = (s.stepQuote c pos).recast place d := by
  have context : (s.recast place d).context = s.context := rfl
  simp only [stepQuote, apply_ite (recast · place d), context, enter_recast, push_recast,
    keep_recast d past later, keepEscape_recast d past later, endFragment_recast d later]

theorem stepComment_recast :
    (s.recast place d).stepComment c pos = (s.stepComment c pos).recast place d := by
  simp only [stepComment, apply_ite (recast · place d), enter_recast, flush_recast,
    keep_recast d past later]

theorem stepLiteral_recast :
    (s.recast place d).stepLiteral next c pos = (s.stepLiteral next c pos).recast place d := by
  have flushed : s.flushWord.Past place := past_of_bufferPos rfl
  simp only [stepLiteral, apply_ite (recast · place d), enter_recast, flushWord_recast d past,
    keep_recast d past later, keepEscape_recast d past later, stepStart_recast d flushed later]

theorem stepWildcard_recast :
    (s.recast place d).stepWildcard next c pos = (s.stepWildcard next c pos).recast place d := by
  have flushed : (s.flush .wildcard).Past place := past_of_bufferPos rfl
  simp only [stepWildcard, apply_ite (recast · place d), flush_recast,
    keep_recast d past later, keepEscape_recast d past later, stepStart_recast d flushed later]

theorem stepOperator_recast :
    (s.recast place d).stepOperator next c pos = (s.stepOperator next c pos).recast place d := by
  have context : (s.recast place d).context = s.context := rfl
  have flushed : (s.flush .symbol).Past place := past_of_bufferPos rfl
  simp only [stepOperator, apply_ite (recast · place d), context, enter_recast, flush_recast,
    keep_recast d past later, stepStart_recast d flushed later]

theorem stepPlain_recast :
    (s.recast place d).stepPlain next c pos = (s.stepPlain next c pos).recast place d := by
  have context : (s.recast place d).context = s.context := rfl
  simp only [stepPlain, context]
  cases s.context.mode with
  | start => exact stepStart_recast d past later next
  | literal => exact stepLiteral_recast d past later next
  | wildcard => exact stepWildcard_recast d past later next
  | operator => exact stepOperator_recast d past later next
  | quote => exact stepQuote_recast d past later
  | comment => exact stepComment_recast d past later
  | substitution => rfl

theorem resume_recast (stack : List ScanContext) :
    (s.recast place d).resume next c pos stack = (s.resume next c pos stack).recast place d := by
  induction stack generalizing s with
  | nil =>
    have started : Past { s with stack := [], context := {} } place := past
    exact stepStart_recast d started later next
  | cons outer rest ih =>
    have resumed : Past { s with stack := rest, context := outer } place := past
    simp only [resume, apply_ite (recast · place d)]
    refine ite_congr rfl (fun _ => ite_congr rfl (fun _ => ?paren) fun _ => ?name) fun _ => ?plain
    case paren =>
      exact openSubshell_recast (s := { s with stack := rest, context := outer }) d later
    case name => exact ih resumed
    case plain => exact stepPlain_recast d resumed later next

theorem stepSubstitution_recast :
    (s.recast place d).stepSubstitution next c pos =
      (s.stepSubstitution next c pos).recast place d := by
  have stack : (s.recast place d).stack = s.stack := rfl
  have empty : (s.recast place d).buffer = "" ↔ s.buffer = "" := recastText_eq_empty_iff
  simp only [stepSubstitution, apply_ite (recast · place d), stack, empty, flushName_recast,
    keep_recast d past later, openSubshell_recast d later,
    resume_recast d (past_flushName past) later]

/-- With another character at a place behind it, a step comes to the same. -/
theorem step_recast : (s.recast place d).step next c pos = (s.step next c pos).recast place d := by
  have escaped : (s.recast place d).escaped = s.escaped := rfl
  have context : (s.recast place d).context = s.context := rfl
  simp only [step, apply_ite (recast · place d), escaped, context, keep_recast d past later,
    stepSubstitution_recast d past later, stepPlain_recast d past later]
  rfl

end Steps

/-! ## Whole texts -/

section Past

variable (past : s.Past place) (later : place < pos)
include past

theorem Past.pop : s.pop.Past place := by
  unfold Scanner.pop
  split <;> exact past

theorem Past.settle : s.settle.Past place := by
  unfold Scanner.settle
  split
  case h_4 => exact (past_flushName past).pop
  case h_5 => exact past
  all_goals exact past_of_bufferPos rfl

include later

theorem Past.keep : (s.keep c pos).Past place := by
  intro start known before
  by_cases empty : s.buffer = ""
  · obtain rfl : pos = start := by simpa [Scanner.keep, empty] using known
    omega
  · obtain ⟨ahead, escaped, behind, shape, stands⟩ :=
      past start (by simpa [Scanner.keep, empty] using known) before
    exact ⟨ahead, escaped, behind ++ [c], by simp [Scanner.keep, shape], stands⟩

theorem Past.stepStart (next : Option Char) : (s.stepStart next c pos).Past place := by
  refine s.stepStart_cases (motive := (Past · place)) next c pos ?blank ?escape ?quote ?operator
    ?assign ?symbol ?comment ?sigil ?opening ?closing ?star ?word
  case blank => exact fun _ => past
  case quote => exact fun _ => past
  case assign => exact fun _ => past
  case symbol => exact fun _ _ => past
  case sigil => exact fun _ => past
  case opening => exact fun _ => past
  case closing => exact fun _ => Past.pop (s := s.emit (.ofMark c pos)) past
  all_goals
    intros
    exact past.keep later

/-- What is built later has no part in the place. -/
theorem Past.step (coherent : s.Coherent) (next : Option Char) :
    (s.step next c pos).Past place := by
  refine coherent.step_cases (motive := (Past · place)) ?escaped ?goesOn ?start ?quote ?comment
  case escaped => exact fun _ => past.keep later
  case goesOn =>
    intro plain goesOn
    refine step_cases_of_continues (motive := (Past · place)) next plain goesOn ?keep ?escape ?star
      ?double ?subshell
    case keep => exact fun _ => past.keep later
    case escape => exact fun _ _ => past.keep later
    case star => exact fun _ _ => past.keep later
    case double => exact fun _ _ => past_of_bufferPos rfl
    case subshell => exact fun _ _ _ => past
  case start => exact fun _ _ _ => past.settle.stepStart later next
  case quote =>
    intro _ _
    refine s.settle.stepQuote_cases (motive := (Past · place)) c pos ?escape ?sigil ?text ?closing
    case escape => exact fun _ => past.settle.keep later
    case sigil => exact fun _ => past_of_bufferPos rfl
    case text => exact fun _ _ _ => past.settle.keep later
    case closing => exact fun _ => past_of_bufferPos rfl
  case comment =>
    intro _ _
    unfold stepComment
    split
    case isTrue => exact past_of_bufferPos rfl
    case isFalse => exact past.keep later

theorem Past.run (coherent : s.Coherent) (text : List Char) (after : Option Char) :
    (s.run pos text after).Past place := by
  induction text generalizing s pos with
  | nil => exact past
  | cons c rest ih => exact ih (past.step later coherent _) (by omega) (coherent.step ..)

end Past

/-- With another character at a place behind it, reading a text comes to the same. -/
theorem Coherent.run_recast (coherent : s.Coherent) (past : s.Past place) (later : place < pos)
    (d : Char) (text : List Char) (after : Option Char) :
    (s.recast place d).run pos text after = (s.run pos text after).recast place d := by
  induction text generalizing s pos with
  | nil => rfl
  | cons c rest ih =>
    have onward := past.step later coherent (rest.head?.or after) (c := c)
    rw [run, run, step_recast d past later]
    exact ih (coherent.step ..) onward (by omega)

/-! ## The end of a text -/

section Ends

variable (d : Char)

theorem unwind_recast (stack : List ScanContext) :
    closeNames.unwind (s.recast place d) stack = (closeNames.unwind s stack).recast place d := by
  induction stack with
  | nil => rfl
  | cons outer rest ih =>
    simp only [closeNames.unwind, apply_ite (recast · place d), ih]
    rfl

theorem Past.unwind (past : s.Past place) (stack : List ScanContext) :
    (closeNames.unwind s stack).Past place := by
  induction stack with
  | nil => exact past
  | cons outer rest ih =>
    unfold closeNames.unwind
    split
    case isTrue => exact ih
    case isFalse => exact past

theorem closeNames_recast : (s.recast place d).closeNames = s.closeNames.recast place d := by
  have context : (s.recast place d).context = s.context := rfl
  have stack : (s.recast place d).stack = s.stack := rfl
  simp only [closeNames, context, stack, apply_ite (recast · place d), flushName_recast,
    unwind_recast]

theorem Past.closeNames (past : s.Past place) : s.closeNames.Past place := by
  unfold Scanner.closeNames
  split
  case isTrue => exact (past_flushName past).unwind s.stack
  case isFalse => exact past

theorem flushLast_recast (past : s.Past place) :
    (s.recast place d).flushLast = s.flushLast.recast place d := by
  have context : (s.recast place d).context = s.context := rfl
  have empty : (s.recast place d).buffer = "" ↔ s.buffer = "" := recastText_eq_empty_iff
  simp only [flushLast, context, empty, apply_ite (recast · place d), flush_recast,
    flushWord_recast d past]
  cases s.context.mode <;> rfl

/-- With another character at a place behind it, a text ends in the same way. -/
theorem finish_recast (past : s.Past place) (strictComments : Bool) :
    (s.recast place d).finish strictComments =
      ((s.finish strictComments).1.recast place d, (s.finish strictComments).2) := by
  have incomplete (s : Scanner) :
      (s.recast place d).incomplete strictComments = s.incomplete strictComments := rfl
  have dangling (s : Scanner) : (s.recast place d).dangling = s.dangling := rfl
  simp only [finish, closeNames_recast, incomplete]
  cases s.closeNames.incomplete strictComments with
  | some fault => rfl
  | none => simp only [flushLast_recast d past.closeNames, dangling]

end Ends

end Scanner

end ShellLine
