import ShellLine.Proofs.Nesting.Parsing
import ShellLine.Proofs.Scanner.Within

/-! # Lines within lines

The tokens of a line whose parentheses are all matched, with no sign in front of everything else,
come out the same in the middle of another line: `Coherent.run_within`.
-/

namespace ShellLine

open Alphabet Text

namespace Scanner

variable {s outer : Scanner} {offset : Int} {c : Char} {pos : Int} {next : Option Char}

/-! ## Finished tokens stay -/

theorem suffix_settle (s : Scanner) : s.emitted <:+ s.settle.emitted := by
  unfold settle flushName
  split
  case h_4 =>
    rw [pop_emitted]
    split
    case isTrue => exact List.suffix_rfl
    case isFalse => exact List.suffix_cons ..
  case h_5 => exact List.suffix_rfl
  all_goals exact List.suffix_cons ..

theorem suffix_stepStart (s : Scanner) (next : Option Char) (c : Char) (pos : Int) :
    s.emitted <:+ (s.stepStart next c pos).emitted := by
  refine s.stepStart_cases (motive := fun after => s.emitted <:+ after.emitted) next c pos ?blank
    ?escape ?quote ?operator ?assign ?symbol ?comment ?sigil ?opening ?closing ?star ?word
  case closing =>
    intro _
    rw [pop_emitted]
    exact List.suffix_cons ..
  case quote => exact fun _ => List.suffix_cons ..
  case assign => exact fun _ => List.suffix_cons ..
  case symbol => exact fun _ _ => List.suffix_cons ..
  case sigil => exact fun _ => List.suffix_cons ..
  case opening => exact fun _ => List.suffix_cons ..
  all_goals
    intros
    exact List.suffix_rfl

theorem suffix_stepQuote (s : Scanner) (c : Char) (pos : Int) :
    s.emitted <:+ (s.stepQuote c pos).emitted := by
  have fragment : s.emitted <:+ (s.endFragment c pos).emitted :=
    (List.suffix_cons ..).trans (List.suffix_cons ..)
  refine s.stepQuote_cases (motive := fun after => s.emitted <:+ after.emitted) c pos ?escape ?sigil
    ?text ?closing
  case escape => exact fun _ => List.suffix_rfl
  case sigil => exact fun _ => fragment
  case text => exact fun _ _ _ => List.suffix_rfl
  case closing => exact fun _ => fragment

/-- A step only adds to the tokens. -/
theorem Coherent.suffix_step (coherent : s.Coherent) :
    s.emitted <:+ (s.step next c pos).emitted := by
  refine coherent.step_cases (motive := fun after => s.emitted <:+ after.emitted) ?escaped ?goesOn
    ?start ?quote ?comment
  case escaped => exact fun _ => List.suffix_rfl
  case goesOn =>
    intro plain goesOn
    refine step_cases_of_continues (motive := fun after => s.emitted <:+ after.emitted) next plain
      goesOn ?keep ?escape ?star ?double ?subshell
    case double => exact fun _ _ => List.suffix_cons ..
    case subshell => exact fun _ _ _ => List.suffix_cons ..
    all_goals
      intros
      exact List.suffix_rfl
  case start => exact fun _ _ _ => s.suffix_settle.trans (suffix_stepStart ..)
  case quote => exact fun _ _ => s.suffix_settle.trans (suffix_stepQuote ..)
  case comment =>
    intro _ _
    unfold stepComment
    split
    case isTrue => exact List.suffix_cons ..
    case isFalse => exact List.suffix_rfl

theorem Coherent.suffix_run (coherent : s.Coherent) (text : List Char) (after : Option Char) :
    s.emitted <:+ (s.run pos text after).emitted := by
  induction text generalizing s pos with
  | nil => exact List.suffix_rfl
  | cons c rest ih => exact coherent.suffix_step.trans (ih (coherent.step ..))

/-! ## Whole texts -/

/-- In front of tokens that close all they open, and do not start with a sign, a step does not look
at what is below. -/
theorem Coherent.spares (coherent : s.Coherent) (followed : s.Followed) {last : List Token}
    (strict : ∃ frames, follow false [] last = some frames)
    (named : ∀ token ∈ last.head?, token.isMark assign = false)
    (ahead : (s.step next c pos).tokens <+: last) (plain : s.escaped = false)
    (apart : s.continues c = false) (start : s.settle.context.mode = .start) :
    s.settle.Spares outer offset c pos := by
  obtain ⟨more, rfl⟩ := ahead
  rw [coherent.step_eq plain apart, stepPlain, start] at strict named
  constructor
  · rintro rfl
    apply Or.inl
    intro nothing
    obtain ⟨frames, around, matched⟩ := followed.settle coherent
    simp only [Matches, start, nothing, framesOf] at matched
    subst matched
    have closed : s.settle.stepStart next closeParen pos =
        (s.settle.emit (.ofMark closeParen pos)).pop := rfl
    have grown : (s.settle.stepStart next closeParen pos).tokens =
        s.settle.tokens ++ [.ofMark closeParen pos] := by
      rw [closed, tokens, pop_emitted]
      simp [tokens, emit]
    obtain ⟨last, strict⟩ := strict
    rw [grown, List.append_assoc, follow_append, Option.bind_eq_some_iff] at strict
    obtain ⟨middle, before, strict⟩ := strict
    obtain rfl := Option.some.inj ((follow_mono before).symm.trans around)
    simp [advance_nil_of_closeParen (isMark_ofMark closeParen pos)] at strict
  · rintro rfl
    apply Or.inl
    intro nothing
    have signed : s.settle.stepStart next assign pos =
        (s.settle.emit (s.settle.assignToken next pos)).enter {} := rfl
    have first : (s.settle.stepStart next assign pos).tokens = [s.settle.assignToken next pos] := by
      simp [signed, tokens, emit, enter, nothing]
    have sign : (s.settle.assignToken next pos).isMark assign := by
      simp [Token.isMark_iff, assignToken]
    have noSign := named (s.settle.assignToken next pos) (by simp [first])
    rw [sign] at noSign
    cases noSign

/-- Tokens that close all they open, and do not start with a sign, come out the same in the middle
of another text. -/
theorem Coherent.run_within (coherent : s.Coherent) (followed : s.Followed)
    (below : ∀ context ∈ outer.stack, context.Resumable) {last : List Token}
    (strict : ∃ frames, follow false [] last = some frames)
    (named : ∀ token ∈ last.head?, token.isMark assign = false) {text : List Char}
    {after : Option Char} (ahead : (s.run pos text after).tokens <+: last) :
    (s.within outer offset).run (pos + offset) text after =
      (s.run pos text after).within outer offset := by
  induction text generalizing s pos with
  | nil => rfl
  | cons c rest ih =>
    have stepped := coherent.step (rest.head?.or after) c pos
    have sooner : (s.step (rest.head?.or after) c pos).tokens <+: last := by
      apply List.IsPrefix.trans _ ahead
      exact List.reverse_prefix.mpr (stepped.suffix_run rest after)
    have same : (s.within outer offset).step (rest.head?.or after) c (pos + offset) =
        (s.step (rest.head?.or after) c pos).within outer offset :=
      coherent.step_within below (coherent.spares followed strict named sooner) _
    have moved : pos + offset + 1 = pos + 1 + offset := by omega
    rw [run, run, same, moved, ih stepped (followed.step coherent _ c pos) ahead]

end Scanner

end ShellLine
