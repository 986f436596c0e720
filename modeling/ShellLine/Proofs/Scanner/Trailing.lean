import Mathlib.Data.List.Induction
import ShellLine.Proofs.Scanner.Escapes
import ShellLine.Proofs.Scanner.Strictness

/-! # Escapes at the end of a line

An escape takes the character after its mark as it is, blanks included. The blanks at the ends of a
line are taken away before any of it is read, though, and an escape mark in front of them loses the
blank that it escapes. This is the only way to part them: `pending_at_end`.
-/

namespace ShellLine

open Alphabet Text

/-- A text ends in an escape mark that is not escaped itself if a unit of it is pending. -/
theorem pendingEscape_iff (text : List Char) : pendingEscape text ↔ .pending ∈ units text := by
  induction text using List.reverseRecOn with
  | nil => decide
  | append_singleton text c ih =>
    rw [pendingEscape_concat]
    by_cases pending : .pending ∈ units text
    · obtain ⟨init, whole, _, escape⟩ := units_of_pending pending
      simp [escape, whole, ih.mpr pending]
    · have plain : pendingEscape text = false := Bool.eq_false_iff.mpr (mt ih.mp pending)
      rw [units_append pending, plain]
      by_cases mark : c = escapeMark
      · simp [mark]
      · simp [mark, units_singleton mark, pending]

/-- A word that ends in an escape mark ends the text. -/
theorem WordForm.endPos_of_pendingEscape {start : Int} {text : List Char} {token : Token}
    (form : WordForm start text token) (pending : pendingEscape token.value.toList) :
    token.endPos = some (start + text.length) := by
  obtain ⟨ahead, behind, split⟩ := List.append_of_mem ((pendingEscape_iff _).mp pending)
  exact (form.pending ahead behind split).2

/-- A token that ends where its text ends has nothing after it. -/
theorem Laid.exists_eq_append {start : Int} {text : List Char} {tokens : List Token}
    (laid : Laid start text tokens) {token : Token} (member : token ∈ tokens)
    (last : token.endPos = some (start + text.length)) :
    ∃ before, text = before ++ token.value.toList ∧ token.pos = some (start + before.length) := by
  obtain ⟨before, after, split, pos⟩ := laid.exists_split member
  have nothing : after.length = 0 := by
    rw [Token.endPos, pos, split] at last
    simp only [Option.map_some, Option.some_inj, List.length_append, String.length_toList] at last
    omega
  rw [List.length_eq_zero_iff.mp nothing, List.append_nil] at split
  exact ⟨before, split, pos⟩

/-- Where an escape mark at the end of a word escapes nothing, the line has nothing but blanks after
it. The escaped character belongs to the word unless it is one of these blanks. -/
theorem pending_at_end {line : String} {strictComments : Bool} {maxLength : Option Int}
    {tokens : List Token} (ran : tokenize line strictComments maxLength = .ok tokens) {token : Token}
    (member : token ∈ tokens) (word : token.kind = .literal ∨ token.kind = .wildcard)
    (pending : pendingEscape token.value.toList) :
    ∃ before blanks, line.toList = before ++ token.value.toList ++ blanks ∧
      token.pos = some (before.length : Int) ∧ ∀ c ∈ blanks, isBlank c := by
  have ran := tokenize_of_options ran
  obtain ⟨earlier, later, split⟩ := List.append_of_mem member
  have form := ((lexemes_of_tokenize ran).lexeme split).form
  have form : WordForm (leadingBlanks line.toList) (strip line.toList) token := by
    rcases word with kind | kind <;> simpa only [Form, kind] using form
  obtain ⟨before, text, pos⟩ := (laid_of_tokenize ran).exists_eq_append
    (List.mem_reverse.mpr member) (form.endPos_of_pendingEscape pending)
  obtain ⟨leading, trailing, length, _, white, same⟩ := exists_eq_append_strip line.toList
  refine ⟨leading ++ before, trailing, ?_, ?_, white⟩
  · rw [List.append_assoc leading, ← text]
    exact same
  · rw [pos, ← length, List.length_append, Int.natCast_add]

/-- The mark at the end of a pattern, with blanks on both sides of the text. -/
theorem pending_of_pattern :
    tokenize " ls *\\\t" true (some 7) = .ok
        [⟨.literal, "ls", some 1, false, false⟩, ⟨.wildcard, "*\\", some 4, false, false⟩] ∧
      ∃ before blanks, " ls *\\\t".toList = before ++ "*\\".toList ++ blanks ∧
        (some 4 : Option Int) = some (before.length : Int) ∧ ∀ c ∈ blanks, isBlank c := by
  have ran : tokenize " ls *\\\t" true (some 7) = .ok
      [⟨.literal, "ls", some 1, false, false⟩, ⟨.wildcard, "*\\", some 4, false, false⟩] := rfl
  exact ⟨ran, pending_at_end ran (List.mem_cons_of_mem _ List.mem_cons_self) (.inr rfl) rfl⟩

/-- A blank at the end of a line is lost although it is escaped. -/
theorem pending_before_blank :
    tokenize "a\\ " = .ok [⟨.literal, "a\\", some 0, false, false⟩] ∧
      pendingEscape "a\\".toList ∧ "a\\ ".toList[2]? = some ' ' :=
  ⟨rfl, rfl, rfl⟩

end ShellLine
