import ShellLine.CommandLine
import ShellLine.Proofs.Grammar.Limits
import ShellLine.Proofs.Grammar.Reports
import ShellLine.Proofs.Scanner.Layout

/-! # Where structural faults are reported

A structural fault is reported at a token that the parser has come to, at the position of that
token, and this is where the value of the token stands in the line. The one exception is a command
that is missing where all tokens are used up.
-/

namespace ShellLine

open Cursor

/-- The parser, stopped at the cursor, reports the fault at a token of the list that it has come
to. -/
structure Located (tokens : List Token) (fault : StructuralFault) (last : Cursor) : Prop where
  /-- No token is shown just where all tokens are used up and a command is missing. -/
  token_eq_none_iff : fault.diagnostic.token = none ↔
    fault.diagnostic.kind = .structural .unexpectedEndOfInput ∧ fault = .missingCommand ∧
      (withoutComments tokens).length ≤ last.pos
  /-- No token is read where none is left. -/
  ne_missingToken : fault ≠ .missingToken
  /-- The token that is shown has been read, or it comes next. -/
  exists_index : ∀ token, fault.diagnostic.token = some token →
    ∃ index ≤ last.pos, (withoutComments tokens)[index]? = some token
  /-- The fault stands where its token does. -/
  pos_eq : ∀ token, fault.diagnostic.token = some token → fault.diagnostic.pos = token.pos

theorem located_of_shows {tokens : List Token} {fault : StructuralFault} {last : Cursor}
    (same : last.tokens = (withoutComments tokens).toArray) (shows : last.Shows fault) :
    Located tokens fault last := by
  have shown : fault.diagnostic.token = fault.token? := rfl
  unfold Shows at shows
  cases named : fault.token? with
  | none =>
    rw [named] at shows
    obtain ⟨rfl, empty⟩ := shows
    rw [remaining, same, List.size_toArray] at empty
    refine ⟨?_, by simp, by simp [shown, named], by simp [shown, named]⟩
    exact iff_of_true named ⟨rfl, rfl, by omega⟩
  | some token =>
    rw [named] at shows
    obtain ⟨index, before, found⟩ := shows
    rw [same, List.getElem?_toArray] at found
    refine ⟨?_, ?_, fun other same => ?_, fun other same => ?_⟩
    · refine iff_of_false (by simp [shown, named]) ?_
      rintro ⟨_, rfl, _⟩
      cases named
    · rintro rfl
      cases named
    · obtain rfl := Option.some.inj (named.symm.trans same)
      exact ⟨index, before, found⟩
    · have pos : fault.diagnostic.pos = fault.token?.bind (·.pos) := rfl
      rw [pos, ← shown, same, Option.bind_some]

/-- Every fault of a list of tokens is located. -/
theorem located_of_parse {tokens : List Token} {maxDepth : Int} {fault : StructuralFault}
    (failed : parse tokens maxDepth = .error fault) :
    ∃ last, Grammar.parse.run (Cursor.ofTokens tokens maxDepth) = .error fault last ∧
      Located tokens fault last := by
  obtain ⟨last, ran⟩ := parse_eq_error_iff.mp failed
  obtain ⟨reaches, shows⟩ := (Grammar.parse_reports _).of_error ran
  exact ⟨last, ran, located_of_shows reaches.1 shows⟩

/-- Structural faults are reported at tokens, and for those of a line this is where the line holds
the value of the token. -/
theorem fault_located :
    (∀ (tokens : List Token) (maxDepth : Int) (fault : StructuralFault),
      parse tokens maxDepth = .error fault →
        ∃ last, Grammar.parse.run (Cursor.ofTokens tokens maxDepth) = .error fault last ∧
          Located tokens fault last) ∧
    ∀ (line : String) (fault : StructuralFault) (pos : Int),
      parseLine line = .error (.structural fault) → fault.diagnostic.pos = some pos →
        ∃ (token : Token) (start : Nat), fault.diagnostic.token = some token ∧ pos = start ∧
          token.value.toList = (line.toList.drop start).take token.value.length := by
  refine ⟨fun tokens maxDepth fault => located_of_parse, fun line fault pos failed known => ?_⟩
  rw [parseLine_eq] at failed
  cases ran : tokenize line with
  | error fault => simp [ran] at failed
  | ok tokens =>
    cases parsed : parse tokens with
    | ok tree => simp [ran, parsed] at failed
    | error found =>
      obtain rfl : found = fault := by simpa [ran, parsed] using failed
      obtain ⟨last, -, located⟩ := located_of_parse parsed
      cases shown : found.diagnostic.token with
      | none =>
        obtain ⟨_, rfl, _⟩ := located.token_eq_none_iff.mp shown
        cases known
      | some token =>
        obtain ⟨index, _, stands⟩ := located.exists_index token shown
        have member := (List.mem_filter.mp (List.mem_of_getElem? stands)).1
        have faithful : Faithful line.toList tokens := faithful_of_laid (laid_of_tokenize ran)
        obtain ⟨start, place, value⟩ := faithful.value_eq token member
        refine ⟨token, start, rfl, ?_, value⟩
        exact Option.some.inj (known.symm.trans ((located.pos_eq token shown).trans place))

/-- The parenthesis of `echo $(ls (a))` that is reported is not the token the parser stops at. -/
theorem located_paren :
    let tokens : List Token :=
      [⟨.literal, "echo", some 0, false, false⟩, ⟨.symbol, "$", some 5, false, false⟩,
        ⟨.symbol, "(", some 6, false, false⟩, ⟨.literal, "ls", some 7, false, false⟩,
        ⟨.symbol, "(", some 10, false, false⟩, ⟨.literal, "a", some 11, false, false⟩,
        ⟨.symbol, ")", some 12, false, false⟩, ⟨.symbol, ")", some 13, false, false⟩]
    let fault : StructuralFault := .missingParen ⟨.symbol, "(", some 6, false, false⟩
    (parse tokens = .error fault ∧
      ∃ last, Grammar.parse.run (Cursor.ofTokens tokens) = .error fault last ∧
        Located tokens fault last) ∧
    (parseLine "echo $(ls (a))" = .error (.structural fault) ∧ fault.diagnostic.pos = some 6 ∧
      ∃ (token : Token) (start : Nat), fault.diagnostic.token = some token ∧ (6 : Int) = start ∧
        token.value.toList = ("echo $(ls (a))".toList.drop start).take token.value.length) := by
  intro tokens fault
  have parsed : parse tokens = .error fault := rfl
  have failed : parseLine "echo $(ls (a))" = .error (.structural fault) := rfl
  exact ⟨⟨parsed, fault_located.1 tokens _ fault parsed⟩, failed, rfl,
    fault_located.2 _ fault 6 failed rfl⟩

end ShellLine
