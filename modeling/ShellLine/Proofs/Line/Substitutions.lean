import ShellLine.CommandLine
import ShellLine.Proofs.Grammar.Acceptance
import ShellLine.Proofs.Scanner.Sigils

/-! # What a sigil introduces in a line

The scanner decides by the character after a sigil whether something adjoins it, the parser by the
token after it, with blanks and comments out of sight. They agree on names, which always adjoin
their sigil. They do not agree on groups: the parser also takes one that blanks or comments part
from the sigil. `sigil_introduces` says what this comes to for every sigil of a line.
-/

namespace ShellLine

open Alphabet Grammar

/-- What the sigil introduces stands right after it. -/
def Adjoined (mark : Token) (after : List Token) : Prop :=
  ∃ next ∈ after.head?, next.introduced ∧ next.pos = mark.endPos

/-- A group follows the sigil, parted from it by blanks or comments. -/
def Parted (mark : Token) (after : List Token) : Prop :=
  ∃ paren ∈ (withoutComments after).head?, paren.isMark openParen ∧ paren.pos ≠ mark.endPos

/-! ## Marks in their text -/

theorem endPos_of_isMark {token : Token} {mark : Char} {pos : Nat} (found : token.isMark mark)
    (placed : token.pos = some (pos : Int)) : token.endPos = some ((pos + 1 : Nat) : Int) := by
  simp [Token.endPos, placed, (Token.isMark_iff.mp found).2]

/-- A mark stands in the text where it says. -/
theorem Faithful.getElem?_of_isMark {text : List Char} {tokens : List Token} {token : Token}
    {mark : Char} {pos : Nat} (faithful : Faithful text tokens) (member : token ∈ tokens)
    (found : token.isMark mark) (placed : token.pos = some (pos : Int)) :
    text[pos]? = some mark := by
  obtain ⟨stands, same, value⟩ := faithful.value_eq token member
  obtain rfl : stands = pos := by
    rw [placed, Option.some_inj] at same
    omega
  simp only [(Token.isMark_iff.mp found).2, String.length_singleton, List.take_one,
    List.head?_drop] at value
  cases read : text[stands]? with
  | none => simp [read] at value
  | some c => simpa [read] using value.symm

/-! ## A sigil and the tokens after it -/

section Sigil

variable {text : List Char} {tokens before after : List Token} {mark : Token}

/-- No comment comes between a sigil and a name. -/
theorem head?_of_name (chained : (mark :: after).IsChain (Sits text)) {name : Token}
    (first : name ∈ (withoutComments after).head?) (kind : name.kind = .identifier) :
    name ∈ after.head? := by
  induction after generalizing mark with
  | nil => exact first
  | cons next rest ih =>
    by_cases comment : next.kind = .comment
    · rw [withoutComments_comment comment] at first
      rw [List.isChain_cons_cons] at chained
      have sits : Sits text next name := chained.2.rel_head? (ih chained.2 first)
      cases sits with
      | alone _ noName => exact absurd kind noName
      | adjoined sigil => simp [kind_of_isMark sigil] at comment
    · rw [withoutComments_cons comment] at first
      exact first

/-- A sigil of a line either introduces the next token, or stands alone in front of no name. -/
theorem sits_of_tokenize {line : String} (ran : tokenize line = .ok tokens)
    (split : tokens = before ++ mark :: after) (sigil : mark.isMark sigil) :
    (mark :: after).IsChain (Sits line.toList) ∧ ∃ pos : Nat, mark.pos = some (pos : Int) ∧
      (line.toList[pos + 1]?.any introduces ∧ Adjoined mark after ∨
        line.toList[pos + 1]?.any introduces = false ∧
          ∀ next ∈ after.head?, next.kind ≠ .identifier) := by
  obtain ⟨chained, last⟩ := settled_of_tokenize ran
  rw [Chained, List.isChain_reverse, split] at chained
  have onward := chained.right_of_append
  refine ⟨onward, ?_⟩
  cases after with
  | nil =>
    obtain ⟨pos, placed, none⟩ := last mark (by simp [split]) sigil
    exact ⟨pos, placed, .inr ⟨none, by simp⟩⟩
  | cons next rest =>
    rw [List.isChain_cons_cons] at onward
    cases onward.1 with
    | alone alone noName =>
      obtain ⟨pos, placed, none⟩ := alone sigil
      exact ⟨pos, placed, .inr ⟨none, by simpa using noName⟩⟩
    | @adjoined pos _ placed adjoins introduced stands =>
      have endPos := endPos_of_isMark sigil placed
      exact ⟨pos, placed, .inl ⟨adjoins, next, rfl, introduced, stands.trans endPos.symm⟩⟩

/-- Where no parenthesis stands right after a sigil, no token is one. -/
theorem pos_ne_endPos {pos : Nat} {paren : Token} (faithful : Faithful text tokens)
    (sigil : mark.isMark sigil) (placed : mark.pos = some (pos : Int))
    (none : text[pos + 1]?.any introduces = false) (member : paren ∈ tokens)
    (opens : paren.isMark openParen) : paren.pos ≠ mark.endPos := by
  intro stands
  rw [endPos_of_isMark sigil placed] at stands
  rw [faithful.getElem?_of_isMark member opens stands] at none
  exact absurd none (by decide)

theorem openParen_of_introduced {token : Token} (introduced : token.introduced)
    (noName : token.kind ≠ .identifier) : token.isMark openParen := by
  simpa [Token.introduced, noName] using introduced

/-- In a phrase a sigil in front of no name is in front of a group. -/
theorem exists_openParen {tree : Node} (chained : (mark :: after).IsChain (Sits text))
    (sigil : mark.isMark sigil) (noName : ∀ next ∈ after.head?, next.kind ≠ .identifier)
    (phrase : ListPhrase (withoutComments (before ++ mark :: after)) tree) :
    ∃ paren ∈ (withoutComments after).head?, paren.isMark openParen := by
  have kept : mark.kind ≠ .comment := by simp [kind_of_isMark sigil]
  rw [withoutComments_append, withoutComments_cons kept] at phrase
  obtain ⟨first, ahead, introduced⟩ := phrase.pieces.introduced_after rfl sigil
  refine ⟨first, ahead, openParen_of_introduced introduced fun name => ?_⟩
  exact noName first (head?_of_name chained ahead name) name

end Sigil

/-- Every sigil introduces what stands right after it, if that can be introduced. If it can not, then
the line has a tree only if a group comes next. -/
theorem sigil_introduces {line : String} {tokens before after : List Token} {mark : Token}
    (ran : tokenize line = .ok tokens) (split : tokens = before ++ mark :: after)
    (sigil : mark.isMark sigil) :
    ∃ pos : Nat, mark.pos = some (pos : Int) ∧
      (Adjoined mark after ↔ line.toList[pos + 1]?.any introduces) ∧
      ((∃ tree, parseLine line = .ok tree) → Adjoined mark after ∨ Parted mark after) ∧
      (¬ Adjoined mark after → ¬ Parted mark after →
        ∃ fault, parseLine line = .error (.structural fault)) := by
  have members : ∀ token ∈ after, token ∈ tokens := fun token member =>
    split ▸ List.mem_append_right before (List.mem_cons_of_mem mark member)
  obtain ⟨chained, pos, placed, ⟨adjoins, adjoined⟩ | ⟨none, noName⟩⟩ :=
    sits_of_tokenize ran split sigil
  · refine ⟨pos, placed, iff_of_true adjoined adjoins, fun _ => .inl adjoined, ?_⟩
    exact fun apart => absurd adjoined apart
  have faithful : Faithful line.toList tokens := faithful_of_laid (laid_of_tokenize ran)
  have parts {paren : Token} (member : paren ∈ after) (opens : paren.isMark openParen) :
      paren.pos ≠ mark.endPos :=
    pos_ne_endPos faithful sigil placed none (members paren member) opens
  have apart : ¬ Adjoined mark after := by
    rintro ⟨next, first, introduced, stands⟩
    exact parts (List.mem_of_mem_head? first)
      (openParen_of_introduced introduced (noName next first)) stands
  have parted (tree : Node) (parsed : parse tokens = .ok tree) : Parted mark after := by
    have some : withoutComments tokens ≠ [] :=
      withoutComments_ne_nil ⟨mark, by simp [split], by simp [kind_of_isMark sigil]⟩
    have phrase := ((parse_eq_ok_iff some).mp parsed).1
    obtain ⟨paren, first, opens⟩ := exists_openParen chained sigil noName (split ▸ phrase)
    have member : paren ∈ after := (List.mem_filter.mp (List.mem_of_mem_head? first)).1
    exact ⟨paren, first, opens, parts member opens⟩
  refine ⟨pos, placed, iff_of_false apart (by simp [none]), ?_⟩
  cases parsed : parse tokens with
  | ok tree => exact ⟨fun _ => .inr (parted tree parsed), fun _ no => absurd (parted tree parsed) no⟩
  | error fault =>
    have failed : parseLine line = .error (.structural fault) := by
      rw [parseLine_eq, ran]
      simp only [parsed]
    refine ⟨?_, fun _ _ => ⟨fault, failed⟩⟩
    rintro ⟨tree, found⟩
    rw [failed] at found
    cases found

/-- The sigil of `echo $ x` introduces nothing, and no group follows. -/
theorem parseLine_lone_sigil :
    tokenize "echo $ x" = .ok
        ([⟨.literal, "echo", some 0, false, false⟩] ++
          ⟨.symbol, "$", some 5, false, false⟩ :: [⟨.literal, "x", some 7, false, false⟩]) ∧
      ∃ fault, parseLine "echo $ x" = .error (.structural fault) := by
  have ran : tokenize "echo $ x" = .ok
      ([⟨.literal, "echo", some 0, false, false⟩] ++
        ⟨.symbol, "$", some 5, false, false⟩ :: [⟨.literal, "x", some 7, false, false⟩]) := rfl
  obtain ⟨_, _, _, _, failed⟩ := sigil_introduces ran rfl rfl
  refine ⟨ran, failed ?_ ?_⟩
  · rintro ⟨_, ⟨⟩, introduced, _⟩
    exact absurd introduced (by decide)
  · rintro ⟨_, ⟨⟩, opens, _⟩
    exact absurd opens (by decide)

/-- The sigil of `echo $ (ls)` does not adjoin the group after it, and yet the parser takes both for
a substitution. -/
theorem parseLine_parted :
    tokenize "echo $ (ls)" = .ok
        [⟨.literal, "echo", some 0, false, false⟩, ⟨.symbol, "$", some 5, false, false⟩,
          ⟨.symbol, "(", some 7, false, false⟩, ⟨.literal, "ls", some 8, false, false⟩,
          ⟨.symbol, ")", some 10, false, false⟩] ∧
      parseLine "echo $ (ls)" = .ok (.command (some (.literal "echo"))
        [.subshell (.command (some (.literal "ls")) [] [] [])] [] []) :=
  ⟨rfl, rfl⟩

end ShellLine
