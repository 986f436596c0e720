import ShellLine.Proofs.Grammar.Acceptance
import ShellLine.Proofs.Grammar.Parallel

/-! # Positions have no part in the tree

Tokens without their positions come to the same as with them, down to the token at which reading
stops: `readout_erasePos`. So the tree depends on kinds, values and joined signs alone, and a
position shows up nowhere but in the report of a fault.
-/

namespace ShellLine

open Cursor Grammar

/-! ## Faults without positions -/

namespace StructuralFault

/-- The fault, as it is found in tokens without positions. -/
def erasePos (fault : StructuralFault) : StructuralFault :=
  fault.map Token.erasePos

@[simp]
theorem erasePos_erasePos (fault : StructuralFault) : fault.erasePos.erasePos = fault.erasePos := by
  cases fault <;> rfl

theorem kind_erasePos (fault : StructuralFault) : fault.erasePos.kind = fault.kind := by
  cases fault <;> rfl

theorem detail_erasePos (fault : StructuralFault) : fault.erasePos.detail = fault.detail := by
  cases fault <;> rfl

theorem token?_erasePos (fault : StructuralFault) :
    fault.erasePos.token? = fault.token?.map Token.erasePos := by
  cases fault <;> rfl

/-- The same fault of tokens that are alike, each reported where its own token stands. -/
structure Resembles (first second : StructuralFault) : Prop where
  kind : first.kind = second.kind
  token : first.token?.map Token.erasePos = second.token?.map Token.erasePos
  /-- The messages are the same but for the position at their end. -/
  detail : first.diagnostic.detail = second.diagnostic.detail
  placed : first.diagnostic.pos = first.token?.bind Token.pos ∧
    second.diagnostic.pos = second.token?.bind Token.pos

/-- Faults that are the same without positions resemble each other. -/
theorem resembles_of_erasePos {first second : StructuralFault}
    (same : first.erasePos = second.erasePos) : first.Resembles second where
  kind := by rw [← first.kind_erasePos, same, second.kind_erasePos]
  token := by rw [← first.token?_erasePos, same, second.token?_erasePos]
  detail := by
    change first.detail = second.detail
    rw [← first.detail_erasePos, same, second.detail_erasePos]
  placed := ⟨rfl, rfl⟩

end StructuralFault

/-! ## Readings without positions -/

/-- What a reading comes to, and how many tokens it has read by then, apart from positions. -/
def readout :
    EStateM.Result StructuralFault Cursor Node → Except StructuralFault Node × Nat
  | .ok tree after => (.ok tree, after.pos)
  | .error fault after => (.error fault.erasePos, after.pos)

theorem withoutComments_erasePos (tokens : List Token) :
    withoutComments (tokens.map Token.erasePos) = (withoutComments tokens).map Token.erasePos := by
  rw [withoutComments, withoutComments, List.filter_map]
  rfl

theorem getElem?_erasePos (tokens : List Token) (pos : Nat) :
    (withoutComments (tokens.map Token.erasePos)).toArray[pos]? =
      (withoutComments tokens).toArray[pos]?.map Token.erasePos := by
  rw [withoutComments_erasePos, List.getElem?_toArray, List.getElem?_toArray, List.getElem?_map]

theorem alike_erasePos (token : Token) : token.alike token.erasePos :=
  Token.alike_iff.mpr ⟨rfl, rfl, rfl, rfl⟩

/-- Tokens beside the same ones without positions. -/
def unplaced (tokens : List Token) (maxDepth : Int) : View where
  relabel := Token.erasePos
  first := (withoutComments tokens).toArray
  second := (withoutComments (tokens.map Token.erasePos)).toArray
  low := maxDepth
  high := maxDepth
  sight := ⊤
  alike := alike_erasePos
  agree pos _ := getElem?_erasePos tokens pos
  limits := le_refl maxDepth

/-- Readings that meet and cannot differ in their limits come to the same. -/
theorem readout_of_meets {tokens : List Token} {maxDepth : Int}
    {run run' : EStateM.Result StructuralFault Cursor Node}
    (meets : (unplaced tokens maxDepth).Meets 0 run run') : readout run' = readout run := by
  cases run with
  | ok tree after =>
    obtain ⟨after', rfl, abreast⟩ := meets trivial
    exact congrArg (Prod.mk _) abreast.pos
  | error fault after =>
    obtain ⟨_, lower⟩ | ⟨after', rfl, abreast⟩ := meets trivial
    · exact absurd lower (lt_irrefl maxDepth)
    · have same : (fault.map Token.erasePos).erasePos = fault.erasePos := fault.erasePos_erasePos
      exact congrArg₂ Prod.mk (congrArg Except.error same) abreast.pos

/-- Without positions the tokens come to the same. -/
theorem readout_erasePos (tokens : List Token) (maxDepth : Int) :
    readout (Grammar.parse.run (Cursor.ofTokens (tokens.map Token.erasePos) maxDepth)) =
      readout (Grammar.parse.run (Cursor.ofTokens tokens maxDepth)) := by
  by_cases kept : withoutComments tokens = []
  · have kept' : withoutComments (tokens.map Token.erasePos) = [] := by
      rw [withoutComments_erasePos, kept, List.map_nil]
    obtain ⟨after, start, ran⟩ := parse_run_of_comments kept maxDepth
    obtain ⟨after', start', ran'⟩ := parse_run_of_comments kept' maxDepth
    rw [ran, ran']
    by_cases empty : tokens = []
    · simp [empty, readout, start, start', StructuralFault.erasePos, StructuralFault.map]
    · simp [empty, readout, start, start']
  · have kept' : withoutComments (tokens.map Token.erasePos) ≠ [] := by
      simpa [withoutComments_erasePos] using kept
    have abreast : (unplaced tokens maxDepth).Abreast 0 (Cursor.ofTokens tokens maxDepth)
        (Cursor.ofTokens (tokens.map Token.erasePos) maxDepth) :=
      ⟨rfl, rfl, rfl, rfl, rfl, rfl, trivial, le_refl 0⟩
    exact readout_of_meets (parse_agrees (commentOnly_ofTokens maxDepth kept)
      (commentOnly_ofTokens maxDepth kept') abreast)

/-! ## Tokens that are alike -/

/-- Two readings come to the same tree, or to faults that resemble each other, at the same token. -/
def Corresponds : EStateM.Result StructuralFault Cursor Node →
    EStateM.Result StructuralFault Cursor Node → Prop
  | .ok tree after, .ok tree' after' => tree = tree' ∧ after.pos = after'.pos
  | .error fault after, .error fault' after' => fault.Resembles fault' ∧ after.pos = after'.pos
  | _, _ => False

theorem corresponds_of_readout {run run' : EStateM.Result StructuralFault Cursor Node}
    (same : readout run = readout run') : Corresponds run run' := by
  cases run with
  | ok tree after =>
    cases run' with
    | ok tree' after' => simpa [readout, Corresponds] using same
    | error fault' after' => simp [readout] at same
  | error fault after =>
    cases run' with
    | ok tree' after' => simp [readout] at same
    | error fault' after' =>
      simp only [readout, Prod.mk.injEq, Except.error.injEq] at same
      exact ⟨StructuralFault.resembles_of_erasePos same.1, same.2⟩

/-- Tokens that are alike are the same without their positions. -/
theorem map_erasePos_of_alike {first second : List Token}
    (alike : List.Forall₂ (fun a b : Token => a.alike b) first second) :
    first.map Token.erasePos = second.map Token.erasePos := by
  induction alike with
  | nil => rfl
  | cons same _ ih => rw [List.map_cons, List.map_cons, ih, beq_iff_eq.mp same]

/-- Tokens that differ in their positions alone are read alike. -/
theorem parse_alike {first second : List Token}
    (alike : List.Forall₂ (fun a b : Token => a.alike b) first second) (maxDepth : Int) :
    Corresponds (Grammar.parse.run (Cursor.ofTokens first maxDepth))
      (Grammar.parse.run (Cursor.ofTokens second maxDepth)) := by
  apply corresponds_of_readout
  rw [← readout_erasePos first, map_erasePos_of_alike alike, readout_erasePos second]

/-- The stray parenthesis of `a )`, once at its place in a line and once without one. -/
theorem alike_closeParen :
    Corresponds
      (Grammar.parse.run (Cursor.ofTokens
        [⟨.literal, "a", some 0, false, false⟩, ⟨.symbol, ")", some 2, false, false⟩]))
      (Grammar.parse.run (Cursor.ofTokens
        [⟨.literal, "a", none, false, false⟩, ⟨.symbol, ")", none, false, false⟩])) :=
  parse_alike (.cons (by decide) (.cons (by decide) .nil)) defaultMaxDepth

end ShellLine
