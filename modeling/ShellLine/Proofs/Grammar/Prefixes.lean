import Mathlib.Order.UpperLower.Principal
import ShellLine.Proofs.Grammar.Limits

/-! # Faults are found at the first token that cannot stand

Where the parser fails, the tokens read so far begin an accepted list of tokens, and those together
with the next token begin none.
-/

namespace ShellLine

open Cursor Grammar

theorem withoutComments_of_plain {tokens : List Token}
    (plain : ∀ token ∈ tokens, token.kind ≠ .comment) : withoutComments tokens = tokens := by
  simpa [withoutComments, List.filter_eq_self] using plain

theorem commentOnly_of_plain {tokens : List Token}
    (plain : ∀ token ∈ tokens, token.kind ≠ .comment) (maxDepth : Int) :
    (Cursor.ofTokens tokens maxDepth).commentOnly = false := by
  rw [Cursor.ofTokens, ← withoutComments, withoutComments_of_plain plain]
  exact Bool.not_and_self _

/-- The tokens taken before the fault begin an accepted list of tokens. -/
theorem exists_completion {tokens : List Token} {maxDepth : Int} {fault : StructuralFault}
    {after : Cursor} (plain : ∀ token ∈ tokens, token.kind ≠ .comment)
    (ran : Grammar.parse.run (Cursor.ofTokens tokens maxDepth) = .error fault after) :
    ∃ more tree, ∀ limit : Int, tree.levels ≤ limit →
      parse (tokens.take after.pos ++ more) limit = .ok tree := by
  obtain ⟨used, more, stuck, tree, phrase⟩ := parse_stuck (commentOnly_of_plain plain maxDepth) ran
  have taken : tokens.take after.pos = used := by
    have ahead := stuck.ahead
    have pos : after.pos = used.length := stuck.pos.trans (Nat.zero_add _)
    rw [rest_ofTokens, withoutComments_of_plain plain] at ahead
    rw [ahead, pos, List.take_left]
  refine ⟨more, tree, fun limit enough => ?_⟩
  rw [taken, parse_eq_ok_iff, phrase.withoutComments_eq]
  · exact ⟨phrase, by omega⟩
  · obtain ⟨first, rest, same, _⟩ := phrase.opens
    rw [phrase.withoutComments_eq, same]
    exact List.cons_ne_nil _ _

/-- The tokens up to the one at the fault begin no accepted list of tokens. -/
theorem not_completion {tokens more : List Token} {maxDepth limit : Int} {fault : StructuralFault}
    {after : Cursor} {tree : Node} (plain : ∀ token ∈ tokens, token.kind ≠ .comment)
    (ran : Grammar.parse.run (Cursor.ofTokens tokens maxDepth) = .error fault after)
    (shallow : fault.kind ≠ .nestingTooDeep) (inside : after.pos < tokens.length) :
    parse (tokens.take (after.pos + 1) ++ more) limit ≠ .ok tree := by
  intro parsed
  have start : withoutComments (tokens.take (after.pos + 1)) = tokens.take (after.pos + 1) :=
    withoutComments_of_plain fun token member => plain token (List.mem_of_mem_take member)
  have length : (tokens.take (after.pos + 1)).length = after.pos + 1 := by
    rw [List.length_take]
    omega
  have kept : withoutComments (tokens.take (after.pos + 1) ++ more) ≠ [] := by
    rw [withoutComments_append, start]
    refine List.append_ne_nil_of_left_ne_nil (List.ne_nil_of_length_pos ?_) _
    omega
  have same : ∀ pos ∈ LowerSet.Iic after.pos,
      (withoutComments (tokens.take (after.pos + 1) ++ more))[pos]? =
        (withoutComments tokens)[pos]? := by
    intro pos seen
    have before : pos < after.pos + 1 := Nat.lt_succ_of_le seen
    rw [withoutComments_append, start, withoutComments_of_plain plain,
      List.getElem?_append_left (by omega), List.getElem?_take_of_lt before]
  -- A limit that is high enough for both changes neither the fault nor the tree.
  have accepted :
      parse (tokens.take (after.pos + 1) ++ more) (max maxDepth tree.levels) = .ok tree := by
    rw [parse_eq_ok_iff kept] at parsed ⊢
    exact ⟨parsed.1, by omega⟩
  have meets := sideBySide_meets (LowerSet.Iic after.pos) same (le_max_left maxDepth tree.levels)
    (Nat.zero_le after.pos) (commentOnly_of_plain plain maxDepth)
    (commentOnly_ofTokens _ kept)
  rw [ran] at meets
  obtain ⟨deep, _⟩ | ⟨after', ran', _⟩ := meets (le_refl after.pos)
  · exact shallow deep
  · have failed := parse_eq_error_iff.mpr ⟨after', ran'⟩
    rw [failed] at accepted
    cases accepted

/-- A fault other than that of the limit arises at the first token that cannot stand where it does:
the tokens before it begin an accepted list of tokens, and with it they begin none. -/
theorem parse_fault_earliest {tokens : List Token} {maxDepth : Int} {fault : StructuralFault}
    {after : Cursor} (plain : ∀ token ∈ tokens, token.kind ≠ .comment)
    (ran : Grammar.parse.run (Cursor.ofTokens tokens maxDepth) = .error fault after)
    (shallow : fault.kind ≠ .nestingTooDeep) :
    (∃ more tree, ∀ limit : Int, tree.levels ≤ limit →
      parse (tokens.take after.pos ++ more) limit = .ok tree) ∧
    (after.pos < tokens.length → ∀ more limit tree,
      parse (tokens.take (after.pos + 1) ++ more) limit ≠ .ok tree) :=
  ⟨exists_completion plain ran, fun inside _ _ _ => not_completion plain ran shallow inside⟩

/-- In `a | ;` the semicolon cannot stand after the pipe. -/
theorem earliest_semicolon :
    (∃ more tree, ∀ limit : Int, tree.levels ≤ limit →
      parse ([⟨.literal, "a", none, false, false⟩, .ofMark Alphabet.pipe] ++ more) limit =
        .ok tree) ∧
    ∀ more limit tree,
      parse ([⟨.literal, "a", none, false, false⟩, .ofMark Alphabet.pipe,
        .ofMark Alphabet.semicolon] ++ more) limit ≠ .ok tree := by
  have ran : Grammar.parse.run
      (Cursor.ofTokens [⟨.literal, "a", none, false, false⟩, .ofMark Alphabet.pipe,
        .ofMark Alphabet.semicolon] 0) = .error (.invalidHead (.ofMark Alphabet.semicolon)) _ := rfl
  have found := parse_fault_earliest (by simp [Token.ofMark]) ran (by simp [StructuralFault.kind])
  exact ⟨found.1, found.2 (by decide)⟩

end ShellLine
