import ShellLine.Proofs.Reading.Actions

/-! # What actions leave alone

Whatever an action comes to, it moves the cursor on by some tokens, and logs its fault if it fails;
`Steady` says that it does nothing else. In particular the depth after it is the one before it.
-/

namespace ShellLine.Cursor

/-- The cursor after a fault is logged. -/
def blamed (cursor : Cursor) (fault : StructuralFault) : Cursor :=
  { cursor with log := cursor.log ++ [⟨cursor.logger, .warning,
      "Parse error " ++ fault.kind.label ++ ": " ++ fault.detail⟩] }

/-- The action takes some of the tokens ahead. If it fails, it logs its fault. -/
def Steady {α : Type} (action : Reading α) : Prop :=
  ∀ cursor : Cursor, ∃ count ≤ cursor.remaining,
    match action.run cursor with
    | .ok _ after => after = cursor.advance count
    | .error fault after => after = (cursor.advance count).blamed fault

theorem remaining_advance (cursor : Cursor) (count : Nat) :
    (cursor.advance count).remaining = cursor.remaining - count := by
  simp only [remaining, advance]
  omega

namespace Steady

variable {α β : Type} {action : Reading α}

theorem of_ok (steady : Steady action) {cursor after : Cursor} {result : α}
    (ran : action.run cursor = .ok result after) :
    ∃ count ≤ cursor.remaining, after = cursor.advance count := by
  obtain ⟨count, enough, same⟩ := steady cursor
  rw [ran] at same
  exact ⟨count, enough, same⟩

theorem of_error (steady : Steady action) {cursor after : Cursor} {fault : StructuralFault}
    (ran : action.run cursor = .error fault after) :
    ∃ count ≤ cursor.remaining, after = (cursor.advance count).blamed fault := by
  obtain ⟨count, enough, same⟩ := steady cursor
  rw [ran] at same
  exact ⟨count, enough, same⟩

theorem pure (result : α) : Steady (Pure.pure result) :=
  fun _ => ⟨0, Nat.zero_le _, rfl⟩

theorem fail (fault : StructuralFault) : Steady (Cursor.fail fault : Reading α) :=
  fun _ => ⟨0, Nat.zero_le _, rfl⟩

theorem get_bind {continuation : Cursor → Reading α} (next : ∀ cursor, Steady (continuation cursor)) :
    Steady (get >>= continuation) :=
  fun cursor => next cursor cursor

theorem consume : Steady consume := by
  intro cursor
  rw [consume_run]
  cases ahead : cursor.rest with
  | nil => exact ⟨0, Nat.zero_le _, rfl⟩
  | cons token later => exact ⟨1, by simp [remaining_eq_length, ahead], rfl⟩

theorem bind {continuation : α → Reading β} (first : Steady action)
    (next : ∀ value, Steady (continuation value)) : Steady (action >>= continuation) := by
  intro cursor
  rw [EStateM.run_bind]
  cases ran : action.run cursor with
  | error fault after => exact first.of_error ran
  | ok value middle =>
    obtain ⟨count, enough, rfl⟩ := first.of_ok ran
    obtain ⟨more, enoughMore, same⟩ := next value (cursor.advance count)
    rw [remaining_advance] at enoughMore
    refine ⟨count + more, by omega, ?_⟩
    simpa using same

theorem ite (condition : Prop) [Decidable condition] {first second : Reading α}
    (positive : Steady first) (negative : Steady second) :
    Steady (if condition then first else second) := by
  split
  case isTrue => exact positive
  case isFalse => exact negative

theorem nested (opening : Token) (body : Steady action) : Steady (nested opening action) := by
  intro cursor
  rw [nested_run]
  by_cases deep : cursor.maxDepth < cursor.depth + 1
  · rw [if_pos deep]
    exact ⟨0, Nat.zero_le _, rfl⟩
  · rw [if_neg deep]
    cases ran : action.run { cursor with depth := cursor.depth + 1 } with
    | ok result after =>
      obtain ⟨count, enough, same⟩ := body.of_ok ran
      exact ⟨count, enough, by simp [same, advance]⟩
    | error fault after =>
      obtain ⟨count, enough, same⟩ := body.of_error ran
      exact ⟨count, enough, by simp [same, advance, blamed]⟩

theorem many {item : Reading (Option α)} (each : Steady item) : Steady (many item) := by
  suffices ∀ bound, Steady (repeatUpTo item bound) from .get_bind fun cursor => this cursor.remaining
  intro bound
  induction bound with
  | zero => exact .pure []
  | succ bound ih =>
    refine .bind each fun found => ?_
    cases found with
    | none => exact .pure []
    | some found => exact .bind ih fun rest => .pure (found :: rest)

end Steady

end ShellLine.Cursor
