import ShellLine.Proofs.Reading.Ensures
import ShellLine.Proofs.Reading.Steady
import ShellLine.Proofs.Reading.Stuck

/-! # What faults point at

A token is seen once it has been read or comes next. `Reports` says of an action on one cursor that
it only moves on, and that its fault shows a token that was seen on the way, or else that a command
is missing behind all tokens. So an action that reports never reads where no token is left: that
would be a fault of another kind. The lemmas go through an action from its front to its end, and a
token that is read has to be looked at first.
-/

namespace ShellLine.Cursor

/-- The one cursor comes from the other one by moving on. -/
def Reaches (cursor after : Cursor) : Prop :=
  after.tokens = cursor.tokens ∧ cursor.pos ≤ after.pos

/-- The token has been read, or it comes next. -/
def Seen (cursor : Cursor) (token : Token) : Prop :=
  ∃ index ≤ cursor.pos, cursor.tokens[index]? = some token

/-- The token that shows the fault has been seen, or a command is missing behind all tokens. -/
def Shows (cursor : Cursor) (fault : StructuralFault) : Prop :=
  match fault.token? with
  | some token => cursor.Seen token
  | none => fault = .missingCommand ∧ cursor.remaining = 0

section Reaches

variable {cursor middle after : Cursor} {token : Token}

theorem Reaches.refl (cursor : Cursor) : cursor.Reaches cursor :=
  ⟨rfl, Nat.le_refl _⟩

theorem Reaches.trans (first : cursor.Reaches middle) (second : middle.Reaches after) :
    cursor.Reaches after :=
  ⟨second.1.trans first.1, Nat.le_trans first.2 second.2⟩

theorem Reaches.advance (cursor : Cursor) (count : Nat) : cursor.Reaches (cursor.advance count) :=
  ⟨rfl, Nat.le_add_right ..⟩

theorem Reaches.remaining_le (reaches : cursor.Reaches after) :
    after.remaining ≤ cursor.remaining := by
  obtain ⟨tokens, pos⟩ := reaches
  rw [remaining, remaining, tokens]
  omega

theorem Seen.of_current (current : cursor.current = some token) : cursor.Seen token :=
  ⟨cursor.pos, Nat.le_refl _, current⟩

theorem Seen.mono (seen : cursor.Seen token) (reaches : cursor.Reaches after) :
    after.Seen token := by
  obtain ⟨index, before, found⟩ := seen
  exact ⟨index, Nat.le_trans before reaches.2, by rw [reaches.1, found]⟩

theorem remaining_advance_lt (current : cursor.current = some token) :
    (cursor.advance 1).remaining < cursor.remaining := by
  have ahead : cursor.remaining ≠ 0 := by
    intro empty
    rw [current_of_exhausted empty] at current
    cases current
  rw [remaining_advance]
  omega

end Reaches

/-- The action only moves on, and its fault shows what was seen. -/
def Reports {α : Type} (action : Reading α) (cursor : Cursor) : Prop :=
  Ensures action cursor (fun _ after => cursor.Reaches after)
    fun fault after => cursor.Reaches after ∧ after.Shows fault

namespace Reports

variable {α β : Type} {action : Reading α} {cursor : Cursor}

theorem pure (result : α) : Reports (Pure.pure result) cursor :=
  .refl cursor

theorem fail {fault : StructuralFault} (shown : cursor.Shows fault) :
    Reports (Cursor.fail fault : Reading α) cursor :=
  ⟨.refl cursor, shown⟩

/-- Where nothing comes next, a command may be missing. -/
theorem fail_of_exhausted (current : cursor.current = none) :
    Reports (Cursor.fail .missingCommand : Reading α) cursor := by
  rw [current_eq_head?, List.head?_eq_none_iff] at current
  exact .fail ⟨rfl, by rw [remaining_eq_length, current, List.length_nil]⟩

theorem get_bind {continuation : Cursor → Reading α} (next : Reports (continuation cursor) cursor) :
    Reports (get >>= continuation) cursor :=
  next

theorem ite {condition : Prop} [Decidable condition] {first second : Reading α}
    (positive : condition → Reports first cursor) (negative : ¬ condition → Reports second cursor) :
    Reports (if condition then first else second) cursor := by
  split
  case isTrue holds => exact positive holds
  case isFalse fails => exact negative fails

/-- What an action reports it reports from any cursor before it. -/
theorem from_earlier {earlier : Cursor} (reports : Reports action cursor)
    (reaches : earlier.Reaches cursor) :
    Ensures action cursor (fun _ after => earlier.Reaches after)
      fun fault after => earlier.Reaches after ∧ after.Shows fault := by
  unfold Ensures
  split
  case h_1 ran => exact reaches.trans (reports.of_ok ran)
  case h_2 ran => exact (reports.of_error ran).imp_left reaches.trans

theorem bind {continuation : α → Reading β} (first : Reports action cursor)
    (next : ∀ value middle, cursor.Reaches middle → Reports (continuation value) middle) :
    Reports (action >>= continuation) cursor :=
  Ensures.bind first fun value middle reaches => (next value middle reaches).from_earlier reaches

/-- What only makes something of a result reports what the action does. -/
theorem bind_pure {pack : α → β} (first : Reports action cursor) :
    Reports (action >>= fun value => Pure.pure (pack value)) cursor :=
  first.bind fun value _ _ => .pure (pack value)

/-- Only a token that comes next is read. -/
theorem consume_bind {continuation : Token → Reading α} {token : Token}
    (current : cursor.current = some token)
    (next : Reports (continuation token) (cursor.advance 1)) :
    Reports (consume >>= continuation) cursor := by
  obtain ⟨later, ahead⟩ := List.head?_eq_some_iff.mp (cursor.current_eq_head?.symm.trans current)
  have read : Ensures consume cursor (fun value middle => value = token ∧ middle = cursor.advance 1)
      fun fault after => cursor.Reaches after ∧ after.Shows fault := .consume ahead ⟨rfl, rfl⟩
  apply read.bind
  rintro _ _ ⟨rfl, rfl⟩
  exact next.from_earlier (.advance cursor 1)

/-- The limit on nesting is reported at the token that opens the level. -/
theorem nested {opening : Token} (seen : cursor.Seen opening)
    (inside : Reports action cursor.deeper) : Reports (nested opening action) cursor :=
  Ensures.nested (fun _ _ => ⟨.refl cursor, seen⟩) inside

theorem many {item : Reading (Option α)}
    (each : ∀ after, cursor.Reaches after → Reports item after) : Reports (many item) cursor := by
  suffices ∀ bound after, cursor.Reaches after → Reports (repeatUpTo item bound) after from
    .get_bind (this cursor.remaining cursor (.refl cursor))
  intro bound
  induction bound with
  | zero => exact fun _ _ => .pure []
  | succ bound ih =>
    intro after reaches
    refine (each after reaches).bind fun found middle onward => ?_
    cases found with
    | none => exact .pure []
    | some found => exact (ih middle (reaches.trans onward)).bind_pure

end Reports

end ShellLine.Cursor
