import ShellLine.Proofs.Reading.Steady

/-! # Actions that are the same where few tokens are ahead

`SameBelow` says of a steady action and another one that they come to the same at every cursor with
fewer than so many tokens ahead. Reading a token raises the bound: what comes after the token has
one token fewer ahead, and only there it has to be the same. So a reader that calls itself after a
token is the same further on than the one it calls. `SameBehind` adds that the action gets on.
-/

namespace ShellLine.Cursor

/-- The first action is steady, and the second one comes to the same wherever fewer than so many
tokens are ahead. -/
structure SameBelow {α : Type} (bound : Nat) (action action' : Reading α) : Prop where
  steady : Steady action
  same : ∀ cursor : Cursor, cursor.remaining < bound → action'.run cursor = action.run cursor

namespace SameBelow

variable {α β : Type} {bound : Nat} {action action' : Reading α}

/-- There is no cursor with fewer than no tokens ahead. -/
theorem zero (steady : Steady action) (action' : Reading α) : SameBelow 0 action action' :=
  ⟨steady, fun _ fewer => absurd fewer (Nat.not_lt_zero _)⟩

theorem of_steady (steady : Steady action) : SameBelow bound action action :=
  ⟨steady, fun _ _ => rfl⟩

theorem pure (result : α) : SameBelow bound (Pure.pure result) (Pure.pure result) :=
  .of_steady (.pure result)

theorem fail (fault : StructuralFault) :
    SameBelow bound (Cursor.fail fault : Reading α) (Cursor.fail fault) :=
  .of_steady (.fail fault)

theorem get_bind {continuation continuation' : Cursor → Reading α}
    (next : ∀ seen, SameBelow bound (continuation seen) (continuation' seen)) :
    SameBelow bound (get >>= continuation) (get >>= continuation') :=
  ⟨.get_bind fun seen => (next seen).steady, fun cursor => (next cursor).same cursor⟩

theorem ite (condition : Prop) [Decidable condition] {other other' : Reading α}
    (positive : SameBelow bound action action') (negative : SameBelow bound other other') :
    SameBelow bound (if condition then action else other)
      (if condition then action' else other') := by
  split
  case isTrue => exact positive
  case isFalse => exact negative

/-- A steady action does not go back, so that no more tokens are ahead of what comes after it. -/
theorem bind {continuation continuation' : α → Reading β} (first : SameBelow bound action action')
    (next : ∀ value, SameBelow bound (continuation value) (continuation' value)) :
    SameBelow bound (action >>= continuation) (action' >>= continuation') where
  steady := .bind first.steady fun value => (next value).steady
  same cursor fewer := by
    rw [EStateM.run_bind, EStateM.run_bind, first.same cursor fewer]
    cases ran : action.run cursor with
    | error fault after => rfl
    | ok value middle =>
      obtain ⟨count, _, rfl⟩ := first.steady.of_ok ran
      have stillFewer : (cursor.advance count).remaining < bound := by
        rw [remaining_advance]
        omega
      exact (next value).same _ stillFewer

/-- What is only made something of has to be the same itself. -/
theorem bind_pure {pack : α → β} (first : SameBelow bound action action') :
    SameBelow bound (action >>= fun value => Pure.pure (pack value))
      (action' >>= fun value => Pure.pure (pack value)) :=
  first.bind fun _ => .pure _

theorem consume_bind {continuation continuation' : Token → Reading α}
    (next : ∀ token, SameBelow bound (continuation token) (continuation' token)) :
    SameBelow bound (consume >>= continuation) (consume >>= continuation') :=
  .bind (.of_steady .consume) next

theorem nested (opening : Token) (inside : SameBelow bound action action') :
    SameBelow bound (nested opening action) (nested opening action') where
  steady := .nested opening inside.steady
  same cursor fewer := by
    have same : action'.run cursor.deeper = action.run cursor.deeper :=
      inside.same cursor.deeper fewer
    rw [nested_run_of_room, nested_run_of_room, same]

/-- Repeated actions are the same if each run is: both are run at most as often. -/
theorem many {item item' : Reading (Option α)} (each : SameBelow bound item item') :
    SameBelow bound (many item) (many item') := by
  suffices ∀ runs, SameBelow bound (repeatUpTo item runs) (repeatUpTo item' runs) from
    .get_bind fun seen => this seen.remaining
  intro runs
  induction runs with
  | zero => exact .pure []
  | succ runs ih =>
    refine each.bind fun found => ?_
    cases found with
    | none => exact .pure []
    | some found => exact ih.bind_pure

end SameBelow

/-- The actions are the same where fewer than so many tokens are ahead, and the first one has read a
token when it succeeds. -/
structure SameBehind {α : Type} (bound : Nat) (action action' : Reading α) : Prop
    extends SameBelow bound action action' where
  pos_lt : ∀ ⦃cursor result after⦄, action.run cursor = .ok result after → cursor.pos < after.pos

namespace SameBehind

variable {α : Type} {bound : Nat} {continuation continuation' : Token → Reading α}
  (next : ∀ token, SameBelow bound (continuation token) (continuation' token))
include next

theorem consume_bind :
    SameBehind bound (consume >>= continuation) (consume >>= continuation') where
  toSameBelow := .consume_bind next
  pos_lt cursor result after ran := by
    obtain ⟨token, middle, first, ran⟩ := bind_run_eq_ok.mp ran
    have before := (took_of_consume first).2.pos_lt (List.cons_ne_nil token [])
    obtain ⟨count, _, rfl⟩ := (next token).steady.of_ok ran
    exact Nat.lt_of_lt_of_le before (Nat.le_add_right _ _)

/-- What comes after a token has a token fewer ahead. -/
theorem consume_bind_later :
    SameBehind (bound + 1) (consume >>= continuation) (consume >>= continuation') where
  steady := .bind .consume fun token => (next token).steady
  same cursor fewer := by
    rw [EStateM.run_bind, EStateM.run_bind, consume_run]
    cases ahead : cursor.rest with
    | nil => rfl
    | cons token later =>
      have some : cursor.remaining ≠ 0 := by simp [remaining_eq_length, ahead]
      have stillFewer : (cursor.advance 1).remaining < bound := by
        rw [remaining_advance]
        omega
      exact (next token).same (cursor.advance 1) stillFewer
  pos_lt := (SameBehind.consume_bind next).pos_lt

end SameBehind

end ShellLine.Cursor
