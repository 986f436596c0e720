import ShellLine.Proofs.Reading.Actions

/-! # What actions ensure

`Ensures` says of an action on one cursor what holds if it succeeds and what holds if it fails. The
lemmas below go through an action from its front to its end, so that a rule is gone through once for
both outcomes.
-/

namespace ShellLine.Cursor

/-- If the action succeeds, its result and the cursor after it meet `post`; if it fails, its fault
and the cursor after it meet `blame`. -/
def Ensures {α : Type} (action : Reading α) (cursor : Cursor) (post : α → Cursor → Prop)
    (blame : StructuralFault → Cursor → Prop) : Prop :=
  match action.run cursor with
  | .ok result after => post result after
  | .error fault after => blame fault after

namespace Ensures

variable {α β : Type} {action : Reading α} {cursor : Cursor} {post : α → Cursor → Prop}
  {blame : StructuralFault → Cursor → Prop}

theorem of_ok (ensures : Ensures action cursor post blame) {result : α} {after : Cursor}
    (ran : action.run cursor = .ok result after) : post result after := by
  simpa [Ensures, ran] using ensures

theorem of_error (ensures : Ensures action cursor post blame) {fault : StructuralFault}
    {after : Cursor} (ran : action.run cursor = .error fault after) : blame fault after := by
  simpa [Ensures, ran] using ensures

theorem mono {weaker : α → Cursor → Prop} (ensures : Ensures action cursor post blame)
    (imp : ∀ result after, post result after → weaker result after) :
    Ensures action cursor weaker blame := by
  unfold Ensures
  split
  case h_1 ran => exact imp _ _ (ensures.of_ok ran)
  case h_2 ran => exact ensures.of_error ran

theorem pure {result : α} (met : post result cursor) : Ensures (Pure.pure result) cursor post blame :=
  met

theorem fail {fault : StructuralFault} (blamed : ∀ log, blame fault { cursor with log }) :
    Ensures (Cursor.fail fault) cursor post blame :=
  blamed _

theorem get_bind {continuation : Cursor → Reading α}
    (next : Ensures (continuation cursor) cursor post blame) :
    Ensures (get >>= continuation) cursor post blame :=
  next

theorem bind {continuation : α → Reading β} {last : β → Cursor → Prop}
    (first : Ensures action cursor post blame)
    (next : ∀ value middle, post value middle → Ensures (continuation value) middle last blame) :
    Ensures (action >>= continuation) cursor last blame := by
  unfold Ensures
  rw [EStateM.run_bind]
  cases ran : action.run cursor with
  | ok value middle => exact next value middle (first.of_ok ran)
  | error fault after => exact first.of_error ran

theorem consume {token : Token} {later : List Token} {last : Token → Cursor → Prop}
    (ahead : cursor.rest = token :: later) (met : last token (cursor.advance 1)) :
    Ensures consume cursor last blame := by
  unfold Ensures
  rw [consume_run_of_rest ahead]
  exact met

theorem nested {opening : Token}
    (deep : cursor.room = 0 → ∀ log, blame (.nestingTooDeep cursor.maxDepth opening)
      { cursor with log })
    (inside : Ensures action cursor.deeper (fun result after => post result after.higher)
      (fun fault after => blame fault after.higher)) :
    Ensures (nested opening action) cursor post blame := by
  unfold Ensures
  rw [nested_run_of_room]
  by_cases noRoom : cursor.room = 0
  · rw [if_pos noRoom]
    exact deep noRoom _
  · rw [if_neg noRoom]
    cases ran : action.run cursor.deeper with
    | ok result after => exact inside.of_ok ran
    | error fault after => exact inside.of_error ran

/-- What holds at first and after each run that yields something holds until the last run, after
which `last` holds. -/
theorem many {item : Reading (Option α)} {invariant : Cursor → Prop} {last : Cursor → Prop}
    (dwindles : Dwindles item)
    (each : ∀ cursor, invariant cursor → Ensures item cursor
      (fun found after => found.elim (last after) fun _ => invariant after) blame)
    (now : invariant cursor) :
    Ensures (many item) cursor (fun _ after => last after) blame := by
  suffices ∀ bound cursor, cursor.remaining ≤ bound → invariant cursor →
      Ensures (repeatUpTo item bound) cursor (fun _ after => last after) blame from
    .get_bind (this cursor.remaining cursor (Nat.le_refl _) now)
  intro bound
  induction bound with
  | zero =>
    intro cursor enough now
    have stopped := dwindles.exhausted cursor (Nat.le_zero.mp enough)
    exact .pure ((each cursor now).of_ok stopped)
  | succ bound ih =>
    intro cursor enough now
    unfold Ensures
    rw [repeatUpTo, EStateM.run_bind]
    cases ran : item.run cursor with
    | error fault after => exact (each cursor now).of_error ran
    | ok found after =>
      have met := (each cursor now).of_ok ran
      cases found with
      | none => exact met
      | some found =>
        have shorter := dwindles.progress cursor found after ran
        exact Ensures.bind (ih after (by omega) met) fun _ _ done => .pure done

end Ensures

end ShellLine.Cursor
