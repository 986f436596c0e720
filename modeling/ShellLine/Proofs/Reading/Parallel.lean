import Mathlib.Order.UpperLower.CompleteLattice
import ShellLine.Proofs.Reading.Ensures
import ShellLine.Proofs.Reading.Steady

/-! # Two readings side by side

A `View` compares a reading with one of other tokens, which are the same as far as the view reaches,
or under another limit on nesting. What the first reading comes to inside the view, the second one
comes to as well; only the limit may come in between. `Agrees` is that of an action and another one
at two cursors, and `Follows` at any two cursors that are abreast. The lemmas about it go through
two actions together.
-/

namespace ShellLine

/-- The fault with other tokens. -/
def StructuralFault.map (relabel : Token → Token) : StructuralFault → StructuralFault
  | .missingCommand => .missingCommand
  | .missingToken => .missingToken
  | .bareSigil opening => .bareSigil (relabel opening)
  | .invalidHead token => .invalidHead (relabel token)
  | .unmatchedParen token => .unmatchedParen (relabel token)
  | .missingParen opening => .missingParen (relabel opening)
  | .unterminatedQuote opening => .unterminatedQuote (relabel opening)
  | .missingFragment token => .missingFragment (relabel token)
  | .strayInQuote token => .strayInQuote (relabel token)
  | .invalidSubstitution token => .invalidSubstitution (relabel token)
  | .missingTarget operator => .missingTarget (relabel operator)
  | .unexpectedToken token => .unexpectedToken (relabel token)
  | .nestingTooDeep limit opening => .nestingTooDeep limit (relabel opening)

@[simp]
theorem StructuralFault.map_id (fault : StructuralFault) : fault.map id = fault := by
  cases fault <;> rfl

theorem Token.alike_refl (token : Token) : token.alike token :=
  alike_iff.mpr ⟨rfl, rfl, rfl, rfl⟩

namespace Cursor

/-- How the tokens and the limits of two readings compare. -/
structure View where
  /-- The token of the second reading in the place of one of the first reading. -/
  relabel : Token → Token
  first : Array Token
  second : Array Token
  low : Int
  high : Int
  /-- The positions at which the tokens are the same. -/
  sight : LowerSet Nat
  alike : ∀ token : Token, token.alike (relabel token)
  agree : ∀ pos ∈ sight, second[pos]? = first[pos]?.map relabel
  limits : low ≤ high

namespace View

variable (view : View)

@[simp]
theorem kind_relabel (token : Token) : (view.relabel token).kind = token.kind :=
  (Token.alike_iff.mp (view.alike token)).1.symm

@[simp]
theorem value_relabel (token : Token) : (view.relabel token).value = token.value :=
  (Token.alike_iff.mp (view.alike token)).2.1.symm

@[simp]
theorem joinedLeft_relabel (token : Token) : (view.relabel token).joinedLeft = token.joinedLeft :=
  (Token.alike_iff.mp (view.alike token)).2.2.1.symm

@[simp]
theorem joinedRight_relabel (token : Token) :
    (view.relabel token).joinedRight = token.joinedRight :=
  (Token.alike_iff.mp (view.alike token)).2.2.2.symm

@[simp]
theorem isSymbol_relabel (token : Token) (values : List String) :
    (view.relabel token).isSymbol values = token.isSymbol values := by
  simp [Token.isSymbol]

@[simp]
theorem isMark_relabel (token : Token) (mark : Char) :
    (view.relabel token).isMark mark = token.isMark mark := by
  simp [Token.isMark]

@[simp]
theorem isWord_relabel (token : Token) : (view.relabel token).isWord = token.isWord := by
  simp [Token.isWord]

theorem atSymbol_eq {a b : Cursor} (same : b.current = a.current.map view.relabel)
    (values : List String) : b.atSymbol values = a.atSymbol values := by
  rw [Cursor.atSymbol, Cursor.atSymbol, same]
  cases a.current <;> simp

theorem atMark_eq {a b : Cursor} (same : b.current = a.current.map view.relabel) (mark : Char) :
    b.atMark mark = a.atMark mark := by
  rw [Cursor.atMark, Cursor.atMark, same]
  cases a.current <;> simp

/-- The two readings have come to the same place inside the view, not before `start`. -/
structure Abreast (start : Nat) (a b : Cursor) : Prop where
  first : a.tokens = view.first
  second : b.tokens = view.second
  low : a.maxDepth = view.low
  high : b.maxDepth = view.high
  pos : b.pos = a.pos
  depth : b.depth = a.depth
  seen : a.pos ∈ view.sight
  started : start ≤ a.pos

/-- If the first run ends inside the view, the second one comes to the same, unless the first one
fails at a limit that is lower. -/
def Meets {α : Type} (start : Nat) (run run' : EStateM.Result StructuralFault Cursor α) : Prop :=
  match run with
  | .ok result after => after.pos ∈ view.sight →
    ∃ after', run' = .ok result after' ∧ view.Abreast start after after'
  | .error fault after => after.pos ∈ view.sight →
    (fault.kind = .nestingTooDeep ∧ view.low < view.high) ∨
      ∃ after', run' = .error (fault.map view.relabel) after' ∧ view.Abreast start after after'

/-- The runs of two actions meet. -/
def Agrees {α : Type} (start : Nat) (action action' : Reading α) (a b : Cursor) : Prop :=
  view.Meets start (action.run a) (action'.run b)

end View

namespace View.Abreast

variable {view : View} {start : Nat} {a b : Cursor}

/-- The token so many places ahead is the same if it is inside the view. -/
theorem peek (abreast : view.Abreast start a b) {offset : Nat} (seen : a.pos + offset ∈ view.sight) :
    b.peek offset = (a.peek offset).map view.relabel := by
  rw [Cursor.peek, Cursor.peek, abreast.first, abreast.second, abreast.pos]
  exact view.agree _ seen

theorem current (abreast : view.Abreast start a b) : b.current = a.current.map view.relabel :=
  abreast.peek abreast.seen

theorem later {begin : Nat} (abreast : view.Abreast start a b) (before : begin ≤ start) :
    view.Abreast begin a b :=
  { abreast with started := before.trans abreast.started }

theorem advance (abreast : view.Abreast start a b) (seen : a.pos + 1 ∈ view.sight) :
    view.Abreast (start + 1) (a.advance 1) (b.advance 1) :=
  { abreast with
    pos := congrArg (· + 1) abreast.pos
    seen := seen
    started := Nat.succ_le_succ abreast.started }

theorem deeper (abreast : view.Abreast start a b) : view.Abreast start a.deeper b.deeper :=
  { abreast with depth := congrArg (· + 1) abreast.depth }

theorem higher (abreast : view.Abreast start a b) : view.Abreast start a.higher b.higher :=
  { abreast with depth := congrArg (· - 1) abreast.depth }

theorem blamed (abreast : view.Abreast start a b) (fault fault' : StructuralFault) :
    view.Abreast start (a.blamed fault) (b.blamed fault') :=
  { abreast with }

end View.Abreast

/-! ## Actions that do not go back -/

/-- Whatever the action comes to, it reads a token. -/
def Leaves {α : Type} (action : Reading α) (cursor : Cursor) : Prop :=
  Ensures action cursor (fun _ after => cursor.pos < after.pos) fun _ after => cursor.pos < after.pos

/-- Whatever the action comes to, it does not go back. -/
def Onward {α : Type} (action : Reading α) : Prop :=
  ∀ ⦃bound : Nat⦄ ⦃cursor : Cursor⦄, bound ≤ cursor.pos →
    Ensures action cursor (fun _ after => bound ≤ after.pos) fun _ after => bound ≤ after.pos

theorem Steady.onward {α : Type} {action : Reading α} (steady : Steady action) : Onward action := by
  intro bound cursor before
  unfold Ensures
  split
  case h_1 ran =>
    obtain ⟨count, _, rfl⟩ := steady.of_ok ran
    exact before.trans (Nat.le_add_right _ _)
  case h_2 ran =>
    obtain ⟨count, _, rfl⟩ := steady.of_error ran
    exact before.trans (Nat.le_add_right _ _)

/-- An action with something to read that begins by reading it. -/
theorem Leaves.consume_bind {α : Type} {continuation : Token → Reading α} {cursor : Cursor}
    {token : Token} (current : cursor.current = some token)
    (next : ∀ token, Steady (continuation token)) : Leaves (consume >>= continuation) cursor := by
  obtain ⟨later, ahead⟩ := List.head?_eq_some_iff.mp (cursor.current_eq_head?.symm.trans current)
  have read : Leaves consume cursor := .consume ahead (Nat.lt_succ_self cursor.pos)
  exact read.bind fun token middle after => (next token).onward after

theorem Leaves.get_bind {α : Type} {continuation : Cursor → Reading α} {cursor : Cursor}
    (next : Leaves (continuation cursor) cursor) : Leaves (get >>= continuation) cursor :=
  next

theorem Leaves.bind {α β : Type} {action : Reading α} {continuation : α → Reading β}
    {cursor : Cursor} (first : Leaves action cursor) (next : ∀ value, Steady (continuation value)) :
    Leaves (action >>= continuation) cursor :=
  Ensures.bind first fun value _ after => (next value).onward after

/-! ## Actions of two readings -/

/-- What ends outside the view meets anything. -/
theorem View.Meets.of_ensures {α : Type} {view : View} {start bound : Nat} {action : Reading α}
    {cursor : Cursor} {run' : EStateM.Result StructuralFault Cursor α}
    (onward : Ensures action cursor (fun _ after => bound ≤ after.pos) fun _ after =>
      bound ≤ after.pos) (unseen : bound ∉ view.sight) :
    view.Meets start (action.run cursor) run' := by
  unfold Meets
  split
  case h_1 ran => exact fun seen => absurd (view.sight.lower (onward.of_ok ran) seen) unseen
  case h_2 ran => exact fun seen => absurd (view.sight.lower (onward.of_error ran) seen) unseen

namespace View.Agrees

variable {α β : Type} {view : View} {start : Nat} {a b : Cursor} {action action' : Reading α}

/-- What reads the last token inside the view agrees with anything. -/
theorem of_leaves (leaves : Leaves action a) (last : a.pos + 1 ∉ view.sight) :
    view.Agrees start action action' a b :=
  .of_ensures leaves last

theorem earlier {begin : Nat} (agrees : view.Agrees start action action' a b)
    (before : begin ≤ start) : view.Agrees begin action action' a b := by
  unfold Agrees Meets at agrees ⊢
  split at agrees
  case h_1 =>
    intro seen
    obtain ⟨after', ran', abreast⟩ := agrees seen
    exact ⟨after', ran', abreast.later before⟩
  case h_2 =>
    intro seen
    refine (agrees seen).imp_right ?_
    rintro ⟨after', ran', abreast⟩
    exact ⟨after', ran', abreast.later before⟩

theorem pure (abreast : view.Abreast start a b) (result : α) :
    view.Agrees start (Pure.pure result) (Pure.pure result) a b :=
  fun _ => ⟨b, rfl, abreast⟩

theorem fail (abreast : view.Abreast start a b) {fault fault' : StructuralFault}
    (same : fault.map view.relabel = fault') :
    view.Agrees start (Cursor.fail fault : Reading α) (Cursor.fail fault') a b := by
  subst same
  exact fun _ => .inr ⟨b.blamed _, rfl, abreast.blamed fault _⟩

theorem get_bind {continuation continuation' : Cursor → Reading α}
    (next : view.Agrees start (continuation a) (continuation' b) a b) :
    view.Agrees start (get >>= continuation) (get >>= continuation') a b :=
  next

theorem ite {condition condition' : Prop} [Decidable condition] [Decidable condition']
    {other other' : Reading α} (same : condition' ↔ condition)
    (positive : condition → view.Agrees start action action' a b)
    (negative : ¬ condition → view.Agrees start other other' a b) :
    view.Agrees start (if condition then action else other)
      (if condition' then action' else other') a b := by
  by_cases met : condition
  · rw [if_pos met, if_pos (same.mpr met)]
    exact positive met
  · rw [if_neg met, if_neg (mt same.mp met)]
    exact negative met

theorem bind {continuation continuation' : α → Reading β}
    (first : view.Agrees start action action' a b) (onward : ∀ value, Onward (continuation value))
    (next : ∀ value middle middle', action.run a = .ok value middle →
      view.Abreast start middle middle' →
      view.Agrees start (continuation value) (continuation' value) middle middle') :
    view.Agrees start (action >>= continuation) (action' >>= continuation') a b := by
  unfold Agrees at first ⊢
  rw [EStateM.run_bind, EStateM.run_bind]
  cases ran : action.run a with
  | error fault after =>
    rw [ran] at first
    intro seen
    refine (first seen).imp_right ?_
    rintro ⟨after', ran', abreast⟩
    exact ⟨after', by rw [ran'], abreast⟩
  | ok value middle =>
    rw [ran] at first
    by_cases seen : middle.pos ∈ view.sight
    · obtain ⟨middle', ran', abreast⟩ := first seen
      rw [ran']
      exact next value middle middle' ran abreast
    · exact .of_ensures (onward value (Nat.le_refl _)) seen

/-- Reading a token on both sides, where the token is there to be read or both fail. -/
theorem consume_bind {continuation continuation' : Token → Reading α}
    (abreast : view.Abreast start a b) (steady : ∀ token, Steady (continuation token))
    (next : ∀ token, a.current = some token →
      view.Abreast (start + 1) (a.advance 1) (b.advance 1) →
      view.Agrees start (continuation token) (continuation' (view.relabel token))
        (a.advance 1) (b.advance 1)) :
    view.Agrees start (consume >>= continuation) (consume >>= continuation') a b := by
  have same := abreast.current
  rw [current_eq_head?, current_eq_head?] at same
  unfold Agrees
  cases ahead : a.rest with
  | nil =>
    rw [ahead] at same
    have ahead' : b.rest = [] := List.head?_eq_none_iff.mp same
    rw [EStateM.run_bind, EStateM.run_bind, consume_run, consume_run, ahead, ahead']
    exact Agrees.fail abreast rfl
  | cons token later =>
    rw [ahead] at same
    obtain ⟨later', ahead'⟩ := List.head?_eq_some_iff.mp same
    rw [EStateM.run_bind, EStateM.run_bind, consume_run_of_rest ahead, consume_run_of_rest ahead']
    by_cases seen : a.pos + 1 ∈ view.sight
    · exact next token (current_of_rest ahead) (abreast.advance seen)
    · exact .of_ensures ((steady token).onward (Nat.le_refl _)) seen

theorem nested {opening : Token} (abreast : view.Abreast start a b)
    (inside : view.Agrees start action action' a.deeper b.deeper) :
    view.Agrees start (nested opening action) (nested (view.relabel opening) action') a b := by
  have limits := view.limits
  have low := abreast.low
  have high := abreast.high
  have depth := abreast.depth
  unfold Agrees at inside ⊢
  rw [nested_run, nested_run]
  by_cases deep : a.maxDepth < a.depth + 1
  · rw [if_pos deep]
    intro seen
    by_cases lower : view.low < view.high
    · exact .inl ⟨rfl, lower⟩
    · have same : b.maxDepth = a.maxDepth := by omega
      rw [if_pos (by omega), same]
      exact .inr ⟨_, rfl, abreast.blamed _ _⟩
  · rw [if_neg deep, if_neg (by omega)]
    change view.Meets start (action.run { a with depth := a.depth + 1 })
      (action'.run { b with depth := b.depth + 1 }) at inside
    cases ran : action.run { a with depth := a.depth + 1 } with
    | ok result after =>
      rw [ran] at inside
      intro seen
      obtain ⟨after', ran', abreast⟩ := inside seen
      rw [ran']
      exact ⟨after'.higher, rfl, abreast.higher⟩
    | error fault after =>
      rw [ran] at inside
      intro seen
      refine (inside seen).imp_right ?_
      rintro ⟨after', ran', abreast⟩
      rw [ran']
      exact ⟨after'.higher, rfl, abreast.higher⟩

/-- Repeated actions agree, with what comes after them, if each of them agrees. At the last token
inside the view it is enough that the token is read. -/
theorem many_bind {item item' : Reading (Option α)} {continuation continuation' : List α → Reading β}
    (dwindles : Dwindles item) (dwindles' : Dwindles item')
    (steady : ∀ results, Steady (continuation results))
    (steadyItem : Steady item)
    (each : ∀ a b, view.Abreast start a b → view.Agrees start item item' a b ∨
      a.pos + 1 ∉ view.sight ∧
        (Leaves item a ∨ item.run a = .ok none a ∧ ∀ results, Leaves (continuation results) a))
    (next : ∀ results a b, view.Abreast start a b →
      view.Agrees start (continuation results) (continuation' results) a b)
    (abreast : view.Abreast start a b) :
    view.Agrees start (many item >>= continuation) (many item' >>= continuation') a b := by
  induction left : a.remaining using Nat.strongRecOn generalizing a b continuation continuation' with
  | _ bound ih =>
  have steadyRest : ∀ found, Steady (match found with
      | none => continuation []
      | some found => many item >>= fun rest => continuation (found :: rest)) := by
    intro found
    cases found with
    | none => exact steady []
    | some found => exact .bind (.many steadyItem) fun rest => steady (found :: rest)
  unfold Agrees
  rw [many_bind_run dwindles, many_bind_run dwindles']
  obtain agrees | ⟨last, leaves⟩ := each a b abreast
  · refine Agrees.bind agrees (fun found => (steadyRest found).onward) ?_
    intro found middle middle' ran abreast
    cases found with
    | none => exact next [] middle middle' abreast
    | some found =>
      have shorter := dwindles.progress _ _ _ ran
      refine ih middle.remaining (by omega) (fun rest => steady (found :: rest)) ?_
        (fun rest => next (found :: rest)) abreast rfl
      intro a b abreast
      refine (each a b abreast).imp_right fun ⟨last, leaves⟩ => ⟨last, leaves.imp_right ?_⟩
      exact fun ⟨stopped, leaves⟩ => ⟨stopped, fun rest => leaves (found :: rest)⟩
  · refine Agrees.of_leaves ?_ last
    obtain leaves | ⟨stopped, leaves⟩ := leaves
    · exact leaves.bind steadyRest
    · unfold Leaves Ensures
      rw [EStateM.run_bind, stopped]
      exact leaves []

end View.Agrees

/-- The first action is steady, and the second one agrees with it wherever they start abreast. -/
structure View.Follows (view : View) {α : Type} (start : Nat) (action action' : Reading α) :
    Prop where
  steady : Steady action
  agrees : ∀ a b, view.Abreast start a b → view.Agrees start action action' a b

namespace View.Follows

variable {α β : Type} {view : View} {start : Nat} {action action' : Reading α}

theorem pure (result : α) : view.Follows start (Pure.pure result) (Pure.pure result) :=
  ⟨.pure result, fun _ _ abreast => .pure abreast result⟩

theorem fail {fault fault' : StructuralFault} (same : fault.map view.relabel = fault') :
    view.Follows start (Cursor.fail fault : Reading α) (Cursor.fail fault') :=
  ⟨.fail fault, fun _ _ abreast => .fail abreast same⟩

/-- Actions that depend on the next token. -/
theorem get_bind {continuation continuation' : Cursor → Reading α}
    (next : ∀ a b : Cursor, b.current = a.current.map view.relabel →
      view.Follows start (continuation a) (continuation' b)) :
    view.Follows start (get >>= continuation) (get >>= continuation') where
  steady := .get_bind fun cursor =>
    (next cursor { cursor with tokens := cursor.tokens.map view.relabel }
      (by simp [Cursor.current, Cursor.peek])).steady
  agrees a b abreast := .get_bind ((next a b abreast.current).agrees a b abreast)

theorem ite {condition condition' : Prop} [Decidable condition] [Decidable condition']
    {other other' : Reading α} (same : condition' ↔ condition)
    (positive : view.Follows start action action') (negative : view.Follows start other other') :
    view.Follows start (if condition then action else other)
      (if condition' then action' else other') :=
  ⟨.ite _ positive.steady negative.steady, fun a b abreast =>
    .ite same (fun _ => positive.agrees a b abreast) fun _ => negative.agrees a b abreast⟩

theorem bind {continuation continuation' : α → Reading β} (first : view.Follows start action action')
    (next : ∀ value, view.Follows start (continuation value) (continuation' value)) :
    view.Follows start (action >>= continuation) (action' >>= continuation') where
  steady := .bind first.steady fun value => (next value).steady
  agrees a b abreast := .bind (first.agrees a b abreast) (fun value => (next value).steady.onward)
    fun value _ _ _ abreast => (next value).agrees _ _ abreast

/-- What comes after a token starts one token later. -/
theorem consume_bind_later {continuation continuation' : Token → Reading α}
    (next : ∀ token, view.Follows (start + 1) (continuation token)
      (continuation' (view.relabel token))) :
    view.Follows start (consume >>= continuation) (consume >>= continuation') where
  steady := .bind .consume fun token => (next token).steady
  agrees _ _ abreast := .consume_bind abreast (fun token => (next token).steady)
    fun token _ abreast => ((next token).agrees _ _ abreast).earlier (Nat.le_succ start)

theorem consume_bind {continuation continuation' : Token → Reading α}
    (next : ∀ token, view.Follows start (continuation token)
      (continuation' (view.relabel token))) :
    view.Follows start (consume >>= continuation) (consume >>= continuation') where
  steady := .bind .consume fun token => (next token).steady
  agrees _ _ abreast := .consume_bind abreast (fun token => (next token).steady)
    fun token _ abreast => (next token).agrees _ _ (abreast.later (Nat.le_succ start))

theorem nested {opening : Token} (inside : view.Follows start action action') :
    view.Follows start (nested opening action) (nested (view.relabel opening) action') :=
  ⟨.nested opening inside.steady, fun _ _ abreast =>
    .nested abreast (inside.agrees _ _ abreast.deeper)⟩

theorem many_bind {item item' : Reading (Option α)} {continuation continuation' : List α → Reading β}
    (dwindles : Dwindles item) (dwindles' : Dwindles item') (each : view.Follows start item item')
    (next : ∀ results, view.Follows start (continuation results) (continuation' results)) :
    view.Follows start (many item >>= continuation) (many item' >>= continuation') where
  steady := .bind (.many each.steady) fun results => (next results).steady
  agrees _ _ abreast := .many_bind dwindles dwindles' (fun results => (next results).steady)
    each.steady (fun a b abreast => .inl (each.agrees a b abreast))
    (fun results => (next results).agrees) abreast

end View.Follows

end Cursor

end ShellLine
