import ShellLine.Tree.Cursor

/-! # What successful actions come to

A successful action leaves everything in the cursor but its place as it is, so that `advance` says
all about the cursor after it. `consume_run_eq_ok`, `nested_run_eq_ok` and `many_run_eq_ok` say when
the three ways of moving on succeed; `room` is what the nesting limit still allows.
-/

namespace ShellLine.Cursor

/-- The cursor so many tokens further on. -/
def advance (cursor : Cursor) (count : Nat) : Cursor :=
  { cursor with pos := cursor.pos + count }

/-- How many substitutions and quotes may still be opened inside each other. -/
def room (cursor : Cursor) : Nat :=
  (cursor.maxDepth - cursor.depth).toNat

/-- The cursor one level of nesting further down. -/
def deeper (cursor : Cursor) : Cursor :=
  { cursor with depth := cursor.depth + 1 }

/-- The cursor one level of nesting further up. -/
def higher (cursor : Cursor) : Cursor :=
  { cursor with depth := cursor.depth - 1 }

/-- The tokens already read. -/
def taken (cursor : Cursor) : List Token :=
  cursor.tokens.toList.take cursor.pos

theorem taken_append_rest (cursor : Cursor) : cursor.taken ++ cursor.rest = cursor.tokens.toList :=
  List.take_append_drop ..

@[simp]
theorem advance_advance (cursor : Cursor) (first second : Nat) :
    (cursor.advance first).advance second = cursor.advance (first + second) := by
  simp [advance, Nat.add_assoc]

@[simp]
theorem rest_advance (cursor : Cursor) (count : Nat) :
    (cursor.advance count).rest = cursor.rest.drop count := by
  simp [advance, rest, Nat.add_comm]

@[simp]
theorem room_advance (cursor : Cursor) (count : Nat) : (cursor.advance count).room = cursor.room :=
  rfl

@[simp]
theorem room_deeper (cursor : Cursor) : cursor.deeper.room = cursor.room - 1 := by
  simp only [deeper, room]
  omega

@[simp]
theorem higher_advance_deeper (cursor : Cursor) (count : Nat) :
    (cursor.deeper.advance count).higher = cursor.advance count := by
  simp [higher, deeper, advance]

theorem current_of_rest {cursor : Cursor} {token : Token} {later : List Token}
    (ahead : cursor.rest = token :: later) : cursor.current = some token := by
  rw [current_eq_head?, ahead, List.head?_cons]

theorem current_of_exhausted {cursor : Cursor} (empty : cursor.remaining = 0) :
    cursor.current = none := by
  rw [remaining_eq_length, List.length_eq_zero_iff] at empty
  rw [current_eq_head?, empty, List.head?_nil]

/-- Going from a cursor to another one takes the given tokens off the tokens ahead. -/
def Took (cursor : Cursor) (used : List Token) (after : Cursor) : Prop :=
  cursor.rest = used ++ after.rest ∧ after = cursor.advance used.length

namespace Took

variable {cursor middle after : Cursor} {used first second : List Token}

theorem refl (cursor : Cursor) : cursor.Took [] cursor :=
  ⟨rfl, rfl⟩

theorem trans (left : cursor.Took first middle) (right : middle.Took second after) :
    cursor.Took (first ++ second) after := by
  obtain ⟨ahead, rfl⟩ := left
  obtain ⟨later, rfl⟩ := right
  exact ⟨by rw [ahead, later, List.append_assoc], by simp⟩

theorem rest_eq {later : List Token} (took : cursor.Took used after)
    (ahead : cursor.rest = used ++ later) : after.rest = later :=
  List.append_cancel_left (took.1.symm.trans ahead)

theorem length_le (took : cursor.Took used after) : after.rest.length ≤ cursor.rest.length := by
  rw [took.1, List.length_append]
  omega

theorem room_eq (took : cursor.Took used after) : after.room = cursor.room := by
  rw [took.2, room_advance]

/-- The token after those that were taken. -/
theorem current_eq (_ : cursor.Took first middle) (right : middle.Took second after) :
    middle.current = second.head?.or after.current := by
  rw [current_eq_head?, current_eq_head?, right.1, List.head?_append]

theorem higher (took : cursor.deeper.Took used after) : cursor.Took used after.higher := by
  obtain ⟨ahead, rfl⟩ := took
  exact ⟨ahead, higher_advance_deeper ..⟩

/-- What was taken comes after what had been read. -/
theorem taken_eq (took : cursor.Took used after) : after.taken = cursor.taken ++ used := by
  obtain ⟨ahead, rfl⟩ := took
  rw [taken, advance, List.take_add, ← rest, ahead, List.take_left, taken]

theorem pos_lt (took : cursor.Took used after) (some : used ≠ []) : cursor.pos < after.pos := by
  rw [took.2]
  exact Nat.lt_add_of_pos_right (List.length_pos_iff.mpr some)

theorem remaining_lt (took : cursor.Took used after) (some : used ≠ []) :
    after.remaining < cursor.remaining := by
  have positive := List.length_pos_iff.mpr some
  rw [remaining_eq_length, remaining_eq_length, took.1, List.length_append]
  omega

end Took

/-! ## Single actions -/

theorem fail_run_ne_ok {α : Type} {fault : StructuralFault} {cursor after : Cursor} {result : α} :
    (fail fault : Reading α).run cursor ≠ .ok result after := by
  simp [fail_run]

/-- Actions in a row succeed if each of them does. -/
theorem bind_run_eq_ok {α β : Type} {action : Reading α} {continuation : α → Reading β}
    {cursor after : Cursor} {result : β} :
    (action >>= continuation).run cursor = .ok result after ↔
      ∃ value middle, action.run cursor = .ok value middle ∧
        (continuation value).run middle = .ok result after := by
  rw [EStateM.run_bind]
  cases action.run cursor <;> simp [and_assoc]

/-- What follows an action matters only after runs of it that succeed. -/
theorem bind_run_congr {α β : Type} {action : Reading α} {first second : α → Reading β}
    {cursor : Cursor} (same : ∀ value middle, action.run cursor = .ok value middle →
      (first value).run middle = (second value).run middle) :
    (action >>= first).run cursor = (action >>= second).run cursor := by
  rw [EStateM.run_bind, EStateM.run_bind]
  cases ran : action.run cursor with
  | ok value middle => exact same value middle ran
  | error fault after => rfl

/-- What ends with something does not yield nothing. -/
theorem bind_some_run_ne_none {α β : Type} {action : Reading α} {pack : α → β}
    {cursor after : Cursor} :
    (action >>= fun value => pure (some (pack value))).run cursor ≠ .ok none after := by
  intro ran
  obtain ⟨_, _, _, done⟩ := bind_run_eq_ok.mp ran
  cases done

@[simp]
theorem get_bind_run {α : Type} (continuation : Cursor → Reading α) (cursor : Cursor) :
    ((get : Reading Cursor) >>= continuation).run cursor = (continuation cursor).run cursor :=
  rfl

/-- Reading a token succeeds if there is one. -/
theorem consume_run_eq_ok {cursor after : Cursor} {token : Token} :
    consume.run cursor = .ok token after ↔
      cursor.rest.head? = some token ∧ after = cursor.advance 1 := by
  rw [consume_run]
  cases cursor.rest with
  | nil => simp [fail_run]
  | cons first later =>
    simp only [EStateM.Result.ok.injEq, List.head?_cons, Option.some.injEq, advance]
    exact and_congr Iff.rfl eq_comm

/-- Reading a token takes it off the tokens ahead. -/
theorem took_of_consume {cursor after : Cursor} {token : Token}
    (ran : consume.run cursor = .ok token after) :
    cursor.current = some token ∧ cursor.Took [token] after := by
  obtain ⟨first, rfl⟩ := consume_run_eq_ok.mp ran
  obtain ⟨later, ahead⟩ := List.head?_eq_some_iff.mp first
  exact ⟨by rw [current_eq_head?, first], by simp [ahead], rfl⟩

/-- The token that is read is the one that was looked at. -/
theorem eq_of_consume {cursor after : Cursor} {token seen : Token}
    (current : cursor.current = some seen) (ran : consume.run cursor = .ok token after) :
    token = seen ∧ cursor.Took [seen] after := by
  obtain ⟨same, took⟩ := took_of_consume ran
  obtain rfl := Option.some.inj (same.symm.trans current)
  exact ⟨rfl, took⟩

/-- Reading a token that is there. -/
theorem consume_run_of_rest {cursor : Cursor} {token : Token} {later : List Token}
    (ahead : cursor.rest = token :: later) : consume.run cursor = .ok token (cursor.advance 1) := by
  simp [consume_run_eq_ok, ahead]

/-- A nested action runs one level further down if there is room for it. -/
theorem nested_run_of_room {α : Type} (opening : Token) (body : Reading α) (cursor : Cursor) :
    (nested opening body).run cursor =
      if cursor.room = 0 then
        (fail (.nestingTooDeep cursor.maxDepth opening) : Reading α).run cursor
      else
        match body.run cursor.deeper with
        | .ok result after => .ok result after.higher
        | .error fault after => .error fault after.higher := by
  have limit : cursor.room = 0 ↔ cursor.maxDepth < cursor.depth + 1 := by
    simp only [room]
    omega
  rw [nested_run]
  simp only [limit]
  rfl

/-- A nested action succeeds if there is room for it and it succeeds one level further down. -/
theorem nested_run_eq_ok {α : Type} {opening : Token} {body : Reading α} {cursor after : Cursor}
    {result : α} :
    (nested opening body).run cursor = .ok result after ↔
      0 < cursor.room ∧ ∃ inner, body.run cursor.deeper = .ok result inner ∧
        after = inner.higher := by
  rw [nested_run]
  have limit : 0 < cursor.room ↔ ¬ cursor.maxDepth < cursor.depth + 1 := by
    simp only [room]
    omega
  by_cases deep : cursor.maxDepth < cursor.depth + 1
  · simp [deep, limit, fail_run]
  · simp only [deep, ↓reduceIte, limit, not_false_eq_true, true_and, deeper, higher]
    cases body.run { cursor with depth := cursor.depth + 1 } with
    | ok value inner => grind
    | error fault inner => simp

/-! ## Actions that read given tokens -/

/-- The action succeeds with the given result and takes just the given tokens. -/
def Reads {α : Type} (action : Reading α) (cursor : Cursor) (used : List Token) (result : α) :
    Prop :=
  ∃ after, action.run cursor = .ok result after ∧ cursor.Took used after

namespace Reads

variable {α β : Type} {cursor : Cursor} {used first second later : List Token}

theorem pure (result : α) : Reads (Pure.pure result) cursor [] result :=
  ⟨cursor, rfl, .refl cursor⟩

theorem consume {token : Token} (ahead : cursor.rest = token :: later) :
    Reads consume cursor [token] token :=
  ⟨cursor.advance 1, consume_run_of_rest ahead, by simp [ahead], rfl⟩

theorem get_bind {continuation : Cursor → Reading α} {result : α}
    (next : Reads (continuation cursor) cursor used result) :
    Reads (get >>= continuation) cursor used result :=
  next

theorem bind {action : Reading α} {continuation : α → Reading β} {value : α} {result : β}
    (split : used = first ++ second) (ahead : cursor.rest = used ++ later)
    (now : Reads action cursor first value)
    (next : ∀ middle, cursor.Took first middle → middle.rest = second ++ later →
      Reads (continuation value) middle second result) :
    Reads (action >>= continuation) cursor used result := by
  obtain ⟨middle, ran, took⟩ := now
  have aheadMiddle := took.rest_eq (by rw [ahead, split, List.append_assoc])
  obtain ⟨after, ranNext, tookNext⟩ := next middle took aheadMiddle
  exact ⟨after, bind_run_eq_ok.mpr ⟨value, middle, ran, ranNext⟩, split ▸ took.trans tookNext⟩

theorem nested {opening : Token} {body : Reading α} {result : α} (space : 0 < cursor.room)
    (inside : Reads body cursor.deeper used result) :
    Reads (nested opening body) cursor used result := by
  obtain ⟨inner, ran, took⟩ := inside
  exact ⟨inner.higher, nested_run_eq_ok.mpr ⟨space, inner, ran, rfl⟩, took.higher⟩

end Reads

/-! ## Repeated actions -/

section Repeated

variable {α : Type} {item : Reading (Option α)}

/-- Runs of an action that yields something, up to and including the one that yields nothing. -/
inductive Iterates (item : Reading (Option α)) : Cursor → List α → Cursor → Prop
  | stop {cursor after : Cursor} :
      item.run cursor = .ok none after → Iterates item cursor [] after
  | more {cursor middle after : Cursor} {found : α} {rest : List α} :
      item.run cursor = .ok (some found) middle → Iterates item middle rest after →
      Iterates item cursor (found :: rest) after

/-- The action reads a token whenever it yields something, and yields nothing where no token is
left. -/
structure Dwindles (item : Reading (Option α)) : Prop where
  progress : ∀ cursor found after, item.run cursor = .ok (some found) after →
    after.remaining < cursor.remaining
  exhausted : ∀ cursor, cursor.remaining = 0 → item.run cursor = .ok none cursor

private theorem repeatUpTo_run_eq_ok
    (dwindles : Dwindles item)
    (bound : Nat) {cursor after : Cursor} {results : List α} (enough : cursor.remaining ≤ bound) :
    (repeatUpTo item bound).run cursor = .ok results after ↔ Iterates item cursor results after := by
  induction bound generalizing cursor results with
  | zero =>
    have stopped := dwindles.exhausted cursor (Nat.le_zero.mp enough)
    constructor
    · intro ran
      cases ran
      exact .stop stopped
    · intro ran
      cases ran with
      | stop last =>
        cases stopped.symm.trans last
        rfl
      | more first _ => cases stopped.symm.trans first
  | succ bound ih =>
    simp only [repeatUpTo, bind_run_eq_ok]
    constructor
    · rintro ⟨found, middle, first, ran⟩
      cases found with
      | none =>
        cases ran
        exact .stop first
      | some found =>
        simp only [bind_run_eq_ok] at ran
        obtain ⟨rest, last, tail, ran⟩ := ran
        cases ran
        have shorter := dwindles.progress _ _ _ first
        exact .more first ((ih (by omega)).mp tail)
    · intro ran
      cases ran with
      | stop last => exact ⟨none, after, last, rfl⟩
      | @more _ middle _ found rest first tail =>
        have shorter := dwindles.progress _ _ _ first
        refine ⟨some found, middle, first, ?_⟩
        simp only [bind_run_eq_ok]
        exact ⟨rest, after, (ih (by omega)).mpr tail, rfl⟩

/-- An action that dwindles may be repeated until it yields nothing: the bound on the number of runs
plays no part. -/
theorem many_run_eq_ok
    (dwindles : Dwindles item)
    {cursor after : Cursor} {results : List α} :
    (many item).run cursor = .ok results after ↔ Iterates item cursor results after := by
  rw [many, get_bind_run]
  exact repeatUpTo_run_eq_ok dwindles cursor.remaining (Nat.le_refl _)

private theorem repeatUpTo_run (dwindles : Dwindles item) (bound : Nat) {cursor : Cursor}
    (enough : cursor.remaining ≤ bound) :
    (repeatUpTo item bound).run cursor = (many item).run cursor := by
  rw [many, get_bind_run]
  induction bound using Nat.strongRecOn generalizing cursor with
  | _ bound ih =>
    cases bound with
    | zero => rw [Nat.le_zero.mp enough]
    | succ bound =>
      cases left : cursor.remaining with
      | zero => simp only [repeatUpTo, EStateM.run_bind, dwindles.exhausted cursor left]
      | succ fewer =>
        refine bind_run_congr fun found middle ran => ?_
        cases found with
        | none => rfl
        | some found =>
          have shorter := dwindles.progress _ _ _ ran
          have enoughLeft := ih fewer (by omega) (by omega : middle.remaining ≤ fewer)
          have enoughBound := ih bound (by omega) (by omega : middle.remaining ≤ bound)
          rw [EStateM.run_bind, EStateM.run_bind, enoughLeft, enoughBound]

/-- Repeated actions run once, and then again if that yields something. -/
theorem many_bind_run {β : Type} {continuation : List α → Reading β} (dwindles : Dwindles item)
    (cursor : Cursor) :
    (many item >>= continuation).run cursor =
      (item >>= fun found => match found with
        | none => continuation []
        | some found => many item >>= fun rest => continuation (found :: rest)).run cursor := by
  have enough : (many item).run cursor = (repeatUpTo item (cursor.remaining + 1)).run cursor :=
    (repeatUpTo_run dwindles _ (Nat.le_succ _)).symm
  rw [EStateM.run_bind, enough, repeatUpTo, ← EStateM.run_bind, bind_assoc]
  refine bind_run_congr fun found middle ran => ?_
  cases found with
  | none => rfl
  | some found =>
    have shorter := dwindles.progress _ _ _ ran
    have again := repeatUpTo_run dwindles cursor.remaining (by omega : middle.remaining ≤ _)
    simp [again]

/-- Repeated actions take the tokens that their runs take together. -/
theorem Reads.many
    (dwindles : Dwindles item)
    {cursor after : Cursor} {used : List Token} {results : List α}
    (ran : Iterates item cursor results after) (took : cursor.Took used after) :
    Reads (many item) cursor used results :=
  ⟨after, (many_run_eq_ok dwindles).mpr ran, took⟩

end Repeated

end ShellLine.Cursor
