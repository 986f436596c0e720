import ShellLine.Proofs.Reading.Actions

/-! # Where failing actions stop

An action that fails has taken some tokens. `StuckIn` says that more tokens could have followed them
to make up a phrase of some kind, and that the limit on nesting was not in the way if it had left
room for all the tokens taken. The lemmas below put what an action took in front of where the next
one is stuck.
-/

namespace ShellLine.Cursor

/-- A cursor from which the given tokens were taken before the fault. -/
structure Stuck (cursor : Cursor) (fault : StructuralFault) (used : List Token) (after : Cursor) :
    Prop where
  ahead : cursor.rest = used ++ after.rest
  pos : after.pos = cursor.pos + used.length
  room : fault.kind = .nestingTooDeep → cursor.room < used.length

/-- The tokens taken before the fault begin a phrase. -/
def StuckIn (cursor : Cursor) (fault : StructuralFault) (after : Cursor)
    (phrase : List Token → Prop) : Prop :=
  ∃ used more, cursor.Stuck fault used after ∧ phrase (used ++ more)

section Stuck

variable {cursor middle after : Cursor} {fault : StructuralFault} {used first second : List Token}
  {phrase larger : List Token → Prop}

theorem Took.stuck (took : cursor.Took first middle) (stuck : middle.Stuck fault second after) :
    cursor.Stuck fault (first ++ second) after where
  ahead := by rw [took.1, stuck.ahead, List.append_assoc]
  pos := by
    rw [stuck.pos, took.2, List.length_append]
    simp only [advance]
    omega
  room deep := by
    have narrow := stuck.room deep
    rw [took.room_eq] at narrow
    rw [List.length_append]
    omega

/-- What was taken begins with the next token, whatever comes after it. -/
theorem Took.head?_append (took : cursor.Took used middle) (some : used ≠ []) (later : List Token) :
    (used ++ later).head? = cursor.current := by
  obtain ⟨first, rest, rfl⟩ := List.exists_cons_of_ne_nil some
  rw [current_eq_head?, took.1]
  rfl

/-- What was taken before comes in front of the phrase. -/
theorem Took.stuckIn (took : cursor.Took used middle) (stuck : middle.StuckIn fault after phrase)
    (imp : ∀ ts, phrase ts → larger (used ++ ts)) : cursor.StuckIn fault after larger := by
  obtain ⟨later, more, stuck, met⟩ := stuck
  refine ⟨used ++ later, more, took.stuck stuck, ?_⟩
  rw [List.append_assoc]
  exact imp _ met

/-- A phrase that begins a larger one. -/
theorem StuckIn.append (stuck : cursor.StuckIn fault after phrase) (last : List Token)
    (imp : ∀ ts, phrase ts → larger (ts ++ last)) : cursor.StuckIn fault after larger := by
  obtain ⟨used, more, stuck, met⟩ := stuck
  refine ⟨used, more ++ last, stuck, ?_⟩
  rw [← List.append_assoc]
  exact imp _ met

/-- What was taken before comes in front of the phrase, and what completes both comes last. -/
theorem Took.stuckIn_append (took : cursor.Took used middle)
    (stuck : middle.StuckIn fault after phrase) (last : List Token)
    (imp : ∀ ts, phrase ts → larger (used ++ (ts ++ last))) :
    cursor.StuckIn fault after larger := by
  obtain ⟨later, more, stuck, met⟩ := stuck
  refine ⟨used ++ later, more ++ last, took.stuck stuck, ?_⟩
  rw [List.append_assoc, ← List.append_assoc later]
  exact imp _ met

theorem StuckIn.mono (stuck : cursor.StuckIn fault after phrase)
    (imp : ∀ ts, phrase ts → larger ts) : cursor.StuckIn fault after larger := by
  obtain ⟨used, more, stuck, met⟩ := stuck
  exact ⟨used, more, stuck, imp _ met⟩

/-- A fault right away, where a phrase could have begun. -/
theorem stuckIn_of_fail {α : Type} {reason : StructuralFault} (more : List Token)
    (met : phrase more) (shallow : reason.kind ≠ .nestingTooDeep)
    (ran : (fail reason : Reading α).run cursor = .error fault after) :
    cursor.StuckIn fault after phrase := by
  rw [fail_run] at ran
  cases ran
  exact ⟨[], more, ⟨rfl, rfl, fun deep => absurd deep shallow⟩, met⟩

/-- A fault where the tokens taken and some more are a phrase. -/
theorem Took.stuckIn_of_fail {α : Type} {reason : StructuralFault} (took : cursor.Took used middle)
    (more : List Token) (met : phrase (used ++ more)) (shallow : reason.kind ≠ .nestingTooDeep)
    (ran : (fail reason : Reading α).run middle = .error fault after) :
    cursor.StuckIn fault after phrase :=
  took.stuckIn (Cursor.stuckIn_of_fail more met shallow ran) fun _ met => met

/-- Actions in a row fail if one of them does. -/
theorem bind_run_eq_error {α β : Type} {action : Reading α} {continuation : α → Reading β} :
    (action >>= continuation).run cursor = .error fault after ↔
      action.run cursor = .error fault after ∨ ∃ value middle,
        action.run cursor = .ok value middle ∧
          (continuation value).run middle = .error fault after := by
  rw [EStateM.run_bind]
  cases action.run cursor <;> simp [and_assoc]

theorem pure_run_ne_error {α : Type} {result : α} :
    (pure result : Reading α).run cursor ≠ .error fault after :=
  nofun

/-- What only makes something of a result fails where the result does. -/
theorem bind_pure_run_eq_error {α β : Type} {action : Reading α} {pack : α → β}
    (ran : (action >>= fun value => pure (pack value)).run cursor = .error fault after) :
    action.run cursor = .error fault after := by
  obtain failed | ⟨_, _, _, done⟩ := bind_run_eq_error.mp ran
  · exact failed
  · cases done

/-- Where there is a token, reading it does not fail, only what comes after. -/
theorem consume_bind_run_eq_error {α : Type} {continuation : Token → Reading α} {token : Token}
    (current : cursor.current = some token)
    (ran : (consume >>= continuation).run cursor = .error fault after) :
    ∃ middle, cursor.Took [token] middle ∧ (continuation token).run middle = .error fault after := by
  obtain ⟨later, ahead⟩ := List.head?_eq_some_iff.mp (cursor.current_eq_head?.symm.trans current)
  rw [EStateM.run_bind, consume_run_of_rest ahead] at ran
  exact ⟨cursor.advance 1, ⟨by simp [ahead], rfl⟩, ran⟩

theorem consume_run_ne_error {token : Token} (current : cursor.current = some token) :
    consume.run cursor ≠ .error fault after := by
  intro ran
  rw [← bind_pure consume] at ran
  obtain ⟨_, _, done⟩ := consume_bind_run_eq_error current ran
  exact pure_run_ne_error done

theorem exists_of_atSymbol {values : List String} (found : cursor.atSymbol values) :
    ∃ token, cursor.current = some token ∧ token.isSymbol values := by
  rw [atSymbol, Option.any_eq_true] at found
  exact found

theorem exists_of_atMark {mark : Char} (found : cursor.atMark mark) :
    ∃ token, cursor.current = some token ∧ token.isMark mark :=
  exists_of_atSymbol found

/-- A nested action fails at its start if there is no room for it, or inside. -/
theorem nested_run_eq_error {α : Type} {opening : Token} {body : Reading α}
    (ran : (nested opening body).run cursor = .error fault after) :
    (cursor.room = 0 ∧ after.rest = cursor.rest ∧ after.pos = cursor.pos) ∨
      ∃ inner, body.run cursor.deeper = .error fault inner ∧ after = inner.higher := by
  rw [nested_run_of_room] at ran
  by_cases noRoom : cursor.room = 0
  · rw [if_pos noRoom, fail_run] at ran
    cases ran
    exact .inl ⟨noRoom, rfl, rfl⟩
  · rw [if_neg noRoom] at ran
    cases inside : body.run cursor.deeper with
    | ok result inner =>
      rw [inside] at ran
      cases ran
    | error fault inner =>
      rw [inside] at ran
      cases ran
      exact .inr ⟨inner, rfl, rfl⟩

/-- A nested action after the token that opens it is stuck inside, or at the limit. -/
theorem Took.stuckIn_nested {α : Type} {opening : Token} {body : Reading α} (more : List Token)
    (took : cursor.Took [opening] middle) (met : phrase more)
    (inside : ∀ inner, body.run middle.deeper = .error fault inner →
      middle.deeper.StuckIn fault inner phrase)
    (ran : (nested opening body).run middle = .error fault after)
    (imp : ∀ ts, phrase ts → larger (opening :: ts)) : cursor.StuckIn fault after larger := by
  obtain ⟨noRoom, rest, pos⟩ | ⟨inner, failed, rfl⟩ := nested_run_eq_error ran
  · refine ⟨[opening], more, ⟨by rw [rest, took.1], ?_, fun _ => ?_⟩, imp _ met⟩
    · rw [pos, took.2]
      rfl
    · rw [← took.room_eq, noRoom]
      exact Nat.one_pos
  · obtain ⟨used, more, stuck, met⟩ := inside inner failed
    refine ⟨opening :: used, more, ⟨?_, ?_, fun deep => ?_⟩, imp _ met⟩
    · rw [took.1]
      exact congrArg (opening :: ·) stuck.ahead
    · have pos := stuck.pos
      rw [took.2] at pos
      simp only [deeper, advance, List.length_cons, List.length_nil] at pos ⊢
      change inner.pos = _
      omega
    · have narrow := stuck.room deep
      rw [room_deeper, took.room_eq] at narrow
      rw [List.length_cons]
      omega

end Stuck

/-! ## Repeated actions -/

/-- Runs of an action up to one that fails. -/
inductive Breaks {α : Type} (item : Reading (Option α)) (fault : StructuralFault) (after : Cursor) :
    Cursor → Prop
  | now {cursor : Cursor} : item.run cursor = .error fault after → Breaks item fault after cursor
  | later {cursor middle : Cursor} {found : α} :
      item.run cursor = .ok (some found) middle → Breaks item fault after middle →
      Breaks item fault after cursor

/-- Repeated actions fail if one of the runs does. -/
theorem breaks_of_many {α : Type} {item : Reading (Option α)} (dwindles : Dwindles item)
    {cursor after : Cursor} {fault : StructuralFault}
    (ran : (many item).run cursor = .error fault after) : Breaks item fault after cursor := by
  induction left : cursor.remaining using Nat.strongRecOn generalizing cursor with
  | _ bound ih =>
    rw [← bind_pure (many item), many_bind_run dwindles] at ran
    obtain failed | ⟨found, middle, first, ran⟩ := bind_run_eq_error.mp ran
    · exact .now failed
    · cases found with
      | none => exact absurd ran pure_run_ne_error
      | some found =>
        have shorter := dwindles.progress _ _ _ first
        obtain failed | ⟨rest, last, _, done⟩ := bind_run_eq_error.mp ran
        · exact .later first (ih _ (by omega) failed rfl)
        · exact absurd done pure_run_ne_error

end ShellLine.Cursor
