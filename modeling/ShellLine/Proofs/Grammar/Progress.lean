import ShellLine.Proofs.Grammar.Locality
import ShellLine.Proofs.Grammar.Soundness
import ShellLine.Proofs.Reading.Ensures
import ShellLine.Proofs.Reading.Stuck

/-! # Rules get on

A rule that yields a tree has read a token, also where the grammar would not read it. So a loop that
runs a rule until it yields nothing comes to an end, and so does the recursion of the rules, which
goes on behind a token. `many` and `listWithin` bound the loops and the recursion, but neither bound
is what ends them.
-/

namespace ShellLine.Cursor

variable {α : Type}

/-- What packs the result of an action succeeds where the action does. -/
theorem some_map_run_eq_ok {action : Reading α} {cursor after : Cursor} {found : Option α} :
    (some <$> action).run cursor = .ok found after ↔
      ∃ result, found = some result ∧ action.run cursor = .ok result after := by
  rw [← bind_pure_comp, bind_run_eq_ok]
  constructor
  · rintro ⟨result, middle, ran, done⟩
    cases done
    exact ⟨result, rfl, ran⟩
  · rintro ⟨result, rfl, ran⟩
    exact ⟨result, after, ran, rfl⟩

/-- A loop that runs the action until it yields nothing or fails comes to an end, and `many` comes
to the same: its bound on the number of runs plays no part. -/
def LoopEnds (item : Reading (Option α)) : Prop :=
  ∀ cursor, Ensures (many item) cursor (fun results after => Iterates item cursor results after)
    fun fault after => Breaks item fault after cursor

theorem Dwindles.loopEnds {item : Reading (Option α)} (dwindles : Dwindles item) :
    LoopEnds item := by
  intro cursor
  unfold Ensures
  split
  case h_1 ran => exact (many_run_eq_ok dwindles).mp ran
  case h_2 ran => exact breaks_of_many dwindles ran

end ShellLine.Cursor

namespace ShellLine.Grammar

open Cursor

/-! ## Loops -/

/-- The loops of the rules come to an end, with the given reader of the lists in parentheses. -/
structure LoopsEnd (list : Reading Node) : Prop where
  sequence : LoopEnds (nextPipeline list)
  pipeline : LoopEnds (nextStage list)
  leading : LoopEnds (leadingPart list)
  trailing : LoopEnds (trailingPart list)
  quote : ∀ opening, LoopEnds (interpolation list opening)

theorem SoundList.loopsEnd {list : Reading Node} (sound : SoundList list) : LoopsEnd list where
  sequence := (nextPipeline_dwindles sound).loopEnds
  pipeline := (nextStage_dwindles sound).loopEnds
  leading := (leadingPart_dwindles sound).loopEnds
  trailing := (trailingPart_dwindles sound).loopEnds
  quote _ := (interpolation_dwindles sound).loopEnds

namespace Rule

/-- The rule comes to an end at the cursor, without any of the bounds. -/
structure Terminates (rule : Rule) (cursor : Cursor) : Prop where
  /-- Lists are not read on more levels than there are tokens ahead: it does not matter how many are
  allowed and what is done beyond them. -/
  recursion : ∀ (beyond : Reading Node) (levels : Nat), cursor.remaining ≤ levels →
    (rule.readWith (listOver beyond levels)).run cursor = rule.read.run cursor
  /-- On no level there is a loop that goes on and on. -/
  loops : ∀ levels, LoopsEnd (listWithin levels)

theorem terminates (rule : Rule) (cursor : Cursor) : rule.Terminates cursor where
  recursion beyond _ enough := rule.read_run_of_levels enough beyond
  loops levels := (listWithin_sound levels).loopsEnd

/-! ## Progress -/

section Outcome

variable {list : Reading Node} {cursor after : Cursor}

/-- A rule that yields a tree has read a token. -/
theorem pos_lt_of_readWith {node : Node} (sound : SoundList list) (steady : Steady list)
    (rule : Rule) (ran : (rule.readWith list).run cursor = .ok (some node) after) :
    cursor.pos < after.pos := by
  have lists : SameBelow 0 list list := .of_steady steady
  cases rule with
  | argument =>
    obtain ⟨used, took, phrase, _⟩ := argument_sound sound ran
    exact took.pos_lt phrase.ne_nil
  | value =>
    obtain ⟨used, took, phrase, _⟩ := value_sound sound ran
    exact took.pos_lt phrase.ne_nil
  | list =>
    obtain ⟨tree, _, ran⟩ := some_map_run_eq_ok.mp ran
    obtain ⟨used, took, phrase, _⟩ := sequence_sound sound ran
    exact took.pos_lt phrase.opens.ne_nil
  | pipeline =>
    obtain ⟨tree, _, ran⟩ := some_map_run_eq_ok.mp ran
    obtain ⟨used, took, phrase, _⟩ := pipeline_sound sound ran
    exact took.pos_lt phrase.opens.ne_nil
  | command =>
    obtain ⟨tree, _, ran⟩ := some_map_run_eq_ok.mp ran
    obtain ⟨used, took, phrase, _⟩ := command_sound sound ran
    exact took.pos_lt phrase.opens.ne_nil
  -- These four begin with a token whatever it is, so that they need not have read a phrase.
  | assignment =>
    obtain ⟨tree, _, ran⟩ := some_map_run_eq_ok.mp ran
    exact (assignment_local lists).pos_lt ran
  | redirect =>
    obtain ⟨tree, _, ran⟩ := some_map_run_eq_ok.mp ran
    exact (redirect_local lists).pos_lt ran
  | substitution =>
    obtain ⟨tree, _, ran⟩ := some_map_run_eq_ok.mp ran
    exact (substitution_local lists).pos_lt ran
  | quote =>
    obtain ⟨tree, _, ran⟩ := some_map_run_eq_ok.mp ran
    exact (quote_local lists).pos_lt ran

/-- Only arguments and values may be missing, and then nothing was read. -/
theorem stop_of_readWith (rule : Rule)
    (ran : (rule.readWith list).run cursor = .ok none after) :
    rule ∈ [argument, value] ∧ after = cursor := by
  cases rule with
  | argument => exact ⟨by decide, argument_stop ran⟩
  | value => exact ⟨by decide, (value_stop ran).1⟩
  | list | pipeline | command | assignment | redirect | substitution | quote =>
    obtain ⟨_, missing, _⟩ := some_map_run_eq_ok.mp ran
    cases missing

end Outcome

/-- Every rule comes to an end. It gets on if it yields a tree, stays where it is if it yields
nothing, and does not go back if it fails. -/
theorem read_progress (rule : Rule) (cursor : Cursor) :
    rule.Terminates cursor ∧
    Ensures rule.read cursor
      (fun found after =>
        (found.isSome → cursor.pos < after.pos ∧ after.pos ≤ cursor.tokens.size) ∧
        (found = none → rule ∈ [argument, value] ∧ after.pos = cursor.pos))
      fun _ after => cursor.pos ≤ after.pos ∧ after.pos ≤ max cursor.pos cursor.tokens.size := by
  have sound : SoundList (innerList cursor) := listWithin_sound cursor.remaining
  have steady : Steady (innerList cursor) := listWithin_steady cursor.remaining
  have within {count : Nat} (enough : count ≤ cursor.remaining) :
      cursor.pos + count ≤ max cursor.pos cursor.tokens.size := by
    rw [remaining] at enough
    omega
  refine ⟨rule.terminates cursor, ?_⟩
  unfold Ensures
  rw [rule.read_run]
  split
  case h_1 found after ran =>
    obtain ⟨count, enough, moved⟩ := (rule.readWith_steady steady).of_ok ran
    have reached : after.pos = cursor.pos + count := congrArg Cursor.pos moved
    cases found with
    | none =>
      obtain ⟨optional, rfl⟩ := rule.stop_of_readWith ran
      exact ⟨fun tree => absurd tree (by simp), fun _ => ⟨optional, rfl⟩⟩
    | some node =>
      have further : cursor.pos < after.pos := rule.pos_lt_of_readWith sound steady ran
      -- Behind the end of the tokens the rule could not have got on.
      have inside : after.pos ≤ cursor.tokens.size := by
        have := within enough
        omega
      exact ⟨fun _ => ⟨further, inside⟩, fun missing => absurd missing (by simp)⟩
  case h_2 fault after ran =>
    obtain ⟨count, enough, moved⟩ := (rule.readWith_steady steady).of_error ran
    have reached : after.pos = cursor.pos + count := congrArg Cursor.pos moved
    have := within enough
    exact ⟨by omega, by omega⟩

end Rule

end ShellLine.Grammar
