import ShellLine.Proofs.Grammar.Completeness
import ShellLine.Proofs.Grammar.Pieces

/-! # Which tokens have a tree

`parse_eq_ok_iff` says which lists of tokens the parser accepts under a limit on nesting: those that
are phrases without their comments, with trees of no more levels than the limit. A phrase has at
least a token for each level, so that a limit of that many cuts nothing off.
-/

namespace ShellLine

/-- The tokens that have a part in the tree. -/
def withoutComments (tokens : List Token) : List Token :=
  tokens.filter fun token => token.kind != .comment

theorem withoutComments_cons {token : Token} {tokens : List Token} (kept : token.kind ≠ .comment) :
    withoutComments (token :: tokens) = token :: withoutComments tokens := by
  simp [withoutComments, kept]

theorem withoutComments_comment {token : Token} {tokens : List Token}
    (comment : token.kind = .comment) :
    withoutComments (token :: tokens) = withoutComments tokens := by
  simp [withoutComments, comment]

theorem withoutComments_append (first second : List Token) :
    withoutComments (first ++ second) = withoutComments first ++ withoutComments second := by
  simp [withoutComments]

theorem withoutComments_ne_nil {tokens : List Token}
    (some : ∃ token ∈ tokens, token.kind ≠ .comment) : withoutComments tokens ≠ [] := by
  obtain ⟨token, member, kind⟩ := some
  exact List.ne_nil_of_mem (List.mem_filter.mpr ⟨member, by simpa using kind⟩)

/-- The tokens around one that has a part in the tree. -/
theorem exists_split_of_withoutComments {tokens before after : List Token} {token : Token}
    (split : withoutComments tokens = before ++ token :: after) :
    ∃ earlier later, tokens = earlier ++ token :: later ∧ withoutComments earlier = before ∧
      withoutComments later = after := by
  obtain ⟨first, second, rfl, rfl, rest⟩ := List.filter_eq_append_iff.mp split
  obtain ⟨comments, later, rfl, apart, _, rfl⟩ := List.filter_eq_cons_iff.mp rest
  refine ⟨first ++ comments, later, by simp, ?_, rfl⟩
  rw [withoutComments_append, withoutComments, withoutComments,
    List.filter_eq_nil_iff.mpr apart, List.append_nil]

namespace Grammar

open Cursor

/-! ## A token for each level -/

mutual

theorem SubstitutionPhrase.levels_le {used : List Token} {node : Node} :
    SubstitutionPhrase used node → node.levels ≤ used.length
  | .name .. => by simp [Node.levels]
  | .subshell _ _ inner _ => by
    have fits := inner.levels_le
    simp only [Node.levels, List.length_cons, List.length_append]
    omega

theorem InterpolationsPhrase.levels_le {used : List Token} {parts : List Node} :
    InterpolationsPhrase used parts → Node.levelsInQuote parts ≤ used.length
  | .nil => Nat.zero_le _
  | .cons phrase _ phrases => by
    have fits := phrase.levels_le
    have othersFit := phrases.levels_le
    rw [phrase.levelsInQuote_cons, List.length_append, List.length_cons]
    omega

theorem QuotePhrase.levels_le {used : List Token} {node : Node} :
    QuotePhrase used node → node.levels ≤ used.length
  | .plain .. => by simp [Node.levels]
  | .mixed _ _ phrases _ _ => by
    have fits := phrases.levels_le
    simp only [Node.levels, Node.levelsInQuote, List.length_cons, List.length_append]
    omega

theorem ValuePhrase.levels_le {used : List Token} {node : Node} :
    ValuePhrase used node → node.levels ≤ used.length
  | .word _ => Nat.zero_le _
  | .wildcard _ => Nat.zero_le _
  | .substitution phrase => phrase.levels_le
  | .quote phrase => phrase.levels_le

theorem AssignmentPhrase.levels_le {used : List Token} {next : Option Token} {node : Node} :
    AssignmentPhrase used next node → node.levels ≤ used.length
  | .bare .. => Nat.zero_le _
  | .valued _ _ _ phrase => by
    have fits := phrase.levels_le
    simp only [Node.levels, Node.levelsOption, List.length_cons]
    omega

theorem RedirectPhrase.levels_le {used : List Token} {node : Node} :
    RedirectPhrase used node → node.levels ≤ used.length
  | .mk _ phrase => Nat.le_succ_of_le phrase.levels_le

theorem LeadingPhrase.levels_le {used : List Token} {next : Option Token}
    {redirects assignments : List Node} : LeadingPhrase used next redirects assignments →
    max (Node.levelsAll redirects) (Node.levelsAll assignments) ≤ used.length
  | .nil => Nat.zero_le _
  | .assignment phrase _ phrases => by
    have fits := phrase.levels_le
    have othersFit := phrases.levels_le
    simp only [Node.levelsAll, List.length_append]
    omega
  | .redirect phrase phrases => by
    have fits := phrase.levels_le
    have othersFit := phrases.levels_le
    simp only [Node.levelsAll, List.length_append]
    omega

theorem HeadPhrase.levels_le {used : List Token} {next : Option Token} {node : Node} :
    HeadPhrase used next node → node.levels ≤ used.length
  | .word .. => Nat.zero_le _
  | .substitution phrase => phrase.levels_le

theorem ArgumentPhrase.levels_le {used : List Token} {next : Option Token} {node : Node} :
    ArgumentPhrase used next node → node.levels ≤ used.length
  | .assignment phrase => phrase.levels_le
  | .sign _ => Nat.zero_le _
  | .value phrase _ => phrase.levels_le

theorem TrailingPhrase.levels_le {used : List Token} {args redirects : List Node} :
    TrailingPhrase used args redirects →
    max (Node.levelsAll args) (Node.levelsAll redirects) ≤ used.length
  | .nil => Nat.zero_le _
  | .argument phrase phrases => by
    have fits := phrase.levels_le
    have othersFit := phrases.levels_le
    simp only [Node.levelsAll, List.length_append]
    omega
  | .redirect phrase phrases => by
    have fits := phrase.levels_le
    have othersFit := phrases.levels_le
    simp only [Node.levelsAll, List.length_append]
    omega

theorem CommandPhrase.levels_le {used : List Token} {node : Node} :
    CommandPhrase used node → node.levels ≤ used.length
  | .headed leading head trailing => by
    have leadingFits := leading.levels_le
    have headFits := head.levels_le
    have trailingFits := trailing.levels_le
    simp only [Node.levels, Node.levelsOption, Node.levelsAll_append, List.length_append]
    omega
  | .headless leading _ => by
    have fits := leading.levels_le
    simp only [Node.levels, Node.levelsOption, Node.levelsAll]
    omega

theorem StagesPhrase.levels_le {used : List Token} {stages : List Node} :
    StagesPhrase used stages → Node.levelsAll stages ≤ used.length
  | .nil => Nat.zero_le _
  | .cons _ phrase phrases => by
    have fits := phrase.levels_le
    have othersFit := phrases.levels_le
    simp only [Node.levelsAll, List.length_cons, List.length_append]
    omega

theorem PipelinePhrase.levels_le {used : List Token} {node : Node} :
    PipelinePhrase used node → node.levels ≤ used.length
  | .mk phrase phrases => by
    have fits := phrase.levels_le
    have othersFit := phrases.levels_le
    rw [Node.levels_foldl_pipe, List.length_append]
    omega

theorem TailPhrase.levels_le {used : List Token} {items : List Node} :
    TailPhrase used items → Node.levelsAll items ≤ used.length
  | .nil => Nat.zero_le _
  | .trailing _ => Nat.zero_le _
  | .cons _ phrase phrases => by
    have fits := phrase.levels_le
    have othersFit := phrases.levels_le
    simp only [Node.levelsAll, List.length_cons, List.length_append]
    omega

theorem ListPhrase.levels_le {used : List Token} {node : Node} :
    ListPhrase used node → node.levels ≤ used.length
  | .single phrase tail => by
    have fits := phrase.levels_le
    rw [List.length_append]
    omega
  | .sequence phrase tail => by
    have fits := phrase.levels_le
    have othersFit := tail.levels_le
    simp only [Node.levels, Node.levelsAll, List.length_append] at othersFit ⊢
    omega

end

/-! ## Whole lists of tokens -/

/-- A phrase has no comments in it. -/
theorem ListPhrase.withoutComments_eq {used : List Token} {node : Node}
    (phrase : ListPhrase used node) : withoutComments used = used := by
  simpa [withoutComments, List.filter_eq_self] using phrase.pieces.kept

@[simp]
theorem rest_ofTokens (tokens : List Token) (maxDepth : Int) :
    (Cursor.ofTokens tokens maxDepth).rest = withoutComments tokens := by
  simp [Cursor.ofTokens, Cursor.rest, withoutComments]

@[simp]
theorem room_ofTokens (tokens : List Token) (maxDepth : Int) :
    (Cursor.ofTokens tokens maxDepth).room = maxDepth.toNat := by
  simp [Cursor.ofTokens, Cursor.room]

theorem commentOnly_ofTokens {tokens : List Token} (maxDepth : Int)
    (kept : withoutComments tokens ≠ []) :
    (Cursor.ofTokens tokens maxDepth).commentOnly = false := by
  have nonempty : (withoutComments tokens).isEmpty = false := List.isEmpty_eq_false_iff.mpr kept
  rw [Cursor.ofTokens, ← withoutComments, nonempty, Bool.and_false]

/-- A whole list is read if it is read as a list up to its end. -/
theorem parse_run_eq_ok {cursor : Cursor} (mixed : cursor.commentOnly = false) {tree : Node} :
    (∃ after, Grammar.parse.run cursor = .ok tree after) ↔
      ∃ after, (sequence (innerList cursor)).run cursor = .ok tree after ∧ after.rest = [] := by
  have noneLeft : ∀ cursor : Cursor, cursor.current = none ↔ cursor.rest = [] := by
    simp [current_eq_head?]
  simp only [Grammar.parse, get_bind_run, mixed, Bool.false_eq_true, ↓reduceIte, bind_run_eq_ok]
  constructor
  · rintro ⟨after, found, middle, ran, done⟩
    cases current : middle.current with
    | none =>
      simp only [current] at done
      cases done
      exact ⟨middle, ran, (noneLeft middle).mp current⟩
    | some token =>
      simp only [current] at done
      split at done <;> exact absurd done fail_run_ne_ok
  · rintro ⟨after, ran, empty⟩
    let message := "Parsed " ++ toString cursor.tokens.size ++ " tokens into " ++ tree.className
    refine ⟨{ after with log := after.log ++ [⟨after.logger, .debug, message⟩] }, tree, after, ran, ?_⟩
    simp only [(noneLeft after).mpr empty]
    rfl

end Grammar

open Grammar Cursor

/-- Comments alone are an empty list, and no tokens at all lack a command. Neither reads a token. -/
theorem parse_run_of_comments {tokens : List Token} (comments : withoutComments tokens = [])
    (maxDepth : Int) :
    ∃ after : Cursor, after.pos = 0 ∧ Grammar.parse.run (Cursor.ofTokens tokens maxDepth) =
      if tokens = [] then .error .missingCommand after else .ok (.sequence []) after := by
  by_cases empty : tokens = []
  · subst empty
    exact ⟨_, rfl, rfl⟩
  · have only : (Cursor.ofTokens tokens maxDepth).commentOnly = true := by
      rw [Cursor.ofTokens, ← withoutComments, comments]
      simpa using empty
    simp only [empty, Grammar.parse, get_bind_run, only, ↓reduceIte]
    exact ⟨_, rfl, rfl⟩

/-- Comments alone are an empty list, and no tokens at all lack a command, whatever the limit on
nesting is. -/
theorem parse_of_comments {tokens : List Token} (comments : withoutComments tokens = [])
    (maxDepth : Int) :
    parse tokens maxDepth =
      if tokens = [] then .error .missingCommand else .ok (.sequence []) := by
  obtain ⟨after, _, ran⟩ := parse_run_of_comments comments maxDepth
  rw [parse, ran]
  by_cases empty : tokens = [] <;> simp [empty]

/-- Tokens with a tree of so many levels are accepted if the limit on nesting leaves room for them,
and nothing else is. -/
theorem parse_eq_ok_iff {tokens : List Token} {maxDepth : Int} {tree : Node}
    (kept : withoutComments tokens ≠ []) :
    parse tokens maxDepth = .ok tree ↔
      ListPhrase (withoutComments tokens) tree ∧ tree.levels ≤ maxDepth.toNat := by
  have mixed := commentOnly_ofTokens maxDepth kept
  have ran : parse tokens maxDepth = .ok tree ↔
      ∃ after, Grammar.parse.run (Cursor.ofTokens tokens maxDepth) = .ok tree after := by
    rw [parse]
    cases Grammar.parse.run (Cursor.ofTokens tokens maxDepth) <;> simp
  rw [ran, parse_run_eq_ok mixed]
  have read := listWithin_sound (Cursor.ofTokens tokens maxDepth).remaining
  constructor
  · rintro ⟨after, ran, empty⟩
    obtain ⟨used, took, phrase, fits⟩ := sequence_sound read ran
    have all : withoutComments tokens = used := by
      simpa [empty] using took.1
    exact ⟨all ▸ phrase, by simpa using fits⟩
  · rintro ⟨phrase, fits⟩
    have complete := sequence_complete read (listWithin_complete _)
    have ahead : (Cursor.ofTokens tokens maxDepth).rest = withoutComments tokens ++ [] := by simp
    have short := (Cursor.ofTokens tokens maxDepth).remaining_eq_length
    obtain ⟨after, ran, took⟩ := complete ahead (by omega) phrase (by simpa using fits)
      (by simp [Ends])
    exact ⟨after, ran, took.rest_eq ahead⟩

/-- The parser accepts the tokens of its grammar, as long as the limit on nesting leaves a level for
each of them. -/
theorem parse_iff_listPhrase {tokens : List Token} {maxDepth : Int} {tree : Node}
    (some : ∃ token ∈ tokens, token.kind ≠ .comment) (limit : tokens.length ≤ maxDepth) :
    parse tokens maxDepth = .ok tree ↔ ListPhrase (withoutComments tokens) tree := by
  rw [parse_eq_ok_iff (withoutComments_ne_nil some), and_iff_left_iff_imp]
  intro phrase
  have fits := phrase.levels_le
  have fewer : (withoutComments tokens).length ≤ tokens.length := List.length_filter_le ..
  omega

/-- The tokens of `a=$b; # c`. -/
theorem listPhrase_assignment :
    ListPhrase
      (withoutComments
        [⟨.literal, "a", none, false, false⟩, ⟨.symbol, "=", none, true, true⟩,
          ⟨.symbol, "$", none, false, false⟩, ⟨.identifier, "b", none, false, false⟩,
          ⟨.symbol, ";", none, false, false⟩, ⟨.comment, "# c", none, false, false⟩])
      (.command none [] [] [.assign "a" (some (.identifier "b"))]) :=
  (parse_iff_listPhrase ⟨⟨.literal, "a", none, false, false⟩, by simp, by simp⟩
    (by decide : (6 : Int) ≤ 6)).mp rfl

end ShellLine
