import ShellLine.CommandLine
import ShellLine.Proofs.Grammar.Expansions

/-! # What the plan of a line lists

The plan of a line lists the names and the patterns in it, each as often as it stands there. It lists
them in the order of the line only where redirects come last, since the redirects of a command are
planned after its other parts: `plan_of_parseLine`.
-/

namespace ShellLine

open Grammar

/-- The values of the tokens of one kind. -/
def valuesOf (kind : TokenKind) (tokens : List Token) : List String :=
  (tokens.filter (·.kind == kind)).map (·.value)

section Values

variable (tokens : List Token)

/-- A part of the expansions that one kind of tokens has. -/
theorem filterMap_expansion? {pick : Expansion → Option String} {kind : TokenKind}
    (picks : ∀ token : Token, token.expansion?.bind pick =
      if token.kind == kind then some token.value else none) :
    (tokens.filterMap Token.expansion?).filterMap pick = valuesOf kind tokens := by
  rw [List.filterMap_filterMap, valuesOf]
  induction tokens with
  | nil => rfl
  | cons token rest ih =>
    rw [List.filterMap_cons, picks, ih, List.filter_cons]
    cases token.kind == kind <;> rfl

theorem filterMap_name? :
    (tokens.filterMap Token.expansion?).filterMap Expansion.name? = valuesOf .identifier tokens := by
  refine filterMap_expansion? tokens fun token => ?_
  cases kind : token.kind <;> simp [Token.expansion?, Expansion.name?, kind]

theorem filterMap_pattern? :
    (tokens.filterMap Token.expansion?).filterMap Expansion.pattern? = valuesOf .wildcard tokens := by
  refine filterMap_expansion? tokens fun token => ?_
  cases kind : token.kind <;> simp [Token.expansion?, Expansion.pattern?, kind]

/-- Nothing is expanded in comments. -/
theorem filterMap_withoutComments :
    (withoutComments tokens).filterMap Token.expansion? = tokens.filterMap Token.expansion? := by
  induction tokens with
  | nil => rfl
  | cons token rest ih =>
    by_cases comment : token.kind = .comment
    · rw [withoutComments_comment comment, ih]
      simp [Token.expansion?, comment]
    · rw [withoutComments_cons comment, List.filterMap_cons, List.filterMap_cons, ih]

end Values

/-- The tokens of a line have the expansions of its tree. -/
theorem expands_of_parse {tokens : List Token} {tree : Node} (parsed : parse tokens = .ok tree) :
    Expands (withoutComments tokens) tree.expansions := by
  by_cases comments : withoutComments tokens = []
  · rw [parse_of_comments comments] at parsed
    split at parsed
    case isTrue => cases parsed
    case isFalse =>
      cases parsed
      rw [comments, Node.expansions_sequence]
      exact expands_nil
  · exact ((parse_eq_ok_iff comments).mp parsed).1.expands

/-- A plan lists the names and the patterns of its line, in the order of the line if no redirect has
another part of its command after it. -/
theorem plan_of_parseLine {line : String} {tree : Node} (parsed : parseLine line = .ok tree) :
    ∃ tokens, tokenize line = .ok tokens ∧
      tree.plan.identifiers.Perm (valuesOf .identifier tokens) ∧
      tree.plan.wildcards.Perm (valuesOf .wildcard tokens) ∧
      (RedirectsLast (withoutComments tokens) →
        tree.plan.identifiers = valuesOf .identifier tokens ∧
          tree.plan.wildcards = valuesOf .wildcard tokens) := by
  rw [parseLine_eq] at parsed
  split at parsed
  case h_1 => cases parsed
  case h_2 tokens ran =>
    split at parsed
    case h_1 => cases parsed
    case h_2 found read =>
      cases parsed
      obtain ⟨perm, ordered⟩ := expands_of_parse read
      rw [filterMap_withoutComments] at perm ordered
      refine ⟨tokens, ran, ?_⟩
      rw [Node.plan_identifiers, Node.plan_wildcards, ← filterMap_name?, ← filterMap_pattern?]
      refine ⟨perm.filterMap _, perm.filterMap _, fun last => ?_⟩
      rw [ordered last]
      exact ⟨rfl, rfl⟩

/-- The redirect of `cat $b *.c $a > d` comes last. -/
theorem plan_last_redirect :
    ∃ tree, parseLine "cat $b *.c $a > d" = .ok tree ∧
      tree.plan.identifiers = ["b", "a"] ∧ tree.plan.wildcards = ["*.c"] := by
  have parsed : parseLine "cat $b *.c $a > d" = .ok (.command (some (.literal "cat"))
      [.identifier "b", .wildcard "*.c", .identifier "a"] [.redirect ">" (.literal "d")] []) := rfl
  have last : RedirectsLast
      ([⟨.literal, "cat", some 0, false, false⟩, ⟨.symbol, "$", some 4, false, false⟩,
        ⟨.identifier, "b", some 5, false, false⟩, ⟨.wildcard, "*.c", some 7, false, false⟩,
        ⟨.symbol, "$", some 11, false, false⟩, ⟨.identifier, "a", some 12, false, false⟩] ++
      [⟨.symbol, ">", some 14, false, false⟩, ⟨.literal, "d", some 16, false, false⟩]) :=
    redirectsLast_of_length (by decide) (by decide)
  obtain ⟨tokens, ran, _, _, ordered⟩ := plan_of_parseLine parsed
  obtain rfl := Except.ok.inj ran
  exact ⟨_, parsed, ordered last⟩

/-- The plan of `echo > $a $b` lists the target of the redirect after the argument. -/
theorem plan_early_redirect :
    tokenize "echo > $a $b" = .ok
        [⟨.literal, "echo", some 0, false, false⟩, ⟨.symbol, ">", some 5, false, false⟩,
          ⟨.symbol, "$", some 7, false, false⟩, ⟨.identifier, "a", some 8, false, false⟩,
          ⟨.symbol, "$", some 10, false, false⟩, ⟨.identifier, "b", some 11, false, false⟩] ∧
      ∃ tree, parseLine "echo > $a $b" = .ok tree ∧ tree.plan.identifiers = ["b", "a"] := by
  have parsed : parseLine "echo > $a $b" = .ok (.command (some (.literal "echo"))
      [.identifier "b"] [.redirect ">" (.identifier "a")] []) := rfl
  refine ⟨rfl, _, parsed, ?_⟩
  rw [Node.plan_identifiers]
  simp [Expansion.name?]

end ShellLine
