import ShellLine.Proofs.Grammar.Boundaries
import ShellLine.Proofs.Nesting.Frames

/-! # Phrases close what they open

Outside quoted text a phrase of the grammar opens nothing that it does not close, and closes nothing
that it did not open: it is `Neutral`.
-/

namespace ShellLine.Grammar

open Alphabet

/-- The tokens leave what is open around them as it is. -/
def Neutral (ts : List Token) : Prop :=
  ∀ ⦃stray frames⦄, Between frames → follow stray frames ts = some frames

namespace Neutral

theorem nil : Neutral [] :=
  fun _ _ _ => rfl

theorem append {first second : List Token} (left : Neutral first) (right : Neutral second) :
    Neutral (first ++ second) := by
  intro stray frames between
  rw [follow_append, left between, Option.bind_some, right between]

theorem cons {token : Token} {ts : List Token} (plain : token.plain) (neutral : Neutral ts) :
    Neutral (token :: ts) := by
  intro stray frames between
  rw [follow_cons, advance_of_plain between plain, Option.bind_some, neutral between]

theorem single {token : Token} (plain : token.plain) : Neutral [token] :=
  .cons plain .nil

end Neutral

theorem plain_of_assigns {sign : Token} (assigned : assigns (some sign)) : sign.plain := by
  simp only [assigns, Option.any_some, Bool.and_eq_true] at assigned
  exact plain_of_mark (by decide) assigned.1

theorem plain_of_literal {token : Token} (literal : token.kind = .literal) : token.plain :=
  plain_of_kind (by simp [literal]) (by simp [literal])

theorem plain_of_redirect {operator : Token} (redirects : operator.isSymbol redirectOperators) :
    operator.plain := by
  have symbol := kind_of_isSymbol redirects
  exact plain_of_operator symbol (by simpa [Token.isSymbol, symbol, redirectOperators] using redirects)

/-- A quote is closed by the mark that opened it. -/
theorem neutral_of_quote {opening text closing : Token} {ts : List Token}
    (opens : opening.isSymbol (quoteMarks.map String.singleton)) (fragment : text.kind = .fragment)
    (inside : ∀ stray mark outer, follow stray (.quoted mark .mark :: outer) ts =
      some (.quoted mark .mark :: outer))
    (closes : closing.isSymbol [opening.value]) :
    Neutral (opening :: text :: (ts ++ [closing])) := by
  intro stray frames between
  obtain ⟨_, mark, member, value⟩ := opensQuote_iff.mp opens
  have waits : QuotePhase.text ≠ .mark := nofun
  rw [value] at closes
  rw [follow_cons, advance_of_opensQuote between opens, Option.bind_some, value, follow_cons,
    advance_of_fragment waits fragment, Option.bind_some, follow_append, inside, Option.bind_some,
    follow_cons, advance_of_closesQuote member closes]
  rfl

mutual

theorem SubstitutionPhrase.follow {stray : Bool} {pre post : List Frame} {ts : List Token}
    {node : Node} : SubstitutionPhrase ts node → Bridges stray pre post →
    follow stray pre ts = some post
  | .name mark name, ⟨middle, afterSigil, afterName, _⟩ => by
    simp [afterSigil _ mark, afterName _ name]
  | .subshell mark opens phrase closes, ⟨middle, afterSigil, _, afterParen⟩ => by
    have between : Between (.group :: post) := .inr ⟨post, rfl⟩
    simp [afterSigil _ mark, afterParen _ opens, phrase.neutral between,
      advance_of_closeParen closes]

theorem InterpolationsPhrase.follow {stray : Bool} {mark : String} {outer : List Frame}
    {ts : List Token} {parts : List Node} : InterpolationsPhrase ts parts →
    follow stray (.quoted mark .mark :: outer) ts = some (.quoted mark .mark :: outer)
  | .nil => rfl
  | .cons phrase fragment phrases => by
    have first := phrase.follow (@bridges_in_quote stray mark outer)
    have waits : QuotePhase.text ≠ .mark := nofun
    rw [follow_append, first, Option.bind_some, follow_cons, advance_of_fragment waits fragment,
      Option.bind_some, phrases.follow]

theorem QuotePhrase.neutral {ts : List Token} {node : Node} : QuotePhrase ts node → Neutral ts
  | .plain opens fragment closes =>
    @neutral_of_quote _ _ _ [] opens fragment (fun _ _ _ => rfl) closes
  | .mixed opens fragment phrases _ closes =>
    neutral_of_quote opens fragment (fun _ _ _ => phrases.follow) closes

theorem ValuePhrase.neutral {ts : List Token} {node : Node} : ValuePhrase ts node → Neutral ts
  | .word isWord => .single (plain_of_isWord isWord)
  | .wildcard kind => .single (plain_of_kind (by simp [kind]) (by simp [kind]))
  | .substitution phrase => fun _ _ between => phrase.follow (bridges_of_between between)
  | .quote phrase => phrase.neutral

theorem AssignmentPhrase.neutral {ts : List Token} {next : Option Token} {node : Node} :
    AssignmentPhrase ts next node → Neutral ts
  | .bare word assigned _ => .cons (plain_of_literal word) (.single (plain_of_assigns assigned))
  | .valued word assigned _ phrase =>
    .cons (plain_of_literal word) (.cons (plain_of_assigns assigned) phrase.neutral)

theorem RedirectPhrase.neutral {ts : List Token} {node : Node} :
    RedirectPhrase ts node → Neutral ts
  | .mk redirects phrase => .cons (plain_of_redirect redirects) phrase.neutral

theorem LeadingPhrase.neutral {ts : List Token} {next : Option Token}
    {redirects assignments : List Node} :
    LeadingPhrase ts next redirects assignments → Neutral ts
  | .nil => .nil
  | .assignment phrase _ phrases => phrase.neutral.append phrases.neutral
  | .redirect phrase phrases => phrase.neutral.append phrases.neutral

theorem HeadPhrase.neutral {ts : List Token} {next : Option Token} {node : Node} :
    HeadPhrase ts next node → Neutral ts
  | .word isWord _ => .single (plain_of_isWord isWord)
  | .substitution phrase => fun _ _ between => phrase.follow (bridges_of_between between)

theorem ArgumentPhrase.neutral {ts : List Token} {next : Option Token} {node : Node} :
    ArgumentPhrase ts next node → Neutral ts
  | .assignment phrase => phrase.neutral
  | .sign mark => .single (plain_of_mark (by decide) mark)
  | .value phrase _ => phrase.neutral

theorem TrailingPhrase.neutral {ts : List Token} {args redirects : List Node} :
    TrailingPhrase ts args redirects → Neutral ts
  | .nil => .nil
  | .argument phrase phrases => phrase.neutral.append phrases.neutral
  | .redirect phrase phrases => phrase.neutral.append phrases.neutral

theorem CommandPhrase.neutral {ts : List Token} {node : Node} : CommandPhrase ts node → Neutral ts
  | .headed leading head trailing =>
    leading.neutral.append (head.neutral.append trailing.neutral)
  | .headless leading _ => leading.neutral

theorem StagesPhrase.neutral {ts : List Token} {stages : List Node} :
    StagesPhrase ts stages → Neutral ts
  | .nil => .nil
  | .cons mark phrase phrases =>
    .cons (plain_of_mark (by decide) mark) (phrase.neutral.append phrases.neutral)

theorem PipelinePhrase.neutral {ts : List Token} {node : Node} : PipelinePhrase ts node → Neutral ts
  | .mk phrase phrases => phrase.neutral.append phrases.neutral

theorem TailPhrase.neutral {ts : List Token} {items : List Node} : TailPhrase ts items → Neutral ts
  | .nil => .nil
  | .trailing mark => .single (plain_of_mark (by decide) mark)
  | .cons mark phrase phrases =>
    .cons (plain_of_mark (by decide) mark) (phrase.neutral.append phrases.neutral)

theorem ListPhrase.neutral {ts : List Token} {node : Node} : ListPhrase ts node → Neutral ts
  | .single phrase tail => phrase.neutral.append tail.neutral
  | .sequence phrase tail => phrase.neutral.append tail.neutral

end

end ShellLine.Grammar
