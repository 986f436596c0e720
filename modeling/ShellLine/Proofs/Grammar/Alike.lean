import ShellLine.Proofs.Grammar.Boundaries

/-! # What phrases look at

Whether tokens are a phrase depends neither on their positions nor on what a sign touches on its
right unless a value follows it. Tokens that differ in nothing else are `Alike` and have the same
trees: `ListPhrase.alike`.
-/

namespace ShellLine.Grammar

open Alphabet

/-- The same token but for its position and what it touches on its right. -/
structure Resembles (a b : Token) : Prop where
  kind : a.kind = b.kind
  value : a.value = b.value
  joinedLeft : a.joinedLeft = b.joinedLeft

namespace Resembles

variable {a b : Token} (resembles : Resembles a b)
include resembles

theorem isSymbol (values : List String) : a.isSymbol values = b.isSymbol values := by
  simp only [Token.isSymbol, resembles.kind, resembles.value]

theorem isMark (mark : Char) : a.isMark mark = b.isMark mark :=
  resembles.isSymbol _

theorem isWord : a.isWord = b.isWord := by
  simp only [Token.isWord, resembles.kind]

theorem startsValue : startsValue (some a) = startsValue (some b) := by
  simp only [Grammar.startsValue, Option.any_some, resembles.isWord, resembles.kind,
    resembles.isMark, resembles.isSymbol]

theorem assigns : assigns (some a) = assigns (some b) := by
  simp only [Grammar.assigns, Option.any_some, resembles.isMark, resembles.joinedLeft]

end Resembles

/-- The same tokens in front of the next one, but for positions and for what a sign touches on its
right where no value follows. -/
inductive Alike (next : Option Token) : List Token → List Token → Prop
  | nil : Alike next [] []
  | cons {a b : Token} {as bs : List Token} :
      Resembles a b → (startsValue (as.head?.or next) → a.joinedRight = b.joinedRight) →
      Alike next as bs → Alike next (a :: as) (b :: bs)

namespace Alike

variable {next : Option Token} {as bs first second : List Token}

theorem of_append (alike : Alike next (first ++ second) bs) : ∃ first' second',
    bs = first' ++ second' ∧ Alike (second.head?.or next) first first' ∧
      Alike next second second' := by
  induction first generalizing bs with
  | nil => exact ⟨[], bs, rfl, .nil, alike⟩
  | cons token first ih =>
    cases alike with
    | cons resembles joined alike =>
      obtain ⟨first', second', rfl, alikeFirst, alikeSecond⟩ := ih alike
      refine ⟨_ :: first', second', rfl, .cons resembles (fun starts => joined ?_) alikeFirst,
        alikeSecond⟩
      rwa [List.append_eq, List.head?_append, Option.or_assoc]

theorem of_single {a : Token} (alike : Alike next [a] bs) : ∃ b, bs = [b] ∧ Resembles a b := by
  cases alike with
  | cons resembles _ alike =>
    cases alike
    exact ⟨_, rfl, resembles⟩

theorem of_sign {a : Token} (alike : Alike next (a :: as) bs) :
    ∃ b bs', bs = b :: bs' ∧ Resembles a b ∧
      (startsValue (as.head?.or next) → a.joinedRight = b.joinedRight) ∧ Alike next as bs' := by
  cases alike with
  | cons resembles joined alike => exact ⟨_, _, rfl, resembles, joined, alike⟩

theorem of_cons {a : Token} (alike : Alike next (a :: as) bs) :
    ∃ b bs', bs = b :: bs' ∧ Resembles a b ∧ Alike next as bs' := by
  obtain ⟨b, bs', same, resembles, _, alike⟩ := alike.of_sign
  exact ⟨b, bs', same, resembles, alike⟩

/-- What comes first is the same for the words before it. -/
theorem milder (alike : Alike next as bs) (after : Option Token) :
    Milder (as.head?.or after) (bs.head?.or after) := by
  cases alike with
  | nil => exact ⟨id, id⟩
  | cons resembles _ _ =>
    exact ⟨by simp [resembles.startsValue], by simp [resembles.assigns]⟩

theorem ne_nil (alike : Alike next as bs) (some : as ≠ []) : bs ≠ [] := by
  cases alike with
  | nil => exact absurd rfl some
  | cons => exact List.cons_ne_nil _ _

/-- Nothing that stands at the end touches a value on its right. -/
theorem concat {a b : Token} (resembles : Resembles a b) (tokens : List Token) :
    Alike none (tokens ++ [a]) (tokens ++ [b]) := by
  induction tokens with
  | nil => exact .cons resembles (fun starts => by cases starts) .nil
  | cons token rest ih => exact .cons ⟨rfl, rfl, rfl⟩ (fun _ => rfl) ih

end Alike

mutual

theorem SubstitutionPhrase.alike {next : Option Token} {ts us : List Token} {node : Node} :
    SubstitutionPhrase ts node → Alike next ts us → SubstitutionPhrase us node
  | .name mark name, alike => by
    obtain ⟨opening, _, rfl, sameOpening, alike⟩ := alike.of_cons
    obtain ⟨named, rfl, sameName⟩ := alike.of_single
    rw [sameName.value]
    exact .name (sameOpening.isMark _ ▸ mark) (sameName.kind ▸ name)
  | .subshell mark opens phrase closes, alike => by
    obtain ⟨opening, _, rfl, sameOpening, alike⟩ := alike.of_cons
    obtain ⟨paren, _, rfl, sameParen, alike⟩ := alike.of_cons
    obtain ⟨body, _, rfl, alikeBody, alike⟩ := alike.of_append
    obtain ⟨closing, rfl, sameClosing⟩ := alike.of_single
    exact .subshell (sameOpening.isMark _ ▸ mark) (sameParen.isMark _ ▸ opens)
      (phrase.alike alikeBody) (sameClosing.isMark _ ▸ closes)

theorem InterpolationsPhrase.alike {next : Option Token} {ts us : List Token} {parts : List Node} :
    InterpolationsPhrase ts parts → Alike next ts us → InterpolationsPhrase us parts
  | .nil, alike => by
    cases alike
    exact .nil
  | .cons phrase fragment phrases, alike => by
    obtain ⟨inner, _, rfl, alikeInner, alike⟩ := alike.of_append
    obtain ⟨text, rest, rfl, sameText, alike⟩ := alike.of_cons
    rw [sameText.value]
    exact .cons (phrase.alike alikeInner) (sameText.kind ▸ fragment) (phrases.alike alike)

theorem QuotePhrase.alike {next : Option Token} {ts us : List Token} {node : Node} :
    QuotePhrase ts node → Alike next ts us → QuotePhrase us node
  | .plain opens fragment closes, alike => by
    obtain ⟨opening, _, rfl, sameOpening, alike⟩ := alike.of_cons
    obtain ⟨text, _, rfl, sameText, alike⟩ := alike.of_cons
    obtain ⟨closing, rfl, sameClosing⟩ := alike.of_single
    rw [sameText.value, sameOpening.value]
    refine .plain (sameOpening.isSymbol _ ▸ opens) (sameText.kind ▸ fragment) ?_
    rwa [← sameClosing.isSymbol, ← sameOpening.value]
  | .mixed opens fragment phrases nonempty closes, alike => by
    obtain ⟨opening, _, rfl, sameOpening, alike⟩ := alike.of_cons
    obtain ⟨text, _, rfl, sameText, alike⟩ := alike.of_cons
    obtain ⟨inner, _, rfl, alikeInner, alike⟩ := alike.of_append
    obtain ⟨closing, rfl, sameClosing⟩ := alike.of_single
    rw [sameText.value, sameOpening.value]
    refine .mixed (sameOpening.isSymbol _ ▸ opens) (sameText.kind ▸ fragment)
      (phrases.alike alikeInner) nonempty ?_
    rwa [← sameClosing.isSymbol, ← sameOpening.value]

theorem ValuePhrase.alike {next : Option Token} {ts us : List Token} {node : Node} :
    ValuePhrase ts node → Alike next ts us → ValuePhrase us node
  | .word isWord, alike => by
    obtain ⟨token, rfl, same⟩ := alike.of_single
    rw [same.value]
    exact .word (same.isWord ▸ isWord)
  | .wildcard kind, alike => by
    obtain ⟨token, rfl, same⟩ := alike.of_single
    rw [same.value]
    exact .wildcard (same.kind ▸ kind)
  | .substitution phrase, alike => .substitution (phrase.alike alike)
  | .quote phrase, alike => .quote (phrase.alike alike)

theorem AssignmentPhrase.alike {next after : Option Token} {ts us : List Token} {node : Node} :
    AssignmentPhrase ts after node → Alike next ts us → Milder next after →
    AssignmentPhrase us after node
  | .bare word assigned nothing, alike, milder => by
    obtain ⟨name, _, rfl, sameName, alike⟩ := alike.of_cons
    obtain ⟨sign, rest, rfl, sameSign, right, nothingLeft⟩ := alike.of_sign
    cases nothingLeft
    rw [sameName.value]
    refine .bare (sameName.kind ▸ word) (sameSign.assigns ▸ assigned) fun value => nothing ?_
    exact ⟨right (milder.1 value.2) ▸ value.1, value.2⟩
  | .valued word assigned joined phrase, alike, _ => by
    obtain ⟨name, _, rfl, sameName, alike⟩ := alike.of_cons
    obtain ⟨sign, rest, rfl, sameSign, right, alikeValue⟩ := alike.of_sign
    have touches : sign.joinedRight := by
      obtain ⟨first, others, rfl, starts, _⟩ := phrase.exists_first
      exact right starts ▸ joined
    rw [sameName.value]
    exact .valued (sameName.kind ▸ word) (sameSign.assigns ▸ assigned) touches
      (phrase.alike alikeValue)

theorem RedirectPhrase.alike {next : Option Token} {ts us : List Token} {node : Node} :
    RedirectPhrase ts node → Alike next ts us → RedirectPhrase us node
  | .mk redirects phrase, alike => by
    obtain ⟨operator, _, rfl, same, alike⟩ := alike.of_cons
    rw [same.value]
    exact .mk (same.isSymbol _ ▸ redirects) (phrase.alike alike)

theorem LeadingPhrase.alike {next after : Option Token} {ts us : List Token}
    {redirects assignments : List Node} :
    LeadingPhrase ts after redirects assignments → Alike next ts us → Milder next after →
    LeadingPhrase us after redirects assignments
  | .nil, alike, _ => by
    cases alike
    exact .nil
  | .assignment phrase named phrases, alike, milder => by
    obtain ⟨first, rest, rfl, alikeFirst, alike⟩ := alike.of_append
    have assignment := phrase.alike alikeFirst (milder.or _)
    exact .assignment (assignment.milder (alike.milder _)) named (phrases.alike alike milder)
  | .redirect phrase phrases, alike, milder => by
    obtain ⟨first, rest, rfl, alikeFirst, alike⟩ := alike.of_append
    exact .redirect (phrase.alike alikeFirst) (phrases.alike alike milder)

theorem HeadPhrase.alike {next after : Option Token} {ts us : List Token} {node : Node} :
    HeadPhrase ts after node → Alike next ts us → HeadPhrase us after node
  | .word isWord alone, alike => by
    obtain ⟨token, rfl, same⟩ := alike.of_single
    rw [same.value]
    refine .word (same.isWord ▸ isWord) fun named => alone ?_
    rwa [same.kind, same.value]
  | .substitution phrase, alike => .substitution (phrase.alike alike)

theorem ArgumentPhrase.alike {next after : Option Token} {ts us : List Token} {node : Node} :
    ArgumentPhrase ts after node → Alike next ts us → Milder next after →
    ArgumentPhrase us after node
  | .assignment phrase, alike, milder => .assignment (phrase.alike alike milder)
  | .sign mark, alike, _ => by
    obtain ⟨token, rfl, same⟩ := alike.of_single
    rw [same.value]
    exact .sign (same.isMark _ ▸ mark)
  | .value phrase alone, alike, _ => by
    refine .value (phrase.alike alike) ?_
    rintro ⟨⟨word, rfl, literal⟩, assigned⟩
    obtain ⟨first, rest, rfl, _⟩ := phrase.exists_first
    obtain ⟨other, others, same, resembles, alike⟩ := alike.of_cons
    obtain ⟨rfl, rfl⟩ := List.cons.inj same
    cases alike
    exact alone ⟨⟨first, rfl, resembles.kind ▸ literal⟩, assigned⟩

theorem TrailingPhrase.alike {next : Option Token} {ts us : List Token}
    {args redirects : List Node} :
    TrailingPhrase ts args redirects → Alike next ts us → TrailingPhrase us args redirects
  | .nil, alike => by
    cases alike
    exact .nil
  | .argument phrase phrases, alike => by
    obtain ⟨first, rest, rfl, alikeFirst, alike⟩ := alike.of_append
    have argument := phrase.alike alikeFirst (.at_end _)
    have milder := alike.milder none
    simp only [Option.or_none] at milder
    exact .argument (argument.milder milder) (phrases.alike alike)
  | .redirect phrase phrases, alike => by
    obtain ⟨first, rest, rfl, alikeFirst, alike⟩ := alike.of_append
    exact .redirect (phrase.alike alikeFirst) (phrases.alike alike)

theorem CommandPhrase.alike {next : Option Token} {ts us : List Token} {node : Node} :
    CommandPhrase ts node → Alike next ts us → CommandPhrase us node
  | .headed leading head trailing, alike => by
    obtain ⟨first, _, rfl, alikeLeading, alike⟩ := alike.of_append
    obtain ⟨second, third, rfl, alikeHead, alikeTrailing⟩ := alike.of_append
    have some := Option.isSome_iff_ne_none.mpr (mt List.head?_eq_none_iff.mp head.ne_nil)
    rw [List.head?_append, Option.or_assoc, Option.or_of_isSome some] at alikeLeading
    have leading' := leading.alike alikeLeading ⟨id, id⟩
    have milderHead := alikeHead.milder none
    have milderTrailing := alikeTrailing.milder none
    simp only [Option.or_none] at milderHead milderTrailing
    exact .headed (leading'.milder milderHead) ((head.alike alikeHead).milder milderTrailing)
      (trailing.alike alikeTrailing)
  | .headless leading nonempty, alike =>
    .headless (leading.alike alike .none) (alike.ne_nil nonempty)

theorem StagesPhrase.alike {next : Option Token} {ts us : List Token} {stages : List Node} :
    StagesPhrase ts stages → Alike next ts us → StagesPhrase us stages
  | .nil, alike => by
    cases alike
    exact .nil
  | .cons mark phrase phrases, alike => by
    obtain ⟨bar, _, rfl, same, alike⟩ := alike.of_cons
    obtain ⟨first, rest, rfl, alikeFirst, alike⟩ := alike.of_append
    exact .cons (same.isMark _ ▸ mark) (phrase.alike alikeFirst) (phrases.alike alike)

theorem PipelinePhrase.alike {next : Option Token} {ts us : List Token} {node : Node} :
    PipelinePhrase ts node → Alike next ts us → PipelinePhrase us node
  | .mk phrase phrases, alike => by
    obtain ⟨first, rest, rfl, alikeFirst, alike⟩ := alike.of_append
    exact .mk (phrase.alike alikeFirst) (phrases.alike alike)

theorem TailPhrase.alike {next : Option Token} {ts us : List Token} {items : List Node} :
    TailPhrase ts items → Alike next ts us → TailPhrase us items
  | .nil, alike => by
    cases alike
    exact .nil
  | .trailing mark, alike => by
    obtain ⟨separator, rfl, same⟩ := alike.of_single
    exact .trailing (same.isMark _ ▸ mark)
  | .cons mark phrase phrases, alike => by
    obtain ⟨separator, _, rfl, same, alike⟩ := alike.of_cons
    obtain ⟨first, rest, rfl, alikeFirst, alike⟩ := alike.of_append
    exact .cons (same.isMark _ ▸ mark) (phrase.alike alikeFirst) (phrases.alike alike)

theorem ListPhrase.alike {next : Option Token} {ts us : List Token} {node : Node} :
    ListPhrase ts node → Alike next ts us → ListPhrase us node
  | .single phrase tail, alike => by
    obtain ⟨first, rest, rfl, alikeFirst, alike⟩ := alike.of_append
    exact .single (phrase.alike alikeFirst) (tail.alike alike)
  | .sequence phrase tail, alike => by
    obtain ⟨first, rest, rfl, alikeFirst, alike⟩ := alike.of_append
    exact .sequence (phrase.alike alikeFirst) (tail.alike alike)

end

end ShellLine.Grammar
