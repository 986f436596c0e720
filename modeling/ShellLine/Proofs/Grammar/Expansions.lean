import ShellLine.Proofs.Grammar.Acceptance
import ShellLine.Proofs.Tree.Walk

/-! # What is expanded in a phrase

A walk visits the redirects of a command after its other parts, wherever they stand among them. So a
walk comes upon the names and patterns of a phrase in another order than the one they are written
in, and in that order where redirects are the last parts of commands. `ListPhrase.expands` says both.
-/

namespace ShellLine

open Alphabet

/-- What is expanded of a token itself. -/
def Token.expansion? (token : Token) : Option Expansion :=
  match token.kind with
  | .identifier => some (.name token.value)
  | .wildcard => some (.pattern token.value)
  | _ => none

namespace Grammar

/-! ## Redirects at the end -/

/-- Whether the next token, if there is one, starts an argument. -/
def startsArgument (next : Option Token) : Bool :=
  startsValue next || next.any (·.isMark assign)

/-- No other part of a command comes after a redirect. -/
def RedirectsLast (ts : List Token) : Prop :=
  ∀ before used after node, ts = before ++ (used ++ after) → RedirectPhrase used node →
    startsArgument after.head? = false

section RedirectsLast

variable {ts us : List Token} {next : Option Token}

theorem RedirectsLast.left (last : RedirectsLast (ts ++ us)) : RedirectsLast ts := by
  intro before used after node split phrase
  have none := last before used (after ++ us) node (by simp [split]) phrase
  cases after with
  | nil => rfl
  | cons => exact none

theorem RedirectsLast.right (last : RedirectsLast (ts ++ us)) : RedirectsLast us := by
  intro before used after node split phrase
  exact last (ts ++ before) used after node (by simp [split]) phrase

/-- Without redirects but for one at the end to a single token, redirects come last. -/
theorem redirectsLast_of_length (words : ∀ token ∈ ts, token.isSymbol redirectOperators = false)
    (short : us.length ≤ 2) : RedirectsLast (ts ++ us) := by
  rintro before used after node split ⟨operator, value⟩
  obtain ⟨first, rest, rfl⟩ := List.exists_cons_of_ne_nil value.ne_nil
  have lengths := congrArg List.length split
  simp only [List.length_append, List.length_cons] at lengths
  by_cases early : before.length < ts.length
  · have stands := congrArg (·[before.length]?) split
    simp only [List.getElem?_append_left early, List.cons_append, Nat.le_refl,
      List.getElem?_append_right, Nat.sub_self, List.getElem?_cons_zero] at stands
    rw [words _ (List.mem_of_getElem? stands)] at operator
    cases operator
  · obtain rfl : after = [] := List.length_eq_zero_iff.mp (by omega)
    rfl

theorem startsArgument_append (starts : startsArgument ts.head?) (us : List Token) :
    startsArgument (ts ++ us).head? := by
  cases ts with
  | nil => simp [startsArgument, startsValue] at starts
  | cons => exact starts

theorem AssignmentPhrase.starts {node : Node} (phrase : AssignmentPhrase ts next node) :
    startsArgument ts.head? := by
  cases phrase with
  | bare word => simp [startsArgument, startsValue, Token.isWord, word]
  | valued word => simp [startsArgument, startsValue, Token.isWord, word]

theorem ValuePhrase.starts {node : Node} (phrase : ValuePhrase ts node) :
    startsArgument ts.head? := by
  obtain ⟨first, rest, rfl, starts, _⟩ := phrase.exists_first
  simp [startsArgument, starts]

theorem ArgumentPhrase.starts {node : Node} (phrase : ArgumentPhrase ts next node) :
    startsArgument ts.head? := by
  cases phrase with
  | assignment phrase => exact phrase.starts
  | sign mark => simp [startsArgument, mark]
  | value phrase => exact phrase.starts

theorem HeadPhrase.starts {node : Node} (phrase : HeadPhrase ts next node) :
    startsArgument ts.head? := by
  cases phrase with
  | word isWord => exact ValuePhrase.starts (.word isWord)
  | substitution phrase => exact ValuePhrase.starts (.substitution phrase)

/-- Without redirects there are only assignments before the head. -/
theorem LeadingPhrase.starts {assignments : List Node} (starts : startsArgument us.head?) :
    LeadingPhrase ts next [] assignments → startsArgument (ts ++ us).head?
  | .nil => starts
  | .assignment phrase _ _ => startsArgument_append (startsArgument_append phrase.starts _) us

end RedirectsLast

/-- No redirect stands before the head. -/
theorem LeadingPhrase.redirects_eq_nil {ts us : List Token} {next : Option Token}
    {redirects assignments : List Node} (starts : startsArgument us.head?) :
    LeadingPhrase ts next redirects assignments → RedirectsLast (ts ++ us) → redirects = []
  | .nil, _ => rfl
  | .assignment _ _ phrases, last => by
    rw [List.append_assoc] at last
    exact phrases.redirects_eq_nil starts last.right
  | .redirect phrase phrases, last => by
    rw [List.append_assoc] at last
    obtain rfl := phrases.redirects_eq_nil starts last.right
    have ends := last [] _ _ _ rfl phrase
    rw [phrases.starts starts] at ends
    cases ends

/-- No assignment comes after a redirect. -/
theorem LeadingPhrase.assignments_eq_nil {ts : List Token} {next : Option Token}
    {redirects assignments : List Node} :
    LeadingPhrase ts next redirects assignments → RedirectsLast ts →
      startsArgument ts.head? = false → assignments = []
  | .nil, _, _ => rfl
  | .assignment phrase _ _, _, ends => by
    rw [startsArgument_append phrase.starts] at ends
    cases ends
  | .redirect phrase phrases, last, _ =>
    phrases.assignments_eq_nil last.right (last [] _ _ _ rfl phrase)

/-- No argument comes after a redirect. -/
theorem TrailingPhrase.args_eq_nil {ts : List Token} {args redirects : List Node} :
    TrailingPhrase ts args redirects → RedirectsLast ts → startsArgument ts.head? = false → args = []
  | .nil, _, _ => rfl
  | .argument phrase _, _, ends => by
    rw [startsArgument_append phrase.starts] at ends
    cases ends
  | .redirect phrase phrases, last, _ =>
    phrases.args_eq_nil last.right (last [] _ _ _ rfl phrase)

/-! ## The expansions of tokens -/

/-- The tokens have the given expansions, and have them in order where redirects come last. -/
structure Expands (ts : List Token) (found : List Expansion) : Prop where
  perm : found.Perm (ts.filterMap Token.expansion?)
  ordered : RedirectsLast ts → found = ts.filterMap Token.expansion?

section Expands

variable {ts us : List Token} {token : Token} {found more : List Expansion}

theorem expansion?_of_isSymbol {values : List String} (symbol : token.isSymbol values) :
    token.expansion? = none := by
  simp [Token.expansion?, kind_of_isSymbol symbol]

theorem expansion?_of_isWord (isWord : token.isWord) : token.expansion? = none := by
  simp only [Token.isWord, Bool.or_eq_true, beq_iff_eq] at isWord
  rcases isWord with kind | kind <;> simp [Token.expansion?, kind]

theorem expansion?_of_identifier (kind : token.kind = .identifier) :
    token.expansion? = some (.name token.value) := by
  simp [Token.expansion?, kind]

theorem expansion?_of_wildcard (kind : token.kind = .wildcard) :
    token.expansion? = some (.pattern token.value) := by
  simp [Token.expansion?, kind]

theorem expansion?_of_literal (kind : token.kind = .literal) : token.expansion? = none := by
  simp [Token.expansion?, kind]

theorem expansion?_of_fragment (kind : token.kind = .fragment) : token.expansion? = none := by
  simp [Token.expansion?, kind]

theorem expansion?_of_assigns (assigned : assigns (some token)) : token.expansion? = none := by
  simp only [assigns, Option.any_some, Bool.and_eq_true] at assigned
  exact expansion?_of_isSymbol assigned.1

theorem expands_nil : Expands [] [] :=
  ⟨.nil, fun _ => rfl⟩

theorem expands_singleton {expansion : Expansion} (itself : token.expansion? = some expansion) :
    Expands [token] [expansion] :=
  ⟨by simp [itself], by simp [itself]⟩

theorem Expands.cons (expands : Expands ts found) (none : token.expansion? = none) :
    Expands (token :: ts) found := by
  have same : (token :: ts).filterMap Token.expansion? = ts.filterMap Token.expansion? := by
    rw [List.filterMap_cons, none]
  refine ⟨same ▸ expands.perm, fun last => ?_⟩
  have later : RedirectsLast ([token] ++ ts) := last
  rw [same]
  exact expands.ordered later.right

theorem Expands.append (expands : Expands ts found) (later : Expands us more) :
    Expands (ts ++ us) (found ++ more) := by
  refine ⟨?_, fun last => ?_⟩
  · rw [List.filterMap_append]
    exact expands.perm.append later.perm
  · rw [List.filterMap_append, expands.ordered last.left, later.ordered last.right]

/-- Of two pieces one part each may be put at the end, the first one past the rest of the second
piece. That makes no difference where one of these two is empty. -/
theorem Expands.move {first second moved last : List Expansion}
    (expands : Expands ts (first ++ moved)) (later : Expands us (second ++ last))
    (apart : RedirectsLast (ts ++ us) → moved = [] ∨ second = []) :
    Expands (ts ++ us) (first ++ (second ++ (moved ++ last))) := by
  have together := expands.append later
  constructor
  · have swap : (second ++ (moved ++ last)).Perm (moved ++ (second ++ last)) :=
      List.perm_append_comm_assoc second moved last
    rw [List.append_assoc] at together
    exact (swap.append_left first).trans together.perm
  · intro redirectsLast
    rw [← together.ordered redirectsLast]
    rcases apart redirectsLast with rfl | rfl <;> simp

end Expands

/-! ## The expansions of phrases -/

mutual

theorem SubstitutionPhrase.expands {used : List Token} {node : Node} :
    SubstitutionPhrase used node → Expands used node.expansions
  | .name mark kind => by
    have name := expands_singleton (expansion?_of_identifier kind)
    simpa using name.cons (expansion?_of_isSymbol mark)
  | .subshell mark opens phrase closes => by
    have closing := expands_nil.cons (expansion?_of_isSymbol closes)
    have group := (phrase.expands.append closing).cons (expansion?_of_isSymbol opens)
    simpa using group.cons (expansion?_of_isSymbol mark)

theorem InterpolationsPhrase.expands {used : List Token} {parts : List Node} :
    InterpolationsPhrase used parts → Expands used (parts.flatMap Node.expansions)
  | .nil => expands_nil
  | .cons phrase text phrases => by
    simpa using phrase.expands.append (phrases.expands.cons (expansion?_of_fragment text))

theorem QuotePhrase.expands {used : List Token} {node : Node} :
    QuotePhrase used node → Expands used node.expansions
  | .plain opens text closes => by
    have closing := expands_nil.cons (expansion?_of_isSymbol closes)
    simpa using (closing.cons (expansion?_of_fragment text)).cons (expansion?_of_isSymbol opens)
  | .mixed opens text phrases _ closes => by
    have closing := expands_nil.cons (expansion?_of_isSymbol closes)
    have quoted := (phrases.expands.append closing).cons (expansion?_of_fragment text)
    simpa using quoted.cons (expansion?_of_isSymbol opens)

theorem ValuePhrase.expands {used : List Token} {node : Node} :
    ValuePhrase used node → Expands used node.expansions
  | .word isWord => by simpa using expands_nil.cons (expansion?_of_isWord isWord)
  | .wildcard kind => by simpa using expands_singleton (expansion?_of_wildcard kind)
  | .substitution phrase => phrase.expands
  | .quote phrase => phrase.expands

theorem AssignmentPhrase.expands {used : List Token} {next : Option Token} {node : Node} :
    AssignmentPhrase used next node → Expands used node.expansions
  | .bare word assigned _ => by
    have sign := expands_nil.cons (expansion?_of_assigns assigned)
    simpa using sign.cons (expansion?_of_literal word)
  | .valued word assigned _ phrase => by
    have signed := phrase.expands.cons (expansion?_of_assigns assigned)
    simpa using signed.cons (expansion?_of_literal word)

theorem RedirectPhrase.expands {used : List Token} {node : Node} :
    RedirectPhrase used node → Expands used node.expansions
  | .mk redirects phrase => by
    simpa using phrase.expands.cons (expansion?_of_isSymbol redirects)

theorem LeadingPhrase.expands {used : List Token} {next : Option Token}
    {redirects assignments : List Node} :
    LeadingPhrase used next redirects assignments →
      Expands used (assignments.flatMap Node.expansions ++ redirects.flatMap Node.expansions)
  | .nil => expands_nil
  | .assignment phrase _ phrases => by
    rw [List.flatMap_cons, List.append_assoc]
    exact phrase.expands.append phrases.expands
  | .redirect phrase phrases => by
    rw [List.flatMap_cons]
    have moved : Expands _ ([] ++ Node.expansions _) := phrase.expands
    refine moved.move phrases.expands fun last => .inr ?_
    rw [phrases.assignments_eq_nil last.right (last [] _ _ _ rfl phrase), List.flatMap_nil]

theorem HeadPhrase.expands {used : List Token} {next : Option Token} {node : Node} :
    HeadPhrase used next node → Expands used node.expansions
  | .word isWord _ => by simpa using expands_nil.cons (expansion?_of_isWord isWord)
  | .substitution phrase => phrase.expands

theorem ArgumentPhrase.expands {used : List Token} {next : Option Token} {node : Node} :
    ArgumentPhrase used next node → Expands used node.expansions
  | .assignment phrase => phrase.expands
  | .sign mark => by simpa using expands_nil.cons (expansion?_of_isSymbol mark)
  | .value phrase _ => phrase.expands

theorem TrailingPhrase.expands {used : List Token} {args redirects : List Node} :
    TrailingPhrase used args redirects →
      Expands used (args.flatMap Node.expansions ++ redirects.flatMap Node.expansions)
  | .nil => expands_nil
  | .argument phrase phrases => by
    rw [List.flatMap_cons, List.append_assoc]
    exact phrase.expands.append phrases.expands
  | .redirect phrase phrases => by
    rw [List.flatMap_cons]
    have moved : Expands _ ([] ++ Node.expansions _) := phrase.expands
    refine moved.move phrases.expands fun last => .inr ?_
    rw [phrases.args_eq_nil last.right (last [] _ _ _ rfl phrase), List.flatMap_nil]

theorem CommandPhrase.expands {used : List Token} {node : Node} :
    CommandPhrase used node → Expands used node.expansions
  | .headed leading head trailing => by
    have later := head.expands.append trailing.expands
    rw [← List.append_assoc] at later
    have moved := leading.expands.move later fun last => .inl ?_
    · simpa using moved
    · rw [leading.redirects_eq_nil (startsArgument_append head.starts _) last, List.flatMap_nil]
  | .headless leading _ => by simpa using leading.expands

theorem StagesPhrase.expands {used : List Token} {stages : List Node} :
    StagesPhrase used stages → Expands used (stages.flatMap Node.expansions)
  | .nil => expands_nil
  | .cons mark phrase phrases =>
    (phrase.expands.append phrases.expands).cons (expansion?_of_isSymbol mark)

theorem PipelinePhrase.expands {used : List Token} {node : Node} :
    PipelinePhrase used node → Expands used node.expansions
  | .mk phrase phrases => by
    rw [Node.expansions_foldl_pipe]
    exact phrase.expands.append phrases.expands

theorem TailPhrase.expands {used : List Token} {items : List Node} :
    TailPhrase used items → Expands used (items.flatMap Node.expansions)
  | .nil => expands_nil
  | .trailing mark => expands_nil.cons (expansion?_of_isSymbol mark)
  | .cons mark phrase phrases =>
    (phrase.expands.append phrases.expands).cons (expansion?_of_isSymbol mark)

/-- The expansions of a list are those of its tokens, and in order where redirects come last. -/
theorem ListPhrase.expands {used : List Token} {node : Node} :
    ListPhrase used node → Expands used node.expansions
  | .single phrase tail => by simpa using phrase.expands.append tail.expands
  | .sequence phrase tail => by
    rw [Node.expansions_sequence]
    exact phrase.expands.append tail.expands

end

end Grammar

end ShellLine
