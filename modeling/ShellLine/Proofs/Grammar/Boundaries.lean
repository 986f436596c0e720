import ShellLine.Proofs.Grammar.Levels
import ShellLine.Proofs.Reading.Marks

/-! # Where phrases begin and end

The first token of a phrase tells which phrase it is, and the token after a phrase whether it goes
on. `Ends` names the marks that may follow commands, pipelines and lists. A phrase that is relative
to the next token stays one in front of a `Milder` one.
-/

namespace ShellLine.Grammar

open Alphabet

/-! ## First tokens -/

/-- No other mark starts a value. -/
theorem not_startsValue_of_isMark {token : Token} {mark : Char} (found : token.isMark mark)
    (noSigil : mark ≠ sigil) (noQuote : mark ∉ quoteMarks) : ¬ startsValue (some token) := by
  have symbol := kind_of_isMark found
  simp [startsValue, isWord_of_symbol symbol, symbol, isMark_of_isMark found noSigil,
    not_opensQuote found noQuote]

theorem SubstitutionPhrase.exists_sigil {used : List Token} {node : Node} :
    SubstitutionPhrase used node → ∃ first rest, used = first :: rest ∧ first.isMark sigil
  | .name mark _ => ⟨_, _, rfl, mark⟩
  | .subshell mark .. => ⟨_, _, rfl, mark⟩

theorem QuotePhrase.exists_mark {used : List Token} {node : Node} :
    QuotePhrase used node → ∃ first rest, used = first :: rest ∧
      first.isSymbol (quoteMarks.map String.singleton)
  | .plain opens _ _ => ⟨_, _, rfl, opens⟩
  | .mixed opens _ _ _ _ => ⟨_, _, rfl, opens⟩

/-- A literal word in front is all there is of a value. -/
theorem ValuePhrase.exists_first {used : List Token} {node : Node} :
    ValuePhrase used node → ∃ first rest, used = first :: rest ∧ startsValue (some first) ∧
      (first.kind = .literal → rest = [])
  | .word isWord => ⟨_, [], rfl, by simp [startsValue, isWord], fun _ => rfl⟩
  | .wildcard kind => ⟨_, [], rfl, by simp [startsValue, kind], fun _ => rfl⟩
  | .substitution phrase => by
    obtain ⟨first, rest, rfl, mark⟩ := phrase.exists_sigil
    exact ⟨first, rest, rfl, by simp [startsValue, mark], by simp [kind_of_isMark mark]⟩
  | .quote phrase => by
    obtain ⟨first, rest, rfl, opens⟩ := phrase.exists_mark
    exact ⟨first, rest, rfl, by simp [startsValue, opens], by simp [kind_of_isSymbol opens]⟩

/-- A token that neither assigns nor closes a group comes first. -/
def OpensPhrase (used : List Token) : Prop :=
  ∃ first rest, used = first :: rest ∧ ∀ mark ∈ [assign, closeParen], first.isMark mark = false

theorem OpensPhrase.ne_nil {used : List Token} (opens : OpensPhrase used) : used ≠ [] := by
  obtain ⟨first, rest, rfl, _⟩ := opens
  exact List.cons_ne_nil first rest

theorem OpensPhrase.append {used : List Token} (opens : OpensPhrase used) (later : List Token) :
    OpensPhrase (used ++ later) := by
  obtain ⟨first, rest, rfl, apart⟩ := opens
  exact ⟨first, rest ++ later, rfl, apart⟩

theorem SubstitutionPhrase.opens {used : List Token} {node : Node}
    (phrase : SubstitutionPhrase used node) : OpensPhrase used := by
  obtain ⟨first, rest, rfl, found⟩ := phrase.exists_sigil
  refine ⟨first, rest, rfl, fun mark member => isMark_of_isMark found ?_⟩
  rintro rfl
  exact absurd member (by decide)

theorem AssignmentPhrase.opens {used : List Token} {next : Option Token} {node : Node} :
    AssignmentPhrase used next node → OpensPhrase used
  | .bare word .. => ⟨_, _, rfl, by simp [Token.isMark, Token.isSymbol, word]⟩
  | .valued word .. => ⟨_, _, rfl, by simp [Token.isMark, Token.isSymbol, word]⟩

theorem RedirectPhrase.opens {used : List Token} {node : Node} :
    RedirectPhrase used node → OpensPhrase used
  | .mk redirects _ => ⟨_, _, rfl, fun mark member => Bool.eq_false_iff.mpr fun found => by
      have apart : String.singleton mark ∉ redirectOperators := by
        simp only [List.mem_cons, List.not_mem_nil, or_false] at member
        rcases member with rfl | rfl <;> decide
      rw [isSymbol_of_isMark found (by decide) apart] at redirects
      cases redirects⟩

theorem LeadingPhrase.opens {used : List Token} {next : Option Token}
    {redirects assignments : List Node} :
    LeadingPhrase used next redirects assignments → used ≠ [] → OpensPhrase used
  | .nil, nonempty => absurd rfl nonempty
  | .assignment phrase _ _, _ => phrase.opens.append _
  | .redirect phrase _, _ => phrase.opens.append _

theorem HeadPhrase.opens {used : List Token} {next : Option Token} {node : Node} :
    HeadPhrase used next node → OpensPhrase used
  | .word isWord _ => ⟨_, _, rfl, fun _ _ => Bool.eq_false_iff.mpr fun found => by
      simp [isWord_of_symbol (kind_of_isMark found)] at isWord⟩
  | .substitution phrase => phrase.opens

theorem CommandPhrase.opens {used : List Token} {node : Node} :
    CommandPhrase used node → OpensPhrase used
  | @CommandPhrase.headed ts us vs _ _ _ _ _ leading head _ => by
    by_cases empty : ts = []
    · subst empty
      exact head.opens.append vs
    · exact (leading.opens empty).append _
  | .headless leading nonempty => leading.opens nonempty

theorem PipelinePhrase.opens {used : List Token} {node : Node} :
    PipelinePhrase used node → OpensPhrase used
  | .mk phrase _ => phrase.opens.append _

theorem ListPhrase.opens {used : List Token} {node : Node} :
    ListPhrase used node → OpensPhrase used
  | .single phrase _ => phrase.opens.append _
  | .sequence phrase _ => phrase.opens.append _

/-! ## What may follow a word -/

/-- What comes after has no part in the words before it, or next has one, too. -/
def Milder (next after : Option Token) : Prop :=
  (startsValue after → startsValue next) ∧ (assigns after → assigns next)

theorem Milder.none {next : Option Token} : Milder next none :=
  ⟨by simp [startsValue], by simp [assigns]⟩

/-- Only what comes first matters. -/
theorem Milder.or {next after : Option Token} (milder : Milder next after) (rest : List Token) :
    Milder (rest.head?.or next) (rest.head?.or after) := by
  cases rest with
  | nil => exact milder
  | cons => exact ⟨id, id⟩

/-- What comes after the rest does not matter if it is left out. -/
theorem Milder.at_end {next : Option Token} (rest : List Token) :
    Milder (rest.head?.or next) rest.head? := by
  have milder : Milder next Option.none := .none
  simpa using milder.or rest

theorem AssignmentPhrase.milder {used : List Token} {next after : Option Token} {node : Node}
    (milder : Milder next after) :
    AssignmentPhrase used next node → AssignmentPhrase used after node
  | .bare word assigned nothing =>
    .bare word assigned fun value => nothing ⟨value.1, milder.1 value.2⟩
  | .valued word assigned joined phrase => .valued word assigned joined phrase

theorem ArgumentPhrase.milder {used : List Token} {next after : Option Token} {node : Node}
    (milder : Milder next after) : ArgumentPhrase used next node → ArgumentPhrase used after node
  | .assignment phrase => .assignment (phrase.milder milder)
  | .sign mark => .sign mark
  | .value phrase alone => .value phrase fun assigned => alone ⟨assigned.1, milder.2 assigned.2⟩

theorem HeadPhrase.milder {used : List Token} {next after : Option Token} {node : Node}
    (milder : Milder next after) : HeadPhrase used next node → HeadPhrase used after node
  | .word isWord alone =>
    .word isWord fun named => alone ⟨named.1, named.2.1, milder.2 named.2.2⟩
  | .substitution phrase => .substitution phrase

theorem LeadingPhrase.milder {next after : Option Token} (milder : Milder next after) :
    {used : List Token} → {redirects assignments : List Node} →
    LeadingPhrase used next redirects assignments → LeadingPhrase used after redirects assignments
  | _, _, _, .nil => .nil
  | _, _, _, .assignment phrase named phrases =>
    .assignment (phrase.milder (milder.or _)) named (phrases.milder milder)
  | _, _, _, .redirect phrase phrases => .redirect phrase (phrases.milder milder)

/-! ## What may follow commands, pipelines and lists -/

/-- Nothing comes next, or one of the given marks. -/
def Ends (marks : List Char) (next : Option Token) : Prop :=
  ∀ token ∈ next, ∃ mark ∈ marks, token.isMark mark

theorem Ends.mono {marks more : List Char} {next : Option Token} (ends : Ends marks next)
    (among : marks ⊆ more) : Ends more next := by
  intro token present
  obtain ⟨mark, member, found⟩ := ends token present
  exact ⟨mark, among member, found⟩

/-- What ends a command neither assigns to the word before it nor starts a value. -/
theorem Ends.apart {next : Option Token} (ends : Ends [pipe, semicolon, closeParen] next) :
    assigns next = false ∧ startsValue next = false := by
  cases next with
  | none => exact ⟨rfl, rfl⟩
  | some token =>
    obtain ⟨mark, member, found⟩ := ends token rfl
    have apart : mark ≠ assign ∧ mark ≠ sigil ∧ mark ∉ quoteMarks := by
      simp only [List.mem_cons, List.not_mem_nil, or_false] at member
      rcases member with rfl | rfl | rfl <;> decide
    refine ⟨by simp [assigns, isMark_of_isMark found apart.1], ?_⟩
    exact Bool.eq_false_iff.mpr (not_startsValue_of_isMark found apart.2.1 apart.2.2)

theorem Ends.milder {next after : Option Token} (ends : Ends [pipe, semicolon, closeParen] after) :
    Milder next after :=
  ⟨by simp [ends.apart], by simp [ends.apart]⟩

/-- What ends a command is no more than nothing. -/
theorem Ends.milder_or {next : Option Token} (ends : Ends [pipe, semicolon, closeParen] next)
    (rest : List Token) : Milder rest.head? (rest.head?.or next) := by
  have milder : Milder Option.none next := ends.milder
  simpa using milder.or rest

/-- A pipe comes after a command, or what ends the pipeline. -/
theorem StagesPhrase.ends {used later : List Token} {stages : List Node}
    (phrase : StagesPhrase used stages) (ends : Ends [semicolon, closeParen] later.head?) :
    Ends [pipe, semicolon, closeParen] (used ++ later).head? := by
  cases phrase with
  | nil => exact ends.mono (by simp)
  | cons mark _ _ => simpa [Ends] using .inl mark

/-- A semicolon comes after a pipeline, or what ends the list. -/
theorem TailPhrase.ends {used later : List Token} {items : List Node}
    (phrase : TailPhrase used items) (ends : Ends [closeParen] later.head?) :
    Ends [semicolon, closeParen] (used ++ later).head? := by
  cases phrase with
  | nil => exact ends.mono (by simp)
  | trailing mark => simpa [Ends] using .inl mark
  | cons mark _ _ => simpa [Ends] using .inl mark

/-- The tokens of a list are those of its pipelines, and so are its levels. -/
theorem ListPhrase.exists_items {used : List Token} {node : Node}
    (phrase : ListPhrase used node) :
    ∃ ts us first rest, used = ts ++ us ∧ PipelinePhrase ts first ∧ TailPhrase us rest ∧
      node = listNode first rest ∧ node.levels = max first.levels (Node.levelsAll rest) := by
  cases phrase with
  | single phrase tail => exact ⟨_, _, _, [], rfl, phrase, tail, rfl, by simp [Node.levelsAll]⟩
  | sequence phrase tail => exact ⟨_, _, _, _, rfl, phrase, tail, rfl, rfl⟩

end ShellLine.Grammar
