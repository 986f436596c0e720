import ShellLine.Proofs.Grammar.Acceptance
import ShellLine.Proofs.Grammar.WellFormed

/-! # The tokens of a tree

Every well-formed tree is written out as tokens that have it for a tree, so that the trees of the
parser are exactly the well-formed ones. A sign in a tree is written as a word, and the sign of an
assignment touches its value, so that no word of a command takes part in another.
-/

namespace ShellLine

open Alphabet

namespace Token

/-- A bare word. -/
def word (text : String) : Token :=
  ⟨.literal, text, none, false, false⟩

/-- The symbol with the given value. -/
def symbol (text : String) : Token :=
  ⟨.symbol, text, none, false, false⟩

/-- The text between two marks or substitutions of a quote. -/
def fragment (text : String) : Token :=
  ⟨.fragment, text, none, false, false⟩

/-- The sign of an assignment, which touches its value if there is one. -/
def sign (valued : Bool) : Token :=
  ⟨.symbol, String.singleton assign, none, true, valued⟩

end Token

namespace Node

open Token

/-- The tokens of a text with its marks around it. -/
def spellQuoted (text : List Char) : List Token :=
  [symbol (String.ofList (text.take 1)), fragment (String.ofList text.tail.dropLast),
    symbol (String.ofList (text.take 1))]

mutual

/-- The tokens of a tree. -/
def spell : Node → List Token
  | .literal text => [word text]
  | .wildcard text => [⟨.wildcard, text, none, false, false⟩]
  | .identifier text => [ofMark sigil, ⟨.identifier, text, none, false, false⟩]
  | .string text => spellQuoted text.toList
  | .subshell body => ofMark sigil :: ofMark openParen :: (spell body ++ [ofMark closeParen])
  | .quote mark parts => symbol mark :: (spellParts parts ++ [symbol mark])
  | .redirect op target => symbol op :: spell target
  | .assign name value => word name :: sign value.isSome :: spellOption value
  | .command name args redirects assignments =>
    spellAll assignments ++ spellAll redirects ++ (spellOption name ++ spellAll args)
  | .pipe left right => spell left ++ ofMark Alphabet.pipe :: spell right
  | .sequence [] => []
  | .sequence (first :: rest) => spell first ++ spellTail rest
  | .bare => []

/-- The tokens of trees that stand side by side. -/
def spellAll : List Node → List Token
  | [] => []
  | node :: rest => spell node ++ spellAll rest

/-- The tokens of the parts of a quote. -/
def spellParts : List Node → List Token
  | [] => []
  | .string text :: rest => fragment text :: spellParts rest
  | node :: rest => spell node ++ spellParts rest

/-- The tokens of pipelines, each after a semicolon. -/
def spellTail : List Node → List Token
  | [] => []
  | node :: rest => ofMark semicolon :: (spell node ++ spellTail rest)

/-- The tokens of a tree, if there is one. -/
def spellOption : Option Node → List Token
  | none => []
  | some node => spell node

end

end Node

namespace Grammar

open Token Node

/-! ## The tokens of a well-formed tree -/

theorem opensQuote_symbol {mark : Char} (member : mark ∈ quoteMarks) :
    (symbol (String.singleton mark)).isSymbol (quoteMarks.map String.singleton) :=
  opensQuote_iff.mpr ⟨rfl, mark, member, rfl⟩

theorem closesQuote_symbol (text : String) : (symbol text).isSymbol [text] := by
  simp [Token.isSymbol, symbol]

theorem assigns_sign (valued : Bool) : assigns (some (sign valued)) := by
  simp [assigns, sign, Token.isMark_iff]

/-- A text between two marks is taken apart again. -/
theorem spellQuoted_eq (mark : Char) (text : String) :
    spellQuoted (String.singleton mark ++ text ++ String.singleton mark).toList =
      [symbol (String.singleton mark), Token.fragment text, symbol (String.singleton mark)] := by
  have ends : String.ofList [mark] = String.singleton mark := by
    rw [String.singleton_eq_ofList]
  simp [spellQuoted, ends]

/-- A value does not begin like an assignment, or like the end of a group. -/
theorem ValuePhrase.opens {used : List Token} {node : Node} (phrase : ValuePhrase used node) :
    OpensPhrase used := by
  cases phrase with
  | word isWord =>
    refine ⟨_, _, rfl, fun _ _ => Bool.eq_false_iff.mpr fun found => ?_⟩
    simp [isWord_of_symbol (kind_of_isMark found)] at isWord
  | wildcard kind => exact ⟨_, _, rfl, by simp [Token.isMark, Token.isSymbol, kind]⟩
  | substitution phrase => exact phrase.opens
  | quote phrase =>
    obtain ⟨first, rest, rfl, opens⟩ := phrase.exists_mark
    refine ⟨first, rest, rfl, fun mark member => Bool.eq_false_iff.mpr fun found => ?_⟩
    have apart : mark ∉ quoteMarks := by
      simp only [List.mem_cons, List.not_mem_nil, or_false] at member
      rcases member with rfl | rfl <;> decide
    simp [not_opensQuote found apart] at opens

theorem OpensPhrase.assigns_head? {used : List Token} (opens : OpensPhrase used) :
    assigns used.head? = false := by
  obtain ⟨first, rest, rfl, apart⟩ := opens
  simp [assigns, apart assign (by simp)]

/-- Arguments that can stand before one another, and before nothing, can stand side by side. -/
theorem TrailingPhrase.of_args {args : List Node}
    (each : ∀ node ∈ args, OpensPhrase node.spell ∧
      ∀ next, assigns next = false → ArgumentPhrase node.spell next node) :
    TrailingPhrase (spellAll args) args [] ∧ assigns (spellAll args).head? = false := by
  induction args with
  | nil => exact ⟨.nil, rfl⟩
  | cons node rest ih =>
    rw [List.forall_mem_cons] at each
    obtain ⟨⟨opens, phrase⟩, others⟩ := each
    obtain ⟨phrases, apart⟩ := ih others
    exact ⟨.argument (phrase _ apart) phrases, (opens.append _).assigns_head?⟩

theorem LeadingPhrase.of_redirects {next : Option Token} {redirects : List Node}
    (each : ∀ node ∈ redirects, RedirectPhrase node.spell node) :
    LeadingPhrase (spellAll redirects) next redirects [] := by
  induction redirects with
  | nil => exact .nil
  | cons node rest ih =>
    rw [List.forall_mem_cons] at each
    exact .redirect each.1 (ih each.2)

theorem LeadingPhrase.of_nodes (next : Option Token) {leading : Bool} (leads : leading)
    {redirects assignments : List Node}
    (redirected : ∀ node ∈ redirects, RedirectPhrase node.spell node)
    (each : ∀ node ∈ assignments, ∃ name value, node = .assign name value ∧
      (leading → Text.isVariableName name) ∧ ∀ next, AssignmentPhrase node.spell next node) :
    LeadingPhrase (spellAll assignments ++ spellAll redirects) next redirects assignments := by
  induction assignments with
  | nil => exact .of_redirects redirected
  | cons node rest ih =>
    rw [List.forall_mem_cons] at each
    obtain ⟨⟨name, value, rfl, named, phrase⟩, others⟩ := each
    rw [spellAll, List.append_assoc]
    exact .assignment (phrase _) (named leads) (ih others)

theorem LeadingPhrase.ne_nil {used : List Token} {next : Option Token}
    {redirects assignments : List Node} : LeadingPhrase used next redirects assignments →
    redirects ++ assignments ≠ [] → used ≠ []
  | .nil, nonempty => absurd rfl nonempty
  | .assignment phrase _ _, _ => List.append_ne_nil_of_left_ne_nil phrase.ne_nil _
  | .redirect phrase _, _ => List.append_ne_nil_of_left_ne_nil phrase.ne_nil _

/-- Stages after stages. -/
theorem StagesPhrase.append {ts us : List Token} {first second : List Node}
    (phrases : StagesPhrase ts first) (more : StagesPhrase us second) :
    StagesPhrase (ts ++ us) (first ++ second) := by
  cases phrases with
  | nil => exact more
  | cons mark phrase phrases => simpa using StagesPhrase.cons mark phrase (phrases.append more)

/-- One more stage at the end of a pipeline. -/
theorem PipelinePhrase.concat {bar : Token} {ts us : List Token} {left right : Node}
    (mark : bar.isMark Alphabet.pipe) (last : CommandPhrase us right)
    (phrase : PipelinePhrase ts left) : PipelinePhrase (ts ++ bar :: us) (.pipe left right) := by
  cases phrase with
  | mk phrase phrases =>
    have stages := phrases.append (.cons mark last .nil)
    simpa [List.foldl_append] using PipelinePhrase.mk phrase stages

theorem TailPhrase.of_items {items : List Node}
    (each : ∀ node ∈ items, PipelinePhrase node.spell node) :
    TailPhrase (spellTail items) items := by
  induction items with
  | nil => exact .nil
  | cons node rest ih =>
    rw [List.forall_mem_cons] at each
    exact .cons (isMark_ofMark _ _) each.1 (ih each.2)

mutual

theorem SubstitutionTree.spelled {node : Node} :
    SubstitutionTree node → SubstitutionPhrase node.spell node
  | .identifier _ => .name (isMark_ofMark _ _) rfl
  | .subshell body => .subshell (isMark_ofMark _ _) (isMark_ofMark _ _) body.spelled
      (isMark_ofMark _ _)

theorem InterpolationTrees.spelled {parts : List Node} :
    InterpolationTrees parts → InterpolationsPhrase (spellParts parts) parts
  | .nil => .nil
  | .cons text inner parts => by
    have kind : (Token.fragment text).kind = .fragment := rfl
    have spelled := InterpolationsPhrase.cons inner.spelled kind parts.spelled
    cases inner <;> exact spelled

theorem ValueTree.spelled {node : Node} : ValueTree node → ValuePhrase node.spell node
  | .literal _ => .word rfl
  | .wildcard _ => .wildcard rfl
  | .substitution tree => .substitution tree.spelled
  | .string text member => by
    rw [spell, spellQuoted_eq]
    exact .quote (.plain (opensQuote_symbol member) rfl (closesQuote_symbol _))
  | .quote first member parts nonempty =>
    .quote (.mixed (opensQuote_symbol member) rfl parts.spelled nonempty (closesQuote_symbol _))

theorem AssignmentTree.spelled {leading : Bool} {node : Node} :
    AssignmentTree leading node → ∃ name value, node = .assign name value ∧
      (leading → Text.isVariableName name) ∧ ∀ next, AssignmentPhrase node.spell next node
  | .bare named => ⟨_, _, rfl, named, fun _ => .bare rfl (assigns_sign _) (by simp [sign])⟩
  | .valued named value =>
    ⟨_, _, rfl, named, fun _ => .valued rfl (assigns_sign _) rfl value.spelled⟩

theorem RedirectTree.spelled {node : Node} : RedirectTree node → RedirectPhrase node.spell node
  | .mk member target =>
    .mk (by simpa [symbol, Token.isSymbol] using .inr member) target.spelled

theorem ArgumentTree.spelled {node : Node} : ArgumentTree node → OpensPhrase node.spell ∧
    ∀ next, assigns next = false → ArgumentPhrase node.spell next node
  | .assignment tree => by
    obtain ⟨_, _, _, _, phrase⟩ := tree.spelled
    exact ⟨(phrase none).opens, fun next _ => .assignment (phrase next)⟩
  | .value tree =>
    ⟨tree.spelled.opens, fun _ apart => .value tree.spelled fun assigned => by
      simp [apart] at assigned⟩

theorem HeadTree.spelled {node : Node} : HeadTree node →
    ∀ next, assigns next = false → HeadPhrase node.spell next node
  | .literal _, _, apart => .word rfl (by simp [apart])
  | .substitution tree, _, _ => .substitution tree.spelled

theorem CommandTree.spelled {node : Node} : CommandTree node → CommandPhrase node.spell node
  | .headed head args redirects assignments => by
    obtain ⟨trailing, apart⟩ := TrailingPhrase.of_args fun node member => (args node member).spelled
    have leading := fun next => LeadingPhrase.of_nodes next rfl
      (fun node member => (redirects node member).spelled)
      fun node member => (assignments node member).spelled
    simpa [spell, spellOption] using
      CommandPhrase.headed (leading _) (head.spelled _ apart) trailing
  | .headless redirects assignments nonempty => by
    have leading := LeadingPhrase.of_nodes none rfl
      (fun node member => (redirects node member).spelled)
      fun node member => (assignments node member).spelled
    simpa [spell, spellOption, spellAll] using
      CommandPhrase.headless leading (leading.ne_nil nonempty)

theorem PipelineTree.spelled {node : Node} : PipelineTree node → PipelinePhrase node.spell node
  | .command tree => by simpa using PipelinePhrase.mk tree.spelled .nil
  | .pipe left right => left.spelled.concat (isMark_ofMark _ _) right.spelled

/-- The tokens of a well-formed tree are a phrase of it. -/
theorem ListTree.spelled {node : Node} : ListTree node → ListPhrase node.spell node
  | .pipeline tree => by simpa using ListPhrase.single tree.spelled .nil
  | @ListTree.sequence (first :: second :: rest) _ each => by
    have phrases := fun node member => (each node member).spelled
    rw [List.forall_mem_cons] at phrases
    exact .sequence phrases.1 (.of_items phrases.2)

end

end Grammar

open Grammar

/-- The trees of the parser are the well-formed ones, besides the empty list for comments alone. -/
theorem parse_range :
    (∀ tokens maxDepth tree, parse tokens maxDepth = .ok tree →
      ListTree tree ∨ tree = .sequence [] ∧ ∀ token ∈ tokens, token.kind = .comment) ∧
    ∀ tree, ListTree tree ∨ tree = .sequence [] →
      ∃ tokens, ∀ maxDepth : Int, tree.levels ≤ maxDepth → parse tokens maxDepth = .ok tree := by
  constructor
  · intro tokens maxDepth tree parsed
    by_cases kept : withoutComments tokens = []
    · refine .inr ⟨?_, by simpa [withoutComments, List.filter_eq_nil_iff] using kept⟩
      rw [parse_of_comments kept] at parsed
      split at parsed <;> cases parsed
      rfl
    · exact .inl ((parse_eq_ok_iff kept).mp parsed).1.wellFormed
  · rintro tree (formed | rfl)
    · refine ⟨tree.spell, fun maxDepth fits => ?_⟩
      have phrase := formed.spelled
      rw [parse_eq_ok_iff, phrase.withoutComments_eq]
      · exact ⟨phrase, by omega⟩
      · obtain ⟨first, rest, spelled, _⟩ := phrase.opens
        rw [phrase.withoutComments_eq, spelled]
        exact List.cons_ne_nil _ _
    · exact ⟨[⟨.comment, "#", none, false, false⟩], fun maxDepth _ =>
        parse_of_comments rfl maxDepth⟩

end ShellLine
