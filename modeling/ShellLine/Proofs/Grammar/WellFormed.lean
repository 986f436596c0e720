import ShellLine.Proofs.Grammar.Phrase
import ShellLine.Proofs.Reading.Marks

/-! # Well-formed trees

The shape of the trees of shell lines, said without tokens. `ListPhrase.wellFormed` says that the
grammar yields no other trees.
-/

namespace ShellLine.Grammar

open Alphabet

mutual

/-- The name of a variable, or a list in a subshell. -/
inductive SubstitutionTree : Node → Prop
  | identifier (text : String) : SubstitutionTree (.identifier text)
  | subshell {body : Node} : ListTree body → SubstitutionTree (.subshell body)

/-- Substitutions, each with the text after it. -/
inductive InterpolationTrees : List Node → Prop
  | nil : InterpolationTrees []
  | cons {inner : Node} {parts : List Node} (text : String) :
      SubstitutionTree inner → InterpolationTrees parts →
      InterpolationTrees (inner :: .string text :: parts)

/-- A word, a substitution or quoted text. Text alone has its marks around it, text with
substitutions begins and ends with a text. -/
inductive ValueTree : Node → Prop
  | literal (text : String) : ValueTree (.literal text)
  | wildcard (text : String) : ValueTree (.wildcard text)
  | substitution {node : Node} : SubstitutionTree node → ValueTree node
  | string {mark : Char} (text : String) : mark ∈ quoteMarks →
      ValueTree (.string (String.singleton mark ++ text ++ String.singleton mark))
  | quote {mark : Char} {parts : List Node} (first : String) : mark ∈ quoteMarks →
      InterpolationTrees parts → parts ≠ [] →
      ValueTree (.quote (String.singleton mark) (.string first :: parts))

/-- A name with a value or without one. In front of a command the name has to be that of a
variable. -/
inductive AssignmentTree : Bool → Node → Prop
  | bare {leading : Bool} {name : String} : (leading → Text.isVariableName name) →
      AssignmentTree leading (.assign name none)
  | valued {leading : Bool} {name : String} {value : Node} :
      (leading → Text.isVariableName name) → ValueTree value →
      AssignmentTree leading (.assign name (some value))

/-- A redirect operator with a value. -/
inductive RedirectTree : Node → Prop
  | mk {op : String} {target : Node} : op ∈ redirectOperators → ValueTree target →
      RedirectTree (.redirect op target)

/-- An assignment to any word, or a value. -/
inductive ArgumentTree : Node → Prop
  | assignment {node : Node} : AssignmentTree false node → ArgumentTree node
  | value {node : Node} : ValueTree node → ArgumentTree node

/-- A word or a substitution. -/
inductive HeadTree : Node → Prop
  | literal (text : String) : HeadTree (.literal text)
  | substitution {node : Node} : SubstitutionTree node → HeadTree node

/-- A command, which without a name has no arguments, but something else. -/
inductive CommandTree : Node → Prop
  | headed {name : Node} {args redirects assignments : List Node} : HeadTree name →
      (∀ node ∈ args, ArgumentTree node) → (∀ node ∈ redirects, RedirectTree node) →
      (∀ node ∈ assignments, AssignmentTree true node) →
      CommandTree (.command (some name) args redirects assignments)
  | headless {redirects assignments : List Node} : (∀ node ∈ redirects, RedirectTree node) →
      (∀ node ∈ assignments, AssignmentTree true node) → redirects ++ assignments ≠ [] →
      CommandTree (.command none [] redirects assignments)

/-- Commands nested to the left. -/
inductive PipelineTree : Node → Prop
  | command {node : Node} : CommandTree node → PipelineTree node
  | pipe {left right : Node} : PipelineTree left → CommandTree right →
      PipelineTree (.pipe left right)

/-- A pipeline, or several in a sequence. -/
inductive ListTree : Node → Prop
  | pipeline {node : Node} : PipelineTree node → ListTree node
  | sequence {items : List Node} : 2 ≤ items.length → (∀ node ∈ items, PipelineTree node) →
      ListTree (.sequence items)

end

/-- A command in front of the stages of a pipeline is a pipeline. -/
theorem PipelineTree.foldl {stages : List Node} (each : ∀ stage ∈ stages, CommandTree stage)
    {first : Node} (tree : PipelineTree first) : PipelineTree (stages.foldl .pipe first) := by
  induction stages generalizing first with
  | nil => exact tree
  | cons stage rest ih =>
    rw [List.forall_mem_cons] at each
    exact ih each.2 (.pipe tree each.1)

mutual

theorem SubstitutionPhrase.wellFormed {used : List Token} {node : Node} :
    SubstitutionPhrase used node → SubstitutionTree node
  | .name _ _ => .identifier _
  | .subshell _ _ phrase _ => .subshell phrase.wellFormed

theorem InterpolationsPhrase.wellFormed {used : List Token} {parts : List Node} :
    InterpolationsPhrase used parts → InterpolationTrees parts
  | .nil => .nil
  | .cons phrase _ phrases => .cons _ phrase.wellFormed phrases.wellFormed

theorem QuotePhrase.wellFormed {used : List Token} {node : Node} :
    QuotePhrase used node → ValueTree node
  | .plain opens _ _ => by
    obtain ⟨_, mark, member, value⟩ := opensQuote_iff.mp opens
    rw [value]
    exact .string _ member
  | .mixed opens _ phrases nonempty _ => by
    obtain ⟨_, mark, member, value⟩ := opensQuote_iff.mp opens
    rw [value]
    exact .quote _ member phrases.wellFormed nonempty

theorem ValuePhrase.wellFormed {used : List Token} {node : Node} :
    ValuePhrase used node → ValueTree node
  | .word _ => .literal _
  | .wildcard _ => .wildcard _
  | .substitution phrase => .substitution phrase.wellFormed
  | .quote phrase => phrase.wellFormed

theorem AssignmentPhrase.wellFormed {used : List Token} {next : Option Token} {node : Node}
    {leading : Bool} : AssignmentPhrase used next node →
    (leading → ∀ name ∈ node.text?, Text.isVariableName name) → AssignmentTree leading node
  | .bare _ _ _, named => .bare fun leads => named leads _ rfl
  | .valued _ _ _ phrase, named => .valued (fun leads => named leads _ rfl) phrase.wellFormed

theorem RedirectPhrase.wellFormed {used : List Token} {node : Node} :
    RedirectPhrase used node → RedirectTree node
  | .mk redirects phrase =>
    .mk (by simpa [Token.isSymbol, kind_of_isSymbol redirects, redirectOperators] using redirects)
      phrase.wellFormed

theorem LeadingPhrase.wellFormed {used : List Token} {next : Option Token}
    {redirects assignments : List Node} : LeadingPhrase used next redirects assignments →
    (∀ node ∈ redirects, RedirectTree node) ∧ ∀ node ∈ assignments, AssignmentTree true node
  | .nil => ⟨nofun, nofun⟩
  | .assignment phrase named phrases => by
    obtain ⟨redirects, assignments⟩ := phrases.wellFormed
    have tree : AssignmentTree true _ :=
      phrase.wellFormed fun _ _ equal => by cases equal; exact named
    exact ⟨redirects, List.forall_mem_cons.mpr ⟨tree, assignments⟩⟩
  | .redirect phrase phrases => by
    obtain ⟨redirects, assignments⟩ := phrases.wellFormed
    exact ⟨List.forall_mem_cons.mpr ⟨phrase.wellFormed, redirects⟩, assignments⟩

theorem HeadPhrase.wellFormed {used : List Token} {next : Option Token} {node : Node} :
    HeadPhrase used next node → HeadTree node
  | .word _ _ => .literal _
  | .substitution phrase => .substitution phrase.wellFormed

theorem ArgumentPhrase.wellFormed {used : List Token} {next : Option Token} {node : Node} :
    ArgumentPhrase used next node → ArgumentTree node
  | .assignment phrase => .assignment (phrase.wellFormed nofun)
  | .sign _ => .value (.literal _)
  | .value phrase _ => .value phrase.wellFormed

theorem TrailingPhrase.wellFormed {used : List Token} {args redirects : List Node} :
    TrailingPhrase used args redirects →
    (∀ node ∈ args, ArgumentTree node) ∧ ∀ node ∈ redirects, RedirectTree node
  | .nil => ⟨nofun, nofun⟩
  | .argument phrase phrases => by
    obtain ⟨args, redirects⟩ := phrases.wellFormed
    exact ⟨List.forall_mem_cons.mpr ⟨phrase.wellFormed, args⟩, redirects⟩
  | .redirect phrase phrases => by
    obtain ⟨args, redirects⟩ := phrases.wellFormed
    exact ⟨args, List.forall_mem_cons.mpr ⟨phrase.wellFormed, redirects⟩⟩

theorem CommandPhrase.wellFormed {used : List Token} {node : Node} :
    CommandPhrase used node → CommandTree node
  | .headed leading head trailing => by
    obtain ⟨leadingRedirects, assignments⟩ := leading.wellFormed
    obtain ⟨args, trailingRedirects⟩ := trailing.wellFormed
    refine .headed head.wellFormed args ?_ assignments
    exact List.forall_mem_append.mpr ⟨leadingRedirects, trailingRedirects⟩
  | .headless leading nonempty => by
    obtain ⟨redirects, assignments⟩ := leading.wellFormed
    refine .headless redirects assignments ?_
    cases leading with
    | nil => exact absurd rfl nonempty
    | assignment _ _ _ => exact List.append_ne_nil_of_right_ne_nil _ (List.cons_ne_nil _ _)
    | redirect _ _ => exact List.cons_ne_nil _ _

theorem StagesPhrase.wellFormed {used : List Token} {stages : List Node} :
    StagesPhrase used stages → ∀ stage ∈ stages, CommandTree stage
  | .nil => nofun
  | .cons _ phrase phrases => List.forall_mem_cons.mpr ⟨phrase.wellFormed, phrases.wellFormed⟩

theorem PipelinePhrase.wellFormed {used : List Token} {node : Node} :
    PipelinePhrase used node → PipelineTree node
  | .mk phrase phrases => .foldl phrases.wellFormed (.command phrase.wellFormed)

theorem TailPhrase.wellFormed {used : List Token} {items : List Node} :
    TailPhrase used items → ∀ item ∈ items, PipelineTree item
  | .nil => nofun
  | .trailing _ => nofun
  | .cons _ phrase phrases => List.forall_mem_cons.mpr ⟨phrase.wellFormed, phrases.wellFormed⟩

/-- The tree of a phrase is well formed. -/
theorem ListPhrase.wellFormed {used : List Token} {node : Node} :
    ListPhrase used node → ListTree node
  | .single phrase _ => .pipeline phrase.wellFormed
  | .sequence phrase tail =>
    .sequence (by simp) (List.forall_mem_cons.mpr ⟨phrase.wellFormed, tail.wellFormed⟩)

end

end ShellLine.Grammar
