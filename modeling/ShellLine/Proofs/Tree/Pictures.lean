import ShellLine.Proofs.Tree.Stacks
import ShellLine.Proofs.Tree.Walk
import ShellLine.Tree.Equality

/-! # Pictures tell trees apart

A node is drawn as its parts under its label. No caption begins with another one, so that the label
tells the class of a node and its text, and with the parts of a stack different trees have different
drawings: `drawing_injective`. Pictures are drawings as one text, which can be cut into its lines
again if no text in the tree has a newline: `format_unambiguous`.
-/

namespace ShellLine

namespace Node

open Drawing

/-! ## Labels and parts -/

/-- What the label of a node starts with, for each class. -/
def caption : Node → String
  | .literal _ => "LITERAL: "
  | .wildcard _ => "WILDCARD: "
  | .identifier _ => "IDENT: "
  | .string _ => "STRING: "
  | .subshell _ => "SUBSHELL"
  | .quote .. => "QUOTE "
  | .redirect .. => "REDIRECT "
  | .assign .. => "ASSIGN: "
  | .command .. => "COMMAND"
  | .pipe .. => "PIPE"
  | .sequence _ => "SEQUENCE"
  | .bare => "UNKNOWN: ASTNode"

/-- The first line of a node: its caption and its own text. -/
def label (node : Node) : String :=
  node.caption ++ node.text?.getD ""

/-- What stands under the label of a node. -/
def parts : Node → List Drawing
  | .subshell body => [body.drawing]
  | .quote _ parts => parts.map drawing
  | .redirect _ target => [target.drawing]
  | .assign _ value => value.toList.map drawing
  | .command name args redirects assignments =>
    optionalBlock "ASSIGNMENTS" (assignments.map drawing) ++
      name.elim ["NO NAME"] drawing ::
        (optionalBlock "REDIRECTS" (redirects.map drawing) ++ [block "ARGS" (args.map drawing)])
  | .pipe left right => left.stageDrawings ++ [right.drawing]
  | .sequence items => items.map drawing
  | _ => []

/-- The captions of all classes and of the sections of a command. -/
def captions : List String :=
  ["LITERAL: ", "WILDCARD: ", "IDENT: ", "STRING: ", "SUBSHELL", "QUOTE ", "REDIRECT ", "ASSIGN: ",
    "COMMAND", "PIPE", "SEQUENCE", "UNKNOWN: ASTNode", "NO NAME", "ASSIGNMENTS", "REDIRECTS",
    "ARGS"]

theorem prefixFree_captions : PrefixFree captions := by decide

theorem caption_mem (node : Node) : node.caption ∈ captions := by
  cases node <;> simp [caption, captions]

theorem stageDrawings_ne_nil (node : Node) : node.stageDrawings ≠ [] := by
  cases node with
  | command name => cases name <;> simp [stageDrawings]
  | _ => simp [stageDrawings]

/-- A node is drawn as its parts under its label. -/
theorem drawing_eq (node : Node) : node.drawing = block node.label node.parts := by
  rw [drawing]
  cases node with
  | pipe left right =>
    obtain ⟨first, rest, stages⟩ := List.exists_cons_of_ne_nil left.stageDrawings_ne_nil
    obtain ⟨second, more, others⟩ :=
      List.exists_cons_of_ne_nil
        (List.append_ne_nil_of_right_ne_nil rest (List.cons_ne_nil right.drawing []))
    have all : left.stageDrawings ++ [right.drawing] = first :: second :: more := by
      rw [stages, List.cons_append, others]
    rw [stageDrawings, ← drawing, all, parts, all]
    rfl
  | quote mark parts =>
    rw [stageDrawings, drawingAll_eq_map]
    rfl
  | assign name value =>
    rw [stageDrawings]
    cases value <;> rfl
  | command name args redirects assignments =>
    cases name <;>
      rw [stageDrawings, drawingAll_eq_map, drawingAll_eq_map, drawingAll_eq_map, parts,
        List.append_assoc, List.append_assoc] <;>
      rfl
  | sequence items =>
    rw [stageDrawings, drawingAll_eq_map]
    rfl
  | _ =>
    rw [stageDrawings]
    rfl

theorem drawing_ne_nil (node : Node) : node.drawing ≠ [] := by
  rw [drawing_eq]
  exact List.cons_ne_nil _ _

theorem proper_map_drawing (nodes : List Node) : Proper (nodes.map drawing) := by
  intro part member
  obtain ⟨node, _, rfl⟩ := List.mem_map.mp member
  exact node.drawing_ne_nil

/-- Only a pipe has more than one stage. -/
theorem stageDrawings_eq (node : Node) :
    (∃ left right, node = .pipe left right) ∨ node.stageDrawings = [node.drawing] := by
  cases node with
  | pipe left right => exact .inl ⟨left, right, rfl⟩
  | command name => cases name <;> exact .inr rfl
  | _ => exact .inr rfl

theorem proper_stageDrawings (node : Node) : Proper node.stageDrawings := by
  induction node using Node.induction with
  | step node ih =>
    rcases node.stageDrawings_eq with ⟨left, right, rfl⟩ | single
    · rw [stageDrawings]
      exact List.forall_mem_append.mpr
        ⟨ih left List.mem_cons_self, proper_map_drawing [right]⟩
    · rw [single]
      exact proper_map_drawing [node]

theorem proper_optionalBlock (label : String) (sections : List Drawing) :
    Proper (optionalBlock label sections) := by
  intro part member
  unfold optionalBlock at member
  split at member
  case isTrue => cases member
  case isFalse =>
    rw [List.mem_singleton.mp member]
    exact List.cons_ne_nil _ _

theorem proper_parts (node : Node) : Proper node.parts := by
  cases node with
  | subshell body => exact proper_map_drawing [body]
  | quote mark parts => exact proper_map_drawing parts
  | redirect op target => exact proper_map_drawing [target]
  | assign name value => exact proper_map_drawing value.toList
  | command name args redirects assignments =>
    have head : name.elim ["NO NAME"] drawing ≠ [] := by
      cases name with
      | none => exact List.cons_ne_nil _ _
      | some node => exact node.drawing_ne_nil
    simp only [parts, Proper, List.forall_mem_append, List.forall_mem_cons]
    exact ⟨proper_optionalBlock _ _, head, proper_optionalBlock _ _, List.cons_ne_nil _ _,
      List.forall_mem_nil _⟩
  | pipe left right =>
    exact List.forall_mem_append.mpr ⟨proper_stageDrawings left, proper_map_drawing [right]⟩
  | sequence items => exact proper_map_drawing items
  | _ => exact List.forall_mem_nil _

/-! ## Different trees -/

/-- Drawings of nodes of which each can be told from all others. -/
theorem map_drawing_inj {nodes nodes' : List Node}
    (distinct : ∀ node ∈ nodes, ∀ other : Node, node.drawing = other.drawing → node = other)
    (same : nodes.map drawing = nodes'.map drawing) : nodes = nodes' := by
  induction nodes generalizing nodes' with
  | nil => exact (List.map_eq_nil_iff.mp same.symm).symm
  | cons node rest ih =>
    cases nodes' with
    | nil => cases same
    | cons node' rest' =>
      obtain ⟨head, tail⟩ := List.cons_eq_cons.mp same
      rw [List.forall_mem_cons] at distinct
      rw [distinct.1 node' head, ih distinct.2 tail]

/-- Nodes with the same label are of the same class and have the same text. -/
theorem label_inj {a b : Node} (same : a.label = b.label) :
    a.caption = b.caption ∧ a.text?.getD "" = b.text?.getD "" :=
  prefixFree_captions.cancel a.caption_mem b.caption_mem same

/-- The sections of a command have captions that no node has. -/
theorem label_ne_section (node : Node) {caption : String}
    (known : caption ∈ ["NO NAME", "ASSIGNMENTS", "REDIRECTS", "ARGS"]) : node.label ≠ caption := by
  intro same
  have member : caption ∈ captions := List.mem_append_right (captions.take 12) known
  have labels : node.caption ++ node.text?.getD "" = caption ++ "" := by
    rw [String.append_empty]
    exact same
  obtain ⟨equal, -⟩ := prefixFree_captions.cancel node.caption_mem member labels
  subst equal
  cases node <;> simp [Node.caption] at known

/-- The line that stands for the name of a command is the caption of no section. -/
theorem head?_name_ne (name : Option Node) {caption : String}
    (known : caption ∈ ["ASSIGNMENTS", "REDIRECTS", "ARGS"]) :
    (name.elim ["NO NAME"] drawing).head? ≠ some caption := by
  cases name with
  | none =>
    have apart : "NO NAME" ∉ ["ASSIGNMENTS", "REDIRECTS", "ARGS"] := by decide
    intro same
    exact apart (Option.some.inj same ▸ known)
  | some node =>
    intro same
    rw [Option.elim_some, drawing_eq] at same
    exact node.label_ne_section (List.mem_cons_of_mem _ known) (Option.some.inj same)

theorem name_inj {name name' : Option Node}
    (distinct : ∀ node ∈ name, ∀ other : Node, node.drawing = other.drawing → node = other)
    (same : name.elim ["NO NAME"] drawing = name'.elim ["NO NAME"] drawing) : name = name' := by
  have named (node : Node) : node.drawing ≠ ["NO NAME"] := by
    intro equal
    rw [drawing_eq] at equal
    exact node.label_ne_section List.mem_cons_self (List.cons_eq_cons.mp equal).1
  cases name with
  | none =>
    cases name' with
    | none => rfl
    | some node' => exact absurd same.symm (named node')
  | some node =>
    cases name' with
    | none => exact absurd same (named node)
    | some node' => rw [distinct node rfl node' same]

/-- The sections of a command are told apart by their captions. -/
theorem parts_command_inj {name name' : Option Node}
    {args args' redirects redirects' assignments assignments' : List Node}
    (same : (command name args redirects assignments).parts =
      (command name' args' redirects' assignments').parts) :
    name.elim ["NO NAME"] drawing = name'.elim ["NO NAME"] drawing ∧
      args.map drawing = args'.map drawing ∧ redirects.map drawing = redirects'.map drawing ∧
      assignments.map drawing = assignments'.map drawing := by
  have proper := proper_map_drawing
  have noRedirects (args : List Drawing) : (block "ARGS" args).head? ≠ some "REDIRECTS" := by
    simp [block]
  obtain ⟨sameAssignments, sameName, rest⟩ := optionalBlock_append_inj (proper assignments)
    (proper assignments') (head?_name_ne name (by decide)) (head?_name_ne name' (by decide)) same
  obtain ⟨sameRedirects, last, -⟩ := optionalBlock_append_inj (proper redirects)
    (proper redirects') (noRedirects _) (noRedirects _) rest
  exact ⟨sameName, (block_injective (proper args) (proper args') last).2, sameRedirects,
    sameAssignments⟩

/-- Different trees have different drawings, whatever their texts are. -/
theorem drawing_injective : Function.Injective drawing := by
  intro a
  induction a using Node.induction with
  | step a ih =>
    intro b same
    rw [drawing_eq, drawing_eq] at same
    obtain ⟨labels, parts⟩ := block_injective a.proper_parts b.proper_parts same
    obtain ⟨captions, texts⟩ := label_inj labels
    cases a with
    | literal text =>
      cases b with
      | literal text' => exact congrArg literal texts
      | _ => simp [caption] at captions
    | wildcard text =>
      cases b with
      | wildcard text' => exact congrArg wildcard texts
      | _ => simp [caption] at captions
    | identifier text =>
      cases b with
      | identifier text' => exact congrArg identifier texts
      | _ => simp [caption] at captions
    | string text =>
      cases b with
      | string text' => exact congrArg string texts
      | _ => simp [caption] at captions
    | subshell body =>
      cases b with
      | subshell body' =>
        rw [ih body List.mem_cons_self (List.singleton_inj.mp parts)]
      | _ => simp [caption] at captions
    | quote mark inner =>
      cases b with
      | quote mark' inner' =>
        obtain rfl : mark = mark' := texts
        obtain rfl : inner = inner' := map_drawing_inj ih parts
        rfl
      | _ => simp [caption] at captions
    | redirect op target =>
      cases b with
      | redirect op' target' =>
        obtain rfl : op = op' := texts
        rw [ih target List.mem_cons_self (List.singleton_inj.mp parts)]
      | _ => simp [caption] at captions
    | assign name value =>
      cases b with
      | assign name' value' =>
        obtain rfl : name = name' := texts
        have equal : value.toList = value'.toList := map_drawing_inj ih parts
        obtain rfl : value = value' := by simpa using congrArg List.head? equal
        rfl
      | _ => simp [caption] at captions
    | command name args redirects assignments =>
      cases b with
      | command name' args' redirects' assignments' =>
        obtain ⟨sameName, sameArgs, sameRedirects, sameAssignments⟩ := parts_command_inj parts
        simp only [children, List.forall_mem_append, Option.mem_toList] at ih
        obtain ⟨⟨⟨distinctAssignments, distinctName⟩, distinctArgs⟩, distinctRedirects⟩ := ih
        rw [name_inj distinctName sameName, map_drawing_inj distinctArgs sameArgs,
          map_drawing_inj distinctRedirects sameRedirects,
          map_drawing_inj distinctAssignments sameAssignments]
      | _ => simp [caption] at captions
    | pipe left right =>
      cases b with
      | pipe left' right' =>
        obtain ⟨stages, last⟩ := List.append_inj' parts rfl
        have sameLeft : left.drawing = left'.drawing := congrArg Drawing.pipeline stages
        rw [ih left List.mem_cons_self sameLeft,
          ih right (List.mem_cons_of_mem _ List.mem_cons_self) (List.singleton_inj.mp last)]
      | _ => simp [caption] at captions
    | sequence items =>
      cases b with
      | sequence items' =>
        obtain rfl : items = items' := map_drawing_inj ih parts
        rfl
      | _ => simp [caption] at captions
    | bare =>
      cases b with
      | bare => rfl
      | _ => simp [caption] at captions

/-! ## Pictures -/

/-- No text in the tree has a newline. -/
def InLine (node : Node) : Prop :=
  ∀ inner ∈ node.walk, ∀ text ∈ inner.text?, '\n' ∉ text.toList

theorem InLine.child {node child : Node} (inLine : node.InLine) (member : child ∈ node.children) :
    child.InLine := by
  intro inner visited
  have inside : inner ∈ node.walk := by
    rw [walk_eq]
    exact List.mem_cons_of_mem _ (List.mem_flatMap.mpr ⟨child, member, visited⟩)
  exact inLine inner inside

theorem InLine.label {node : Node} (inLine : node.InLine) : '\n' ∉ node.label.toList := by
  have plain : ∀ caption ∈ captions, '\n' ∉ caption.toList := by decide
  have visited : node ∈ node.walk := by
    rw [walk_eq]
    exact List.mem_cons_self
  have own : '\n' ∉ (node.text?.getD "").toList := by
    cases text : node.text? with
    | none => exact List.not_mem_nil
    | some text => exact inLine node visited _ text
  rw [Node.label, String.toList_append, List.mem_append]
  exact not_or.mpr ⟨plain _ node.caption_mem, own⟩

/-- Drawings of lines are made of drawings of lines. -/
theorem lined_parts {node : Node}
    (each : ∀ child ∈ node.children, ∀ stage ∈ child.stageDrawings, Lined stage) :
    ∀ part ∈ node.parts, Lined part := by
  have all {nodes : List Node}
      (each : ∀ child ∈ nodes, ∀ stage ∈ child.stageDrawings, Lined stage) :
      ∀ part ∈ nodes.map drawing, Lined part := by
    intro part member
    obtain ⟨child, inside, rfl⟩ := List.mem_map.mp member
    exact lined_pipeline (each child inside)
  cases node with
  | subshell body => exact all each
  | quote mark parts => exact all each
  | redirect op target => exact all each
  | assign name value => exact all each
  | sequence items => exact all each
  | pipe left right =>
    obtain ⟨stages, last⟩ := List.forall_mem_cons.mp each
    exact List.forall_mem_append.mpr ⟨stages, all last⟩
  | command name args redirects assignments =>
    simp only [children, List.forall_mem_append] at each
    obtain ⟨⟨⟨ofAssignments, ofName⟩, ofArgs⟩, ofRedirects⟩ := each
    have head : Lined (name.elim ["NO NAME"] drawing) := by
      cases name with
      | none => exact List.forall_mem_cons.mpr ⟨by decide, List.forall_mem_nil _⟩
      | some node => exact lined_pipeline (ofName node List.mem_cons_self)
    have redirected : ∀ part ∈ optionalBlock "REDIRECTS" (redirects.map drawing), Lined part :=
      lined_optionalBlock (by decide) (all ofRedirects)
    have argued : ∀ part ∈ [block "ARGS" (args.map drawing)], Lined part :=
      List.forall_mem_cons.mpr ⟨lined_block (by decide) (all ofArgs), List.forall_mem_nil _⟩
    refine List.forall_mem_append.mpr ⟨lined_optionalBlock (by decide) (all ofAssignments), ?_⟩
    exact List.forall_mem_cons.mpr ⟨head, List.forall_mem_append.mpr ⟨redirected, argued⟩⟩
  | _ => exact List.forall_mem_nil _

theorem InLine.stageDrawings {node : Node} (inLine : node.InLine) :
    ∀ stage ∈ node.stageDrawings, Lined stage := by
  induction node using Node.induction with
  | step node ih =>
    have each : ∀ child ∈ node.children, ∀ stage ∈ child.stageDrawings, Lined stage :=
      fun child member => ih child member (inLine.child member)
    have parts := lined_parts each
    rcases node.stageDrawings_eq with ⟨left, right, rfl⟩ | single
    · rw [Node.stageDrawings]
      exact parts
    · rw [single, drawing_eq]
      exact List.forall_mem_cons.mpr ⟨lined_block inLine.label parts, List.forall_mem_nil _⟩

/-- A picture shows a single tree. Whatever trees stand in the places of another one, if no text in
two trees has a newline and their pictures are the same, then so are the trees. -/
theorem format_unambiguous {a b : Node} (inLine : a.InLine) (inLine' : b.InLine)
    (same : a.format = b.format) : a = b ∧ (a.classified → a.same b) := by
  have lines : a.drawing = b.drawing :=
    intercalate_newline_inj a.drawing_ne_nil b.drawing_ne_nil (lined_pipeline inLine.stageDrawings)
      (lined_pipeline inLine'.stageDrawings) same
  obtain rfl := drawing_injective lines
  exact ⟨rfl, fun classified => by simp [Node.same, classified]⟩

/-- A pipe among the redirects of a command that has no name, all of it drawn as it stands. -/
theorem format_of_stages :
    let tree : Node := .sequence [.command none [.quote "'" []]
      [.pipe (.pipe (.literal "a") (.wildcard "*")) (.assign "x" none)] []]
    tree.InLine ∧ tree.format = "SEQUENCE\n└──COMMAND\n    ├──NO NAME\n    ├──REDIRECTS\n" ++
        "    │   └──PIPE\n    │       ├──LITERAL: a\n    │       ├──WILDCARD: *\n" ++
        "    │       └──ASSIGN: x\n    └──ARGS\n        └──QUOTE '" ∧
      tree.same tree := by
  intro tree
  have inLine : tree.InLine := by
    simp [InLine, tree, walk_eq, children, text?]
  exact ⟨inLine, by decide +kernel, (format_unambiguous inLine inLine rfl).2 rfl⟩

end Node

end ShellLine
