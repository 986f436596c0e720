import ShellLine.Tree.Basic

/-! # Drawings of command trees

A tree is drawn with box characters, one line for each node and for each section of a command. A
drawing is the list of its lines. Under a label the drawings of the children are stacked: a
connector leads to the first line of each, and the lines below it are set in, behind a rule unless
it is the last.

The stages of a pipeline are the children of one label, however deep the pipes are nested to the
left. Texts stand in a drawing as they are, even with a newline in them.
-/

namespace ShellLine

/-- The lines of a picture. -/
abbrev Drawing := List String

namespace Drawing

/-- Leads to a child that others follow. -/
def branch : String := "├──"

/-- Leads to the last child. -/
def lastBranch : String := "└──"

/-- Sets in the lines below a child that others follow. -/
def rule : String := "│   "

/-- Sets in the lines below the last child. -/
def gap : String := "    "

/-- A drawing behind a connector, with its further lines set in. -/
def attach (connector inset : String) : Drawing → Drawing
  | [] => []
  | first :: rest => (connector ++ first) :: rest.map (inset ++ ·)

/-- Drawings stacked as children. -/
def stack : List Drawing → Drawing
  | [] => []
  | [last] => attach lastBranch gap last
  | child :: next :: rest => attach branch rule child ++ stack (next :: rest)

/-- A label over the drawings of the children. -/
def block (label : String) (parts : List Drawing) : Drawing :=
  label :: stack parts

/-- A block that is left out when it has no children. -/
def optionalBlock (label : String) (parts : List Drawing) : List Drawing :=
  if parts.isEmpty then [] else [block label parts]

/-- The drawing of a pipeline: its only stage, or all stages under one label. -/
def pipeline : List Drawing → Drawing
  | [stage] => stage
  | stages => block "PIPE" stages

end Drawing

namespace Node

open Drawing

mutual

/-- The drawings of the stages of a tree, from left to right; only a pipe has more than one. -/
def stageDrawings : Node → List Drawing
  | .literal text => [["LITERAL: " ++ text]]
  | .wildcard text => [["WILDCARD: " ++ text]]
  | .identifier text => [["IDENT: " ++ text]]
  | .string text => [["STRING: " ++ text]]
  | .subshell body => [block "SUBSHELL" [pipeline (stageDrawings body)]]
  | .quote mark parts => [block ("QUOTE " ++ mark) (drawingAll parts)]
  | .redirect op target => [block ("REDIRECT " ++ op) [pipeline (stageDrawings target)]]
  | .assign name value => [block ("ASSIGN: " ++ name) (drawingOption value)]
  | .command name args redirects assignments =>
    let head := match name with
      | none => ["NO NAME"]
      | some node => pipeline (stageDrawings node)
    [block "COMMAND" (optionalBlock "ASSIGNMENTS" (drawingAll assignments) ++ [head] ++
      optionalBlock "REDIRECTS" (drawingAll redirects) ++ [block "ARGS" (drawingAll args)])]
  | .pipe left right => stageDrawings left ++ [pipeline (stageDrawings right)]
  | .sequence items => [block "SEQUENCE" (drawingAll items)]
  | .bare => [["UNKNOWN: ASTNode"]]

/-- The drawings of trees. -/
def drawingAll : List Node → List Drawing
  | [] => []
  | node :: rest => pipeline (stageDrawings node) :: drawingAll rest

/-- The drawing of an optional tree. -/
def drawingOption : Option Node → List Drawing
  | none => []
  | some node => [pipeline (stageDrawings node)]

end

/-- The drawing of a tree. -/
def drawing (node : Node) : Drawing :=
  pipeline node.stageDrawings

/-- Trees are drawn one by one. -/
theorem drawingAll_eq_map (nodes : List Node) : drawingAll nodes = nodes.map drawing := by
  induction nodes with
  | nil => rfl
  | cons node rest ih => rw [drawingAll, ih, List.map_cons, drawing]

/-- The picture of a tree as one text, without a newline at its end. -/
def format (node : Node) : String :=
  "\n".intercalate node.drawing

/-- What is printed to show a tree. -/
def display (node : Node) : String :=
  node.format ++ "\n"

end Node

end ShellLine
