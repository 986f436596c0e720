import ShellLine.Text.Quoted
import ShellLine.Tree.Basic

/-! # Printed form of command trees

A tree is printed on one line as the application of its class to its parts, with texts in quoted
form. Two classes have a shorter form: a redirect is its operator before its target, and a list of
commands is `Seq` with semicolons. A command shows its redirects and assignments only where it has
some.
-/

namespace ShellLine.Node

open Text

/-- Printed nodes as a bracketed list. -/
def bracketed (printed : List String) : String :=
  "[" ++ ", ".intercalate printed ++ "]"

/-- A labelled list of printed nodes, left out when there are none. -/
def optionalField (label : String) (printed : List String) : String :=
  if printed.isEmpty then "" else ", " ++ label ++ "=" ++ bracketed printed

mutual

/-- The printed form of a tree. -/
def describe : Node → String
  | .literal text => "Literal(" ++ quoted text ++ ")"
  | .wildcard text => "Wildcard(" ++ quoted text ++ ")"
  | .identifier text => "Identifier(" ++ quoted text ++ ")"
  | .string text => "String(" ++ quoted text ++ ")"
  | .subshell body => "Subshell(" ++ describe body ++ ")"
  | .quote mark parts => "Quote(" ++ quoted mark ++ ", " ++ bracketed (describeAll parts) ++ ")"
  | .redirect op target => op ++ describe target
  | .assign name value => "Assign(" ++ quoted name ++ ", " ++ describeOption value ++ ")"
  | .command name args redirects assignments =>
    "Command(" ++ describeOption name ++ ", " ++ bracketed (describeAll args) ++
      optionalField "redirects" (describeAll redirects) ++
      optionalField "assignments" (describeAll assignments) ++ ")"
  | .pipe left right => "Pipe(" ++ describe left ++ ", " ++ describe right ++ ")"
  | .sequence items => "Seq(" ++ " ; ".intercalate (describeAll items) ++ ")"
  | .bare => "ASTNode()"

/-- The printed forms of trees. -/
def describeAll : List Node → List String
  | [] => []
  | node :: rest => describe node :: describeAll rest

/-- The printed form of an optional tree. -/
def describeOption : Option Node → String
  | none => "None"
  | some node => describe node

end

/-- Trees are printed one by one. -/
theorem describeAll_eq_map (nodes : List Node) : describeAll nodes = nodes.map describe := by
  induction nodes with
  | nil => rfl
  | cons node rest ih => rw [describeAll, ih, List.map_cons]

end ShellLine.Node
