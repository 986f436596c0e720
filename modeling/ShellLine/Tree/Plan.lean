import ShellLine.Tree.Traversal

/-! # Execution plans

A plan collects what has to be run, looked up and expanded for a command tree, which capabilities
that takes, and an estimate of the effort. What it lists comes in the order of a walk, in which the
redirects of a command come last. The effort is a sum of half points: a point for each command and
each pipe, two for each subshell, and a half for each redirect.
-/

namespace ShellLine

/-- An effort, kept in half points. -/
structure Effort where
  halves : Nat
  /-- Whether half points were counted at all, even if they add up to whole ones. -/
  fractional : Bool
deriving DecidableEq, Repr, Inhabited

/-- An effort is written as a whole number unless half points were counted, and with one decimal
otherwise. -/
def Effort.describe (effort : Effort) : String :=
  if effort.fractional then
    toString (effort.halves / 2) ++ (if effort.halves % 2 = 0 then ".0" else ".5")
  else toString (effort.halves / 2)

/-- What it takes to run a command tree. -/
structure Plan where
  /-- The class of the whole tree. -/
  rootClass : String
  /-- The head words of the commands. -/
  commands : List String
  /-- The variables to be looked up. -/
  identifiers : List String
  /-- The patterns to be expanded. -/
  wildcards : List String
  requiresPipe : Bool
  requiresSubshell : Bool
  requiresRedirect : Bool
  nestingDepth : Nat
  effort : Effort
deriving DecidableEq, Repr, Inhabited

namespace Node

/-- The head word of a command that has a plain one. -/
def headWord? : Node → Option String
  | .command (some (.literal text)) _ _ _ => some text
  | _ => none

/-- The variable that a node looks up. -/
def lookedUp? : Node → Option String
  | .identifier text => some text
  | _ => none

/-- The pattern that a node expands. -/
def expanded? : Node → Option String
  | .wildcard text => some text
  | _ => none

/-- Whether a node is a pipe. -/
def isPipe : Node → Bool
  | .pipe .. => true
  | _ => false

/-- Whether a node is a subshell. -/
def isSubshell : Node → Bool
  | .subshell _ => true
  | _ => false

/-- Whether a node is a redirect. -/
def isRedirect : Node → Bool
  | .redirect .. => true
  | _ => false

/-- The half points that a node itself adds to the effort. -/
def ownHalves : Node → Nat
  | .command .. => 2
  | .pipe .. => 2
  | .subshell _ => 4
  | .redirect .. => 1
  | _ => 0

/-- The execution plan of a tree. -/
def plan (node : Node) : Plan :=
  let visited := node.walk
  { rootClass := node.className
    commands := visited.filterMap headWord?
    identifiers := visited.filterMap lookedUp?
    wildcards := visited.filterMap expanded?
    requiresPipe := visited.any isPipe
    requiresSubshell := visited.any isSubshell
    requiresRedirect := visited.any isRedirect
    nestingDepth := node.nestingDepth
    effort := ⟨(visited.map ownHalves).foldr (· + ·) 0, visited.any isRedirect⟩ }

end Node

end ShellLine
