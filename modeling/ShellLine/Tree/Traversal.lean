import ShellLine.Tree.Basic

/-! # Traversals of command trees

`walk` visits a tree, each node before its descendants and the children in the order of the fields
that hold them, and `nestingDepth` measures the longest chain of subshells. Both keep the trees that
are still to be visited on a worklist. A walk comes to the first child next, the measurement to the
last one.
-/

namespace ShellLine.Node

/-- Visits the trees of a worklist in order, each node before its children. -/
def walkAll : List Node → List Node
  | [] => []
  | node :: rest => node :: walkAll (node.children ++ rest)
termination_by nodes => sizeAll nodes
decreasing_by
  have := node.size_eq
  simp only [sizeAll_append, sizeAll]
  omega

/-- A node and all its descendants, each before its own descendants. A command comes before its
assignments, its name, its arguments and then its redirects, and so its redirects come last wherever
they stand in the line. -/
def walk (node : Node) : List Node :=
  walkAll [node]

/-- How much a node adds to the number of subshells around its children. -/
def ownDepth : Node → Nat
  | .subshell _ => 1
  | _ => 0

/-- The deepest nesting found from a worklist of trees that each lie within so many subshells. The
children of a tree are put on the worklist first to last, so that the last one is visited next. -/
def deepest (found : Nat) : List (Node × Nat) → Nat
  | [] => found
  | (node, outer) :: rest =>
    deepest (max found (outer + node.ownDepth))
      ((node.children.map fun child => (child, outer + node.ownDepth)).reverse ++ rest)
termination_by work => sizeAll (work.map (·.1))
decreasing_by
  have := node.size_eq
  simp only [List.map_append, List.map_reverse, List.map_map, Function.comp_def, List.map_id',
    sizeAll_append, sizeAll_reverse, List.map_cons, sizeAll]
  omega

/-- The length of the longest chain of nested subshells. -/
def nestingDepth (node : Node) : Nat :=
  deepest 0 [(node, 0)]

/-- Every node is visited once. -/
theorem length_walkAll (nodes : List Node) : (walkAll nodes).length = sizeAll nodes := by
  fun_induction walkAll nodes with
  | case1 => rfl
  | case2 node rest ih =>
    have := node.size_eq
    rw [sizeAll_append] at ih
    simp only [List.length_cons, sizeAll]
    omega

end ShellLine.Node
