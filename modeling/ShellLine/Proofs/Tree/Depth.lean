import ShellLine.Tree.Traversal

/-! # Nesting as recursion

The nesting of a tree is measured on a worklist of trees, each with the number of subshells around
it. A worklist is measured piece by piece, so that the nesting of a tree is what its root adds to
that of its deepest child: `nestingDepth_eq`.
-/

namespace ShellLine.Node

section Worklist

variable (found bound more : Nat) (first second : List (Node × Nat))

/-- A worklist is measured from front to back. -/
theorem deepest_append :
    deepest found (first ++ second) = deepest (deepest found first) second := by
  fun_induction deepest found first with
  | case1 found => rfl
  | case2 found node outer rest ih =>
    rw [List.append_assoc] at ih
    rw [List.cons_append, deepest, ih]

/-- What was found before is one of the depths to choose from. -/
theorem deepest_max : deepest (max bound found) first = max bound (deepest found first) := by
  fun_induction deepest found first with
  | case1 found => rw [deepest]
  | case2 found node outer rest ih => rw [deepest, Nat.max_assoc, ih]

/-- A worklist is measured apart from what was found before. -/
theorem deepest_eq_max : deepest found first = max found (deepest 0 first) := by
  rw [← deepest_max, Nat.max_zero]

/-- The order of a worklist does not matter. -/
theorem deepest_perm {first second : List (Node × Nat)} (perm : first.Perm second) :
    deepest found first = deepest found second := by
  induction perm generalizing found with
  | nil => rfl
  | @cons item rest other _ ih =>
    change deepest found ([item] ++ rest) = deepest found ([item] ++ other)
    rw [deepest_append, ih, deepest_append]
  | swap a b rest =>
    have apart (a b : Node × Nat) : deepest found (a :: b :: rest) =
        max (max (max found (deepest 0 [a])) (deepest 0 [b])) (deepest 0 rest) := by
      change deepest found ([a] ++ ([b] ++ rest)) = _
      rw [deepest_append, deepest_append, deepest_eq_max _ rest, deepest_eq_max _ [b],
        deepest_eq_max found [a]]
    rw [apart, apart, Nat.max_right_comm found]
  | trans _ _ ih ih' => rw [ih, ih']

/-- More subshells around everything make everything that much deeper. -/
theorem deepest_add :
    deepest (found + more) (first.map fun item => (item.1, item.2 + more)) =
      deepest found first + more := by
  fun_induction deepest found first with
  | case1 found => rw [List.map_nil, deepest]
  | case2 found node outer rest ih =>
    have deeper : max (found + more) (outer + more + node.ownDepth) =
        max found (outer + node.ownDepth) + more := by omega
    have shifted : (node.children.map fun child => (child, outer + more + node.ownDepth)) =
        (node.children.map fun child => (child, outer + node.ownDepth)).map
          fun item => (item.1, item.2 + more) := by
      rw [List.map_map]
      refine List.map_congr_left fun child _ => ?_
      exact Prod.ext rfl (Nat.add_right_comm outer more node.ownDepth)
    rw [List.map_cons, deepest, deeper, shifted, ← List.map_reverse, ← List.map_append, ih]

end Worklist

/-- The deepest nesting in a list of trees. -/
def deepestOf (nodes : List Node) : Nat :=
  deepest 0 (nodes.map fun node => (node, 0))

section Recursion

variable (text : String) (node : Node) (nodes more : List Node)

@[simp]
theorem deepestOf_nil : deepestOf [] = 0 := by
  rw [deepestOf, List.map_nil, deepest]

@[simp]
theorem deepestOf_cons : deepestOf (node :: nodes) = max node.nestingDepth (deepestOf nodes) := by
  rw [deepestOf, List.map_cons, ← List.singleton_append, deepest_append, ← nestingDepth, deepestOf,
    ← deepest_max, Nat.max_zero]

@[simp]
theorem deepestOf_append :
    deepestOf (nodes ++ more) = max (deepestOf nodes) (deepestOf more) := by
  induction nodes with
  | nil => rw [List.nil_append, deepestOf_nil, Nat.zero_max]
  | cons node rest ih => rw [List.cons_append, deepestOf_cons, ih, deepestOf_cons, Nat.max_assoc]

theorem deepestOf_eq_foldr : deepestOf nodes = (nodes.map nestingDepth).foldr max 0 := by
  induction nodes with
  | nil => exact deepestOf_nil
  | cons node rest ih => rw [deepestOf_cons, ih, List.map_cons, List.foldr_cons]

/-- A node adds its own to the nesting of the deepest of its children. -/
theorem nestingDepth_eq : node.nestingDepth = deepestOf node.children + node.ownDepth := by
  have shifted := deepest_add 0 node.ownDepth (node.children.map fun child => (child, 0))
  rw [List.map_map] at shifted
  rw [nestingDepth, deepest, List.append_nil, Nat.zero_max, deepest_perm _ (List.reverse_perm _)]
  exact shifted

/-! ## One kind of node after the other -/

/-- A leaf nests nothing. -/
theorem nestingDepth_of_leaf {node : Node} (leaf : node.children = []) (own : node.ownDepth = 0) :
    node.nestingDepth = 0 := by
  rw [nestingDepth_eq, leaf, own, deepestOf_nil]

@[simp]
theorem nestingDepth_literal : (literal text).nestingDepth = 0 :=
  nestingDepth_of_leaf rfl rfl

@[simp]
theorem nestingDepth_wildcard : (wildcard text).nestingDepth = 0 :=
  nestingDepth_of_leaf rfl rfl

@[simp]
theorem nestingDepth_identifier : (identifier text).nestingDepth = 0 :=
  nestingDepth_of_leaf rfl rfl

@[simp]
theorem nestingDepth_string : (string text).nestingDepth = 0 :=
  nestingDepth_of_leaf rfl rfl

@[simp]
theorem nestingDepth_subshell : (subshell node).nestingDepth = node.nestingDepth + 1 := by
  rw [nestingDepth_eq, children, deepestOf_cons, deepestOf_nil, Nat.max_zero, ownDepth]

@[simp]
theorem nestingDepth_quote : (quote text nodes).nestingDepth = deepestOf nodes :=
  nestingDepth_eq _

@[simp]
theorem nestingDepth_redirect : (redirect text node).nestingDepth = node.nestingDepth := by
  rw [nestingDepth_eq, children, deepestOf_cons, deepestOf_nil, Nat.max_zero]
  rfl

@[simp]
theorem nestingDepth_assign (value : Option Node) :
    (assign text value).nestingDepth = deepestOf value.toList :=
  nestingDepth_eq _

@[simp]
theorem nestingDepth_command (name : Option Node) (args redirects assignments : List Node) :
    (command name args redirects assignments).nestingDepth =
      max (max (max (deepestOf assignments) (deepestOf name.toList)) (deepestOf args))
        (deepestOf redirects) := by
  rw [nestingDepth_eq, children, deepestOf_append, deepestOf_append, deepestOf_append]
  rfl

@[simp]
theorem nestingDepth_sequence : (sequence nodes).nestingDepth = deepestOf nodes :=
  nestingDepth_eq _

@[simp]
theorem nestingDepth_pipe (left right : Node) :
    (pipe left right).nestingDepth = max left.nestingDepth right.nestingDepth := by
  rw [nestingDepth_eq, children, deepestOf_cons, deepestOf_cons, deepestOf_nil, Nat.max_zero]
  rfl

theorem nestingDepth_foldl_pipe :
    (nodes.foldl pipe node).nestingDepth = max node.nestingDepth (deepestOf nodes) := by
  induction nodes generalizing node with
  | nil => rw [List.foldl_nil, deepestOf_nil, Nat.max_zero]
  | cons stage stages ih =>
    rw [List.foldl_cons, ih, nestingDepth_pipe, deepestOf_cons, Nat.max_assoc]

end Recursion

end ShellLine.Node
