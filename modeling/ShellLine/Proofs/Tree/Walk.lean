import ShellLine.Tree.Plan

/-! # Walks as recursion

A walk keeps the trees that are still to be visited on a worklist. It is the recursive one all the
same: a node comes first, and then the walks of its children, `walk_eq`. What a shell expands in a
tree, which is what a plan lists of it, follows the same recursion.
-/

namespace ShellLine

namespace Node

/-- A worklist is visited from front to back. -/
theorem walkAll_append (first second : List Node) :
    walkAll (first ++ second) = walkAll first ++ walkAll second := by
  fun_induction walkAll first with
  | case1 => rfl
  | case2 node rest ih =>
    rw [List.append_assoc] at ih
    rw [List.cons_append, walkAll, ih, List.cons_append]

theorem walkAll_eq_flatMap (nodes : List Node) : walkAll nodes = nodes.flatMap walk := by
  induction nodes with
  | nil => simp [walkAll]
  | cons node rest ih =>
    rw [← List.singleton_append, walkAll_append, ih]
    rfl

/-- A node comes before the walks of its children. -/
theorem walk_eq (node : Node) : node.walk = node :: node.children.flatMap walk := by
  rw [walk, walkAll, List.append_nil, walkAll_eq_flatMap]

end Node

/-! ## What is expanded -/

/-- What a shell replaces in a line before it runs it. -/
inductive Expansion where
  /-- The name of a variable, to be looked up. -/
  | name (text : String)
  /-- A pattern, to be matched. -/
  | pattern (text : String)
deriving DecidableEq, Repr, Inhabited

namespace Expansion

def name? : Expansion → Option String
  | .name text => some text
  | .pattern _ => none

def pattern? : Expansion → Option String
  | .name _ => none
  | .pattern text => some text

end Expansion

namespace Node

/-- What is expanded of a node itself. -/
def expansion? : Node → Option Expansion
  | .identifier text => some (.name text)
  | .wildcard text => some (.pattern text)
  | _ => none

/-- What is expanded in a tree, as a walk comes upon it. -/
def expansions (node : Node) : List Expansion :=
  node.walk.filterMap expansion?

theorem expansions_eq (node : Node) :
    node.expansions = node.expansion?.toList ++ node.children.flatMap expansions := by
  rw [expansions, walk_eq, List.filterMap_cons, List.filterMap_flatMap]
  cases node.expansion? <;> rfl

/-- A plan lists the names in a tree. -/
theorem plan_identifiers (node : Node) :
    node.plan.identifiers = node.expansions.filterMap Expansion.name? := by
  have same : (fun node : Node => node.expansion?.bind Expansion.name?) = lookedUp? := by
    funext node
    cases node <;> rfl
  rw [expansions, List.filterMap_filterMap, same]
  rfl

/-- A plan lists the patterns in a tree. -/
theorem plan_wildcards (node : Node) :
    node.plan.wildcards = node.expansions.filterMap Expansion.pattern? := by
  have same : (fun node : Node => node.expansion?.bind Expansion.pattern?) = expanded? := by
    funext node
    cases node <;> rfl
  rw [expansions, List.filterMap_filterMap, same]
  rfl

/-! ## One kind of node after the other -/

section Expansions

variable (text : String) (node : Node) (nodes : List Node)

@[simp]
theorem expansions_literal : (literal text).expansions = [] :=
  expansions_eq _

@[simp]
theorem expansions_wildcard : (wildcard text).expansions = [.pattern text] :=
  expansions_eq _

@[simp]
theorem expansions_identifier : (identifier text).expansions = [.name text] :=
  expansions_eq _

@[simp]
theorem expansions_string : (string text).expansions = [] :=
  expansions_eq _

@[simp]
theorem expansions_subshell : (subshell node).expansions = node.expansions := by
  rw [expansions_eq]
  exact List.append_nil _

@[simp]
theorem expansions_quote : (quote text nodes).expansions = nodes.flatMap expansions :=
  expansions_eq _

@[simp]
theorem expansions_redirect : (redirect text node).expansions = node.expansions := by
  rw [expansions_eq]
  exact List.append_nil _

@[simp]
theorem expansions_assign (value : Option Node) :
    (assign text value).expansions = value.toList.flatMap expansions :=
  expansions_eq _

/-- The redirects of a command come last. -/
@[simp]
theorem expansions_command (name : Option Node) (args redirects assignments : List Node) :
    (command name args redirects assignments).expansions =
      assignments.flatMap expansions ++ (name.toList.flatMap expansions ++
        (args.flatMap expansions ++ redirects.flatMap expansions)) := by
  rw [expansions_eq]
  simp [expansion?, children]

@[simp]
theorem expansions_sequence : (sequence nodes).expansions = nodes.flatMap expansions :=
  expansions_eq _

theorem expansions_foldl_pipe :
    (nodes.foldl pipe node).expansions = node.expansions ++ nodes.flatMap expansions := by
  induction nodes generalizing node with
  | nil => simp
  | cons stage stages ih =>
    rw [List.foldl_cons, ih, expansions_eq (pipe node stage)]
    simp [expansion?, children]

end Expansions

end Node

end ShellLine
