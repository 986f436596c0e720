import ShellLine.Proofs.Tree.Walk

/-! # The census of a tree

Commands, pipes, subshells and redirects are what a plan charges for. How many of each a walk visits
adds up over the tree, one kind of node after the other, and these numbers are all that the effort of
a plan depends on: `plan_effort`.
-/

namespace ShellLine

/-- What a plan charges for. -/
inductive Construct where
  | command
  | pipe
  | subshell
  | redirect
deriving DecidableEq, Repr, Inhabited

namespace Node

/-- What a plan charges for a node itself. -/
def construct? : Node → Option Construct
  | .command .. => some .command
  | .pipe .. => some .pipe
  | .subshell _ => some .subshell
  | .redirect .. => some .redirect
  | _ => none

/-- Whether a node is a command. -/
def isCommand : Node → Bool
  | .command .. => true
  | _ => false

/-- How many nodes of a kind a walk visits. -/
def tally (kind : Construct) (node : Node) : Nat :=
  (node.walk.filterMap construct?).count kind

/-- How many nodes of a kind the walks of a list of trees visit. -/
def tallyAll (kind : Construct) (nodes : List Node) : Nat :=
  ((walkAll nodes).filterMap construct?).count kind

section Tally

variable (kind : Construct) (text : String) (node : Node) (nodes more : List Node)

@[simp]
theorem tallyAll_nil : tallyAll kind [] = 0 := by
  rw [tallyAll, walkAll, List.filterMap_nil, List.count_nil]

@[simp]
theorem tallyAll_append :
    tallyAll kind (nodes ++ more) = tallyAll kind nodes + tallyAll kind more := by
  rw [tallyAll, walkAll_append, List.filterMap_append, List.count_append, tallyAll, tallyAll]

@[simp]
theorem tallyAll_cons : tallyAll kind (node :: nodes) = node.tally kind + tallyAll kind nodes := by
  rw [← List.singleton_append, tallyAll_append]
  rfl

/-- A node counts itself, and its children make up the rest. -/
theorem tally_eq :
    node.tally kind = tallyAll kind node.children + node.construct?.toList.count kind := by
  rw [tally, walk, walkAll, List.append_nil, List.filterMap_cons, tallyAll]
  cases node.construct? with
  | none => rfl
  | some own => rw [Option.toList_some, List.count_cons, List.count_singleton]

/-! ## One kind of node after the other -/

/-- A leaf that is not charged for does not count. -/
theorem tally_of_leaf {node : Node} (leaf : node.children = []) (own : node.construct? = none) :
    node.tally kind = 0 := by
  rw [tally_eq, leaf, own, tallyAll_nil, Option.toList_none, List.count_nil]

@[simp]
theorem tally_literal : (literal text).tally kind = 0 :=
  tally_of_leaf kind rfl rfl

@[simp]
theorem tally_wildcard : (wildcard text).tally kind = 0 :=
  tally_of_leaf kind rfl rfl

@[simp]
theorem tally_identifier : (identifier text).tally kind = 0 :=
  tally_of_leaf kind rfl rfl

@[simp]
theorem tally_string : (string text).tally kind = 0 :=
  tally_of_leaf kind rfl rfl

@[simp]
theorem tally_subshell :
    (subshell node).tally kind = node.tally kind + [Construct.subshell].count kind := by
  rw [tally_eq, children, tallyAll_cons, tallyAll_nil]
  rfl

@[simp]
theorem tally_quote : (quote text nodes).tally kind = tallyAll kind nodes :=
  tally_eq kind _

@[simp]
theorem tally_redirect :
    (redirect text node).tally kind = node.tally kind + [Construct.redirect].count kind := by
  rw [tally_eq, children, tallyAll_cons, tallyAll_nil]
  rfl

@[simp]
theorem tally_assign (value : Option Node) :
    (assign text value).tally kind = tallyAll kind value.toList :=
  tally_eq kind _

@[simp]
theorem tally_command (name : Option Node) (args redirects assignments : List Node) :
    (command name args redirects assignments).tally kind =
      tallyAll kind assignments + tallyAll kind name.toList + tallyAll kind args +
        tallyAll kind redirects + [Construct.command].count kind := by
  rw [tally_eq, children, tallyAll_append, tallyAll_append, tallyAll_append]
  rfl

@[simp]
theorem tally_pipe (left right : Node) : (pipe left right).tally kind =
    left.tally kind + right.tally kind + [Construct.pipe].count kind := by
  rw [tally_eq, children, tallyAll_cons, tallyAll_cons, tallyAll_nil]
  rfl

@[simp]
theorem tally_sequence : (sequence nodes).tally kind = tallyAll kind nodes :=
  tally_eq kind _

/-- There is a pipe for each stage but the first. -/
theorem tally_foldl_pipe : (nodes.foldl pipe node).tally kind =
    node.tally kind + tallyAll kind nodes + nodes.length * [Construct.pipe].count kind := by
  induction nodes generalizing node with
  | nil => simp
  | cons stage stages ih =>
    rw [List.foldl_cons, ih, tally_pipe, tallyAll_cons, List.length_cons, Nat.succ_mul]
    omega

end Tally

/-! ## Plans -/

section Plan

variable (node : Node)

theorem countP_walk (kind : Construct) {test : Node → Bool}
    (same : ∀ node : Node, test node = (node.construct? == some kind)) :
    node.walk.countP test = node.tally kind := by
  rw [tally, List.count, List.countP_filterMap]
  refine List.countP_congr fun node _ => ?_
  rw [same]
  cases node.construct? <;> simp

theorem countP_isCommand : node.walk.countP isCommand = node.tally .command :=
  node.countP_walk .command fun node => by cases node <;> rfl

theorem countP_isPipe : node.walk.countP isPipe = node.tally .pipe :=
  node.countP_walk .pipe fun node => by cases node <;> rfl

theorem countP_isSubshell : node.walk.countP isSubshell = node.tally .subshell :=
  node.countP_walk .subshell fun node => by cases node <;> rfl

theorem countP_isRedirect : node.walk.countP isRedirect = node.tally .redirect :=
  node.countP_walk .redirect fun node => by cases node <;> rfl

theorem any_walk (test : Node → Bool) : node.walk.any test ↔ 0 < node.walk.countP test := by
  rw [List.any_eq_true, List.countP_pos_iff]

theorem plan_requiresPipe : node.plan.requiresPipe ↔ 0 < node.tally .pipe := by
  rw [← countP_isPipe]
  exact any_walk ..

theorem plan_requiresSubshell : node.plan.requiresSubshell ↔ 0 < node.tally .subshell := by
  rw [← countP_isSubshell]
  exact any_walk ..

theorem plan_requiresRedirect : node.plan.requiresRedirect ↔ 0 < node.tally .redirect := by
  rw [← countP_isRedirect]
  exact any_walk ..

/-- Nodes are charged for by what they are. -/
theorem foldr_ownHalves (visited : List Node) :
    (visited.map ownHalves).foldr (· + ·) 0 =
      2 * (visited.filterMap construct?).count .command +
        2 * (visited.filterMap construct?).count .pipe +
        4 * (visited.filterMap construct?).count .subshell +
        (visited.filterMap construct?).count .redirect := by
  induction visited with
  | nil => rfl
  | cons node rest ih =>
    rw [List.map_cons, List.foldr_cons, ih, List.filterMap_cons]
    cases node <;> simp [ownHalves, construct?] <;> omega

/-- The effort of a plan depends on the census of its tree. -/
theorem plan_effort :
    node.plan.effort.halves = 2 * node.tally .command + 2 * node.tally .pipe +
      4 * node.tally .subshell + node.tally .redirect ∧
    (node.plan.effort.fractional ↔ 0 < node.tally .redirect) :=
  ⟨foldr_ownHalves node.walk, node.plan_requiresRedirect⟩

end Plan

end Node

end ShellLine
