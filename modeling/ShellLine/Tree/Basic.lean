/-! # Command trees

A command tree says what a shell line asks for: words and quoted text make up commands, commands
make up pipelines and lists, and a substitution holds a tree of its own. Any tree may stand in any
place; which trees a line can have is a matter of the grammar.

The children of a tree are listed field by field: those of a command are its assignments, its name,
its arguments and then its redirects, wherever these stand in the line. `Node.induction` is the
induction principle over them.
-/

namespace ShellLine

/-- A command tree. -/
inductive Node where
  /-- A bare word. -/
  | literal (text : String)
  /-- A bare word with a star, to be expanded. -/
  | wildcard (text : String)
  /-- The name of a variable, to be looked up. -/
  | identifier (text : String)
  /-- Quoted text: with its marks where it stands alone, without them inside a quote. -/
  | string (text : String)
  /-- A command substitution. -/
  | subshell (body : Node)
  /-- Quoted text with substitutions, as its parts in order. -/
  | quote (mark : String) (parts : List Node)
  /-- A redirect to or from its target. -/
  | redirect (op : String) (target : Node)
  /-- A variable name with its value, if it is given one. -/
  | assign (name : String) (value : Option Node)
  /-- A command; without a name it only sets variables and redirects. -/
  | command (name : Option Node) (args redirects assignments : List Node)
  /-- The output of the left side feeds the right side. -/
  | pipe (left right : Node)
  /-- Trees to be run one after the other. -/
  | sequence (items : List Node)
  /-- A node of no particular class, equal to no node. -/
  | bare
deriving Repr, Inhabited

namespace Node

/-- The class of a node. -/
def className : Node → String
  | .literal _ => "Literal"
  | .wildcard _ => "Wildcard"
  | .identifier _ => "Identifier"
  | .string _ => "String"
  | .subshell _ => "Subshell"
  | .quote .. => "Quote"
  | .redirect .. => "Redirect"
  | .assign .. => "Assign"
  | .command .. => "Command"
  | .pipe .. => "Pipe"
  | .sequence _ => "Sequence"
  | .bare => "ASTNode"

/-- The text that a node itself carries: the text of a leaf, the mark of a quote, the operator of a
redirect, the name of an assignment. -/
def text? : Node → Option String
  | .literal text => some text
  | .wildcard text => some text
  | .identifier text => some text
  | .string text => some text
  | .quote mark _ => some mark
  | .redirect op _ => some op
  | .assign name _ => some name
  | _ => none

/-- The direct children, field by field: those of a command are its assignments, its name, its
arguments and then its redirects. -/
def children : Node → List Node
  | .subshell body => [body]
  | .quote _ parts => parts
  | .redirect _ target => [target]
  | .assign _ value => value.toList
  | .command name args redirects assignments => assignments ++ name.toList ++ args ++ redirects
  | .pipe left right => [left, right]
  | .sequence items => items
  | _ => []

mutual

/-- The number of nodes in a tree. -/
def size : Node → Nat
  | .subshell body => size body + 1
  | .quote _ parts => sizeAll parts + 1
  | .redirect _ target => size target + 1
  | .assign _ value => sizeOption value + 1
  | .command name args redirects assignments =>
    sizeAll assignments + sizeOption name + sizeAll args + sizeAll redirects + 1
  | .pipe left right => size left + size right + 1
  | .sequence items => sizeAll items + 1
  | _ => 1

/-- The number of nodes in a list of trees. -/
def sizeAll : List Node → Nat
  | [] => 0
  | node :: rest => size node + sizeAll rest

/-- The number of nodes in an optional tree. -/
def sizeOption : Option Node → Nat
  | none => 0
  | some node => size node

end

/-- Sizes add up over lists. -/
@[simp]
theorem sizeAll_append (first second : List Node) :
    sizeAll (first ++ second) = sizeAll first + sizeAll second := by
  induction first with
  | nil => simp [sizeAll]
  | cons node rest ih => simp only [List.cons_append, sizeAll, ih, Nat.add_assoc]

/-- A list has the same size from back to front. -/
@[simp]
theorem sizeAll_reverse (nodes : List Node) : sizeAll nodes.reverse = sizeAll nodes := by
  induction nodes with
  | nil => rfl
  | cons node rest ih =>
    rw [List.reverse_cons, sizeAll_append, ih, sizeAll, sizeAll, sizeAll]
    omega

/-- An optional tree has the size of its list. -/
@[simp]
theorem sizeAll_toList (value : Option Node) : sizeAll value.toList = sizeOption value := by
  cases value <;> simp [sizeAll, sizeOption]

/-- A node counts once, and its children make up the rest. -/
theorem size_eq (node : Node) : node.size = sizeAll node.children + 1 := by
  cases node <;> simp [size, children, sizeAll, Nat.add_assoc]

/-- A member of a list is no larger than the list. -/
theorem size_le_sizeAll {nodes : List Node} {node : Node} (member : node ∈ nodes) :
    node.size ≤ sizeAll nodes := by
  induction nodes with
  | nil => cases member
  | cons head rest ih =>
    rw [sizeAll]
    rcases List.mem_cons.mp member with equal | later
    · subst equal
      omega
    · have := ih later
      omega

/-- A child is smaller than its parent. -/
theorem size_lt_of_mem_children {node child : Node} (member : child ∈ node.children) :
    child.size < node.size := by
  have := size_le_sizeAll member
  have := node.size_eq
  omega

/-- What holds of a node whenever it holds of its children holds of every node. -/
theorem induction {motive : Node → Prop}
    (step : ∀ node, (∀ child ∈ node.children, motive child) → motive node) (node : Node) :
    motive node :=
  step node fun child member =>
    have := size_lt_of_mem_children member
    induction step child
termination_by node.size

end Node

end ShellLine
