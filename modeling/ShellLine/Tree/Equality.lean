import ShellLine.Tree.Basic

/-! # Equality of command trees

It is decidable whether two trees are the same: they have the same class, the same texts and the
same children in the same places. Trees are compared by `Node.same`, under which moreover a node
of no particular class is equal to no node, itself included.
-/

namespace ShellLine.Node

mutual

/-- Compares two trees, each class with itself. -/
def agree : Node → Node → Bool
  | .literal text, .literal text' => text == text'
  | .wildcard text, .wildcard text' => text == text'
  | .identifier text, .identifier text' => text == text'
  | .string text, .string text' => text == text'
  | .subshell body, .subshell body' => agree body body'
  | .quote mark parts, .quote mark' parts' => mark == mark' && agreeAll parts parts'
  | .redirect op target, .redirect op' target' => op == op' && agree target target'
  | .assign name value, .assign name' value' => name == name' && agreeOption value value'
  | .command name args redirects assignments, .command name' args' redirects' assignments' =>
    agreeOption name name' && agreeAll args args' && agreeAll redirects redirects' &&
      agreeAll assignments assignments'
  | .pipe left right, .pipe left' right' => agree left left' && agree right right'
  | .sequence items, .sequence items' => agreeAll items items'
  | .bare, .bare => true
  | _, _ => false

/-- Compares two lists of trees. -/
def agreeAll : List Node → List Node → Bool
  | [], [] => true
  | node :: rest, node' :: rest' => agree node node' && agreeAll rest rest'
  | _, _ => false

/-- Compares two optional trees. -/
def agreeOption : Option Node → Option Node → Bool
  | none, none => true
  | some node, some node' => agree node node'
  | _, _ => false

end

mutual

private theorem agree_iff_eq : (a b : Node) → (agree a b = true ↔ a = b)
  | .literal _, b => by cases b <;> simp [agree]
  | .wildcard _, b => by cases b <;> simp [agree]
  | .identifier _, b => by cases b <;> simp [agree]
  | .string _, b => by cases b <;> simp [agree]
  | .subshell body, b => by
    cases b with
    | subshell body' => simp [agree, agree_iff_eq body body']
    | _ => simp [agree]
  | .quote _ parts, b => by
    cases b with
    | quote _ parts' => simp [agree, agreeAll_iff_eq parts parts']
    | _ => simp [agree]
  | .redirect _ target, b => by
    cases b with
    | redirect _ target' => simp [agree, agree_iff_eq target target']
    | _ => simp [agree]
  | .assign _ value, b => by
    cases b with
    | assign _ value' => simp [agree, agreeOption_iff_eq value value']
    | _ => simp [agree]
  | .command name args redirects assignments, b => by
    cases b with
    | command name' args' redirects' assignments' =>
      simp [agree, agreeOption_iff_eq name name', agreeAll_iff_eq args args',
        agreeAll_iff_eq redirects redirects', agreeAll_iff_eq assignments assignments', and_assoc]
    | _ => simp [agree]
  | .pipe left right, b => by
    cases b with
    | pipe left' right' => simp [agree, agree_iff_eq left left', agree_iff_eq right right']
    | _ => simp [agree]
  | .sequence items, b => by
    cases b with
    | sequence items' => simp [agree, agreeAll_iff_eq items items']
    | _ => simp [agree]
  | .bare, b => by cases b <;> simp [agree]

private theorem agreeAll_iff_eq : (as bs : List Node) → (agreeAll as bs = true ↔ as = bs)
  | [], bs => by cases bs <;> simp [agreeAll]
  | a :: as, bs => by
    cases bs with
    | nil => simp [agreeAll]
    | cons b bs => simp [agreeAll, agree_iff_eq a b, agreeAll_iff_eq as bs]

private theorem agreeOption_iff_eq : (a b : Option Node) → (agreeOption a b = true ↔ a = b)
  | none, b => by cases b <;> simp [agreeOption]
  | some a, b => by
    cases b with
    | none => simp [agreeOption]
    | some b => simp [agreeOption, agree_iff_eq a b]

end

instance : DecidableEq Node := fun a b => decidable_of_iff _ (agree_iff_eq a b)

mutual

/-- No node in the tree is without a particular class. -/
def classified : Node → Bool
  | .bare => false
  | .subshell body => classified body
  | .quote _ parts => classifiedAll parts
  | .redirect _ target => classified target
  | .assign _ value => classifiedOption value
  | .command name args redirects assignments =>
    classifiedOption name && classifiedAll args && classifiedAll redirects &&
      classifiedAll assignments
  | .pipe left right => classified left && classified right
  | .sequence items => classifiedAll items
  | _ => true

/-- No node in the trees is without a particular class. -/
def classifiedAll : List Node → Bool
  | [] => true
  | node :: rest => classified node && classifiedAll rest

/-- No node in the tree, if there is one, is without a particular class. -/
def classifiedOption : Option Node → Bool
  | none => true
  | some node => classified node

end

/-- Whether two trees count as equal. -/
def same (a b : Node) : Bool :=
  a.classified && decide (a = b)

example : same (.sequence [.literal "ls"]) (.sequence [.literal "ls"]) = true := by decide

example : same (.sequence [.bare]) (.sequence [.bare]) = false := by decide

end ShellLine.Node
