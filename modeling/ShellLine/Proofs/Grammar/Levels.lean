import ShellLine.Proofs.Grammar.Phrase

/-! # Levels of nesting

How deep names, subshells, quotes and quoted texts are nested in a tree, which is what the limit on
nesting is about. A text between the substitutions of a quote opens no level of its own.
-/

namespace ShellLine

namespace Node

mutual

/-- The number of levels in a tree. -/
def levels : Node → Nat
  | .identifier _ => 1
  | .string _ => 1
  | .subshell body => levels body + 1
  | .quote _ parts => levelsInQuote parts + 1
  | .redirect _ target => levels target
  | .assign _ value => levelsOption value
  | .command name args redirects assignments =>
    max (max (levelsOption name) (levelsAll args)) (max (levelsAll redirects) (levelsAll assignments))
  | .pipe left right => max (levels left) (levels right)
  | .sequence items => levelsAll items
  | _ => 0

/-- The largest number of levels in a list of trees. -/
def levelsAll : List Node → Nat
  | [] => 0
  | node :: rest => max (levels node) (levelsAll rest)

/-- The largest number of levels in the parts of a quote. -/
def levelsInQuote : List Node → Nat
  | [] => 0
  | .string _ :: rest => levelsInQuote rest
  | node :: rest => max (levels node) (levelsInQuote rest)

/-- The number of levels in an optional tree. -/
def levelsOption : Option Node → Nat
  | none => 0
  | some node => levels node

end

/-- The levels of two lists are those of the list with more of them. -/
@[simp]
theorem levelsAll_append (first second : List Node) :
    levelsAll (first ++ second) = max (levelsAll first) (levelsAll second) := by
  induction first with
  | nil => simp [levelsAll]
  | cons node rest ih => simp only [List.cons_append, levelsAll, ih, Nat.max_assoc]

/-- A pipeline has the levels of its stages. -/
@[simp]
theorem levels_foldl_pipe (first : Node) (stages : List Node) :
    (stages.foldl .pipe first).levels = max first.levels (levelsAll stages) := by
  induction stages generalizing first with
  | nil => simp [levelsAll]
  | cons stage rest ih => simp only [List.foldl_cons, ih, levels, levelsAll, Nat.max_assoc]

end Node

namespace Grammar

/-- In a quote a substitution counts, and the text after it does not. -/
theorem SubstitutionPhrase.levelsInQuote_cons {ts : List Token} {inner : Node}
    (phrase : SubstitutionPhrase ts inner) (text : String) (parts : List Node) :
    Node.levelsInQuote (inner :: .string text :: parts) =
      max inner.levels (Node.levelsInQuote parts) := by
  cases phrase <;> simp [Node.levelsInQuote]

end Grammar

end ShellLine
