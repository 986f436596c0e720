import ShellLine.CommandLine
import ShellLine.Proofs.Grammar.Acceptance
import ShellLine.Proofs.Grammar.Alike
import ShellLine.Proofs.Grammar.Completeness
import ShellLine.Proofs.Grammar.Completion
import ShellLine.Proofs.Grammar.Constructs
import ShellLine.Proofs.Grammar.Expansions
import ShellLine.Proofs.Grammar.Joining
import ShellLine.Proofs.Grammar.Levels
import ShellLine.Proofs.Grammar.Limits
import ShellLine.Proofs.Grammar.Locality
import ShellLine.Proofs.Grammar.Parallel
import ShellLine.Proofs.Grammar.Parentheses
import ShellLine.Proofs.Grammar.Pieces
import ShellLine.Proofs.Grammar.Positions
import ShellLine.Proofs.Grammar.Prefixes
import ShellLine.Proofs.Grammar.Progress
import ShellLine.Proofs.Grammar.Reports
import ShellLine.Proofs.Grammar.Reuse
import ShellLine.Proofs.Grammar.Soundness
import ShellLine.Proofs.Grammar.Spelling
import ShellLine.Proofs.Grammar.WellFormed
import ShellLine.Proofs.Line.Faults
import ShellLine.Proofs.Line.Logs
import ShellLine.Proofs.Line.Plans
import ShellLine.Proofs.Line.Substitutions
import ShellLine.Proofs.Line.Unbalanced
import ShellLine.Proofs.Nesting.Embedding
import ShellLine.Proofs.Nesting.Enclosure
import ShellLine.Proofs.Nesting.Frames
import ShellLine.Proofs.Nesting.Heights
import ShellLine.Proofs.Nesting.Openings
import ShellLine.Proofs.Nesting.Parsing
import ShellLine.Proofs.Nesting.Partners
import ShellLine.Proofs.Nesting.Scanning
import ShellLine.Proofs.Nesting.Unclosed
import ShellLine.Proofs.Reading.Actions
import ShellLine.Proofs.Reading.Ensures
import ShellLine.Proofs.Reading.Locality
import ShellLine.Proofs.Reading.Parallel
import ShellLine.Proofs.Reading.Reports
import ShellLine.Proofs.Scanner.Adjacency
import ShellLine.Proofs.Scanner.Alone
import ShellLine.Proofs.Scanner.Coherence
import ShellLine.Proofs.Scanner.Concatenation
import ShellLine.Proofs.Scanner.Endings
import ShellLine.Proofs.Scanner.Escapes
import ShellLine.Proofs.Scanner.Forms
import ShellLine.Proofs.Scanner.Inertness
import ShellLine.Proofs.Scanner.Layout
import ShellLine.Proofs.Scanner.Lexemes
import ShellLine.Proofs.Scanner.Recast
import ShellLine.Proofs.Scanner.Sigils
import ShellLine.Proofs.Scanner.States
import ShellLine.Proofs.Scanner.Strictness
import ShellLine.Proofs.Scanner.Trailing
import ShellLine.Proofs.Scanner.Within
import ShellLine.Proofs.Tree.Census
import ShellLine.Proofs.Tree.Depth
import ShellLine.Proofs.Tree.Pictures
import ShellLine.Proofs.Tree.Stacks
import ShellLine.Proofs.Tree.Traversals
import ShellLine.Text.Units
import ShellLine.Tree.Drawing
import ShellLine.Tree.Equality
import ShellLine.Tree.Plan
import ShellLine.Tree.Printer
