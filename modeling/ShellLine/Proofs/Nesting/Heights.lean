import ShellLine.Proofs.Grammar.Acceptance
import ShellLine.Proofs.Nesting.Phrases
import ShellLine.Proofs.Tree.Depth
import ShellLine.Token.Tokenizer

/-! # Heights

The height of some tokens is how many parentheses they open beyond those that they close, and their
peak is the greatest height on the way through them. A phrase of the grammar ends at the height at
which it starts, and in between it rises as high as its tree is nested: `ListPhrase.rises`.
-/

namespace ShellLine

open Alphabet Grammar

/-- How far a token leads up. -/
def Token.rise (token : Token) : Int :=
  if token.isMark openParen then 1 else if token.isMark closeParen then -1 else 0

/-- The number of opening parentheses less the number of closing ones. -/
def height (tokens : List Token) : Int :=
  tokens.countP (·.isMark openParen) - tokens.countP (·.isMark closeParen)

/-- The greatest height on the way through the tokens. -/
def peak : List Token → Int
  | [] => 0
  | token :: rest => max 0 (token.rise + peak rest)

section Rise

variable {token opening : Token}

theorem rise_of_plain (plain : token.plain) : token.rise = 0 := by
  simp only [Token.plain, Bool.and_eq_true, Bool.not_eq_true'] at plain
  simp [Token.rise, plain.1.2, plain.2]

theorem rise_of_kind (symbol : token.kind ≠ .symbol) : token.rise = 0 := by
  simp [Token.rise, Token.isMark, Token.isSymbol, symbol]

/-- Only parentheses lead up or down. -/
theorem rise_of_value (openValue : token.value ≠ String.singleton openParen)
    (closeValue : token.value ≠ String.singleton closeParen) : token.rise = 0 := by
  simp [Token.rise, Token.isMark, Token.isSymbol, openValue, closeValue]

theorem rise_of_openParen (opens : token.isMark openParen) : token.rise = 1 := by
  simp [Token.rise, opens]

theorem rise_of_closeParen (closes : token.isMark closeParen) : token.rise = -1 := by
  have noOpening : token.isMark openParen = false := isMark_of_isMark closes (by decide)
  simp [Token.rise, closes, noOpening]

theorem rise_of_opensQuote (opens : token.isSymbol (quoteMarks.map String.singleton)) :
    token.rise = 0 := by
  have apart : ∀ value ∈ quoteMarks.map String.singleton,
      value ≠ String.singleton openParen ∧ value ≠ String.singleton closeParen := by decide
  obtain ⟨_, mark, member, value⟩ := opensQuote_iff.mp opens
  obtain ⟨openValue, closeValue⟩ := apart token.value (value ▸ List.mem_map_of_mem member)
  exact rise_of_value openValue closeValue

theorem rise_of_closesQuote (opens : opening.isSymbol (quoteMarks.map String.singleton))
    (closes : token.isSymbol [opening.value]) : token.rise = 0 := by
  simp only [Token.isSymbol, List.isEmpty_cons, Bool.false_or, Bool.and_eq_true,
    List.contains_cons, List.contains_nil, Bool.or_false, beq_iff_eq] at closes
  refine rise_of_opensQuote (opensQuote_iff.mpr ⟨closes.1, ?_⟩)
  rw [closes.2]
  exact (opensQuote_iff.mp opens).2

end Rise

section Height

variable {token : Token} {tokens first second : List Token}

@[simp]
theorem height_nil : height [] = 0 :=
  rfl

@[simp]
theorem height_cons : height (token :: tokens) = token.rise + height tokens := by
  by_cases opens : token.isMark openParen
  · have noClosing : token.isMark closeParen = false := isMark_of_isMark opens (by decide)
    simp only [height, rise_of_openParen opens, List.countP_cons, opens, noClosing, ↓reduceIte,
      Bool.false_eq_true]
    omega
  · by_cases closes : token.isMark closeParen
    · simp only [height, rise_of_closeParen closes, List.countP_cons, opens, closes, ↓reduceIte,
        Bool.false_eq_true]
      omega
    · simp [height, Token.rise, opens, closes]

theorem height_append : height (first ++ second) = height first + height second := by
  simp only [height, List.countP_append]
  omega

@[simp]
theorem peak_nil : peak [] = 0 :=
  rfl

theorem peak_nonneg : 0 ≤ peak tokens := by
  cases tokens with
  | nil => exact Int.le_refl 0
  | cons token rest => exact Int.le_max_left ..

/-- On the way through two lists the second one starts from the height of the first one. -/
theorem peak_append : peak (first ++ second) = max (peak first) (height first + peak second) := by
  induction first with
  | nil =>
    have nonneg : 0 ≤ peak second := peak_nonneg
    rw [List.nil_append, peak_nil, height_nil]
    omega
  | cons token rest ih =>
    rw [List.cons_append, peak, peak, ih, height_cons]
    omega

/-- No prefix is higher than the peak. -/
theorem height_le_peak (start : first <+: tokens) : height first ≤ peak tokens := by
  induction first generalizing tokens with
  | nil => exact peak_nonneg
  | cons token rest ih =>
    obtain ⟨second, rfl⟩ := start
    have le : height rest ≤ peak (rest ++ second) := ih (List.prefix_append rest second)
    rw [height_cons, List.cons_append, peak]
    omega

/-- Some prefix is as high as the peak. -/
theorem exists_height_eq_peak (tokens : List Token) :
    ∃ first, first <+: tokens ∧ height first = peak tokens := by
  induction tokens with
  | nil => exact ⟨[], List.nil_prefix, rfl⟩
  | cons token rest ih =>
    obtain ⟨first, start, highest⟩ := ih
    by_cases up : 0 ≤ token.rise + peak rest
    · refine ⟨token :: first, List.cons_prefix_cons.mpr ⟨rfl, start⟩, ?_⟩
      rw [height_cons, peak, highest, Int.max_eq_right up]
    · refine ⟨[], List.nil_prefix, ?_⟩
      rw [height_nil, peak, Int.max_eq_left (by omega)]

/-- Comments neither lead up nor down. -/
theorem peak_withoutComments (tokens : List Token) :
    peak (withoutComments tokens) = peak tokens := by
  induction tokens with
  | nil => rfl
  | cons token rest ih =>
    by_cases comment : token.kind = .comment
    · have level : token.rise = 0 := rise_of_kind (by simp [comment])
      have nonneg : 0 ≤ peak rest := peak_nonneg
      rw [withoutComments_comment comment, ih, peak, level]
      omega
    · rw [withoutComments_cons comment, peak, ih, peak]

end Height

namespace Grammar

/-- The tokens end where they start, and rise so high on their way. -/
structure Rises (ts : List Token) (depth : Nat) : Prop where
  height_eq : height ts = 0
  peak_eq : peak ts = depth

namespace Rises

variable {ts us : List Token} {token opening closing : Token} {depth more : Nat}

theorem nil : Rises [] 0 :=
  ⟨rfl, rfl⟩

theorem cons (level : token.rise = 0) (rises : Rises ts depth) : Rises (token :: ts) depth := by
  obtain ⟨ends, highest⟩ := rises
  refine ⟨?_, ?_⟩
  · rw [height_cons, level, ends, Int.add_zero]
  · rw [peak, level, highest]
    omega

theorem single (level : token.rise = 0) : Rises [token] 0 :=
  cons level nil

theorem plainCons (plain : token.plain) (rises : Rises ts depth) : Rises (token :: ts) depth :=
  cons (rise_of_plain plain) rises

theorem plainSingle (plain : token.plain) : Rises [token] 0 :=
  plainCons plain nil

theorem append (rises : Rises ts depth) (later : Rises us more) :
    Rises (ts ++ us) (max depth more) := by
  refine ⟨?_, ?_⟩
  · rw [height_append, rises.height_eq, later.height_eq, Int.add_zero]
  · rw [peak_append, rises.height_eq, rises.peak_eq, later.peak_eq]
    omega

/-- Parentheses around everything make it one higher. -/
theorem group (opens : opening.isMark openParen) (rises : Rises ts depth)
    (closes : closing.isMark closeParen) : Rises (opening :: (ts ++ [closing])) (depth + 1) := by
  have up : opening.rise = 1 := rise_of_openParen opens
  have down : closing.rise = -1 := rise_of_closeParen closes
  refine ⟨?_, ?_⟩
  · rw [height_cons, height_append, height_cons, height_nil, up, down, rises.height_eq]
    omega
  · rw [peak, peak_append, peak, peak_nil, up, down, rises.height_eq, rises.peak_eq]
    omega

end Rises

mutual

theorem SubstitutionPhrase.rises {ts : List Token} {node : Node} :
    SubstitutionPhrase ts node → Rises ts node.nestingDepth
  | .name mark kind => by
    rw [Node.nestingDepth_identifier]
    exact .plainCons (plain_of_mark (by decide) mark) (.single (rise_of_kind (by simp [kind])))
  | .subshell mark opens phrase closes => by
    rw [Node.nestingDepth_subshell]
    exact .plainCons (plain_of_mark (by decide) mark) (.group opens phrase.rises closes)

theorem InterpolationsPhrase.rises {ts : List Token} {parts : List Node} :
    InterpolationsPhrase ts parts → Rises ts (Node.deepestOf parts)
  | .nil => by
    rw [Node.deepestOf_nil]
    exact .nil
  | .cons phrase text phrases => by
    rw [Node.deepestOf_cons, Node.deepestOf_cons, Node.nestingDepth_string, Nat.zero_max]
    exact phrase.rises.append (phrases.rises.cons (rise_of_kind (by simp [text])))

theorem QuotePhrase.rises {ts : List Token} {node : Node} :
    QuotePhrase ts node → Rises ts node.nestingDepth
  | .plain opens text closes => by
    rw [Node.nestingDepth_string]
    have closing := Rises.single (rise_of_closesQuote opens closes)
    exact .cons (rise_of_opensQuote opens) (closing.cons (rise_of_kind (by simp [text])))
  | .mixed opens text phrases _ closes => by
    rw [Node.nestingDepth_quote, Node.deepestOf_cons, Node.nestingDepth_string, Nat.zero_max]
    have closed := phrases.rises.append (.single (rise_of_closesQuote opens closes))
    rw [Nat.max_zero] at closed
    exact .cons (rise_of_opensQuote opens) (closed.cons (rise_of_kind (by simp [text])))

theorem ValuePhrase.rises {ts : List Token} {node : Node} :
    ValuePhrase ts node → Rises ts node.nestingDepth
  | .word isWord => by
    rw [Node.nestingDepth_literal]
    exact .plainSingle (plain_of_isWord isWord)
  | .wildcard kind => by
    rw [Node.nestingDepth_wildcard]
    exact .single (rise_of_kind (by simp [kind]))
  | .substitution phrase => phrase.rises
  | .quote phrase => phrase.rises

theorem AssignmentPhrase.rises {ts : List Token} {next : Option Token} {node : Node} :
    AssignmentPhrase ts next node → Rises ts node.nestingDepth
  | .bare word assigned _ => by
    rw [Node.nestingDepth_assign, Option.toList_none, Node.deepestOf_nil]
    exact .plainCons (plain_of_literal word) (.plainSingle (plain_of_assigns assigned))
  | .valued word assigned _ phrase => by
    rw [Node.nestingDepth_assign, Option.toList_some, Node.deepestOf_cons, Node.deepestOf_nil,
      Nat.max_zero]
    exact .plainCons (plain_of_literal word) (.plainCons (plain_of_assigns assigned) phrase.rises)

theorem RedirectPhrase.rises {ts : List Token} {node : Node} :
    RedirectPhrase ts node → Rises ts node.nestingDepth
  | .mk redirects phrase => by
    rw [Node.nestingDepth_redirect]
    exact .plainCons (plain_of_redirect redirects) phrase.rises

theorem LeadingPhrase.rises {ts : List Token} {next : Option Token}
    {redirects assignments : List Node} :
    LeadingPhrase ts next redirects assignments →
      Rises ts (max (Node.deepestOf assignments) (Node.deepestOf redirects))
  | .nil => by
    rw [Node.deepestOf_nil, Nat.max_zero]
    exact .nil
  | .assignment phrase _ phrases => by
    rw [Node.deepestOf_cons, Nat.max_assoc]
    exact phrase.rises.append phrases.rises
  | .redirect phrase phrases => by
    rw [Node.deepestOf_cons, Nat.max_left_comm]
    exact phrase.rises.append phrases.rises

theorem HeadPhrase.rises {ts : List Token} {next : Option Token} {node : Node} :
    HeadPhrase ts next node → Rises ts node.nestingDepth
  | .word isWord _ => by
    rw [Node.nestingDepth_literal]
    exact .plainSingle (plain_of_isWord isWord)
  | .substitution phrase => phrase.rises

theorem ArgumentPhrase.rises {ts : List Token} {next : Option Token} {node : Node} :
    ArgumentPhrase ts next node → Rises ts node.nestingDepth
  | .assignment phrase => phrase.rises
  | .sign mark => by
    rw [Node.nestingDepth_literal]
    exact .plainSingle (plain_of_mark (by decide) mark)
  | .value phrase _ => phrase.rises

theorem TrailingPhrase.rises {ts : List Token} {args redirects : List Node} :
    TrailingPhrase ts args redirects →
      Rises ts (max (Node.deepestOf args) (Node.deepestOf redirects))
  | .nil => by
    rw [Node.deepestOf_nil, Nat.max_zero]
    exact .nil
  | .argument phrase phrases => by
    rw [Node.deepestOf_cons, Nat.max_assoc]
    exact phrase.rises.append phrases.rises
  | .redirect phrase phrases => by
    rw [Node.deepestOf_cons, Nat.max_left_comm]
    exact phrase.rises.append phrases.rises

theorem CommandPhrase.rises {ts : List Token} {node : Node} :
    CommandPhrase ts node → Rises ts node.nestingDepth
  | .headed leading head trailing => by
    have parts := leading.rises.append (head.rises.append trailing.rises)
    rw [Node.nestingDepth_command, Option.toList_some, Node.deepestOf_cons, Node.deepestOf_nil,
      Node.deepestOf_append]
    simpa only [Nat.max_zero, Nat.max_assoc, Nat.max_left_comm] using parts
  | .headless leading _ => by
    rw [Node.nestingDepth_command, Option.toList_none, Node.deepestOf_nil, Nat.max_zero,
      Nat.max_zero]
    exact leading.rises

theorem StagesPhrase.rises {ts : List Token} {stages : List Node} :
    StagesPhrase ts stages → Rises ts (Node.deepestOf stages)
  | .nil => by
    rw [Node.deepestOf_nil]
    exact .nil
  | .cons mark phrase phrases => by
    rw [Node.deepestOf_cons]
    exact .plainCons (plain_of_mark (by decide) mark) (phrase.rises.append phrases.rises)

theorem PipelinePhrase.rises {ts : List Token} {node : Node} :
    PipelinePhrase ts node → Rises ts node.nestingDepth
  | .mk phrase phrases => by
    rw [Node.nestingDepth_foldl_pipe]
    exact phrase.rises.append phrases.rises

theorem TailPhrase.rises {ts : List Token} {items : List Node} :
    TailPhrase ts items → Rises ts (Node.deepestOf items)
  | .nil => by
    rw [Node.deepestOf_nil]
    exact .nil
  | .trailing mark => by
    rw [Node.deepestOf_nil]
    exact .plainSingle (plain_of_mark (by decide) mark)
  | .cons mark phrase phrases => by
    rw [Node.deepestOf_cons]
    exact .plainCons (plain_of_mark (by decide) mark) (phrase.rises.append phrases.rises)

/-- A list rises as high as its tree is nested. -/
theorem ListPhrase.rises {ts : List Token} {node : Node} :
    ListPhrase ts node → Rises ts node.nestingDepth
  | .single phrase tail => by
    have parts := phrase.rises.append tail.rises
    rwa [Node.deepestOf_nil, Nat.max_zero] at parts
  | .sequence phrase tail => by
    rw [Node.nestingDepth_sequence, Node.deepestOf_cons]
    exact phrase.rises.append tail.rises

end

end Grammar

/-- The tokens of a tree rise as high as it is nested. -/
theorem peak_of_parse {tokens : List Token} {maxDepth : Int} {tree : Node}
    (parsed : parse tokens maxDepth = .ok tree) : peak tokens = tree.nestingDepth := by
  rw [← peak_withoutComments]
  by_cases comments : withoutComments tokens = []
  · rw [parse_of_comments comments] at parsed
    split at parsed
    case isTrue => cases parsed
    case isFalse =>
      cases parsed
      rw [comments, peak_nil, Node.nestingDepth_sequence, Node.deepestOf_nil]
      rfl
  · exact ((parse_eq_ok_iff comments).mp parsed).1.rises.peak_eq

/-- A tree is nested as deep as the parentheses of its tokens are at most open. -/
theorem nestingDepth_of_parse {tokens : List Token} {maxDepth : Int} {tree : Node}
    (parsed : parse tokens maxDepth = .ok tree) :
    (∃ first, first <+: tokens ∧ height first = tree.nestingDepth) ∧
      ∀ first, first <+: tokens → height first ≤ tree.nestingDepth := by
  rw [← peak_of_parse parsed]
  exact ⟨exists_height_eq_peak tokens, fun _ => height_le_peak⟩

/-- The comment of `echo "a$(b $(c))" # (` nests nothing. -/
theorem nestingDepth_in_quote :
    ∃ tokens tree, tokenize "echo \"a$(b $(c))\" # (" = .ok tokens ∧ parse tokens = .ok tree ∧
      tree.nestingDepth = 2 ∧ (∃ first, first <+: tokens ∧ height first = tree.nestingDepth) ∧
        ∀ first, first <+: tokens → height first ≤ tree.nestingDepth := by
  have parsed : parse
      [⟨.literal, "echo", some 0, false, false⟩, ⟨.symbol, "\"", some 5, false, false⟩,
        ⟨.fragment, "a", some 6, false, false⟩, ⟨.symbol, "$", some 7, false, false⟩,
        ⟨.symbol, "(", some 8, false, false⟩, ⟨.literal, "b", some 9, false, false⟩,
        ⟨.symbol, "$", some 11, false, false⟩, ⟨.symbol, "(", some 12, false, false⟩,
        ⟨.literal, "c", some 13, false, false⟩, ⟨.symbol, ")", some 14, false, false⟩,
        ⟨.symbol, ")", some 15, false, false⟩, ⟨.fragment, "", some 16, false, false⟩,
        ⟨.symbol, "\"", some 16, false, false⟩, ⟨.comment, "# (", some 18, false, false⟩] =
      .ok (.command (some (.literal "echo")) [.quote "\"" [.string "a",
        .subshell (.command (some (.literal "b"))
          [.subshell (.command (some (.literal "c")) [] [] [])] [] []), .string ""]] [] []) := rfl
  exact ⟨_, _, rfl, parsed, by simp, nestingDepth_of_parse parsed⟩

end ShellLine
