import ShellLine.Proofs.Grammar.Acceptance
import ShellLine.Proofs.Tree.Census
import ShellLine.Token.Tokenizer

/-! # What tokens bring into a tree

Every command, pipe, subshell and redirect of a tree is brought into it by a token of its own, but
for the first command. A bar brings a pipe and the command after it, a parenthesis a subshell and the
command that it starts with, and a semicolon a command unless nothing but the end of its list comes
next. So the census of a tree, and with it the effort of its plan, is a matter of counting tokens:
`census_of_parse`.
-/

namespace ShellLine

open Alphabet

/-- Whether something to separate comes after the token: a semicolon may also end a list. -/
def Token.separates (token : Token) (next : Option Token) : Bool :=
  token.isMark semicolon && next.any fun token => !token.isMark closeParen

/-- What a token brings into a tree in front of the next one. -/
def Token.brings (token : Token) (next : Option Token) : List Construct :=
  (if token.isMark pipe then [.pipe, .command] else []) ++
    ((if token.isMark openParen then [.subshell, .command] else []) ++
      ((if token.isSymbol redirectOperators then [.redirect] else []) ++
        (if token.separates next then [.command] else [])))

/-- What tokens bring into a tree in front of the next one. -/
def brought (next : Option Token) : List Token → List Construct
  | [] => []
  | token :: rest => token.brings (rest.head?.or next) ++ brought next rest

theorem brought_append (next : Option Token) (first second : List Token) :
    brought next (first ++ second) = brought (second.head?.or next) first ++ brought next second := by
  induction first with
  | nil => rfl
  | cons token rest ih =>
    rw [List.cons_append, brought, ih, brought, List.append_assoc, List.head?_append,
      Option.or_assoc]

/-! ## One kind of token after the other -/

section Brings

variable {token opening : Token} {next : Option Token}

theorem brings_of_pipe (bar : token.isMark pipe) :
    token.brings next = [.pipe] ++ [.command] := by
  have noOperator : token.isSymbol redirectOperators = false :=
    isSymbol_of_isMark bar (by decide) (by decide)
  have noParen : token.isMark openParen = false := isMark_of_isMark bar (by decide)
  have noSemicolon : token.isMark semicolon = false := isMark_of_isMark bar (by decide)
  simp [Token.brings, Token.separates, bar, noOperator, noParen, noSemicolon]

theorem brings_of_openParen (opens : token.isMark openParen) :
    token.brings next = [.subshell] ++ [.command] := by
  have noOperator : token.isSymbol redirectOperators = false :=
    isSymbol_of_isMark opens (by decide) (by decide)
  have noPipe : token.isMark pipe = false := isMark_of_isMark opens (by decide)
  have noSemicolon : token.isMark semicolon = false := isMark_of_isMark opens (by decide)
  simp [Token.brings, Token.separates, opens, noOperator, noPipe, noSemicolon]

/-- A semicolon brings a command only if it separates. -/
theorem brings_of_semicolon (semi : token.isMark semicolon) :
    token.brings next = if token.separates next then [.command] else [] := by
  have noOperator : token.isSymbol redirectOperators = false :=
    isSymbol_of_isMark semi (by decide) (by decide)
  have noPipe : token.isMark pipe = false := isMark_of_isMark semi (by decide)
  have noParen : token.isMark openParen = false := isMark_of_isMark semi (by decide)
  simp [Token.brings, noOperator, noPipe, noParen]

theorem brings_of_redirect (redirects : token.isSymbol redirectOperators) :
    token.brings next = [.redirect] := by
  have noMark (mark : Char) (apart : String.singleton mark ∉ redirectOperators) :
      token.isMark mark = false := by
    rw [Bool.eq_false_iff]
    intro found
    rw [isSymbol_of_isMark found (by decide) apart] at redirects
    cases redirects
  simp [Token.brings, Token.separates, redirects, noMark pipe (by decide),
    noMark openParen (by decide), noMark semicolon (by decide)]

theorem brings_of_kind (symbol : token.kind ≠ .symbol) : token.brings next = [] := by
  simp [Token.brings, Token.separates, Token.isMark, Token.isSymbol, symbol]

theorem brings_of_isWord (isWord : token.isWord) : token.brings next = [] := by
  refine brings_of_kind fun symbol => ?_
  rw [isWord_of_symbol symbol] at isWord
  cases isWord

/-- No other mark brings anything. -/
theorem brings_of_isMark {mark : Char} (found : token.isMark mark)
    (operator : String.singleton mark ∉ redirectOperators)
    (apart : mark ≠ pipe ∧ mark ≠ openParen ∧ mark ≠ semicolon) : token.brings next = [] := by
  simp [Token.brings, Token.separates, isMark_of_isMark found apart.1,
    isMark_of_isMark found apart.2.1, isMark_of_isMark found apart.2.2,
    isSymbol_of_isMark found (by decide) operator]

theorem brings_of_opensQuote (opens : token.isSymbol (quoteMarks.map String.singleton)) :
    token.brings next = [] := by
  obtain ⟨symbol, mark, member, value⟩ := opensQuote_iff.mp opens
  have found : token.isMark mark := Token.isMark_iff.mpr ⟨symbol, value⟩
  simp only [quoteMarks, List.mem_cons, List.not_mem_nil, or_false] at member
  rcases member with rfl | rfl
  · exact brings_of_isMark found (by decide) (by decide)
  · exact brings_of_isMark found (by decide) (by decide)

theorem brings_of_closesQuote (opens : opening.isSymbol (quoteMarks.map String.singleton))
    (closes : token.isSymbol [opening.value]) : token.brings next = [] := by
  obtain ⟨_, mark, member, value⟩ := opensQuote_iff.mp opens
  rw [value] at closes
  exact brings_of_opensQuote
    (opensQuote_iff.mpr ⟨kind_of_isMark closes, mark, member, (Token.isMark_iff.mp closes).2⟩)

theorem brings_of_assigns (assigned : Grammar.assigns (some token)) : token.brings next = [] := by
  simp only [Grammar.assigns, Option.any_some, Bool.and_eq_true] at assigned
  exact brings_of_isMark assigned.1 (by decide) (by decide)

end Brings

namespace Grammar

/-! ## The census of phrases -/

/-- The tokens bring so many constructs of a kind, beside those that were owed before. -/
structure Counts (kind : Construct) (owed : List Construct) (ts : List Token)
    (next : Option Token) (total : Nat) : Prop where
  eq : owed.count kind + (brought next ts).count kind = total

namespace Counts

variable {kind : Construct} {owed : List Construct} {ts us : List Token} {token : Token}
  {next : Option Token} {total more : Nat}

theorem nil : Counts kind [] [] next 0 :=
  ⟨rfl⟩

/-- What a token brings has been owed by what comes after it. -/
theorem cons (brings : token.brings (ts.head?.or next) = owed)
    (counts : Counts kind owed ts next total) : Counts kind [] (token :: ts) next total := by
  refine ⟨?_⟩
  rw [brought, brings, List.count_append, List.count_nil, counts.eq, Nat.zero_add]

theorem append (counts : Counts kind owed ts (us.head?.or next) total)
    (later : Counts kind [] us next more) : Counts kind owed (ts ++ us) next (total + more) := by
  have first := counts.eq
  have second := later.eq
  refine ⟨?_⟩
  rw [brought_append, List.count_append, ← first, ← second, List.count_nil, Nat.zero_add,
    Nat.add_assoc]

theorem owe (counts : Counts kind owed ts next total) (before : List Construct) :
    Counts kind (before ++ owed) ts next (total + before.count kind) := by
  have only := counts.eq
  refine ⟨?_⟩
  rw [List.count_append]
  omega

theorem congr (counts : Counts kind owed ts next total) (same : total = more) :
    Counts kind owed ts next more :=
  same ▸ counts

end Counts

/-- A semicolon in front of a phrase separates. -/
theorem OpensPhrase.separates {separator : Token} {ts us : List Token} {next : Option Token}
    (opens : OpensPhrase ts) (mark : separator.isMark semicolon) :
    separator.separates ((ts ++ us).head?.or next) := by
  obtain ⟨first, rest, rfl, apart⟩ := opens
  have noClosing : first.isMark closeParen = false := apart closeParen (by simp)
  simp [Token.separates, mark, noClosing]

theorem separates_at_end {separator : Token} {next : Option Token}
    (ends : next.all (·.isMark closeParen)) : separator.separates next = false := by
  cases next with
  | none => simp [Token.separates]
  | some token =>
    rw [Option.all_some] at ends
    simp [Token.separates, ends]

variable {kind : Construct}

mutual

theorem SubstitutionPhrase.counts {ts : List Token} {next : Option Token} {node : Node} :
    SubstitutionPhrase ts node → Counts kind [] ts next (node.tally kind)
  | .name mark name => by
    rw [Node.tally_identifier]
    refine .cons (brings_of_isMark mark (by decide) (by decide)) ?_
    exact .cons (brings_of_kind (by simp [name])) .nil
  | .subshell mark opens phrase closes => by
    rw [Node.tally_subshell]
    refine .cons (brings_of_isMark mark (by decide) (by decide)) ?_
    refine .cons (brings_of_openParen opens) (.owe ?_ [.subshell])
    refine .append (phrase.counts ?_) (.cons (brings_of_isMark closes (by decide) (by decide)) .nil)
    exact closes

theorem InterpolationsPhrase.counts {ts : List Token} {next : Option Token} {parts : List Node} :
    InterpolationsPhrase ts parts → Counts kind [] ts next (Node.tallyAll kind parts)
  | .nil => by
    rw [Node.tallyAll_nil]
    exact .nil
  | .cons phrase text phrases => by
    rw [Node.tallyAll_cons, Node.tallyAll_cons, Node.tally_string, Nat.zero_add]
    exact phrase.counts.append (phrases.counts.cons (brings_of_kind (by simp [text])))

theorem QuotePhrase.counts {ts : List Token} {next : Option Token} {node : Node} :
    QuotePhrase ts node → Counts kind [] ts next (node.tally kind)
  | .plain opens text closes => by
    rw [Node.tally_string]
    refine .cons (brings_of_opensQuote opens) (.cons (brings_of_kind (by simp [text])) ?_)
    exact .cons (brings_of_closesQuote opens closes) .nil
  | .mixed opens text phrases _ closes => by
    rw [Node.tally_quote, Node.tallyAll_cons, Node.tally_string, Nat.zero_add]
    refine .cons (brings_of_opensQuote opens) (.cons (brings_of_kind (by simp [text])) ?_)
    exact phrases.counts.append (.cons (brings_of_closesQuote opens closes) .nil)

theorem ValuePhrase.counts {ts : List Token} {next : Option Token} {node : Node} :
    ValuePhrase ts node → Counts kind [] ts next (node.tally kind)
  | .word isWord => by
    rw [Node.tally_literal]
    exact Counts.nil.cons (brings_of_isWord isWord)
  | .wildcard kind => by
    rw [Node.tally_wildcard]
    exact Counts.nil.cons (brings_of_kind (by simp [kind]))
  | .substitution phrase => phrase.counts
  | .quote phrase => phrase.counts

theorem AssignmentPhrase.counts {ts : List Token} {next after : Option Token} {node : Node} :
    AssignmentPhrase ts after node → Counts kind [] ts next (node.tally kind)
  | .bare word assigned _ => by
    rw [Node.tally_assign, Option.toList_none, Node.tallyAll_nil]
    refine .cons (brings_of_kind (by simp [word])) ?_
    exact .cons (brings_of_assigns assigned) .nil
  | .valued word assigned _ phrase => by
    rw [Node.tally_assign, Option.toList_some, Node.tallyAll_cons, Node.tallyAll_nil]
    refine .cons (brings_of_kind (by simp [word])) ?_
    exact .cons (brings_of_assigns assigned) phrase.counts

theorem RedirectPhrase.counts {ts : List Token} {next : Option Token} {node : Node} :
    RedirectPhrase ts node → Counts kind [] ts next (node.tally kind)
  | .mk redirects phrase => by
    rw [Node.tally_redirect]
    exact (phrase.counts.owe [.redirect]).cons (brings_of_redirect redirects)

theorem LeadingPhrase.counts {ts : List Token} {next after : Option Token}
    {redirects assignments : List Node} :
    LeadingPhrase ts after redirects assignments →
      Counts kind [] ts next (Node.tallyAll kind assignments + Node.tallyAll kind redirects)
  | .nil => by
    rw [Node.tallyAll_nil]
    exact .nil
  | .assignment phrase _ phrases => by
    rw [Node.tallyAll_cons, Nat.add_assoc]
    exact phrase.counts.append phrases.counts
  | .redirect phrase phrases => by
    rw [Node.tallyAll_cons, Nat.add_left_comm]
    exact phrase.counts.append phrases.counts

theorem HeadPhrase.counts {ts : List Token} {next after : Option Token} {node : Node} :
    HeadPhrase ts after node → Counts kind [] ts next (node.tally kind)
  | .word isWord _ => by
    rw [Node.tally_literal]
    exact Counts.nil.cons (brings_of_isWord isWord)
  | .substitution phrase => phrase.counts

theorem ArgumentPhrase.counts {ts : List Token} {next after : Option Token} {node : Node} :
    ArgumentPhrase ts after node → Counts kind [] ts next (node.tally kind)
  | .assignment phrase => phrase.counts
  | .sign mark => by
    rw [Node.tally_literal]
    exact Counts.nil.cons (brings_of_isMark mark (by decide) (by decide))
  | .value phrase _ => phrase.counts

theorem TrailingPhrase.counts {ts : List Token} {next : Option Token} {args redirects : List Node} :
    TrailingPhrase ts args redirects →
      Counts kind [] ts next (Node.tallyAll kind args + Node.tallyAll kind redirects)
  | .nil => by
    rw [Node.tallyAll_nil]
    exact .nil
  | .argument phrase phrases => by
    rw [Node.tallyAll_cons, Nat.add_assoc]
    exact phrase.counts.append phrases.counts
  | .redirect phrase phrases => by
    rw [Node.tallyAll_cons, Nat.add_left_comm]
    exact phrase.counts.append phrases.counts

/-- What stands before a command owes it. -/
theorem CommandPhrase.counts {ts : List Token} {next : Option Token} {node : Node} :
    CommandPhrase ts node → Counts kind [.command] ts next (node.tally kind)
  | .headed leading head trailing => by
    refine .congr (.owe (.append leading.counts (head.counts.append trailing.counts)) [.command]) ?_
    rw [Node.tally_command, Option.toList_some, Node.tallyAll_cons, Node.tallyAll_nil,
      Node.tallyAll_append]
    omega
  | .headless leading _ => by
    refine .congr (.owe leading.counts [.command]) ?_
    rw [Node.tally_command, Option.toList_none, Node.tallyAll_nil]
    omega

theorem StagesPhrase.counts {ts : List Token} {next : Option Token} {stages : List Node} :
    StagesPhrase ts stages → Counts kind [] ts next
      (Node.tallyAll kind stages + stages.length * [Construct.pipe].count kind)
  | .nil => by
    rw [Node.tallyAll_nil, List.length_nil, Nat.zero_mul]
    exact .nil
  | .cons mark phrase phrases => by
    refine .congr (.cons (brings_of_pipe mark) (.owe (phrase.counts.append phrases.counts) [.pipe])) ?_
    rw [Node.tallyAll_cons, List.length_cons, Nat.succ_mul]
    omega

theorem PipelinePhrase.counts {ts : List Token} {next : Option Token} {node : Node} :
    PipelinePhrase ts node → Counts kind [.command] ts next (node.tally kind)
  | .mk phrase phrases => by
    rw [Node.tally_foldl_pipe, Nat.add_assoc]
    exact phrase.counts.append phrases.counts

theorem TailPhrase.counts {ts : List Token} {next : Option Token} {items : List Node}
    (ends : next.all (·.isMark closeParen)) :
    TailPhrase ts items → Counts kind [] ts next (Node.tallyAll kind items)
  | .nil => by
    rw [Node.tallyAll_nil]
    exact .nil
  | .trailing mark => by
    rw [Node.tallyAll_nil]
    refine Counts.nil.cons ?_
    rw [brings_of_semicolon mark, List.head?_nil, Option.none_or, separates_at_end ends]
    rfl
  | .cons mark phrase phrases => by
    rw [Node.tallyAll_cons]
    refine (phrase.counts.append (phrases.counts ends)).cons ?_
    rw [brings_of_semicolon mark, phrase.opens.separates mark]
    rfl

/-- Each construct of a list but its first command is brought by a token. -/
theorem ListPhrase.counts {ts : List Token} {next : Option Token} {node : Node}
    (ends : next.all (·.isMark closeParen)) :
    ListPhrase ts node → Counts kind [.command] ts next (node.tally kind)
  | .single phrase tail => by
    have items := phrase.counts.append (tail.counts ends)
    rwa [Node.tallyAll_nil, Nat.add_zero] at items
  | .sequence phrase tail => by
    rw [Node.tally_sequence, Node.tallyAll_cons]
    exact phrase.counts.append (tail.counts ends)

end

end Grammar

/-! ## The census of tokens -/

/-- The number of bars. -/
def bars (tokens : List Token) : Nat :=
  tokens.countP (·.isMark pipe)

/-- The number of opening parentheses. -/
def openings (tokens : List Token) : Nat :=
  tokens.countP (·.isMark openParen)

/-- The number of redirect operators. -/
def redirections (tokens : List Token) : Nat :=
  tokens.countP (·.isSymbol redirectOperators)

/-- The number of semicolons that separate, with comments out of sight. -/
def separators : List Token → Nat
  | [] => 0
  | token :: rest =>
    separators rest + if token.separates (withoutComments rest).head? then 1 else 0

section Census

variable (token : Token) (next : Option Token) (tokens : List Token)

/-- A token brings one of a kind or none. -/
theorem count_brings :
    (token.brings next).count .pipe = (if token.isMark pipe then 1 else 0) ∧
      (token.brings next).count .subshell = (if token.isMark openParen then 1 else 0) ∧
      (token.brings next).count .redirect = (if token.isSymbol redirectOperators then 1 else 0) ∧
      (token.brings next).count .command = (if token.isMark pipe then 1 else 0) +
        (if token.isMark openParen then 1 else 0) + (if token.separates next then 1 else 0) := by
  rw [Token.brings]
  cases token.isMark pipe <;> cases token.isMark openParen <;>
    cases token.isSymbol redirectOperators <;> cases token.separates next <;>
    exact ⟨rfl, rfl, rfl, rfl⟩

/-- What each token brings by itself can be counted with the comments. -/
theorem count_brought {kind : Construct} {test : Token → Bool}
    (brings : ∀ token next, (token.brings next).count kind = if test token then 1 else 0) :
    (brought next (withoutComments tokens)).count kind = tokens.countP test := by
  induction tokens with
  | nil => rfl
  | cons token rest ih =>
    rw [List.countP_cons, ← ih, ← brings token ((withoutComments rest).head?.or next)]
    by_cases comment : token.kind = .comment
    · rw [withoutComments_comment comment, brings_of_kind (by simp [comment]), List.count_nil,
        Nat.add_zero]
    · rw [withoutComments_cons comment, brought, List.count_append, Nat.add_comm]

theorem count_command_brought : (brought none (withoutComments tokens)).count .command =
    bars tokens + openings tokens + separators tokens := by
  induction tokens with
  | nil => rfl
  | cons token rest ih =>
    have itself := (count_brings token (withoutComments rest).head?).2.2.2
    rw [bars, openings, separators, List.countP_cons, List.countP_cons, ← bars, ← openings]
    by_cases comment : token.kind = .comment
    · rw [brings_of_kind (by simp [comment]), List.count_nil] at itself
      rw [withoutComments_comment comment, ih]
      omega
    · rw [withoutComments_cons comment, brought, Option.or_none, List.count_append, ih, itself]
      omega

end Census

open Grammar

section Parsed

variable {tokens : List Token} {maxDepth : Int} {tree : Node}

/-- The tokens bring all of a tree but its first command. -/
theorem tally_of_parse (some : ∃ token ∈ tokens, token.kind ≠ .comment)
    (parsed : parse tokens maxDepth = .ok tree) (kind : Construct) :
    tree.tally kind = [Construct.command].count kind +
      (brought none (withoutComments tokens)).count kind := by
  have phrase := ((parse_eq_ok_iff (withoutComments_ne_nil some)).mp parsed).1
  exact (phrase.counts rfl).eq.symm

/-- The numbers of bars, separators, parentheses and redirect operators tell how many nodes of each
kind a tree has, and what its plan comes to. -/
theorem census_of_parse (some : ∃ token ∈ tokens, token.kind ≠ .comment)
    (parsed : parse tokens maxDepth = .ok tree) :
    (tree.walk.countP Node.isPipe = bars tokens ∧
      tree.walk.countP Node.isSubshell = openings tokens ∧
      tree.walk.countP Node.isRedirect = redirections tokens ∧
      tree.walk.countP Node.isCommand =
        1 + bars tokens + separators tokens + openings tokens) ∧
    (tree.plan.effort.halves = 2 * (1 + 2 * bars tokens + separators tokens + 3 * openings tokens) +
      redirections tokens ∧ (tree.plan.effort.fractional ↔ 0 < redirections tokens)) ∧
    (tree.plan.requiresPipe ↔ 0 < bars tokens) ∧
      (tree.plan.requiresSubshell ↔ 0 < openings tokens) ∧
      (tree.plan.requiresRedirect ↔ 0 < redirections tokens) := by
  have brought := tally_of_parse some parsed
  have pipes : tree.tally .pipe = bars tokens := by
    rw [brought, count_brought none tokens fun token next => (count_brings token next).1]
    exact Nat.zero_add _
  have subshells : tree.tally .subshell = openings tokens := by
    rw [brought, count_brought none tokens fun token next => (count_brings token next).2.1]
    exact Nat.zero_add _
  have redirects : tree.tally .redirect = redirections tokens := by
    rw [brought, count_brought none tokens fun token next => (count_brings token next).2.2.1]
    exact Nat.zero_add _
  have commands : tree.tally .command =
      1 + (bars tokens + openings tokens + separators tokens) := by
    rw [brought, count_command_brought]
    rfl
  obtain ⟨halves, fractional⟩ := tree.plan_effort
  rw [Node.countP_isPipe, Node.countP_isSubshell, Node.countP_isRedirect, Node.countP_isCommand,
    Node.plan_requiresPipe, Node.plan_requiresSubshell, Node.plan_requiresRedirect, halves,
    fractional, pipes, subshells, redirects, commands]
  refine ⟨⟨rfl, rfl, rfl, by omega⟩, ⟨by omega, Iff.rfl⟩, Iff.rfl, Iff.rfl, Iff.rfl⟩

end Parsed

/-- Of the semicolons in `a $(b; c;) > d | e; # f` only the first one separates. -/
theorem census_of_list :
    ∃ tokens tree, tokenize "a $(b; c;) > d | e; # f" = .ok tokens ∧ parse tokens = .ok tree ∧
      (∃ token ∈ tokens, token.kind ≠ .comment) ∧ tree.walk.countP Node.isPipe = 1 ∧
      tree.walk.countP Node.isSubshell = 1 ∧ tree.walk.countP Node.isRedirect = 1 ∧
      tree.walk.countP Node.isCommand = 4 ∧ tree.plan.effort.halves = 15 ∧
      tree.plan.requiresPipe := by
  have parsed : parse
      [⟨.literal, "a", some 0, false, false⟩, ⟨.symbol, "$", some 2, false, false⟩,
        ⟨.symbol, "(", some 3, false, false⟩, ⟨.literal, "b", some 4, false, false⟩,
        ⟨.symbol, ";", some 5, false, false⟩, ⟨.literal, "c", some 7, false, false⟩,
        ⟨.symbol, ";", some 8, false, false⟩, ⟨.symbol, ")", some 9, false, false⟩,
        ⟨.symbol, ">", some 11, false, false⟩, ⟨.literal, "d", some 13, false, false⟩,
        ⟨.symbol, "|", some 15, false, false⟩, ⟨.literal, "e", some 17, false, false⟩,
        ⟨.symbol, ";", some 18, false, false⟩, ⟨.comment, "# f", some 20, false, false⟩] =
      .ok (.pipe (.command (some (.literal "a"))
          [.subshell (.sequence [.command (some (.literal "b")) [] [] [],
            .command (some (.literal "c")) [] [] []])] [.redirect ">" (.literal "d")] [])
        (.command (some (.literal "e")) [] [] [])) := rfl
  obtain ⟨⟨pipes, subshells, redirects, commands⟩, ⟨halves, _⟩, piped, _⟩ :=
    census_of_parse ⟨_, List.mem_cons_self, by decide⟩ parsed
  exact ⟨_, _, rfl, parsed, ⟨_, List.mem_cons_self, by decide⟩, pipes, subshells, redirects,
    commands, halves, piped.mpr (by decide)⟩

end ShellLine
