import ShellLine.Tree.Grammar

/-! # Phrases of the grammar

The grammar of shell lines as a relation between lists of tokens and trees, without a reader in it.
A phrase is a list of tokens that a symbol of the grammar derives; `ListPhrase` is the start symbol.

Only words and assignments depend on what follows them, and no further than by one token. Their
phrases are relative to that token, `next`, which is missing at the end of a command: what may
follow a command neither assigns nor starts a value.
-/

namespace ShellLine.Grammar

open Alphabet

/-- Whether the next token, if there is one, starts a value. -/
def startsValue (next : Option Token) : Bool :=
  next.any fun token => token.isWord || token.kind == .wildcard || token.isMark sigil ||
    token.isSymbol (quoteMarks.map String.singleton)

/-- Whether the next token, if there is one, is a sign that assigns to the word before it. -/
def assigns (next : Option Token) : Bool :=
  next.any fun token => token.isMark assign && token.joinedLeft

mutual

/-- `$` (name | `(` list `)`). -/
inductive SubstitutionPhrase : List Token → Node → Prop
  | name {opening name : Token} :
      opening.isMark sigil → name.kind = .identifier →
      SubstitutionPhrase [opening, name] (.identifier name.value)
  | subshell {opening paren closing : Token} {ts : List Token} {body : Node} :
      opening.isMark sigil → paren.isMark openParen → ListPhrase ts body →
      closing.isMark closeParen →
      SubstitutionPhrase (opening :: paren :: (ts ++ [closing])) (.subshell body)

/-- (substitution text)*, as the parts of a quote. -/
inductive InterpolationsPhrase : List Token → List Node → Prop
  | nil : InterpolationsPhrase [] []
  | cons {text : Token} {ts us : List Token} {inner : Node} {parts : List Node} :
      SubstitutionPhrase ts inner → text.kind = .fragment → InterpolationsPhrase us parts →
      InterpolationsPhrase (ts ++ text :: us) (inner :: .string text.value :: parts)

/-- mark text (substitution text)* mark. Text alone keeps its marks. -/
inductive QuotePhrase : List Token → Node → Prop
  | plain {opening text closing : Token} :
      opening.isSymbol (quoteMarks.map String.singleton) → text.kind = .fragment →
      closing.isSymbol [opening.value] →
      QuotePhrase [opening, text, closing] (.string (opening.value ++ text.value ++ opening.value))
  | mixed {opening text closing : Token} {ts : List Token} {parts : List Node} :
      opening.isSymbol (quoteMarks.map String.singleton) → text.kind = .fragment →
      InterpolationsPhrase ts parts → parts ≠ [] → closing.isSymbol [opening.value] →
      QuotePhrase (opening :: text :: (ts ++ [closing]))
        (.quote opening.value (.string text.value :: parts))

/-- word | wildcard | substitution | quote. -/
inductive ValuePhrase : List Token → Node → Prop
  | word {token : Token} : token.isWord → ValuePhrase [token] (.literal token.value)
  | wildcard {token : Token} :
      token.kind = .wildcard → ValuePhrase [token] (.wildcard token.value)
  | substitution {ts : List Token} {node : Node} :
      SubstitutionPhrase ts node → ValuePhrase ts node
  | quote {ts : List Token} {node : Node} : QuotePhrase ts node → ValuePhrase ts node

/-- word `=` value?, where the sign touches the word. There is a value exactly if the sign touches
what follows and that starts a value. -/
inductive AssignmentPhrase : List Token → Option Token → Node → Prop
  | bare {name sign : Token} {next : Option Token} :
      name.kind = .literal → assigns (some sign) → ¬ (sign.joinedRight ∧ startsValue next) →
      AssignmentPhrase [name, sign] next (.assign name.value none)
  | valued {name sign : Token} {ts : List Token} {next : Option Token} {value : Node} :
      name.kind = .literal → assigns (some sign) → sign.joinedRight → ValuePhrase ts value →
      AssignmentPhrase (name :: sign :: ts) next (.assign name.value (some value))

/-- operator value. -/
inductive RedirectPhrase : List Token → Node → Prop
  | mk {operator : Token} {ts : List Token} {target : Node} :
      operator.isSymbol redirectOperators → ValuePhrase ts target →
      RedirectPhrase (operator :: ts) (.redirect operator.value target)

/-- (assignment | redirect)*, in front of the head of a command. Only variables are assigned to. -/
inductive LeadingPhrase : List Token → Option Token → List Node → List Node → Prop
  | nil {next : Option Token} : LeadingPhrase [] next [] []
  | assignment {ts us : List Token} {next : Option Token} {name : String} {value : Option Node}
      {redirects assignments : List Node} :
      AssignmentPhrase ts (us.head?.or next) (.assign name value) → Text.isVariableName name →
      LeadingPhrase us next redirects assignments →
      LeadingPhrase (ts ++ us) next redirects (.assign name value :: assignments)
  | redirect {ts us : List Token} {next : Option Token} {node : Node}
      {redirects assignments : List Node} :
      RedirectPhrase ts node → LeadingPhrase us next redirects assignments →
      LeadingPhrase (ts ++ us) next (node :: redirects) assignments

/-- word | substitution. The name of a variable that is assigned to is no head. -/
inductive HeadPhrase : List Token → Option Token → Node → Prop
  | word {token : Token} {next : Option Token} :
      token.isWord →
      ¬ (token.kind = .literal ∧ Text.isVariableName token.value ∧ assigns next) →
      HeadPhrase [token] next (.literal token.value)
  | substitution {ts : List Token} {next : Option Token} {node : Node} :
      SubstitutionPhrase ts node → HeadPhrase ts next node

/-- assignment | `=` | value. A literal word that is assigned to is no argument of its own. -/
inductive ArgumentPhrase : List Token → Option Token → Node → Prop
  | assignment {ts : List Token} {next : Option Token} {node : Node} :
      AssignmentPhrase ts next node → ArgumentPhrase ts next node
  | sign {token : Token} {next : Option Token} :
      token.isMark assign → ArgumentPhrase [token] next (.literal token.value)
  | value {ts : List Token} {next : Option Token} {node : Node} :
      ValuePhrase ts node →
      ¬ ((∃ word, ts = [word] ∧ word.kind = .literal) ∧ assigns next) →
      ArgumentPhrase ts next node

/-- (argument | redirect)*, after the head of a command. -/
inductive TrailingPhrase : List Token → List Node → List Node → Prop
  | nil : TrailingPhrase [] [] []
  | argument {ts us : List Token} {node : Node} {args redirects : List Node} :
      ArgumentPhrase ts us.head? node → TrailingPhrase us args redirects →
      TrailingPhrase (ts ++ us) (node :: args) redirects
  | redirect {ts us : List Token} {node : Node} {args redirects : List Node} :
      RedirectPhrase ts node → TrailingPhrase us args redirects →
      TrailingPhrase (ts ++ us) args (node :: redirects)

/-- (assignment | redirect)* [head (argument | redirect)*], but not nothing at all. -/
inductive CommandPhrase : List Token → Node → Prop
  | headed {ts us vs : List Token} {head : Node}
      {args leadingRedirects trailingRedirects assignments : List Node} :
      LeadingPhrase ts us.head? leadingRedirects assignments → HeadPhrase us vs.head? head →
      TrailingPhrase vs args trailingRedirects →
      CommandPhrase (ts ++ (us ++ vs))
        (.command (some head) args (leadingRedirects ++ trailingRedirects) assignments)
  | headless {ts : List Token} {redirects assignments : List Node} :
      LeadingPhrase ts none redirects assignments → ts ≠ [] →
      CommandPhrase ts (.command none [] redirects assignments)

/-- (`|` command)*. -/
inductive StagesPhrase : List Token → List Node → Prop
  | nil : StagesPhrase [] []
  | cons {bar : Token} {ts us : List Token} {stage : Node} {stages : List Node} :
      bar.isMark pipe → CommandPhrase ts stage → StagesPhrase us stages →
      StagesPhrase (bar :: (ts ++ us)) (stage :: stages)

/-- command (`|` command)*, nested to the left. -/
inductive PipelinePhrase : List Token → Node → Prop
  | mk {ts us : List Token} {first : Node} {stages : List Node} :
      CommandPhrase ts first → StagesPhrase us stages →
      PipelinePhrase (ts ++ us) (stages.foldl .pipe first)

/-- (`;` pipeline)* `;`?. -/
inductive TailPhrase : List Token → List Node → Prop
  | nil : TailPhrase [] []
  | trailing {separator : Token} : separator.isMark semicolon → TailPhrase [separator] []
  | cons {separator : Token} {ts us : List Token} {item : Node} {items : List Node} :
      separator.isMark semicolon → PipelinePhrase ts item → TailPhrase us items →
      TailPhrase (separator :: (ts ++ us)) (item :: items)

/-- pipeline (`;` pipeline)* `;`?. A pipeline alone stands for itself. -/
inductive ListPhrase : List Token → Node → Prop
  | single {ts us : List Token} {tree : Node} :
      PipelinePhrase ts tree → TailPhrase us [] → ListPhrase (ts ++ us) tree
  | sequence {ts us : List Token} {first second : Node} {rest : List Node} :
      PipelinePhrase ts first → TailPhrase us (second :: rest) →
      ListPhrase (ts ++ us) (.sequence (first :: second :: rest))

end

/-! ## Phrases are not empty -/

theorem SubstitutionPhrase.ne_nil {used : List Token} {node : Node} :
    SubstitutionPhrase used node → used ≠ []
  | .name .. => by simp
  | .subshell .. => by simp

theorem QuotePhrase.ne_nil {used : List Token} {node : Node} : QuotePhrase used node → used ≠ []
  | .plain .. => by simp
  | .mixed .. => by simp

theorem ValuePhrase.ne_nil {used : List Token} {node : Node} : ValuePhrase used node → used ≠ []
  | .word _ => by simp
  | .wildcard _ => by simp
  | .substitution phrase => phrase.ne_nil
  | .quote phrase => phrase.ne_nil

theorem AssignmentPhrase.ne_nil {used : List Token} {next : Option Token} {node : Node} :
    AssignmentPhrase used next node → used ≠ []
  | .bare .. => by simp
  | .valued .. => by simp

theorem RedirectPhrase.ne_nil {used : List Token} {node : Node} :
    RedirectPhrase used node → used ≠ []
  | .mk .. => by simp

theorem ArgumentPhrase.ne_nil {used : List Token} {next : Option Token} {node : Node} :
    ArgumentPhrase used next node → used ≠ []
  | .assignment phrase => phrase.ne_nil
  | .sign _ => by simp
  | .value phrase _ => phrase.ne_nil

theorem HeadPhrase.ne_nil {used : List Token} {next : Option Token} {node : Node} :
    HeadPhrase used next node → used ≠ []
  | .word .. => by simp
  | .substitution phrase => phrase.ne_nil

end ShellLine.Grammar
