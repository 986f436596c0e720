import ShellLine.Proofs.Grammar.Phrase
import ShellLine.Proofs.Reading.Marks

/-! # The pieces of a phrase

A phrase is put together from small pieces: a token by itself, or a sigil with the name or the
parenthesis right after it. So there are no comments in a phrase, and no sigil that introduces
nothing: `ListPhrase.pieces`.
-/

namespace ShellLine.Grammar

open Alphabet

/-- Tokens without comments in which something introduced follows every sigil. -/
inductive Pieces : List Token → Prop
  | nil : Pieces []
  | single {token : Token} {ts : List Token} :
      token.kind ≠ .comment → token.isMark sigil = false → Pieces ts → Pieces (token :: ts)
  | insertion {opening first : Token} {ts : List Token} :
      opening.isMark sigil → first.introduced → Pieces ts → Pieces (opening :: first :: ts)

section Pieces

variable {ts us : List Token} {token : Token}

theorem Pieces.append (pieces : Pieces ts) (more : Pieces us) : Pieces (ts ++ us) := by
  induction pieces with
  | nil => exact more
  | single kept noSigil _ ih => exact .single kept noSigil ih
  | insertion mark first _ ih => exact .insertion mark first ih

theorem kept_of_introduced (first : token.introduced) : token.kind ≠ .comment := by
  simp only [Token.introduced, Bool.or_eq_true, beq_iff_eq] at first
  rcases first with name | opens
  · simp [name]
  · simp [kind_of_isMark opens]

/-- There are no comments in pieces. -/
theorem Pieces.kept (pieces : Pieces ts) : ∀ token ∈ ts, token.kind ≠ .comment := by
  induction pieces with
  | nil => exact List.forall_mem_nil _
  | single kept _ _ ih => exact List.forall_mem_cons.mpr ⟨kept, ih⟩
  | insertion mark first _ ih =>
    exact List.forall_mem_cons.mpr ⟨by simp [kind_of_isMark mark],
      List.forall_mem_cons.mpr ⟨kept_of_introduced first, ih⟩⟩

/-- Every sigil introduces the token after it. -/
theorem Pieces.introduced_after {before after : List Token} {mark : Token} (pieces : Pieces ts)
    (split : ts = before ++ mark :: after) (sigil : mark.isMark sigil) :
    ∃ first ∈ after.head?, first.introduced := by
  induction pieces generalizing before with
  | nil => simp at split
  | single _ noSigil _ ih =>
    cases before with
    | nil =>
      obtain ⟨rfl, rfl⟩ := List.cons.inj split
      rw [noSigil] at sigil
      cases sigil
    | cons _ before => exact ih (List.cons.inj split).2
  | @insertion opening first ts _ introduced _ ih =>
    cases before with
    | nil =>
      obtain ⟨rfl, rfl⟩ := List.cons.inj split
      exact ⟨first, rfl, introduced⟩
    | cons _ before =>
      cases before with
      | nil =>
        obtain ⟨rfl, rfl⟩ := List.cons.inj (List.cons.inj split).2
        rw [noSigil_of_introduced introduced] at sigil
        cases sigil
      | cons _ before => exact ih (List.cons.inj (List.cons.inj split).2).2

end Pieces

/-! ## Every phrase is made of pieces -/

section Tokens

variable {opening token : Token} {ts : List Token}

theorem Pieces.ofKind {kind : TokenKind} (found : token.kind = kind)
    (apart : kind ≠ .comment ∧ kind ≠ .symbol) (pieces : Pieces ts) : Pieces (token :: ts) :=
  .single (found ▸ apart.1) (by simp [Token.isMark, Token.isSymbol, found, apart.2]) pieces

theorem Pieces.ofWord (isWord : token.isWord) (pieces : Pieces ts) : Pieces (token :: ts) := by
  simp only [Token.isWord, Bool.or_eq_true, beq_iff_eq] at isWord
  rcases isWord with kind | kind <;> exact .ofKind kind (by decide) pieces

theorem Pieces.ofMark {mark : Char} (found : token.isMark mark) (apart : mark ≠ sigil)
    (pieces : Pieces ts) : Pieces (token :: ts) :=
  .single (by simp [kind_of_isMark found]) (isMark_of_isMark found apart) pieces

theorem Pieces.ofAssigns (assigned : assigns (some token)) (pieces : Pieces ts) :
    Pieces (token :: ts) := by
  simp only [assigns, Option.any_some, Bool.and_eq_true] at assigned
  exact .ofMark assigned.1 (by decide) pieces

theorem Pieces.ofRedirect (redirects : token.isSymbol redirectOperators) (pieces : Pieces ts) :
    Pieces (token :: ts) := by
  refine .single (by simp [kind_of_isSymbol redirects]) (Bool.eq_false_iff.mpr fun mark => ?_) pieces
  rw [isSymbol_of_isMark mark (by decide) (by decide)] at redirects
  cases redirects

theorem Pieces.ofQuote (opens : token.isSymbol (quoteMarks.map String.singleton))
    (pieces : Pieces ts) : Pieces (token :: ts) := by
  refine .single (by simp [kind_of_isSymbol opens]) (Bool.eq_false_iff.mpr fun mark => ?_) pieces
  rw [not_opensQuote mark (by decide)] at opens
  cases opens

theorem Pieces.ofClosing (opens : opening.isSymbol (quoteMarks.map String.singleton))
    (closes : token.isSymbol [opening.value]) (pieces : Pieces ts) : Pieces (token :: ts) := by
  refine .single (by simp [kind_of_isSymbol closes]) (Bool.eq_false_iff.mpr fun mark => ?_) pieces
  rw [not_closesQuote opens mark (by decide)] at closes
  cases closes

end Tokens

mutual

theorem SubstitutionPhrase.pieces {used : List Token} {node : Node} :
    SubstitutionPhrase used node → Pieces used
  | .name mark kind => .insertion mark (by simp [Token.introduced, kind]) .nil
  | .subshell mark opens phrase closes =>
    .insertion mark (by simp [Token.introduced, opens])
      (phrase.pieces.append (.ofMark closes (by decide) .nil))

theorem InterpolationsPhrase.pieces {used : List Token} {parts : List Node} :
    InterpolationsPhrase used parts → Pieces used
  | .nil => .nil
  | .cons phrase text phrases => phrase.pieces.append (.ofKind text (by decide) phrases.pieces)

theorem QuotePhrase.pieces {used : List Token} {node : Node} : QuotePhrase used node → Pieces used
  | .plain opens text closes =>
    .ofQuote opens (.ofKind text (by decide) (.ofClosing opens closes .nil))
  | .mixed opens text phrases _ closes =>
    .ofQuote opens (.ofKind text (by decide)
      (phrases.pieces.append (.ofClosing opens closes .nil)))

theorem ValuePhrase.pieces {used : List Token} {node : Node} : ValuePhrase used node → Pieces used
  | .word isWord => .ofWord isWord .nil
  | .wildcard kind => .ofKind kind (by decide) .nil
  | .substitution phrase => phrase.pieces
  | .quote phrase => phrase.pieces

theorem AssignmentPhrase.pieces {used : List Token} {next : Option Token} {node : Node} :
    AssignmentPhrase used next node → Pieces used
  | .bare word assigned _ => .ofKind word (by decide) (.ofAssigns assigned .nil)
  | .valued word assigned _ phrase => .ofKind word (by decide) (.ofAssigns assigned phrase.pieces)

theorem RedirectPhrase.pieces {used : List Token} {node : Node} :
    RedirectPhrase used node → Pieces used
  | .mk redirects phrase => .ofRedirect redirects phrase.pieces

theorem LeadingPhrase.pieces {used : List Token} {next : Option Token}
    {redirects assignments : List Node} :
    LeadingPhrase used next redirects assignments → Pieces used
  | .nil => .nil
  | .assignment phrase _ phrases => phrase.pieces.append phrases.pieces
  | .redirect phrase phrases => phrase.pieces.append phrases.pieces

theorem HeadPhrase.pieces {used : List Token} {next : Option Token} {node : Node} :
    HeadPhrase used next node → Pieces used
  | .word isWord _ => .ofWord isWord .nil
  | .substitution phrase => phrase.pieces

theorem ArgumentPhrase.pieces {used : List Token} {next : Option Token} {node : Node} :
    ArgumentPhrase used next node → Pieces used
  | .assignment phrase => phrase.pieces
  | .sign mark => .ofMark mark (by decide) .nil
  | .value phrase _ => phrase.pieces

theorem TrailingPhrase.pieces {used : List Token} {args redirects : List Node} :
    TrailingPhrase used args redirects → Pieces used
  | .nil => .nil
  | .argument phrase phrases => phrase.pieces.append phrases.pieces
  | .redirect phrase phrases => phrase.pieces.append phrases.pieces

theorem CommandPhrase.pieces {used : List Token} {node : Node} :
    CommandPhrase used node → Pieces used
  | .headed leading head trailing => leading.pieces.append (head.pieces.append trailing.pieces)
  | .headless leading _ => leading.pieces

theorem StagesPhrase.pieces {used : List Token} {stages : List Node} :
    StagesPhrase used stages → Pieces used
  | .nil => .nil
  | .cons mark phrase phrases =>
    .ofMark mark (by decide) (phrase.pieces.append phrases.pieces)

theorem PipelinePhrase.pieces {used : List Token} {node : Node} :
    PipelinePhrase used node → Pieces used
  | .mk phrase phrases => phrase.pieces.append phrases.pieces

theorem TailPhrase.pieces {used : List Token} {items : List Node} :
    TailPhrase used items → Pieces used
  | .nil => .nil
  | .trailing mark => .ofMark mark (by decide) .nil
  | .cons mark phrase phrases => .ofMark mark (by decide) (phrase.pieces.append phrases.pieces)

/-- A list is made of pieces. -/
theorem ListPhrase.pieces {used : List Token} {node : Node} : ListPhrase used node → Pieces used
  | .single phrase tail => phrase.pieces.append tail.pieces
  | .sequence phrase tail => phrase.pieces.append tail.pieces

end

end ShellLine.Grammar
