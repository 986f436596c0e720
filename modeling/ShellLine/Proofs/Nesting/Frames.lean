import ShellLine.Proofs.Reading.Marks

/-! # Nesting of tokens

Quotes and parentheses nest in each other. `WellNested` says how, as a grammar, and `follow` reads
the tokens one by one with the constructs that are still open as its state. What is followed to the
end is well nested: `wellNested_of_follow`.
-/

namespace ShellLine

open Alphabet

/-! ## The grammar of nesting -/

/-- Whether a token neither opens nor closes anything and is no quoted text. -/
def Token.plain (token : Token) : Bool :=
  token.kind != .fragment && !token.isSymbol (quoteMarks.map String.singleton) &&
    !token.isMark openParen && !token.isMark closeParen

theorem plain_of_kind {token : Token} (symbol : token.kind ≠ .symbol)
    (fragment : token.kind ≠ .fragment) : token.plain := by
  simp [Token.plain, Token.isMark, Token.isSymbol, symbol, fragment]

theorem plain_of_isWord {token : Token} (word : token.isWord) : token.plain := by
  simp only [Token.isWord, Bool.or_eq_true, beq_iff_eq] at word
  rcases word with kind | kind <;> exact plain_of_kind (by simp [kind]) (by simp [kind])

theorem plain_of_mark {mark : Char} (apart : mark ∉ quoteMarks ∧ mark ≠ openParen ∧ mark ≠ closeParen)
    {token : Token} (found : token.isMark mark) : token.plain := by
  simp [Token.plain, kind_of_isMark found, not_opensQuote found apart.1,
    isMark_of_isMark found apart.2.1, isMark_of_isMark found apart.2.2]

theorem apart_of_plainSymbols {c : Char} (symbol : c ∈ plainSymbols) :
    c ∉ quoteMarks ∧ c ≠ openParen ∧ c ≠ closeParen := by
  simp only [plainSymbols, List.mem_cons, List.not_mem_nil, or_false] at symbol
  rcases symbol with rfl | rfl | rfl <;> decide

theorem plain_of_operator {token : Token} (symbol : token.kind = .symbol)
    (operator : token.value ∈ redirectOperators) : token.plain := by
  have apart : ∀ value ∈ redirectOperators, value ∉ quoteMarks.map String.singleton ∧
      value ≠ String.singleton openParen ∧ value ≠ String.singleton closeParen := by decide
  obtain ⟨noQuote, noOpening, noClosing⟩ := apart token.value operator
  have noOpener : token.isSymbol (quoteMarks.map String.singleton) = false := by
    rw [Bool.eq_false_iff, ne_eq, opensQuote_iff]
    rintro ⟨_, mark, member, value⟩
    exact noQuote (value ▸ List.mem_map_of_mem member)
  have noParen : token.isMark openParen = false ∧ token.isMark closeParen = false := by
    simp [Token.isMark, Token.isSymbol, noOpening, noClosing]
  simp [Token.plain, symbol, noOpener, noParen]

mutual

/-- Tokens whose quotes and parentheses are closed inside each other. `stray` tells whether there
may be closing parentheses without a partner. -/
inductive WellNested : Bool → List Token → Prop
  | nil {stray : Bool} : WellNested stray []
  | plain {stray : Bool} {token : Token} {ts : List Token} :
      token.plain → WellNested stray ts → WellNested stray (token :: ts)
  | group {stray : Bool} {opening closing : Token} {inner ts : List Token} :
      opening.isMark openParen → WellNested false inner → closing.isMark closeParen →
      WellNested stray ts → WellNested stray (opening :: (inner ++ closing :: ts))
  | quote {stray : Bool} {block ts : List Token} :
      QuoteBlock block → WellNested stray ts → WellNested stray (block ++ ts)
  | stray {closing : Token} {ts : List Token} :
      closing.isMark closeParen → WellNested true ts → WellNested true (closing :: ts)

/-- mark text (insertion text)* mark, with the same mark at both ends. -/
inductive QuoteBlock : List Token → Prop
  | mk {opening text closing : Token} {ts : List Token} :
      opening.isSymbol (quoteMarks.map String.singleton) → text.kind = .fragment → Insertions ts →
      closing.isSymbol [opening.value] → QuoteBlock (opening :: text :: (ts ++ [closing]))

/-- (insertion text)*. -/
inductive Insertions : List Token → Prop
  | nil : Insertions []
  | cons {text : Token} {ts us : List Token} :
      Insertion ts → text.kind = .fragment → Insertions us → Insertions (ts ++ text :: us)

/-- `$` [name | `(` tokens `)`]. -/
inductive Insertion : List Token → Prop
  | bare {opening : Token} : opening.isMark sigil → Insertion [opening]
  | name {opening name : Token} :
      opening.isMark sigil → name.kind = .identifier → Insertion [opening, name]
  | subshell {opening paren closing : Token} {inner : List Token} :
      opening.isMark sigil → paren.isMark openParen → WellNested false inner →
      closing.isMark closeParen → Insertion (opening :: paren :: (inner ++ [closing]))

end

/-! ## Following tokens -/

/-- What a quote waits for. -/
inductive QuotePhase where
  /-- Text. -/
  | text
  /-- A sigil or the closing mark. -/
  | mark
  /-- What comes after a sigil. -/
  | name
deriving DecidableEq, Repr, Inhabited

/-- A construct that was opened and is still to be closed. -/
inductive Frame where
  | group
  | quoted (mark : String) (phase : QuotePhase)
deriving DecidableEq, Repr, Inhabited

/-- What is open after a token outside quoted text. -/
def advanceBetween (stray : Bool) (frames : List Frame) (token : Token) : Option (List Frame) :=
  if token.kind = .fragment then none
  else if token.isSymbol (quoteMarks.map String.singleton) then
    some (.quoted token.value .text :: frames)
  else if token.isMark openParen then some (.group :: frames)
  else if token.isMark closeParen then
    match frames with
    | .group :: outer => some outer
    | _ => if stray then some frames else none
  else some frames

/-- What is open after a token, innermost first, if the token may stand there. -/
def advance (stray : Bool) (frames : List Frame) (token : Token) : Option (List Frame) :=
  match frames with
  | .quoted mark .text :: outer =>
    if token.kind = .fragment then some (.quoted mark .mark :: outer) else none
  | .quoted mark .mark :: outer =>
    if token.isMark sigil then some (.quoted mark .name :: outer)
    else if token.isSymbol [mark] then some outer
    else none
  | .quoted mark .name :: outer =>
    if token.kind = .identifier then some (.quoted mark .text :: outer)
    else if token.isMark openParen then some (.group :: .quoted mark .text :: outer)
    else if token.kind = .fragment then some (.quoted mark .mark :: outer)
    else none
  | frames => advanceBetween stray frames token

/-- What is open after some tokens. -/
def follow (stray : Bool) (frames : List Frame) (tokens : List Token) : Option (List Frame) :=
  tokens.foldlM (advance stray) frames

/-- Nothing is open, or a parenthesis inside of everything else. -/
def Between (frames : List Frame) : Prop :=
  frames = [] ∨ ∃ outer, frames = .group :: outer

section Following

variable {stray : Bool} {frames next : List Frame} {token : Token} {first second : List Token}

@[simp]
theorem follow_nil : follow stray frames [] = some frames :=
  rfl

@[simp]
theorem follow_cons : follow stray frames (token :: first) =
    (advance stray frames token).bind fun next => follow stray next first :=
  rfl

@[simp]
theorem follow_append : follow stray frames (first ++ second) =
    (follow stray frames first).bind fun next => follow stray next second :=
  List.foldlM_append

theorem between_or_quoted (frames : List Frame) :
    Between frames ∨ ∃ mark phase outer, frames = .quoted mark phase :: outer := by
  cases frames with
  | nil => exact .inl (.inl rfl)
  | cons frame outer =>
    cases frame with
    | group => exact .inl (.inr ⟨outer, rfl⟩)
    | quoted mark phase => exact .inr ⟨mark, phase, outer, rfl⟩

theorem advance_of_between (between : Between frames) :
    advance stray frames token = advanceBetween stray frames token := by
  rcases between with rfl | ⟨outer, rfl⟩ <;> rfl

/-- Plain tokens leave everything as it is. -/
theorem advance_of_plain (between : Between frames) (plain : token.plain) :
    advance stray frames token = some frames := by
  simp only [Token.plain, Bool.and_eq_true, bne_iff_ne, Bool.not_eq_true'] at plain
  simp [advance_of_between between, advanceBetween, plain]

theorem advance_of_opensQuote (between : Between frames)
    (opens : token.isSymbol (quoteMarks.map String.singleton)) :
    advance stray frames token = some (.quoted token.value .text :: frames) := by
  simp [advance_of_between between, advanceBetween, kind_of_isSymbol opens, opens]

theorem advance_of_openParen (between : Between frames) (opens : token.isMark openParen) :
    advance stray frames token = some (.group :: frames) := by
  have noQuote := not_opensQuote opens (by decide)
  simp [advance_of_between between, advanceBetween, kind_of_isMark opens, noQuote, opens]

private theorem advanceBetween_of_closeParen (closes : token.isMark closeParen) :
    advanceBetween stray frames token =
      match frames with
      | .group :: outer => some outer
      | _ => if stray then some frames else none := by
  have noQuote := not_opensQuote closes (by decide)
  have noOpening : token.isMark openParen = false := isMark_of_isMark closes (by decide)
  simp [advanceBetween, kind_of_isMark closes, noQuote, noOpening, closes]

theorem advance_of_closeParen (closes : token.isMark closeParen) :
    advance stray (.group :: next) token = some next := by
  rw [advance_of_between (.inr ⟨next, rfl⟩), advanceBetween_of_closeParen closes]

/-- A closing parenthesis without a partner stands only where it is let through. -/
theorem advance_nil_of_closeParen (closes : token.isMark closeParen) :
    advance stray [] token = if stray then some [] else none := by
  rw [advance_of_between (.inl rfl), advanceBetween_of_closeParen closes]

/-- What is strictly open is open with stray parentheses let through, too. -/
theorem advance_mono (advanced : advance false frames token = some next) :
    advance true frames token = some next := by
  rcases between_or_quoted frames with between | ⟨mark, phase, outer, rfl⟩
  · rw [advance_of_between between] at advanced ⊢
    by_cases closes : token.isMark closeParen
    · rw [advanceBetween_of_closeParen closes] at advanced ⊢
      rcases between with rfl | ⟨outer, rfl⟩
      · cases advanced
      · exact advanced
    · simpa [advanceBetween, closes] using advanced
  · cases phase <;> exact advanced

/-- What is strictly followed is followed with stray parentheses let through, too. -/
theorem follow_mono (followed : follow false frames first = some next) :
    follow true frames first = some next := by
  induction first generalizing frames with
  | nil => exact followed
  | cons token rest ih =>
    rw [follow_cons, Option.bind_eq_some_iff] at followed ⊢
    obtain ⟨middle, advanced, followed⟩ := followed
    exact ⟨middle, advance_mono advanced, ih followed⟩

/-- A quote takes text at its start, after a name and after a sigil alone. -/
theorem advance_of_fragment {mark : String} {phase : QuotePhase} (waits : phase ≠ .mark)
    (fragment : token.kind = .fragment) :
    advance stray (.quoted mark phase :: next) token = some (.quoted mark .mark :: next) := by
  cases phase with
  | text => simp [advance, fragment]
  | mark => exact absurd rfl waits
  | name => simp [advance, fragment, Token.isMark, Token.isSymbol]

theorem advance_of_sigil {mark : String} (found : token.isMark sigil) :
    advance stray (.quoted mark .mark :: next) token = some (.quoted mark .name :: next) := by
  simp [advance, found]

theorem advance_of_name {mark : String} (name : token.kind = .identifier) :
    advance stray (.quoted mark .name :: next) token = some (.quoted mark .text :: next) := by
  simp [advance, name]

/-- A parenthesis after the sigil opens a group, and text has to follow that. -/
theorem advance_of_subshell {mark : String} (opens : token.isMark openParen) :
    advance stray (.quoted mark .name :: next) token =
      some (.group :: .quoted mark .text :: next) := by
  simp [advance, kind_of_isMark opens, opens]

theorem advance_of_closesQuote {mark : Char} (quote : mark ∈ quoteMarks)
    (closes : token.isMark mark) :
    advance stray (.quoted (String.singleton mark) .mark :: next) token = some next := by
  have noSigil : token.isMark sigil = false := by
    refine isMark_of_isMark closes ?_
    rintro rfl
    exact absurd quote (by decide)
  have same : token.isSymbol [String.singleton mark] := closes
  simp [advance, noSigil, same]

/-- A substitution leads from the first constructs to the second ones. -/
def Bridges (stray : Bool) (pre post : List Frame) : Prop :=
  ∃ middle, (∀ token : Token, token.isMark sigil → advance stray pre token = some middle) ∧
    (∀ token : Token, token.kind = .identifier → advance stray middle token = some post) ∧
    ∀ token : Token, token.isMark openParen → advance stray middle token = some (.group :: post)

theorem bridges_of_between (between : Between frames) : Bridges stray frames frames := by
  refine ⟨frames, fun token mark => ?_, fun token name => ?_, fun token opens => ?_⟩
  · exact advance_of_plain between (plain_of_mark (by decide) mark)
  · exact advance_of_plain between (plain_of_kind (by simp [name]) (by simp [name]))
  · exact advance_of_openParen between opens

theorem bridges_in_quote (mark : String) (outer : List Frame) :
    Bridges stray (.quoted mark .mark :: outer) (.quoted mark .text :: outer) :=
  ⟨.quoted mark .name :: outer, fun _ mark => advance_of_sigil mark,
    fun _ name => advance_of_name name, fun _ opens => advance_of_subshell opens⟩

end Following

/-! ## What is followed to the end is well nested -/

/-- Tokens that close what is open, innermost first, and are well nested otherwise. -/
def Closes (stray : Bool) : List Frame → List Token → Prop
  | [], ts => WellNested stray ts
  | .group :: outer, ts => ∃ inner closing later, ts = inner ++ closing :: later ∧
    WellNested false inner ∧ closing.isMark closeParen ∧ Closes stray outer later
  | .quoted mark .text :: outer, ts => ∃ text rest closing later,
    ts = text :: (rest ++ closing :: later) ∧ text.kind = .fragment ∧ Insertions rest ∧
      closing.isSymbol [mark] ∧ Closes stray outer later
  | .quoted mark .mark :: outer, ts => ∃ rest closing later, ts = rest ++ closing :: later ∧
    Insertions rest ∧ closing.isSymbol [mark] ∧ Closes stray outer later
  | .quoted mark .name :: outer, ts => ∃ rest closing later, ts = rest ++ closing :: later ∧
    (∀ opening : Token, opening.isMark sigil → Insertions (opening :: rest)) ∧
      closing.isSymbol [mark] ∧ Closes stray outer later

section Closing

variable {stray : Bool} {frames next : List Frame} {token : Token} {ts later : List Token}

/-- Outside quoted text a well nested piece may come first. -/
theorem Closes.prepend {used : List Token} (between : Between frames)
    (piece : ∀ stray ts, WellNested stray ts → WellNested stray (used ++ ts))
    (closes : Closes stray frames later) : Closes stray frames (used ++ later) := by
  rcases between with rfl | ⟨outer, rfl⟩
  · exact piece stray later closes
  · obtain ⟨inner, closing, rest, rfl, nested, mark, outside⟩ := closes
    exact ⟨used ++ inner, closing, rest, by simp, piece false inner nested, mark, outside⟩

theorem closes_of_advanceBetween (between : Between frames)
    (advanced : advanceBetween stray frames token = some next) (closes : Closes stray next ts) :
    Closes stray frames (token :: ts) := by
  unfold advanceBetween at advanced
  split at advanced
  case isTrue => cases advanced
  case isFalse noFragment =>
    split at advanced
    case isTrue opens =>
      cases advanced
      obtain ⟨text, rest, closing, later, rfl, fragment, phrases, mark, outside⟩ := closes
      have block : QuoteBlock (token :: text :: (rest ++ [closing])) :=
        .mk opens fragment phrases mark
      simpa using outside.prepend between fun _ _ nested => .quote block nested
    case isFalse noQuote =>
      split at advanced
      case isTrue opens =>
        cases advanced
        obtain ⟨inner, closing, later, rfl, nested, mark, outside⟩ := closes
        have grouped : ∀ stray ts, WellNested stray ts →
            WellNested stray ((token :: (inner ++ [closing])) ++ ts) := by
          intro stray ts others
          simpa using WellNested.group opens nested mark others
        simpa using outside.prepend between grouped
      case isFalse noOpening =>
        split at advanced
        case isTrue mark =>
          rcases between with rfl | ⟨outer, rfl⟩
          · cases stray with
            | false => cases advanced
            | true =>
              cases advanced
              exact .stray mark closes
          · cases advanced
            exact ⟨[], token, ts, rfl, .nil, mark, closes⟩
        case isFalse noClosing =>
          cases advanced
          have plain : token.plain := by
            simp [Token.plain, noFragment, noQuote, noOpening, noClosing]
          have single : ∀ stray ts, WellNested stray ts → WellNested stray ([token] ++ ts) :=
            fun _ _ nested => .plain plain nested
          exact closes.prepend between single

theorem closes_of_advance (advanced : advance stray frames token = some next)
    (closes : Closes stray next ts) : Closes stray frames (token :: ts) := by
  unfold advance at advanced
  split at advanced
  case h_1 mark outer =>
    split at advanced
    case isFalse => cases advanced
    case isTrue fragment =>
      cases advanced
      obtain ⟨rest, closing, later, rfl, phrases, closed, outside⟩ := closes
      exact ⟨token, rest, closing, later, rfl, fragment, phrases, closed, outside⟩
  case h_2 mark outer =>
    split at advanced
    case isTrue opens =>
      cases advanced
      obtain ⟨rest, closing, later, rfl, phrases, closed, outside⟩ := closes
      exact ⟨token :: rest, closing, later, rfl, phrases token opens, closed, outside⟩
    case isFalse =>
      split at advanced
      case isFalse => cases advanced
      case isTrue closed =>
        cases advanced
        exact ⟨[], token, ts, rfl, .nil, closed, closes⟩
  case h_3 mark outer =>
    split at advanced
    case isTrue name =>
      cases advanced
      obtain ⟨text, rest, closing, later, rfl, fragment, phrases, closed, outside⟩ := closes
      refine ⟨token :: text :: rest, closing, later, rfl, fun opening sigil => ?_, closed, outside⟩
      exact .cons (.name sigil name) fragment phrases
    case isFalse =>
      split at advanced
      case isTrue opens =>
        cases advanced
        obtain ⟨inner, paren, _, rfl, nested, shut, text, rest, closing, later, rfl, fragment,
          phrases, closed, outside⟩ := closes
        refine ⟨token :: (inner ++ paren :: text :: rest), closing, later, by simp,
          fun opening sigil => ?_, closed, outside⟩
        simpa using Insertions.cons (.subshell sigil opens nested shut) fragment phrases
      case isFalse =>
        split at advanced
        case isFalse => cases advanced
        case isTrue fragment =>
          cases advanced
          obtain ⟨rest, closing, later, rfl, phrases, closed, outside⟩ := closes
          refine ⟨token :: rest, closing, later, rfl, fun opening sigil => ?_, closed, outside⟩
          exact .cons (.bare sigil) fragment phrases
  case h_4 noText noMark noName =>
    have between : Between frames := by
      rcases between_or_quoted frames with between | ⟨mark, phase, outer, rfl⟩
      · exact between
      · cases phase with
        | text => exact absurd rfl (noText mark outer)
        | mark => exact absurd rfl (noMark mark outer)
        | name => exact absurd rfl (noName mark outer)
    exact closes_of_advanceBetween between advanced closes

/-- Tokens that are followed until nothing is open close everything. -/
theorem closes_of_follow (followed : follow stray frames ts = some []) :
    Closes stray frames ts := by
  induction ts generalizing frames with
  | nil =>
    cases followed
    exact .nil
  | cons token ts ih =>
    rw [follow_cons, Option.bind_eq_some_iff] at followed
    obtain ⟨next, advanced, rest⟩ := followed
    exact closes_of_advance advanced (ih rest)

/-- Tokens that can be followed until nothing is open are well nested. -/
theorem wellNested_of_follow (followed : follow stray [] ts = some []) : WellNested stray ts :=
  closes_of_follow followed

end Closing

end ShellLine
