import ShellLine.Proofs.Nesting.Parsing

/-! # Partners of parentheses

Well nested tokens leave everything as it was open before them, `WellNested.neutral`, just as phrases
do. So a closing parenthesis after well nested tokens has no partner among them, and in tokens that
are followed to the end the parenthesis of a substitution has one after it: `exists_partner`.
-/

namespace ShellLine

open Alphabet Grammar

/-! ## Well nested tokens leave everything as it is -/

mutual

private theorem neutral_of_strict {stray : Bool} {ts : List Token} :
    WellNested stray ts → stray = false → Neutral ts
  | .nil, _ => .nil
  | .plain plain nested, strict => .cons plain (neutral_of_strict nested strict)
  | .group opens inside closes nested, strict => by
    intro stray frames between
    have inner : Between (.group :: frames) := .inr ⟨frames, rfl⟩
    simp [advance_of_openParen between opens, neutral_of_strict inside rfl inner,
      advance_of_closeParen closes, neutral_of_strict nested strict between]
  | .quote block nested, strict => block.neutral.append (neutral_of_strict nested strict)

theorem QuoteBlock.neutral {ts : List Token} : QuoteBlock ts → Neutral ts
  | .mk opens text insertions closes =>
    neutral_of_quote opens text (fun _ _ _ => insertions.follow) closes

theorem Insertions.follow {stray : Bool} {mark : String} {outer : List Frame} {ts : List Token} :
    Insertions ts → ShellLine.follow stray (.quoted mark .mark :: outer) ts =
      some (.quoted mark .mark :: outer)
  | .nil => rfl
  | .cons insertion text insertions => by
    obtain ⟨phase, waits, followed⟩ := @Insertion.follow stray mark outer _ insertion
    rw [follow_append, followed, Option.bind_some, follow_cons, advance_of_fragment waits text,
      Option.bind_some, insertions.follow]

/-- After an insertion the quote waits for text. -/
theorem Insertion.follow {stray : Bool} {mark : String} {outer : List Frame} {ts : List Token} :
    Insertion ts → ∃ phase, phase ≠ .mark ∧ ShellLine.follow stray (.quoted mark .mark :: outer) ts =
      some (.quoted mark phase :: outer)
  | .bare opens => ⟨.name, by decide, by simp [advance_of_sigil opens]⟩
  | .name opens kind =>
    ⟨.text, by decide, by simp [advance_of_sigil opens, advance_of_name kind]⟩
  | .subshell opens paren inside closes => by
    have inner : Between (.group :: .quoted mark .text :: outer) := .inr ⟨_, rfl⟩
    exact ⟨.text, by decide, by simp [advance_of_sigil opens, advance_of_subshell paren,
      neutral_of_strict inside rfl inner, advance_of_closeParen closes]⟩

end

section Following

variable {ts : List Token}

/-- Well nested tokens leave what is open around them as it is. -/
theorem WellNested.neutral (nested : WellNested false ts) : Neutral ts :=
  neutral_of_strict nested rfl

/-- Comments do not matter to nesting. -/
theorem WellNested.withoutComments (nested : WellNested false ts) :
    WellNested false (withoutComments ts) :=
  wellNested_of_follow (follow_withoutComments (nested.neutral (.inl rfl)))

/-- A closing parenthesis after well nested tokens has no partner. -/
theorem WellNested.follow_closeParen {closing : Token} (nested : WellNested false ts)
    (closes : closing.isMark closeParen) (later : List Token) :
    follow false [] (ts ++ closing :: later) = none := by
  rw [follow_append, nested.neutral (.inl rfl), Option.bind_some, follow_cons,
    advance_nil_of_closeParen closes]
  rfl

/-! ## Partners of opening parentheses -/

variable {frames middle next outer : List Frame} {mark opening stop : Token}
  {before after read more : List Token}

/-- Wherever a sigil may stand, a parenthesis after it opens a group. -/
theorem exists_group (afterSigil : advance true frames mark = some middle)
    (sigil : mark.isMark sigil) (afterParen : advance true middle opening = some next)
    (opens : opening.isMark openParen) : ∃ outer, next = .group :: outer := by
  rcases between_or_quoted frames with between | ⟨delimiter, phase, outer, rfl⟩
  · have plain : mark.plain := plain_of_mark (by decide) sigil
    obtain rfl := Option.some.inj ((advance_of_plain between plain).symm.trans afterSigil)
    obtain rfl := Option.some.inj ((advance_of_openParen between opens).symm.trans afterParen)
    exact ⟨_, rfl⟩
  · have symbol := kind_of_isMark sigil
    have noParen : mark.isMark openParen = false := isMark_of_isMark sigil (by decide)
    cases phase with
    | text => simp [advance, symbol] at afterSigil
    | name => simp [advance, symbol, noParen] at afterSigil
    | mark =>
      obtain rfl := Option.some.inj ((advance_of_sigil sigil).symm.trans afterSigil)
      obtain rfl := Option.some.inj ((advance_of_subshell opens).symm.trans afterParen)
      exact ⟨_, rfl⟩

/-- The parenthesis of a substitution opens a group, with comments around or without them. -/
theorem exists_follow_group (followed : follow true [] (before ++ opening :: after) = some [])
    (last : mark ∈ (withoutComments before).getLast?) (sigil : mark.isMark sigil)
    (opens : opening.isMark openParen) : ∃ outer, follow true (.group :: outer) after = some [] := by
  rw [follow_append, Option.bind_eq_some_iff] at followed
  obtain ⟨middle, earlier, followed⟩ := followed
  rw [follow_cons, Option.bind_eq_some_iff] at followed
  obtain ⟨next, afterParen, followed⟩ := followed
  have kept := follow_withoutComments earlier
  obtain ⟨start, split⟩ := List.getLast?_eq_some_iff.mp last
  rw [split, follow_append, Option.bind_eq_some_iff] at kept
  obtain ⟨frames, _, afterSigil⟩ := kept
  simp only [follow_cons, follow_nil, Option.bind_fun_some] at afterSigil
  obtain ⟨outer, rfl⟩ := exists_group afterSigil sigil afterParen opens
  exact ⟨outer, followed⟩

/-- What is read of a group leaves it open, so that the next token is none of quoted text. -/
theorem noFragment_of_follow (followed : follow true (.group :: outer) (read ++ stop :: more) = some [])
    (neutral : Neutral (withoutComments read)) : stop.kind ≠ .fragment := by
  have between : Between (.group :: outer) := .inr ⟨outer, rfl⟩
  intro fragment
  rw [follow_append, Option.bind_eq_some_iff] at followed
  obtain ⟨frames, first, followed⟩ := followed
  obtain rfl := Option.some.inj ((neutral between).symm.trans (follow_withoutComments first))
  rw [follow_cons, advance_of_between between, advanceBetween, if_pos fragment] at followed
  cases followed

/-- A group that is read up to a token which does not close it is closed after that token. -/
theorem exists_partner (followed : follow true (.group :: outer) (read ++ stop :: more) = some [])
    (neutral : Neutral (withoutComments read)) (noClosing : stop.isMark closeParen = false) :
    ∃ rest closing after, more = rest ++ closing :: after ∧
      WellNested false (read ++ stop :: rest) ∧ closing.isMark closeParen := by
  obtain ⟨inner, closing, after, split, nested, closes, _⟩ := closes_of_follow followed
  have apart : closing ≠ stop := by
    rintro rfl
    rw [noClosing] at closes
    cases closes
  rcases List.append_eq_append_iff.mp split with ⟨rest, inside, ahead⟩ | ⟨rest, inside, ahead⟩
  · cases rest with
    | nil => exact absurd (List.cons.inj ahead).1.symm apart
    | cons first rest =>
      obtain ⟨rfl, rfl⟩ := List.cons.inj ahead
      exact ⟨rest, closing, after, rfl, inside ▸ nested, closes⟩
  · cases rest with
    | nil => exact absurd (List.cons.inj ahead).1 apart
    | cons first rest =>
      obtain ⟨rfl, rfl⟩ := List.cons.inj ahead
      -- the partner would be among the tokens that leave the group open
      have kept : closing.kind ≠ .comment := by simp [kind_of_isMark closes]
      have stopped := nested.withoutComments.follow_closeParen closes (withoutComments rest)
      rw [inside, withoutComments_append, withoutComments_cons kept] at neutral
      rw [neutral (.inl rfl)] at stopped
      cases stopped

end Following

end ShellLine
