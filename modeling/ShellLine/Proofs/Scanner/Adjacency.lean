import ShellLine.Proofs.Scanner.Endings
import ShellLine.Proofs.Scanner.Lexemes

/-! # What a sign touches

A sign records what it touches before the next token is read: it looks at a single character, and
the next token may be far away. Since the tokens of a line cover all of it but the blanks, and since
a token of each kind starts in its own way, that character tells whether the next token adjoins the
sign and whether it is a comment. So the record is right for every line: `joined_of_tokenize`.
-/

namespace ShellLine

open Alphabet Text

/-! ## First characters -/

/-- Whether a character that is right after a sign is joined to it. -/
def joins (c : Char) : Bool :=
  !isBlank c && c != commentMark

theorem joins_of_startsWord {c : Char} (first : startsWord c) : joins c := by
  simp only [startsWord, List.contains_eq_mem, List.mem_append, List.mem_cons, Bool.and_eq_true,
    Bool.not_eq_true', decide_eq_false_iff_not, not_or] at first
  simp [joins, first]

theorem joins_of_continuesName {c : Char} (letter : continuesName c) : joins c := by
  have marks : nameMarks.all joins := by decide
  have noLetter : isAlphanumeric commentMark = false := by decide +kernel
  simp only [continuesName, Bool.or_eq_true, List.contains_eq_mem, decide_eq_true_eq] at letter
  rcases letter with alphanumeric | mark
  · have noBlank : isBlank c = false := by
      rw [Bool.eq_false_iff]
      intro blank
      rw [isAlphanumeric_of_isBlank blank] at alphanumeric
      cases alphanumeric
    have noComment : c ≠ commentMark := by
      rintro rfl
      rw [noLetter] at alphanumeric
      cases alphanumeric
    simp [joins, noBlank, noComment]
  · exact List.all_eq_true.mp marks c mark

/-- A word starts with a character that may start one, or with an escape mark. -/
theorem WordUnits.joins {text : List Char} (word : WordUnits (units text)) (built : text ≠ []) :
    text.head?.any joins := by
  cases split : units text with
  | nil =>
    have whole := flatMap_chars_units text
    rw [split] at whole
    exact absurd whole.symm built
  | cons unit rest =>
    have whole := flatMap_chars_units text
    rw [split, List.flatMap_cons] at whole
    rw [split] at word
    rw [← whole]
    cases unit with
    | plain c => exact joins_of_startsWord (word.first c rfl)
    | escaped c => rfl
    | pending => rfl

/-- Only comments and quoted text start with a character that is not joined to a sign before it. -/
theorem Lexeme.joins {start : Int} {text : List Char} {before : List Token} {token : Token}
    (lexeme : Lexeme start text before token) (built : token.value ≠ "")
    (noText : token.kind ≠ .fragment) (noComment : token.kind ≠ .comment) :
    token.value.toList.head?.any ShellLine.joins := by
  have form := lexeme.form
  have some : token.value.toList ≠ [] := by simpa using built
  unfold Form at form
  split at form
  case h_1 => exact form.units.joins some
  case h_2 => exact form.units.joins some
  case h_3 => exact form.units.joins some
  case h_4 =>
    obtain ⟨c, rest, split⟩ := List.exists_cons_of_ne_nil some
    rw [split]
    exact joins_of_continuesName (form.letters c (split ▸ List.mem_cons_self))
  case h_5 kind => exact absurd kind noText
  case h_6 =>
    have symbols : ∀ value ∈ symbolValues, value.toList.head?.any ShellLine.joins := by decide
    exact symbols _ form.known
  case h_7 kind => exact absurd kind noComment

/-! ## The next token -/

section Next

variable {start : Int} {text : List Char} {tokens before after : List Token} {token next : Token}

/-- A character that is not blank belongs to a token, so that one starts right after another where
such a character follows. -/
theorem Laid.exists_next (laid : Laid start text tokens.reverse)
    (split : tokens = before ++ token :: after) {c : Char}
    (follows : follower start text token = some c) (inked : isBlank c = false) :
    ∃ next ∈ after.head?, next.pos = token.endPos := by
  have ordered := List.pairwise_reverse.mp laid.pairwise
  have member : token ∈ tokens.reverse := by simp [split]
  obtain ⟨ahead, behind, -, pos⟩ := laid.exists_split member
  have endPos : token.endPos = some (start + (ahead.length + token.value.length : Nat)) := by
    simp [Token.endPos, pos, Int.add_assoc]
  rw [follower_eq endPos] at follows
  obtain ⟨owner, owned, place, placed, low, high⟩ : ∃ owner ∈ tokens.reverse,
      owner.Covers (start + (ahead.length + token.value.length : Nat)) := by
    refine Classical.byContradiction fun none => ?_
    rw [laid.blank_of_uncovered follows fun owner owned covers => none ⟨owner, owned, covers⟩] at inked
    cases inked
  have ends : owner.endPos = some (place + owner.value.length) := by simp [Token.endPos, placed]
  rw [split, List.pairwise_append, List.pairwise_cons] at ordered
  obtain ⟨-, ⟨later, ordered⟩, earlier⟩ := ordered
  rw [List.mem_reverse, split, List.mem_append, List.mem_cons] at owned
  rcases owned with isBefore | rfl | isAfter
  · obtain ⟨stop, first, stops, starts, apart⟩ := earlier owner isBefore token List.mem_cons_self
    simp only [ends, pos, Option.some_inj] at stops starts
    omega
  · simp only [pos, Option.some_inj] at placed
    omega
  · -- what comes first after the token lies between it and the owner of the character
    obtain ⟨next, rest, rfl⟩ := List.exists_cons_of_ne_nil (List.ne_nil_of_mem isAfter)
    obtain ⟨stop, first, stops, starts, apart⟩ := later next List.mem_cons_self
    have nextEnds : next.endPos = some (first + next.value.length) := by
      simp [Token.endPos, starts]
    simp only [endPos, Option.some_inj] at stops
    refine ⟨next, rfl, ?_⟩
    rw [endPos, starts, Option.some_inj]
    rcases List.mem_cons.mp isAfter with rfl | isLater
    · simp only [placed, Option.some_inj] at starts
      omega
    · obtain ⟨stop', first', stops', starts', apart'⟩ :=
        (List.pairwise_cons.mp ordered).1 owner isLater
      simp only [nextEnds, placed, Option.some_inj] at stops' starts'
      omega

/-- A token that adjoins another one starts with the character after it. -/
theorem Laid.follower_eq_head? (laid : Laid start text tokens.reverse) (member : next ∈ tokens)
    (built : next.value ≠ "") (adjoins : next.pos = token.endPos) :
    follower start text token = next.value.toList.head? := by
  obtain ⟨ahead, behind, same, pos⟩ := laid.exists_split (List.mem_reverse.mpr member)
  have some : next.value.toList ≠ [] := by simpa using built
  obtain ⟨c, rest, first⟩ := List.exists_cons_of_ne_nil some
  rw [follower_eq (adjoins.symm.trans pos), same, List.append_assoc,
    List.getElem?_append_right (Nat.le_refl _), Nat.sub_self, ← List.head?_eq_getElem?, first]
  rfl

/-- No quoted text comes right after a sign. -/
theorem Lexemes.noText_of_sign (lexemes : Lexemes start text tokens.reverse)
    (split : tokens = before ++ token :: next :: after) (sign : token.isMark assign) :
    next.kind ≠ .fragment := by
  intro kind
  have later : tokens = (before ++ [token]) ++ next :: after := by simp [split]
  have form := (lexemes.lexeme later).form
  simp only [Form, kind] at form
  obtain ⟨last, newest, leads⟩ := form.leads
  obtain rfl : token = last := by simpa using newest
  have symbol := kind_of_isMark sign
  have noSigil : token.isMark sigil = false := isMark_of_isMark sign (by decide)
  have noParen : token.isMark closeParen = false := isMark_of_isMark sign (by decide)
  have noQuote := not_opensQuote sign (by decide)
  simp [Token.leadsText, symbol, noSigil, noParen, noQuote] at leads

/-- A sign is joined to what comes after it exactly if the next token adjoins it and is no
comment. -/
theorem joinedRight_iff (laid : Laid start text tokens.reverse)
    (lexemes : Lexemes start text tokens.reverse) (split : tokens = before ++ token :: after)
    (sign : token.isMark assign) : token.joinedRight ↔
      ∃ next ∈ after.head?, next.kind ≠ .comment ∧ next.pos = token.endPos := by
  have right : token.joinedRight = (follower start text token).any joins := by
    rw [(lexemes.lexeme split).right, sign, Bool.true_and]
    rfl
  have starts {next : Token} {rest : List Token} (first : after = next :: rest)
      (adjoins : next.pos = token.endPos) :
      next.value ≠ "" ∧ next.kind ≠ .fragment ∧
        follower start text token = next.value.toList.head? := by
    have noText : next.kind ≠ .fragment := lexemes.noText_of_sign (first ▸ split) sign
    have member : next ∈ tokens := by simp [split, first]
    have built : next.value ≠ "" := fun empty =>
      noText (laid.fragment_of_empty (List.mem_reverse.mpr member) empty)
    exact ⟨built, noText, laid.follower_eq_head? member built adjoins⟩
  rw [right]
  constructor
  · intro joined
    obtain ⟨c, follows, joined⟩ := (Option.any_eq_true ..).mp joined
    obtain ⟨inked, noMark⟩ : isBlank c = false ∧ c ≠ commentMark := by simpa [joins] using joined
    obtain ⟨next, newest, adjoins⟩ := laid.exists_next split follows inked
    obtain ⟨rest, rfl⟩ := List.head?_eq_some_iff.mp newest
    refine ⟨next, rfl, fun comment => noMark ?_, adjoins⟩
    have later : tokens = (before ++ [token]) ++ next :: rest := by simp [split]
    have form := (lexemes.lexeme later).form
    simp only [Form, comment] at form
    rw [(starts rfl adjoins).2.2, form.opens] at follows
    exact (Option.some_inj.mp follows).symm
  · rintro ⟨next, newest, noComment, adjoins⟩
    obtain ⟨rest, rfl⟩ := List.head?_eq_some_iff.mp newest
    obtain ⟨built, noText, follows⟩ := starts rfl adjoins
    have later : tokens = (before ++ [token]) ++ next :: rest := by simp [split]
    rw [follows]
    exact (lexemes.lexeme later).joins built noText noComment

end Next

/-- The sign of an assignment tells what it touches: it is joined on its left exactly if the token
before it ends where it stands, and on its right exactly if a token that is no comment stands where
it ends. No other token is joined to anything. -/
theorem joined_of_tokenize {line : String} {tokens before after : List Token} {token : Token}
    (ran : tokenize line = .ok tokens) (split : tokens = before ++ token :: after) :
    (token.isMark assign →
      (token.joinedLeft ↔ ∃ previous ∈ before.getLast?, previous.endPos = token.pos) ∧
      (token.joinedRight ↔ ∃ next ∈ after.head?, next.kind ≠ .comment ∧ next.pos = token.endPos)) ∧
    (token.isMark assign = false → token.joinedLeft = false ∧ token.joinedRight = false) := by
  have lexemes := lexemes_of_tokenize ran
  have lexeme := lexemes.lexeme split
  constructor
  · intro sign
    refine ⟨?_, joinedRight_iff (laid_of_tokenize ran) lexemes split sign⟩
    rw [lexeme.left, sign, Bool.true_and, Option.any_eq_true]
    simp
  · intro noSign
    rw [lexeme.left, lexeme.right, noSign]
    exact ⟨rfl, rfl⟩

/-- The sign of `a=#` touches the word before it only; a comment that it touches does not count. -/
theorem joined_word_comment :
    tokenize "a=#" = .ok
        ([⟨.literal, "a", some 0, false, false⟩] ++
          ⟨.symbol, "=", some 1, true, false⟩ :: [⟨.comment, "#", some 2, false, false⟩]) ∧
      (∃ previous ∈ [(⟨.literal, "a", some 0, false, false⟩ : Token)].getLast?,
        previous.endPos = some 1) ∧
      ¬ ∃ next ∈ [(⟨.comment, "#", some 2, false, false⟩ : Token)].head?,
        next.kind ≠ .comment ∧ next.pos = some 2 := by
  have ran : tokenize "a=#" = .ok
      ([⟨.literal, "a", some 0, false, false⟩] ++
        ⟨.symbol, "=", some 1, true, false⟩ :: [⟨.comment, "#", some 2, false, false⟩]) := rfl
  obtain ⟨left, right⟩ := (joined_of_tokenize ran rfl).1 rfl
  exact ⟨ran, left.mp rfl, fun next => absurd (right.mpr next) (by decide)⟩

end ShellLine
