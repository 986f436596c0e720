import Mathlib.Data.List.Forall2
import ShellLine.Proofs.Scanner.Concatenation
import ShellLine.Proofs.Scanner.Lexemes
import ShellLine.Proofs.Scanner.Recast
import ShellLine.Proofs.Scanner.Strictness

/-! # Escaped characters are inert

Of two lines that differ in one escaped character both are faulty in the same way, or they have the
same tokens but for that character. The scanner comes to the escape mark in the same state on both,
it has the character in the token it is building after the next step, and from there on one scan is
the other one with another character in that place: `Coherent.run_recast`.
-/

namespace ShellLine

open Alphabet Text

namespace Scanner

/-! ## The escape mark -/

/-- The state right after an escape mark in a line. -/
theorem eq_run_of_mem_trace {x y : List Char} {c : Char} {state : Scanner}
    (member : (escapeMark, (x.length : Int), state) ∈
      ({} : Scanner).trace (leadingBlanks (x ++ escapeMark :: c :: y))
        (strip (x ++ escapeMark :: c :: y))) :
    state = ({} : Scanner).run 0 (x ++ [escapeMark]) := by
  obtain ⟨read, rest, split, place, rfl⟩ := exists_of_mem_trace member
  obtain ⟨leading, trailing, length, blank, _, same⟩ :=
    exists_eq_append_strip (x ++ escapeMark :: c :: y)
  rw [split] at same
  have ahead : x = leading ++ read := by
    have sizes : x.length = (leading ++ read).length := by
      rw [List.length_append]
      omega
    exact (List.append_inj (by simpa using same) sizes).1
  have last : (read ++ [escapeMark]).getLast? ≠ some assign := by simp [escapeMark, assign]
  have begun : ({} : Scanner).run 0 (leading ++ (read ++ [escapeMark])) =
      ({} : Scanner).run leading.length (read ++ [escapeMark]) := by
    rw [run_append, run_of_isBlank rfl rfl blank, Int.zero_add]
  rw [coherent_fresh.run_after (.inl last), ← length, ahead, List.append_assoc, begun]

/-! ## The escaped character -/

/-- The scanner has come to a place with the escape mark in front of it in the token being built. -/
structure Escaping (s : Scanner) (place : Int) : Prop where
  escaped : s.escaped
  /-- The mark is the last character of that token. -/
  ends : ∃ ahead, s.buffer.toList = ahead ++ [escapeMark] ∧
    s.bufferPos = some (place - (ahead.length + 1))
  /-- The place is in no token that is finished. -/
  earlier : ∀ token ∈ s.emitted, ∀ d, token.recast place d = token

variable {s : Scanner} {place : Int} {c : Char}

/-- An escape is pending in what is being built. -/
theorem Shaped.pending {start : Int} {text read : List Char} (shaped : s.Shaped start text read)
    (coherent : s.Coherent) (escaped : s.escaped) : .pending ∈ units s.buffer.toList := by
  have fits := coherent.fits
  have building := shaped.building
  cases mode : s.context.mode with
  | literal =>
    simp only [Building, mode] at building
    exact building.escapes.mpr escaped
  | wildcard =>
    simp only [Building, mode] at building
    exact building.escapes.mpr escaped
  | quote =>
    simp only [Building, mode] at building
    exact building.1.escapes.mpr escaped
  | start => simp [Fits, mode, escaped] at fits
  | substitution => simp [Fits, mode, escaped] at fits
  | operator => simp [Fits, mode, escaped] at fits
  | comment => simp [Fits, mode, escaped] at fits

/-- What is finished ends before the text that is still to be read. -/
theorem Tracks.recast_eq_self {start : Int} {read : List Char} (tracks : s.Tracks start read)
    {token : Token} (member : token ∈ s.emitted) (d : Char) :
    token.recast (start + read.length) d = token := by
  obtain ⟨covered, laid, rfl, _⟩ := tracks
  obtain ⟨before, after, rfl, stands⟩ := laid.exists_split member
  have ended : start + before.length + token.value.length ≤ start +
      ((before ++ token.value.toList ++ after ++ s.buffer.toList).length : Nat) := by
    simp only [List.length_append, String.length_toList]
    omega
  rw [Token.recast, stands, recastText_of_endPos_le ended, ← stands]

theorem escaping_run {read : List Char} (escaped : (({} : Scanner).run 0 read).escaped) :
    (({} : Scanner).run 0 read).Escaping read.length := by
  have coherent : (({} : Scanner).run 0 read).Coherent := coherent_run coherent_fresh ..
  have pending := (shaped_run 0 read).pending coherent escaped
  have tracks := tracks_run 0 read
  generalize ({} : Scanner).run 0 read = s at *
  refine ⟨escaped, ?ends, fun token member d => ?earlier⟩
  case ends =>
    obtain ⟨init, _, same, _⟩ := units_of_pending pending
    have shape : s.buffer.toList = init.flatMap TextUnit.chars ++ [escapeMark] := by
      rw [← flatMap_chars_units s.buffer.toList, same]
      simp [TextUnit.chars]
    have built : s.buffer ≠ "" := by
      intro empty
      simp [empty] at shape
    refine ⟨_, shape, ?_⟩
    rw [tracks.bufferPos_eq built, Int.zero_add, ← String.length_toList, shape,
      List.length_append, List.length_singleton, Int.natCast_add, Int.natCast_one]
  case earlier => simpa using tracks.recast_eq_self member d

section Escaped

variable (escaping : s.Escaping place) (next : Option Char)
include escaping

theorem Escaping.built : s.buffer ≠ "" := by
  obtain ⟨ahead, shape, _⟩ := escaping.ends
  intro empty
  simp [empty] at shape

/-- The escaped character is read, and its place is past. -/
theorem Escaping.past : (s.step next c place).Past place := by
  obtain ⟨ahead, shape, stands⟩ := escaping.ends
  intro pos known _
  have known : some (place - (ahead.length + 1)) = some pos := by
    simpa [step, escaping.escaped, keep, escaping.built, stands] using known
  refine ⟨ahead, c, [], by simp [step, escaping.escaped, keep, shape], ?_⟩
  have known := Option.some_inj.mp known
  omega

/-- With another character in its stead the escape comes to the same. -/
theorem Escaping.step_recast (d : Char) :
    (s.step next c place).recast place d = s.step next d place := by
  obtain ⟨ahead, shape, stands⟩ := escaping.ends
  have pushed : (s.buffer.push c).toList = (ahead ++ [escapeMark]) ++ c :: [] := by simp [shape]
  have exchanged : recastText place d (some (place - (ahead.length + 1))) (s.buffer.push c) =
      s.buffer.push d := by
    apply String.toList_inj.mp
    rw [toList_recastText pushed (by simp), String.toList_push, shape]
  have finished : s.emitted.map (·.recast place d) = s.emitted :=
    (List.map_congr_left fun token member => escaping.earlier token member d).trans (List.map_id _)
  simp [step, escaping.escaped, keep, escaping.built, recast, stands, exchanged, finished]

end Escaped

/-! ## Lines that differ in an escaped character -/

section Lines

variable {x y : List Char} {c d : Char}

/-- A character is not trimmed if it is no blank, or if more than blanks comes after it. -/
theorem stripEnd_append_cons_of_kept (kept : (∃ b ∈ y, isBlank b = false) ∨ isBlank c = false)
    (x : List Char) : stripEnd (x ++ c :: y) = x ++ c :: stripEnd y := by
  rcases kept with ⟨b, member, noBlank⟩ | noBlank
  · have later : stripEnd y ≠ [] := by
      intro nothing
      obtain ⟨blanks, blank, same⟩ := exists_eq_stripEnd_append y
      rw [nothing, List.nil_append] at same
      rw [blank b (same ▸ member)] at noBlank
      cases noBlank
    rw [List.append_cons, stripEnd_append later, ← List.append_cons]
  · exact stripEnd_append_cons noBlank x y

theorem length_append_escapeMark (x : List Char) :
    ((x ++ [escapeMark]).length : Int) = x.length + 1 := by
  simp

/-- Behind the escape mark the scanner reads the character and the rest of the line. -/
theorem ofText_escaped (kept : (∃ b ∈ y, isBlank b = false) ∨ isBlank c = false) :
    ofText (x ++ escapeMark :: c :: y) =
      ((({} : Scanner).run 0 (x ++ [escapeMark])).step ((stripEnd y).head?.or none) c
        (x.length + 1)).run (x.length + 1 + 1) (stripEnd y) := by
  have last : (x ++ [escapeMark]).getLast? ≠ some assign := by simp [escapeMark, assign]
  rw [ofText_eq_run, List.append_cons, stripEnd_append_cons_of_kept kept, run_append,
    coherent_fresh.run_after (.inl last), run, Int.zero_add, length_append_escapeMark]

/-- Where the escape mark is taken as one, the scan of the other line is that of the first with the
other character in its place. -/
theorem ofText_recast (escaped : (({} : Scanner).run 0 (x ++ [escapeMark])).escaped)
    (kept : (∃ b ∈ y, isBlank b = false) ∨ isBlank c = false ∧ isBlank d = false) :
    (ofText (x ++ escapeMark :: c :: y)).Past (x.length + 1) ∧
      ofText (x ++ escapeMark :: d :: y) =
        (ofText (x ++ escapeMark :: c :: y)).recast (x.length + 1) d := by
  have escaping := escaping_run escaped
  rw [length_append_escapeMark] at escaping
  rw [ofText_escaped (kept.imp_right And.left), ofText_escaped (kept.imp_right And.right)]
  have coherent : (({} : Scanner).run 0 (x ++ [escapeMark])).Coherent :=
    coherent_run coherent_fresh ..
  generalize ({} : Scanner).run 0 (x ++ [escapeMark]) = s at *
  have read := coherent.step ((stripEnd y).head?.or none) c (x.length + 1)
  have past := escaping.past (c := c) ((stripEnd y).head?.or none)
  rw [← escaping.step_recast _ d, read.run_recast past (by omega)]
  exact ⟨past.run (by omega) read _ _, rfl⟩

end Lines

/-- A line whose scan is that of another but for one character has its tokens or its fault. -/
theorem tokenize_recast {line other : String} {d : Char} (past : (ofText line.toList).Past place)
    (same : ofText other.toList = (ofText line.toList).recast place d) (strictComments : Bool) :
    tokenize other strictComments =
      (tokenize line strictComments).map (List.map (·.recast place d)) := by
  rw [tokenize_eq, tokenize_eq, same, finish_recast d past]
  cases (ofText line.toList).finish strictComments with
  | mk last fault => cases fault <;> simp [Except.map, tokens, recast]

end Scanner

/-! ## Tokens that differ in a character -/

/-- The other token is like the one, but has `d` for the `c` at a place of the line, if the place is
in the token. -/
structure Token.Exchanged (place : Int) (c d : Char) (token other : Token) : Prop where
  kind_eq : other.kind = token.kind
  pos_eq : other.pos = token.pos
  length_eq : other.value.length = token.value.length
  joinedLeft_eq : other.joinedLeft = token.joinedLeft
  joinedRight_eq : other.joinedRight = token.joinedRight
  elsewhere : ∀ pos, token.pos = some pos → ∀ index : Nat, pos + index ≠ place →
    other.value.toList[index]? = token.value.toList[index]?
  there : ∀ pos, token.pos = some pos → ∀ index : Nat, pos + index = place →
    index < token.value.length →
    token.value.toList[index]? = some c ∧ other.value.toList[index]? = some d

/-- The outcomes for two lines that differ in a character: the same fault, or tokens that differ in
it, and in nothing else. -/
def ExchangedIn (place : Int) (c d : Char) :
    Except LexicalFault (List Token) → Except LexicalFault (List Token) → Prop
  | .ok tokens, .ok others =>
    List.Forall₂ (Token.Exchanged place c d) tokens others ∧ ∃ token ∈ tokens, token.Covers place
  | .error fault, .error other => other = fault
  | _, _ => False

theorem Token.exchanged_recast {text : List Char} {token : Token} {place : Nat} {c : Char}
    (found : text[place]? = some c)
    (stands : ∃ pos : Nat, token.pos = some (pos : Int) ∧
      token.value.toList = (text.drop pos).take token.value.length) (d : Char) :
    token.Exchanged place c d (token.recast place d) := by
  obtain ⟨start, known, value⟩ := stands
  refine ⟨rfl, rfl, length_recastText .., rfl, rfl, ?elsewhere, ?there⟩
  case elsewhere =>
    intro pos same index apart
    obtain rfl := Option.some_inj.mp (known.symm.trans same)
    simp only [recast, recastText, known]
    split
    case isTrue before =>
      have other : (place - start : Int).toNat ≠ index := by omega
      simp only [String.toList_ofList, List.getElem?_set_ne other]
    case isFalse => rfl
  case there =>
    intro pos same index here inside
    obtain rfl := Option.some_inj.mp (known.symm.trans same)
    have place_eq : (place - start : Int).toNat = index := by omega
    have before : (start : Int) ≤ place := by omega
    constructor
    · rw [value, List.getElem?_take_of_lt inside, List.getElem?_drop, ← found]
      congr 1
      omega
    · rw [← String.length_toList] at inside
      simp [recast, recastText, known, before, place_eq, List.getElem?_set_self inside]

/-! ## Inertness -/

/-- The escape mark at an index of the text is taken as one. -/
def Tokenizer.TakesEscape (tokenizer : Tokenizer) (index : Int) : Prop :=
  ∃ state, (escapeMark, index, state) ∈ tokenizer.trace ∧ state.escaped

/-- A line with an escape mark in front of a character. -/
def escapedLine (x : String) (c : Char) (y : String) : String :=
  x ++ String.singleton escapeMark ++ String.singleton c ++ y

theorem toList_escapedLine (x : String) (c : Char) (y : String) :
    (escapedLine x c y).toList = x.toList ++ escapeMark :: c :: y.toList := by
  simp [escapedLine]

theorem getElem?_escapedLine (x : String) (c : Char) (y : String) :
    (escapedLine x c y).toList[x.length + 1]? = some c := by
  rw [toList_escapedLine, ← String.length_toList, List.append_cons]
  simp

theorem length_escapedLine (x : String) (c d : Char) (y : String) :
    (escapedLine x d y).length = (escapedLine x c y).length := by
  simp [escapedLine]

section Inert

variable {x y : String} {c d : Char} {strictComments : Bool} {maxLength : Option Int}

/-- An escape mark is taken as one only in a line that is read. -/
theorem escaped_of_takesEscape
    (escape :
      Tokenizer.TakesEscape { text := escapedLine x c y, strictComments, maxLength } x.length) :
    Tokenizer.lengthFault { text := escapedLine x c y, strictComments, maxLength } = none ∧
      (({} : Scanner).run 0 (x.toList ++ [escapeMark])).escaped := by
  obtain ⟨state, member, escaped⟩ := escape
  rw [Tokenizer.trace] at member
  split at member
  case isTrue => cases member
  case isFalse fits =>
    rw [← String.length_toList, toList_escapedLine] at member
    obtain rfl := Scanner.eq_run_of_mem_trace member
    exact ⟨Option.not_isSome_iff_eq_none.mp fits, escaped⟩

/-- The other line comes to the tokens or the fault of the first, but for the escaped character. -/
theorem tokenize_escapedLine
    (escape :
      Tokenizer.TakesEscape { text := escapedLine x c y, strictComments, maxLength } x.length)
    (kept : (∃ b ∈ y.toList, isBlank b = false) ∨ isBlank c = false ∧ isBlank d = false) :
    tokenize (escapedLine x d y) strictComments maxLength =
      (tokenize (escapedLine x c y) strictComments maxLength).map
        (List.map (·.recast (x.length + 1) d)) := by
  obtain ⟨fits, escaped⟩ := escaped_of_takesEscape escape
  have fitsOther :
      Tokenizer.lengthFault { text := escapedLine x d y, strictComments, maxLength } = none := by
    rwa [Tokenizer.lengthFault, length_escapedLine x c d y]
  obtain ⟨past, same⟩ := Scanner.ofText_recast escaped kept
  simp only [String.length_toList, ← toList_escapedLine] at past same
  rw [tokenize_limited, tokenize_limited (escapedLine x c y), fits, fitsOther]
  exact Scanner.tokenize_recast past same strictComments

/-- The escaped character belongs to a token. -/
theorem exists_covers_of_takesEscape {tokens : List Token}
    (escape :
      Tokenizer.TakesEscape { text := escapedLine x c y, strictComments, maxLength } x.length)
    (kept : (∃ b ∈ y.toList, isBlank b = false) ∨ isBlank c = false)
    (ran : tokenize (escapedLine x c y) strictComments maxLength = .ok tokens) :
    ∃ token ∈ tokens, token.Covers (x.length + 1) := by
  -- The character may itself be a blank, so it is a letter in its place that must be in a token.
  have letter := tokenize_escapedLine (d := 'a') escape (kept.imp_right fun noBlank =>
    ⟨noBlank, by decide⟩)
  rw [ran] at letter
  have faithful := faithful_of_laid (laid_of_tokenize (tokenize_of_options letter))
  by_contra uncovered
  have blank := faithful.blank_of_uncovered _ _ (getElem?_escapedLine x 'a' y) ?_
  · exact absurd blank (by decide)
  · intro other member covers
    obtain ⟨token, earlier, rfl⟩ := List.mem_map.mp member
    exact uncovered ⟨token, earlier, by simpa [Token.Covers, Token.recast] using covers⟩

end Inert

/-- Another character behind an escape mark changes nothing else, if it is not trimmed. -/
theorem tokenize_escaped (x y : String) (c d : Char) (strictComments : Bool)
    (maxLength : Option Int)
    (escape :
      Tokenizer.TakesEscape { text := escapedLine x c y, strictComments, maxLength } x.length)
    (kept : (∃ b ∈ y.toList, isBlank b = false) ∨ isBlank c = false ∧ isBlank d = false) :
    ExchangedIn (x.length + 1) c d (tokenize (escapedLine x c y) strictComments maxLength)
      (tokenize (escapedLine x d y) strictComments maxLength) := by
  rw [tokenize_escapedLine escape kept]
  cases ran : tokenize (escapedLine x c y) strictComments maxLength with
  | error fault => rfl
  | ok tokens =>
    have faithful := faithful_of_laid (laid_of_tokenize (tokenize_of_options ran))
    refine ⟨List.forall₂_map_right_iff.mpr (List.forall₂_same.mpr fun token member => ?_), ?_⟩
    · exact Token.exchanged_recast (getElem?_escapedLine x c y) (faithful.value_eq token member) d
    · exact exists_covers_of_takesEscape escape (kept.imp_right And.left) ran

/-- A quotation mark that is escaped in quoted text, and a sigil in its place. -/
theorem tokenize_escaped_quote :
    let first : List Token :=
      [⟨.literal, "e", some 0, false, false⟩, ⟨.symbol, "\"", some 2, false, false⟩,
        ⟨.fragment, "a\\\"b", some 3, false, false⟩, ⟨.symbol, "\"", some 7, false, false⟩]
    let second : List Token :=
      [⟨.literal, "e", some 0, false, false⟩, ⟨.symbol, "\"", some 2, false, false⟩,
        ⟨.fragment, "a\\$b", some 3, false, false⟩, ⟨.symbol, "\"", some 7, false, false⟩]
    Tokenizer.TakesEscape { text := escapedLine "e \"a" '"' "b\"" } 4 ∧
      (∃ b ∈ "b\"".toList, isBlank b = false) ∧
      tokenize (escapedLine "e \"a" '"' "b\"") = .ok first ∧
      tokenize (escapedLine "e \"a" '$' "b\"") = .ok second ∧
      List.Forall₂ (Token.Exchanged 5 '"' '$') first second ∧ ∃ token ∈ first, token.Covers 5 := by
  intro first second
  have escape : Tokenizer.TakesEscape { text := escapedLine "e \"a" '"' "b\"" } 4 :=
    ⟨(({} : Scanner).run 0 "e \"a\\".toList), by decide +kernel, by decide +kernel⟩
  have kept : ∃ b ∈ "b\"".toList, isBlank b = false := ⟨'b', by decide, by decide⟩
  have exchanged := tokenize_escaped "e \"a" "b\"" '"' '$' false none escape (.inl kept)
  exact ⟨escape, kept, rfl, rfl, exchanged⟩

end ShellLine
