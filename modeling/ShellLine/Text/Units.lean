import ShellLine.Alphabet

/-! # Units of a text with escapes

An escape mark makes a unit with the character after it, and every other character is a unit by
itself. A mark with nothing after it is pending, which only the last unit of a text can be. A text
is put together from its units, `flatMap_chars_units`; it may be taken apart anywhere but behind a
pending mark, `units_append`, and one more character goes to that mark, `units_of_pending`.
-/

namespace ShellLine.Text

open Alphabet

/-- A character of a text together with the escape mark in front of it, if there is one. -/
inductive TextUnit where
  /-- A character that is neither escaped nor an escape mark. -/
  | plain (c : Char)
  /-- An escape mark and the character after it. -/
  | escaped (c : Char)
  /-- An escape mark at the end of the text. -/
  | pending
deriving DecidableEq, Repr, Inhabited

/-- The characters of a unit. -/
def TextUnit.chars : TextUnit → List Char
  | .plain c => [c]
  | .escaped c => [escapeMark, c]
  | .pending => [escapeMark]

/-- The units of a text, read from its start. -/
def units : List Char → List TextUnit
  | [] => []
  | [c] => [if c = escapeMark then .pending else .plain c]
  | c :: next :: rest =>
    if c = escapeMark then .escaped next :: units rest else .plain c :: units (next :: rest)

@[simp]
theorem units_mark : units [escapeMark] = [.pending] :=
  rfl

theorem units_singleton {c : Char} (noMark : c ≠ escapeMark) : units [c] = [.plain c] := by
  simp [units, noMark]

theorem units_cons {c : Char} (noMark : c ≠ escapeMark) (rest : List Char) :
    units (c :: rest) = .plain c :: units rest := by
  cases rest <;> simp [units, noMark]

/-- A text is put together from its units. -/
theorem flatMap_chars_units (text : List Char) : (units text).flatMap TextUnit.chars = text := by
  fun_induction units text with
  | case1 => rfl
  | case2 c => split <;> simp_all [TextUnit.chars]
  | case3 next rest ih => simp [TextUnit.chars, ih]
  | case4 c next rest _ ih => simp [TextUnit.chars, ih]

/-- An escape mark is no unit of its own where a character follows. -/
theorem plain_mark_not_mem_units (text : List Char) : .plain escapeMark ∉ units text := by
  fun_induction units text with
  | case1 => simp
  | case2 c => split <;> simp_all [eq_comm]
  | case3 next rest ih => simp [ih]
  | case4 c next rest noMark ih => simp [ih, Ne.symm noMark]

/-- A text without a pending mark may be gone on with. -/
theorem units_append {text : List Char} (whole : .pending ∉ units text) (more : List Char) :
    units (text ++ more) = units text ++ units more := by
  fun_induction units text with
  | case1 => rfl
  | case2 c =>
    split at whole
    case isTrue => simp at whole
    case isFalse noMark => cases more <;> simp [units, noMark]
  | case3 next rest ih =>
    simp only [List.mem_cons, reduceCtorEq, false_or] at whole
    simp [units, ih whole]
  | case4 c next rest noMark ih =>
    simp only [List.mem_cons, reduceCtorEq, false_or] at whole
    have later := ih whole
    simp only [List.cons_append] at later ⊢
    rw [units, if_neg noMark, later]

/-- Only the last unit is pending, and with one more character it is an escape. -/
theorem units_of_pending {text : List Char} (pending : .pending ∈ units text) :
    ∃ init, .pending ∉ init ∧ units text = init ++ [.pending] ∧
      ∀ c, units (text ++ [c]) = init ++ [.escaped c] := by
  fun_induction units text with
  | case1 => simp at pending
  | case2 c =>
    split at pending
    case isTrue mark => exact ⟨[], by simp, by simp [mark], fun next => by simp [units, mark]⟩
    case isFalse => simp at pending
  | case3 next rest ih =>
    simp only [List.mem_cons, reduceCtorEq, false_or] at pending
    obtain ⟨init, whole, same, escape⟩ := ih pending
    exact ⟨.escaped next :: init, by simp [whole], by simp [same],
      fun c => by simp [units, escape c]⟩
  | case4 c next rest noMark ih =>
    simp only [List.mem_cons, reduceCtorEq, false_or] at pending
    obtain ⟨init, whole, same, escape⟩ := ih pending
    refine ⟨.plain c :: init, by simp [whole], by simp [same], fun last => ?_⟩
    have later := escape last
    simp only [List.cons_append] at later ⊢
    rw [units, if_neg noMark, later]

/-- A text goes on behind a pending mark with the character that is escaped. -/
theorem units_append_of_pending {text : List Char} (pending : .pending ∈ units text) :
    ∃ init, .pending ∉ init ∧ units text = init ++ [.pending] ∧
      ∀ c rest, units (text ++ c :: rest) = init ++ .escaped c :: units rest := by
  obtain ⟨init, whole, same, escape⟩ := units_of_pending pending
  refine ⟨init, whole, same, fun c rest => ?_⟩
  have escaped : .pending ∉ units (text ++ [c]) := by simp [escape, whole]
  rw [List.append_cons, units_append escaped, escape, List.append_assoc, List.singleton_append]

/-- No unit comes after a pending one. -/
theorem eq_nil_of_pending {text : List Char} {ahead behind : List TextUnit}
    (split : units text = ahead ++ .pending :: behind) : behind = [] := by
  have pending : .pending ∈ units text := by simp [split]
  obtain ⟨init, whole, same, _⟩ := units_of_pending pending
  rcases List.eq_nil_or_concat behind with rfl | ⟨middle, last, rfl⟩
  · rfl
  · rw [split, List.concat_eq_append, ← List.cons_append, ← List.append_assoc] at same
    obtain ⟨rfl, -⟩ := List.append_inj' same rfl
    exact absurd (List.mem_append_right ahead List.mem_cons_self) whole

example : units "a\\*\\".toList = [.plain 'a', .escaped '*', .pending] := by decide

end ShellLine.Text
