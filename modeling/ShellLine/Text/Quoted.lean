import ShellLine.Text.Printable

/-! # Quoted text

Diagnostics and printed values show text between quote marks. The mark is the apostrophe, unless the
text holds an apostrophe and no double quote. The mark itself, the backslash and the three common
control characters are written with a backslash; any other character that is not printable is
written by its code point, in two, four or eight hexadecimal digits.
-/

namespace ShellLine.Text

/-- The lower case hexadecimal digits of a number, padded with zeros on the left. -/
def hexDigits (width n : Nat) : List Char :=
  (Nat.toDigits 16 n).leftpad width '0'

/-- The escape of a character by its code point, in the shortest of the three widths. -/
def codePointEscape (n : Nat) : List Char :=
  if n < 0x100 then '\\' :: 'x' :: hexDigits 2 n
  else if n < 0x10000 then '\\' :: 'u' :: hexDigits 4 n
  else '\\' :: 'U' :: hexDigits 8 n

/-- How a character is written between two copies of the given quote mark. -/
def quotedChar (mark c : Char) : List Char :=
  if c = mark ∨ c = '\\' then ['\\', c]
  else if c = '\n' then ['\\', 'n']
  else if c = '\r' then ['\\', 'r']
  else if c = '\t' then ['\\', 't']
  else if isPrintable c then [c]
  else codePointEscape c.toNat

/-- The mark around a quoted text: the double quote just where that saves escaping. -/
def quotedMark (text : List Char) : Char :=
  if text.contains '\'' && !text.contains '"' then '"' else '\''

/-- The quoted form of a text. -/
def quoted (text : String) : String :=
  let mark := quotedMark text.toList
  String.ofList (mark :: (text.toList.flatMap (quotedChar mark) ++ [mark]))

example : quoted "it's" = "\"it's\"" := by decide +kernel

example : quoted "a'\"\\\n\x7f" = "'a\\'\"\\\\\\n\\x7f'" := by decide +kernel

end ShellLine.Text
