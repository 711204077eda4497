import FileSweep.Text.Printable

/-!
# Quoted texts

Inside a message a text is set in quotation marks, and what could not be read there is
escaped: the quotation mark itself, the backslash, and all that is not printable.  The
marks are single ones, unless the text holds a single and no double one.
-/

namespace FileSweep

namespace Text

/-- The last `width` hexadecimal digits of `n`. -/
def hex : (width : Nat) → (n : Nat) → Text
  | 0, _ => []
  | width + 1, n => hex width (n / 16) ++ [.char (Nat.digitChar (n % 16))]

/-- The mark that a text is quoted with. -/
def quoteMark (t : Text) : Char := if t.has '\'' && !t.has '"' then '"' else '\''

/-- The code point of an unprintable symbol, in the shortest of the three forms `\x`, `\u`
and `\U` that has room for it. -/
def escapeCode (n : Nat) : Text :=
  if n ≤ 0xFF then "\\x" ++ hex 2 n
  else if n ≤ 0xFFFF then "\\u" ++ hex 4 n
  else "\\U" ++ hex 8 n

/-- A symbol as it stands between the given marks. -/
def escape (mark : Char) (a : Symbol) : Text :=
  if a = .char mark ∨ a = .char '\\' then [.char '\\', a]
  else if a = .char '\n' then "\\n"
  else if a = .char '\r' then "\\r"
  else if a = .char '\t' then "\\t"
  else if a.isPrintable then [a]
  else escapeCode a.code

/-- The text in quotation marks. -/
def quoted (t : Text) : Text :=
  let mark := t.quoteMark
  .char mark :: t.flatMap (escape mark) ++ [.char mark]

end Text

end FileSweep
