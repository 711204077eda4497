import FileSweep.Text.Span

/-!
# Blank symbols

The characters that count as white space at the ends of a text: the Unicode white space
and the four ASCII separators U+001C to U+001F.
-/

namespace FileSweep

/-- The spans of blank characters. -/
def blankSpans : List (Nat × Nat) :=
  [(0x9, 0xD), (0x1C, 0x20), (0x85, 0x85), (0xA0, 0xA0), (0x1680, 0x1680), (0x2000, 0x200A),
    (0x2028, 0x2029), (0x202F, 0x202F), (0x205F, 0x205F), (0x3000, 0x3000)]

/-- Whether a symbol is blank. -/
def Symbol.isBlank : Symbol → Bool
  | .char c => Span.cover blankSpans c.toNat
  | .stray _ => false

/-- The text without the blanks at its beginning and its end. -/
def Text.strip (t : Text) : Text :=
  ((t.dropWhile Symbol.isBlank).reverse.dropWhile Symbol.isBlank).reverse

end FileSweep
