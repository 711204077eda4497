import FileSweep.Text.CaseTable

/-!
# Lower-casing a text

Every character is lowered by itself, with two exceptions: U+0130 becomes two
characters, and a capital sigma becomes the final form U+03C2 at the end of a word and
U+03C3 elsewhere.  It stands at the end of a word when the nearest character before it
is cased and the nearest character after it is not, case-ignorable characters not
counted on either side; the text's ends count as not cased.  Stray bytes have no case
and separate words.

`lowerFrom` goes through the text once.  Its first argument is the left half of that
condition, kept up to date symbol by symbol; the right half is looked up only at a
sigma.
-/

namespace FileSweep

/-! ## What surrounds a sigma -/

/-- Whether the symbol is passed over on the way to a cased neighbour. -/
def Symbol.isIgnored : Symbol → Bool
  | .char c => Span.cover Neighbour.ignored c.toNat
  | .stray _ => false

/-- Whether the symbol is cased, for one that is not passed over. -/
def Symbol.isCased : Symbol → Bool
  | .char c => Span.cover Neighbour.cased c.toNat
  | .stray _ => false

/-- Whether the first symbol of the text that is not passed over is cased. -/
def Text.startsCased : Text → Bool
  | [] => false
  | a :: t => if a.isIgnored then Text.startsCased t else a.isCased

/-! ## Lowering -/

/-- The lower-case form of a character, where that is one character. -/
def lowerChar (c : Char) : Char := Char.ofNat (CaseRun.lowerWith CaseRun.table c.toNat)

/-- The lower-case form of a symbol between `before` (whether its neighbour on the left is
cased) and the text that follows. -/
def Symbol.lower (before : Bool) (after : Text) : Symbol → Text
  | .stray low => [.stray low]
  | .char c =>
    if c.toNat = 0x3A3 then
      [.char (Char.ofNat (if before && !after.startsCased then 0x3C2 else 0x3C3))]
    else if c.toNat = 0x130 then [.char 'i', .char (Char.ofNat 0x307)]
    else [.char (lowerChar c)]

/-- The lower-case form of a text that stands behind a neighbour. -/
def Text.lowerFrom : (before : Bool) → Text → Text
  | _, [] => []
  | before, a :: t =>
    a.lower before t ++ Text.lowerFrom (if a.isIgnored then before else a.isCased) t

/-- The lower-case form of a text. -/
def Text.lower (t : Text) : Text := Text.lowerFrom false t

end FileSweep
