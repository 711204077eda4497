import FileSweep.Text.Basic

/-!
# Sets of code points

A property of characters is a list of **spans**, each a first and a last code point,
in ascending order and without overlap.  `Span.cover` looks a code point up and stops
at the first span that lies above it.
-/

namespace FileSweep

/-- Whether one of the ascending spans holds `n`. -/
def Span.cover : List (Nat × Nat) → Nat → Bool
  | [], _ => false
  | (first, last) :: more, n => first ≤ n && (n ≤ last || Span.cover more n)

end FileSweep
