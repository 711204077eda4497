import FileSweep.Text.Basic

/-!
# Bytes and texts

Bytes are read as UTF-8 one at a time.  A `Reader` holds the pieces read so far and
the character it is in the middle of, if any; `Reader.read` is its single step.  What
is not well-formed is cut into **maximal subparts**: the longest stretch of bytes that
still begins some character is one bad piece, and reading goes on with the byte that
did not fit.  That byte is never swallowed, so an unfinished character cannot hide the
line break, quote or letter behind it.

Two readings are made from the same pieces:

* `lossy` puts one U+FFFD for every bad piece; captured output is shown that way;
* `Text.ofBytes` keeps every byte of a bad piece as a stray symbol; names and
  arguments are read that way, and `Text.toBytes` writes them back.
-/

namespace FileSweep

namespace Utf8

/-! ## The reader -/

/-- A stretch of the input: a character, or the bytes of a maximal ill-formed subpart. -/
inductive Piece
  | good (c : Char)
  | bad (bytes : List UInt8)
  deriving DecidableEq

/-- A character of which some bytes are still to come. -/
structure Unfinished where
  /-- The bytes read so far, the first one first. -/
  seen : List UInt8
  /-- Their payload bits. -/
  value : Nat
  /-- How many bytes are to follow. -/
  missing : Nat
  /-- The least value of the next byte. -/
  low : Nat
  /-- The greatest value of the next byte. -/
  high : Nat
  deriving DecidableEq

/-- What the first byte of a piece announces. -/
inductive Opening
  | whole (c : Char)
  | more (u : Unfinished)
  | illFormed
  deriving DecidableEq

/-- Reads a first byte.  The bounds on the byte after it leave out overlong forms,
surrogates, and numbers above U+10FFFF. -/
def opening (b : UInt8) : Opening :=
  let n := b.toNat
  if n < 0x80 then .whole (Char.ofNat n)
  else if n < 0xC2 then .illFormed
  else if n < 0xE0 then .more ⟨[b], n - 0xC0, 1, 0x80, 0xBF⟩
  else if n = 0xE0 then .more ⟨[b], 0, 2, 0xA0, 0xBF⟩
  else if n = 0xED then .more ⟨[b], 0xD, 2, 0x80, 0x9F⟩
  else if n < 0xF0 then .more ⟨[b], n - 0xE0, 2, 0x80, 0xBF⟩
  else if n = 0xF0 then .more ⟨[b], 0, 3, 0x90, 0xBF⟩
  else if n < 0xF4 then .more ⟨[b], n - 0xF0, 3, 0x80, 0xBF⟩
  else if n = 0xF4 then .more ⟨[b], 4, 3, 0x80, 0x8F⟩
  else .illFormed

/-- The state of reading: finished pieces, the latest first, and the open character. -/
structure Reader where
  pieces : List Piece
  unfinished : Option Unfinished

namespace Reader

/-- The state before the first byte. -/
def empty : Reader := ⟨[], none⟩

/-- Takes `b` as the first byte of a piece. -/
def start (done : List Piece) (b : UInt8) : Reader :=
  match opening b with
  | .whole c => ⟨.good c :: done, none⟩
  | .more u => ⟨done, some u⟩
  | .illFormed => ⟨.bad [b] :: done, none⟩

/-- Reads one byte. -/
def read (r : Reader) (b : UInt8) : Reader :=
  match r.unfinished with
  | none => start r.pieces b
  | some u =>
    if u.low ≤ b.toNat ∧ b.toNat ≤ u.high then
      let value := u.value * 64 + (b.toNat - 0x80)
      if u.missing ≤ 1 then ⟨.good (Char.ofNat value) :: r.pieces, none⟩
      else ⟨r.pieces, some ⟨u.seen ++ [b], value, u.missing - 1, 0x80, 0xBF⟩⟩
    else start (.bad u.seen :: r.pieces) b

/-- All pieces in order, once the input has ended. -/
def close (r : Reader) : List Piece :=
  match r.unfinished with
  | none => r.pieces.reverse
  | some u => (.bad u.seen :: r.pieces).reverse

end Reader

/-- The input as characters and ill-formed stretches. -/
def pieces (bytes : List UInt8) : List Piece := (bytes.foldl Reader.read .empty).close

/-! ## Two readings and the writing -/

/-- What captured output shows for a piece: U+FFFD stands for every bad one. -/
def Piece.shown : Piece → Char
  | .good c => c
  | .bad _ => Char.ofNat 0xFFFD

/-- The characters of captured output. -/
def lossy (bytes : List UInt8) : List Char := (pieces bytes).map Piece.shown

/-- The byte as a symbol; every byte of a bad piece is at least `0x80`. -/
def stray (b : UInt8) : Symbol := .stray (Fin.ofNat 128 (b.toNat - 0x80))

/-- The symbols that keep a piece: strays for the bytes of a bad one. -/
def Piece.symbols : Piece → Text
  | .good c => [.char c]
  | .bad bytes => bytes.map stray

end Utf8

/-- The bytes that a symbol stands for. -/
def Symbol.toBytes : Symbol → List UInt8
  | .char c => String.utf8EncodeChar c
  | .stray low => [UInt8.ofNat (0x80 + low.val)]

/-- Reads bytes so that `Text.toBytes` gives them back. -/
def Text.ofBytes (bytes : List UInt8) : Text := (Utf8.pieces bytes).flatMap Utf8.Piece.symbols

/-- Writes a text: characters in UTF-8, strays as the bytes they are. -/
def Text.toBytes (t : Text) : List UInt8 := t.flatMap Symbol.toBytes

end FileSweep
