/-!
# Text that may hold undecodable bytes

The name of a file is a string of bytes, and nothing makes those bytes UTF-8.  A
`Text` reads them as characters wherever that is possible and keeps every other
byte as a symbol of its own, a **stray**.  So no byte is lost on the way from a
listing to a report (`FileSweep.Text.Utf8` gives both directions), and a text can
still be sorted, lower-cased, split and quoted like any other.

A stray byte `0x80 + b` takes the code point `U+DC80 + b`.  No character lies
there, so strays compare and print without ever being mistaken for one.
-/

namespace FileSweep

/-! ## Symbols and texts -/

/-- One symbol of a text: a character, or the byte `0x80 + low` that belongs to none. -/
inductive Symbol
  | char (c : Char)
  | stray (low : Fin 128)
  deriving DecidableEq

/-- The code point by which symbols are ordered and shown. -/
def Symbol.code : Symbol → Nat
  | .char c => c.toNat
  | .stray low => 0xDC80 + low.val

/-- A number that is the code point of a character is that of `Char.ofNat`. -/
theorem toNat_charOfNat {n : Nat} (h : n.isValidChar) : (Char.ofNat n).toNat = n := by
  unfold Char.ofNat
  rw [dif_pos h]
  rfl

instance : Hashable Symbol := ⟨fun a => hash a.code⟩

/-- A name, an argument, or a line of output. -/
abbrev Text := List Symbol

namespace Text

/-- The text of the given characters. -/
def ofChars (cs : List Char) : Text := cs.map .char

/-- The text of a string. -/
def ofString (s : String) : Text := ofChars s.toList

instance : Coe String Text := ⟨ofString⟩

/-- The decimal digits of a natural number. -/
def ofNat (n : Nat) : Text := ofChars (Nat.toDigits 10 n)

/-- An integer in decimal, with a sign only in front of the negative ones. -/
def ofInt : Int → Text
  | .ofNat n => ofNat n
  | .negSucc n => .char '-' :: ofNat (n + 1)

/-! ## Order -/

/-- Whether `s` does not come after `t`: by code point at the first difference, and
a text before its extensions. -/
def le : Text → Text → Bool
  | [], _ => true
  | _ :: _, [] => false
  | a :: s, b :: t => a.code < b.code || (a.code == b.code && le s t)

/-- The texts in ascending order; equal ones are all kept. -/
def sort (ts : List Text) : List Text := ts.mergeSort le

/-! ## Taking texts apart -/

/-- The pieces between the symbols that satisfy `p`, empty ones included: one more
than there are such symbols. -/
def splitWhere (p : Symbol → Bool) (t : Text) : List Text :=
  t.foldr
    (fun a pieces =>
      if p a then [] :: pieces
      else match pieces with
        | [] => [[a]]
        | piece :: more => (a :: piece) :: more)
    [[]]

/-- A text without a separator is one piece. -/
theorem splitWhere_of_forall {p : Symbol → Bool} {t : Text} (h : ∀ a ∈ t, p a = false) :
    t.splitWhere p = [t] := by
  induction t with
  | nil => rfl
  | cons a t ih =>
    have ht := ih fun b hb => h b (List.mem_cons_of_mem a hb)
    unfold splitWhere at ht ⊢
    rw [List.foldr_cons, ht, h a List.mem_cons_self]
    rfl

/-- The texts one after the other, with `between` between neighbours. -/
def join (between : Text) (ts : List Text) : Text := (ts.intersperse between).flatten

@[simp] theorem join_nil (between : Text) : join between [] = [] := rfl

@[simp] theorem join_singleton (between t : Text) : join between [t] = t := by simp [join]

theorem join_cons_cons (between s t : Text) (ts : List Text) :
    join between (s :: t :: ts) = s ++ between ++ join between (t :: ts) := by
  simp [join]

/-- Whether the text holds the character. -/
def has (t : Text) (c : Char) : Bool := t.contains (.char c)

/-- The part before the first `c` and the part after it, or nothing without a `c`. -/
def cutAt (c : Char) : Text → Option (Text × Text)
  | [] => none
  | a :: t =>
    if a = .char c then some ([], t)
    else (cutAt c t).map fun (before, after) => (a :: before, after)

end Text

end FileSweep
