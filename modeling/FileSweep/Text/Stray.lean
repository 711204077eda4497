import FileSweep.Text.Quoted

/-!
# Texts with stray bytes

A stray byte comes into a text only from outside: nothing that is written down in the program,
no number, and no quoted text holds one, since quoting escapes all that is not printable.
-/

namespace FileSweep

/-- Whether a symbol is a stray byte. -/
def Symbol.isStray : Symbol → Bool
  | .char _ => false
  | .stray _ => true

namespace Text

/-- Whether a text holds a stray byte. -/
def hasStray (t : Text) : Bool := t.any Symbol.isStray

@[simp] theorem hasStray_nil : hasStray [] = false := rfl

@[simp] theorem hasStray_cons (a : Symbol) (t : Text) :
    hasStray (a :: t) = (a.isStray || hasStray t) := rfl

@[simp] theorem hasStray_append (s t : Text) : hasStray (s ++ t) = (hasStray s || hasStray t) :=
  List.any_append

@[simp] theorem isStray_char (c : Char) : (Symbol.char c).isStray = false := rfl

theorem hasStray_of_subset {s t : Text} (h : s ⊆ t) (ht : hasStray t = false) :
    hasStray s = false := by
  rw [hasStray, List.any_eq_false] at ht ⊢
  exact fun a ha => ht a (h ha)

/-! ## What is written down in the program -/

@[simp] theorem hasStray_ofChars (cs : List Char) : hasStray (ofChars cs) = false := by
  simp [hasStray, ofChars, Symbol.isStray]

@[simp] theorem hasStray_ofString (s : String) : hasStray (ofString s) = false :=
  hasStray_ofChars s.toList

@[simp] theorem hasStray_ofNat (n : Nat) : hasStray (ofNat n) = false := hasStray_ofChars _

theorem hasStray_join {between : Text} (hbetween : hasStray between = false) (ts : List Text) :
    hasStray (join between ts) = ts.any hasStray := by
  induction ts with
  | nil => rfl
  | cons s ts ih =>
    cases ts with
    | nil => simp
    | cons t ts => simp [join_cons_cons, hbetween, ih]

/-! ## Quoted texts -/

@[simp] theorem hasStray_hex (width n : Nat) : hasStray (hex width n) = false := by
  induction width generalizing n with
  | zero => rfl
  | succ width ih => simp [hex, ih]

@[simp] theorem hasStray_escapeCode (n : Nat) : hasStray (escapeCode n) = false := by
  unfold escapeCode
  split
  · simp
  · split <;> simp

@[simp] theorem hasStray_escape (mark : Char) (a : Symbol) : hasStray (escape mark a) = false := by
  cases a with
  | stray low => simp [escape, Symbol.isPrintable]
  | char c =>
    unfold escape
    repeat' split
    all_goals simp

@[simp] theorem hasStray_quoted (t : Text) : hasStray t.quoted = false := by
  have hinside : hasStray (t.flatMap (escape t.quoteMark)) = false := by
    rw [hasStray, List.any_flatMap]
    refine List.any_eq_false.mpr fun a _ => ?_
    rw [← hasStray, hasStray_escape]
    exact Bool.false_ne_true
  simp [quoted, hinside]

end Text

end FileSweep
