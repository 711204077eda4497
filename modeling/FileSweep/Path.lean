import FileSweep.Text.LowerCase

/-!
# Paths

A path is an anchor and a list of parts.  Reading one from a text drops what does not
count: empty parts, `.` parts, and slashes at the end; `..` is a part like any other,
since what it means depends on links.  Exactly two leading slashes are an anchor of
their own, three or more are the same as one.

Every part is a **real** part: not empty, not `.`, without a slash.  The type carries
this, so a path's text determines the path.
-/

namespace FileSweep

/-- Whether a text can be a part of a path. -/
def Text.IsPart (t : Text) : Prop := t ≠ [] ∧ t ≠ [.char '.'] ∧ .char '/' ∉ t

instance (t : Text) : Decidable t.IsPart := inferInstanceAs (Decidable (_ ∧ _ ∧ _))

/-- Where a path starts. -/
inductive Anchor
  | relative
  | slash
  | doubleSlash
  deriving DecidableEq

/-- The text of an anchor. -/
def Anchor.text : Anchor → Text
  | .relative => []
  | .slash => [.char '/']
  | .doubleSlash => [.char '/', .char '/']

/-- A path: an anchor and the parts below it. -/
@[ext] structure Path where
  anchor : Anchor
  parts : List Text
  isPart : ∀ p ∈ parts, p.IsPart
  deriving DecidableEq

namespace Path

/-! ## Reading and writing -/

/-- The anchor with which a text begins. -/
def anchorOf : Text → Anchor
  | .char '/' :: .char '/' :: .char '/' :: _ => .slash
  | .char '/' :: .char '/' :: _ => .doubleSlash
  | .char '/' :: _ => .slash
  | _ => .relative

/-- The real parts among the pieces between slashes. -/
def partsOf (t : Text) : List Text := (t.splitWhere (· = .char '/')).filter fun p => p.IsPart

/-- Reads a path. -/
def ofText (t : Text) : Path where
  anchor := anchorOf t
  parts := partsOf t
  isPart p hp := by simpa using (List.mem_filter.mp hp).2

/-- Writes a path; the empty relative one is `.`. -/
def text (p : Path) : Text :=
  match p.anchor, p.parts with
  | .relative, [] => [.char '.']
  | a, ps => a.text ++ Text.join [.char '/'] ps

/-- The last part, or nothing for a bare anchor. -/
def name (p : Path) : Text := p.parts.getLastD []

/-- Whether the path cannot be handed to the operating system: a NUL ends its strings. -/
def hasNul (p : Path) : Bool := p.text.has (Char.ofNat 0)

/-- The path below `p` that a name gives; an anchored name stands for itself. -/
def child (p : Path) (name : Text) : Path :=
  let q := ofText name
  match q.anchor with
  | .relative =>
    ⟨p.anchor, p.parts ++ q.parts, fun t ht =>
      (List.mem_append.mp ht).elim (p.isPart t) (q.isPart t)⟩
  | _ => q

/-! ## Names as paths -/

/-- A real part is the only part of itself. -/
theorem partsOf_of_isPart {t : Text} (h : t.IsPart) : partsOf t = [t] := by
  have hs : ∀ a ∈ t, decide (a = .char '/') = false := fun a ha =>
    decide_eq_false fun hslash => h.2.2 (hslash ▸ ha)
  simp [partsOf, Text.splitWhere_of_forall hs, h]

/-- A real part has no anchor. -/
theorem anchorOf_of_isPart {t : Text} (h : t.IsPart) : anchorOf t = .relative := by
  unfold anchorOf
  split
  · exact absurd List.mem_cons_self h.2.2
  · exact absurd List.mem_cons_self h.2.2
  · exact absurd List.mem_cons_self h.2.2
  · rfl

/-- A real part names what is directly below. -/
theorem child_of_isPart (p : Path) {name : Text} (h : name.IsPart) :
    (p.child name).anchor = p.anchor ∧ (p.child name).parts = p.parts ++ [name] := by
  simp [child, ofText, anchorOf_of_isPart h, partsOf_of_isPart h]

end Path

end FileSweep
