import FileSweep.Proofs.LetterCase
import FileSweep.Settings

/-!
# The normal form of an extension

A chosen extension is stripped, lower-cased, and given a dot if it has none.  The order of these
steps does not matter: a dot in front is no neighbour of a sigma, so the normal form is the
lower-case form of the stripped text with its dot (`Text.extensionForm?_eq`), and only a text of
which no more than a dot is left has none.

A normal form begins with a dot and something follows it, no blank stands at its ends, and it is
lower-case (`Text.IsExtensionForm`).  So it is its own normal form, and it matches exactly the
extensions whose lower-case form it is.
-/

namespace FileSweep

namespace Text

/-! ## Texts without blanks at their ends -/

/-- Whether a text neither begins nor ends with a blank. -/
def Trimmed (t : Text) : Prop :=
  (∀ a ∈ t.head?, a.isBlank = false) ∧ ∀ a ∈ t.getLast?, a.isBlank = false

instance (t : Text) : Decidable t.Trimmed := inferInstanceAs (Decidable (_ ∧ _))

theorem head?_dropWhile_isBlank (t : Text) :
    ∀ a ∈ (t.dropWhile Symbol.isBlank).head?, a.isBlank = false := by
  intro a ha
  have hhead := List.head?_dropWhile_not Symbol.isBlank t
  rw [ha] at hhead
  exact hhead

theorem dropWhile_isBlank_of_head? {t : Text} (h : ∀ a ∈ t.head?, a.isBlank = false) :
    t.dropWhile Symbol.isBlank = t := by
  cases t with
  | nil => rfl
  | cons a t => exact List.dropWhile_cons_of_neg (by simp [h a rfl])

/-- Stripping leaves no blank at the ends. -/
theorem trimmed_strip (t : Text) : t.strip.Trimmed := by
  have hfront := head?_dropWhile_isBlank t
  unfold strip
  generalize t.dropWhile Symbol.isBlank = u at hfront ⊢
  constructor
  · -- what is left is the beginning of `u`
    intro a ha
    obtain ⟨more, hmore⟩ := List.dropWhile_suffix (l := u.reverse) Symbol.isBlank
    have hu : u = (u.reverse.dropWhile Symbol.isBlank).reverse ++ more.reverse := by
      rw [← List.reverse_append, hmore, List.reverse_reverse]
    refine hfront a ?_
    rw [hu, List.head?_append, ha]
    rfl
  · rw [List.getLast?_reverse]
    exact head?_dropWhile_isBlank u.reverse

/-- Only blanks at the ends are stripped. -/
theorem strip_of_trimmed {t : Text} (h : t.Trimmed) : t.strip = t := by
  obtain ⟨hhead, hlast⟩ := h
  rw [← List.head?_reverse] at hlast
  rw [strip, dropWhile_isBlank_of_head? hhead, dropWhile_isBlank_of_head? hlast,
    List.reverse_reverse]

/-- Blanks do not come with lower-casing. -/
theorem Trimmed.lower {t : Text} (h : t.Trimmed) : t.lower.Trimmed := by
  constructor
  · intro a ha
    cases hblank : a.isBlank with
    | false => rfl
    | true => exact hblank ▸ h.1 a ((head?_lower_iff (Symbol.isMark_of_isBlank hblank)).mp ha)
  · intro a ha
    cases hblank : a.isBlank with
    | false => rfl
    | true => exact hblank ▸ h.2 a ((getLast?_lower_iff (Symbol.isMark_of_isBlank hblank)).mp ha)

/-! ## A dot in front -/

/-- The text with a dot in front, if it does not begin with one. -/
def dotted (t : Text) : Text := if t.head? = some (.char '.') then t else .char '.' :: t

theorem dotted_of_head? {t : Text} (h : t.head? = some (.char '.')) : t.dotted = t := if_pos h

theorem exists_dotted (t : Text) : ∃ rest, t.dotted = .char '.' :: rest := by
  unfold dotted
  split
  · rename_i h
    exact List.head?_eq_some_iff.mp h
  · exact ⟨t, rfl⟩

/-- A dot may be put in front before or after lower-casing. -/
theorem lower_dotted (t : Text) : t.dotted.lower = t.lower.dotted := by
  unfold dotted
  simp only [head?_lower_iff Symbol.isMark_dot]
  split
  · rfl
  · exact lower_dot_cons t

/-- A text without a blank at its ends has none there with a dot, either. -/
theorem Trimmed.dotted {t : Text} (h : t.Trimmed) : t.dotted.Trimmed := by
  unfold Text.dotted
  split
  · exact h
  · refine ⟨?_, ?_⟩
    · rintro a ⟨⟩
      decide
    · intro a ha
      rw [List.getLast?_cons] at ha
      cases hlast : t.getLast? with
      | none =>
        rw [hlast] at ha
        obtain rfl := Option.some.inj ha
        decide
      | some b =>
        rw [hlast] at ha
        obtain rfl := Option.some.inj ha
        exact h.2 _ hlast

theorem lower_eq_dot_iff {t : Text} : t.lower = [.char '.'] ↔ t = [.char '.'] := by
  constructor
  · intro h
    have hhead : t.head? = some (.char '.') := by
      rw [← head?_lower_iff Symbol.isMark_dot, h]
      rfl
    obtain ⟨rest, rfl⟩ := List.head?_eq_some_iff.mp hhead
    rw [lower_dot_cons] at h
    rw [lower_eq_nil_iff.mp (List.cons.inj h).2]
  · rintro rfl
    decide

/-! ## Normal forms -/

/-- **The normal form** is the lower-case form of the stripped text with its dot, unless no more
than a dot is left of it. -/
theorem extensionForm?_eq (t : Text) :
    t.extensionForm? =
      if t.strip = [] ∨ t.strip = [.char '.'] then none else some t.strip.dotted.lower := by
  rw [lower_dotted, dotted]
  simp only [extensionForm?, lower_eq_nil_iff, lower_eq_dot_iff, apply_ite some]

/-- Whether a text is a normal form of extensions. -/
structure IsExtensionForm (e : Text) : Prop where
  dot : e.head? = some (.char '.')
  length : 2 ≤ e.length
  trimmed : e.Trimmed
  lower : e.lower = e

namespace IsExtensionForm

theorem of_dotted {t : Text} (h : t.Trimmed) (hne : t ≠ []) (hdot : t ≠ [.char '.']) :
    t.dotted.lower.IsExtensionForm := by
  obtain ⟨rest, hrest⟩ := t.exists_dotted
  have hrest_ne : rest ≠ [] := by
    rintro rfl
    unfold dotted at hrest
    split at hrest
    · exact hdot hrest
    · exact hne (List.cons.inj hrest).2
  refine ⟨?_, ?_, h.dotted.lower, lower_lower t.dotted⟩
  · rw [head?_lower_iff Symbol.isMark_dot, hrest]
    rfl
  · rw [hrest, lower_dot_cons, List.length_cons]
    have hpos := List.length_pos_iff.mpr (mt lower_eq_nil_iff.mp hrest_ne)
    omega

theorem of_extensionForm? {t e : Text} (h : t.extensionForm? = some e) : e.IsExtensionForm := by
  rw [extensionForm?_eq] at h
  split at h
  · cases h
  · rename_i hleft
    obtain ⟨hne, hdot⟩ := not_or.mp hleft
    exact Option.some.inj h ▸ of_dotted t.trimmed_strip hne hdot

variable {e : Text} (h : e.IsExtensionForm)
include h

theorem ne_nil : e ≠ [] := by
  rintro rfl
  cases h.dot

theorem ne_dot : e ≠ [.char '.'] := by
  rintro rfl
  exact absurd h.length (by decide)

/-- A normal form is its own normal form. -/
theorem extensionForm?_eq_self : e.extensionForm? = some e := by
  rw [extensionForm?_eq, strip_of_trimmed h.trimmed, dotted_of_head? h.dot, h.lower,
    if_neg (not_or.mpr ⟨h.ne_nil, h.ne_dot⟩)]

/-- A normal form matches the extensions whose lower-case form it is. -/
theorem hasExtension_iff (p : Path) (regular : Bool) :
    p.hasExtension regular e = true ↔ regular = true ∧ p.extension.lower = e := by
  rw [Path.hasExtension, h.lower, Bool.and_eq_true, beq_iff_eq]

end IsExtensionForm

end Text

namespace Settings

/-! ## Extensions in settings -/

/-- What is offered by somebody who chooses an extension, and maybe an executable. -/
def offer (executable : Option Value) (extension : Text) : List (Text × Value) :=
  executable.toList.map (executableName, ·) ++ [(extensionName, .text extension)]

/-- Such an offer is taken if the executable is valid and the extension has a normal form; all
that is wrong with it is reported. -/
theorem ofOffers_offer (executable : Option Value) (extension : Text) :
    ofOffers (offer executable extension) =
      match executableFrom executable, extension.extensionForm? with
      | .ok path, some e => .ok ⟨path, e⟩
      | r, some _ => .error (ofOffers.errorOf r)
      | r, none => .error (ofOffers.errorOf r ++
          [⟨extensionName, .blankExtension, .text extension⟩]) := by
  have hname : (extensionName == executableName) = false := by decide
  have hname' : (executableName == extensionName) = false := by decide
  have hlookup : (offer executable extension).lookup executableName = executable ∧
      (offer executable extension).lookup extensionName = some (.text extension) ∧
      unknownNames (offer executable extension) = [] := by
    cases executable <;> simp [offer, unknownNames, List.lookup_cons, hname, hname']
  obtain ⟨hexecutable, hextension, hunknown⟩ := hlookup
  rw [ofOffers, hexecutable, hextension, hunknown, extensionFrom]
  cases extension.extensionForm? <;> cases executableFrom executable <;>
    simp [ofOffers.errorOf]

/-- The extension that is set when none is offered is a normal form. -/
theorem isExtensionForm_default : default.extension.IsExtensionForm :=
  .of_extensionForm? (t := ".chm") (by decide)

/-- **All settings hold a normal form.** -/
theorem isExtensionForm_of_ofOffers {offers : List (Text × Value)} {s : Settings}
    (h : ofOffers offers = .ok s) : s.extension.IsExtensionForm := by
  unfold ofOffers at h
  split at h
  · rename_i executable extension _ hextension _
    obtain rfl := Except.ok.inj h
    unfold extensionFrom at hextension
    split at hextension
    · obtain rfl := Except.ok.inj hextension
      exact isExtensionForm_default
    · split at hextension
      · rename_i e hform
        obtain rfl := Except.ok.inj hextension
        exact .of_extensionForm? hform
      · cases hextension
    · cases hextension
  · cases h

/-- What is known of an extension that settings hold. -/
structure NormalExtension (e : Text) : Prop where
  dot : e.head? = some (.char '.')
  length : 2 ≤ e.length
  trimmed : e.Trimmed
  lower : e.lower = e
  stable : ofOffers (offer none e) = .ok ⟨default.executable, e⟩
  selects : ∀ (p : Path) (regular : Bool),
    p.hasExtension regular e = true ↔ regular = true ∧ p.extension.lower = e

theorem NormalExtension.of_isExtensionForm {e : Text} (h : e.IsExtensionForm) :
    NormalExtension e where
  dot := h.dot
  length := h.length
  trimmed := h.trimmed
  lower := h.lower
  stable := by rw [ofOffers_offer, h.extensionForm?_eq_self]; rfl
  selects := h.hasExtension_iff

/-- **The normal form of an extension.**  A chosen extension is refused if and only if nothing
or a single dot is left of it without the blanks around it.  Any other one is kept in normal
form, which has all that is known of such forms, and so has the extension that is set by itself.
If it was written with its dot and without blanks around it, the normal form selects the same
entries. -/
theorem extension_normal_form (v : Text) :
    (ofOffers (offer none v) = .error [⟨extensionName, .blankExtension, .text v⟩] ↔
      v.strip = [] ∨ v.strip = ".") ∧
    (v.strip ≠ [] → v.strip ≠ "." → ∃ e,
      ofOffers (offer none v) = .ok ⟨default.executable, e⟩ ∧ NormalExtension e ∧
      (v.head? = some (.char '.') → v.Trimmed → ∀ (p : Path) (regular : Bool),
        p.hasExtension regular v = p.hasExtension regular e)) ∧
    NormalExtension default.extension := by
  have hdot : Text.ofString "." = [.char '.'] := by decide
  have hform := v.extensionForm?_eq
  refine ⟨?_, fun hne hne' => ⟨v.strip.dotted.lower, ?_, ?_, ?_⟩, ?_⟩
  · rw [ofOffers_offer, hform, hdot]
    by_cases hleft : v.strip = [] ∨ v.strip = [.char '.']
    · rw [if_pos hleft]
      exact ⟨fun _ => hleft, fun _ => rfl⟩
    · rw [if_neg hleft]
      exact ⟨nofun, fun h => absurd h hleft⟩
  · rw [ofOffers_offer, hform, if_neg (not_or.mpr ⟨hne, hdot ▸ hne'⟩)]
    rfl
  · exact .of_isExtensionForm (.of_dotted v.trimmed_strip hne (hdot ▸ hne'))
  · intro hhead htrimmed p regular
    rw [Text.strip_of_trimmed htrimmed, Text.dotted_of_head? hhead, Path.hasExtension,
      Path.hasExtension, Text.lower_lower]
  · exact .of_isExtensionForm isExtensionForm_default

/-- The last letter of this extension is a sigma at the end of a word. -/
theorem sigma_normal_form :
    ofOffers (offer none ".ΑΣ") = .ok ⟨default.executable, ".ας"⟩ ∧ NormalExtension ".ας" ∧
      ∀ (p : Path) (regular : Bool),
        p.hasExtension regular ".ΑΣ" = p.hasExtension regular ".ας" := by
  obtain ⟨-, hkept, -⟩ := extension_normal_form ".ΑΣ"
  obtain ⟨e, hoffer, hnormal, hsame⟩ := hkept (by decide) (by decide)
  have hform : Text.extensionForm? ".ΑΣ" = some ".ας" := by decide +kernel
  have hkeeps : ofOffers (offer none ".ΑΣ") = .ok ⟨default.executable, ".ας"⟩ := by
    rw [ofOffers_offer, hform]
    rfl
  obtain rfl : ".ας" = e := congrArg Settings.extension (Except.ok.inj (hkeeps.symm.trans hoffer))
  exact ⟨hoffer, hnormal, hsame (by decide) (by decide)⟩

end Settings

end FileSweep
