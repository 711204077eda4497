import FileSweep.Proofs.ExtensionForm
import FileSweep.Sweep

/-!
# Respelled extensions

An extension can be written in several ways: with letters of ASCII in the other case, and without
its dot, if a dot is all that is in front (`Text.Respelled`).  None of this matters.  A dot is
put back by the normal form, and what lower-casing makes of all other letters does not depend on
the case of those of ASCII, nor on a dot in front; so both spellings have the same normal form,
or none (`Text.extensionForm?_eq_of_respelled`), and a sweep is the same with either.
-/

namespace FileSweep

namespace Text

/-- Whether two texts differ at most in the case of letters of ASCII. -/
def SameButCase (s t : Text) : Prop := s.map Symbol.foldAscii = t.map Symbol.foldAscii

instance (s t : Text) : Decidable (s.SameButCase t) := inferInstanceAs (Decidable (_ = _))

/-- Whether the second text is the first one with letters of ASCII in other cases, and maybe with
a dot in front that the first one does not have. -/
inductive Respelled : Text → Text → Prop
  | recased {s t : Text} (h : s.SameButCase t) : Respelled s t
  | dotAdded {s t : Text} (h : s.SameButCase t) (hs : s.head? ≠ some (.char '.')) :
    Respelled s (.char '.' :: t)

/-- Texts that differ in the case of ASCII letters have one lower-case form, whatever else there is
in them. -/
theorem SameButCase.lower_eq {s t : Text} (h : s.SameButCase t) : s.lower = t.lower := by
  rw [← lower_map_foldAscii s, ← lower_map_foldAscii t, h]

/-- Respelled texts have one lower-case form once they have their dots, and nothing or a single
dot is respelled as nothing or a single dot. -/
theorem Respelled.lower_dotted_eq {s t : Text} (h : Respelled s t) :
    s.dotted.lower = t.dotted.lower ∧
      (s = [] ∨ s = [.char '.'] ↔ t = [] ∨ t = [.char '.']) := by
  cases h with
  | recased h =>
    have hlower := h.lower_eq
    rw [lower_dotted, lower_dotted, ← lower_eq_nil_iff (t := s), ← lower_eq_nil_iff (t := t),
      ← lower_eq_dot_iff (t := s), ← lower_eq_dot_iff (t := t), hlower]
    exact ⟨rfl, Iff.rfl⟩
  | @dotAdded t h hs =>
    have hlower := h.lower_eq
    have hs_dotted : s.dotted = .char '.' :: s := if_neg hs
    have hs_ne : s ≠ [.char '.'] := by
      rintro rfl
      exact hs rfl
    refine ⟨?_, ?_⟩
    · rw [hs_dotted, dotted_of_head? rfl, lower_dot_cons, lower_dot_cons, hlower]
    · have hnil : s = [] ↔ t = [] := by rw [← lower_eq_nil_iff, hlower, lower_eq_nil_iff]
      simp [hs_ne, hnil]

/-- **Respelled extensions have the same normal form**, or none. -/
theorem extensionForm?_eq_of_respelled {v v' : Text} (h : Respelled v.strip v'.strip) :
    v.extensionForm? = v'.extensionForm? := by
  obtain ⟨hlower, hleft⟩ := h.lower_dotted_eq
  simp only [extensionForm?_eq, hleft, hlower]

end Text

namespace Settings

/-- Extensions with the same normal form are taken or refused alike. -/
theorem ofOffers_offer_congr (executable : Option Value) {v v' : Text}
    (h : v.extensionForm? = v'.extensionForm?) :
    (∃ s, ofOffers (offer executable v) = .ok s ∧ ofOffers (offer executable v') = .ok s) ∨
      ∃ errors errors', ofOffers (offer executable v) = .error errors ∧
        ofOffers (offer executable v') = .error errors' := by
  rw [ofOffers_offer, ofOffers_offer, h]
  cases executableFrom executable with
  | error e => cases v'.extensionForm? <;> exact .inr ⟨_, _, rfl, rfl⟩
  | ok path =>
    cases v'.extensionForm? with
    | none => exact .inr ⟨_, _, rfl, rfl⟩
    | some e => exact .inl ⟨_, rfl, rfl⟩

/-- **The spelling of an extension does not matter.**  If two extensions, without the blanks
around them, are respellings of one another, then both are refused or both are taken; and if they
are taken, the settings hold the same extension, so that with either a sweep of any tree prints,
calls and notes the same, and ends in the same way. -/
theorem respelled_same_sweep {v v' : Text}
    (h : Text.Respelled v.strip v'.strip ∨ Text.Respelled v'.strip v.strip)
    (executable : Option Value) :
    ((∃ s, ofOffers (offer executable v) = .ok s) ↔
      ∃ s, ofOffers (offer executable v') = .ok s) ∧
    ∀ s s', ofOffers (offer executable v) = .ok s → ofOffers (offer executable v') = .ok s' →
      s.extension = s'.extension ∧
      ∀ (σ α : Type) [FileSystem σ] (tester : Tester α) (root : Path) (budget : Nat) (fs : σ)
        (script : List (Attempt σ α)),
        let r := Sweep.run tester s root budget fs script
        let r' := Sweep.run tester s' root budget fs script
        Event.stdout r.1 = Event.stdout r'.1 ∧ Event.calls r.1 = Event.calls r'.1 ∧
          Event.notices r.1 = Event.notices r'.1 ∧ r.2 = r'.2 := by
  have hform : v.extensionForm? = v'.extensionForm? :=
    h.elim Text.extensionForm?_eq_of_respelled fun h => (Text.extensionForm?_eq_of_respelled h).symm
  rcases ofOffers_offer_congr executable hform with ⟨s, hs, hs'⟩ | ⟨errors, errors', hs, hs'⟩
  · refine ⟨⟨fun _ => ⟨s, hs'⟩, fun _ => ⟨s, hs⟩⟩, ?_⟩
    intro s₁ s₂ h₁ h₂
    obtain rfl := Except.ok.inj (hs.symm.trans h₁)
    obtain rfl := Except.ok.inj (hs'.symm.trans h₂)
    exact ⟨rfl, fun σ α _ tester root budget fs script => ⟨rfl, rfl, rfl, rfl⟩⟩
  · rw [hs, hs']
    exact ⟨⟨nofun, nofun⟩, nofun⟩

/-- A sigma after a letter of ASCII, with a dot and without, in both cases of the letter. -/
theorem sigma_respelled :
    (ofOffers (offer none ".KΣ") = .ok ⟨default.executable, ".kς"⟩) ∧
      ∃ s, ofOffers (offer none " kΣ") = .ok s ∧ s.extension = ".kς" := by
  have hrespelled : Text.Respelled (Text.strip " kΣ") (Text.strip ".KΣ") :=
    .dotAdded (t := "KΣ") (by decide) (by decide)
  obtain ⟨htaken, hsame⟩ := respelled_same_sweep (.inl hrespelled) none
  have hform : Text.extensionForm? ".KΣ" = some ".kς" := by decide +kernel
  have hdotted : ofOffers (offer none ".KΣ") = .ok ⟨default.executable, ".kς"⟩ := by
    rw [ofOffers_offer, hform]
    rfl
  obtain ⟨s, hs⟩ := htaken.mpr ⟨_, hdotted⟩
  exact ⟨hdotted, s, hs, (hsame s _ hs hdotted).1⟩

end Settings

end FileSweep
