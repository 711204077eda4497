import FileSweep.Command.Program

/-!
# Stray bytes in what is printed

A text without stray bytes can be printed where only characters can be; one with stray bytes
cannot, and the fault names the first run of them (`Text.printFault?_of_hasStray`).

Messages about the command line quote arguments, but for two of them, which hold arguments as they
are (`UsageError.raw`); only there can a message hold a stray byte (`UsageError.Quotes`).
-/

namespace FileSweep

namespace Text

/-! ## Printing -/

/-- **A text without stray bytes can be printed.** -/
theorem printFault?_of_not_hasStray {t : Text} (h : hasStray t = false) (position : Nat) :
    printFault? position t = none := by
  induction t generalizing position with
  | nil => rfl
  | cons a t ih =>
    cases a with
    | stray low => cases h
    | char c => exact ih (by simpa using h) (position + 1)

/-- **A text with stray bytes cannot be printed**, because of the first run of them. -/
theorem printFault?_of_hasStray {t : Text} (h : hasStray t = true) (position : Nat) :
    ∃ before low after, t = before ++ .stray low :: after ∧ hasStray before = false ∧
      printFault? position t =
        some (.unencodable (position + before.length) low (leadingStrays after)) := by
  induction t generalizing position with
  | nil => cases h
  | cons a t ih =>
    cases a with
    | stray low => exact ⟨[], low, t, rfl, rfl, rfl⟩
    | char c =>
      obtain ⟨before, low, after, rfl, hbefore, hfault⟩ := ih (by simpa using h) (position + 1)
      refine ⟨.char c :: before, low, after, rfl, by simpa using hbefore, ?_⟩
      rw [printFault?, hfault, List.length_cons, Nat.add_right_comm, Nat.add_assoc]

end Text

/-! ## Usage errors -/

/-- The arguments that a message holds as they are. -/
def UsageError.raw : UsageError → List Text
  | .ambiguous argument _ => [argument]
  | .unrecognized arguments => arguments
  | .valueMissing _ | .valueUnwanted .. | .directoryMissing | .settings _ => []

/-- Whether a message shows stray bytes only in such arguments. -/
def UsageError.Quotes (e : UsageError) : Prop := e.message.hasStray = e.raw.any Text.hasStray

namespace UsageError

@[simp] theorem hasStray_long (s : Switch) : s.long.hasStray = false := by
  cases s <;> exact Text.hasStray_ofString _

theorem quotes_ambiguous (argument : Text) (choices : List Switch) :
    Quotes (.ambiguous argument choices) := by
  have hchoices : (Text.join ", " (choices.map Switch.long)).hasStray = false := by
    rw [Text.hasStray_join (Text.hasStray_ofString _)]
    simp
  simp [Quotes, message, raw, hchoices]

theorem quotes_valueMissing (s : Switch) : Quotes (.valueMissing s) := by
  cases s <;> simp [Quotes, message, raw, Usage.switchName]

theorem quotes_valueUnwanted (s : Switch) (value : Text) : Quotes (.valueUnwanted s value) := by
  cases s <;> simp [Quotes, message, raw, Usage.switchName]

theorem quotes_directoryMissing : Quotes .directoryMissing := by
  simp [Quotes, message, raw]

theorem quotes_unrecognized (arguments : List Text) : Quotes (.unrecognized arguments) := by
  have hjoin := Text.hasStray_join (Text.hasStray_ofString " ") arguments
  simp [Quotes, message, raw, hjoin]

theorem quotes_settings {errors : List SettingsError} (h : ∀ e ∈ errors, e.IsPlain) :
    Quotes (.settings errors) := by
  simpa [Quotes, message, raw] using SettingsError.hasStray_summary h

end UsageError

end FileSweep
