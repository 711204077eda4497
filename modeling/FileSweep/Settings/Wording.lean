import FileSweep.Settings
import FileSweep.Text.Stray

/-!
# The wording of objections

What is offered for settings is checked with a general library, and it is the library that puts
the objections into words.  Its wording, that of version 2.14, is set down here and nowhere else.

Elsewhere one fact is used about it: what a message shows of an offer is the name and the value,
and there are no stray bytes in the words around them (`SettingsError.hasStray_summary`).
-/

namespace FileSweep

/-! ## The words -/

/-- The identifier of an objection. -/
def Objection.code : Objection → Text
  | .notPath => "path_type"
  | .notText => "string_type"
  | .blankExtension => "value_error"
  | .unknownName => "extra_forbidden"
  | .unchangeable => "frozen_instance"

/-- The objection in words. -/
def Objection.message : Objection → Text
  | .notPath => "Input is not a valid path for <class 'pathlib.Path'>"
  | .notText => "Input should be a valid string"
  | .blankExtension => "Value error, " ++ Settings.blankReason
  | .unknownName => "Extra inputs are not permitted"
  | .unchangeable => "Instance is frozen"

/-- Whether the objection has an entry of its own in the list of objections that messages
point to. -/
def Objection.isListed : Objection → Bool
  | .notPath => false
  | .notText | .blankExtension | .unknownName | .unchangeable => true

/-- The line that points to the list of objections, for one that stands there. -/
def Objection.reference (o : Objection) : Text :=
  if o.isListed then
    "\n    For further information visit https://errors.pydantic.dev/2.14/v/" ++ o.code
  else []

/-- How many symbols of an offered value a message shows before it leaves some out. -/
def SettingsError.shownLimit : Nat := 50

/-- The offered value as the message shows it: of a long one, the beginning and the end. -/
def SettingsError.shown (e : SettingsError) : Text :=
  let t := e.offered.shown
  if t.length ≤ shownLimit then t else t.take 25 ++ "..." ++ t.drop (t.length - 24)

/-- One objection in a message. -/
def SettingsError.text (e : SettingsError) : Text :=
  e.name ++ "\n  " ++ e.objection.message ++ " [type=" ++ e.objection.code ++ ", input_value=" ++
    e.shown ++ ", input_type=" ++ e.offered.sort ++ "]" ++ e.objection.reference

/-- All objections in a message. -/
def SettingsError.summary (errors : List SettingsError) : Text :=
  Text.ofNat errors.length ++
    (if errors.length = 1 then " validation error" else " validation errors") ++
    " for RunnerConfig\n" ++ Text.join "\n" (errors.map SettingsError.text)

/-! ## Stray bytes in them -/

namespace SettingsError

/-- Whether an objection is put into words without stray bytes. -/
def IsPlain (e : SettingsError) : Prop :=
  e.name.hasStray = false ∧ e.offered.shown.hasStray = false

theorem hasStray_text {e : SettingsError} (h : e.IsPlain) : e.text.hasStray = false := by
  obtain ⟨hname, hoffered⟩ := h
  have htake : Text.hasStray (e.offered.shown.take 25) = false :=
    Text.hasStray_of_subset (List.take_subset _ _) hoffered
  have hdrop : Text.hasStray (e.offered.shown.drop (e.offered.shown.length - 24)) = false :=
    Text.hasStray_of_subset (List.drop_subset _ _) hoffered
  have hshown : e.shown.hasStray = false := by
    unfold shown
    dsimp only
    split
    · exact hoffered
    · simp [htake, hdrop]
  have hmessage : e.objection.message.hasStray = false := by
    cases e.objection <;> simp [Objection.message, Settings.blankReason]
  have hcode : e.objection.code.hasStray = false := by
    cases e.objection <;> exact Text.hasStray_ofString _
  have hreference : e.objection.reference.hasStray = false := by
    unfold Objection.reference
    split <;> simp [hcode]
  have hsort : e.offered.sort.hasStray = false := by
    cases e.offered <;> exact Text.hasStray_ofString _
  simp [text, hname, hmessage, hcode, hshown, hsort, hreference]

/-- **Nothing but names and offered values brings stray bytes into a message.** -/
theorem hasStray_summary {errors : List SettingsError} (h : ∀ e ∈ errors, e.IsPlain) :
    (summary errors).hasStray = false := by
  have hall : (Text.join "\n" (errors.map text)).hasStray = false := by
    rw [Text.hasStray_join (Text.hasStray_ofString _)]
    simpa using fun e he => hasStray_text (h e he)
  unfold summary
  split <;> simp [hall]

end SettingsError

end FileSweep
