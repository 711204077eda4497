import FileSweep.Text.Blank
import FileSweep.Extension
import FileSweep.Fault
import FileSweep.Value

/-!
# Settings

A sweep has two settings: the executable to run, and the extension of the files to run
it on.  An extension is brought into **normal form** when it is chosen: blanks around it
go, it is lower-cased, and a dot is put in front of one that has none.  An extension of
which nothing but a dot remains is refused.

Settings are made from named values that somebody offers.  All that is wrong with the
offered values is reported at once: the executable first, then the extension, then the
names that are no settings, in the order given.  `FileSweep.Settings.Wording` puts it into words.
-/

namespace FileSweep

/-! ## The normal form of an extension -/

/-- The normal form of a chosen extension, if it has one. -/
def Text.extensionForm? (t : Text) : Option Text :=
  let e := t.strip.lower
  if e = [] ∨ e = [.char '.'] then none
  else if e.head? = some (.char '.') then some e
  else some (.char '.' :: e)

/-! ## What is wrong with offered values -/

/-- Ways in which an offered value can be wrong. -/
inductive Objection
  | notPath
  | notText
  | blankExtension
  | unknownName
  | unchangeable
  deriving DecidableEq

/-- An objection to the value offered under a name. -/
structure SettingsError where
  name : Text
  objection : Objection
  offered : Value

/-! ## Settings -/

/-- The settings of a sweep. -/
structure Settings where
  executable : Path
  extension : Text
  deriving DecidableEq

namespace Settings

/-- The name under which the executable is offered. -/
def executableName : Text := "test_executable"

/-- The name under which the extension is offered. -/
def extensionName : Text := "extension"

/-- Why an extension is refused of which nothing is left. -/
def blankReason : Text := "extension must not be empty"

/-- What is set when nothing is offered. -/
def default : Settings := ⟨.ofText "obj/clang/rel/test", ".chm"⟩

/-- The executable that an offer chooses. -/
def executableFrom : Option Value → Except SettingsError Path
  | none => .ok default.executable
  | some (.text t) => .ok (.ofText t)
  | some o => .error ⟨executableName, .notPath, o⟩

/-- The extension that an offer chooses. -/
def extensionFrom : Option Value → Except SettingsError Text
  | none => .ok default.extension
  | some (.text t) =>
    match t.extensionForm? with
    | some e => .ok e
    | none => .error ⟨extensionName, .blankExtension, .text t⟩
  | some o => .error ⟨extensionName, .notText, o⟩

/-- The objections to names that are no settings. -/
def unknownNames (offers : List (Text × Value)) : List SettingsError :=
  (offers.filter fun (name, _) => name ≠ executableName && name ≠ extensionName).map
    fun (name, o) => ⟨name, .unknownName, o⟩

/-- Makes settings from offered values. -/
def ofOffers (offers : List (Text × Value)) : Except (List SettingsError) Settings :=
  match executableFrom (offers.lookup executableName), extensionFrom (offers.lookup extensionName),
    unknownNames offers with
  | .ok executable, .ok extension, [] => .ok ⟨executable, extension⟩
  | executable, extension, unknown => .error (errorOf executable ++ errorOf extension ++ unknown)
where
  /-- The objection, as a list of at most one. -/
  errorOf {α : Type} : Except SettingsError α → List SettingsError
    | .ok _ => []
    | .error e => [e]

end Settings

end FileSweep
