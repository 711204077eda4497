import FileSweep.Settings.Reserved

/-!
# Settings as a record

Settings are handed out as a record: named values that can be read, and that somebody may try to
write to.  The record is **frozen**: a value for a name is refused, whether the name is a setting
or not.  Only reserved names can be written to, by rules of their own
(`FileSweep.Settings.Reserved`).
-/

namespace FileSweep

namespace Record

/-- The record of settings. -/
def ofSettings (s : Settings) : Record where
  values := [(Settings.executableName, .text s.executable.text),
    (Settings.extensionName, .text s.extension)]
  spare := .null
  hidden := .null

/-- Writes to a name. -/
def assign (r : Record) (name : Text) (value : Value) : Except RecordError Record :=
  match r.hindrance? name with
  | some m => .error (.misuse m)
  | none =>
    if isReserved name then r.assignReserved name value
    else .error (.frozen ⟨name, .unchangeable, value⟩)

/-- Writes to what is to be a name. -/
def assignTo (r : Record) (name value : Value) : Except RecordError Record :=
  match name with
  | .text t => r.assign t value
  | v => .error (.notName v.sort)

/-- Writes to names one after the other, going on after a refusal: what was refused, for each
of them, and the record in the end. -/
def assignAll (r : Record) : List (Value × Value) → List (Option RecordError) × Record
  | [] => ([], r)
  | (name, value) :: more =>
    match r.assignTo name value with
    | .ok r' => let (refused, last) := assignAll r' more; (none :: refused, last)
    | .error e => let (refused, last) := assignAll r more; (some e :: refused, last)

/-- The value of a name. -/
def read (r : Record) (name : Text) : Except RecordError Value :=
  match r.values.lookup name with
  | some value => .ok value
  | none =>
    match r.elsewhere? name with
    | .error m => .error (.misuse m)
    | .ok none => .error (.absent name)
    | .ok (some value) => .ok value

/-- The settings as they stand in the record: executable and extension. -/
def settings (r : Record) : Except RecordError (Value × Value) := do
  let executable ← r.read Settings.executableName
  let extension ← r.read Settings.extensionName
  return (executable, extension)

end Record

end FileSweep
