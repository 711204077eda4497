import FileSweep.Settings
import FileSweep.Text.Digit

/-!
# Tokens of a command line

Before any argument is used, each one is classified by itself (`Token.classify`): as a
switch, with a value if one is attached to it, or as a plain text.  A long switch may be
cut short as long as only one switch begins that way.  An argument that begins with a
dash is still plain if it is a single dash, a negative number, or holds a space and is no
switch.

The first `--` ends the switches: what follows it is plain whatever it looks like
(`Token.classifyAll`).
-/

namespace FileSweep

/-! ## Switches -/

/-- The switches of the command. -/
inductive Switch
  | help
  | executable
  | extension
  | verbose
  deriving DecidableEq

namespace Switch

/-- All switches, in the order in which messages list them. -/
def all : List Switch := [.help, .executable, .extension, .verbose]

/-- The long spelling of a switch. -/
def long : Switch → Text
  | .help => "--help"
  | .executable => "--test-exe"
  | .extension => "--extension"
  | .verbose => "--verbose"

/-- The one-letter spelling of `help`, the only switch that has one. -/
def shortHelp : Text := "-h"

/-- The switch of which the text is a full long spelling. -/
def ofLong? (t : Text) : Option Switch := all.find? (·.long = t)

/-- The switches whose long spelling begins with the text. -/
def beginning (t : Text) : List Switch := all.filter fun s => t.isPrefixOf s.long

end Switch

/-! ## What is wrong with a command line -/

/-- Ways in which a command line can be refused. -/
inductive UsageError
  /-- an argument that several switches begin with -/
  | ambiguous (argument : Text) (choices : List Switch)
  /-- a switch without the value it needs -/
  | valueMissing (s : Switch)
  /-- a switch with a value it does not take -/
  | valueUnwanted (s : Switch) (value : Text)
  /-- no directory is named -/
  | directoryMissing
  /-- arguments that nothing is made of -/
  | unrecognized (arguments : List Text)
  /-- settings that are refused -/
  | settings (errors : List SettingsError)

/-! ## Classification -/

/-- An argument by what it is. -/
inductive Token
  | plain (t : Text)
  /-- a switch, and the value attached to it by `=` -/
  | switch (s : Switch) (value : Option Text)
  /-- the short help switch and what is attached to it -/
  | shortHelp (attached : Text)
  /-- looks like a switch and is none -/
  | unknown (t : Text)
  deriving DecidableEq

namespace Token

/-- The argument that ends the switches. -/
def mark : Text := "--"

/-- Digits, at least one, and then the end or a line break and the end. -/
def isDigits (t : Text) : Bool :=
  let rest := t.dropWhile Symbol.isDigit
  rest.length < t.length && (rest = [] || rest = [.char '\n'])

/-- Whether the text is a negative number: a dash and digits, or a dash, digits or none, a
point and digits. -/
def isNegativeNumber : Text → Bool
  | .char '-' :: t =>
    isDigits t ||
      match t.dropWhile Symbol.isDigit with
      | .char '.' :: fraction => isDigits fraction
      | _ => false
  | _ => false

/-- A text that begins with a dash and is no switch. -/
def leftover (t : Text) : Token :=
  if isNegativeNumber t || t.has ' ' then .plain t else .unknown t

/-- A text that begins with two dashes and is no full spelling of a switch. -/
def abbreviation (t : Text) : Except UsageError Token :=
  let (stem, value) := match t.cutAt '=' with
    | some (stem, value) => (stem, some value)
    | none => (t, none)
  match Switch.beginning stem with
  | [] => .ok (leftover t)
  | [s] => .ok (.switch s value)
  | choices => .error (.ambiguous t choices)

/-- A text that begins with a dash and is no full spelling of a switch, by the part before
an attached value or else as a whole. -/
def dashed (t : Text) : Except UsageError Token :=
  match (t.cutAt '=').bind fun (stem, value) =>
      if stem = Switch.shortHelp then some (Token.shortHelp value)
      else (Switch.ofLong? stem).map (.switch · (some value)) with
  | some token => .ok token
  | none =>
    if mark.isPrefixOf t then abbreviation t
    else if Switch.shortHelp.isPrefixOf t then .ok (.shortHelp (t.drop 2))
    else .ok (leftover t)

/-- Classifies one argument. -/
def classify (t : Text) : Except UsageError Token :=
  if t.head? ≠ some (.char '-') ∨ t = [.char '-'] then .ok (.plain t)
  else if t = Switch.shortHelp then .ok (.switch .help none)
  else match Switch.ofLong? t with
    | some s => .ok (.switch s none)
    | none => dashed t

/-- Classifies the arguments up to the first mark, and gives those after it as they are. -/
def classifyAll : List Text → Except UsageError (List Token × Option (List Text))
  | [] => .ok ([], none)
  | t :: more =>
    if t = mark then .ok ([], some more)
    else do
      let token ← classify t
      let (tokens, rest) ← classifyAll more
      return (token :: tokens, rest)

end Token

end FileSweep
