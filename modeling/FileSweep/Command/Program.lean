import FileSweep.Command.Usage
import FileSweep.Sweep

/-!
# The command

The command reads its arguments, makes settings of them, and sweeps the directory.  Help
and usage errors are printed on the same stream as the report; a usage error ends with
status 1.

Up to the sweep the stream takes characters only.  A usage error that quotes an argument
with stray bytes as it is cannot be printed, which is a fault.  From then on strays are
written as the bytes they are.
-/

namespace FileSweep

/-! ## Printing characters only -/

/-- The stray bytes at the beginning of a text. -/
def Text.leadingStrays : Text → List (Fin 128)
  | .stray low :: t => low :: Text.leadingStrays t
  | _ => []

/-- The fault that a text gives where only characters can be printed: its first run of stray
bytes, of which the text stands `position` symbols behind the beginning. -/
def Text.printFault? : (position : Nat) → Text → Option Fault
  | _, [] => none
  | position, .stray low :: t => some (.unencodable position low (Text.leadingStrays t))
  | position, .char _ :: t => Text.printFault? (position + 1) t

/-! ## Running the command -/

/-- What a run of the command was. -/
structure Transcript where
  events : List Event
  ending : ProgramEnd
  /-- the least level of the notices that the log holds -/
  threshold : Level := .warning

namespace Transcript

/-- The bytes of the report. -/
def stdout (t : Transcript) : List UInt8 := Event.stdout t.events

/-- The notices that the log holds. -/
def log (t : Transcript) : List Notice :=
  (Event.notices t.events).filter fun n => t.threshold.rank ≤ n.level.rank

/-- A symbol as the log shows it: a stray byte by its escape. -/
def logSymbol : Symbol → Text
  | .char c => [.char c]
  | .stray low => Text.escapeCode (Symbol.stray low).code

/-- A log line in bytes. -/
def logBytes (line : Text) : List UInt8 := Text.toBytes (line.flatMap logSymbol) ++ [10]

/-- The bytes of the log, with `stamp` for the time of every line. -/
def stderr (t : Transcript) (stamp : Text) : List UInt8 :=
  t.log.flatMap fun n => logBytes (n.line stamp)

end Transcript

namespace Command

/-- Prints the help. -/
def help : Transcript := ⟨Usage.help.map .printed, .status 0, .warning⟩

/-- Prints a usage error. -/
def refuse (e : UsageError) : Transcript :=
  let usage : List Event := Usage.lines.map .printed
  match Text.printFault? 0 e.line with
  | some f => ⟨usage, .fault f, .warning⟩
  | none => ⟨usage ++ [.printed e.line], .status 1, .warning⟩

/-- Runs the command, within `budget` steps of the scan. -/
def run {σ α : Type} [FileSystem σ] (tester : Tester α) (budget : Nat) (argv : List Text)
    (fs : σ) (script : List (Attempt σ α)) : Transcript :=
  match Arguments.read argv with
  | .error .help => help
  | .error (.usage e) => refuse e
  | .ok a =>
    match Settings.ofOffers a.offers with
    | .error errors => refuse (.settings errors)
    | .ok settings =>
      let (events, ending) := Sweep.run tester settings a.directory budget fs script
      ⟨events, ending, if a.verbose then .debug else .warning⟩

end Command

end FileSweep
