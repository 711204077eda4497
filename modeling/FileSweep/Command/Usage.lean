import FileSweep.Command.Arguments
import FileSweep.Settings.Wording

/-!
# Usage

What the command prints about its own use: the usage lines, the help, and the message for
every way in which a command line can be refused.
-/

namespace FileSweep

namespace Usage

/-- The name of the command. -/
def program : String := "tree-test-runner"

/-- The usage lines. -/
def lines : List Text :=
  ["usage: tree-test-runner [-h] [--test-exe TEST_EXE] [--extension EXTENSION]",
    "                        [--verbose]",
    "                        dir"]

/-- What the help says below the usage lines. -/
def details : List Text :=
  ["",
    "Run a test executable on every matching file in a directory",
    "",
    "positional arguments:",
    "  dir                   Directory to scan",
    "",
    "options:",
    "  -h, --help            show this help message and exit",
    "  --test-exe TEST_EXE   Test executable to run on each file (default:",
    "                        obj/clang/rel/test)",
    "  --extension EXTENSION",
    "                        Extension of the files to test (default: .chm)",
    "  --verbose             Log diagnostics to stderr"]

/-- The help. -/
def help : List Text := lines ++ details

/-- The switch as a message names it. -/
def switchName : Switch → Text
  | .help => "-h/--help"
  | s => s.long

end Usage

/-- A usage error in words. -/
def UsageError.message : UsageError → Text
  | .ambiguous argument choices =>
    "ambiguous option: " ++ argument ++ " could match " ++
      Text.join ", " (choices.map Switch.long)
  | .valueMissing s => "argument " ++ Usage.switchName s ++ ": expected one argument"
  | .valueUnwanted s value =>
    "argument " ++ Usage.switchName s ++ ": ignored explicit argument " ++ value.quoted
  | .directoryMissing => "the following arguments are required: dir"
  | .unrecognized arguments => "unrecognized arguments: " ++ Text.join " " arguments
  | .settings errors => SettingsError.summary errors

/-- The line in which a usage error is printed. -/
def UsageError.line (e : UsageError) : Text := Usage.program ++ ": error: " ++ e.message

end FileSweep
