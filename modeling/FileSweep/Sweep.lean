import FileSweep.Scan

/-!
# Sweeping a tree

A sweep is a scan with a check in front: the executable has to be there.  Its exit status
is 1 if it is not, and 0 in every other case, also when a failed test stopped the scan.
-/

namespace FileSweep

/-- How a program ended. -/
inductive ProgramEnd
  | status (code : Nat)
  | fault (f : Fault)
  /-- the steps allowed were not enough -/
  | unfinished
  deriving DecidableEq

namespace Sweep

variable {σ α : Type}

/-- The line for an executable that is not there. -/
def missingExecutable (executable : Path) : Text := "'" ++ executable.text ++ "' doesn't exist"

/-- What follows a scan: a notice if it was stopped, and the exit status. -/
def conclude : ScanEnd → List Event × ProgramEnd
  | .summary s => (s.failed.toList.map fun p => .noted (.sweepStopped p), .status 0)
  | .fault f => ([], .fault f)
  | .unfinished => ([], .unfinished)

/-- Sweeps the tree below `root`, within `budget` steps of the scan. -/
def run [FileSystem σ] (tester : Tester α) (settings : Settings) (root : Path) (budget : Nat)
    (fs : σ) (script : List (Attempt σ α)) : List Event × ProgramEnd :=
  if FileSystem.hasFile fs settings.executable then
    let (events, scanned) := Scan.run tester settings root budget fs script
    let (more, ending) := conclude scanned
    (.noted (.sweeping settings.extension root settings.executable) :: events ++ more, ending)
  else ([.printed (missingExecutable settings.executable)], .status 1)

end Sweep

end FileSweep
