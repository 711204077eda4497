import FileSweep.Fault

/-!
# Notices

What a sweep says about itself to whoever watches its log.  Every notice has a level, and
belongs to one of three channels: the sweep as a whole, the walk, and the running of a
single test.
-/

namespace FileSweep

/-- How much a notice matters, the least first. -/
inductive Level
  | debug
  | info
  | warning
  deriving DecidableEq

/-- The place of a level among the levels. -/
def Level.rank : Level → Nat
  | .debug => 0
  | .info => 1
  | .warning => 2

/-- The name of a level. -/
def Level.name : Level → Text
  | .debug => "DEBUG"
  | .info => "INFO"
  | .warning => "WARNING"

/-- Where a notice comes from. -/
inductive Channel
  | sweep
  | walk
  | test
  deriving DecidableEq

/-- The name of a channel. -/
def Channel.name : Channel → Text
  | .sweep => "tree_test_runner"
  | .walk => "tree_test_runner.walker"
  | .test => "tree_test_runner.runner"

/-- The things that are noted. -/
inductive Notice
  /-- a sweep begins -/
  | sweeping (extension : Text) (root executable : Path)
  /-- a sweep has ended early -/
  | sweepStopped (failed : Path)
  /-- a path was passed over, since permission was denied -/
  | skipped (path : Path) (error : OsError)
  /-- a walk has come to its end -/
  | walkFinished (count : Nat) (root : Path)
  /-- a walk was stopped by a failed test -/
  | walkStopped (count : Nat) (failed : Path)
  /-- a test is about to start -/
  | starting (executable path : Path)
  /-- a test could not be started -/
  | notStarted (executable : Path) (error : OsError)
  /-- a test has ended -/
  | ended (executable : Path) (code : Option Int)
  deriving DecidableEq

namespace Notice

/-- The channel of a notice. -/
def channel : Notice → Channel
  | sweeping .. | sweepStopped .. => .sweep
  | skipped .. | walkFinished .. | walkStopped .. => .walk
  | starting .. | notStarted .. | ended .. => .test

/-- The level of a notice. -/
def level : Notice → Level
  | sweeping .. | sweepStopped .. | walkFinished .. | walkStopped .. => .info
  | skipped .. | starting .. | notStarted .. | ended .. => .debug

/-- The notice in words. -/
def message : Notice → Text
  | sweeping extension root executable =>
    "Testing " ++ extension ++ " files under " ++ root.text ++ " with " ++ executable.text
  | sweepStopped failed => "Scan stopped at " ++ failed.text ++ ", rerun to continue"
  | skipped path error => "Skipping " ++ path.text ++ ": " ++ error.message
  | walkFinished count root =>
    "Tested " ++ Text.ofNat count ++ " file(s) under " ++ root.text
  | walkStopped count failed =>
    "Stopped after " ++ Text.ofNat count ++ " file(s): " ++ failed.text ++ " failed"
  | starting executable path => "Running " ++ executable.text ++ " " ++ path.text
  | notStarted executable error =>
    "Failed to start " ++ executable.text ++ ": " ++ error.message
  | ended executable code =>
    executable.text ++ " exited with " ++
      (match code with
        | none => "None"
        | some n => Text.ofInt n)

/-- The line that a log holds for a notice made at the time `stamp`. -/
def line (stamp : Text) (n : Notice) : Text :=
  stamp ++ " - " ++ n.channel.name ++ " - " ++ n.level.name ++ " - " ++ n.message

end Notice

end FileSweep
