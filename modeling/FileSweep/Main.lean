import FileSweep.Command.Program
import FileSweep.Disk

/-!
# The command as a program

Reads the arguments, runs the command, writes the report and the log, and ends with the
exit status.  The program has a disk of its own, which is empty; sweeping another file
system is up to whoever calls `FileSweep.Command.run` with it.
-/

namespace FileSweep

/-- The steps that a sweep of the empty disk may take: one for the root and one for the end. -/
def stepsOnEmptyDisk : Nat := 2

/-- Writes bytes to a stream. -/
def writeBytes (stream : IO.FS.Stream) (bytes : List UInt8) : IO Unit := do
  stream.write ⟨bytes.toArray⟩
  stream.flush

/-- Runs the command on the empty disk, and gives the exit status. -/
def commandLine (args : List String) : IO UInt32 := do
  let transcript :=
    Command.run Tester.process stepsOnEmptyDisk (args.map Text.ofString) Disk.empty []
  writeBytes (← IO.getStdout) transcript.stdout
  writeBytes (← IO.getStderr) (transcript.stderr "-")
  match transcript.ending with
  | .status code => return code.toUInt32
  | .fault f =>
    writeBytes (← IO.getStderr) (Transcript.logBytes f.message)
    return 1
  | .unfinished => return 1

end FileSweep

def main (args : List String) : IO UInt32 := FileSweep.commandLine args
