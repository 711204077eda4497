import FileSweep.Proofs.FailureTexts
import FileSweep.Proofs.ScanCourse

/-!
# What becomes of a launch

A launch of a process ends in one of three ways.  The process ran: then the outputs are kept as
they were captured, and the return code decides whether the test has passed.  The system refused
to start it: then the test has failed with no output, whatever the refusal is about and however
little it says.  Or something else went wrong, which ends the sweep.

So passing is one thing only, the return code 0 of a process that ran.  That a test has failed is
never told by what its failure text says, which may be empty, but by there being one.
-/

namespace FileSweep

namespace Launch

variable {executable : Path} {launch : Launch}

end Launch

end FileSweep
