import FileSweep.Notice
import FileSweep.Signal

/-!
# Running one test

A test is one run of the executable on one file.  What becomes of it is a `TestResult`:
the two captured outputs, and what was wrong, if anything was.

A `Tester` turns outcomes that lie ready into such results.  There are two:

* `Tester.prepared`, for which an outcome is already a result, or a fault;
* `Tester.process`, for which an outcome is how **starting a process** went.  A refusal of
  the operating system is a failed test here; only other faults end the sweep.
-/

namespace FileSweep

/-! ## Results -/

/-- What came of a test. -/
structure TestResult where
  stdout : List UInt8 := []
  stderr : List UInt8 := []
  /-- what was wrong; a test without it has passed -/
  failure : Option Text := none
  deriving DecidableEq

/-- Whether the test has passed. -/
def TestResult.passed (r : TestResult) : Bool := r.failure.isNone

/-! ## Testers -/

/-- A tester's answer to an outcome: what it notes after the call, and the verdict. -/
structure Reply where
  notices : List Notice
  verdict : Except Fault TestResult

/-- A way to run tests on outcomes of the type `α`. -/
structure Tester (α : Type) where
  /-- the outcome when none lies ready -/
  usual : α
  /-- what is noted before the call -/
  announce : (executable path : Path) → List Notice
  /-- what an outcome of the call amounts to -/
  reply : (executable path : Path) → α → Reply

/-- Takes outcomes for results. -/
def Tester.prepared : Tester (Except Fault TestResult) where
  usual := .ok {}
  announce _ _ := []
  reply _ _ outcome := ⟨[], outcome⟩

/-! ## Processes -/

/-- How starting a process went. -/
inductive Launch
  /-- it ran, with the outputs captured to their ends -/
  | exited (stdout stderr : List UInt8) (code : Option Int)
  /-- the system refused, and said of which executable if `named` -/
  | refused (reason : Refusal) (named : Bool)
  /-- something else happened -/
  | broken (f : Fault)
  deriving DecidableEq

/-- The result of a test that could not be started, with the notice of it. -/
def Reply.notStarted (executable : Path) (e : OsError) : Reply :=
  ⟨[.notStarted executable e], .ok ⟨[], [], some e.message⟩⟩

/-- What a launch amounts to. -/
def Launch.reply (executable : Path) : Launch → Reply
  | .exited stdout stderr code =>
    ⟨[.ended executable code], (ReturnCode.failure? code).map (⟨stdout, stderr, ·⟩)⟩
  | .refused reason named =>
    .notStarted executable (reason.error (if named then some (.executable executable) else none))
  | .broken (.os e) => .notStarted executable e
  | .broken f => ⟨[], .error f⟩

/-- Takes outcomes for launches of a process. -/
def Tester.process : Tester Launch where
  usual := .exited [] [] (some 0)
  announce executable path := [.starting executable path]
  reply executable _ outcome := outcome.reply executable

end FileSweep
