import FileSweep.Event
import FileSweep.Settings

/-!
# Scanning a tree

A scan walks a tree and tests every file with the chosen extension, up to the first test
that fails.  What it meets on the way is reported: the files tested with the output of
their tests, and the paths that could not be looked at.  Only a denied permission is
passed over with no more than a notice.

A scan is a machine.  Its state (`Scan`) is the file system as it is now, the walk, the
outcomes that lie ready for the tests to come, and the files tested so far; `Scan.step`
goes on to the next entry of the walk and deals with it.  A test may change the file
system (`Attempt.change`), and the walk goes on in the changed one.  `Scan.run` repeats
the step within a given number of steps; it needs one for every entry and one for the
end.
-/

namespace FileSweep

/-! ## What comes of a scan -/

/-- The outcome of a scan. -/
structure Summary where
  root : Path
  /-- the files tested, in order -/
  tested : List Path
  /-- the file whose test failed, if one did -/
  failed : Option Path
  deriving DecidableEq

/-- Whether the scan ended early, on a failed test. -/
def Summary.halted (s : Summary) : Bool := s.failed.isSome

/-- How a scan ended. -/
inductive ScanEnd
  | summary (s : Summary)
  | fault (f : Fault)
  /-- the steps allowed were not enough -/
  | unfinished
  deriving DecidableEq

/-! ## The report -/

/-- Captured output as it is shown. -/
def shownOutput (bytes : List UInt8) : Text := .ofChars (Utf8.lossy bytes)

/-- Captured output under a title, or nothing if there is none. -/
def titledOutput (title : String) (bytes : List UInt8) : List Text :=
  if bytes = [] then [] else [title ++ ":\n'" ++ shownOutput bytes ++ "'"]

namespace Report

/-- The first line of a report. -/
def heading (root : Path) : Text := "starting in '" ++ root.text ++ "'"

/-- The line for a path that could not be looked at. -/
def trouble (p : Path) (e : OsError) : Text :=
  "error on path: '" ++ p.text ++ "', error: '" ++ e.message ++ "'"

/-- What follows the path of a file that passed. -/
def passed (r : TestResult) : List Text :=
  (if r.stdout = [] then [] else [shownOutput r.stdout]) ++ titledOutput "stderr" r.stderr

/-- What follows the path of a file that failed. -/
def failed (p : Path) (failure : Text) (r : TestResult) : List Text :=
  ("failed with '" ++ failure ++ "' on '" ++ p.text ++ "'") ::
    (titledOutput "stdout" r.stdout ++ titledOutput "stderr" r.stderr)

end Report

/-! ## The machine -/

/-- What one test will do: to the file system, and for an outcome. -/
structure Attempt (σ α : Type) where
  change : σ → σ
  outcome : α

/-- The state of a scan. -/
structure Scan (σ α : Type) where
  fs : σ
  walk : Walk
  script : List (Attempt σ α)
  tested : List Path

namespace Scan

variable {σ α : Type}

/-- What a step leads to. -/
inductive Next (σ α : Type)
  | going (s : Scan σ α)
  | ended (e : ScanEnd)

/-- The attempt that is next, and the ones after it; once none lies ready, the usual outcome
without a change. -/
def nextAttempt (tester : Tester α) : List (Attempt σ α) → Attempt σ α × List (Attempt σ α)
  | [] => (⟨id, tester.usual⟩, [])
  | a :: more => (a, more)

/-- The scan of a tree before its first step. -/
def start (fs : σ) (root : Path) (script : List (Attempt σ α)) : Scan σ α :=
  ⟨fs, .start root, script, []⟩

/-- Tests a file and reports on it. -/
def test (tester : Tester α) (executable root : Path) (s : Scan σ α) (p : Path) :
    List Event × Next σ α :=
  let (attempt, script) := nextAttempt tester s.script
  let (performed, verdict) := tester.perform executable p attempt.outcome
  let tested := s.tested ++ [p]
  let events := .printed p.text :: performed
  match verdict with
  | .error f => (events, .ended (.fault f))
  | .ok result =>
    match result.failure with
    | none =>
      (events ++ (Report.passed result).map .printed,
        .going ⟨attempt.change s.fs, s.walk, script, tested⟩)
    | some failure =>
      (events ++ (Report.failed p failure result).map .printed ++
          [.noted (.walkStopped tested.length p)],
        .ended (.summary ⟨root, tested, some p⟩))

/-- Deals with an entry of the walk. -/
def handle (tester : Tester α) (settings : Settings) (root : Path) (s : Scan σ α) (e : Entry) :
    List Event × Next σ α :=
  match e.error? with
  | some error =>
    ([if error.isDenied then .noted (.skipped e.path error)
      else .printed (Report.trouble e.path error)],
      .going s)
  | none =>
    if e.path.hasExtension e.isRegular settings.extension then
      s.test tester settings.executable root e.path
    else ([], .going s)

/-- Goes on to the next entry and deals with it. -/
def step [FileSystem σ] (tester : Tester α) (settings : Settings) (root : Path) (s : Scan σ α) :
    List Event × Next σ α :=
  let (queries, walked) := s.walk.resume s.fs
  let asked : List Event := queries.map .asked
  match walked with
  | .finished =>
    (asked ++ [.noted (.walkFinished s.tested.length root)],
      .ended (.summary ⟨root, s.tested, none⟩))
  | .fault f => (asked, .ended (.fault f))
  | .entry e walk =>
    let (events, next) := handle tester settings root { s with walk } e
    (asked ++ .reached e :: events, next)

/-- Takes up to `budget` steps; `before` holds the events so far, the latest first. -/
def runFrom [FileSystem σ] (tester : Tester α) (settings : Settings) (root : Path) :
    (budget : Nat) → (before : List Event) → Scan σ α → List Event × ScanEnd
  | 0, before, _ => (before.reverse, .unfinished)
  | budget + 1, before, s =>
    let (events, next) := s.step tester settings root
    let before := events.reverse ++ before
    match next with
    | .ended e => (before.reverse, e)
    | .going s => runFrom tester settings root budget before s

/-- Scans the tree below `root`, within `budget` steps. -/
def run [FileSystem σ] (tester : Tester α) (settings : Settings) (root : Path) (budget : Nat)
    (fs : σ) (script : List (Attempt σ α)) : List Event × ScanEnd :=
  runFrom tester settings root budget [.printed (Report.heading root)] (start fs root script)

/-! ## Earlier events and further steps -/

variable [FileSystem σ] (tester : Tester α) (settings : Settings) (root : Path)

/-- A run goes on in the same way whatever happened before it. -/
theorem runFrom_before (budget : Nat) (before : List Event) (s : Scan σ α) :
    runFrom tester settings root budget before s =
      (before.reverse ++ (runFrom tester settings root budget [] s).1,
        (runFrom tester settings root budget [] s).2) := by
  induction budget generalizing before s with
  | zero => simp [runFrom]
  | succ budget ih =>
    unfold runFrom
    obtain ⟨events, next⟩ := s.step tester settings root
    cases next with
    | ended e => simp
    | going s' =>
      dsimp only
      rw [ih (events.reverse ++ before), ih (events.reverse ++ [])]
      simp

/-- A run that has come to its end is not changed by allowing further steps. -/
theorem runFrom_of_le {budget budget' : Nat} (h : budget ≤ budget') (before : List Event)
    (s : Scan σ α) (hs : (runFrom tester settings root budget before s).2 ≠ .unfinished) :
    runFrom tester settings root budget' before s =
      runFrom tester settings root budget before s := by
  induction budget generalizing budget' before s with
  | zero => exact absurd rfl hs
  | succ budget ih =>
    cases budget' with
    | zero => omega
    | succ budget' =>
      unfold runFrom at hs ⊢
      cases hstep : s.step tester settings root with
      | mk events next =>
        rw [hstep] at hs
        cases next with
        | ended e => rfl
        | going s' => exact ih (Nat.le_of_succ_le_succ h) _ _ hs

end Scan

end FileSweep
