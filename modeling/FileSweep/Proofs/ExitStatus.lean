import Mathlib
import FileSweep.Command.Program
import FileSweep.Proofs.Account
import FileSweep.Proofs.Termination

/-!
# The exit status of the command

Three checks stand in front of a scan: the arguments have to be understood, the settings that
they offer have to be valid, and the executable has to be there.  Each of them can end the
command with status 1 (`Command.Cause`), and what is checked later has no part in that.  Nothing
has been asked or started by then.

Behind the checks the status is 0, whatever the tests and the tree are like: a scan in finite
file systems ends, and unless a fault leaves it, it ends with a summary.
-/

namespace FileSweep

namespace Command

variable {σ α : Type} [FileSystem σ] {tester : Tester α} {argv : List Text} {fs : σ}
  {script : List (Attempt σ α)} {budget : Nat}

/-! ## The checks -/

/-- The causes for which the command ends with status 1. -/
inductive Cause
  | arguments
  | settings
  | executable
  deriving DecidableEq

/-- Whether the checks come to a cause: those before it are passed, and its own is not. -/
def Cause.Holds (argv : List Text) (fs : σ) : Cause → Prop
  | .arguments => ∃ e, Arguments.read argv = .error (.usage e)
  | .settings => ∃ a errors, Arguments.read argv = .ok a ∧
      Settings.ofOffers a.offers = .error errors
  | .executable => ∃ a settings, Arguments.read argv = .ok a ∧
      Settings.ofOffers a.offers = .ok settings ∧
      FileSystem.hasFile fs settings.executable = false

/-- The cause that the checks come to, if any. -/
def cause? (argv : List Text) (fs : σ) : Option Cause :=
  match Arguments.read argv with
  | .error .help => none
  | .error (.usage _) => some .arguments
  | .ok a =>
    match Settings.ofOffers a.offers with
    | .error _ => some .settings
    | .ok settings => if FileSystem.hasFile fs settings.executable then none else some .executable

theorem Cause.holds_iff {c : Cause} : c.Holds argv fs ↔ cause? argv fs = some c := by
  unfold cause?
  cases hr : Arguments.read argv with
  | error stop =>
    cases stop with
    | help => cases c <;> simp [Holds, hr]
    | usage e => cases c <;> simp [Holds, hr]
  | ok a =>
    cases hs : Settings.ofOffers a.offers with
    | error errors => cases c <;> simp [Holds, hr, hs]
    | ok settings =>
      cases hx : FileSystem.hasFile fs settings.executable with
      | false => cases c <;> simp [Holds, hr, hs, hx]
      | true => cases c <;> simp [Holds, hr, hs, hx]

/-- The checks come to one cause at most. -/
theorem Cause.Holds.existsUnique {c : Cause} (h : c.Holds argv fs) :
    ∃! c : Cause, c.Holds argv fs := by
  refine ⟨c, h, fun c' h' => ?_⟩
  rw [Cause.holds_iff] at h h'
  exact Option.some.inj (h'.symm.trans h)

/-! ## What the command does after a check -/

theorem run_of_usage {e : UsageError} (h : Arguments.read argv = .error (.usage e)) :
    run tester budget argv fs script = refuse e := by
  simp [run, h]

theorem run_of_settings {a : Arguments} {errors : List SettingsError}
    (h : Arguments.read argv = .ok a) (hs : Settings.ofOffers a.offers = .error errors) :
    run tester budget argv fs script = refuse (.settings errors) := by
  simp [run, h, hs]

section Understood

variable (tester script budget) {a : Arguments} {settings : Settings}
  (h : Arguments.read argv = .ok a)
  (hs : Settings.ofOffers a.offers = .ok settings)
include h hs

theorem run_of_missing (hx : FileSystem.hasFile fs settings.executable = false) :
    (run tester budget argv fs script).events =
        [.printed (Sweep.missingExecutable settings.executable)] ∧
      (run tester budget argv fs script).ending = .status 1 := by
  simp [run, h, hs, Sweep.run, hx]

/-- Behind the checks the command ends as the scan does, and a summary gives status 0. -/
theorem ending_of_ready (hx : FileSystem.hasFile fs settings.executable = true) :
    let scanned := (Scan.run tester settings a.directory budget fs script).2
    let ending := (run tester budget argv fs script).ending
    (∃ s, scanned = .summary s ∧ ending = .status 0) ∨
      (∃ f, scanned = .fault f ∧ ending = .fault f) ∨
      scanned = .unfinished ∧ ending = .unfinished := by
  intro scanned ending
  have hending : ending = (Sweep.conclude scanned).2 := by
    simp [ending, scanned, run, h, hs, Sweep.run, hx]
  cases hscanned : scanned with
  | summary s => exact .inl ⟨s, rfl, by rw [hending, hscanned]; rfl⟩
  | fault f => exact .inr (.inl ⟨f, rfl, by rw [hending, hscanned]; rfl⟩)
  | unfinished => exact .inr (.inr ⟨rfl, by rw [hending, hscanned]; rfl⟩)

end Understood

/-- A refusal asks nothing and starts nothing; if it ends with a status, then with 1. -/
theorem status_of_refuse {e : UsageError} {code : Nat}
    (h : (refuse e).ending = .status code) :
    code = 1 ∧ Event.queries (refuse e).events = [] ∧ Event.calls (refuse e).events = [] := by
  unfold refuse at h ⊢
  cases hprint : Text.printFault? 0 e.line with
  | none =>
    simp only [hprint] at h
    cases h
    simp
  | some f =>
    simp only [hprint] at h
    cases h

/-- A status other than 0 is 1, and there is one cause for it. -/
theorem status_cases {code : Nat}
    (h : (run tester budget argv fs script).ending = .status code) :
    code = 0 ∨ code = 1 ∧ Event.queries (run tester budget argv fs script).events = [] ∧
      Event.calls (run tester budget argv fs script).events = [] ∧
      ∃! cause : Cause, cause.Holds argv fs := by
  cases hr : Arguments.read argv with
  | error stop =>
    cases stop with
    | help =>
      simp only [run, hr, help] at h
      cases h
      exact .inl rfl
    | usage e =>
      have hcause : Cause.arguments.Holds argv fs := ⟨e, hr⟩
      rw [run_of_usage hr] at h ⊢
      obtain ⟨hcode, hqueries, hcalls⟩ := status_of_refuse h
      exact .inr ⟨hcode, hqueries, hcalls, hcause.existsUnique⟩
  | ok a =>
    cases hs : Settings.ofOffers a.offers with
    | error errors =>
      have hcause : Cause.settings.Holds argv fs := ⟨a, errors, hr, hs⟩
      rw [run_of_settings hr hs] at h ⊢
      obtain ⟨hcode, hqueries, hcalls⟩ := status_of_refuse h
      exact .inr ⟨hcode, hqueries, hcalls, hcause.existsUnique⟩
    | ok settings =>
      cases hx : FileSystem.hasFile fs settings.executable with
      | false =>
        have hcause : Cause.executable.Holds argv fs := ⟨a, settings, hr, hs, hx⟩
        obtain ⟨hevents, hending⟩ := run_of_missing tester script budget hr hs hx
        rw [hending] at h
        cases h
        rw [hevents]
        exact .inr ⟨rfl, by simp, by simp, hcause.existsUnique⟩
      | true =>
        rcases ending_of_ready tester script budget hr hs hx with
          ⟨s, -, hend⟩ | ⟨f, -, hend⟩ | ⟨-, hend⟩
        · rw [hend] at h
          cases h
          exact .inl rfl
        · rw [hend] at h
          cases h
        · rw [hend] at h
          cases h

/-- **The exit status.**  A status is 0 or 1.  If it is 1, nothing has been asked or started, and
the checks have come to exactly one cause; if that is the executable, the report is one line that
says so.  A refused command line is refused whatever the settings and the file system are, and so
are refused settings, whatever the executable is.  If all checks are passed, then the status is
0, unless the scan breaks off with a fault; and the scan does come to its end, if all the file
systems that the tests lead to are finite. -/
theorem exit_status (tester : Tester α) (argv : List Text) (fs : σ)
    (script : List (Attempt σ α)) :
    (∀ budget code, (run tester budget argv fs script).ending = .status code →
      code = 0 ∨ code = 1 ∧ Event.queries (run tester budget argv fs script).events = [] ∧
        Event.calls (run tester budget argv fs script).events = [] ∧
        ∃! cause : Cause, cause.Holds argv fs) ∧
      (∀ e, Arguments.read argv = .error (.usage e) →
        ∀ budget, run tester budget argv fs script = refuse e) ∧
      ∀ a, Arguments.read argv = .ok a →
        (∀ errors, Settings.ofOffers a.offers = .error errors →
          ∀ budget, run tester budget argv fs script = refuse (.settings errors)) ∧
        ∀ settings, Settings.ofOffers a.offers = .ok settings →
          (FileSystem.hasFile fs settings.executable = false → ∀ budget,
            (run tester budget argv fs script).ending = .status 1 ∧
              (run tester budget argv fs script).stdout =
                Text.line ("'" ++ settings.executable.text ++ "' doesn't exist")) ∧
          (FileSystem.hasFile fs settings.executable = true →
            let scanned := fun budget =>
              (Scan.run tester settings a.directory budget fs script).2
            let ending := fun budget => (run tester budget argv fs script).ending
            (∀ budget, (∃ s, scanned budget = .summary s ∧ ending budget = .status 0) ∨
              (∃ f, scanned budget = .fault f ∧ ending budget = .fault f) ∨
              scanned budget = .unfinished ∧ ending budget = .unfinished) ∧
            ((∀ fs' ∈ Scan.stages fs script, FileSystem.Finite fs') →
              ∃ enough, ∀ budget ≥ enough, ending budget = .status 0 ∨
                ∃ f, scanned budget = .fault f ∧ ending budget = .fault f)) := by
  refine ⟨fun budget code h => status_cases h, fun e h budget => run_of_usage h, ?_⟩
  refine fun a h => ⟨fun errors hs budget => run_of_settings h hs, fun settings hs => ⟨?_, ?_⟩⟩
  · intro hx budget
    obtain ⟨hevents, hending⟩ := run_of_missing tester script budget h hs hx
    refine ⟨hending, ?_⟩
    rw [Transcript.stdout, hevents]
    simp [Event.stdout, Sweep.missingExecutable, Text.line]
  · intro hx scanned ending
    have hcases := fun budget => ending_of_ready tester script budget h hs hx
    refine ⟨hcases, fun hfinite => ?_⟩
    obtain ⟨enough, hends⟩ := Scan.exists_budget tester settings a.directory fs script hfinite
    refine ⟨enough, fun budget hle => ?_⟩
    rcases hcases budget with ⟨s, -, hzero⟩ | hfault | ⟨hun, -⟩
    · exact .inl hzero
    · exact .inr hfault
    · exact absurd hun (hends budget hle)

/-- A process that fails on the first file. -/
def failsAtOnce : List (Attempt Disk Launch) := [⟨id, .exited [] [33] (some 3)⟩]

theorem hasFile_sample : FileSystem.hasFile Disk.sample (.ofText "r/b.chm") = true := by
  cbv

theorem not_hasFile_sample :
    FileSystem.hasFile Disk.sample Settings.default.executable = false := by
  cbv

/-- On the small disk, with one of its files for the executable, the status is 0 although the
first test fails; with the usual executable, which is not there, the report says so. -/
theorem sample_exit_status :
    let ending := fun budget =>
      (run .process budget ["r", "--test-exe", "r/b.chm"] Disk.sample failsAtOnce).ending
    (∃ enough, ∀ budget ≥ enough, ending budget = .status 0 ∨ ∃ f, ending budget = .fault f) ∧
      ∀ budget, (run .process budget ["r"] Disk.sample failsAtOnce).stdout =
        Text.line ("'" ++ Settings.default.executable.text ++ "' doesn't exist") := by
  intro ending
  have hwell : ∀ d ∈ Scan.stages Disk.sample failsAtOnce, d.Holds Node.WellNamed :=
    Scan.forall_stages Disk.wellNamed_sample (by simp [failsAtOnce])
  have hfinite : ∀ d ∈ Scan.stages Disk.sample failsAtOnce, FileSystem.Finite d :=
    fun d hd => Disk.finite (fun node hnode => hnode.1.1) (hwell d hd)
  have hread : Arguments.read ["r", "--test-exe", "r/b.chm"] =
      .ok ⟨.ofText "r", some (.text "r/b.chm"), none, false⟩ := rfl
  have hreadUsual : Arguments.read ["r"] = .ok ⟨.ofText "r", none, none, false⟩ := rfl
  obtain ⟨-, -, hready⟩ := exit_status .process ["r", "--test-exe", "r/b.chm"] Disk.sample
    failsAtOnce
  obtain ⟨-, -, husual⟩ := exit_status .process ["r"] Disk.sample failsAtOnce
  obtain ⟨-, hready⟩ := hready _ hread
  obtain ⟨-, hends⟩ := (hready ⟨.ofText "r/b.chm", ".chm"⟩ rfl).2 hasFile_sample
  obtain ⟨-, husual⟩ := husual _ hreadUsual
  obtain ⟨hmissing, -⟩ := husual Settings.default rfl
  obtain ⟨enough, hends⟩ := hends hfinite
  refine ⟨⟨enough, fun budget hle => ?_⟩, fun budget => (hmissing not_hasFile_sample budget).2⟩
  exact (hends budget hle).imp id fun ⟨f, _, hf⟩ => ⟨f, hf⟩

end Command

end FileSweep
