import FileSweep.Proofs.Account
import FileSweep.Proofs.Told

/-!
# Processes and their doubles

A sweep that starts processes is understood by one that does not.  Every launch has a double,
a result or a fault that lies ready: an exited process stands for its outputs and what its return
code says, a refusal of the system for a failed test with no output, and everything else for the
fault that it ends with (`Launch.double`).

A sweep of launches is the sweep of their doubles, event by event, but for what the running of
single tests notes about itself (`Sweep.run_double`).
-/

namespace FileSweep

/-! ## Doubles -/

/-- What a launch of the executable stands for. -/
def Launch.double (executable : Path) : Launch → Except Fault TestResult
  | .exited stdout stderr code =>
    (ReturnCode.failure? code).map fun failure => ⟨stdout, stderr, failure⟩
  | .refused reason named =>
    let e := reason.error (if named then some (.executable executable) else none)
    .ok ⟨[], [], some e.message⟩
  | .broken (.os e) => .ok ⟨[], [], some e.message⟩
  | .broken f => .error f

/-- The attempt that makes the same changes, with the double of the launch. -/
def Attempt.double {σ : Type} (executable : Path) (a : Attempt σ Launch) :
    Attempt σ (Except Fault TestResult) :=
  ⟨a.change, a.outcome.double executable⟩

/-- A launch amounts to what its double is. -/
theorem Launch.verdict_reply (executable : Path) (l : Launch) :
    (l.reply executable).verdict = l.double executable := by
  cases l with
  | exited stdout stderr code => rfl
  | refused reason named => rfl
  | broken f => cases f <;> rfl

/-- All that is noted of a launch comes from the running of the test. -/
theorem Launch.channel_reply (executable : Path) (l : Launch) :
    ∀ n ∈ (l.reply executable).notices, n.channel = .test := by
  cases l with
  | exited stdout stderr code => simp [reply, Notice.channel]
  | refused reason named => simp [reply, Reply.notStarted, Notice.channel]
  | broken f => cases f <;> simp [reply, Reply.notStarted, Notice.channel]

/-! ## Events outside of single tests -/

/-- Whether a notice comes from the running of a single test. -/
def Notice.inTest (n : Notice) : Bool := n.channel = .test

/-- The records on other channels are the same without them. -/
theorem Event.filter_records_without (es : List Event) :
    (records (without Notice.inTest es)).filter (·.1 ≠ .test) =
      (records es).filter (·.1 ≠ .test) := by
  unfold records
  rw [List.filter_map, List.filter_map]
  refine congrArg _ (filter_notices_without (fun n hn => ?_) es)
  have hchannel : n.channel = .test := of_decide_eq_true hn
  simp [Notice.record, hchannel]

namespace Scan

variable {σ : Type}

@[simp] theorem without_remark (e : Entry) : Event.without Notice.inTest (remark e) = remark e := by
  unfold remark
  split
  · rfl
  · split <;> rfl

/-! ## A scan and its double -/

/-- The scan with doubles for the launches to come. -/
def double (executable : Path) (s : Scan σ Launch) : Scan σ (Except Fault TestResult) :=
  ⟨s.fs, s.walk, s.script.map (Attempt.double executable), s.tested⟩

theorem attemptAt_double (executable : Path) (script : List (Attempt σ Launch)) (i : Nat) :
    attemptAt .prepared (script.map (Attempt.double executable)) i =
      (attemptAt .process script i).double executable := by
  unfold attemptAt
  rw [List.getD_eq_getElem?_getD, List.getD_eq_getElem?_getD, List.getElem?_map]
  cases script[i]? <;> rfl

theorem verdictAt_double (executable : Path) (s : Scan σ Launch) (p : Path) :
    verdictAt .prepared executable (s.double executable).script 0 p =
      verdictAt .process executable s.script 0 p := by
  unfold verdictAt double
  rw [attemptAt_double]
  exact (Launch.verdict_reply executable _).symm

theorem testing_double (executable : Path) (s : Scan σ Launch) (p : Path) :
    testing .prepared executable (s.double executable) p =
      Event.without Notice.inTest (testing .process executable s p) := by
  unfold testing Tester.perform
  generalize (attemptAt .process s.script 0).outcome = launch
  have hnotices :
      Event.without Notice.inTest ((launch.reply executable).notices.map .noted) = [] :=
    Event.without_noted fun n hn => decide_eq_true (launch.channel_reply executable n hn)
  simp [Tester.process, Tester.prepared, Notice.inTest, Notice.channel, hnotices]

theorem afterTest_double (executable : Path) (s : Scan σ Launch) (w : Walk) (p : Path) :
    (s.double executable).afterTest .prepared w p =
      (s.afterTest .process w p).double executable := by
  simp [afterTest, double, attemptAt_double, Attempt.double]

variable [FileSystem σ]

theorem resume_double (executable : Path) (s : Scan σ Launch) :
    (s.double executable).walk.resume (s.double executable).fs = s.walk.resume s.fs := rfl

/-- **A scan of launches is the scan of their doubles**, but for the notices of single tests. -/
theorem course_double (settings : Settings) (root : Path) (budget : Nat) (s : Scan σ Launch) :
    let r := course .process settings root budget s
    course .prepared settings root budget (s.double settings.executable) =
      (Event.without Notice.inTest r.1, r.2) := by
  -- the walks are the same, and so are the verdicts: both scans go the same way at each step
  induction budget, s using @course_induction σ Launch _ .process settings with
  | unfinished s => rfl
  | finished budget s qs h =>
    have h' := (resume_double settings.executable s).trans h
    rw [course_ended (step_finished h), course_ended (step_finished h')]
    simp [Notice.inTest, Notice.channel, double]
  | fault budget s qs f h =>
    have h' := (resume_double settings.executable s).trans h
    rw [course_ended (step_fault h), course_ended (step_fault h')]
    simp
  | passedOver budget s qs e w h hc ih =>
    have h' := (resume_double settings.executable s).trans h
    have hnext : course .prepared settings root budget
        { s.double settings.executable with walk := w } = _ := ih
    rw [course_going (step_passedOver h hc), course_going (step_passedOver h' hc), hnext]
    simp
  | broken budget s qs e w f h hc hv =>
    have h' := (resume_double settings.executable s).trans h
    have hv' := (verdictAt_double settings.executable s e.path).trans hv
    rw [course_ended (step_broken h hc hv), course_ended (step_broken h' hc hv'), testing_double]
    simp
  | failed budget s qs e w result failure h hc hv hf =>
    have h' := (resume_double settings.executable s).trans h
    have hv' := (verdictAt_double settings.executable s e.path).trans hv
    rw [course_ended (step_failed h hc hv hf), course_ended (step_failed h' hc hv' hf),
      testing_double]
    simp [Notice.inTest, Notice.channel, double]
  | passed budget s qs e w result h hc hv hf ih =>
    have h' := (resume_double settings.executable s).trans h
    have hv' := (verdictAt_double settings.executable s e.path).trans hv
    rw [course_going (step_passed h hc hv hf), course_going (step_passed h' hc hv' hf),
      testing_double, afterTest_double, ih]
    simp

end Scan

/-! ## Sweeps -/

namespace Sweep

variable {σ : Type} [FileSystem σ]

/-- A sweep of launches is the sweep of their doubles, but for the notices of single tests. -/
theorem run_double (settings : Settings) (root : Path) (budget : Nat) (fs : σ)
    (script : List (Attempt σ Launch)) :
    let r := run .process settings root budget fs script
    run .prepared settings root budget fs (script.map (Attempt.double settings.executable)) =
      (Event.without Notice.inTest r.1, r.2) := by
  have h := Scan.course_double settings root budget (Scan.start fs root script)
  unfold run
  split
  · rw [Scan.run_eq_course, Scan.run_eq_course]
    have hstart : Scan.start fs root (script.map (Attempt.double settings.executable)) =
        (Scan.start fs root script).double settings.executable := rfl
    rw [hstart, h]
    have hconclude : ∀ e, Event.without Notice.inTest (conclude e).1 = (conclude e).1 := by
      intro e
      cases e with
      | summary s => cases hs : s.failed <;> simp [conclude, hs, Notice.inTest, Notice.channel]
      | fault f => rfl
      | unfinished => rfl
    simp [Notice.inTest, Notice.channel, hconclude]
  · rfl

/-- **Sweeps that start processes refine sweeps of test doubles.**  If each launch is replaced by
its double, which makes the same changes, then the sweep ends in the same way, with the same
questions, entries, lines and calls, and with the same records on all channels but that of single
tests.  And a double is what the launch amounts to as a test: its result, or the fault that it
breaks off with. -/
theorem processes_refine_doubles (settings : Settings) (root : Path) (budget : Nat) (fs : σ)
    (script : List (Attempt σ Launch)) :
    let r := run .process settings root budget fs script
    let r' :=
      run .prepared settings root budget fs (script.map (Attempt.double settings.executable))
    r.2 = r'.2 ∧ Event.stdout r.1 = Event.stdout r'.1 ∧ Event.calls r.1 = Event.calls r'.1 ∧
      Event.queries r.1 = Event.queries r'.1 ∧ Event.entries r.1 = Event.entries r'.1 ∧
      (Event.records r.1).filter (·.1 ≠ .test) = (Event.records r'.1).filter (·.1 ≠ .test) ∧
      ∀ (p : Path) (launch : Launch),
        (Tester.process.perform settings.executable p launch).2 =
          launch.double settings.executable := by
  intro r r'
  have h : r' = (Event.without Notice.inTest r.1, r.2) :=
    run_double settings root budget fs script
  rw [h]
  refine ⟨rfl, ?_, ?_, ?_, ?_, ?_, fun p launch => launch.verdict_reply _⟩
  · exact (Event.stdout_without r.1).symm
  · exact (Event.calls_without r.1).symm
  · exact (Event.queries_without r.1).symm
  · exact (Event.entries_without r.1).symm
  · exact (Event.filter_records_without r.1).symm

end Sweep

end FileSweep
