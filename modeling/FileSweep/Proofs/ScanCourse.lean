import FileSweep.Proofs.Course
import FileSweep.Scan

/-!
# The course of a scan

A scan is a consumer of a walk: it takes entry after entry, and changes the file system by
the tests that it runs in between.  `Scan.walked` is the walk inside a scan, with the file
systems that it meets; a scan reports exactly its questions and its entries
(`queries_course`, `entries_course`), and calls the executable on exactly those of its
entries that the settings choose (`calls_course`).

What a step of a scan can do is said once, by one equation for each way in which a scan goes
on from an entry or ends there; `Scan.course_induction` is the induction over whole scans.
The file systems that a scan meets are among those that its tests leave (`Scan.stages`).
-/

namespace FileSweep

/-- Whether an entry is a file to be tested. -/
def Settings.chooses (settings : Settings) (e : Entry) : Bool :=
  e.error?.isNone && e.path.hasExtension e.isRegular settings.extension

/-- Only regular files are tested. -/
theorem Settings.isRegular_of_chooses {settings : Settings} {e : Entry}
    (h : settings.chooses e = true) : e.isRegular = true := by
  simp only [chooses, Path.hasExtension, Bool.and_eq_true] at h
  exact h.2.1

/-! ## Views of events, one by one -/

namespace Event

/-- The question that an event is. -/
@[simp] def query? : Event → Option Query
  | asked q => some q
  | _ => none

/-- The entry that an event comes to. -/
@[simp] def entry? : Event → Option Entry
  | reached e => some e
  | _ => none

/-- The call that an event is. -/
@[simp] def call? : Event → Option (Path × Path)
  | called executable path => some (executable, path)
  | _ => none

@[simp] theorem queries_nil : queries [] = [] := rfl

@[simp] theorem entries_nil : entries [] = [] := rfl

@[simp] theorem calls_nil : calls [] = [] := rfl

@[simp] theorem queries_cons (e : Event) (es : List Event) :
    queries (e :: es) = e.query?.toList ++ queries es := by
  cases e <;> rfl

@[simp] theorem entries_cons (e : Event) (es : List Event) :
    entries (e :: es) = e.entry?.toList ++ entries es := by
  cases e <;> rfl

@[simp] theorem calls_cons (e : Event) (es : List Event) :
    calls (e :: es) = e.call?.toList ++ calls es := by
  cases e <;> rfl

@[simp] theorem queries_asked (qs : List Query) : queries (qs.map .asked) = qs := by
  induction qs with
  | nil => rfl
  | cons q qs ih => simp [ih]

@[simp] theorem entries_asked (qs : List Query) : entries (qs.map .asked) = [] := by
  simp [entries]

@[simp] theorem calls_asked (qs : List Query) : calls (qs.map .asked) = [] := by
  simp [calls]

@[simp] theorem queries_printed (ts : List Text) : queries (ts.map .printed) = [] := by
  simp [queries]

@[simp] theorem entries_printed (ts : List Text) : entries (ts.map .printed) = [] := by
  simp [entries]

@[simp] theorem calls_printed (ts : List Text) : calls (ts.map .printed) = [] := by
  simp [calls]

@[simp] theorem queries_noted (ns : List Notice) : queries (ns.map .noted) = [] := by
  simp [queries]

@[simp] theorem entries_noted (ns : List Notice) : entries (ns.map .noted) = [] := by
  simp [entries]

@[simp] theorem calls_noted (ns : List Notice) : calls (ns.map .noted) = [] := by
  simp [calls]

end Event

namespace Scan

variable {σ α : Type}

/-! ## Attempts -/

/-- The attempt for the `i`-th test, counted from 0; once none lies ready, the usual outcome
without a change. -/
def attemptAt (tester : Tester α) (script : List (Attempt σ α)) (i : Nat) : Attempt σ α :=
  script.getD i ⟨id, tester.usual⟩

theorem nextAttempt_eq (tester : Tester α) (script : List (Attempt σ α)) :
    nextAttempt tester script = (attemptAt tester script 0, script.tail) := by
  cases script <;> rfl

@[simp] theorem attemptAt_tail (tester : Tester α) (script : List (Attempt σ α)) (i : Nat) :
    attemptAt tester script.tail i = attemptAt tester script (i + 1) := by
  cases script <;> rfl

/-- What the `i`-th test amounts to if it is run on the file `p`. -/
def verdictAt (tester : Tester α) (executable : Path) (script : List (Attempt σ α)) (i : Nat)
    (p : Path) : Except Fault TestResult :=
  (tester.reply executable p (attemptAt tester script i).outcome).verdict

/-- The scan after a test on `p` that has passed. -/
def afterTest (tester : Tester α) (s : Scan σ α) (w : Walk) (p : Path) : Scan σ α :=
  ⟨(attemptAt tester s.script 0).change s.fs, w, s.script.tail, s.tested ++ [p]⟩

/-! ## Steps -/

/-- What is reported of an entry that is not tested. -/
def remark (e : Entry) : List Event :=
  match e.error? with
  | none => []
  | some error =>
    [if error.isDenied then .noted (.skipped e.path error)
      else .printed (Report.trouble e.path error)]

@[simp] theorem queries_remark (e : Entry) : Event.queries (remark e) = [] := by
  unfold remark
  split
  · rfl
  · split <;> rfl

@[simp] theorem entries_remark (e : Entry) : Event.entries (remark e) = [] := by
  unfold remark
  split
  · rfl
  · split <;> rfl

@[simp] theorem calls_remark (e : Entry) : Event.calls (remark e) = [] := by
  unfold remark
  split
  · rfl
  · split <;> rfl

/-- What happens up to the end of a test: the path is printed, and the test is run. -/
def testing (tester : Tester α) (executable : Path) (s : Scan σ α) (p : Path) : List Event :=
  .printed p.text :: (tester.perform executable p (attemptAt tester s.script 0).outcome).1

@[simp] theorem queries_testing (tester : Tester α) (executable : Path) (s : Scan σ α)
    (p : Path) :
    Event.queries (testing tester executable s p) = [] := by
  simp [testing, Tester.perform]

@[simp] theorem entries_testing (tester : Tester α) (executable : Path) (s : Scan σ α)
    (p : Path) :
    Event.entries (testing tester executable s p) = [] := by
  simp [testing, Tester.perform]

@[simp] theorem calls_testing (tester : Tester α) (executable : Path) (s : Scan σ α)
    (p : Path) :
    Event.calls (testing tester executable s p) = [(executable, p)] := by
  simp [testing, Tester.perform]

variable [FileSystem σ] {tester : Tester α} {settings : Settings} {root : Path}
  {s : Scan σ α} {qs : List Query} {e : Entry} {w : Walk}

theorem step_finished (h : s.walk.resume s.fs = (qs, .finished)) :
    s.step tester settings root =
      (qs.map .asked ++ [.noted (.walkFinished s.tested.length root)],
        .ended (.summary ⟨root, s.tested, none⟩)) := by
  simp [step, h]

theorem step_fault {f : Fault} (h : s.walk.resume s.fs = (qs, .fault f)) :
    s.step tester settings root = (qs.map .asked, .ended (.fault f)) := by
  simp [step, h]

theorem step_passedOver (h : s.walk.resume s.fs = (qs, .entry e w))
    (hc : settings.chooses e = false) :
    s.step tester settings root =
      (qs.map .asked ++ .reached e :: remark e, .going { s with walk := w }) := by
  cases he : e.error? with
  | some error => simp [step, handle, remark, h, he]
  | none =>
    simp only [Settings.chooses, he, Option.isNone_none, Bool.true_and] at hc
    simp [step, handle, remark, h, he, hc]

section Chosen

variable (h : s.walk.resume s.fs = (qs, .entry e w)) (hc : settings.chooses e = true)
include h hc

theorem step_broken {f : Fault}
    (hv : verdictAt tester settings.executable s.script 0 e.path = .error f) :
    s.step tester settings root =
      (qs.map .asked ++ .reached e :: testing tester settings.executable s e.path,
        .ended (.fault f)) := by
  simp only [Settings.chooses, Bool.and_eq_true, Option.isNone_iff_eq_none] at hc
  unfold verdictAt at hv
  simp [step, handle, test, h, hc.1, hc.2, nextAttempt_eq, testing, Tester.perform, hv]

theorem step_failed {result : TestResult} {failure : Text}
    (hv : verdictAt tester settings.executable s.script 0 e.path = .ok result)
    (hf : result.failure = some failure) :
    s.step tester settings root =
      (qs.map .asked ++ .reached e :: (testing tester settings.executable s e.path ++
          (Report.failed e.path failure result).map .printed ++
            [.noted (.walkStopped (s.tested.length + 1) e.path)]),
        .ended (.summary ⟨root, s.tested ++ [e.path], some e.path⟩)) := by
  simp only [Settings.chooses, Bool.and_eq_true, Option.isNone_iff_eq_none] at hc
  unfold verdictAt at hv
  simp [step, handle, test, h, hc.1, hc.2, nextAttempt_eq, testing, Tester.perform, hv, hf]

theorem step_passed {result : TestResult}
    (hv : verdictAt tester settings.executable s.script 0 e.path = .ok result)
    (hf : result.failure = none) :
    s.step tester settings root =
      (qs.map .asked ++ .reached e :: (testing tester settings.executable s e.path ++
          (Report.passed result).map .printed),
        .going (s.afterTest tester w e.path)) := by
  simp only [Settings.chooses, Bool.and_eq_true, Option.isNone_iff_eq_none] at hc
  unfold verdictAt at hv
  simp [step, handle, test, h, hc.1, hc.2, nextAttempt_eq, testing, Tester.perform, afterTest, hv,
    hf]

end Chosen

/-! ## Whole scans -/

variable (tester settings root)

/-- The events of a scan from a state on, within `budget` steps, and its end. -/
def course (budget : Nat) (s : Scan σ α) : List Event × ScanEnd :=
  runFrom tester settings root budget [] s

/-- The file systems that a scan meets, one in every step. -/
def met : (budget : Nat) → Scan σ α → List σ
  | 0, _ => []
  | budget + 1, s =>
    s.fs :: match (s.step tester settings root).2 with
      | .ended _ => []
      | .going s' => met budget s'

/-- **The walk inside a scan.** -/
def walked (budget : Nat) (s : Scan σ α) : Walk.Trace σ :=
  Walk.along (met tester settings root budget s) s.walk

theorem run_eq_course (budget : Nat) (fs : σ) (script : List (Attempt σ α)) :
    run tester settings root budget fs script =
      let r := course tester settings root budget (start fs root script)
      (.printed (Report.heading root) :: r.1, r.2) := by
  unfold run
  rw [runFrom_before]
  rfl

variable {tester settings root} {budget : Nat}

theorem course_ended {es : List Event} {r : ScanEnd}
    (h : s.step tester settings root = (es, .ended r)) :
    course tester settings root (budget + 1) s = (es, r) := by
  simp [course, runFrom, h]

theorem course_going {es : List Event} {s' : Scan σ α}
    (h : s.step tester settings root = (es, .going s')) :
    course tester settings root (budget + 1) s =
      (es ++ (course tester settings root budget s').1,
        (course tester settings root budget s').2) := by
  simp only [course, runFrom, h]
  rw [runFrom_before]
  simp

theorem calls_of_passedOver (h : s.walk.resume s.fs = (qs, .entry e w))
    (hc : settings.chooses e = false) :
    Event.calls (course tester settings root (budget + 1) s).1 =
      Event.calls (course tester settings root budget { s with walk := w }).1 := by
  rw [course_going (step_passedOver h hc)]
  simp

/-- A test that passes is the first call, and all others follow after it. -/
theorem calls_of_passed (h : s.walk.resume s.fs = (qs, .entry e w))
    (hc : settings.chooses e = true) {result : TestResult}
    (hv : verdictAt tester settings.executable s.script 0 e.path = .ok result)
    (hf : result.failure = none) :
    Event.calls (course tester settings root (budget + 1) s).1 =
      (settings.executable, e.path) ::
        Event.calls (course tester settings root budget (s.afterTest tester w e.path)).1 := by
  rw [course_going (step_passed h hc hv hf)]
  simp

theorem walked_ended {r : ScanEnd} {es : List Event}
    (hs : s.step tester settings root = (es, .ended r)) :
    walked tester settings root (budget + 1) s = Walk.along [s.fs] s.walk := by
  simp [walked, met, hs]

theorem walked_going {s' : Scan σ α} {es : List Event}
    (h : s.walk.resume s.fs = (qs, .entry e s'.walk))
    (hs : s.step tester settings root = (es, .going s')) :
    walked tester settings root (budget + 1) s =
      let t := walked tester settings root budget s'
      ⟨qs.map (s.fs, ·) ++ t.asked, e :: t.entries, t.rest⟩ := by
  simp [walked, met, hs, Walk.along, h]

/-- **Induction along a scan**: by the ways in which it goes on or ends. -/
theorem course_induction (tester : Tester α) (settings : Settings)
    {motive : Nat → Scan σ α → Prop}
    (unfinished : ∀ s, motive 0 s)
    (finished : ∀ budget s qs, s.walk.resume s.fs = (qs, .finished) → motive (budget + 1) s)
    (fault : ∀ budget s qs f, s.walk.resume s.fs = (qs, .fault f) → motive (budget + 1) s)
    (passedOver : ∀ budget s qs e w, s.walk.resume s.fs = (qs, .entry e w) →
      settings.chooses e = false → motive budget { s with walk := w } → motive (budget + 1) s)
    (broken : ∀ budget s qs e w f, s.walk.resume s.fs = (qs, .entry e w) →
      settings.chooses e = true →
      verdictAt tester settings.executable s.script 0 e.path = .error f → motive (budget + 1) s)
    (failed : ∀ budget s qs e w result failure, s.walk.resume s.fs = (qs, .entry e w) →
      settings.chooses e = true →
      verdictAt tester settings.executable s.script 0 e.path = .ok result →
      result.failure = some failure → motive (budget + 1) s)
    (passed : ∀ budget s qs e w result, s.walk.resume s.fs = (qs, .entry e w) →
      settings.chooses e = true →
      verdictAt tester settings.executable s.script 0 e.path = .ok result →
      result.failure = none → motive budget (s.afterTest tester w e.path) →
      motive (budget + 1) s)
    (budget : Nat) (s : Scan σ α) : motive budget s := by
  induction budget generalizing s with
  | zero => exact unfinished s
  | succ budget ih =>
    cases h : s.walk.resume s.fs with
    | mk qs step =>
      cases step with
      | finished => exact finished budget s qs h
      | fault f => exact fault budget s qs f h
      | entry e w =>
        cases hc : settings.chooses e with
        | false => exact passedOver budget s qs e w h hc (ih _)
        | true =>
          cases hv : verdictAt tester settings.executable s.script 0 e.path with
          | error f => exact broken budget s qs e w f h hc hv
          | ok result =>
            cases hf : result.failure with
            | none => exact passed budget s qs e w result h hc hv hf (ih _)
            | some failure => exact failed budget s qs e w result failure h hc hv hf

/-! ## What a scan asks, meets and calls -/

variable (tester settings root budget s)

/-- **A scan reports the walk inside it**: it asks the same questions, comes to the same
entries, and calls the executable on those that the settings choose. -/
theorem course_views :
    let r := course tester settings root budget s
    let t := walked tester settings root budget s
    Event.queries r.1 = t.asked.map (·.2) ∧ Event.entries r.1 = t.entries ∧
      Event.calls r.1 =
        (t.entries.filter settings.chooses).map fun e => (settings.executable, e.path) := by
  induction budget, s using @course_induction σ α _ tester settings with
  | unfinished s => exact ⟨rfl, rfl, rfl⟩
  | finished budget s qs h =>
    rw [course_ended (step_finished h), walked_ended (step_finished h)]
    simp [Walk.along, h, Function.comp_def]
  | fault budget s qs f h =>
    rw [course_ended (step_fault h), walked_ended (step_fault h)]
    simp [Walk.along, h, Function.comp_def]
  | passedOver budget s qs e w h hc ih =>
    rw [course_going (step_passedOver h hc), walked_going h (step_passedOver h hc)]
    simp [ih, hc, Function.comp_def]
  | broken budget s qs e w f h hc hv =>
    rw [course_ended (step_broken h hc hv), walked_ended (step_broken h hc hv)]
    simp [Walk.along, h, hc, Function.comp_def]
  | failed budget s qs e w result failure h hc hv hf =>
    rw [course_ended (step_failed h hc hv hf), walked_ended (step_failed h hc hv hf)]
    simp [Walk.along, h, hc, Function.comp_def]
  | passed budget s qs e w result h hc hv hf ih =>
    rw [course_going (step_passed h hc hv hf), walked_going h (step_passed h hc hv hf)]
    simp [ih, hc, Function.comp_def]

theorem queries_course :
    Event.queries (course tester settings root budget s).1 =
      (walked tester settings root budget s).asked.map (·.2) :=
  (course_views tester settings root s budget).1

theorem entries_course :
    Event.entries (course tester settings root budget s).1 =
      (walked tester settings root budget s).entries :=
  (course_views tester settings root s budget).2.1

theorem calls_course :
    Event.calls (course tester settings root budget s).1 =
      ((walked tester settings root budget s).entries.filter settings.chooses).map fun e =>
        (settings.executable, e.path) :=
  (course_views tester settings root s budget).2.2

/-! ## The file systems that a script leaves -/

variable {tester settings root budget s}

/-- The file systems that the tests of a script leave, one after the other, the present one
first. -/
def stages : σ → List (Attempt σ α) → List σ
  | fs, [] => [fs]
  | fs, a :: script => fs :: stages (a.change fs) script

omit [FileSystem σ] in
theorem mem_stages_self (fs : σ) (script : List (Attempt σ α)) : fs ∈ stages fs script := by
  cases script <;> exact List.mem_cons_self

omit [FileSystem σ] in
theorem mem_stages_of_tail {fs fs' : σ} {script : List (Attempt σ α)}
    (h : fs' ∈ stages ((attemptAt tester script 0).change fs) script.tail) :
    fs' ∈ stages fs script := by
  cases script with
  | nil => exact h
  | cons a script => exact List.mem_cons_of_mem fs h

theorem met_subset_stages (tester : Tester α) (settings : Settings) (root : Path) (budget : Nat)
    (s : Scan σ α) : ∀ fs ∈ met tester settings root budget s, fs ∈ stages s.fs s.script := by
  have here := mem_stages_self s.fs s.script
  induction budget, s using @course_induction σ α _ tester settings with
  | unfinished s => simp [met]
  | finished budget s qs h => simpa [met, step_finished h] using here
  | fault budget s qs f h => simpa [met, step_fault h] using here
  | passedOver budget s qs e w h hc ih =>
    simpa [met, step_passedOver h hc] using ⟨here, ih here⟩
  | broken budget s qs e w f h hc hv => simpa [met, step_broken h hc hv] using here
  | failed budget s qs e w result failure h hc hv hf =>
    simpa [met, step_failed h hc hv hf] using here
  | passed budget s qs e w result h hc hv hf ih =>
    have hlater := ih (mem_stages_self _ _)
    simp only [met, step_passed h hc hv hf, List.mem_cons, forall_eq_or_imp]
    exact ⟨here, fun fs hfs => mem_stages_of_tail (hlater fs hfs)⟩

omit [FileSystem σ] in
/-- What the tests keep holds at every stage. -/
theorem forall_stages {P : σ → Prop} {fs : σ} {script : List (Attempt σ α)} (hfs : P fs)
    (hkeep : ∀ a ∈ script, ∀ fs, P fs → P (a.change fs)) : ∀ fs' ∈ stages fs script, P fs' := by
  induction script generalizing fs with
  | nil =>
    intro fs' h
    exact List.mem_singleton.mp h ▸ hfs
  | cons a script ih =>
    refine List.forall_mem_cons.mpr ⟨hfs, ih (hkeep a List.mem_cons_self fs hfs) ?_⟩
    exact fun b hb => hkeep b (List.mem_cons_of_mem a hb)

/-- The walk in a scan whose tests change nothing is one of an unchanging file system. -/
theorem walked_eq_of_still (tester : Tester α) (settings : Settings) (root : Path)
    (budget : Nat) {fs : σ} {script : List (Attempt σ α)} (h : ∀ a ∈ script, a.change = id) :
    ∃ n, walked tester settings root budget (start fs root script) =
      Walk.along (List.replicate n fs) (.start root) := by
  have hmet := met_subset_stages tester settings root budget (start fs root script)
  have hstages : ∀ fs' ∈ stages fs script, fs' = fs :=
    forall_stages rfl fun a ha fs' hfs' => by rw [h a ha, id, hfs']
  have hreplicate := List.eq_replicate_of_mem fun fs' hfs' => hstages fs' (hmet fs' hfs')
  exact ⟨_, congrArg (Walk.along · (.start root)) hreplicate⟩

end Scan

end FileSweep
