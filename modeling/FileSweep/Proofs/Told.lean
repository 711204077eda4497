import FileSweep.Proofs.ScanCourse

/-!
# What is told of a scan

Of all that happens in a scan, the questions and the entries stay inside.  What can be noticed
from outside is told: the lines, the notices and the calls (`Event.told`).

If the tests change nothing, what is told follows from the entries of the walk, without any
file system.  `Scan.tell` goes through a list of entries and says what is told of them and how
it ends, and a scan tells just that of the walk that it would take alone (`Scan.told_run`).  So
scans of different file systems can be compared by their entries.
-/

namespace FileSweep

/-! ## Events that are told -/

namespace Event

/-- Whether an event can be noticed from outside. -/
def isTold : Event → Bool
  | asked _ | reached _ => false
  | printed _ | noted _ | called .. => true

/-- What can be noticed of events. -/
def told (es : List Event) : List Event := es.filter isTold

@[simp] theorem told_nil : told [] = [] := rfl

@[simp] theorem told_append (es fs : List Event) : told (es ++ fs) = told es ++ told fs :=
  List.filter_append ..

@[simp] theorem told_asked (qs : List Query) : told (qs.map .asked) = [] := by
  simp [told, isTold]

@[simp] theorem told_reached (e : Entry) (es : List Event) : told (.reached e :: es) = told es :=
  rfl

@[simp] theorem told_printed (line : Text) (es : List Event) :
    told (.printed line :: es) = .printed line :: told es := rfl

@[simp] theorem told_noted (n : Notice) (es : List Event) :
    told (.noted n :: es) = .noted n :: told es := rfl

@[simp] theorem told_called (executable path : Path) (es : List Event) :
    told (.called executable path :: es) = .called executable path :: told es := rfl

@[simp] theorem told_map_printed (ts : List Text) :
    told (ts.map .printed) = ts.map .printed := by
  induction ts with
  | nil => rfl
  | cons t ts ih => simp [ih]

@[simp] theorem told_map_noted (ns : List Notice) : told (ns.map .noted) = ns.map .noted := by
  induction ns with
  | nil => rfl
  | cons n ns ih => simp [ih]

/-- A view that shows nothing of the events that are left out sees the same in the others. -/
theorem filterMap_filter_of_hidden {β : Type} {view : Event → Option β} {keep : Event → Bool}
    (h : ∀ e, keep e = false → view e = none) (es : List Event) :
    (es.filter keep).filterMap view = es.filterMap view := by
  have hview : (fun e => if keep e then view e else none) = view := by
    funext e
    cases he : keep e with
    | true => rfl
    | false => exact (h e he).symm
  rw [List.filterMap_filter, hview]

@[simp] theorem lines_told (es : List Event) : lines (told es) = lines es := by
  refine filterMap_filter_of_hidden (fun e he => ?_) es
  cases e <;> first | rfl | cases he

@[simp] theorem notices_told (es : List Event) : notices (told es) = notices es := by
  refine filterMap_filter_of_hidden (fun e he => ?_) es
  cases e <;> first | rfl | cases he

@[simp] theorem calls_told (es : List Event) : calls (told es) = calls es := by
  refine filterMap_filter_of_hidden (fun e he => ?_) es
  cases e <;> first | rfl | cases he

@[simp] theorem stdout_told (es : List Event) : stdout (told es) = stdout es := by
  rw [stdout, stdout, lines_told]

/-! ## Events without some of the notices -/

/-- Whether an event is anything but a notice of a kind. -/
@[simp] def isNot (kind : Notice → Bool) : Event → Bool
  | noted n => !kind n
  | _ => true

/-- The events without the notices of a kind. -/
def without (kind : Notice → Bool) (es : List Event) : List Event := es.filter (isNot kind)

section Without

variable {kind : Notice → Bool}

@[simp] theorem without_nil : without kind [] = [] := rfl

@[simp] theorem without_append (es fs : List Event) :
    without kind (es ++ fs) = without kind es ++ without kind fs :=
  List.filter_append ..

@[simp] theorem without_cons (e : Event) (es : List Event) :
    without kind (e :: es) = if e.isNot kind then e :: without kind es else without kind es :=
  List.filter_cons ..

@[simp] theorem without_asked (qs : List Query) :
    without kind (qs.map .asked) = qs.map .asked :=
  List.filter_eq_self.mpr (by simp)

@[simp] theorem without_printed (ts : List Text) :
    without kind (ts.map .printed) = ts.map .printed :=
  List.filter_eq_self.mpr (by simp)

theorem without_noted {ns : List Notice} (h : ∀ n ∈ ns, kind n = true) :
    without kind (ns.map .noted) = [] :=
  List.filter_eq_nil_iff.mpr (by simpa using h)

/-- What the notices of the kind are hidden from sees the same without them. -/
theorem filterMap_without {β : Type} {view : Event → Option β}
    (hidden : ∀ n, kind n = true → view (.noted n) = none) (es : List Event) :
    (without kind es).filterMap view = es.filterMap view := by
  refine filterMap_filter_of_hidden (fun e he => ?_) es
  cases e with
  | noted n => exact hidden n (by simpa using he)
  | _ => cases he

@[simp] theorem queries_without (es : List Event) : queries (without kind es) = queries es :=
  filterMap_without (fun _ _ => rfl) es

@[simp] theorem entries_without (es : List Event) : entries (without kind es) = entries es :=
  filterMap_without (fun _ _ => rfl) es

@[simp] theorem lines_without (es : List Event) : lines (without kind es) = lines es :=
  filterMap_without (fun _ _ => rfl) es

@[simp] theorem calls_without (es : List Event) : calls (without kind es) = calls es :=
  filterMap_without (fun _ _ => rfl) es

@[simp] theorem stdout_without (es : List Event) : stdout (without kind es) = stdout es := by
  rw [stdout, stdout, lines_without]

/-- The notices to which the kind does not extend are all there. -/
theorem filter_notices_without {p : Notice → Bool} (h : ∀ n, kind n = true → p n = false)
    (es : List Event) : (notices (without kind es)).filter p = (notices es).filter p := by
  unfold notices
  rw [List.filter_filterMap, List.filter_filterMap]
  exact filterMap_without (fun n hn => by simp [h n hn]) es

end Without

end Event

namespace Scan

variable {σ α : Type}

@[simp] theorem told_remark (e : Entry) : Event.told (remark e) = remark e := by
  unfold remark
  split
  · rfl
  · split <;> rfl

@[simp] theorem told_testing (tester : Tester α) (executable : Path) (s : Scan σ α) (p : Path) :
    Event.told (testing tester executable s p) = testing tester executable s p := by
  simp [testing, Tester.perform]

/-! ## Telling entries -/

section Telling

variable (tester : Tester α) (settings : Settings) (root : Path)

/-- What is told of a test on `p`, which makes the first attempt of the script, up to its end. -/
def tellTest (script : List (Attempt σ α)) (p : Path) : List Event :=
  .printed p.text ::
    (tester.perform settings.executable p (attemptAt tester script 0).outcome).1

/-- What is told when the walk has come to rest, and how the scan ends by that. -/
def tellRest (tested : List Path) : Walk.Rest → List Event × ScanEnd
  | .finished => ([.noted (.walkFinished tested.length root)], .summary ⟨root, tested, none⟩)
  | .fault f => ([], .fault f)
  | .suspended => ([], .unfinished)

/-- What is told of the entries of a walk that comes to `rest`, and how the scan ends; `script`
holds the attempts to come, and `tested` the files tested before. -/
def tell (rest : Walk.Rest) : (script : List (Attempt σ α)) → (tested : List Path) →
    List Entry → List Event × ScanEnd
  | _, tested, [] => tellRest root tested rest
  | script, tested, e :: es =>
    if settings.chooses e then
      match verdictAt tester settings.executable script 0 e.path with
      | .error f => (tellTest tester settings script e.path, .fault f)
      | .ok result =>
        match result.failure with
        | some failure =>
          (tellTest tester settings script e.path ++
              (Report.failed e.path failure result).map .printed ++
                [.noted (.walkStopped (tested.length + 1) e.path)],
            .summary ⟨root, tested ++ [e.path], some e.path⟩)
        | none =>
          let later := tell rest script.tail (tested ++ [e.path]) es
          (tellTest tester settings script e.path ++
              (Report.passed result).map .printed ++ later.1,
            later.2)
    else
      let later := tell rest script tested es
      (remark e ++ later.1, later.2)

variable {tester settings root} {rest : Walk.Rest} {script : List (Attempt σ α)}
  {tested : List Path} {e : Entry} {es : List Entry}

theorem tell_passedOver (hc : settings.chooses e = false) :
    tell tester settings root rest script tested (e :: es) =
      (remark e ++ (tell tester settings root rest script tested es).1,
        (tell tester settings root rest script tested es).2) := by
  simp [tell, hc]

theorem tell_broken (hc : settings.chooses e = true) {f : Fault}
    (hv : verdictAt tester settings.executable script 0 e.path = .error f) :
    tell tester settings root rest script tested (e :: es) =
      (tellTest tester settings script e.path, .fault f) := by
  simp [tell, hc, hv]

theorem tell_failed (hc : settings.chooses e = true) {result : TestResult} {failure : Text}
    (hv : verdictAt tester settings.executable script 0 e.path = .ok result)
    (hf : result.failure = some failure) :
    tell tester settings root rest script tested (e :: es) =
      (tellTest tester settings script e.path ++
          (Report.failed e.path failure result).map .printed ++
            [.noted (.walkStopped (tested.length + 1) e.path)],
        .summary ⟨root, tested ++ [e.path], some e.path⟩) := by
  simp [tell, hc, hv, hf]

theorem tell_passed (hc : settings.chooses e = true) {result : TestResult}
    (hv : verdictAt tester settings.executable script 0 e.path = .ok result)
    (hf : result.failure = none) :
    tell tester settings root rest script tested (e :: es) =
      (tellTest tester settings script e.path ++ (Report.passed result).map .printed ++
          (tell tester settings root rest script.tail (tested ++ [e.path]) es).1,
        (tell tester settings root rest script.tail (tested ++ [e.path]) es).2) := by
  simp [tell, hc, hv, hf]

/-- A scan is finished when its walk is. -/
theorem tell_ne_unfinished (hrest : rest ≠ .suspended) :
    (tell tester settings root rest script tested es).2 ≠ .unfinished := by
  induction es generalizing script tested with
  | nil =>
    cases rest with
    | suspended => exact absurd rfl hrest
    | _ => simp [tell, tellRest]
  | cons e es ih =>
    cases hc : settings.chooses e with
    | false =>
      rw [tell_passedOver hc]
      exact ih
    | true =>
      cases hv : verdictAt tester settings.executable script 0 e.path with
      | error f => simp [tell_broken hc hv]
      | ok result =>
        cases hf : result.failure with
        | some failure => simp [tell_failed hc hv hf]
        | none =>
          rw [tell_passed hc hv hf]
          exact ih

end Telling

/-! ## Scans in which nothing changes -/

theorem attemptAt_change_of_still (tester : Tester α) {script : List (Attempt σ α)}
    (hstill : ∀ a ∈ script, a.change = id) : (attemptAt tester script 0).change = id := by
  cases script with
  | nil => rfl
  | cons a script => exact hstill a List.mem_cons_self

theorem told_testing_eq_tellTest (tester : Tester α) (settings : Settings) (s : Scan σ α)
    (p : Path) : Event.told (testing tester settings.executable s p) =
      tellTest tester settings s.script p :=
  told_testing ..

variable [FileSystem σ]

/-- From a state on, a scan without changes tells what the entries of the walk tell. -/
theorem told_course (tester : Tester α) (settings : Settings) (root : Path) (budget : Nat)
    (s : Scan σ α) (hstill : ∀ a ∈ s.script, a.change = id) :
    let r := course tester settings root budget s
    let t := Walk.along (List.replicate budget s.fs) s.walk
    (Event.told r.1, r.2) = tell tester settings root t.rest s.script s.tested t.entries := by
  induction budget, s using @course_induction σ α _ tester settings with
  | unfinished s => rfl
  | finished budget s qs h =>
    rw [course_ended (step_finished h)]
    simp [List.replicate_succ, Walk.along, h, tell, tellRest]
  | fault budget s qs f h =>
    rw [course_ended (step_fault h)]
    simp [List.replicate_succ, Walk.along, h, tell, tellRest]
  | passedOver budget s qs e w h hc ih =>
    have hlater := ih hstill
    rw [course_going (step_passedOver h hc)]
    simp only [List.replicate_succ, Walk.along, h]
    rw [tell_passedOver hc, ← hlater]
    simp
  | broken budget s qs e w f h hc hv =>
    rw [course_ended (step_broken h hc hv)]
    simp only [List.replicate_succ, Walk.along, h]
    rw [tell_broken hc hv]
    simp [← told_testing_eq_tellTest]
  | failed budget s qs e w result failure h hc hv hf =>
    rw [course_ended (step_failed h hc hv hf)]
    simp only [List.replicate_succ, Walk.along, h]
    rw [tell_failed hc hv hf]
    simp [← told_testing_eq_tellTest]
  | passed budget s qs e w result h hc hv hf ih =>
    have hfs : (s.afterTest tester w e.path).fs = s.fs :=
      congrFun (attemptAt_change_of_still tester hstill) s.fs
    have hlater := ih fun a ha => hstill a (List.mem_of_mem_tail ha)
    rw [hfs] at hlater
    rw [course_going (step_passed h hc hv hf)]
    simp only [List.replicate_succ, Walk.along, h]
    have htail : (s.afterTest tester w e.path).script = s.script.tail := rfl
    have htested : (s.afterTest tester w e.path).tested = s.tested ++ [e.path] := rfl
    have hwalk : (s.afterTest tester w e.path).walk = w := rfl
    rw [htail, htested, hwalk] at hlater
    rw [tell_passed hc hv hf, ← hlater]
    simp [← told_testing_eq_tellTest]

/-- **What a scan tells without changes is what the entries of its walk tell**, after the
heading. -/
theorem told_run (tester : Tester α) (settings : Settings) (root : Path) (budget : Nat)
    (fs : σ) {script : List (Attempt σ α)} (hstill : ∀ a ∈ script, a.change = id) :
    let r := run tester settings root budget fs script
    let t := Walk.along (List.replicate budget fs) (.start root)
    let told := tell tester settings root t.rest script [] t.entries
    Event.told r.1 = .printed (Report.heading root) :: told.1 ∧ r.2 = told.2 := by
  have h := told_course tester settings root budget (start fs root script) hstill
  have htold := congrArg Prod.fst h
  have hend := congrArg Prod.snd h
  rw [run_eq_course]
  refine ⟨?_, hend⟩
  rw [Event.told_printed]
  exact congrArg (List.cons (.printed (Report.heading root))) htold

end Scan

end FileSweep
