import FileSweep.Proofs.ScanCourse

/-!
# How a scan ends

A scan comes to its end in one of a few ways, and each says what it has tested by then
(`Scan.Ending`): the steps allowed were not enough, the walk ended or was stopped by a fault,
or a test broke off or failed.  All tests but the last one have passed in any case.

A scan that ends on a failed test does nothing after the call for it but report it
(`Scan.EndsWithCall`).
-/

namespace FileSweep

/-! ## Verdicts -/

namespace Verdict

/-- Whether a verdict is a result, of a test that has passed. -/
def passed : Except Fault TestResult → Bool
  | .ok r => r.passed
  | .error _ => false

theorem passed_of_ok {verdict : Except Fault TestResult} {r : TestResult} (h : verdict = .ok r)
    (hr : r.failure = none) : passed verdict = true := by
  simp [h, passed, TestResult.passed, hr]

end Verdict

namespace Scan

variable {σ α : Type}

/-! ## How a scan can end -/

section Endings

variable (tester : Tester α) (settings : Settings) (root : Path)
  (script : List (Attempt σ α)) (tested : List Path) (rest : Walk.Rest)

/-- Whether the tests on the given files pass, one after the other from the first of the
script on. -/
def AllPass (ps : List Path) : Prop :=
  ∀ i p, ps[i]? = some p →
    Verdict.passed (verdictAt tester settings.executable script i p) = true

/-- The ways in which a scan can end, each with the files that it tests: `tested` are those
tested before, `script` holds the attempts to come, and `rest` is how its walk came to rest. -/
inductive Ending : List Path → ScanEnd → Prop
  | unfinished {ps : List Path} (h : AllPass tester settings script ps) : Ending ps .unfinished
  | stuck {ps : List Path} {f : Fault} (h : AllPass tester settings script ps)
      (hrest : rest = .fault f) : Ending ps (.fault f)
  | broken {ps : List Path} {p : Path} {f : Fault} (h : AllPass tester settings script ps)
      (hv : verdictAt tester settings.executable script ps.length p = .error f) :
      Ending (ps ++ [p]) (.fault f)
  | failed {ps : List Path} {p : Path} {r : TestResult} (h : AllPass tester settings script ps)
      (hv : verdictAt tester settings.executable script ps.length p = .ok r)
      (hr : r.passed = false) :
      Ending (ps ++ [p]) (.summary ⟨root, tested ++ (ps ++ [p]), some p⟩)
  | finished {ps : List Path} (h : AllPass tester settings script ps)
      (hrest : rest = .finished) : Ending ps (.summary ⟨root, tested ++ ps, none⟩)

end Endings

section Tests

variable {tester : Tester α} {settings : Settings} {root : Path} {script : List (Attempt σ α)}
  {tested ps : List Path} {rest : Walk.Rest} {p : Path} {e : ScanEnd}

theorem AllPass.nil : AllPass tester settings script [] := by
  simp [AllPass]

theorem AllPass.cons (hp : Verdict.passed (verdictAt tester settings.executable script 0 p) = true)
    (h : AllPass tester settings script.tail ps) : AllPass tester settings script (p :: ps) := by
  intro i q hq
  cases i with
  | zero => exact (Option.some.inj hq) ▸ hp
  | succ i => simpa [verdictAt] using h i q hq

/-- A test that passes is one more in front of all that follow. -/
theorem Ending.after_pass
    (hp : Verdict.passed (verdictAt tester settings.executable script 0 p) = true)
    (h : Ending tester settings root script.tail (tested ++ [p]) rest ps e) :
    Ending tester settings root script tested rest (p :: ps) e := by
  cases h with
  | unfinished h => exact .unfinished (h.cons hp)
  | stuck h hrest => exact .stuck (h.cons hp) hrest
  | broken h hv => exact .broken (h.cons hp) (by simpa [verdictAt] using hv)
  | failed h hv hr =>
    rw [List.append_assoc]
    exact .failed (h.cons hp) (by simpa [verdictAt] using hv) hr
  | finished h hrest =>
    rw [List.append_assoc]
    exact .finished (h.cons hp) hrest

end Tests

variable [FileSystem σ] (tester : Tester α) (settings : Settings) (root : Path)

/-- **Every scan ends in one of the ways**, with the files that it calls the executable on. -/
theorem course_ending (budget : Nat) (s : Scan σ α) :
    let r := course tester settings root budget s
    Ending tester settings root s.script s.tested (walked tester settings root budget s).rest
      ((Event.calls r.1).map (·.2)) r.2 := by
  induction budget, s using @course_induction σ α _ tester settings with
  | unfinished s => exact .unfinished .nil
  | finished budget s qs h =>
    -- this step tests nothing, so the files tested are those from before
    rw [course_ended (step_finished h)]
    have hrest : (walked tester settings root (budget + 1) s).rest = .finished := by
      simp [walked_ended (step_finished h), Walk.along, h]
    have hending : Ending tester settings root s.script s.tested _ [] _ := .finished .nil hrest
    simpa using hending
  | fault budget s qs f h =>
    rw [course_ended (step_fault h)]
    have hrest : (walked tester settings root (budget + 1) s).rest = .fault f := by
      simp [walked_ended (step_fault h), Walk.along, h]
    simpa using Ending.stuck .nil hrest
  | passedOver budget s qs e w h hc ih =>
    rw [course_going (step_passedOver h hc), walked_going h (step_passedOver h hc)]
    simpa using ih
  | broken budget s qs e w f h hc hv =>
    rw [course_ended (step_broken h hc hv)]
    simpa using Ending.broken .nil hv
  | failed budget s qs e w result failure h hc hv hf =>
    rw [course_ended (step_failed h hc hv hf)]
    simpa using Ending.failed .nil hv (by simp [TestResult.passed, hf])
  | passed budget s qs e w result h hc hv hf ih =>
    rw [course_going (step_passed h hc hv hf), walked_going h (step_passed h hc hv hf)]
    simpa using ih.after_pass (Verdict.passed_of_ok hv hf)

variable (budget : Nat) (s : Scan σ α)

/-- A scan that is not done has used every step for an entry. -/
theorem length_entries_of_unfinished
    (h : (course tester settings root budget s).2 = .unfinished) :
    (walked tester settings root budget s).entries.length = budget := by
  induction budget, s using @course_induction σ α _ tester settings with
  | unfinished s => rfl
  | finished budget s qs hr => simp [course_ended (step_finished hr)] at h
  | fault budget s qs f hr => simp [course_ended (step_fault hr)] at h
  | passedOver budget s qs e w hr hc ih =>
    rw [course_going (step_passedOver hr hc)] at h
    rw [walked_going hr (step_passedOver hr hc)]
    exact congrArg (· + 1) (ih h)
  | broken budget s qs e w f hr hc hv => simp [course_ended (step_broken hr hc hv)] at h
  | failed budget s qs e w result failure hr hc hv hf =>
    simp [course_ended (step_failed hr hc hv hf)] at h
  | passed budget s qs e w result hr hc hv hf ih =>
    rw [course_going (step_passed hr hc hv hf)] at h
    rw [walked_going hr (step_passed hr hc hv hf)]
    exact congrArg (· + 1) (ih h)

/-! ## After the last call -/

/-- Whether events end with a call on `p` and, after it, nothing but lines and notices. -/
def EndsWithCall (executable p : Path) (es : List Event) : Prop :=
  ∃ before after, es = before ++ .called executable p :: after ∧
    Event.queries after = [] ∧ Event.entries after = [] ∧ Event.calls after = []

theorem EndsWithCall.after {executable p : Path} {es : List Event} (before : List Event)
    (h : EndsWithCall executable p es) : EndsWithCall executable p (before ++ es) := by
  obtain ⟨first, after, rfl, hsilent⟩ := h
  exact ⟨before ++ first, after, by simp, hsilent⟩

omit [FileSystem σ] in
/-- Only the notices of a tester follow the call. -/
theorem endsWithCall_testing (executable p : Path) {more : List Event}
    (hq : Event.queries more = []) (he : Event.entries more = []) (hc : Event.calls more = []) :
    EndsWithCall executable p (testing tester executable s p ++ more) := by
  refine ⟨.printed p.text :: (tester.announce executable p).map .noted,
    (tester.reply executable p (attemptAt tester s.script 0).outcome).notices.map .noted ++ more,
    by simp [testing, Tester.perform], ?_⟩
  simp [hq, he, hc]

/-- **Nothing is asked or called after a test has failed.** -/
theorem endsWithCall_of_failed {ended : Summary} {p : Path}
    (h : (course tester settings root budget s).2 = .summary ended) (hp : ended.failed = some p) :
    EndsWithCall settings.executable p (course tester settings root budget s).1 := by
  induction budget, s using @course_induction σ α _ tester settings with
  | unfinished s => cases h
  | finished budget s qs hr =>
    rw [course_ended (step_finished hr)] at h
    cases h
    cases hp
  | fault budget s qs f hr => simp [course_ended (step_fault hr)] at h
  | passedOver budget s qs e w hr hc ih =>
    rw [course_going (step_passedOver hr hc)] at h ⊢
    exact (ih h).after _
  | broken budget s qs e w f hr hc hv => simp [course_ended (step_broken hr hc hv)] at h
  | failed budget s qs e w result failure hr hc hv hf =>
    rw [course_ended (step_failed hr hc hv hf)] at h ⊢
    cases h
    cases hp
    rw [List.append_cons, List.append_assoc (testing _ _ _ _)]
    -- what follows the test is lines and one notice
    refine (endsWithCall_testing _ _ _ _ ?_ ?_ ?_).after _
    all_goals simp
  | passed budget s qs e w result hr hc hv hf ih =>
    rw [course_going (step_passed hr hc hv hf)] at h ⊢
    exact (ih h).after _

end Scan

end FileSweep
