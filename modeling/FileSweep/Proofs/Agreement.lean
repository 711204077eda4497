import FileSweep.Proofs.ScanCourse

/-!
# Scans that agree

An attempt of a script matters only once it is made: a step looks at no more than the first
one, and only if it tests a file.  So two scans whose scripts agree on some attempts are the
same until these have been made, and still call the executable on the same file next
(`Scan.course_agree`).
-/

namespace FileSweep
namespace Scan

variable {σ α : Type}

/-- Whether two scripts have the same first `n` attempts. -/
def Agree (tester : Tester α) (n : Nat) (script script' : List (Attempt σ α)) : Prop :=
  ∀ i < n, attemptAt tester script i = attemptAt tester script' i

/-- Whether two scans make the same first `n + 1` calls, and are the same if the first one
makes no more than `n`. -/
def SameUpTo (n : Nat) (r r' : List Event × ScanEnd) : Prop :=
  (Event.calls r.1).take (n + 1) = (Event.calls r'.1).take (n + 1) ∧
    ((Event.calls r.1).length ≤ n → r = r')

namespace SameUpTo

variable {n : Nat} {r r' : List Event × ScanEnd}

theorem refl (n : Nat) (r : List Event × ScanEnd) : SameUpTo n r r := ⟨rfl, fun _ => rfl⟩

theorem of_first {c : Path × Path} {more more' : List (Path × Path)}
    (h : Event.calls r.1 = c :: more) (h' : Event.calls r'.1 = c :: more') :
    SameUpTo 0 r r' := by
  simp [SameUpTo, h, h']

theorem after (h : SameUpTo n r r') (es : List Event) (hes : Event.calls es = []) :
    SameUpTo n (es ++ r.1, r.2) (es ++ r'.1, r'.2) := by
  obtain ⟨htake, heq⟩ := h
  refine ⟨by simpa [hes] using htake, fun hlength => ?_⟩
  rw [heq (by simpa [hes] using hlength)]

theorem after_call (h : SameUpTo n r r') {es : List Event} (c : Path × Path)
    (hes : Event.calls es = [c]) :
    SameUpTo (n + 1) (es ++ r.1, r.2) (es ++ r'.1, r'.2) := by
  obtain ⟨htake, heq⟩ := h
  refine ⟨by simpa [hes] using htake, fun hlength => ?_⟩
  rw [heq (by simpa [hes] using hlength)]

end SameUpTo

section Agreement

variable [FileSystem σ] {tester : Tester α} {settings : Settings} {root : Path} {budget : Nat}
  {s : Scan σ α}
variable {n : Nat} {script script' : List (Attempt σ α)} {e : Entry} {qs : List Query}

omit [FileSystem σ] in
theorem Agree.head (h : Agree tester (n + 1) script script') :
    attemptAt tester script 0 = attemptAt tester script' 0 :=
  h 0 n.succ_pos

omit [FileSystem σ] in
theorem Agree.tail (h : Agree tester (n + 1) script script') :
    Agree tester n script.tail script'.tail := by
  intro i hi
  simpa using h (i + 1) (Nat.succ_lt_succ hi)

/-- A file that is reached and chosen is called on first, whatever the script. -/
theorem calls_of_chosen {w : Walk} (h : s.walk.resume s.fs = (qs, .entry e w))
    (hc : settings.chooses e = true) :
    ∃ more, Event.calls (course tester settings root (budget + 1) s).1 =
      (settings.executable, e.path) :: more := by
  rw [calls_course, walked, met, Walk.along, h]
  exact ⟨_, by rw [List.filter_cons_of_pos hc]; rfl⟩

/-- A test that both scans run on the same file, with the same attempt, is one more call that
they agree on. -/
theorem sameUpTo_of_tested {s s' : Scan σ α} {w : Walk}
    (h : s.walk.resume s.fs = (qs, .entry e w)) (h' : s'.walk.resume s'.fs = (qs, .entry e w))
    (hc : settings.chooses e = true) (htested : s'.tested = s.tested)
    (hattempt : attemptAt tester s'.script 0 = attemptAt tester s.script 0)
    (hafter : SameUpTo n (course tester settings root budget (s.afterTest tester w e.path))
      (course tester settings root budget (s'.afterTest tester w e.path))) :
    SameUpTo (n + 1) (course tester settings root (budget + 1) s)
      (course tester settings root (budget + 1) s') := by
  have hverdict : verdictAt tester settings.executable s'.script 0 e.path =
      verdictAt tester settings.executable s.script 0 e.path := by
    rw [verdictAt, verdictAt, hattempt]
  have htesting : testing tester settings.executable s' e.path =
      testing tester settings.executable s e.path := by
    rw [testing, testing, hattempt]
  cases hv : verdictAt tester settings.executable s.script 0 e.path with
  | error f =>
    have hv' := hverdict.trans hv
    rw [course_ended (step_broken h hc hv), course_ended (step_broken h' hc hv'), htesting]
    exact .refl _ _
  | ok result =>
    have hv' := hverdict.trans hv
    cases hf : result.failure with
    | some failure =>
      rw [course_ended (step_failed h hc hv hf), course_ended (step_failed h' hc hv' hf),
        htesting, htested]
      exact .refl _ _
    | none =>
      rw [course_going (step_passed h hc hv hf), course_going (step_passed h' hc hv' hf),
        htesting]
      exact hafter.after_call (settings.executable, e.path) (by simp)

/-- **Attempts matter only once they are made**: what a scan does up to its next call after `n`
tests depends on no more than the first `n` attempts. -/
theorem course_agree (tester : Tester α) (settings : Settings) (root : Path) (budget n : Nat)
    (fs : σ) (w : Walk) (script script' : List (Attempt σ α)) (tested : List Path)
    (hagree : Agree tester n script script') :
    SameUpTo n (course tester settings root budget ⟨fs, w, script, tested⟩)
      (course tester settings root budget ⟨fs, w, script', tested⟩) := by
  induction budget generalizing n fs w script script' tested with
  | zero => exact .refl n _
  | succ budget ih =>
    rcases hresume : w.resume fs with ⟨qs, step⟩
    have h : (⟨fs, w, script, tested⟩ : Scan σ α).walk.resume fs = (qs, step) := hresume
    have h' : (⟨fs, w, script', tested⟩ : Scan σ α).walk.resume fs = (qs, step) := hresume
    cases step with
    | finished =>
      rw [course_ended (step_finished h), course_ended (step_finished h')]
      exact .refl n _
    | fault f =>
      rw [course_ended (step_fault h), course_ended (step_fault h')]
      exact .refl n _
    | entry e next =>
      cases hc : settings.chooses e with
      | false =>
        rw [course_going (step_passedOver h hc), course_going (step_passedOver h' hc)]
        exact (ih n fs next script script' tested hagree).after _ (by simp)
      | true =>
        cases n with
        | zero =>
          -- the call at hand is the only one that is agreed on
          obtain ⟨more, hcalls⟩ := calls_of_chosen h hc
          obtain ⟨more', hcalls'⟩ := calls_of_chosen h' hc
          exact .of_first hcalls hcalls'
        | succ n =>
          -- the attempt at hand is one of those agreed on, and so are `n` more
          have hafter := ih n ((attemptAt tester script 0).change fs) next _ _
            (tested ++ [e.path]) hagree.tail
          refine sameUpTo_of_tested h h' hc rfl hagree.head.symm ?_
          simp only [afterTest, ← hagree.head]
          exact hafter

end Agreement

end Scan

end FileSweep
