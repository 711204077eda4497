import Mathlib
import FileSweep.Proofs.Lockstep

/-!
# What a scan has left behind

A scan never asks again about a path that it has passed.  When a test is run on a file, all that
lies ahead comes after the file in the order of paths (`Walk.Round.lex_of_ahead`): the file
itself, what was visited before it, and the directories that contain it, whose listings have been
had, are behind.  So a test may delete or replace what is behind, or what is outside, or turn the
directory around it into a file; the scan goes on as if nothing had happened.

The scan with such tests is kept in lockstep with the one in which no test changes anything, by
agreement on what is still ahead (`Scan.SameAhead`).
-/

namespace FileSweep

/-- Whether `q` is a path below `root` that comes after `p`, as a walk from `root` visits them. -/
def Path.ComesAfter (root p q : Path) : Prop :=
  root.Encloses q ∧ List.Lex Text.Lt (root.below p) (root.below q)

instance (root p q : Path) : Decidable (root.ComesAfter p q) :=
  inferInstanceAs (Decidable (_ ∧ _))

section Agreement

variable {σ : Type} [FileSystem σ]

/-- Whether no listing holds a name twice. -/
def FileSystem.NamesOnce (fs : σ) : Prop :=
  ∀ p names, FileSystem.list fs p = .ok names → names.Nodup

/-- Whether two file systems give the same answers about all paths that come after `p`. -/
def SameAfter (root p : Path) (fs fs' : σ) : Prop := ∀ q, root.ComesAfter p q → SameAt fs fs' q

end Agreement

/-- The attempt with the same outcome that changes nothing. -/
def Attempt.still {σ α : Type} (a : Attempt σ α) : Attempt σ α := ⟨id, a.outcome⟩

namespace Scan

variable {σ α : Type}

theorem attemptAt_still (tester : Tester α) (script : List (Attempt σ α)) (i : Nat) :
    attemptAt tester (script.map Attempt.still) i = (attemptAt tester script i).still := by
  unfold attemptAt
  rw [List.getD_eq_getElem?_getD, List.getD_eq_getElem?_getD, List.getElem?_map]
  cases script[i]? <;> rfl

variable [FileSystem σ]

/-- Whether no test of the script changes anything after the file that it is called on: the
`k`-th one, in the file system that the tests before it leave, after the file of the `k`-th
call. -/
def KeepsAfter (root : Path) (fs : σ) (script : List (Attempt σ α)) (calls : List (Path × Path)) :
    Prop :=
  ∀ (k : Nat) a c fs', script[k]? = some a → calls[k]? = some c →
    (stages fs script)[k]? = some fs' → SameAfter root c.2 (a.change fs') fs'

section Scripts

variable {root : Path} {fs : σ} {script : List (Attempt σ α)} {c : Path × Path}
  {calls : List (Path × Path)}

theorem KeepsAfter.head (tester : Tester α) (h : KeepsAfter root fs script (c :: calls)) :
    SameAfter root c.2 ((attemptAt tester script 0).change fs) fs := by
  cases script with
  | nil => exact fun q _ => .refl fs q
  | cons a script => exact h 0 a c fs rfl rfl rfl

theorem KeepsAfter.tail (tester : Tester α) (h : KeepsAfter root fs script (c :: calls)) :
    KeepsAfter root ((attemptAt tester script 0).change fs) script.tail calls := by
  intro k a c' fs' ha hc hfs
  cases script with
  | nil => cases ha
  | cons b script => exact h (k + 1) a c' fs' ha hc hfs

end Scripts

/-! ## Agreement on what is ahead -/

/-- A scan, with so many steps left, and another one without changes that has come equally far
and finds the same ahead. -/
structure SameAhead (tester : Tester α) (settings : Settings) (root : Path) (budget : Nat)
    (s s' : Scan σ α) : Prop where
  walk : s.walk = s'.walk
  tested : s.tested = s'.tested
  script : s'.script = s.script.map Attempt.still
  ordered : s.walk.Ordered
  within : ∀ q, s.walk.Ahead q → root.Encloses q
  same : ∀ q, s.walk.Ahead q → SameAt s.fs s'.fs q
  names : FileSystem.NamesEntries s'.fs
  once : FileSystem.NamesOnce s'.fs
  keeps : KeepsAfter root s.fs s.script
    (Event.calls (course tester settings root budget s).1)

namespace SameAhead

variable {tester : Tester α} {settings : Settings} {root : Path} {budget : Nat}
  {s s' : Scan σ α} {qs : List Query} {e : Entry} {w : Walk}

theorem start {fs : σ} {script : List (Attempt σ α)} (hnames : FileSystem.NamesEntries fs)
    (honce : FileSystem.NamesOnce fs)
    (hkeeps : KeepsAfter root fs script
      (Event.calls (run tester settings root budget fs script).1)) :
    SameAhead tester settings root budget (start fs root script)
      (start fs root (script.map Attempt.still)) where
  walk := rfl
  tested := rfl
  script := rfl
  ordered := .start root
  within _ hq := Walk.ahead_start.mp hq
  same q _ := .refl fs q
  names := hnames
  once := honce
  keeps := by
    rw [run_eq_course] at hkeeps
    exact hkeeps

/-- The listing that is asked for next was not changed. -/
theorem names_opened (h : SameAhead tester settings root budget s s') :
    s.walk.ListsNext s.fs fun names => ∀ n ∈ names, n.IsEntryName := by
  intro p hp names hlist
  have hsame := h.same p (.inl ⟨p, hp, p.encloses_refl⟩)
  exact h.names p names (hsame.list ▸ hlist)

theorem areNames_opened (h : SameAhead tester settings root budget s s') :
    s.walk.ListsNext s.fs Text.AreNames := by
  intro p hp names hlist
  have hsame := h.same p (.inl ⟨p, hp, p.encloses_refl⟩)
  have hentries := h.names_opened p hp names hlist
  exact ⟨fun n hn => (hentries n hn).1, h.once p names (hsame.list ▸ hlist)⟩

theorem resume_eq (h : SameAhead tester settings root budget s s') :
    s.walk.resume s.fs = s'.walk.resume s'.fs := by
  rw [← h.walk]
  exact Walk.resume_congr h.same h.names_opened

theorem outcome_eq (h : SameAhead tester settings root budget s s') :
    (attemptAt tester s.script 0).outcome = (attemptAt tester s'.script 0).outcome := by
  rw [h.script, attemptAt_still]
  rfl

/-- What is ahead after a round was ahead before it, so it is within the root and the same. -/
theorem ahead_before (h : SameAhead tester settings root budget s s')
    (hr : s.walk.resume s.fs = (qs, .entry e w)) : ∀ q, w.Ahead q → s.walk.Ahead q :=
  fun _ => (Walk.round_of_resume hr).ahead h.names_opened

theorem ordered_next (h : SameAhead tester settings root budget s s')
    (hr : s.walk.resume s.fs = (qs, .entry e w)) : w.Ordered :=
  (Walk.round_of_resume hr).ordered h.ordered h.areNames_opened

/-- What is ahead after a file comes after the file. -/
theorem comesAfter_of_ahead (h : SameAhead tester settings root budget s s')
    (hr : s.walk.resume s.fs = (qs, .entry e w)) (hc : settings.chooses e = true) :
    ∀ q, w.Ahead q → root.ComesAfter e.path q := by
  intro q hq
  have hround := Walk.round_of_resume hr
  have hfile : root.Encloses e.path := h.within _ (hround.ahead_path h.names_opened)
  have hinside : root.Encloses q := h.within q (h.ahead_before hr q hq)
  have hlex := hround.lex_of_ahead h.ordered h.areNames_opened
    (Settings.isRegular_of_chooses hc) hq
  exact ⟨hinside, hfile.isUnder.lex_below hinside.isUnder hlex⟩

theorem passedOver (h : SameAhead tester settings root (budget + 1) s s')
    (hr : s.walk.resume s.fs = (qs, .entry e w)) (hc : settings.chooses e = false) :
    SameAhead tester settings root budget { s with walk := w } { s' with walk := w } where
  walk := rfl
  tested := h.tested
  script := h.script
  ordered := h.ordered_next hr
  within q hq := h.within q (h.ahead_before hr q hq)
  same q hq := h.same q (h.ahead_before hr q hq)
  names := h.names
  once := h.once
  keeps := calls_of_passedOver hr hc ▸ h.keeps

/-- A test changes nothing of what is ahead after it. -/
theorem passed (h : SameAhead tester settings root (budget + 1) s s')
    (hr : s.walk.resume s.fs = (qs, .entry e w)) (hc : settings.chooses e = true)
    {result : TestResult}
    (hv : verdictAt tester settings.executable s.script 0 e.path = .ok result)
    (hf : result.failure = none) :
    SameAhead tester settings root budget (s.afterTest tester w e.path)
      (s'.afterTest tester w e.path) := by
  have hkeeps := h.keeps
  rw [calls_of_passed hr hc hv hf] at hkeeps
  have hstill : (s'.afterTest tester w e.path).fs = s'.fs := by
    rw [afterTest, h.script, attemptAt_still]
    rfl
  exact {
    walk := rfl
    tested := congrArg (· ++ [e.path]) h.tested
    script := by
      show s'.script.tail = s.script.tail.map Attempt.still
      rw [h.script, List.map_tail]
    ordered := h.ordered_next hr
    within := fun q hq => h.within q (h.ahead_before hr q hq)
    same := by
      intro q hq
      have hkept := hkeeps.head tester q (h.comesAfter_of_ahead hr hc q hq)
      rw [hstill]
      exact hkept.trans (h.same q (h.ahead_before hr q hq))
    names := by
      rw [hstill]
      exact h.names
    once := by
      rw [hstill]
      exact h.once
    keeps := hkeeps.tail tester }

end SameAhead

theorem lockstep_sameAhead (tester : Tester α) (settings : Settings) (root : Path) :
    Lockstep tester settings fun budget (s s' : Scan σ α) =>
      SameAhead tester settings root budget s s' where
  resume _ _ _ h := h.resume_eq
  tested _ _ _ h := h.tested
  outcome _ _ _ h := h.outcome_eq
  passedOver _ _ _ _ _ _ h hr hc := h.passedOver hr hc
  passed _ _ _ _ _ _ _ h hr hc hv hf := h.passed hr hc hv hf

/-- A scan whose tests change nothing after their files is the one without changes. -/
theorem run_eq_still (tester : Tester α) (settings : Settings) (root : Path) (budget : Nat)
    (fs : σ) (script : List (Attempt σ α)) (hnames : FileSystem.NamesEntries fs)
    (honce : FileSystem.NamesOnce fs)
    (hkeeps : KeepsAfter root fs script
      (Event.calls (run tester settings root budget fs script).1)) :
    run tester settings root budget fs script =
      run tester settings root budget fs (script.map Attempt.still) := by
  have hcourse := (lockstep_sameAhead tester settings root).course_eq root budget _ _
    (SameAhead.start hnames honce hkeeps)
  rw [run_eq_course, run_eq_course, hcourse]

end Scan

/-! ## Edits of a disk -/

namespace Disk

variable {α : Type} {root p : Path} {runs : List (Edits × α)} {calls : List (Path × Path)}

/-- Whether no edit touches a path after the file that its test is called on; it may touch all
other keys. -/
def EditsBehind (root : Path) (runs : List (Edits × α)) (calls : List (Path × Path)) : Prop :=
  ∀ (k : Nat) run c, runs[k]? = some run → calls[k]? = some c →
    ∀ q, root.ComesAfter c.2 q → q.text ∉ run.1.keys

theorem EditsBehind.keepsAfter (h : EditsBehind root runs calls) (d : Disk) :
    Scan.KeepsAfter root d (script runs) calls := by
  intro k a c d' ha hc _ q hq
  rw [script, List.getElem?_map, Option.map_eq_some_iff] at ha
  obtain ⟨run, hrun, rfl⟩ := ha
  exact sameAt_apply_of_notMem (h k run c hrun hc q hq) d'

/-- Keys can be checked one by one. -/
theorem notMem_of_comesAfter {keys : List Text}
    (h : ∀ key ∈ keys, ¬ root.ComesAfter p (.ofText key)) :
    ∀ q, root.ComesAfter p q → q.text ∉ keys := by
  intro q hq hmem
  have hkey := h q.text hmem
  rw [q.ofText_text] at hkey
  exact hkey hq

end Disk

namespace Scan

/-- **What is behind a scan does not matter.**  If the listings to begin with hold only names of
entries, each once, and every test changes nothing but what does not come after its file, as far
as it lies below the root, then the scan is the same as without any changes.  For disks: if no
edit touches a path below the root that comes after the file of its test. -/
theorem run_undisturbed_by_behind {α : Type} (tester : Tester α) (settings : Settings)
    (root : Path) (budget : Nat) :
    (∀ (σ : Type) [FileSystem σ] (fs : σ) (script : List (Attempt σ α)),
      FileSystem.NamesEntries fs → FileSystem.NamesOnce fs →
      KeepsAfter root fs script (Event.calls (run tester settings root budget fs script).1) →
      run tester settings root budget fs script =
        run tester settings root budget fs (script.map Attempt.still)) ∧
    ∀ (d : Disk) (runs : List (Disk.Edits × α)),
      FileSystem.NamesEntries d → FileSystem.NamesOnce d →
      Disk.EditsBehind root runs
        (Event.calls (run tester settings root budget d (Disk.script runs)).1) →
      run tester settings root budget d (Disk.script runs) =
        run tester settings root budget d ((Disk.script runs).map Attempt.still) := by
  refine ⟨?_, ?_⟩
  · intro σ _ fs script hnames honce hkeeps
    exact run_eq_still tester settings root budget fs script hnames honce hkeeps
  · intro d runs hnames honce hedits
    have hkeeps := hedits.keepsAfter d
    exact run_eq_still tester settings root budget d _ hnames honce hkeeps

/-! ### Tests that cut off the branch they sit on -/

/-- The first test removes its file and the directory around it, turns the root into a file,
and puts something impossible outside; the second one removes its file too. -/
def cutsOff : List (Disk.Edits × Except Fault TestResult) :=
  [({ deleted := ["r/a/x.chm", "r/a"],
      set := [("r", { kind := .file }), ("etc", { kind := .dir, names := ["..", ".."] })] },
      .ok {}),
    ({ deleted := ["r/b.chm", "r"] }, .ok {})]

set_option maxRecDepth 8000 in
theorem calls_cutsOff :
    Event.calls (run .prepared .default Disk.sampleRoot 9 Disk.sample (Disk.script cutsOff)).1 =
      [(Settings.default.executable, .ofText "r/a/x.chm"),
        (Settings.default.executable, .ofText "r/b.chm")] := by
  cbv

theorem editsBehind_cutsOff :
    Disk.EditsBehind Disk.sampleRoot cutsOff
      (Event.calls
        (run .prepared .default Disk.sampleRoot 9 Disk.sample (Disk.script cutsOff)).1) := by
  rw [calls_cutsOff]
  intro k run c hrun hc
  match k with
  | 0 =>
    cases hrun
    cases hc
    exact Disk.notMem_of_comesAfter (by decide)
  | 1 =>
    cases hrun
    cases hc
    exact Disk.notMem_of_comesAfter (by decide)
  | k + 2 => cases hrun

/-- The scan of the small disk goes on as if nothing had happened. -/
theorem sample_undisturbed :
    run .prepared .default Disk.sampleRoot 9 Disk.sample (Disk.script cutsOff) =
      run .prepared .default Disk.sampleRoot 9 Disk.sample
        ((Disk.script cutsOff).map Attempt.still) := by
  have hentries : Disk.sample.Holds Node.NamesEntries := (Disk.holds_empty _).set (by decide)
  have honce : FileSystem.NamesOnce Disk.sample :=
    fun p names h => (Disk.wellNamed_sample.names h).1.2
  obtain ⟨-, hdisks⟩ := run_undisturbed_by_behind .prepared .default Disk.sampleRoot 9
  exact hdisks Disk.sample cutsOff hentries.namesEntries honce editsBehind_cutsOff

end Scan

end FileSweep
