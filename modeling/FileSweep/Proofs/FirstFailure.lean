import Mathlib
import FileSweep.Proofs.Agreement
import FileSweep.Proofs.DiskNames
import FileSweep.Proofs.ScanEnd

/-!
# Stopping at the first failure

A tester whose outcomes are results, and a walk that meets no NUL, leave a scan only two ways
to end: on the first test that fails, or with the walk.  What its summary says then is a
property of its own (`Scan.Summarizes`).

If nothing changes in the meantime, the files tested are the first ones of the walk that match.
How many they are is decided by the first failure among the attempts; and those after it might
be any others.
-/

namespace FileSweep

/-! ## Walks without a fault -/

/-- Whether no listing has a name with a NUL. -/
def FileSystem.NulFree {σ : Type} [FileSystem σ] (fs : σ) : Prop :=
  ∀ p names, FileSystem.list fs p = .ok names →
    ∀ n ∈ names, n.has (Char.ofNat 0) = false

/-- **Without NULs there is no fault.** -/
theorem Walk.rest_ne_fault_of_nulFree {σ : Type} [FileSystem σ] {fss : List σ} {root : Path}
    (hroot : root.hasNul = false) (h : ∀ fs ∈ fss, FileSystem.NulFree fs) (f : Fault) :
    (Walk.along fss (.start root)).rest ≠ .fault f := by
  have hfree : ∀ p ∈ (Walk.along fss (.start root)).lstats, p.hasNul = false := by
    refine (Walk.asked_induction (·.hasNul = false) (·.hasNul = false) fss _ ?_ ?_ ?_ ?_).1
    · simpa [Walk.start] using hroot
    · simp [Walk.start]
    · exact fun _ _ _ hp _ => hp
    · intro fs p names hasked hp hl n hn
      exact Path.hasNul_child hp (h fs (Walk.mem_of_asked hasked) p names hl n hn)
  exact Walk.rest_ne_fault hfree f

namespace Scan

/-! ## Scans with prepared results -/

section Prepared

variable {σ : Type} {settings : Settings} {root : Path} {fs : σ}
  {script : List (Attempt σ (Except Fault TestResult))} {budget : Nat}

/-- Whether the `i`-th test, counted from 0, is one that passes. -/
def passes (script : List (Attempt σ (Except Fault TestResult))) (i : Nat) : Bool :=
  Verdict.passed (attemptAt .prepared script i).outcome

/-- What a summary says of the scan that it is of, with these events and this walk inside. -/
structure Summarizes (settings : Settings) (root : Path)
    (script : List (Attempt σ (Except Fault TestResult))) (t : Walk.Trace σ)
    (events : List Event) (s : Summary) : Prop where
  root : s.root = root
  asked : Event.queries events = t.asked.map (·.2)
  entries : Event.entries events = t.entries
  calls : Event.calls events = s.tested.map (settings.executable, ·)
  passed : ∀ i, i + 1 < s.tested.length → passes script i = true
  failed : ∀ p, s.failed = some p ↔
    s.tested.getLast? = some p ∧ passes script (s.tested.length - 1) = false
  silent : ∀ p, s.failed = some p → EndsWithCall settings.executable p events
  exhausted : s.failed = none → t.rest = .finished

theorem verdictAt_prepared (executable : Path)
    (script : List (Attempt σ (Except Fault TestResult))) (i : Nat) (p : Path) :
    verdictAt .prepared executable script i p = (attemptAt .prepared script i).outcome := rfl

theorem AllPass.passes {ps : List Path} (h : AllPass .prepared settings script ps) {i : Nat}
    (hi : i < ps.length) : passes script i = true :=
  h i ps[i] (List.getElem?_eq_getElem hi)

/-- Only the last file that a scan tests can be one whose test does not pass. -/
theorem Ending.passes {tested ps : List Path} {rest : Walk.Rest} {e : ScanEnd}
    (h : Ending .prepared settings root script tested rest ps e) {i : Nat}
    (hi : i + 1 < ps.length) : passes script i = true := by
  cases h with
  | unfinished h => exact h.passes (Nat.lt_of_succ_lt hi)
  | stuck h _ => exact h.passes (Nat.lt_of_succ_lt hi)
  | broken h _ => exact h.passes (by simpa using hi)
  | failed h _ _ => exact h.passes (by simpa using hi)
  | finished h _ => exact h.passes (Nat.lt_of_succ_lt hi)

theorem false_of_passes {i : Nat} (h : passes script i = true) (hf : passes script i = false) :
    False := by
  rw [h] at hf
  cases hf

theorem outcome_ne_error_of_passes {i : Nat} (h : passes script i = true) (f : Fault) :
    (attemptAt .prepared script i).outcome ≠ .error f := by
  intro hf
  rw [passes, hf] at h
  cases h

/-- Tests that give results do not break off. -/
theorem outcome_ne_error (h : ∀ a ∈ script, ∃ r, a.outcome = .ok r) (i : Nat) (f : Fault) :
    (attemptAt .prepared script i).outcome ≠ .error f := by
  unfold attemptAt
  rw [List.getD_eq_getElem?_getD]
  cases hi : script[i]? with
  | none => simp [Tester.prepared]
  | some a =>
    obtain ⟨r, hr⟩ := h a (List.mem_of_getElem? hi)
    simp [hr]

variable [FileSystem σ]

/-- A scan without faults gives a summary, unless the steps allowed are not enough. -/
theorem run_summarizes
    (hrest : ∀ f, (walked .prepared settings root budget (start fs root script)).rest ≠ .fault f)
    (hresults : ∀ i f, (attemptAt .prepared script i).outcome ≠ .error f) :
    let r := run .prepared settings root budget fs script
    r.2 = .unfinished ∧ (Event.entries r.1).length = budget ∧
        (∀ i < (Event.calls r.1).length, passes script i = true) ∨
      ∃ s, r.2 = .summary s ∧
        Summarizes settings root script
          (walked .prepared settings root budget (start fs root script)) r.1 s := by
  have hcalls := calls_course .prepared settings root (start fs root script) budget
  have hentries := entries_course .prepared settings root (start fs root script) budget
  have hasked := queries_course .prepared settings root (start fs root script) budget
  have hend : Ending .prepared settings root script [] _ _ _ :=
    course_ending .prepared settings root budget (start fs root script)
  have hlength := length_entries_of_unfinished .prepared settings root budget
    (start fs root script)
  have hsilent := @endsWithCall_of_failed _ _ _ .prepared settings root budget
    (start fs root script)
  dsimp only
  rw [run_eq_course]
  -- from here on only the events, the end and the walk of the scan matter
  generalize course .prepared settings root budget (start fs root script) = c at *
  generalize walked .prepared settings root budget (start fs root script) = t at *
  obtain ⟨events, e⟩ := c
  have hpaths : Event.calls events =
      ((Event.calls events).map (·.2)).map (settings.executable, ·) := by
    simp [hcalls, Function.comp_def]
  dsimp only at *
  generalize (Event.calls events).map (·.2) = ps at *
  cases hend with
  | unfinished h =>
    refine .inl ⟨rfl, by simpa [hentries] using hlength rfl, fun i hi => h.passes ?_⟩
    simpa [hpaths] using hi
  | stuck h hf => exact absurd hf (hrest _)
  | broken h hv => exact absurd hv (hresults _ _)
  | @failed ps p r h hv hr =>
    have hlast : passes script ps.length = false := by
      rw [passes, ← verdictAt_prepared settings.executable script ps.length p, hv]
      exact hr
    refine .inr ⟨_, rfl, ⟨rfl, hasked, hentries, hpaths, ?_, ?_, ?_, ?_⟩⟩
    · intro i hi
      exact h.passes (by simpa using hi)
    · intro q
      simp [hlast]
    · intro q hq
      exact (hsilent rfl hq).after [_]
    · intro hnone
      cases hnone
  | finished h hf =>
    refine .inr ⟨_, rfl, ⟨rfl, hasked, hentries, hpaths, ?_, ?_, ?_, fun _ => hf⟩⟩
    · intro i hi
      exact h.passes (Nat.lt_of_succ_lt hi)
    · intro q
      constructor
      · intro hq
        cases hq
      · rintro ⟨hlast, hfailed⟩
        have hpos : 0 < ps.length := List.length_pos_of_mem (List.mem_of_getLast? hlast)
        have hpassed := h.passes (Nat.sub_lt hpos Nat.one_pos)
        exact (false_of_passes hpassed hfailed).elim
    · intro q hq
      cases hq

namespace Summarizes

variable {t : Walk.Trace σ} {events : List Event} {s : Summary} {p : Path}

omit [FileSystem σ] in
theorem last_failed (h : Summarizes settings root script t events s) (hp : s.failed = some p) :
    0 < s.tested.length ∧ passes script (s.tested.length - 1) = false := by
  obtain ⟨hlast, hfailed⟩ := (h.failed p).mp hp
  exact ⟨List.length_pos_of_mem (List.mem_of_getLast? hlast), hfailed⟩

omit [FileSystem σ] in
theorem all_passed (h : Summarizes settings root script t events s) (hnone : s.failed = none)
    {i : Nat} (hi : i < s.tested.length) : passes script i = true := by
  rcases Nat.lt_or_ge (i + 1) s.tested.length with hlt | hge
  · exact h.passed i hlt
  · obtain rfl : i = s.tested.length - 1 := by omega
    cases hpasses : passes script (s.tested.length - 1) with
    | true => rfl
    | false =>
      have hlast := List.getLast?_eq_some_getLast (List.ne_nil_of_length_pos (Nat.zero_lt_of_lt hi))
      have hfailed := (h.failed _).mpr ⟨hlast, hpasses⟩
      rw [hnone] at hfailed
      cases hfailed

omit [FileSystem σ] in
/-- If a test has failed, it is the first one that does not pass. -/
theorem length_of_first_failure (h : Summarizes settings root script t events s)
    (hp : s.failed = some p) {k : Nat} (hk : passes script k = false)
    (hfirst : ∀ i < k, passes script i = true) : s.tested.length = k + 1 := by
  obtain ⟨hpos, hlast⟩ := h.last_failed hp
  rcases Nat.lt_trichotomy (s.tested.length - 1) k with hlt | heq | hgt
  · exact (false_of_passes (hfirst _ hlt) hlast).elim
  · omega
  · exact (false_of_passes (h.passed k (by omega)) hk).elim

end Summarizes

section Still

variable {t : Walk.Trace σ} (settings) (ht : Walk.Completes fs root t)
  (hstill : ∀ a ∈ script, a.change = id)
include ht hstill

/-- The files that a scan calls the executable on are some of the walk in an unchanging file
system, from the first on. -/
theorem calls_prefix_of_still (budget : Nat) :
    Event.calls (run .prepared settings root budget fs script).1 <+:
      (t.entries.filter settings.chooses).map fun e => (settings.executable, e.path) := by
  obtain ⟨n, hwalked⟩ := walked_eq_of_still .prepared settings root budget hstill
  have hfirst := ht.entries_prefix n
  rw [← hwalked] at hfirst
  rw [run_eq_course]
  simpa [calls_course] using (hfirst.filter settings.chooses).map _

/-- With more steps than the walk has entries, the scan gives a summary. -/
theorem summary_of_still (hresults : ∀ i f, (attemptAt .prepared script i).outcome ≠ .error f)
    (hbudget : t.entries.length < budget) :
    let r := run .prepared settings root budget fs script
    ∃ s, r.2 = .summary s ∧
      Summarizes settings root script
        (walked .prepared settings root budget (start fs root script)) r.1 s := by
  obtain ⟨n, hwalked⟩ := walked_eq_of_still .prepared settings root budget hstill
  have hrest : ∀ f,
      (walked .prepared settings root budget (start fs root script)).rest ≠ .fault f := by
    intro f hf
    rw [hwalked] at hf
    rw [ht.eq_of_rest (by simp [hf]), ht.rest] at hf
    cases hf
  rcases run_summarizes hrest hresults with ⟨-, hlength, -⟩ | hsum
  · -- every step has been used for an entry, but there are not so many
    have hle := (ht.entries_prefix n).length_le
    rw [← hwalked] at hle
    rw [run_eq_course] at hlength
    simp only [Event.entries_cons, Event.entry?, Option.toList_none, List.nil_append,
      entries_course] at hlength
    omega
  · exact hsum

/-- If no test fails, the scan goes through the whole walk. -/
theorem calls_of_exhausted
    (h : (walked .prepared settings root budget (start fs root script)).rest = .finished) :
    Event.calls (run .prepared settings root budget fs script).1 =
      (t.entries.filter settings.chooses).map fun e => (settings.executable, e.path) := by
  obtain ⟨n, hwalked⟩ := walked_eq_of_still .prepared settings root budget hstill
  have hwhole := ht.eq_of_rest (n := n) (by rw [← hwalked, h]; decide)
  rw [run_eq_course]
  simp [calls_course, hwalked, hwhole]

/-- **Without changes, the first test that fails is the last call**, and if none fails, all
files that match are called on. -/
theorem calls_of_still (hresults : ∀ i f, (attemptAt .prepared script i).outcome ≠ .error f)
    (hbudget : t.entries.length < budget) :
    let r := run .prepared settings root budget fs script
    let calls := (t.entries.filter settings.chooses).map fun e => (settings.executable, e.path)
    (∀ k < calls.length, passes script k = false → (∀ i < k, passes script i = true) →
        Event.calls r.1 = calls.take (k + 1) ∧ (Event.calls r.1).length = k + 1) ∧
      ((∀ i < calls.length, passes script i = true) → Event.calls r.1 = calls) := by
  have hfirst := calls_prefix_of_still settings ht hstill budget
  have htake := List.prefix_iff_eq_take.mp hfirst
  have hle := hfirst.length_le
  obtain ⟨s, -, hsum⟩ := summary_of_still settings ht hstill hresults hbudget
  have hlength := congrArg List.length hsum.calls
  rw [List.length_map] at hlength
  dsimp only
  cases hfailed : s.failed with
  | some p =>
    obtain ⟨hpos, hlast⟩ := hsum.last_failed hfailed
    constructor
    · intro k hk hkfails hkfirst
      have hkth := hsum.length_of_first_failure hfailed hkfails hkfirst
      rw [hlength, hkth] at htake
      exact ⟨htake, hlength.trans hkth⟩
    · intro hall
      exact (false_of_passes (hall (s.tested.length - 1) (by omega)) hlast).elim
  | none =>
    have hcalls := calls_of_exhausted settings ht hstill (hsum.exhausted hfailed)
    constructor
    · intro k hk hkfails _
      have hpassed := hsum.all_passed hfailed (i := k) (by rw [← hlength, hcalls]; exact hk)
      exact (false_of_passes hpassed hkfails).elim
    · exact fun _ => hcalls

end Still

/-- What is agreed on is enough as soon as one of the tests agreed on does not pass. -/
theorem run_agree {n : Nat} {script' : List (Attempt σ (Except Fault TestResult))}
    (h : Agree .prepared n script script') :
    let r := run .prepared settings root budget fs script
    let r' := run .prepared settings root budget fs script'
    SameUpTo n r r' ∧ ((∃ i < n, passes script i = false) → r = r') := by
  have hend := course_ending .prepared settings root budget (start fs root script)
  have hsame := course_agree .prepared settings root budget n fs (.start root) script script' [] h
  have hrun := hsame.after [.printed (Report.heading root)] rfl
  dsimp only
  rw [run_eq_course, run_eq_course]
  refine ⟨hrun, ?_⟩
  rintro ⟨i, hi, hfails⟩
  refine hrun.2 (Nat.le_of_not_lt fun hmore => ?_)
  -- there is one more call after it, so the test has passed
  have hpassed := hend.passes (i := i) (by rw [List.length_map]; exact Nat.lt_of_le_of_lt hi hmore)
  exact false_of_passes hpassed hfails

/-- **A scan stops at the first test that fails.**  With prepared results, and without NULs, a
scan from `root` gives a summary as soon as the steps are enough: the executable was called on
the files tested, in their order; all tests but possibly the last have passed, and the file of
that one is named if it has not; in this case nothing is asked or called after its call, and
otherwise the walk has come to its end.  If moreover nothing changes, and `t` is the whole
walk, the files are the first ones of `t` that match, up to the first that fails.  And what
the scan does up to its next call depends on no more than the attempts made by then. -/
theorem run_stops_at_first_failure (settings : Settings) (root : Path) (fs : σ)
    (script : List (Attempt σ (Except Fault TestResult))) (hroot : root.hasNul = false)
    (hnames : ∀ fs' ∈ stages fs script, FileSystem.NulFree fs')
    (hresults : ∀ a ∈ script, ∃ r, a.outcome = .ok r) :
    (∀ budget,
      let r := run .prepared settings root budget fs script
      r.2 = .unfinished ∧ (Event.entries r.1).length = budget ∧
          (∀ i < (Event.calls r.1).length, passes script i = true) ∨
        ∃ s, r.2 = .summary s ∧
          Summarizes settings root script
            (walked .prepared settings root budget (start fs root script)) r.1 s) ∧
    (∀ t : Walk.Trace σ, Walk.Completes fs root t → (∀ a ∈ script, a.change = id) →
      ∀ budget > t.entries.length,
        let r := run .prepared settings root budget fs script
        let calls := (t.entries.filter settings.chooses).map fun e =>
          (settings.executable, e.path)
        (∃ s, r.2 = .summary s) ∧
          (∀ k < calls.length, passes script k = false → (∀ i < k, passes script i = true) →
            Event.calls r.1 = calls.take (k + 1) ∧ (Event.calls r.1).length = k + 1) ∧
          ((∀ i < calls.length, passes script i = true) → Event.calls r.1 = calls)) ∧
    (∀ n script', Agree .prepared n script script' → ∀ budget,
      let r := run .prepared settings root budget fs script
      let r' := run .prepared settings root budget fs script'
      SameUpTo n r r' ∧ ((∃ i < n, passes script i = false) → r = r')) := by
  have hoks := outcome_ne_error hresults
  refine ⟨?_, ?_, ?_⟩
  · intro budget
    have hmet := met_subset_stages .prepared settings root budget (start fs root script)
    have hfree := Walk.rest_ne_fault_of_nulFree hroot fun fs' h => hnames fs' (hmet fs' h)
    exact run_summarizes hfree hoks
  · intro t ht hstill budget hbudget
    obtain ⟨s, hs, -⟩ := summary_of_still settings ht hstill hoks hbudget
    exact ⟨⟨s, hs⟩, calls_of_still settings ht hstill hoks hbudget⟩
  · intro n script' hagree budget
    exact run_agree hagree

end Prepared

/-! ### A scan of the small disk -/

/-- A first test that passes, and a second one that fails. -/
def secondFails : List (Attempt Disk (Except Fault TestResult)) :=
  [⟨id, .ok {}⟩, ⟨id, .ok { failure := some "no" }⟩]

/-- The walk through the small disk. -/
def sampleWalk : Walk.Trace Disk := Walk.drive (fun _ => id) 10 Disk.sample Disk.sampleRoot

theorem completes_sampleWalk : Walk.Completes Disk.sample Disk.sampleRoot sampleWalk :=
  ⟨by cbv, 10, rfl⟩

theorem length_sampleWalk : sampleWalk.entries.length = 4 := by
  cbv

set_option maxRecDepth 4000 in
theorem length_chosen_sampleWalk :
    (sampleWalk.entries.filter Settings.default.chooses).length = 2 := by
  cbv

/-- The scan stops at its second file, and up to there the attempt for it does not matter. -/
theorem sample_stops_at_second :
    let r := run .prepared .default Disk.sampleRoot 9 Disk.sample secondFails
    let r' := run .prepared .default Disk.sampleRoot 9 Disk.sample []
    (∃ s, r.2 = .summary s ∧
        Summarizes .default Disk.sampleRoot secondFails
          (walked .prepared .default Disk.sampleRoot 9
            (start Disk.sample Disk.sampleRoot secondFails)) r.1 s) ∧
      (Event.calls r.1).length = 2 ∧ SameUpTo 1 r r' := by
  intro r r'
  have hwell : ∀ d ∈ stages Disk.sample secondFails, d.Holds Node.WellNamed :=
    forall_stages Disk.wellNamed_sample (by simp [secondFails])
  obtain ⟨hends, hstill, hagree⟩ := run_stops_at_first_failure .default Disk.sampleRoot
    Disk.sample secondFails (by decide) (fun d hd p names h => ((hwell d hd).names h).2)
    (by simp [secondFails])
  obtain ⟨⟨s, hs⟩, hkth, -⟩ := hstill sampleWalk completes_sampleWalk (by simp [secondFails]) 9
    (by rw [length_sampleWalk]; decide)
  have hcalls := hkth 1 (by simp [length_chosen_sampleWalk]) rfl (by decide)
  refine ⟨?_, hcalls.2, (hagree 1 [] ?_ 9).1⟩
  · rcases hends 9 with ⟨hun, -⟩ | hsum
    · exact absurd (hs.symm.trans hun) (by simp)
    · exact hsum
  · intro i hi
    obtain rfl : i = 0 := by omega
    rfl

end Scan

end FileSweep
