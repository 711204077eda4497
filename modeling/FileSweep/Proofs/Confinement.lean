import FileSweep.Proofs.Lockstep

/-!
# What a scan keeps to

A scan stays within its root and follows no link.  Each question that it asks is justified by
the answers to earlier ones (`Walk.Justified`): a path is looked at because it is the root, or
because the directory above it was looked at and listed and has that name; and a path is listed
because the very last look found a directory there.  A link is neither looked through nor
listed, whatever it points to.  Each call is for a path where the last look found a file
(`Scan.CallsFiles`).

So what lies outside, or at the end of a link, has no part in a scan.  Two file systems that
cannot be told apart at the root and below it (`SameBelow`), and that the tests keep so, give
the same events and the same end, for they can be kept in lockstep.
-/

namespace FileSweep

namespace Walk

variable {σ : Type} [FileSystem σ] {root p : Path} {past : List (σ × Query)} {fs : σ}
  {fss : List σ}

/-! ## Where questions come from -/

/-- Whether the questions so far have led to `p`: they found a directory and listed it, and `p`
is what one of its names stands for. -/
def FoundIn (past : List (σ × Query)) (p : Path) : Prop :=
  ∃ fs fs' q names n, (fs, .lstat q) ∈ past ∧ FileSystem.lstat fs q = .ok .dir ∧
    (fs', .list q) ∈ past ∧ FileSystem.list fs' q = .ok names ∧ n ∈ names ∧ p = q.child n

/-- Whether the last of the questions was a look at `p`, and found a directory. -/
def JustOpened (past : List (σ × Query)) (p : Path) : Prop :=
  ∃ earlier fs, past = earlier ++ [(fs, .lstat p)] ∧ FileSystem.lstat fs p = .ok .dir

/-- Whether the answers to the questions so far give a reason for the next one. -/
def Justified (root : Path) (past : List (σ × Query)) : Query → Prop
  | .lstat p => p = root ∨ FoundIn past p
  | .list p => JustOpened past p

/-- Whether there is a reason for each of the questions that follow. -/
def AllJustified (root : Path) (past asked : List (σ × Query)) : Prop :=
  ∀ before fs q after, asked = before ++ (fs, q) :: after → Justified root (past ++ before) q

theorem FoundIn.later (h : FoundIn past p) (a : σ × Query) : FoundIn (past ++ [a]) p := by
  obtain ⟨fs, fs', q, names, n, hlooked, hdir, hlisted, hnames, hn, hp⟩ := h
  exact ⟨fs, fs', q, names, n, List.mem_append_left _ hlooked, hdir,
    List.mem_append_left _ hlisted, hnames, hn, hp⟩

theorem AllJustified.nil : AllJustified root past [] := by
  intro before fs q after h
  simp at h

theorem AllJustified.cons {q : Query} {asked : List (σ × Query)} (hq : Justified root past q)
    (h : AllJustified root (past ++ [(fs, q)]) asked) :
    AllJustified root past ((fs, q) :: asked) := by
  intro before fs' q' after heq
  cases before with
  | nil =>
    obtain ⟨hhead, -⟩ := List.cons.inj heq
    cases hhead
    rwa [List.append_nil]
  | cons a before =>
    obtain ⟨rfl, htail⟩ := List.cons.inj heq
    have hlater := h before fs' q' after htail
    rwa [List.append_assoc, List.singleton_append] at hlater

/-- The children of a directory that was opened and is now listed are found. -/
theorem JustOpened.foundIn {q : Path} {names : List Text} (h : JustOpened past p)
    (hlist : FileSystem.list fs p = .ok names) (hq : q ∈ children p names) :
    FoundIn (past ++ [(fs, .list p)]) q := by
  obtain ⟨earlier, fs', rfl, hdir⟩ := h
  obtain ⟨n, hn, rfl⟩ := List.mem_map.mp hq
  exact ⟨fs', fs, p, names, n, by simp, hdir, by simp, hlist, Text.mem_sort.mp hn, rfl⟩

/-- **A walk has a reason for each question**, if it has one for the paths that are pending and
has just opened the directory that is to be listed. -/
theorem allJustified_along (root : Path) (past : List (σ × Query)) (fss : List σ) (w : Walk)
    (hpending : ∀ p ∈ w.pending, p = root ∨ FoundIn past p)
    (hopened : ∀ p ∈ w.opened, JustOpened past p) :
    AllJustified root past (along fss w).asked := by
  induction fss, w using along_induction generalizing past with
  | suspended w => exact .nil
  | finished fs later => exact .nil
  | nul fs later p rest hn =>
    rw [along_nul hn]
    exact .cons (hpending p List.mem_cons_self) .nil
  | looked fs later p rest hn ih =>
    rw [along_looked hn]
    refine .cons (hpending p List.mem_cons_self) (ih _ ?_ ?_)
    · intro q hq
      exact (hpending q (List.mem_cons_of_mem p hq)).imp_right fun hfound => hfound.later _
    · intro q hq
      obtain ⟨rfl, hdir⟩ := mem_openedAt.mp hq
      exact ⟨past, fs, rfl, hdir⟩
  | unlisted fs later p rest e hl ih =>
    rw [along_unlisted hl]
    refine .cons (hopened p rfl) (ih _ ?_ (by simp))
    intro q hq
    exact (hpending q hq).imp_right fun hfound => hfound.later _
  | listed fs later p rest names hl ih =>
    rw [along_listed hl]
    refine .cons (hopened p rfl) (ih _ ?_ (by simp))
    intro q hq
    rcases List.mem_append.mp hq with hq | hq
    · exact .inr ((hopened p rfl).foundIn hl hq)
    · exact (hpending q hq).imp_right fun hfound => hfound.later _

/-! ## Within the root -/

/-- **A walk never leaves its root**, as long as listings hold only names of entries. -/
theorem encloses_of_asked (hnames : ∀ fs ∈ fss, FileSystem.NamesEntries fs) :
    ∀ a ∈ (along fss (start root)).asked, root.Encloses a.2.path := by
  have hinside := asked_induction root.Encloses root.Encloses fss (start root)
    (by simpa [start] using root.encloses_refl) (by simp [start]) (fun _ _ _ hp _ => hp) ?_
  · rintro ⟨fs, q⟩ ha
    cases q with
    | lstat p => exact hinside.1 p (List.mem_filterMap.mpr ⟨_, ha, rfl⟩)
    | list p => exact hinside.2 p (Trace.mem_lists.mpr ⟨fs, ha⟩)
  · intro fs p names hasked hp hl n hn
    have hentry := hnames fs (mem_of_asked hasked) p names hl n hn
    exact hp.trans (p.encloses_child hentry)

end Walk

namespace Scan

/-! ## Calls -/

section Calls

variable {σ α : Type} [FileSystem σ] {tester : Tester α} {settings : Settings} {root : Path}
  {budget : Nat} {s : Scan σ α} {executable : Path} {asked : List (σ × Query)} {es : List Event}

/-- Whether each call is one of the executable on a path where the last question before it has
found a regular file. -/
def CallsFiles (executable : Path) (asked : List (σ × Query)) (es : List Event) : Prop :=
  ∀ before x p after, es = before ++ .called x p :: after → x = executable ∧
    ∃ past fs later, asked = past ++ (fs, .lstat p) :: later ∧
      Event.queries before = past.map (·.2) ++ [.lstat p] ∧ FileSystem.lstat fs p = .ok .file

theorem callsFiles_of_calls (h : Event.calls es = []) : CallsFiles executable asked es := by
  rintro before x p after rfl
  simp at h

/-- Where events in two parts are parted at an event, it is in the second part or in the first. -/
theorem parted_append {es es' before after : List Event} {e : Event}
    (h : es ++ es' = before ++ e :: after) :
    (∃ between, before = es ++ between ∧ es' = between ++ e :: after) ∨
      ∃ between, es = before ++ e :: between ∧ after = between ++ es' := by
  rcases List.append_eq_append_iff.mp h with ⟨between, hbefore, hes'⟩ | ⟨between, hes, hafter⟩
  · exact .inl ⟨between, hbefore, hes'⟩
  · cases between with
    | nil => exact .inl ⟨[], by simp [hes], by simp [hafter]⟩
    | cons e' between =>
      obtain ⟨rfl, htail⟩ := List.cons.inj hafter
      exact .inr ⟨between, hes, htail⟩

theorem CallsFiles.append {more : List (σ × Query)} {es' : List Event}
    (h : CallsFiles executable asked es) (hes : Event.queries es = asked.map (·.2))
    (h' : CallsFiles executable more es') :
    CallsFiles executable (asked ++ more) (es ++ es') := by
  intro before x p after heq
  rcases parted_append heq with ⟨between, rfl, heq'⟩ | ⟨between, heq', -⟩
  · obtain ⟨hx, past, fs, later, rfl, hpast, hfile⟩ := h' between x p after heq'
    refine ⟨hx, asked ++ past, fs, later, by simp, ?_, hfile⟩
    rw [Event.queries_append, hes, hpast, List.map_append, List.append_assoc]
  · obtain ⟨hx, past, fs, later, rfl, hpast, hfile⟩ := h before x p between heq'
    exact ⟨hx, past, fs, later ++ more, by simp, hpast, hfile⟩

/-- Events with one call can be parted at a call in one way only. -/
theorem parted_at_call {before before' after after' : List Event} {x x' p p' : Path}
    (h : before ++ .called x p :: after = before' ++ .called x' p' :: after')
    (hbefore : Event.calls before = []) (hafter : Event.calls after = []) :
    before' = before ∧ x' = x ∧ p' = p := by
  rcases List.append_eq_append_iff.mp h with ⟨between, rfl, heq⟩ | ⟨between, rfl, heq⟩
  · cases between with
    | nil =>
      obtain ⟨hcall, -⟩ := List.cons.inj heq
      cases hcall
      exact ⟨List.append_nil _, rfl, rfl⟩
    | cons c between =>
      obtain ⟨-, rfl⟩ := List.cons.inj heq
      simp at hafter
  · cases between with
    | nil =>
      obtain ⟨hcall, -⟩ := List.cons.inj heq
      cases hcall
      exact ⟨(List.append_nil _).symm, rfl, rfl⟩
    | cons c between =>
      obtain ⟨rfl, -⟩ := List.cons.inj heq
      simp at hbefore

/-- A test is for a file that has just been looked at. -/
theorem callsFiles_chosen {qs : List Query} {e : Entry} {w : Walk}
    (h : s.walk.resume s.fs = (qs, .entry e w)) (hc : settings.chooses e = true)
    {more : List Event} (hmore : Event.calls more = []) :
    CallsFiles settings.executable (qs.map (s.fs, ·))
      (qs.map .asked ++
        .reached e :: (testing tester settings.executable s e.path ++ more)) := by
  obtain ⟨-, hfile, ⟨past, hpast⟩, -⟩ :=
    (Walk.round_of_resume h).file (Settings.isRegular_of_chooses hc)
  intro before x p after heq
  have hparts : qs.map .asked ++
      .reached e :: (testing tester settings.executable s e.path ++ more) =
      (qs.map .asked ++ .reached e :: .printed e.path.text ::
        (tester.announce settings.executable e.path).map .noted) ++
        .called settings.executable e.path ::
          ((tester.reply settings.executable e.path
            (attemptAt tester s.script 0).outcome).notices.map .noted ++ more) := by
    simp [testing, Tester.perform]
  rw [hparts] at heq
  obtain ⟨rfl, rfl, rfl⟩ := parted_at_call heq (by simp) (by simpa using hmore)
  refine ⟨rfl, past.map (s.fs, ·), s.fs, [], ?_, ?_, hfile⟩
  · rw [← hpast, List.map_append, List.map_singleton]
  · simp [← hpast, Function.comp_def]

theorem asked_of_ended {qs : List Query} {e : Entry} {w : Walk} {r : ScanEnd}
    (h : s.walk.resume s.fs = (qs, .entry e w))
    (hs : s.step tester settings root = (es, .ended r)) :
    (walked tester settings root (budget + 1) s).asked = qs.map (s.fs, ·) := by
  rw [walked_ended hs]
  simp [Walk.along, h]

/-- **Each call of a scan is for a file** that has just been looked at. -/
theorem callsFiles_course (tester : Tester α) (settings : Settings) (root : Path) (budget : Nat)
    (s : Scan σ α) :
    CallsFiles settings.executable (walked tester settings root budget s).asked
      (course tester settings root budget s).1 := by
  induction budget, s using @course_induction σ α _ tester settings with
  | unfinished s => exact callsFiles_of_calls rfl
  | finished budget s qs h =>
    rw [course_ended (step_finished h)]
    exact callsFiles_of_calls (by simp)
  | fault budget s qs f h =>
    rw [course_ended (step_fault h)]
    exact callsFiles_of_calls (by simp)
  | passedOver budget s qs e w h hc ih =>
    rw [course_going (step_passedOver h hc), walked_going h (step_passedOver h hc)]
    refine CallsFiles.append (callsFiles_of_calls ?_) ?_ ih
    · simp
    · simp [Function.comp_def]
  | broken budget s qs e w f h hc hv =>
    rw [course_ended (step_broken h hc hv), asked_of_ended h (step_broken h hc hv),
      ← List.append_nil (testing _ _ _ _)]
    exact callsFiles_chosen h hc rfl
  | failed budget s qs e w result failure h hc hv hf =>
    rw [course_ended (step_failed h hc hv hf), asked_of_ended h (step_failed h hc hv hf),
      List.append_assoc (testing _ _ _ _)]
    exact callsFiles_chosen h hc (by simp)
  | passed budget s qs e w result h hc hv hf ih =>
    rw [course_going (step_passed h hc hv hf), walked_going h (step_passed h hc hv hf)]
    refine CallsFiles.append (callsFiles_chosen h hc (by simp)) ?_ ih
    simp [Function.comp_def]

end Calls

end Scan

/-! ## Two file systems with the same inside -/

/-- Whether two file systems, maybe of different kinds, give the same answers about `root` and
the paths below it.  Outside, and at the end of links, they may be anything. -/
def SameBelow {σ σ' : Type} [FileSystem σ] [FileSystem σ'] (root : Path) (fs : σ) (fs' : σ') :
    Prop :=
  ∀ p, root.Encloses p → SameAt fs fs' p

namespace Scan

variable {σ σ' α : Type} [FileSystem σ] [FileSystem σ'] {tester : Tester α}
  {settings : Settings} {root : Path} {script : List (Attempt σ α)}
  {script' : List (Attempt σ' α)}

/-- Whether two attempts have the same outcome, and keep the insides of two file systems the
same if they were. -/
structure SameInside (root : Path) (a : Attempt σ α) (a' : Attempt σ' α) : Prop where
  outcome : a.outcome = a'.outcome
  change : ∀ fs fs', SameBelow root fs fs' → SameBelow root (a.change fs) (a'.change fs')

theorem sameInside_attemptAt (tester : Tester α)
    (h : List.Forall₂ (SameInside root) script script') :
    SameInside root (attemptAt tester script 0) (attemptAt tester script' 0) := by
  cases h with
  | nil => exact ⟨rfl, fun fs fs' hsame => hsame⟩
  | cons hhead htail => exact hhead

/-- Two scans that have come equally far within `root`, with the same inside and the same
attempts to come. -/
structure EquallyFar (root : Path) (s : Scan σ α) (s' : Scan σ' α) : Prop where
  walk : s.walk = s'.walk
  tested : s.tested = s'.tested
  script : List.Forall₂ (SameInside root) s.script s'.script
  within : ∀ q, s.walk.Ahead q → root.Encloses q
  names : ∀ fs ∈ stages s.fs s.script, FileSystem.NamesEntries fs
  same : SameBelow root s.fs s'.fs

namespace EquallyFar

variable {s : Scan σ α} {s' : Scan σ' α} {qs : List Query} {e : Entry} {w : Walk}

theorem start {fs : σ} {fs' : σ'} (hsame : SameBelow root fs fs')
    (hscript : List.Forall₂ (SameInside root) script script')
    (hnames : ∀ fs₁ ∈ stages fs script, FileSystem.NamesEntries fs₁) :
    EquallyFar root (start fs root script) (start fs' root script') where
  walk := rfl
  tested := rfl
  script := hscript
  within _ hq := Walk.ahead_start.mp hq
  names := hnames
  same := hsame

theorem names_opened (h : EquallyFar root s s') :
    s.walk.ListsNext s.fs fun names => ∀ n ∈ names, n.IsEntryName :=
  fun p _ => h.names s.fs (mem_stages_self s.fs s.script) p

/-- The next round is the same, since it asks only about what is ahead. -/
theorem resume_eq (h : EquallyFar root s s') : s.walk.resume s.fs = s'.walk.resume s'.fs := by
  rw [← h.walk]
  exact Walk.resume_congr (fun q hq => h.same q (h.within q hq)) h.names_opened

theorem within_next (h : EquallyFar root s s') (hr : s.walk.resume s.fs = (qs, .entry e w)) :
    ∀ q, w.Ahead q → root.Encloses q :=
  fun q hq => h.within q ((Walk.round_of_resume hr).ahead h.names_opened hq)

theorem passedOver (h : EquallyFar root s s') (hr : s.walk.resume s.fs = (qs, .entry e w)) :
    EquallyFar root { s with walk := w } { s' with walk := w } where
  walk := rfl
  tested := h.tested
  script := h.script
  within := h.within_next hr
  names := h.names
  same := h.same

theorem passed (tester : Tester α) (h : EquallyFar root s s')
    (hr : s.walk.resume s.fs = (qs, .entry e w)) :
    EquallyFar root (s.afterTest tester w e.path) (s'.afterTest tester w e.path) where
  walk := rfl
  tested := congrArg (· ++ [e.path]) h.tested
  script := forall₂_tail h.script
  within := h.within_next hr
  names fs hfs := h.names fs (mem_stages_of_tail hfs)
  same := (sameInside_attemptAt tester h.script).change s.fs s'.fs h.same

end EquallyFar

theorem lockstep_equallyFar (tester : Tester α) (settings : Settings) (root : Path) :
    Lockstep tester settings fun _ (s : Scan σ α) (s' : Scan σ' α) => EquallyFar root s s' where
  resume _ _ _ h := h.resume_eq
  tested _ _ _ h := h.tested
  outcome _ _ _ h := (sameInside_attemptAt tester h.script).outcome
  passedOver _ _ _ _ _ _ h hr _ := h.passedOver hr
  passed _ _ _ _ _ _ _ h hr _ _ _ := h.passed tester hr

/-- **What is outside does not matter.** -/
theorem run_congr_of_sameBelow (tester : Tester α) (settings : Settings) (root : Path)
    (budget : Nat) {fs : σ} {fs' : σ'} (hsame : SameBelow root fs fs')
    (hscript : List.Forall₂ (SameInside root) script script')
    (hnames : ∀ fs₁ ∈ stages fs script, FileSystem.NamesEntries fs₁) :
    run tester settings root budget fs script = run tester settings root budget fs' script' := by
  have hcourse := (lockstep_equallyFar tester settings root).course_eq root budget _ _
    (EquallyFar.start hsame hscript hnames)
  rw [run_eq_course, run_eq_course, hcourse]

end Scan

/-- Tests that edit disks leave them with the same inside. -/
theorem Disk.sameInside_script {α : Type} (root : Path) (runs : List (Edits × α)) :
    List.Forall₂ (Scan.SameInside root) (script runs) (script runs) := by
  refine List.forall₂_same.mpr fun a ha => ?_
  obtain ⟨run, -, rfl⟩ := List.mem_map.mp ha
  exact ⟨rfl, fun d d' hsame p hp => sameAt_apply (hsame p hp) run.1⟩

namespace Scan

/-! ## The whole statement -/

section Confined

variable {σ α : Type} [FileSystem σ]

/-- Whether a scan with these events, and this walk inside it, has kept to its root: the
questions are those of the walk, each about the root or a path below it that names of entries
lead to, and each with a reason; and each call is on a file. -/
structure Confined (executable root : Path) (t : Walk.Trace σ) (es : List Event) : Prop where
  queries : Event.queries es = t.asked.map (·.2)
  within : ∀ a ∈ t.asked, root.Encloses a.2.path
  justified : Walk.AllJustified root [] t.asked
  calls : CallsFiles executable t.asked es

/-- **A scan keeps to its root.**  If listings hold only names of entries, a scan asks only
about its root and paths below it, looks at no path that it has not found in a directory, lists
nothing but directories, calls the executable on nothing but files, and looks at what is there
itself, not at the end of a link.  Hence it is the same in every other file system with the same
inside, whatever is different outside and whatever links point to, with tests that have the same
outcomes and keep the insides the same; for disks, with tests that make the same edits. -/
theorem run_confined (tester : Tester α) (settings : Settings) (root : Path) (budget : Nat)
    (fs : σ) (script : List (Attempt σ α))
    (hnames : ∀ fs₁ ∈ stages fs script, FileSystem.NamesEntries fs₁) :
    Confined settings.executable root
      (walked tester settings root budget (start fs root script))
      (run tester settings root budget fs script).1 ∧
    (∀ (σ' : Type) [FileSystem σ'] (fs' : σ') (script' : List (Attempt σ' α)),
      SameBelow root fs fs' → List.Forall₂ (SameInside root) script script' →
      run tester settings root budget fs script =
        run tester settings root budget fs' script') ∧
    (∀ (d d' : Disk) (runs : List (Disk.Edits × α)),
      (∀ d₁ ∈ stages d (Disk.script runs), FileSystem.NamesEntries d₁) → SameBelow root d d' →
      run tester settings root budget d (Disk.script runs) =
        run tester settings root budget d' (Disk.script runs)) := by
  refine ⟨⟨?_, ?_, ?_, ?_⟩, ?_, ?_⟩
  · rw [run_eq_course]
    exact queries_course tester settings root (start fs root script) budget
  · have hmet := met_subset_stages tester settings root budget (start fs root script)
    exact Walk.encloses_of_asked fun fs₁ h => hnames fs₁ (hmet fs₁ h)
  · refine Walk.allJustified_along root [] _ (Walk.start root) ?_ ?_
    · intro p hp
      exact .inl (List.mem_singleton.mp hp)
    · simp [Walk.start]
  · rw [run_eq_course]
    -- the heading is no call
    have hcalls := callsFiles_course tester settings root budget (start fs root script)
    have hheading : CallsFiles settings.executable ([] : List (σ × Query))
        [.printed (Report.heading root)] := callsFiles_of_calls rfl
    exact hheading.append rfl hcalls
  · intro σ' _ fs' script' hsame hscript
    exact run_congr_of_sameBelow tester settings root budget hsame hscript hnames
  · intro d d' runs hdisks hsame
    exact run_congr_of_sameBelow tester settings root budget hsame
      (Disk.sameInside_script root runs) hdisks

end Confined

/-! ### Two small disks with the same inside -/

/-- A directory with a file and a link, and one more node outside. -/
def linkedDisk (target : Text) (beyond : Node) : Disk :=
  Disk.empty.set
    [("r", { kind := .dir, names := ["l.chm", "a.chm"] }),
      ("r/a.chm", { kind := .file }),
      ("r/l.chm", { kind := .symlink, target := target }),
      ("etc", beyond)]

theorem sameBelow_linkedDisk (target target' : Text) (beyond beyond' : Node) :
    SameBelow Disk.sampleRoot (linkedDisk target beyond) (linkedDisk target' beyond') := by
  intro p hp
  have houtside : p.text ≠ "etc" := by
    intro htext
    have hunder := hp.isUnder
    rw [← p.ofText_text, htext] at hunder
    exact absurd hunder (by decide)
  refine Disk.sameAt_of_seen ?_
  rw [linkedDisk, linkedDisk, Disk.node?_set, Disk.node?_set]
  by_cases hlink : p.text = "r/l.chm"
  · rw [hlink]
    rfl
  · simp [List.find?_cons, Ne.symm houtside, Ne.symm hlink]

/-- A test that removes the node outside. -/
def removesBeyond : List (Disk.Edits × Except Fault TestResult) :=
  [({ deleted := ["etc"] }, .ok {})]

/-- The link may lead to a file outside, or back to the root, and the node outside may list what
no directory can: the scan is the same. -/
theorem linkedDisk_confined :
    let script := Disk.script removesBeyond
    let d := linkedDisk "etc" { kind := .file }
    let d' := linkedDisk "r" { kind := .dir, names := ["..", "/"] }
    let r := run .prepared .default Disk.sampleRoot 9 d script
    Confined Settings.default.executable Disk.sampleRoot
        (walked .prepared .default Disk.sampleRoot 9 (start d Disk.sampleRoot script)) r.1 ∧
      r = run .prepared .default Disk.sampleRoot 9 d' script := by
  intro script d d' r
  have hd : d.Holds Node.NamesEntries := (Disk.holds_empty _).set (by decide)
  have hkept : ∀ a ∈ script, ∀ d₁ : Disk, d₁.Holds Node.NamesEntries →
      (a.change d₁).Holds Node.NamesEntries := by
    intro a ha d₁ hd₁
    rw [List.mem_singleton.mp ha]
    exact hd₁.apply (by simp)
  have hnames : ∀ d₁ ∈ stages d script, FileSystem.NamesEntries d₁ :=
    fun d₁ h => (forall_stages hd hkept d₁ h).namesEntries
  obtain ⟨hconfined, -, hdisks⟩ :=
    run_confined .prepared .default Disk.sampleRoot 9 d script hnames
  exact ⟨hconfined, hdisks d d' removesBeyond hnames (sameBelow_linkedDisk _ _ _ _)⟩

end Scan

end FileSweep
