import Mathlib.Data.List.Forall2
import FileSweep.Proofs.Account
import FileSweep.Proofs.Places

/-!
# Scans of a tree in two places

Where a tree is, and how the path of its root is written, has no part in a scan.  Scans of the
same tree below two roots, by tests with the same outcomes that change nothing, are the same step
by step, but for the paths that stand in what happens (`Event.Alike`): they test the files at the
same places, with the same verdicts, and end at the same place.

Both scans are followed at once.  What is kept is that they have come equally far
(`Scan.Alike`); then their next steps are of the same form, and lead on to scans that have come
equally far again.
-/

namespace FileSweep

/-! ## Scans -/

/-- Whether events are the same but for the places below two roots that they are about. -/
inductive Event.Alike (root root' : Path) : Event → Event → Prop
  | asked {q q' : Query} (h : Query.Alike root root' q q') : Alike root root' (.asked q) (.asked q')
  | reached {e e' : Entry} (h : Entry.Alike root root' e e') :
    Alike root root' (.reached e) (.reached e')
  /-- a line that speaks of no path -/
  | line (t : Text) : Alike root root' (.printed t) (.printed t)
  /-- a line that names a path -/
  | naming {p p' : Path} (before after : Text) (h : Path.SamePlace root root' p p') :
    Alike root root' (.printed (before ++ p.text ++ after)) (.printed (before ++ p'.text ++ after))
  | trouble {p p' : Path} {e e' : OsError} (h : Path.SamePlace root root' p p')
      (he : e.bare = e'.bare) :
    Alike root root' (.printed (Report.trouble p e)) (.printed (Report.trouble p' e'))
  | skipped {p p' : Path} {e e' : OsError} (h : Path.SamePlace root root' p p')
      (he : e.bare = e'.bare) :
    Alike root root' (.noted (.skipped p e)) (.noted (.skipped p' e'))
  | walkFinished (count : Nat) :
    Alike root root' (.noted (.walkFinished count root)) (.noted (.walkFinished count root'))
  | walkStopped {p p' : Path} (count : Nat) (h : Path.SamePlace root root' p p') :
    Alike root root' (.noted (.walkStopped count p)) (.noted (.walkStopped count p'))
  | called {p p' : Path} (executable : Path) (h : Path.SamePlace root root' p p') :
    Alike root root' (.called executable p) (.called executable p')

/-- Whether scans end in the same way: with the same places tested and failed, by the same
fault, or not at all. -/
inductive ScanEnd.Alike (root root' : Path) : ScanEnd → ScanEnd → Prop
  | summary {tested tested' : List Path} {failed failed' : Option Path}
      (htested : List.Forall₂ (Path.SamePlace root root') tested tested')
      (hfailed : Option.Rel (Path.SamePlace root root') failed failed') :
    Alike root root' (.summary ⟨root, tested, failed⟩) (.summary ⟨root', tested', failed'⟩)
  | fault (f : Fault) : Alike root root' (.fault f) (.fault f)
  | unfinished : Alike root root' .unfinished .unfinished

namespace Event

variable {root root' : Path}

theorem alike_calls {es es' : List Event} (h : List.Forall₂ (Alike root root') es es') :
    List.Forall₂ (fun c c' => c.1 = c'.1 ∧ Path.SamePlace root root' c.2 c'.2) (calls es)
      (calls es') := by
  refine List.rel_filterMap (fun e e' he => ?_) h
  cases he with
  | called executable h => exact .some ⟨rfl, h⟩
  | _ => exact .none

theorem alike_entries {es es' : List Event} (h : List.Forall₂ (Alike root root') es es') :
    List.Forall₂ (Entry.Alike root root') (entries es) (entries es') := by
  refine List.rel_filterMap (fun e e' he => ?_) h
  cases he with
  | reached h => exact .some h
  | _ => exact .none

theorem alike_asked {qs qs' : List Query} (h : List.Forall₂ (Query.Alike root root') qs qs') :
    List.Forall₂ (Alike root root') (qs.map .asked) (qs'.map .asked) := by
  rw [List.forall₂_map_left_iff, List.forall₂_map_right_iff]
  exact h.imp fun q q' hq => .asked hq

theorem alike_lines (root root' : Path) (ts : List Text) :
    List.Forall₂ (Alike root root') (ts.map .printed) (ts.map .printed) := by
  rw [List.forall₂_map_left_iff, List.forall₂_map_right_iff]
  exact List.forall₂_same.mpr fun t _ => .line t

theorem alike_heading (root root' : Path) :
    Alike root root' (.printed (Report.heading root)) (.printed (Report.heading root')) :=
  .naming "starting in '" "'" (.of_root root root')

theorem alike_path {p p' : Path} (h : Path.SamePlace root root' p p') :
    Alike root root' (.printed p.text) (.printed p'.text) := by
  simpa using Alike.naming [] [] h

theorem alike_failed {p p' : Path} (h : Path.SamePlace root root' p p') (failure : Text)
    (r : TestResult) :
    List.Forall₂ (Alike root root') ((Report.failed p failure r).map .printed)
      ((Report.failed p' failure r).map .printed) :=
  .cons (.naming ("failed with '" ++ failure ++ "' on '") "'" h) (alike_lines root root' _)

end Event

namespace Scan

variable {σ σ' : Type} {root root' : Path}

/-- A script of tests with the given results, none of which changes anything. -/
def quiet {α : Type} (results : List α) : List (Attempt σ α) := results.map fun r => ⟨id, r⟩

/-- The next outcome of a quiet script. -/
theorem attemptAt_quiet {α : Type} (tester : Tester α) (results : List α) :
    attemptAt tester (quiet results) 0 = (⟨id, results.headD tester.usual⟩ : Attempt σ α) := by
  cases results <;> rfl

/-- Which outcomes lie ready does not depend on the file system. -/
theorem outcomes_quiet (results : List (Except Fault TestResult)) :
    outcomes (quiet results : List (Attempt σ (Except Fault TestResult))) =
      outcomes (quiet results : List (Attempt σ' (Except Fault TestResult))) := by
  funext i
  unfold outcomes attemptAt quiet
  rw [List.getD_eq_getElem?_getD, List.getD_eq_getElem?_getD, List.getElem?_map,
    List.getElem?_map]
  cases results[i]? <;> rfl

theorem quiet_tail {α : Type} (results : List α) :
    (quiet results : List (Attempt σ α)).tail = quiet results.tail := by
  cases results <;> rfl

/-- Two scans that have come equally far below their roots, in file systems that do not change,
with the same results to come. -/
structure Alike (root root' : Path) (fs : σ) (fs' : σ')
    (s : Scan σ (Except Fault TestResult)) (s' : Scan σ' (Except Fault TestResult)) : Prop where
  fs : s.fs = fs
  fs' : s'.fs = fs'
  walk : Walk.Alike root root' s.walk s'.walk
  tested : List.Forall₂ (Path.SamePlace root root') s.tested s'.tested
  script : ∃ results, s.script = quiet results ∧ s'.script = quiet results

namespace Alike

variable {fs : σ} {fs' : σ'} {s : Scan σ (Except Fault TestResult)}
  {s' : Scan σ' (Except Fault TestResult)} {w w' : Walk} {p p' : Path}

theorem passedOver (h : Alike root root' fs fs' s s') (hw : Walk.Alike root root' w w') :
    Alike root root' fs fs' { s with walk := w } { s' with walk := w' } :=
  ⟨h.fs, h.fs', hw, h.tested, h.script⟩

theorem passed (h : Alike root root' fs fs' s s') (hw : Walk.Alike root root' w w')
    (hp : Path.SamePlace root root' p p') :
    Alike root root' fs fs' (s.afterTest .prepared w p) (s'.afterTest .prepared w' p') := by
  obtain ⟨results, hscript, hscript'⟩ := h.script
  unfold afterTest
  rw [hscript, hscript', attemptAt_quiet, attemptAt_quiet, quiet_tail, quiet_tail]
  exact ⟨h.fs, h.fs', hw, List.rel_append h.tested (.cons hp .nil), results.tail, rfl, rfl⟩

/-- The next test comes to the same at both places. -/
theorem verdictAt_eq (h : Alike root root' fs fs' s s') (executable : Path) (p p' : Path) :
    verdictAt .prepared executable s'.script 0 p' =
      verdictAt .prepared executable s.script 0 p := by
  obtain ⟨results, hscript, hscript'⟩ := h.script
  rw [verdictAt_prepared, verdictAt_prepared, hscript, hscript', attemptAt_quiet,
    attemptAt_quiet]

end Alike

theorem remark_alike {e e' : Entry} (h : Entry.Alike root root' e e') :
    List.Forall₂ (Event.Alike root root') (remark e) (remark e') := by
  unfold remark
  rcases h.error_cases with ⟨he, he'⟩ | ⟨x, x', he, he', hbare, hdenied⟩
  · rw [he, he']
    exact .nil
  · rw [he, he']
    dsimp only
    rw [hdenied]
    split
    · exact .cons (.skipped h.place hbare) .nil
    · exact .cons (.trouble h.place hbare) .nil

theorem testing_alike (s : Scan σ (Except Fault TestResult))
    (s' : Scan σ' (Except Fault TestResult)) (executable : Path) {p p' : Path}
    (h : Path.SamePlace root root' p p') :
    List.Forall₂ (Event.Alike root root') (testing .prepared executable s p)
      (testing .prepared executable s' p') :=
  .cons (Event.alike_path h) (.cons (.called executable h) .nil)

variable [FileSystem σ] [FileSystem σ'] {fs : σ} {fs' : σ'}
  (hroot : root.hasNul = false) (hroot' : root'.hasNul = false)
  (hsame : SameTree root root' fs fs')
include hroot hroot' hsame

theorem Alike.round {s : Scan σ (Except Fault TestResult)}
    {s' : Scan σ' (Except Fault TestResult)} (h : Alike root root' fs fs' s s') :
    Walk.RoundAlike root root' (s.walk.resume s.fs) (s'.walk.resume s'.fs) := by
  rw [h.fs, h.fs']
  exact Walk.resume_alike hroot hroot' hsame h.walk

variable (settings : Settings)

/-- **Scans of the same tree are alike.** -/
theorem course_alike (budget : Nat) (s : Scan σ (Except Fault TestResult))
    (s' : Scan σ' (Except Fault TestResult)) (h : Alike root root' fs fs' s s') :
    let r := course .prepared settings root budget s
    let r' := course .prepared settings root' budget s'
    List.Forall₂ (Event.Alike root root') r.1 r'.1 ∧ ScanEnd.Alike root root' r.2 r'.2 := by
  -- both scans take each step together, and the form of the one decides that of the other
  induction budget, s using @course_induction σ _ _ .prepared settings generalizing s' with
  | unfinished s => exact ⟨.nil, .unfinished⟩
  | finished budget s qs hr =>
    obtain ⟨qs', hr', hqs⟩ := (hr ▸ h.round hroot hroot' hsame).of_finished
    rw [course_ended (step_finished hr), course_ended (step_finished hr'), ← h.tested.length_eq]
    have hend : Event.Alike root root' _ _ := .walkFinished s.tested.length
    exact ⟨List.rel_append (Event.alike_asked hqs) (.cons hend .nil), .summary h.tested .none⟩
  | fault budget s qs f hr =>
    -- there is no NUL that could lead to a fault
    have hfault := h.round hroot hroot' hsame
    rw [hr] at hfault
    cases hfault
  | passedOver budget s qs e w hr hc ih =>
    obtain ⟨qs', e', w', hr', hqs, he, hw⟩ := (hr ▸ h.round hroot hroot' hsame).of_entry
    have hc' := (he.chooses settings).symm.trans hc
    obtain ⟨hevents, hend⟩ := ih _ (h.passedOver hw)
    rw [course_going (step_passedOver hr hc), course_going (step_passedOver hr' hc')]
    have hstep := List.rel_append (Event.alike_asked hqs) (.cons (.reached he) (remark_alike he))
    exact ⟨List.rel_append hstep hevents, hend⟩
  | broken budget s qs e w f hr hc hv =>
    obtain ⟨qs', e', w', hr', hqs, he, hw⟩ := (hr ▸ h.round hroot hroot' hsame).of_entry
    have hc' := (he.chooses settings).symm.trans hc
    have hv' := (h.verdictAt_eq settings.executable e.path e'.path).trans hv
    rw [course_ended (step_broken hr hc hv), course_ended (step_broken hr' hc' hv')]
    have htest := testing_alike s s' settings.executable he.place
    exact ⟨List.rel_append (Event.alike_asked hqs) (.cons (.reached he) htest), .fault f⟩
  | failed budget s qs e w result failure hr hc hv hf =>
    obtain ⟨qs', e', w', hr', hqs, he, hw⟩ := (hr ▸ h.round hroot hroot' hsame).of_entry
    have hc' := (he.chooses settings).symm.trans hc
    have hv' := (h.verdictAt_eq settings.executable e.path e'.path).trans hv
    rw [course_ended (step_failed hr hc hv hf), course_ended (step_failed hr' hc' hv' hf),
      ← h.tested.length_eq]
    have htest := testing_alike s s' settings.executable he.place
    have hreport := Event.alike_failed he.place failure result
    have hstopped : Event.Alike root root' _ _ := .walkStopped (s.tested.length + 1) he.place
    have htested := List.rel_append h.tested (.cons he.place .nil)
    refine ⟨List.rel_append (Event.alike_asked hqs) (.cons (.reached he) ?_),
      .summary htested (.some he.place)⟩
    exact List.rel_append (List.rel_append htest hreport) (.cons hstopped .nil)
  | passed budget s qs e w result hr hc hv hf ih =>
    obtain ⟨qs', e', w', hr', hqs, he, hw⟩ := (hr ▸ h.round hroot hroot' hsame).of_entry
    have hc' := (he.chooses settings).symm.trans hc
    have hv' := (h.verdictAt_eq settings.executable e.path e'.path).trans hv
    obtain ⟨hevents, hend⟩ := ih _ (h.passed hw he.place)
    rw [course_going (step_passed hr hc hv hf), course_going (step_passed hr' hc' hv' hf)]
    have htest := testing_alike s s' settings.executable he.place
    have hreport := Event.alike_lines root root' (Report.passed result)
    have hstep := List.rel_append (Event.alike_asked hqs)
      (.cons (.reached he) (List.rel_append htest hreport))
    exact ⟨List.rel_append hstep hevents, hend⟩

end Scan

/-! ## Fates -/

/-- Whether entries have the same fate, but for what errors are about. -/
inductive Fate.Alike : Fate → Fate → Prop
  | denied {e e' : OsError} (h : e.bare = e'.bare) : Alike (.denied e) (.denied e')
  | troubled {e e' : OsError} (h : e.bare = e'.bare) : Alike (.troubled e) (.troubled e')
  | passedOver : Alike .passedOver .passedOver
  | tested (verdict : Except Fault TestResult) : Alike (.tested verdict) (.tested verdict)

namespace Settings

variable {root root' : Path} (settings : Settings)

theorem fate_alike {e e' : Entry} (h : Entry.Alike root root' e e')
    (verdict : Except Fault TestResult) :
    (settings.fate verdict e).Alike (settings.fate verdict e') := by
  unfold fate
  rcases h.error_cases with ⟨he, he'⟩ | ⟨x, x', he, he', hbare, hdenied⟩
  · rw [he, he']
    dsimp only
    rw [h.hasExtension]
    split
    · exact .tested verdict
    · exact .passedOver
  · rw [he, he']
    dsimp only
    rw [hdenied]
    split
    · exact .denied hbare
    · exact .troubled hbare

theorem fates_alike {es es' : List Entry} (h : List.Forall₂ (Entry.Alike root root') es es')
    (verdicts : Nat → Except Fault TestResult) :
    List.Forall₂ (fun f f' => f.1.Alike root root' f'.1 ∧ f.2.Alike f'.2)
      (settings.fates verdicts es) (settings.fates verdicts es') := by
  induction h generalizing verdicts with
  | nil => exact .nil
  | cons he _ ih =>
    unfold fates
    rw [he.chooses settings]
    exact .cons ⟨he, settings.fate_alike he _⟩ (ih _)

end Settings

/-! ## The whole statement -/

/-- Whether two scans have gone the same way below their roots: what happened is the same, step
by step, in particular the calls; each entry had the same fate, with the outcome of its test if
it was tested; and both ended at the same place. -/
structure Scan.SameCourse (root root' : Path) (settings : Settings)
    (verdicts verdicts' : Nat → Except Fault TestResult) (r r' : List Event × ScanEnd) :
    Prop where
  events : List.Forall₂ (Event.Alike root root') r.1 r'.1
  calls : List.Forall₂ (fun c c' => c.1 = c'.1 ∧ Path.SamePlace root root' c.2 c'.2)
    (Event.calls r.1) (Event.calls r'.1)
  fates : List.Forall₂ (fun f f' => f.1.Alike root root' f'.1 ∧ f.2.Alike f'.2)
    (settings.fates verdicts (Event.entries r.1)) (settings.fates verdicts' (Event.entries r'.1))
  ending : ScanEnd.Alike root root' r.2 r'.2

/-- Whether walks and scans cannot tell one place from another: from `root` in one file system
and from `root'` in the other, neither of which changes, they go the same way. -/
structure ActsAlike {σ σ' : Type} [FileSystem σ] [FileSystem σ'] (root root' : Path) (fs : σ)
    (fs' : σ') : Prop where
  walks : ∀ rounds,
    let t := Walk.drive (fun _ => id) rounds fs root
    let t' := Walk.drive (fun _ => id) rounds fs' root'
    List.Forall₂ (Query.Alike root root') (t.asked.map (·.2)) (t'.asked.map (·.2)) ∧
      List.Forall₂ (Entry.Alike root root') t.entries t'.entries ∧ t.rest = t'.rest
  scans : ∀ (settings : Settings) (results : List (Except Fault TestResult)) (budget : Nat),
    let script : List (Attempt σ (Except Fault TestResult)) := Scan.quiet results
    let script' : List (Attempt σ' (Except Fault TestResult)) := Scan.quiet results
    Scan.SameCourse root root' settings (Scan.outcomes script) (Scan.outcomes script')
      (Scan.run .prepared settings root budget fs script)
      (Scan.run .prepared settings root' budget fs' script')

theorem SameTree.actsAlike {σ σ' : Type} [FileSystem σ] [FileSystem σ'] {root root' : Path}
    {fs : σ} {fs' : σ'} (h : SameTree root root' fs fs') (hroot : root.hasNul = false)
    (hroot' : root'.hasNul = false) : ActsAlike root root' fs fs' where
  walks rounds := by
    rw [Walk.drive_eq_along, Walk.drive_eq_along, Walk.states_id, Walk.states_id]
    exact Walk.along_alike hroot hroot' h rounds (.start root root')
  scans settings results budget := by
    intro script script'
    obtain ⟨hevents, hend⟩ := Scan.course_alike hroot hroot' h settings budget
      (Scan.start fs root script) (Scan.start fs' root' script')
      ⟨rfl, rfl, .start root root', .nil, results, rfl, rfl⟩
    have houtcomes : Scan.outcomes script = Scan.outcomes script' := Scan.outcomes_quiet results
    rw [Scan.run_eq_course, Scan.run_eq_course, houtcomes]
    have hall := List.Forall₂.cons (Event.alike_heading root root') hevents
    exact ⟨hall, Event.alike_calls hall, settings.fates_alike (Event.alike_entries hall) _, hend⟩

/-! ### Disks -/

/-- Whether a node names only files. -/
def Node.NamesFiles (n : Node) : Prop := ∀ name ∈ n.names, name.IsFileName

instance (n : Node) : Decidable n.NamesFiles := inferInstanceAs (Decidable (∀ _ ∈ _, _))

namespace Disk

variable {d d' : Disk} {root root' : Path}

/-- The same node gives the same answers, wherever it is. -/
theorem answers_alike {p p' : Path} (h : d.node? p.text = d'.node? p'.text) :
    (d.lstat p).mapError OsError.bare = (d'.lstat p').mapError OsError.bare ∧
      (d.list p).mapError OsError.bare = (d'.list p').mapError OsError.bare := by
  unfold Disk.lstat Disk.list
  rw [h]
  cases d'.node? p'.text with
  | none => exact ⟨rfl, rfl⟩
  | some n =>
    dsimp only
    unfold answer
    constructor
    · cases n.lstatRefused <;> rfl
    · cases n.listRefused <;> rfl

theorem sameTree (hnames : d.Holds Node.NamesFiles)
    (hnodes : ∀ c : List Text, (∀ n ∈ c, n.IsFileName) →
      d.node? (root.descend c).text = d'.node? (root'.descend c).text)
    (hdir : ∃ n, d.node? root.text = some n ∧ n.kind = .dir) : SameTree root root' d d' where
  lstat p p' h := by
    obtain ⟨c, hc, rfl, rfl⟩ := h
    exact (answers_alike (hnodes c hc)).1
  list p p' h := by
    obtain ⟨c, hc, rfl, rfl⟩ := h
    exact (answers_alike (hnodes c hc)).2
  names p p' names _ hlist := by
    obtain ⟨node, hnode, rfl⟩ := exists_node_of_list hlist
    exact hnames _ node hnode
  noFile hfile := by
    obtain ⟨node, hnode, hkind⟩ := hdir
    change d.lstat root = .ok .file at hfile
    simp only [Disk.lstat, hnode, hkind, answer] at hfile
    split at hfile <;> cases hfile

end Disk

/-- **The place of the root does not matter**, nor how it is written.  Let two file systems hold
the same tree, one below `root` and one below `root'`, both without a NUL: then walks report the
same entries and scans test the same files, with the same outcomes, up to the same place.  Disks
hold the same tree if the same names lead from both roots to the same nodes, the roots are
directories, and nodes name only files. -/
theorem place_of_root_irrelevant (root root' : Path) (hroot : root.hasNul = false)
    (hroot' : root'.hasNul = false) :
    (∀ (σ σ' : Type) [FileSystem σ] [FileSystem σ'] (fs : σ) (fs' : σ'),
      SameTree root root' fs fs' → ActsAlike root root' fs fs') ∧
    ∀ d d' : Disk, d.Holds Node.NamesFiles →
      (∀ c : List Text, (∀ n ∈ c, n.IsFileName) →
        d.node? (root.descend c).text = d'.node? (root'.descend c).text) →
      (∃ n, d.node? root.text = some n ∧ n.kind = .dir) → ActsAlike root root' d d' := by
  refine ⟨?_, ?_⟩
  · intro σ σ' _ _ fs fs' h
    exact h.actsAlike hroot hroot'
  · intro d d' hnames hnodes hdir
    exact (Disk.sameTree hnames hnodes hdir).actsAlike hroot hroot'

/-! ### A small tree in two places -/

namespace Disk

/-- The disk that holds a tree below `root`: nodes, with the names that lead to them. -/
def planted (root : Path) (tree : List (List Text × Node)) : Disk :=
  empty.set (tree.map fun t => ((root.descend t.1).text, t.2))

/-- What is found in a planted tree is decided by the names that lead there. -/
theorem node?_planted (root : Path) {tree : List (List Text × Node)}
    (htree : ∀ t ∈ tree, ∀ n ∈ t.1, n.IsPart) {c : List Text} (hc : ∀ n ∈ c, n.IsPart) :
    (planted root tree).node? (root.descend c).text =
      (tree.reverse.find? fun t => t.1 = c).map (·.2) := by
  have hreverse : ∀ t ∈ tree.reverse, ∀ n ∈ t.1, n.IsPart :=
    fun t ht => htree t (List.mem_reverse.mp ht)
  rw [planted, node?_set, node?_empty, Option.or_none, ← List.map_reverse]
  generalize tree.reverse = ts at hreverse
  induction ts with
  | nil => rfl
  | cons t ts ih =>
    obtain ⟨ht, hts⟩ := List.forall_mem_cons.mp hreverse
    have hkey := Path.text_descend_inj root ht hc
    rw [List.map_cons, List.find?_cons, List.find?_cons]
    by_cases h : t.1 = c
    · simp [h]
    · simpa [h, hkey] using ih hts

end Disk

/-- A directory with a file, a directory that cannot be listed, and a name behind which there is
nothing. -/
def smallTree : List (List Text × Node) :=
  [([], { kind := .dir, names := ["gone", "d", "a.chm"] }), (["a.chm"], { kind := .file }),
    (["d"], { kind := .dir, names := ["x.chm"], listRefused := some ⟨5, "no"⟩ })]

/-- The tree looks the same from the empty path and from a path with two slashes in front. -/
theorem smallTree_actsAlike :
    ActsAlike (.ofText ".") (.ofText "//x") (Disk.planted (.ofText ".") smallTree)
      (Disk.planted (.ofText "//x") smallTree) := by
  have hparts : ∀ t ∈ smallTree, ∀ n ∈ t.1, n.IsPart := by decide
  have hnames : (Disk.planted (.ofText ".") smallTree).Holds Node.NamesFiles :=
    (Disk.holds_empty _).set (List.forall_mem_map.mpr (by decide))
  obtain ⟨-, hdisks⟩ :=
    place_of_root_irrelevant (.ofText ".") (.ofText "//x") (by decide) (by decide)
  refine hdisks _ _ hnames (fun c hc => ?_) ?_
  · have hc' : ∀ n ∈ c, n.IsPart := fun n hn => (hc n hn).1.1
    rw [Disk.node?_planted _ hparts hc', Disk.node?_planted _ hparts hc']
  · exact ⟨_, Disk.node?_planted (.ofText ".") hparts (c := []) (by simp), rfl⟩

end FileSweep
