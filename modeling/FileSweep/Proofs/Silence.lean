import Mathlib
import FileSweep.Proofs.Account
import FileSweep.Proofs.Hush
import FileSweep.Proofs.Told

/-!
# What is skipped silently

If a walk loses silent entries, then a scan that takes it tells the same, but for notices that
paths were passed over: no line, no call and no notice of another kind is different, and each
test still makes the attempt that it made before (`Scan.tell_hushes`).  So a scan is not changed
by what lies at names below which all is silent, nor by directories that may not be listed.
-/

namespace FileSweep

/-! ## What is told of them -/

/-- Whether a notice says that a path was passed over. -/
def Notice.isSkip : Notice → Bool
  | skipped .. => true
  | _ => false

/-- Whether the second events are the first ones without some of the notices that paths were
passed over. -/
structure Event.FewerSkips (es es' : List Event) : Prop where
  others : without Notice.isSkip es = without Notice.isSkip es'
  fewer : es'.Sublist es

namespace Event.FewerSkips

variable {es es' : List Event}

theorem refl (es : List Event) : FewerSkips es es := ⟨rfl, List.Sublist.refl es⟩

theorem append_left (before : List Event) (h : FewerSkips es es') :
    FewerSkips (before ++ es) (before ++ es') where
  others := by rw [without_append, without_append, h.others]
  fewer := List.Sublist.append_left h.fewer before

/-- All notices of a kind to which the missing ones do not belong are the same. -/
theorem notices_eq (h : FewerSkips es es') {kind : Notice → Bool}
    (hkind : ∀ n : Notice, n.isSkip = true → kind n = false) :
    (notices es).filter kind = (notices es').filter kind := by
  rw [← filter_notices_without hkind es, h.others, filter_notices_without hkind es']

end Event.FewerSkips

namespace Scan

variable {σ α : Type} {settings : Settings}

theorem fewerSkips_remark {e : Entry} (he : settings.IsSilent e) {es es' : List Event}
    (h : Event.FewerSkips es es') : Event.FewerSkips (remark e ++ es) es' := by
  obtain ⟨-, hdenied⟩ := he
  unfold remark
  cases herror : e.error? with
  | none => exact h
  | some error =>
    show Event.FewerSkips ([if error.isDenied = true then _ else _] ++ es) es'
    rw [if_pos (hdenied error herror)]
    exact ⟨h.others, h.fewer.cons _⟩

/-- Silent entries make no difference to what is told but for notices that paths were passed
over, and none to how a scan ends. -/
theorem tell_hushes (tester : Tester α) (root : Path) (rest : Walk.Rest) {es es' : List Entry}
    (h : settings.Hushes es es') (script : List (Attempt σ α)) (tested : List Path) :
    let told := tell tester settings root rest script tested es
    let told' := tell tester settings root rest script tested es'
    Event.FewerSkips told.1 told'.1 ∧ told.2 = told'.2 := by
  -- an entry that is hushed makes no attempt, so the script is the same for what comes later
  induction h generalizing script tested with
  | nil => exact ⟨.refl _, rfl⟩
  | hush he h ih =>
    obtain ⟨htold, hend⟩ := ih script tested
    rw [tell_passedOver he.1]
    exact ⟨fewerSkips_remark he htold, hend⟩
  | keep e h ih =>
    cases hc : settings.chooses e with
    | false =>
      obtain ⟨htold, hend⟩ := ih script tested
      rw [tell_passedOver hc, tell_passedOver hc]
      exact ⟨htold.append_left _, hend⟩
    | true =>
      cases hv : verdictAt tester settings.executable script 0 e.path with
      | error f =>
        rw [tell_broken hc hv, tell_broken hc hv]
        exact ⟨.refl _, rfl⟩
      | ok result =>
        cases hf : result.failure with
        | some failure =>
          rw [tell_failed hc hv hf, tell_failed hc hv hf]
          exact ⟨.refl _, rfl⟩
        | none =>
          obtain ⟨htold, hend⟩ := ih script.tail (tested ++ [e.path])
          rw [tell_passed hc hv hf, tell_passed hc hv hf]
          exact ⟨htold.append_left _, hend⟩

/-- Whether two scans end alike, with the same lines and calls and the same notices, but for
those that paths were passed over, of which the second may have made fewer. -/
structure SameButSkips (r r' : List Event × ScanEnd) : Prop where
  ending : r.2 = r'.2
  stdout : Event.stdout r.1 = Event.stdout r'.1
  calls : Event.calls r.1 = Event.calls r'.1
  infos : (Event.notices r.1).filter (·.level = .info) =
    (Event.notices r'.1).filter (·.level = .info)
  others : (Event.notices r.1).filter (!·.isSkip) = (Event.notices r'.1).filter (!·.isSkip)
  fewer : (Event.notices r'.1).Sublist (Event.notices r.1)

theorem sameButSkips_of_told {r r' : List Event × ScanEnd}
    (h : Event.FewerSkips (Event.told r.1) (Event.told r'.1)) (hend : r.2 = r'.2) :
    SameButSkips r r' where
  ending := hend
  stdout := by
    rw [← Event.stdout_told, ← Event.stdout_without, h.others, Event.stdout_without,
      Event.stdout_told]
  calls := by
    rw [← Event.calls_told, ← Event.calls_without, h.others, Event.calls_without,
      Event.calls_told]
  infos := by
    have hinfo : ∀ n : Notice, n.isSkip = true → decide (n.level = .info) = false := by
      intro n hn
      cases n <;> first | rfl | cases hn
    rw [← Event.notices_told, h.notices_eq hinfo, Event.notices_told]
  others := by
    rw [← Event.notices_told, h.notices_eq (by simp), Event.notices_told]
  fewer := by
    rw [← Event.notices_told, ← Event.notices_told r.1]
    exact h.fewer.filterMap _

end Scan

/-! ## Scans -/

namespace Scan

variable {σ α : Type} [FileSystem σ] {settings : Settings} {fs fs' : σ} {root : Path}
  {script : List (Attempt σ α)}

theorem sameButSkips_run (tester : Tester α) (hstill : ∀ a ∈ script, a.change = id)
    {budget budget' : Nat}
    (h : Walk.Trace.Hushes settings (Walk.along (List.replicate budget fs) (.start root))
      (Walk.along (List.replicate budget' fs') (.start root))) :
    SameButSkips (run tester settings root budget fs script)
      (run tester settings root budget' fs' script) := by
  obtain ⟨htold, hend⟩ := told_run tester settings root budget fs hstill
  obtain ⟨htold', hend'⟩ := told_run tester settings root budget' fs' hstill
  obtain ⟨htell, htellEnd⟩ := tell_hushes tester root
    (Walk.along (List.replicate budget fs) (.start root)).rest h.entries script []
  rw [← h.rest] at htold' hend'
  refine sameButSkips_of_told ?_ (hend.trans (htellEnd.trans hend'.symm))
  rw [htold, htold']
  exact htell.append_left [_]

/-- In a finite tree a scan in which nothing changes comes to its end. -/
theorem exists_budget_of_still (tester : Tester α) (settings : Settings)
    (hstill : ∀ a ∈ script, a.change = id) (hroot : root.hasNul = true ∨ FiniteTree fs root) :
    ∃ budget, (run tester settings root budget fs script).2 ≠ .unfinished := by
  have hrest : ∃ n, (Walk.along (List.replicate n fs) (.start root)).rest ≠ .suspended := by
    rcases hroot with hnul | htree
    · exact ⟨1, by simp [Walk.start, Walk.along_nul hnul]⟩
    · obtain ⟨t, ht⟩ := Walk.exists_completes htree
      obtain ⟨n, -, hrest⟩ := ht.exists_along
      exact ⟨n, by simp [hrest]⟩
  obtain ⟨n, hrest⟩ := hrest
  obtain ⟨-, hend⟩ := told_run tester settings root n fs hstill
  exact ⟨n, fun hun => tell_ne_unfinished hrest (hend.symm.trans hun)⟩

/-- **What is skipped silently leaves no trace.**  If a listing loses a name below which all is
silent, or becomes empty where it was denied, then a scan in which nothing changes ends in the
same way, with the same lines, calls and notices, but for notices that paths were passed over:
whatever one scan does within some number of steps, the other one does within some number.  In
a finite tree, and with a root that no question can be asked about, both come to their end. -/
theorem silence_leaves_no_trace (tester : Tester α) (settings : Settings) (root : Path)
    (fs fs' : σ) (dir : Path) (script : List (Attempt σ α))
    (hstill : ∀ a ∈ script, a.change = id) (hquiet : settings.Quiets fs fs' dir) :
    let scan := fun (fs : σ) (budget : Nat) => run tester settings root budget fs script
    (∀ budget, ∃ budget', SameButSkips (scan fs budget) (scan fs' budget')) ∧
      (∀ budget', ∃ budget, SameButSkips (scan fs budget) (scan fs' budget')) ∧
      (root.hasNul = true ∨ FiniteTree fs root → ∃ enough, ∀ budget ≥ enough,
        (scan fs budget).2 ≠ .unfinished ∧ SameButSkips (scan fs budget) (scan fs' budget)) := by
  intro scan
  have hled : ∀ budget, ∃ budget', SameButSkips (scan fs budget) (scan fs' budget') := by
    intro budget
    obtain ⟨budget', h⟩ := Walk.led hquiet budget none _ _ (.refl [root])
    exact ⟨budget', sameButSkips_run tester hstill h⟩
  refine ⟨hled, ?_, ?_⟩
  · intro budget'
    obtain ⟨budget, h⟩ := Walk.followed hquiet budget' none _ _ (.refl [root])
    exact ⟨budget, sameButSkips_run tester hstill h⟩
  · intro hroot
    obtain ⟨budget, hends⟩ := exists_budget_of_still tester settings hstill hroot
    obtain ⟨budget', hsame⟩ := hled budget
    have hends' : (scan fs' budget').2 ≠ .unfinished := hsame.ending ▸ hends
    refine ⟨max budget budget', fun enough hle => ?_⟩
    have hscan : scan fs enough = scan fs budget :=
      runFrom_of_le tester settings root (le_of_max_le_left hle) _ _ hends
    have hscan' : scan fs' enough = scan fs' budget' :=
      runFrom_of_le tester settings root (le_of_max_le_right hle) _ _ hends'
    rw [hscan, hscan']
    exact ⟨hends, hsame⟩

end Scan

/-! ## A disk with a denied directory -/

namespace Disk

/-- A node of the same kind changes no answer but what is listed there. -/
theorem answers_set {d : Disk} {dir : Path} {node : Node} (node' : Node)
    (hnode : d.node? dir.text = some node) (hkind : node'.kind = node.kind)
    (hrefused : node'.lstatRefused = node.lstatRefused) :
    (∀ p, FileSystem.lstat (d.set [(dir.text, node')]) p = FileSystem.lstat d p) ∧
      ∀ p, p ≠ dir → FileSystem.list (d.set [(dir.text, node')]) p = FileSystem.list d p := by
  constructor
  · intro p
    show (d.set [(dir.text, node')]).lstat p = d.lstat p
    by_cases hkey : dir.text = p.text
    · simp [lstat, node?_set, ← hkey, hnode, hkind, hrefused]
    · simp [lstat, node?_set, hkey]
  · intro p hp
    have hkey : dir.text ≠ p.text := fun he => hp (Path.text_inj.mp he).symm
    show (d.set [(dir.text, node')]).list p = d.list p
    simp [list, node?_set, hkey]

end Disk

namespace Scan

/-- The denied directory of the troubled disk. -/
def deniedDir : Path := Disk.sampleRoot.child "b"

/-- The root of the troubled disk without that directory. -/
def rootWithoutDenied : Node := { kind := .dir, names := ["e.txt", "d.chm", "c", "a.chm"] }

/-- The walk through the denied directory alone. -/
def deniedWalk : Walk.Trace Disk := Walk.drive (fun _ => id) 9 troubledDisk deniedDir

set_option maxRecDepth 4000 in
theorem silent_deniedWalk : ∀ e ∈ deniedWalk.entries, Settings.default.IsSilent e := by
  have hall : deniedWalk.entries.all (fun e => decide (Settings.default.IsSilent e)) = true := by
    cbv
  simpa using hall

theorem quiets_without_denied :
    Settings.default.Quiets troubledDisk
      (troubledDisk.set [(Disk.sampleRoot.text, rootWithoutDenied)]) Disk.sampleRoot := by
  have hnode : troubledDisk.node? Disk.sampleRoot.text =
      some { kind := .dir, names := ["e.txt", "d.chm", "c", "b", "a.chm"] } := by cbv
  obtain ⟨hlstat, hlist⟩ := Disk.answers_set rootWithoutDenied hnode rfl rfl
  have hover : Settings.default.PassesOver troubledDisk deniedDir :=
    ⟨deniedWalk, ⟨by cbv, 9, rfl⟩, silent_deniedWalk⟩
  exact ⟨hlstat, hlist, .inl ⟨_, "b", by cbv, by cbv, hover⟩⟩

theorem quiets_denied_empty :
    Settings.default.Quiets troubledDisk
      (troubledDisk.set [(deniedDir.text, { kind := .dir })]) deniedDir := by
  have hnode : troubledDisk.node? deniedDir.text =
      some { kind := .dir, listRefused := some ⟨13, "Permission denied"⟩ } := by cbv
  obtain ⟨hlstat, hlist⟩ := Disk.answers_set { kind := .dir } hnode rfl rfl
  exact ⟨hlstat, hlist, .inr ⟨_, by cbv, by cbv, by cbv⟩⟩

/-- Neither the denied directory nor its denied listing is missed in the scan of the troubled
disk. -/
theorem troubledDisk_silence :
    let scan := fun (d : Disk) (budget : Nat) =>
      run .prepared .default Disk.sampleRoot budget d printsAndFails
    let without := troubledDisk.set [(Disk.sampleRoot.text, rootWithoutDenied)]
    let emptied := troubledDisk.set [(deniedDir.text, { kind := .dir })]
    ∃ enough, (scan troubledDisk enough).2 ≠ .unfinished ∧
      SameButSkips (scan troubledDisk enough) (scan without enough) ∧
      SameButSkips (scan troubledDisk enough) (scan emptied enough) := by
  intro scan without emptied
  have hstill : ∀ a ∈ printsAndFails, a.change = id := by simp [printsAndFails]
  have htree : FiniteTree troubledDisk Disk.sampleRoot :=
    Disk.finiteTree wellNamed_troubledDisk (by decide)
  obtain ⟨-, -, hends⟩ := silence_leaves_no_trace .prepared .default Disk.sampleRoot
    troubledDisk without Disk.sampleRoot printsAndFails hstill quiets_without_denied
  obtain ⟨-, -, hends'⟩ := silence_leaves_no_trace .prepared .default Disk.sampleRoot
    troubledDisk emptied deniedDir printsAndFails hstill quiets_denied_empty
  obtain ⟨enough, hsame⟩ := hends (.inr htree)
  obtain ⟨enough', hsame'⟩ := hends' (.inr htree)
  have hwithout := hsame (max enough enough') (le_max_left enough enough')
  have hemptied := hsame' (max enough enough') (le_max_right enough enough')
  exact ⟨max enough enough', hwithout.1, hwithout.2, hemptied.2⟩

end Scan

end FileSweep
