import FileSweep.Proofs.FirstFailure
import FileSweep.Proofs.Reachable

/-!
# Nothing missed, nothing invented

What a walk reports of an unchanging file system is settled by the reachable paths: it looks at
them, and reports each as it is (`Walk.Completes.mem_lstats_iff`, `entries_eq`).

An error at one path takes the paths below it out of reach, and no others; since both walks go
through their paths in the same order, the lists differ by no more than that.  And a scan in
which no test fails goes through the whole walk, so it tests the reachable files that match.
-/

namespace FileSweep

variable {σ : Type} [FileSystem σ]

/-! ## An error at one path -/

/-- Whether `fs'` is `fs` but for an error at `q`: it cannot be looked at, or it can, but not
be listed. -/
structure BreaksAt (fs fs' : σ) (q : Path) : Prop where
  lstat_elsewhere : ∀ p, p ≠ q → FileSystem.lstat fs' p = FileSystem.lstat fs p
  list_elsewhere : ∀ p, p ≠ q → FileSystem.list fs' p = FileSystem.list fs p
  error : (∃ e, FileSystem.lstat fs' q = .error e) ∨
    FileSystem.lstat fs' q = FileSystem.lstat fs q ∧ ∃ e, FileSystem.list fs' q = .error e

namespace BreaksAt

variable {fs fs' : σ} {root q : Path}

/-- A directory that can be looked at and listed is not the one with the error. -/
theorem ne_of_listed (hbreak : BreaksAt fs fs' q) {p : Path} {names : List Text}
    (hdir : FileSystem.lstat fs' p = .ok .dir) (hlist : FileSystem.list fs' p = .ok names) :
    p ≠ q := by
  rintro rfl
  rcases hbreak.error with ⟨e, he⟩ | ⟨-, e, he⟩
  · rw [hdir] at he
    cases he
  · rw [hlist] at he
    cases he

theorem lstat_dir (hbreak : BreaksAt fs fs' q) {p : Path}
    (hdir : FileSystem.lstat fs' p = .ok .dir) : FileSystem.lstat fs p = .ok .dir := by
  by_cases hp : p = q
  · subst hp
    rcases hbreak.error with ⟨e, he⟩ | ⟨he, -⟩
    · rw [hdir] at he
      cases he
    · exact he.symm.trans hdir
  · exact (hbreak.lstat_elsewhere p hp).symm.trans hdir

theorem list_ok (hbreak : BreaksAt fs fs' q) {p : Path} {names : List Text}
    (hdir : FileSystem.lstat fs' p = .ok .dir) (hlist : FileSystem.list fs' p = .ok names) :
    FileSystem.list fs p = .ok names :=
  (hbreak.list_elsewhere p (hbreak.ne_of_listed hdir hlist)).symm.trans hlist

theorem reachable (hbreak : BreaksAt fs fs' q) {p : Path} (h : Reachable fs' root p) :
    Reachable fs root p := by
  induction h with
  | root => exact .root
  | child _ hdir hlist hname ih =>
    exact .child ih (hbreak.lstat_dir hdir) (hbreak.list_ok hdir hlist) hname

theorem finiteTree (hbreak : BreaksAt fs fs' q) (h : FiniteTree fs root) :
    FiniteTree fs' root where
  dirs := by
    obtain ⟨ds, hds⟩ := h.dirs
    exact ⟨ds, fun p hp hdir => hds p (hbreak.reachable hp) (hbreak.lstat_dir hdir)⟩
  names p names hp hdir hlist :=
    h.names p names (hbreak.reachable hp) (hbreak.lstat_dir hdir) (hbreak.list_ok hdir hlist)
  nulFree p names hp hdir hlist :=
    h.nulFree p names (hbreak.reachable hp) (hbreak.lstat_dir hdir) (hbreak.list_ok hdir hlist)
  root_nulFree := h.root_nulFree

/-- **An error cuts off what is below it, and nothing else.** -/
theorem reachable_iff (hbreak : BreaksAt fs fs' q) (htree : FiniteTree fs root)
    (hq : Reachable fs root q) {p : Path} :
    Reachable fs' root p ↔ Reachable fs root p ∧ ¬ q.IsAbove p := by
  constructor
  · intro hp
    refine ⟨hbreak.reachable hp, ?_⟩
    induction hp with
    | root =>
      -- `q` is reachable, so it is not above the root
      exact fun habove => habove.2 (habove.1.antisymm (hq.isUnder htree)).symm
    | @child p names name hp hdir hlist hname ih =>
      have hpart := ((hbreak.finiteTree htree).names p names hp hdir hlist).1 name hname
      rw [Path.isAbove_child_iff hpart]
      rintro (heq | habove)
      · exact hbreak.ne_of_listed hdir hlist heq
      · exact ih habove
  · rintro ⟨hp, hbelow⟩
    induction hp with
    | root => exact .root
    | @child p names name hp hdir hlist hname ih =>
      rw [Path.isAbove_child_iff ((htree.names p names hp hdir hlist).1 name hname)] at hbelow
      have hne : p ≠ q := fun heq => hbelow (.inl heq)
      have hp' := ih fun habove => hbelow (.inr habove)
      refine .child hp' ?_ ?_ hname
      · rw [hbreak.lstat_elsewhere p hne, hdir]
      · rw [hbreak.list_elsewhere p hne, hlist]

theorem entriesAt_elsewhere (hbreak : BreaksAt fs fs' q) {p : Path} (hp : p ≠ q) :
    Walk.entriesAt fs' p = Walk.entriesAt fs p := by
  have hopened : Walk.openedAt fs' p = Walk.openedAt fs p := by
    rw [Walk.openedAt, Walk.openedAt, hbreak.lstat_elsewhere p hp]
  have htrouble : Walk.troubleAt fs' (Walk.openedAt fs p) =
      Walk.troubleAt fs (Walk.openedAt fs p) := by
    cases ho : Walk.openedAt fs p with
    | none => rfl
    | some r =>
      obtain ⟨rfl, -⟩ := Walk.mem_openedAt.mp ho
      rw [Walk.troubleAt, Walk.troubleAt, hbreak.list_elsewhere _ hp]
  rw [Walk.entriesAt, Walk.entriesAt, hopened, htrouble, Walk.entryAt, Walk.entryAt,
    hbreak.lstat_elsewhere p hp]

end BreaksAt

/-- A disk breaks at a path by a node there that cannot be looked at. -/
theorem Disk.breaksAt_of_refused (d : Disk) (q : Path) {node : Node} {r : Refusal}
    (h : node.lstatRefused = some r) : BreaksAt d (d.set [(q.text, node)]) q where
  lstat_elsewhere p hp := by
    have hkey : q.text ≠ p.text := fun he => hp (Path.text_inj.mp he).symm
    show (d.set [(q.text, node)]).lstat p = d.lstat p
    simp [Disk.lstat, node?_set, hkey]
  list_elsewhere p hp := by
    have hkey : q.text ≠ p.text := fun he => hp (Path.text_inj.mp he).symm
    show (d.set [(q.text, node)]).list p = d.list p
    simp [Disk.list, node?_set, hkey]
  error := by
    refine .inl ⟨r.error (some (.file q.text)), ?_⟩
    show (d.set [(q.text, node)]).lstat q = _
    simp [Disk.lstat, node?_set, answer, h]

section Broken

variable {fs fs' : σ} {root q : Path} {t t' : Walk.Trace σ}

/-- The walk with an error at `q` looks at the same paths but for those below `q`. -/
theorem BreaksAt.lstats_eq (hbreak : BreaksAt fs fs' q) (htree : FiniteTree fs root)
    (hq : Reachable fs root q) (ht : Walk.Completes fs root t)
    (ht' : Walk.Completes fs' root t') : t'.lstats = t.lstats.filter fun p => ¬ q.IsAbove p := by
  refine Path.Ascending.eq_of_mem_iff (ht'.ascending (hbreak.finiteTree htree))
    (List.Pairwise.filter _ (ht.ascending htree)) fun p => ?_
  rw [ht'.mem_lstats_iff, hbreak.reachable_iff htree hq, List.mem_filter, ht.mem_lstats_iff]
  simp

/-- All entries but those at `q`, and below it, are the same. -/
theorem BreaksAt.entries_eq (hbreak : BreaksAt fs fs' q) (htree : FiniteTree fs root)
    (hq : Reachable fs root q) (ht : Walk.Completes fs root t)
    (ht' : Walk.Completes fs' root t') :
    t'.entries.filter (fun e => e.path ≠ q) =
      t.entries.filter fun e => e.path ≠ q ∧ ¬ q.IsAbove e.path := by
  rw [ht'.entries_eq, ht.entries_eq, Walk.filter_entriesAt fs' (· ≠ q),
    Walk.filter_entriesAt fs (fun p => p ≠ q ∧ ¬ q.IsAbove p),
    hbreak.lstats_eq htree hq ht ht', List.filter_filter, List.flatMap_def, List.flatMap_def]
  simp only [Bool.decide_and]
  refine congrArg List.flatten (List.map_congr_left fun p hp => ?_)
  have hne := (List.mem_filter.mp hp).2
  rw [Bool.and_eq_true, decide_eq_true_eq] at hne
  exact hbreak.entriesAt_elsewhere hne.1

/-- The path with the error is still reported. -/
theorem BreaksAt.exists_entry (hbreak : BreaksAt fs fs' q) (htree : FiniteTree fs root)
    (hq : Reachable fs root q) (ht' : Walk.Completes fs' root t') :
    ∃ e ∈ t'.entries, e.path = q := by
  have hq' : Reachable fs' root q :=
    (hbreak.reachable_iff htree hq).mpr ⟨hq, fun habove => habove.2 rfl⟩
  refine ⟨Walk.entryAt fs' q, ?_, Walk.entryAt_path fs' q⟩
  rw [ht'.entries_eq]
  exact List.mem_flatMap.mpr ⟨q, ht'.mem_lstats_iff.mpr hq', List.mem_cons_self⟩

end Broken

/-! ## The files that are tested -/

/-- A path is tested if it is a regular file with the chosen extension. -/
theorem Settings.chooses_entryAt (settings : Settings) (fs : σ) (p : Path) :
    settings.chooses (Walk.entryAt fs p) = true ↔
      FileSystem.lstat fs p = .ok .file ∧ p.extension.lower = settings.extension.lower := by
  unfold Walk.entryAt
  cases hl : FileSystem.lstat fs p with
  | error e => simp [chooses, Entry.error?]
  | ok kind => simp [chooses, Entry.error?, Entry.isRegular, Entry.kind?, Entry.path,
      Path.hasExtension]

theorem Settings.not_chooses_troubleAt (settings : Settings) {fs : σ} {opened : Option Path}
    {e : Entry} (h : e ∈ Walk.troubleAt fs opened) : settings.chooses e = false := by
  unfold Walk.troubleAt at h
  split at h
  · cases h
  · split at h
    · cases h
    · rw [List.mem_singleton.mp h]
      rfl

section Tested

variable {fs : σ} {root : Path} {t : Walk.Trace σ}

/-- The files chosen among the entries are the reachable ones that match. -/
theorem Walk.Completes.mem_chosen (ht : Completes fs root t) (settings : Settings) {p : Path} :
    p ∈ (t.entries.filter settings.chooses).map Entry.path ↔
      Reachable fs root p ∧ FileSystem.lstat fs p = .ok .file ∧
        p.extension.lower = settings.extension.lower := by
  rw [List.mem_map, ← ht.mem_lstats_iff, ← settings.chooses_entryAt, ht.entries_eq]
  constructor
  · rintro ⟨e, he, rfl⟩
    obtain ⟨hmem, hchosen⟩ := List.mem_filter.mp he
    obtain ⟨p, hp, hep⟩ := List.mem_flatMap.mp hmem
    rcases List.mem_cons.mp hep with rfl | htrouble
    · rw [entryAt_path]
      exact ⟨hp, hchosen⟩
    · rw [settings.not_chooses_troubleAt htrouble] at hchosen
      cases hchosen
  · rintro ⟨hp, hchosen⟩
    refine ⟨entryAt fs p, List.mem_filter.mpr ⟨?_, hchosen⟩, entryAt_path fs p⟩
    exact List.mem_flatMap.mpr ⟨p, hp, List.mem_cons_self⟩

theorem Walk.Completes.nodup_chosen (ht : Completes fs root t) (htree : FiniteTree fs root)
    (settings : Settings) : ((t.entries.filter settings.chooses).map Entry.path).Nodup := by
  have hascending := ht.ascending htree
  obtain ⟨n, rfl, -⟩ := ht.exists_along
  exact (chosen_sublist settings _ _).nodup hascending.nodup

/-- A scan in which nothing changes and no test fails tests all files that are chosen. -/
theorem Scan.tested_of_still (ht : Walk.Completes fs root t) {settings : Settings}
    {script : List (Attempt σ (Except Fault TestResult))}
    (hstill : ∀ a ∈ script, a.change = id) (hpasses : ∀ i, passes script i = true)
    {budget : Nat} (hbudget : t.entries.length < budget) :
    ∃ s, (run .prepared settings root budget fs script).2 = .summary s ∧ s.failed = none ∧
      s.tested = (t.entries.filter settings.chooses).map Entry.path := by
  have hoks := fun i => outcome_ne_error_of_passes (hpasses i)
  obtain ⟨s, hs, hsum⟩ := summary_of_still settings ht hstill hoks hbudget
  have hall := (calls_of_still settings ht hstill hoks hbudget).2
  refine ⟨s, hs, ?_, ?_⟩
  · cases hfailed : s.failed with
    | none => rfl
    | some p =>
      obtain ⟨-, hlast⟩ := hsum.last_failed hfailed
      rw [hpasses] at hlast
      cases hlast
  · have hcalls := hsum.calls.symm.trans (hall fun i _ => hpasses i)
    have hpaths := congrArg (List.map Prod.snd) hcalls
    simpa [Function.comp_def] using hpaths

end Tested

/-- **Nothing is missed, and nothing is invented.**  In an unchanging file system with finitely
many directories below `root`, whose listings consist of different real names without NULs,
the walk from `root` comes to its end, and has looked at exactly the reachable paths.  An
error at one of them removes what is below it, and leaves all other entries as they are.  And
a scan in which no test fails tests exactly the reachable regular files with the chosen
extension, each once. -/
theorem walk_explores_reachable (fs : σ) (root : Path) (htree : FiniteTree fs root) :
    ∃ t : Walk.Trace σ, Walk.Completes fs root t ∧
      (∀ p, p ∈ t.lstats ↔ Reachable fs root p) ∧
      (∀ fs' q, Reachable fs root q → BreaksAt fs fs' q →
        ∃ t', Walk.Completes fs' root t' ∧
          t'.lstats = t.lstats.filter (fun p => ¬ q.IsAbove p) ∧
          t'.entries.filter (fun e => e.path ≠ q) =
            t.entries.filter (fun e => e.path ≠ q ∧ ¬ q.IsAbove e.path) ∧
          ∃ e ∈ t'.entries, e.path = q) ∧
      (∀ (settings : Settings) (script : List (Attempt σ (Except Fault TestResult))),
        (∀ a ∈ script, a.change = id) → (∀ i, Scan.passes script i = true) →
        ∀ budget > t.entries.length,
          ∃ s, (Scan.run .prepared settings root budget fs script).2 = .summary s ∧
            s.failed = none ∧ s.tested.Nodup ∧
            ∀ p, p ∈ s.tested ↔ Reachable fs root p ∧ FileSystem.lstat fs p = .ok .file ∧
              p.extension.lower = settings.extension.lower) := by
  obtain ⟨t, ht⟩ := Walk.exists_completes htree
  refine ⟨t, ht, fun p => ht.mem_lstats_iff, ?_, ?_⟩
  · intro fs' q hq hbreak
    obtain ⟨t', ht'⟩ := Walk.exists_completes (hbreak.finiteTree htree)
    exact ⟨t', ht', hbreak.lstats_eq htree hq ht ht', hbreak.entries_eq htree hq ht ht',
      hbreak.exists_entry htree hq ht'⟩
  · intro settings script hstill hpasses budget hbudget
    obtain ⟨s, hs, hfailed, htested⟩ := Scan.tested_of_still ht hstill hpasses hbudget
    refine ⟨s, hs, hfailed, htested ▸ ht.nodup_chosen htree settings, fun p => ?_⟩
    rw [htested, ht.mem_chosen settings]

/-- The small disk, and the same one with a directory that cannot be looked at. -/
theorem sample_explored :
    let q := Disk.sampleRoot.child "a"
    let broken := Disk.sample.set [(q.text, { kind := .dir, lstatRefused := some ⟨13, "no"⟩ })]
    ∃ t : Walk.Trace Disk, Walk.Completes Disk.sample Disk.sampleRoot t ∧
      (∀ p, p ∈ t.lstats ↔ Reachable Disk.sample Disk.sampleRoot p) ∧
      (∃ t', Walk.Completes broken Disk.sampleRoot t' ∧
        t'.lstats = t.lstats.filter fun p => ¬ q.IsAbove p) ∧
      ∃ s, (Scan.run .prepared .default Disk.sampleRoot (t.entries.length + 1) Disk.sample []).2 =
        .summary s ∧ s.failed = none ∧ s.tested.Nodup := by
  intro q broken
  obtain ⟨t, ht, hmem, hbreak, htest⟩ := walk_explores_reachable Disk.sample Disk.sampleRoot
    (Disk.finiteTree Disk.wellNamed_sample (by decide))
  have hdir : FileSystem.lstat Disk.sample Disk.sampleRoot = .ok .dir := by cbv
  have hlist : FileSystem.list Disk.sample Disk.sampleRoot = .ok ["b.chm", "a"] := by cbv
  have hq : Reachable Disk.sample Disk.sampleRoot q := .child .root hdir hlist (by simp)
  obtain ⟨t', ht', hlstats, -⟩ := hbreak broken q hq (Disk.breaksAt_of_refused _ _ rfl)
  obtain ⟨s, hs, hfailed, hnodup, -⟩ := htest .default [] (by simp) (fun _ => rfl)
    (t.entries.length + 1) (Nat.lt_succ_self _)
  exact ⟨t, ht, hmem, ⟨t', ht', hlstats⟩, s, hs, hfailed, hnodup⟩

end FileSweep
