import FileSweep.Proofs.WalkOrder

/-!
# What a walk explores

A path is reachable from a root if a chain of directories leads to it, each of which can be
looked at and listed.  In a file system that does not change, and that is finite below the
root, a walk comes to its end, and has looked at exactly the reachable paths.

That it looks at nothing else is inherited along the walk.  That it misses nothing is shown
for a walk that has ended: it has looked at all that was pending, and at the children of each
directory that it listed.  And it ends because no path is looked at twice, and there are only
finitely many to look at.

Every disk with proper names is such a file system (`Disk.finiteTree`).
-/

namespace FileSweep

variable {σ : Type} [FileSystem σ]

/-! ## Reachable paths -/

/-- Whether a chain of directories, all of which can be listed, leads from `root` to a path. -/
inductive Reachable (fs : σ) (root : Path) : Path → Prop
  | root : Reachable fs root root
  | child {p : Path} {names : List Text} {name : Text} (h : Reachable fs root p)
      (hdir : FileSystem.lstat fs p = .ok .dir) (hlist : FileSystem.list fs p = .ok names)
      (hname : name ∈ names) : Reachable fs root (p.child name)

/-- Whether there are finitely many directories below `root`, and their listings consist of
different real names, without NULs. -/
structure FiniteTree (fs : σ) (root : Path) : Prop where
  dirs : ∃ ds : List Path, ∀ p, Reachable fs root p → FileSystem.lstat fs p = .ok .dir → p ∈ ds
  names : ∀ p names, Reachable fs root p → FileSystem.lstat fs p = .ok .dir →
    FileSystem.list fs p = .ok names → Text.AreNames names
  nulFree : ∀ p names, Reachable fs root p → FileSystem.lstat fs p = .ok .dir →
    FileSystem.list fs p = .ok names → ∀ n ∈ names, n.has (Char.ofNat 0) = false
  root_nulFree : root.hasNul = false

namespace Reachable

variable {fs : σ} {root p : Path}

theorem isUnder (htree : FiniteTree fs root) (h : Reachable fs root p) : root.IsUnder p := by
  induction h with
  | root => exact root.isUnder_refl
  | child h hdir hlist hname ih =>
    exact ih.child ((htree.names _ _ h hdir hlist).1 _ hname)

theorem hasNul (htree : FiniteTree fs root) (h : Reachable fs root p) : p.hasNul = false := by
  induction h with
  | root => exact htree.root_nulFree
  | child h hdir hlist hname ih =>
    exact Path.hasNul_child ih (htree.nulFree _ _ h hdir hlist _ hname)

end Reachable

/-- The paths that a directory leads to. -/
def childrenAt (fs : σ) (p : Path) : List Path :=
  match FileSystem.list fs p with
  | .ok names => names.map p.child
  | .error _ => []

/-- Below finitely many directories there are finitely many paths. -/
theorem FiniteTree.paths {fs : σ} {root : Path} (h : FiniteTree fs root) :
    ∃ ps : List Path, ∀ p, Reachable fs root p → p ∈ ps := by
  obtain ⟨ds, hds⟩ := h.dirs
  refine ⟨root :: ds.flatMap (childrenAt fs), ?_⟩
  intro p hp
  cases hp with
  | root => exact List.mem_cons_self
  | @child p names name h hdir hlist hname =>
    refine List.mem_cons_of_mem _ (List.mem_flatMap.mpr ⟨p, hds p h hdir, ?_⟩)
    rw [childrenAt, hlist]
    exact List.mem_map_of_mem hname

namespace Walk

variable {fs : σ} {root : Path}

/-! ## Nothing is invented -/

/-- A walk of an unchanging file system looks only at reachable paths, and lists only
reachable directories. -/
theorem asked_reachable (fs : σ) (root : Path) (n : Nat) :
    let t := along (List.replicate n fs) (start root)
    (∀ p ∈ t.lstats, Reachable fs root p) ∧
      ∀ p ∈ t.lists, Reachable fs root p ∧ FileSystem.lstat fs p = .ok .dir := by
  have here : ∀ fs' q, (fs', q) ∈ (along (List.replicate n fs) (start root)).asked → fs' = fs :=
    fun fs' q hq => List.eq_of_mem_replicate (mem_of_asked hq)
  refine asked_induction (Reachable fs root)
    (fun p => Reachable fs root p ∧ FileSystem.lstat fs p = .ok .dir) _ _ ?_ ?_ ?_ ?_
  · intro p hp
    exact List.mem_singleton.mp hp ▸ .root
  · simp [start]
  · intro fs' p hasked hp hdir
    exact ⟨hp, here fs' _ hasked ▸ hdir⟩
  · intro fs' p names hasked hp hlist n hn
    exact .child hp.1 hp.2 (here fs' _ hasked ▸ hlist) hn

theorem hasNames_of_finiteTree (h : FiniteTree fs root) (n : Nat) :
    (along (List.replicate n fs) (start root)).HasNames := by
  intro fs' p names hasked hlist
  have hp := (asked_reachable fs root n).2 p (Trace.mem_lists.mpr ⟨fs', hasked⟩)
  rw [List.eq_of_mem_replicate (mem_of_asked hasked)] at hlist
  exact h.names p names hp.1 hp.2 hlist

/-! ## The walk ends -/

/-- **A walk below a root with finitely many directories comes to its end.** -/
theorem exists_completes (h : FiniteTree fs root) : ∃ t : Trace σ, Completes fs root t := by
  obtain ⟨ps, hps⟩ := h.paths
  -- one round more than there can be entries, of which no path has more than two
  let n := 2 * ps.length + 1
  have hreachable := (asked_reachable fs root n).1
  have hnodup := lstats_nodup (.start root) (hasNames_of_finiteTree h n)
  have hlooked : (along (List.replicate n fs) (start root)).lstats.length ≤ ps.length :=
    hnodup.length_le_of_subset fun p hp => hps p (hreachable p hp)
  have hlisted := (lists_sublist (List.replicate n fs) (start root)).length_le
  have hentries := entries_length_le (List.replicate n fs) (start root)
  refine ⟨along (List.replicate n fs) (start root), ?_, n, by rw [drive_eq_along, states_id]⟩
  cases hrest : (along (List.replicate n fs) (start root)).rest with
  | finished => rfl
  | fault f => exact absurd hrest (rest_ne_fault (fun p hp => (hreachable p hp).hasNul h) f)
  | suspended =>
    have hlength := entries_length_of_suspended hrest
    rw [List.length_replicate] at hlength
    simp only [start, Option.toList_none, List.nil_append] at hlisted
    simp only [start] at hlooked hlength hentries
    omega

/-! ## Nothing is missed -/

/-- What a walk of an unchanging file system has done when it has ended. -/
structure Exhausted (fs : σ) (w : Walk) (t : Trace σ) : Prop where
  pending : ∀ p ∈ w.pending, p ∈ t.lstats
  opened : ∀ p ∈ w.opened, ∀ names, FileSystem.list fs p = .ok names →
    ∀ n ∈ names, p.child n ∈ t.lstats
  closed : ∀ p ∈ t.lstats, FileSystem.lstat fs p = .ok .dir →
    ∀ names, FileSystem.list fs p = .ok names → ∀ n ∈ names, p.child n ∈ t.lstats

theorem exhausted_of_finished {fss : List σ} {w : Walk} (hfs : ∀ fs' ∈ fss, fs' = fs)
    (h : (along fss w).rest = .finished) : Exhausted fs w (along fss w) := by
  induction fss, w using along_induction with
  | suspended w => cases h
  | finished fs' later => exact ⟨by simp, by simp, by simp⟩
  | nul fs' later p rest hn => rw [along_nul hn] at h; cases h
  | looked fs' later p rest hn ih =>
    obtain ⟨rfl, hlater⟩ := List.forall_mem_cons.mp hfs
    rw [along_looked hn] at h ⊢
    obtain ⟨hpending, hopened, hclosed⟩ := ih hlater h
    refine ⟨?_, by simp, ?_⟩
    · intro q hq
      rcases List.mem_cons.mp hq with rfl | hq
      · exact List.mem_cons_self
      · exact List.mem_cons_of_mem p (hpending q hq)
    · intro q hq hdir names hlist n hmem
      refine List.mem_cons_of_mem p ?_
      rcases List.mem_cons.mp hq with rfl | hq
      · exact hopened q (mem_openedAt.mpr ⟨rfl, hdir⟩) names hlist n hmem
      · exact hclosed q hq hdir names hlist n hmem
  | unlisted fs' later p rest e hl ih =>
    obtain ⟨rfl, hlater⟩ := List.forall_mem_cons.mp hfs
    rw [along_unlisted hl] at h ⊢
    obtain ⟨hpending, -, hclosed⟩ := ih hlater h
    refine ⟨hpending, ?_, hclosed⟩
    intro q hq names hlist
    obtain rfl := Option.some.inj hq
    rw [hl] at hlist
    cases hlist
  | listed fs' later p rest names hl ih =>
    obtain ⟨rfl, -⟩ := List.forall_mem_cons.mp hfs
    rw [along_listed hl] at h ⊢
    obtain ⟨hpending, -, hclosed⟩ := ih hfs h
    refine ⟨fun q hq => hpending q (List.mem_append_right _ hq), ?_, hclosed⟩
    intro q hq names' hlist n hmem
    obtain rfl := Option.some.inj hq
    obtain rfl := Except.ok.inj (hl.symm.trans hlist)
    refine hpending _ (List.mem_append_left _ ?_)
    exact List.mem_map_of_mem (Text.mem_sort.mpr hmem)

/-- A walk that has ended has looked at all reachable paths. -/
theorem Exhausted.mem_of_reachable {t : Trace σ} (h : Exhausted fs (start root) t) {p : Path}
    (hp : Reachable fs root p) : p ∈ t.lstats := by
  induction hp with
  | root => exact h.pending root List.mem_cons_self
  | child _ hdir hlist hname ih => exact h.closed _ ih hdir _ hlist _ hname

/-- The trouble that the entry of an opened directory is followed by. -/
def troubleAt (fs : σ) (opened : Option Path) : List Entry :=
  match opened with
  | none => []
  | some p =>
    match FileSystem.list fs p with
    | .ok _ => []
    | .error e => [.unlisted p e]

/-- All entries for a path that is looked at. -/
def entriesAt (fs : σ) (p : Path) : List Entry := entryAt fs p :: troubleAt fs (openedAt fs p)

theorem path_of_mem_entriesAt {fs : σ} {p : Path} {e : Entry} (h : e ∈ entriesAt fs p) :
    e.path = p := by
  rcases List.mem_cons.mp h with rfl | htrouble
  · exact entryAt_path fs p
  · unfold troubleAt at htrouble
    split at htrouble
    · cases htrouble
    · rename_i r hr
      obtain ⟨rfl, -⟩ := mem_openedAt.mp hr
      split at htrouble
      · cases htrouble
      · rw [List.mem_singleton.mp htrouble]
        rfl

/-- The entries for some of the paths are those of these paths alone. -/
theorem filter_entriesAt (fs : σ) (keep : Path → Bool) (ps : List Path) :
    (ps.flatMap (entriesAt fs)).filter (fun e => keep e.path) =
      (ps.filter keep).flatMap (entriesAt fs) := by
  induction ps with
  | nil => rfl
  | cons p ps ih =>
    have hkeep : (entriesAt fs p).filter (fun e => keep e.path) =
        if keep p then entriesAt fs p else [] := by
      cases hp : keep p with
      | true => exact List.filter_eq_self.mpr fun e he => (path_of_mem_entriesAt he).symm ▸ hp
      | false =>
        refine List.filter_eq_nil_iff.mpr fun e he => ?_
        simp [path_of_mem_entriesAt he, hp]
    rw [List.flatMap_cons, List.filter_append, ih, hkeep, List.filter_cons]
    split
    · rw [List.flatMap_cons]
    · rfl

/-- The entries of a walk that has ended are those of the paths looked at, in order. -/
theorem entries_of_finished {fss : List σ} {w : Walk} (hfs : ∀ fs' ∈ fss, fs' = fs)
    (h : (along fss w).rest = .finished) :
    (along fss w).entries =
      troubleAt fs w.opened ++ (along fss w).lstats.flatMap (entriesAt fs) := by
  induction fss, w using along_induction with
  | suspended w => cases h
  | finished fs' later => rfl
  | nul fs' later p rest hn => rw [along_nul hn] at h; cases h
  | looked fs' later p rest hn ih =>
    obtain ⟨rfl, hlater⟩ := List.forall_mem_cons.mp hfs
    rw [along_looked hn] at h ⊢
    simpa [entriesAt, troubleAt] using ih hlater h
  | unlisted fs' later p rest e hl ih =>
    obtain ⟨rfl, hlater⟩ := List.forall_mem_cons.mp hfs
    rw [along_unlisted hl] at h ⊢
    simpa [troubleAt, hl] using ih hlater h
  | listed fs' later p rest names hl ih =>
    obtain ⟨rfl, -⟩ := List.forall_mem_cons.mp hfs
    rw [along_listed hl] at h ⊢
    simpa [troubleAt, hl] using ih hfs h

namespace Completes

variable {t : Trace σ}

theorem exists_along (h : Completes fs root t) :
    ∃ n, t = along (List.replicate n fs) (start root) ∧
      (along (List.replicate n fs) (start root)).rest = .finished := by
  obtain ⟨n, hdriven⟩ := h.driven
  rw [drive_eq_along, states_id] at hdriven
  exact ⟨n, hdriven.symm, by rw [hdriven, h.rest]⟩

/-- **Exactly the reachable paths are looked at.** -/
theorem mem_lstats_iff (h : Completes fs root t) {p : Path} :
    p ∈ t.lstats ↔ Reachable fs root p := by
  obtain ⟨n, rfl, hrest⟩ := h.exists_along
  refine ⟨(asked_reachable fs root n).1 p, fun hp => ?_⟩
  exact (exhausted_of_finished (fun fs' => List.eq_of_mem_replicate) hrest).mem_of_reachable hp

theorem entries_eq (h : Completes fs root t) : t.entries = t.lstats.flatMap (entriesAt fs) := by
  obtain ⟨n, rfl, hrest⟩ := h.exists_along
  exact entries_of_finished (fun fs' => List.eq_of_mem_replicate) hrest

theorem ascending (h : Completes fs root t) (htree : FiniteTree fs root) :
    Path.Ascending t.lstats := by
  obtain ⟨n, rfl, -⟩ := h.exists_along
  exact (lstats_ascending _ _ (.start root) (hasNames_of_finiteTree htree n)).1

end Completes

end Walk

/-! ## Disks -/

/-- **A disk is a finite tree below every root**, if all its nodes are well named. -/
theorem Disk.finiteTree {d : Disk} (hd : d.Holds Node.WellNamed) {root : Path}
    (hroot : root.hasNul = false) : FiniteTree d root where
  dirs := by
    obtain ⟨ps, hps⟩ := d.exists_paths
    exact ⟨ps, fun p _ hdir => hps p _ hdir⟩
  names _ _ _ _ hlist := (hd.names hlist).1
  nulFree _ _ _ _ hlist := (hd.names hlist).2
  root_nulFree := hroot

end FileSweep
