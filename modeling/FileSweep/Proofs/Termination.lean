import FileSweep.Proofs.DiskNames
import FileSweep.Proofs.ScanCourse

/-!
# Walks and scans come to an end

In a finite file system with real names in its listings, every walk comes to rest, from whatever
state it is in.  What a directory lists has one part more than the directory itself, and there is
a longest path among the finitely many directories, so no walk can go deeper and deeper.  This is
put in terms of what comes after a path: a path is *passable* if a walk comes to rest with it in
front whenever it does so without it (`Walk.Passable`).

A test may change the file system.  If every file system that the script leads to is finite, then
the walk that is under way would come to rest in each of them; only finitely many changes lie
ready, and after the last of them it does (`Scan.exists_budget`).
-/

namespace FileSweep

variable {σ : Type} [FileSystem σ]

/-- Whether there are finitely many directories, and their listings consist of real names. -/
structure FileSystem.Finite (fs : σ) : Prop where
  dirs : ∃ ds : List Path, ∀ p, FileSystem.lstat fs p = .ok .dir → p ∈ ds
  names : ∀ p names, FileSystem.lstat fs p = .ok .dir → FileSystem.list fs p = .ok names →
    ∀ n ∈ names, n.IsPart

/-- The directories of a finite file system have a greatest depth. -/
theorem FileSystem.Finite.depth {fs : σ} (h : FileSystem.Finite fs) :
    ∃ depth, ∀ p, FileSystem.lstat fs p = .ok .dir → p.parts.length ≤ depth := by
  obtain ⟨ds, hds⟩ := h.dirs
  have hbound : ∃ depth, ∀ p ∈ ds, p.parts.length ≤ depth := by
    clear hds
    induction ds with
    | nil => exact ⟨0, by simp⟩
    | cons d ds ih =>
      obtain ⟨depth, hdepth⟩ := ih
      refine ⟨max d.parts.length depth, List.forall_mem_cons.mpr ⟨Nat.le_max_left _ _, ?_⟩⟩
      exact fun p hp => Nat.le_trans (hdepth p hp) (Nat.le_max_right _ _)
  obtain ⟨depth, hdepth⟩ := hbound
  exact ⟨depth, fun p hdir => hdepth p (hds p hdir)⟩

/-! ## Walks -/

namespace Walk

variable {fs : σ} {p : Path} {rest : List Path}

/-- Whether a walk ends, or is stopped by a fault, if nothing changes. -/
def ComesToRest (fs : σ) (w : Walk) : Prop :=
  ∃ n, (along (List.replicate n fs) w).rest ≠ .suspended

/-- Whether a walk comes to rest with the path in front whenever it does so without it. -/
def Passable (fs : σ) (p : Path) : Prop :=
  ∀ rest, ComesToRest fs ⟨none, rest⟩ → ComesToRest fs ⟨none, p :: rest⟩

theorem comesToRest_nil (fs : σ) : ComesToRest fs ⟨none, []⟩ := ⟨1, by simp⟩

theorem ComesToRest.append {ps : List Path} (hps : ∀ p ∈ ps, Passable fs p)
    (h : ComesToRest fs ⟨none, rest⟩) : ComesToRest fs ⟨none, ps ++ rest⟩ := by
  induction ps with
  | nil => exact h
  | cons p ps ih =>
    obtain ⟨hp, hlater⟩ := List.forall_mem_cons.mp hps
    exact hp _ (ih hlater)

/-- A look at a path takes one round. -/
theorem ComesToRest.looked (h : ComesToRest fs ⟨openedAt fs p, rest⟩) :
    ComesToRest fs ⟨none, p :: rest⟩ := by
  cases hn : p.hasNul with
  | true => exact ⟨1, by simp [along_nul hn]⟩
  | false =>
    obtain ⟨n, hrest⟩ := h
    refine ⟨n + 1, ?_⟩
    rw [List.replicate_succ, along_looked hn]
    exact hrest

/-- An opened directory is done with if all its children can be passed. -/
theorem ComesToRest.opened (hchildren : ∀ names, FileSystem.list fs p = .ok names →
    ∀ n ∈ names, Passable fs (p.child n)) (h : ComesToRest fs ⟨none, rest⟩) :
    ComesToRest fs ⟨some p, rest⟩ := by
  cases hlist : FileSystem.list fs p with
  | error e =>
    obtain ⟨n, hrest⟩ := h
    refine ⟨n + 1, ?_⟩
    rw [List.replicate_succ, along_unlisted hlist]
    exact hrest
  | ok names =>
    have hpassable : ∀ q ∈ children p names, Passable fs q := by
      intro q hq
      obtain ⟨n, hn, rfl⟩ := List.mem_map.mp hq
      exact hchildren names hlist n (Text.mem_sort.mp hn)
    obtain ⟨n, hrest⟩ := h.append hpassable
    obtain ⟨-, hopened⟩ := along_opened n rest hlist
    exact ⟨n, hopened ▸ hrest⟩

/-- Every path of a finite file system can be passed. -/
theorem passable (h : FileSystem.Finite fs) (p : Path) : Passable fs p := by
  obtain ⟨depth, hdepth⟩ := h.depth
  -- downwards, from the paths that are deeper than any directory
  suffices hdown : ∀ k p, depth < p.parts.length + k → Passable fs p from
    hdown (depth + 1) p (by omega)
  intro k
  induction k with
  | zero =>
    intro p hp rest hrest
    have hnodir : openedAt fs p = none := by
      refine Option.eq_none_iff_forall_not_mem.mpr fun q hq => ?_
      have hle := hdepth p (mem_openedAt.mp hq).2
      omega
    exact .looked (hnodir ▸ hrest)
  | succ k ih =>
    intro p hp rest hrest
    refine .looked ?_
    cases hopened : openedAt fs p with
    | none => exact hrest
    | some q =>
      obtain ⟨rfl, hdir⟩ := mem_openedAt.mp hopened
      refine .opened (fun names hlist n hn => ih _ ?_) hrest
      have hparts := (Path.child_of_isPart q (h.names q names hdir hlist n hn)).2
      rw [hparts, List.length_append, List.length_singleton]
      omega

/-- **Every walk of a finite file system comes to rest**, whatever is pending. -/
theorem comesToRest (h : FileSystem.Finite fs) (w : Walk) : ComesToRest fs w := by
  obtain ⟨opened, rest⟩ := w
  have hpending : ComesToRest fs ⟨none, rest⟩ := by
    rw [← List.append_nil rest]
    exact (comesToRest_nil fs).append fun p _ => passable h p
  cases opened with
  | none => exact hpending
  | some p => exact .opened (fun _ _ n _ => passable h (p.child n)) hpending

end Walk

/-! ## Scans -/

namespace Scan

variable {α : Type} {tester : Tester α} {settings : Settings} {root : Path}

/-- Whether a scan comes to its end from a state on. -/
def Ends (tester : Tester α) (settings : Settings) (root : Path) (s : Scan σ α) : Prop :=
  ∃ budget, (course tester settings root budget s).2 ≠ .unfinished

/-- A scan ends if it does after its next step, whether that step passes over the entry or tests
it. -/
theorem Ends.of_next {s : Scan σ α}
    (h : ∀ qs e w, s.walk.resume s.fs = (qs, .entry e w) →
      Ends tester settings root { s with walk := w } ∧
        Ends tester settings root (s.afterTest tester w e.path)) :
    Ends tester settings root s := by
  cases hr : s.walk.resume s.fs with
  | mk qs step =>
    cases step with
    | finished => exact ⟨1, by simp [course_ended (step_finished hr)]⟩
    | fault f => exact ⟨1, by simp [course_ended (step_fault hr)]⟩
    | entry e w =>
      obtain ⟨⟨budget, hpassedOver⟩, ⟨budget', hpassed⟩⟩ := h qs e w hr
      cases hc : settings.chooses e with
      | false => exact ⟨budget + 1, by rw [course_going (step_passedOver hr hc)]; exact hpassedOver⟩
      | true =>
        cases hv : verdictAt tester settings.executable s.script 0 e.path with
        | error f => exact ⟨1, by simp [course_ended (step_broken hr hc hv)]⟩
        | ok result =>
          cases hf : result.failure with
          | some failure => exact ⟨1, by simp [course_ended (step_failed hr hc hv hf)]⟩
          | none =>
            exact ⟨budget' + 1, by rw [course_going (step_passed hr hc hv hf)]; exact hpassed⟩

/-- A walk that is under way has one round less to go after an entry. -/
theorem rest_after_entry {fs : σ} {w w' : Walk} {qs : List Query} {e : Entry} {n : Nat}
    (hw : w.resume fs = (qs, .entry e w'))
    (h : (Walk.along (List.replicate (n + 1) fs) w).rest ≠ .suspended) :
    (Walk.along (List.replicate n fs) w').rest ≠ .suspended := by
  simpa [List.replicate_succ, Walk.along, hw] using h

/-- **A scan comes to its end** if all the file systems that its script leads to are finite. -/
theorem ends (tester : Tester α) (settings : Settings) (root : Path) (s : Scan σ α)
    (h : ∀ fs ∈ stages s.fs s.script, FileSystem.Finite fs) :
    Ends tester settings root s := by
  obtain ⟨fs, walk, script, tested⟩ := s
  induction script generalizing fs walk tested with
  | nil =>
    -- nothing changes any more: the walk comes to rest
    have hfinite : FileSystem.Finite fs := h fs (mem_stages_self fs [])
    obtain ⟨n, hrest⟩ := Walk.comesToRest hfinite walk
    clear h
    induction n generalizing walk tested with
    | zero => exact absurd rfl hrest
    | succ n ih =>
      refine .of_next fun qs e w hr => ?_
      have hlater := rest_after_entry hr hrest
      exact ⟨ih w tested hlater, ih w _ hlater⟩
  | cons a script ihscript =>
    -- up to the next test nothing changes, and after it the script is shorter
    have hfinite : FileSystem.Finite fs := h fs (mem_stages_self fs _)
    have hchanged : ∀ w tested, Ends tester settings root ⟨a.change fs, w, script, tested⟩ :=
      fun w tested => ihscript (a.change fs) w tested fun fs' hfs' =>
        h fs' (List.mem_cons_of_mem fs hfs')
    obtain ⟨n, hrest⟩ := Walk.comesToRest hfinite walk
    induction n generalizing walk tested with
    | zero => exact absurd rfl hrest
    | succ n ih =>
      refine .of_next fun qs e w hr => ?_
      exact ⟨ih w tested h (rest_after_entry hr hrest), hchanged w _⟩

/-- A scan of finite file systems ends within some number of steps, and more make no
difference. -/
theorem exists_budget (tester : Tester α) (settings : Settings) (root : Path) (fs : σ)
    (script : List (Attempt σ α)) (h : ∀ fs' ∈ stages fs script, FileSystem.Finite fs') :
    ∃ enough, ∀ budget ≥ enough, (run tester settings root budget fs script).2 ≠ .unfinished := by
  obtain ⟨enough, hends⟩ := ends tester settings root (start fs root script) h
  refine ⟨enough, fun budget hle => ?_⟩
  have hrun : (run tester settings root enough fs script).2 ≠ .unfinished := by
    rw [run_eq_course]
    exact hends
  have hmore := runFrom_of_le tester settings root hle _ _ hrun
  unfold run
  rw [hmore]
  exact hrun

end Scan

/-! ## Disks -/

/-- **A disk is finite**, if its nodes name real parts only. -/
theorem Disk.finite {P : Node → Prop} (hnames : ∀ node, P node → ∀ n ∈ node.names, n.IsPart)
    {d : Disk} (hd : d.Holds P) : FileSystem.Finite d where
  dirs := by
    obtain ⟨ps, hps⟩ := d.exists_paths
    exact ⟨ps, fun p hdir => hps p _ hdir⟩
  names p names _ hlist := by
    obtain ⟨node, hnode, rfl⟩ := exists_node_of_list hlist
    exact hnames node (hd p.text node hnode)

end FileSweep
