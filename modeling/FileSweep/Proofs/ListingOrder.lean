import FileSweep.Command.Program
import FileSweep.Proofs.Lockstep

/-!
# The order of a listing

In which order a directory lists its names has no part in a sweep.  A walk sorts the names before
it does anything with them, so its next round is the same in file systems whose listings are the
same once they are sorted (`Walk.resume_eq_of_sameSorted`); everything else follows.

The file systems change while a scan goes on, and have to be the same in that sense after every
test.  Which relation the tests keep is a matter of the file systems; for disks it is that one
arises from the other by reordering the names in its nodes (`Disk.Reordered`).  The answers alone
would not do: where a link leads after an edit is not determined by where links led before.
-/

namespace FileSweep

/-! ## Answers up to sorting -/

section Answers

variable {σ σ' : Type} [FileSystem σ] [FileSystem σ']

/-- Whether two file systems answer alike, but for the order in which they list names. -/
structure SameSorted (fs : σ) (fs' : σ') : Prop where
  lstat : ∀ p, FileSystem.lstat fs p = FileSystem.lstat fs' p
  list : ∀ p, (FileSystem.list fs p).map Text.sort = (FileSystem.list fs' p).map Text.sort
  stat : ∀ p, FileSystem.stat fs p = FileSystem.stat fs' p

variable {fs : σ} {fs' : σ'}

theorem SameSorted.hasFile (h : SameSorted fs fs') (p : Path) :
    FileSystem.hasFile fs p = FileSystem.hasFile fs' p := by
  unfold FileSystem.hasFile
  rw [h.stat]

theorem SameSorted.children {p : Path} (h : SameSorted fs fs') {names : List Text}
    (hlist : FileSystem.list fs p = .ok names) :
    ∃ names', FileSystem.list fs' p = .ok names' ∧
      Walk.children p names = Walk.children p names' := by
  have hsorted := h.list p
  rw [hlist] at hsorted
  cases hlist' : FileSystem.list fs' p with
  | error e =>
    rw [hlist'] at hsorted
    cases hsorted
  | ok names' =>
    rw [hlist'] at hsorted
    exact ⟨names', rfl, congrArg (List.map p.child) (Except.ok.inj hsorted)⟩

theorem SameSorted.unlisted {p : Path} (h : SameSorted fs fs') {e : OsError}
    (hlist : FileSystem.list fs p = .error e) : FileSystem.list fs' p = .error e := by
  have hsorted := h.list p
  rw [hlist] at hsorted
  cases hlist' : FileSystem.list fs' p with
  | error e' =>
    rw [hlist'] at hsorted
    exact congrArg Except.error (Except.error.inj hsorted).symm
  | ok names' =>
    rw [hlist'] at hsorted
    cases hsorted

namespace Walk

theorem reach_eq_of_sameSorted (h : SameSorted fs fs') (ps : List Path) :
    reach fs ps = reach fs' ps := by
  cases ps with
  | nil => rfl
  | cons p rest => rw [reach, reach, h.lstat p]

/-- **A round sorts the names that it gets.** -/
theorem resume_eq_of_sameSorted (h : SameSorted fs fs') (w : Walk) :
    w.resume fs = w.resume fs' := by
  obtain ⟨opened, rest⟩ := w
  cases opened with
  | none => exact reach_eq_of_sameSorted h rest
  | some p =>
    cases hlist : FileSystem.list fs p with
    | error e => simp [resume, hlist, h.unlisted hlist]
    | ok names =>
      obtain ⟨names', hlist', hchildren⟩ := h.children hlist
      simp [resume, hlist, hlist', hchildren, reach_eq_of_sameSorted h]

/-- What two walks ask and report that do not differ in any round. -/
theorem along_eq_of_resume {fss : List σ} {fss' : List σ'}
    (h : List.Forall₂ (fun fs fs' => ∀ w : Walk, w.resume fs = w.resume fs') fss fss')
    (w : Walk) :
    let t := along fss w
    let t' := along fss' w
    t.asked.map (·.2) = t'.asked.map (·.2) ∧ t.entries = t'.entries ∧ t.rest = t'.rest := by
  induction h generalizing w with
  | nil => exact ⟨rfl, rfl, rfl⟩
  | @cons fs fs' later later' hround hlater ih =>
    unfold along
    rw [hround w]
    obtain ⟨queries, step⟩ := w.resume fs'
    cases step with
    | finished => simp [Function.comp_def]
    | fault f => simp [Function.comp_def]
    | entry e next =>
      obtain ⟨hasked, hentries, hrest⟩ := ih next
      simp [hasked, hentries, hrest, Function.comp_def]

end Walk

end Answers

/-- Consumers whose changes keep a relation let their walks meet file systems so related. -/
theorem Walk.forall₂_states {σ σ' : Type} {R : σ → σ' → Prop} {change : Nat → σ → σ}
    {change' : Nat → σ' → σ'}
    (hkeep : ∀ n fs fs', R fs fs' → R (change n fs) (change' n fs')) (rounds count : Nat)
    {fs : σ} {fs' : σ'} (h : R fs fs') :
    List.Forall₂ R (states change rounds count fs) (states change' rounds count fs') := by
  induction rounds generalizing count fs fs' with
  | zero => exact .nil
  | succ rounds ih => exact .cons h (ih (count + 1) (hkeep _ fs fs' h))

/-! ## Reordered disks -/

/-- Whether a node is another one with its names in another order. -/
def Node.Reordered (n n' : Node) : Prop :=
  ∃ names, n.names.Perm names ∧ n' = { n with names := names }

namespace Disk

/-- Whether the nodes of a disk are those of another one, with their names in other orders. -/
def Reordered (d d' : Disk) : Prop :=
  ∀ key, Option.Rel Node.Reordered (d.node? key) (d'.node? key)

/-- Whether two nodes with keys stand at the same key, and are the same but for the order of
names. -/
structure ReorderedAt (n n' : Text × Node) : Prop where
  key : n.1 = n'.1
  node : n.2.Reordered n'.2

/-- Whether two edits delete the same keys, and set the same nodes but for the order of names. -/
structure Edits.Reordered (e e' : Edits) : Prop where
  deleted : e.deleted = e'.deleted
  set : List.Forall₂ ReorderedAt e.set e'.set

section Nodes

variable {d d' : Disk}

/-- At a key of reordered disks there is either nothing, or a node with other orders of names. -/
theorem node_cases {node? node?' : Option Node} (h : Option.Rel Node.Reordered node? node?') :
    (node? = none ∧ node?' = none) ∨
      ∃ n names, node? = some n ∧ n.names.Perm names ∧
        node?' = some { n with names := names } := by
  cases h with
  | none => exact .inl ⟨rfl, rfl⟩
  | some hnode =>
    obtain ⟨names, hperm, rfl⟩ := hnode
    exact .inr ⟨_, names, rfl, hperm, rfl⟩

theorem reordered_find? {nodes nodes' : List (Text × Node)}
    (h : List.Forall₂ ReorderedAt nodes nodes') (key : Text) :
    Option.Rel Node.Reordered ((nodes.find? fun n => n.1 = key).map (·.2))
      ((nodes'.find? fun n => n.1 = key).map (·.2)) := by
  induction h with
  | nil => exact .none
  | @cons n n' nodes nodes' hnode _ ih =>
    rw [List.find?_cons, List.find?_cons, ← hnode.key]
    split
    · exact .some hnode.node
    · exact ih

/-- Nodes that are set keep disks reordered, if they are reordered themselves. -/
theorem Reordered.set (h : d.Reordered d') {nodes nodes' : List (Text × Node)}
    (hnodes : List.Forall₂ ReorderedAt nodes nodes') :
    (d.set nodes).Reordered (d'.set nodes') := by
  intro key
  rw [node?_set, node?_set]
  obtain ⟨hfound, hfound'⟩ | ⟨n, names, hfound, hperm, hfound'⟩ :=
    node_cases (reordered_find? (List.forall₂_reverse_iff.mpr hnodes) key)
  · rw [hfound, hfound']
    exact h key
  · rw [hfound, hfound']
    exact .some ⟨names, hperm, rfl⟩

theorem Reordered.delete (h : d.Reordered d') (keys : List Text) :
    (d.delete keys).Reordered (d'.delete keys) := by
  intro key
  rw [node?_delete, node?_delete]
  split
  · exact .none
  · exact h key

/-- **Edits keep disks reordered.** -/
theorem Reordered.apply (h : d.Reordered d') {e e' : Edits} (he : e.Reordered e') :
    (d.apply e).Reordered (d'.apply e') := by
  unfold Disk.apply
  rw [← he.deleted]
  exact (h.delete e.deleted).set he.set

theorem reordered_empty : empty.Reordered empty := by
  intro key
  rw [node?_empty]
  exact .none

/-! ### Answers of reordered disks -/

theorem Reordered.lstat (h : d.Reordered d') (p : Path) : d.lstat p = d'.lstat p := by
  unfold Disk.lstat
  obtain ⟨hnode, hnode'⟩ | ⟨n, names, hnode, -, hnode'⟩ := node_cases (h p.text)
  · rw [hnode, hnode']
  · rw [hnode, hnode']

theorem Reordered.list (h : d.Reordered d') (p : Path) :
    (d.list p).map Text.sort = (d'.list p).map Text.sort := by
  unfold Disk.list
  obtain ⟨hnode, hnode'⟩ | ⟨n, names, hnode, hperm, hnode'⟩ := node_cases (h p.text)
  · rw [hnode, hnode']
  · rw [hnode, hnode']
    dsimp only
    unfold answer
    split
    · rfl
    · exact congrArg Except.ok (Text.sort_eq_of_perm hperm)

/-- Links lead to the same ends, for names are not looked at on the way. -/
theorem Reordered.follow (h : d.Reordered d') (p : Path) (links : Nat) (key : Text) :
    d.follow p links key = d'.follow p links key := by
  induction links generalizing key with
  | zero => rfl
  | succ links ih =>
    unfold Disk.follow
    obtain ⟨hnode, hnode'⟩ | ⟨n, names, hnode, -, hnode'⟩ := node_cases (h key)
    · rw [hnode, hnode']
    · rw [hnode, hnode']
      simp only [ih]

theorem Reordered.sameSorted (h : d.Reordered d') : SameSorted d d' where
  lstat := h.lstat
  list := h.list
  stat p := h.follow p linkLimit p.text

theorem Reordered.resume_eq (h : d.Reordered d') (w : Walk) : w.resume d = w.resume d' :=
  Walk.resume_eq_of_sameSorted h.sameSorted w

end Nodes

/-- Whether two runs have the same outcome, and edits that are the same but for the order of
names. -/
structure SameRun {α : Type} (run run' : Edits × α) : Prop where
  edits : run.1.Reordered run'.1
  outcome : run.2 = run'.2

theorem keeps_script {α : Type} {runs runs' : List (Edits × α)}
    (h : List.Forall₂ SameRun runs runs') :
    List.Forall₂ (Scan.Keeps Reordered) (script runs) (script runs') := by
  unfold script
  rw [List.forall₂_map_left_iff, List.forall₂_map_right_iff]
  exact h.imp fun run run' hrun => ⟨hrun.outcome, fun d d' hd => hd.apply hrun.edits⟩

end Disk

/-! ## Sweeps and commands -/

section Sweeps

variable {σ σ' α : Type} [FileSystem σ] [FileSystem σ'] {fs : σ} {fs' : σ'}
  {script : List (Attempt σ α)} {script' : List (Attempt σ' α)} {tester : Tester α} {budget : Nat}

/-- A sweep depends on the file system by its scan, and by the look for the executable. -/
theorem Sweep.run_congr {settings : Settings} {root : Path}
    (hfile : FileSystem.hasFile fs settings.executable =
      FileSystem.hasFile fs' settings.executable)
    (hscan : Scan.run tester settings root budget fs script =
      Scan.run tester settings root budget fs' script') :
    run tester settings root budget fs script = run tester settings root budget fs' script' := by
  rw [run, run, hfile, hscan]

/-- A command depends on the file system by its sweep. -/
theorem Command.run_congr
    (hsweep : ∀ settings root, Sweep.run tester settings root budget fs script =
      Sweep.run tester settings root budget fs' script') (argv : List Text) :
    run tester budget argv fs script = run tester budget argv fs' script' := by
  unfold run
  simp only [hsweep]

end Sweeps

/-! ## The whole statement -/

/-- **The order in which directories list their names is irrelevant.**  On two disks that differ
only in the order of names, and are edited in ways that differ only in the order of names, walks
ask and report the same; and with tests that have the same outcomes, scans, sweeps and commands
have the same events and the same end. -/
theorem listing_order_irrelevant (d d' : Disk) (h : d.Reordered d') :
    (∀ (edits edits' : Nat → Disk.Edits), (∀ n, (edits n).Reordered (edits' n)) →
      ∀ rounds root,
        let t := Walk.drive (fun n d => d.apply (edits n)) rounds d root
        let t' := Walk.drive (fun n d => d.apply (edits' n)) rounds d' root
        t.asked.map (·.2) = t'.asked.map (·.2) ∧ t.entries = t'.entries ∧ t.rest = t'.rest) ∧
    ∀ (α : Type) (tester : Tester α) (runs runs' : List (Disk.Edits × α)) (budget : Nat),
      List.Forall₂ Disk.SameRun runs runs' →
        let script := Disk.script runs
        let script' := Disk.script runs'
        (∀ settings root, Scan.run tester settings root budget d script =
          Scan.run tester settings root budget d' script') ∧
        (∀ settings root, Sweep.run tester settings root budget d script =
          Sweep.run tester settings root budget d' script') ∧
        ∀ argv, Command.run tester budget argv d script =
          Command.run tester budget argv d' script' := by
  refine ⟨?_, ?_⟩
  · intro edits edits' hedits rounds root
    rw [Walk.drive_eq_along, Walk.drive_eq_along]
    have hkeep : ∀ n (d d' : Disk), d.Reordered d' →
        (d.apply (edits n)).Reordered (d'.apply (edits' n)) :=
      fun n d d' hd => hd.apply (hedits n)
    have hstates := Walk.forall₂_states hkeep rounds 0 h
    exact Walk.along_eq_of_resume (hstates.imp fun d d' hd => hd.resume_eq) (.start root)
  · intro α tester runs runs' budget hruns script script'
    have hscan : ∀ settings root, Scan.run tester settings root budget d script =
        Scan.run tester settings root budget d' script' := fun settings root =>
      Scan.run_eq_of_keeps tester settings root budget (fun d d' hd => hd.resume_eq) h
        (Disk.keeps_script hruns)
    have hsweep : ∀ settings root, Sweep.run tester settings root budget d script =
        Sweep.run tester settings root budget d' script' := fun settings root =>
      Sweep.run_congr (h.sameSorted.hasFile settings.executable) (hscan settings root)
    exact ⟨hscan, hsweep, Command.run_congr hsweep⟩

/-! ### A small disk with two orders -/

/-- A directory with a file and another directory, in one order or another. -/
def tidyDisk (names : List Text) : Disk :=
  Disk.empty.set
    [("r", { kind := .dir, names := names }), ("r/a.chm", { kind := .file }),
      ("r/b", { kind := .dir })]

theorem reordered_tidyDisk {names names' : List Text} (h : names.Perm names') :
    (tidyDisk names).Reordered (tidyDisk names') := by
  refine Disk.reordered_empty.set (.cons ⟨rfl, names', h, rfl⟩ ?_)
  exact .cons ⟨rfl, _, .refl _, rfl⟩ (.cons ⟨rfl, _, .refl _, rfl⟩ .nil)

/-- The inner directory comes to name two files, in one order or another. -/
def fillEdits (names : List Text) : Disk.Edits where
  set := [("r/b", { kind := .dir, names := names }), ("r/b/x.chm", { kind := .file }),
    ("r/b/y.chm", { kind := .file })]

theorem reordered_fillEdits {names names' : List Text} (h : names.Perm names') :
    (fillEdits names).Reordered (fillEdits names') where
  deleted := rfl
  set := .cons ⟨rfl, names', h, rfl⟩
    (.cons ⟨rfl, _, .refl _, rfl⟩ (.cons ⟨rfl, _, .refl _, rfl⟩ .nil))

/-- Whichever order the directories give, a walk of the disk that is filled on the way reports
the same, and so does a command whose first test fills the disk, and whose last one fails. -/
theorem tidyDisk_order_irrelevant :
    let d := tidyDisk ["a.chm", "b"]
    let d' := tidyDisk ["b", "a.chm"]
    let fill := fillEdits ["x.chm", "y.chm"]
    let fill' := fillEdits ["y.chm", "x.chm"]
    let outcomes : List (Except Fault TestResult) := [.ok {}, .ok {}, .ok { failure := some "no" }]
    let argv : List Text := ["--test-exe", "r/a.chm", "r"]
    (Walk.drive (fun _ d => d.apply fill) 9 d Disk.sampleRoot).entries =
        (Walk.drive (fun _ d => d.apply fill') 9 d' Disk.sampleRoot).entries ∧
      Command.run .prepared 9 argv d (Disk.script (outcomes.map fun o => (fill, o))) =
        Command.run .prepared 9 argv d' (Disk.script (outcomes.map fun o => (fill', o))) := by
  intro d d' fill fill' outcomes argv
  have hd : d.Reordered d' := reordered_tidyDisk (by decide)
  have hfill : fill.Reordered fill' := reordered_fillEdits (by decide)
  have hruns : List.Forall₂ Disk.SameRun (outcomes.map fun o => (fill, o))
      (outcomes.map fun o => (fill', o)) := by
    rw [List.forall₂_map_left_iff, List.forall₂_map_right_iff]
    exact List.forall₂_same.mpr fun o _ => ⟨hfill, rfl⟩
  obtain ⟨hwalks, hscans⟩ := listing_order_irrelevant d d' hd
  obtain ⟨-, hentries, -⟩ :=
    hwalks (fun _ => fill) (fun _ => fill') (fun _ => hfill) 9 Disk.sampleRoot
  obtain ⟨-, -, hcommands⟩ := hscans _ .prepared _ _ 9 hruns
  exact ⟨hentries, hcommands argv⟩

end FileSweep
