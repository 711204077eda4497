import Mathlib.Data.List.Forall2
import FileSweep.Proofs.Ahead
import FileSweep.Proofs.ScanEnd

/-!
# Two scans in lockstep

Two scans of different file systems are the same if they can be kept in step: there is a
relation between their states under which the next round of both walks is the same, the same
files have been tested, and the next test has the same outcome in both; and each way in which
a scan goes on leads from related states to related ones (`Scan.Lockstep`).  Nothing is said of
the file systems themselves, so the relation may be as loose as the walk allows.

The relation may also depend on the number of steps that are left, which is what lets it speak
of the files that will be tested in them.  A relation between file systems alone is enough if
walks cannot tell related ones apart, and if all tests keep it (`Scan.Keeps`).

Where a link leads has no part in the answers of a disk (`Disk.sameAt_of_seen`).  An edit leaves two
disks with the same answers at a path if they had the same answers there (`Disk.sameAt_apply`),
and leaves the answers alone at all paths that it does not touch
(`Disk.sameAt_apply_of_notMem`).
-/

namespace FileSweep

namespace Scan

variable {σ σ' α : Type} [FileSystem σ] [FileSystem σ']

/-- **What keeps two scans in step**: a relation between them, for every number of steps left,
that makes the next step the same and is kept by it. -/
structure Lockstep (tester : Tester α) (settings : Settings)
    (Rel : Nat → Scan σ α → Scan σ' α → Prop) : Prop where
  resume : ∀ n s s', Rel (n + 1) s s' → s.walk.resume s.fs = s'.walk.resume s'.fs
  tested : ∀ n s s', Rel (n + 1) s s' → s.tested = s'.tested
  outcome : ∀ n s s', Rel (n + 1) s s' →
    (attemptAt tester s.script 0).outcome = (attemptAt tester s'.script 0).outcome
  passedOver : ∀ n s s' qs e w, Rel (n + 1) s s' → s.walk.resume s.fs = (qs, .entry e w) →
    settings.chooses e = false → Rel n { s with walk := w } { s' with walk := w }
  passed : ∀ n s s' qs e w result, Rel (n + 1) s s' → s.walk.resume s.fs = (qs, .entry e w) →
    settings.chooses e = true →
    verdictAt tester settings.executable s.script 0 e.path = .ok result →
    result.failure = none → Rel n (s.afterTest tester w e.path) (s'.afterTest tester w e.path)

namespace Lockstep

variable {tester : Tester α} {settings : Settings} {Rel : Nat → Scan σ α → Scan σ' α → Prop}
  {n : Nat} {s : Scan σ α} {s' : Scan σ' α}

theorem verdictAt_eq (h : Lockstep tester settings Rel) (hrel : Rel (n + 1) s s') (p : Path) :
    verdictAt tester settings.executable s'.script 0 p =
      verdictAt tester settings.executable s.script 0 p := by
  rw [verdictAt, verdictAt, h.outcome n s s' hrel]

theorem testing_eq (h : Lockstep tester settings Rel) (hrel : Rel (n + 1) s s') (p : Path) :
    testing tester settings.executable s' p = testing tester settings.executable s p := by
  rw [testing, testing, h.outcome n s s' hrel]

/-- **Scans that can be kept in step are the same.** -/
theorem course_eq (h : Lockstep tester settings Rel) (root : Path) (budget : Nat)
    (s : Scan σ α) (s' : Scan σ' α) (hrel : Rel budget s s') :
    course tester settings root budget s = course tester settings root budget s' := by
  induction budget, s using @course_induction σ α _ tester settings generalizing s' with
  | unfinished s => rfl
  | finished budget s qs hr =>
    have hr' := (h.resume budget s s' hrel).symm.trans hr
    rw [course_ended (step_finished hr), course_ended (step_finished hr'),
      h.tested budget s s' hrel]
  | fault budget s qs f hr =>
    have hr' := (h.resume budget s s' hrel).symm.trans hr
    rw [course_ended (step_fault hr), course_ended (step_fault hr')]
  | passedOver budget s qs e w hr hc ih =>
    have hr' := (h.resume budget s s' hrel).symm.trans hr
    have hnext := h.passedOver budget s s' qs e w hrel hr hc
    rw [course_going (step_passedOver hr hc), course_going (step_passedOver hr' hc), ih _ hnext]
  | broken budget s qs e w f hr hc hv =>
    have hr' := (h.resume budget s s' hrel).symm.trans hr
    have hv' := (h.verdictAt_eq hrel e.path).trans hv
    rw [course_ended (step_broken hr hc hv), course_ended (step_broken hr' hc hv'),
      h.testing_eq hrel]
  | failed budget s qs e w result failure hr hc hv hf =>
    have hr' := (h.resume budget s s' hrel).symm.trans hr
    have hv' := (h.verdictAt_eq hrel e.path).trans hv
    rw [course_ended (step_failed hr hc hv hf), course_ended (step_failed hr' hc hv' hf),
      h.testing_eq hrel, h.tested budget s s' hrel]
  | passed budget s qs e w result hr hc hv hf ih =>
    have hr' := (h.resume budget s s' hrel).symm.trans hr
    have hv' := (h.verdictAt_eq hrel e.path).trans hv
    have hnext := h.passed budget s s' qs e w result hrel hr hc hv hf
    rw [course_going (step_passed hr hc hv hf), course_going (step_passed hr' hc hv' hf),
      h.testing_eq hrel, ih _ hnext]

end Lockstep

end Scan

/-! ## Relations that tests keep -/

namespace Scan

section Keeps

variable {σ σ' α : Type} {R : σ → σ' → Prop} {script : List (Attempt σ α)}
  {script' : List (Attempt σ' α)}

theorem forall₂_tail {S : Attempt σ α → Attempt σ' α → Prop}
    (h : List.Forall₂ S script script') : List.Forall₂ S script.tail script'.tail := by
  cases h with
  | nil => exact .nil
  | cons hhead htail => exact htail

/-- Whether two attempts have the same outcome and keep a relation between file systems. -/
structure Keeps (R : σ → σ' → Prop) (a : Attempt σ α) (a' : Attempt σ' α) : Prop where
  outcome : a.outcome = a'.outcome
  change : ∀ fs fs', R fs fs' → R (a.change fs) (a'.change fs')

theorem keeps_attemptAt (tester : Tester α) (h : List.Forall₂ (Keeps R) script script') :
    Keeps R (attemptAt tester script 0) (attemptAt tester script' 0) := by
  cases h with
  | nil => exact ⟨rfl, fun fs fs' hR => hR⟩
  | cons hhead htail => exact hhead

/-- Two scans that have come equally far, in related file systems, with attempts to come that
keep the relation. -/
structure Alongside (R : σ → σ' → Prop) (s : Scan σ α) (s' : Scan σ' α) : Prop where
  walk : s.walk = s'.walk
  tested : s.tested = s'.tested
  script : List.Forall₂ (Keeps R) s.script s'.script
  fs : R s.fs s'.fs

variable [FileSystem σ] [FileSystem σ'] (tester : Tester α) (settings : Settings)

theorem lockstep_alongside
    (hround : ∀ fs fs', R fs fs' → ∀ w : Walk, w.resume fs = w.resume fs') :
    Lockstep tester settings fun _ (s : Scan σ α) (s' : Scan σ' α) => Alongside R s s' where
  resume _ s s' h := by
    rw [← h.walk]
    exact hround s.fs s'.fs h.fs s.walk
  tested _ _ _ h := h.tested
  outcome _ _ _ h := (keeps_attemptAt tester h.script).outcome
  passedOver _ _ _ _ _ _ h _ _ := ⟨rfl, h.tested, h.script, h.fs⟩
  passed _ s s' _ e _ _ h _ _ _ _ :=
    { walk := rfl
      tested := congrArg (· ++ [e.path]) h.tested
      script := forall₂_tail h.script
      fs := (keeps_attemptAt tester h.script).change s.fs s'.fs h.fs }

/-- **Scans in related file systems are the same**, if no round of a walk can tell these apart
and the tests keep the relation. -/
theorem run_eq_of_keeps (root : Path) (budget : Nat)
    (hround : ∀ fs fs', R fs fs' → ∀ w : Walk, w.resume fs = w.resume fs')
    {fs : σ} {fs' : σ'} (h : R fs fs') (hscript : List.Forall₂ (Keeps R) script script') :
    run tester settings root budget fs script = run tester settings root budget fs' script' := by
  have hcourse := (lockstep_alongside tester settings hround).course_eq root budget
    (start fs root script) (start fs' root script') ⟨rfl, rfl, hscript, h⟩
  rw [run_eq_course, run_eq_course, hcourse]

end Keeps

end Scan

/-! ## Disks that are edited -/

/-- Whether a node names only entries. -/
def Node.NamesEntries (n : Node) : Prop := ∀ name ∈ n.names, name.IsEntryName

instance (n : Node) : Decidable n.NamesEntries := inferInstanceAs (Decidable (∀ _ ∈ _, _))

/-- What a walk can find out about a node: all but where a link leads. -/
def Node.seen (n : Node) : Node := { n with target := [], statRefused := none }

namespace Disk

variable {d d' : Disk} {p : Path}

theorem Holds.namesEntries (h : d.Holds Node.NamesEntries) : FileSystem.NamesEntries d := by
  intro p names hlist name hname
  obtain ⟨node, hnode, rfl⟩ := exists_node_of_list hlist
  exact h _ node hnode name hname

theorem lstat_eq_seen (d : Disk) (p : Path) :
    d.lstat p = match (d.node? p.text).map Node.seen with
      | none => .error (.missing p.text)
      | some node => answer p node.lstatRefused node.kind := by
  unfold lstat
  cases d.node? p.text <;> rfl

theorem list_eq_seen (d : Disk) (p : Path) :
    d.list p = match (d.node? p.text).map Node.seen with
      | none => .error (.missing p.text)
      | some node => answer p node.listRefused node.names := by
  unfold list
  cases d.node? p.text <;> rfl

theorem sameAt_of_seen
    (h : (d.node? p.text).map Node.seen = (d'.node? p.text).map Node.seen) : SameAt d d' p where
  lstat := by
    show d.lstat p = d'.lstat p
    rw [lstat_eq_seen, lstat_eq_seen, h]
  list := by
    show d.list p = d'.list p
    rw [list_eq_seen, list_eq_seen, h]

theorem sameAt_of_node? (h : d.node? p.text = d'.node? p.text) : SameAt d d' p :=
  sameAt_of_seen (congrArg (Option.map Node.seen) h)

/-- An edit keeps two disks in agreement. -/
theorem sameAt_apply (h : SameAt d d' p) (e : Edits) : SameAt (d.apply e) (d'.apply e) p := by
  by_cases hkey : p.text ∈ e.keys
  · exact sameAt_of_node? (node?_apply_of_mem hkey d d')
  · have hold : SameAt (d.apply e) d p := sameAt_of_node? (node?_apply_of_notMem hkey d)
    have hold' : SameAt d' (d'.apply e) p :=
      sameAt_of_node? (node?_apply_of_notMem hkey d').symm
    exact (hold.trans h).trans hold'

/-- An edit does not change the answers at a path that it does not touch. -/
theorem sameAt_apply_of_notMem {e : Edits} (h : p.text ∉ e.keys) (d : Disk) :
    SameAt (d.apply e) d p :=
  sameAt_of_node? (node?_apply_of_notMem h d)

/-- A script of tests that edit the disk. -/
def script {α : Type} (runs : List (Edits × α)) : List (Attempt Disk α) :=
  runs.map fun run => ⟨fun d => d.apply run.1, run.2⟩

end Disk

end FileSweep
