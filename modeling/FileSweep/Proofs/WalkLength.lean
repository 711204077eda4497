import Mathlib
import FileSweep.Proofs.Reachable
import FileSweep.Proofs.Termination

/-!
# How long a walk is

A walk of a finite disk comes to rest, also if the disk is changed a number of times on the way:
after the last change the walk is one of a disk that stays as it is, and such a walk comes to rest
from whatever state it is in (`Walk.exists_rest_of_changes`).

How long it takes can be read off the disk if nothing changes and no name stands twice in a
listing.  Whatever is looked at was pending in the beginning, or has been named by a listing
(`Walk.lstats_length_le`), and no directory is listed twice.  So the names in all the directories
of the disk bound the looks, and each directory adds no more than one entry to those of the looks.
-/

namespace FileSweep

/-- Whether a node names only real parts. -/
def Node.NamesParts (n : Node) : Prop := ∀ name ∈ n.names, name.IsPart

instance (n : Node) : Decidable n.NamesParts := inferInstanceAs (Decidable (∀ _ ∈ _, _))

namespace Walk

variable {σ : Type}

/-! ## Changes that stop -/

/-- What a walk meets in some rounds is the beginning of what it meets in more. -/
theorem states_prefix (change : Nat → σ → σ) {rounds more : Nat} (h : rounds ≤ more)
    (count : Nat) (fs : σ) :
    states change rounds count fs <+: states change more count fs := by
  induction rounds generalizing more count fs with
  | zero => exact List.nil_prefix
  | succ rounds ih =>
    cases more with
    | zero => omega
    | succ more => exact (List.prefix_cons_inj fs).mpr (ih (by omega) (count + 1) _)

variable [FileSystem σ]

/-- A walk comes to rest if the changes stop, and all that they lead to is finite. -/
theorem exists_rest_of_changes {P : σ → Prop} {change : Nat → σ → σ} {last : Nat}
    (hfinite : ∀ fs, P fs → FileSystem.Finite fs) (hkeep : ∀ n fs, P fs → P (change n fs))
    (hlast : ∀ n > last, change n = id) (count : Nat) {fs : σ} (hfs : P fs) (w : Walk) :
    ∃ n, (along (states change n count fs) w).rest ≠ .suspended := by
  -- by the number of changes still to come
  suffices hleft : ∀ k count fs w, P fs → last ≤ count + k →
      ∃ n, (along (states change n count fs) w).rest ≠ .suspended from
    hleft last count fs w hfs (by omega)
  intro k
  induction k with
  | zero =>
    intro count fs w hfs hcount
    obtain ⟨n, hn⟩ := comesToRest (hfinite fs hfs) w
    refine ⟨n, ?_⟩
    rwa [states_of_still (fun m hm => hlast m (by omega))]
  | succ k ih =>
    intro count fs w hfs hcount
    cases hr : w.resume fs with
    | mk qs step =>
      cases step with
      | finished => exact ⟨1, by simp [states, along, hr]⟩
      | fault f => exact ⟨1, by simp [states, along, hr]⟩
      | entry e w' =>
        obtain ⟨n, hn⟩ := ih (count + 1) (change (count + 1) fs) w' (hkeep _ fs hfs) (by omega)
        exact ⟨n + 1, by simpa [states, along, hr] using hn⟩

/-- A driven walk that has come to rest does not go on in further rounds. -/
theorem drive_of_le {change : Nat → σ → σ} {rounds more : Nat} {fs : σ} {root : Path}
    (h : rounds ≤ more) (hrest : (drive change rounds fs root).rest ≠ .suspended) :
    drive change more fs root = drive change rounds fs root := by
  rw [drive_eq_along] at hrest
  rw [drive_eq_along, drive_eq_along]
  obtain ⟨later, hlater⟩ := states_prefix change h 0 fs
  rw [← hlater, along_append later hrest]

/-! ## Looks and listings -/

/-- A walk looks at no more paths than were pending and than its listings name. -/
theorem lstats_length_le {fs : σ} (fss : List σ) (w : Walk) (hfs : ∀ fs' ∈ fss, fs' = fs) :
    let t := along fss w
    t.lstats.length ≤
      w.pending.length + (t.lists.map fun p => (childrenAt fs p).length).sum := by
  induction fss, w using along_induction with
  | suspended w => simp
  | finished fs' later => simp
  | nul fs' later p rest hn => simp [along_nul hn]
  | looked fs' later p rest hn ih =>
    obtain ⟨rfl, hlater⟩ := List.forall_mem_cons.mp hfs
    have hle : _ ≤ rest.length + _ := ih hlater
    simp only [along_looked hn, Trace.lstats_ask_lstat, Trace.lstats_report,
      Trace.lists_ask_lstat, Trace.lists_report, List.length_cons]
    omega
  | unlisted fs' later p rest e hl ih =>
    obtain ⟨rfl, hlater⟩ := List.forall_mem_cons.mp hfs
    have hle : _ ≤ rest.length + _ := ih hlater
    simp only [along_unlisted hl, Trace.lstats_ask_list, Trace.lstats_report,
      Trace.lists_ask_list, Trace.lists_report, List.map_cons, List.sum_cons]
    omega
  | listed fs' later p rest names hl ih =>
    obtain ⟨rfl, -⟩ := List.forall_mem_cons.mp hfs
    have hle := ih hfs
    -- what comes to be pending is what the listing names
    have hchildren : (children p names).length = (childrenAt fs' p).length := by
      simp [children, childrenAt, hl, (Text.sort_perm names).length_eq]
    simp only [List.length_append, hchildren] at hle
    simp only [along_listed hl, Trace.lstats_ask_list, Trace.lists_ask_list, List.map_cons,
      List.sum_cons]
    omega

end Walk

/-! ## The directories of a disk -/

namespace Disk

/-- The nodes that are directories, with their keys. -/
def dirs (d : Disk) : List (Text × Node) := d.nodes.toList.filter fun n => n.2.kind = .dir

/-- How many names stand in the directories, all in all. -/
def nameCount (d : Disk) : Nat := (d.dirs.map fun n => n.2.names.length).sum

variable {d : Disk} {p : Path}

theorem mem_dirs {key : Text} {node : Node} :
    (key, node) ∈ d.dirs ↔ d.node? key = some node ∧ node.kind = .dir := by
  unfold dirs node?
  rw [List.mem_filter, Std.HashMap.mem_toList_iff_getElem?_eq_some, decide_eq_true_eq]

/-- Among nodes with different keys, each one is found by its key. -/
theorem find?_key {nodes : List (Text × Node)} (h : (nodes.map Prod.fst).Nodup) {key : Text}
    {node : Node} :
    (nodes.find? fun n => n.1 = key) = some (key, node) ↔ (key, node) ∈ nodes := by
  induction nodes with
  | nil => simp
  | cons n nodes ih => grind

/-- The directories of a disk that is written down are those that are written. -/
theorem dirs_set_empty (nodes : List (Text × Node)) (h : (nodes.map Prod.fst).Nodup) :
    (empty.set nodes).dirs.Perm (nodes.filter fun n => n.2.kind = .dir) := by
  have hkeys : ((empty.set nodes).nodes.toList.map Prod.fst).Nodup := by
    rw [Std.HashMap.map_fst_toList_eq_keys]
    exact Std.HashMap.nodup_keys
  have hreverse : (nodes.reverse.map Prod.fst).Nodup := by
    rwa [List.map_reverse, List.nodup_reverse]
  refine (List.perm_ext_iff_of_nodup ((hkeys.of_map _).filter _) ((h.of_map _).filter _)).mpr ?_
  rintro ⟨key, node⟩
  have hnode : (empty.set nodes).node? key = some node ↔ (key, node) ∈ nodes := by
    rw [node?_set, node?_empty, Option.or_none, ← List.mem_reverse, ← find?_key hreverse,
      Option.map_eq_some_iff]
    constructor
    · rintro ⟨⟨key', node'⟩, hn, rfl⟩
      obtain rfl : key' = key := by simpa using List.find?_some hn
      exact hn
    · exact fun hn => ⟨_, hn, rfl⟩
  calc (key, node) ∈ (empty.set nodes).dirs
      ↔ (key, node) ∈ nodes ∧ node.kind = .dir := by rw [mem_dirs, hnode]
    _ ↔ (key, node) ∈ nodes.filter fun n => n.2.kind = .dir := by simp

theorem mem_keys_of_lstat (h : FileSystem.lstat d p = .ok .dir) :
    p.text ∈ d.dirs.map Prod.fst := by
  obtain ⟨node, hnode⟩ := exists_node_of_lstat h
  refine List.mem_map.mpr ⟨(p.text, node), mem_dirs.mpr ⟨hnode, ?_⟩, rfl⟩
  change d.lstat p = .ok .dir at h
  simp only [lstat, hnode, answer] at h
  split at h
  · cases h
  · exact Except.ok.inj h

/-- How many names stand in the node of a key. -/
def namesAt (d : Disk) (key : Text) : Nat := ((d.node? key).map fun n => n.names.length).getD 0

theorem nameCount_eq (d : Disk) : d.nameCount = ((d.dirs.map Prod.fst).map d.namesAt).sum := by
  unfold nameCount
  rw [List.map_map]
  refine congrArg List.sum (List.map_congr_left fun n hn => ?_)
  simp [namesAt, (mem_dirs.mp hn).1]

theorem childrenAt_length_le (d : Disk) (p : Path) :
    (childrenAt d p).length ≤ d.namesAt p.text := by
  unfold childrenAt
  split
  · rename_i names hlist
    obtain ⟨node, hnode, rfl⟩ := exists_node_of_list hlist
    simp [namesAt, hnode]
  · exact Nat.zero_le _

/-- Directories that are all different are no more than a disk has, and no more names stand in
them. -/
theorem bounded_by_dirs {ps : List Path} (hnodup : ps.Nodup)
    (hdir : ∀ p ∈ ps, FileSystem.lstat d p = .ok .dir) :
    ps.length ≤ d.dirs.length ∧
      (ps.map fun p => (childrenAt d p).length).sum ≤ d.nameCount := by
  have hsubset : ps.map Path.text ⊆ d.dirs.map Prod.fst := by
    intro key hkey
    obtain ⟨p, hp, rfl⟩ := List.mem_map.mp hkey
    exact mem_keys_of_lstat (hdir p hp)
  obtain ⟨keys, hperm, hsublist⟩ := (Walk.nodup_map_text hnodup).subperm hsubset
  constructor
  · simpa [hperm.length_eq] using hsublist.length_le
  · calc (ps.map fun p => (childrenAt d p).length).sum
        ≤ (ps.map fun p => d.namesAt p.text).sum :=
          List.sum_le_sum fun p _ => d.childrenAt_length_le p
      _ = (keys.map d.namesAt).sum := by
          rw [(hperm.map d.namesAt).sum_eq, List.map_map]
          rfl
      _ ≤ ((d.dirs.map Prod.fst).map d.namesAt).sum :=
          (hsublist.map d.namesAt).sum_le_sum fun _ _ => Nat.zero_le _
      _ = d.nameCount := d.nameCount_eq.symm

/-- **How much a walk does** on a disk that stays as it is: it looks once at its root and for
each name in a directory at most, and reports no more than these looks and the directories. -/
theorem walk_bounded (hparts : d.Holds Node.NamesParts) (honce : d.Holds fun n => n.names.Nodup)
    (rounds : Nat) (root : Path) :
    let t := Walk.drive (fun _ => id) rounds d root
    t.lstats.length ≤ 1 + d.nameCount ∧
      t.entries.length ≤ 1 + d.nameCount + d.dirs.length := by
  rw [Walk.drive_eq_along, Walk.states_id]
  have hhere : ∀ d' ∈ List.replicate rounds d, d' = d := fun d' => List.eq_of_mem_replicate
  have hnames : (Walk.along (List.replicate rounds d) (.start root)).HasNames := by
    intro d' p names hasked hlist
    rw [hhere d' (Walk.mem_of_asked hasked)] at hlist
    obtain ⟨node, hnode, rfl⟩ := exists_node_of_list hlist
    exact ⟨hparts p.text node hnode, honce p.text node hnode⟩
  have hlists := Walk.lists_sublist (List.replicate rounds d) (.start root)
  have hlooks := Walk.lstats_length_le (List.replicate rounds d) (.start root) hhere
  have hentries := Walk.entries_length_le (List.replicate rounds d) (.start root)
  have hdirs := (Walk.asked_reachable d root rounds).2
  have hnodup := hlists.nodup (Walk.lstats_nodup (.start root) hnames)
  obtain ⟨hlength, hsum⟩ := bounded_by_dirs hnodup fun p hp => (hdirs p hp).2
  simp only [Walk.start, List.length_singleton] at hlooks hentries hlength hsum ⊢
  omega

end Disk

/-- **The walk ends.**  On a disk whose nodes name only real parts, a walk comes to rest from
every root, also if the disk is changed a number of times between its entries, as long as it
stays such a disk; and it comes to rest at its end, unless it meets a path with a NUL.  Hence a
scan ends, too, whatever its tests change and however they end, for when the script is used up
all further tests have the usual outcome and change nothing.  On a disk that stays as it is, and
on which no directory names anything twice, a walk looks once at its root and once for each name
in a directory, at most; and what it reports are these looks, and at most one further entry for
each directory. -/
theorem walk_ends (d : Disk) (root : Path) (hd : d.Holds Node.NamesParts) :
    (∀ (change : Nat → Disk → Disk) (last : Nat),
      (∀ n (d' : Disk), d'.Holds Node.NamesParts → (change n d').Holds Node.NamesParts) →
      (∀ n > last, change n = id) →
      ∃ enough, ∀ rounds ≥ enough,
        let t := Walk.drive change rounds d root
        t.rest = .finished ∨
          t.rest = .fault .nulInPath ∧ ∃ p ∈ t.lstats, p.hasNul = true) ∧
    (∀ (α : Type) (tester : Tester α) (settings : Settings) (script : List (Attempt Disk α)),
      (∀ a ∈ script, ∀ d' : Disk, d'.Holds Node.NamesParts →
        (a.change d').Holds Node.NamesParts) →
      ∃ enough, ∀ budget ≥ enough,
        (Scan.run tester settings root budget d script).2 ≠ .unfinished) ∧
    ((d.Holds fun n => n.names.Nodup) → ∀ rounds,
      let t := Walk.drive (fun _ => id) rounds d root
      t.lstats.length ≤ 1 + d.nameCount ∧
        t.entries.length ≤ 1 + d.nameCount + d.dirs.length) := by
  have hfinite : ∀ d' : Disk, d'.Holds Node.NamesParts → FileSystem.Finite d' :=
    fun d' => Disk.finite fun _ hnode => hnode
  refine ⟨?_, ?_, ?_⟩
  · intro change last hkeep hlast
    obtain ⟨enough, henough⟩ :=
      Walk.exists_rest_of_changes hfinite hkeep hlast 0 hd (.start root)
    rw [← Walk.drive_eq_along] at henough
    refine ⟨enough, fun rounds hle => ?_⟩
    rw [Walk.drive_of_le hle henough]
    dsimp only
    rw [Walk.drive_eq_along] at henough ⊢
    cases hrest : (Walk.along (Walk.states change enough 0 d) (.start root)).rest with
    | finished => exact .inl rfl
    | suspended => exact absurd hrest henough
    | fault f =>
      obtain ⟨rfl, hnul⟩ := Walk.rest_fault hrest
      exact .inr ⟨rfl, hnul⟩
  · intro α tester settings script hkeep
    refine Scan.exists_budget tester settings root d script fun d' hd' => hfinite d' ?_
    exact Scan.forall_stages hd hkeep d' hd'
  · exact fun honce rounds => Disk.walk_bounded hd honce rounds root

/-! ### A small disk with a knot -/

/-- A directory with a link back to it, a directory that cannot be listed, and a name behind
which there is nothing. -/
def knottedNodes : List (Text × Node) :=
  [("r", { kind := .dir, names := ["l", "d", "gone"] }),
    ("r/l", { kind := .symlink, target := "r" }),
    ("r/d", { kind := .dir, names := ["x.chm"], listRefused := some ⟨13, "no"⟩ })]

/-- The disk with these nodes. -/
def knottedDisk : Disk := Disk.empty.set knottedNodes

/-- A directory with a name in it comes to be where there was nothing. -/
def knottedEdits : Disk.Edits where
  set := [("r/gone", { kind := .dir, names := ["y.chm"] })]

theorem namesParts_knottedEdits {d : Disk} (hd : d.Holds Node.NamesParts) :
    (d.apply knottedEdits).Holds Node.NamesParts :=
  hd.apply (by decide)

/-- The walk ends although a link leads back, and although the disk grows after its first entry;
so does a scan whose first test lets it grow.  On the disk as it is, with four names in two
directories, a walk has no more than five looks and seven entries. -/
theorem knottedDisk_walk_ends :
    let grow := fun n (d : Disk) => if n = 1 then d.apply knottedEdits else d
    let script : List (Attempt Disk (Except Fault TestResult)) :=
      [⟨fun d => d.apply knottedEdits, .ok {}⟩]
    (∃ enough, ∀ rounds ≥ enough,
      let t := Walk.drive grow rounds knottedDisk Disk.sampleRoot
      t.rest = .finished ∨ t.rest = .fault .nulInPath ∧ ∃ p ∈ t.lstats, p.hasNul = true) ∧
    (∃ enough, ∀ budget ≥ enough,
      (Scan.run .prepared .default Disk.sampleRoot budget knottedDisk script).2 ≠ .unfinished) ∧
    ∀ rounds,
      let t := Walk.drive (fun _ => id) rounds knottedDisk Disk.sampleRoot
      t.lstats.length ≤ 5 ∧ t.entries.length ≤ 7 := by
  intro grow script
  have hd : knottedDisk.Holds Node.NamesParts := (Disk.holds_empty _).set (by decide)
  have honce : knottedDisk.Holds fun n => n.names.Nodup := (Disk.holds_empty _).set (by decide)
  obtain ⟨hdriven, hscanned, hbounded⟩ := walk_ends knottedDisk Disk.sampleRoot hd
  refine ⟨hdriven grow 1 ?_ ?_, hscanned _ .prepared .default script ?_, fun rounds => ?_⟩
  · intro n d hd
    by_cases hn : n = 1
    · simpa [grow, hn] using namesParts_knottedEdits hd
    · simpa [grow, hn] using hd
  · intro n hn
    have hlater : n ≠ 1 := by omega
    funext d
    simp [grow, hlater]
  · intro a ha d hd
    rw [List.mem_singleton.mp ha]
    exact namesParts_knottedEdits hd
  · have hperm := Disk.dirs_set_empty knottedNodes (by decide)
    have hcount : knottedDisk.nameCount = 4 := (hperm.map _).sum_eq
    have hdirs : knottedDisk.dirs.length = 2 := hperm.length_eq
    have hbound := hbounded honce rounds
    rw [hcount, hdirs] at hbound
    exact hbound

end FileSweep
