import FileSweep.Disk
import FileSweep.Proofs.PathOrder
import FileSweep.Proofs.PathText

/-!
# The nodes of a disk

What is asked of a disk is answered by one of its nodes.  So a property of nodes that all of
them have (`Disk.Holds`) tells about every answer, and it is kept by every edit that sets only
nodes which have it.  The property of interest here is that a node names only what a real
directory can name (`Node.WellNamed`).

A disk has finitely many nodes, and the key of a node is the text of no more than one path;
hence it has finitely many places, whatever it names.
-/

namespace FileSweep

/-- Whether the names in a node are different real ones, without NULs. -/
def Node.WellNamed (n : Node) : Prop :=
  Text.AreNames n.names ∧ ∀ name ∈ n.names, name.has (Char.ofNat 0) = false

instance (n : Node) : Decidable n.WellNamed := inferInstanceAs (Decidable (_ ∧ _))

namespace Disk

/-! ## Properties of all nodes -/

/-- Whether all nodes have a property. -/
def Holds (P : Node → Prop) (d : Disk) : Prop := ∀ key node, d.node? key = some node → P node

variable {P : Node → Prop} {d : Disk} {p : Path}

theorem holds_empty (P : Node → Prop) : empty.Holds P := by
  intro key node h
  rw [node?_empty] at h
  cases h

theorem Holds.set (h : d.Holds P) {nodes : List (Text × Node)} (hnodes : ∀ n ∈ nodes, P n.2) :
    (d.set nodes).Holds P := by
  intro key node hnode
  rw [node?_set, Option.or_eq_some_iff] at hnode
  rcases hnode with hset | ⟨-, hold⟩
  · obtain ⟨n, hn, rfl⟩ := Option.map_eq_some_iff.mp hset
    exact hnodes n (List.mem_reverse.mp (List.mem_of_find?_eq_some hn))
  · exact h key node hold

theorem Holds.delete (h : d.Holds P) (keys : List Text) : (d.delete keys).Holds P := by
  intro key node hnode
  rw [node?_delete] at hnode
  split at hnode
  · cases hnode
  · exact h key node hnode

/-- **An edit keeps what holds of all nodes**, if it holds of those that it sets. -/
theorem Holds.apply (h : d.Holds P) {e : Edits} (he : ∀ n ∈ e.set, P n.2) :
    (d.apply e).Holds P :=
  (h.delete e.deleted).set he

/-! ## Edits at a key -/

/-- The keys that an edit deletes or sets. -/
def Edits.keys (e : Edits) : List Text := e.deleted ++ e.set.map Prod.fst

/-- An edit leaves alone what it does not touch. -/
theorem node?_apply_of_notMem {e : Edits} {key : Text} (h : key ∉ e.keys) (d : Disk) :
    (d.apply e).node? key = d.node? key := by
  rw [Edits.keys, List.mem_append, not_or] at h
  obtain ⟨hdeleted, hset⟩ := h
  have hnone : e.set.reverse.find? (fun n => n.1 = key) = none := by
    rw [List.find?_eq_none]
    intro n hn hkey
    have hmem := List.mem_map_of_mem (f := Prod.fst) (List.mem_reverse.mp hn)
    exact hset (of_decide_eq_true hkey ▸ hmem)
  rw [apply, node?_set, node?_delete, hnone, if_neg hdeleted]
  rfl

/-- What an edit leaves at a key that it touches does not depend on what was there. -/
theorem node?_apply_of_mem {e : Edits} {key : Text} (h : key ∈ e.keys) (d d' : Disk) :
    (d.apply e).node? key = (d'.apply e).node? key := by
  rw [apply, apply, node?_set, node?_set, node?_delete, node?_delete]
  by_cases hdeleted : key ∈ e.deleted
  · rw [if_pos hdeleted, if_pos hdeleted]
  · have hset := (List.mem_append.mp h).resolve_left hdeleted
    obtain ⟨n, hn, hkey⟩ := List.mem_map.mp hset
    have hsome : (e.set.reverse.find? fun n => n.1 = key).isSome = true := by
      rw [List.find?_isSome]
      exact ⟨n, List.mem_reverse.mpr hn, by simpa using hkey⟩
    obtain ⟨m, hm⟩ := Option.isSome_iff_exists.mp hsome
    rw [hm]
    rfl

/-! ## Answers -/

theorem exists_node_of_lstat {kind : Kind} (h : FileSystem.lstat d p = .ok kind) :
    ∃ node, d.node? p.text = some node := by
  change d.lstat p = .ok kind at h
  unfold lstat at h
  cases hn : d.node? p.text with
  | none => simp [hn] at h
  | some node => exact ⟨node, rfl⟩

/-- The names in a listing are those of a node. -/
theorem exists_node_of_list {names : List Text} (h : FileSystem.list d p = .ok names) :
    ∃ node, d.node? p.text = some node ∧ node.names = names := by
  change d.list p = .ok names at h
  unfold list at h
  cases hn : d.node? p.text with
  | none => simp [hn] at h
  | some node =>
    refine ⟨node, rfl, ?_⟩
    simp only [hn, answer] at h
    split at h
    · cases h
    · exact Except.ok.inj h

theorem Holds.names (hd : d.Holds Node.WellNamed) {names : List Text}
    (h : FileSystem.list d p = .ok names) :
    Text.AreNames names ∧ ∀ name ∈ names, name.has (Char.ofNat 0) = false := by
  obtain ⟨node, hnode, rfl⟩ := exists_node_of_list h
  exact hd _ node hnode

/-- **A disk has finitely many places.** -/
theorem exists_paths (d : Disk) :
    ∃ ps : List Path, ∀ p kind, FileSystem.lstat d p = .ok kind → p ∈ ps := by
  refine ⟨d.nodes.keys.map Path.ofText, ?_⟩
  intro p kind h
  obtain ⟨node, hnode⟩ := exists_node_of_lstat h
  refine List.mem_map.mpr ⟨p.text, ?_, p.ofText_text⟩
  rw [Std.HashMap.mem_keys, Std.HashMap.mem_iff_isSome_getElem?]
  exact Option.isSome_iff_exists.mpr ⟨node, hnode⟩

/-! ## A small disk -/

/-- A directory with a file and another directory, in which there is one more file. -/
def sample : Disk :=
  empty.set
    [("r", { kind := .dir, names := ["b.chm", "a"] }),
      ("r/a", { kind := .dir, names := ["x.chm"] }),
      ("r/a/x.chm", { kind := .file }),
      ("r/b.chm", { kind := .file })]

/-- The path of the directory. -/
def sampleRoot : Path := .ofText "r"

/-- Its listing comes to hold another name, and the file named before is gone. -/
def sampleEdits : Edits where
  deleted := ["r/b.chm"]
  set := [("r", { kind := .dir, names := ["a", "c.chm"] }), ("r/c.chm", { kind := .file })]

theorem wellNamed_sample : sample.Holds Node.WellNamed :=
  (holds_empty _).set (by decide)

theorem wellNamed_sampleEdits : ∀ n ∈ sampleEdits.set, n.2.WellNamed := by
  decide

end Disk

end FileSweep
