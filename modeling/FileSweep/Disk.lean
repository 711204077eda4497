import Std.Data.HashMap
import FileSweep.FileSystem

/-!
# A file system as a table

A `Disk` is a finite table from path texts to nodes, and answers every question by one
look at the table.  No path is resolved: a link names its target by the target's key, and
two texts are the same place only if they are equal.  Any question may be told to fail.

Tables change by `Edits`: first some keys are deleted, then some nodes are set.
-/

namespace FileSweep

/-- One place of a disk, with what is answered about it. -/
structure Node where
  kind : Kind
  /-- the names of a listing, in the order in which it gives them -/
  names : List Text := []
  /-- the key that a link points to -/
  target : Text := []
  lstatRefused : Option Refusal := none
  listRefused : Option Refusal := none
  statRefused : Option Refusal := none

/-- A finite file system. -/
structure Disk where
  nodes : Std.HashMap Text Node

namespace Disk

/-- The disk without any place. -/
def empty : Disk := ⟨∅⟩

/-- The node of a key. -/
def node? (d : Disk) (key : Text) : Option Node := d.nodes[key]?

/-- Puts nodes at keys; the last one for a key counts. -/
def set (d : Disk) (nodes : List (Text × Node)) : Disk :=
  ⟨nodes.foldl (fun table (key, node) => table.insert key node) d.nodes⟩

/-- Deletes keys. -/
def delete (d : Disk) (keys : List Text) : Disk :=
  ⟨keys.foldl (fun table key => table.erase key) d.nodes⟩

/-! ## The table after a change -/

@[simp] theorem node?_empty (key : Text) : empty.node? key = none :=
  Std.HashMap.getElem?_empty

/-- What is at a key is what was set there last, or else what was there before. -/
theorem node?_set (d : Disk) (nodes : List (Text × Node)) (key : Text) :
    (d.set nodes).node? key =
      ((nodes.reverse.find? fun n => n.1 = key).map (·.2)).or (d.node? key) := by
  unfold node? set
  induction nodes generalizing d with
  | nil => rfl
  | cons n nodes ih =>
    rw [List.foldl_cons, ih ⟨d.nodes.insert n.1 n.2⟩, List.reverse_cons, List.find?_append,
      Std.HashMap.getElem?_insert]
    by_cases h : n.1 = key <;>
      cases nodes.reverse.find? (fun n => n.1 = key) <;> simp [h]

/-- Nothing is left at a deleted key, and nothing changes at the others. -/
theorem node?_delete (d : Disk) (keys : List Text) (key : Text) :
    (d.delete keys).node? key = if key ∈ keys then none else d.node? key := by
  unfold node? delete
  induction keys generalizing d with
  | nil => simp
  | cons k keys ih =>
    rw [List.foldl_cons, ih ⟨d.nodes.erase k⟩, Std.HashMap.getElem?_erase]
    by_cases hk : key ∈ keys
    · simp [hk]
    · by_cases h : k = key
      · simp [h]
      · simp [h, hk, Ne.symm h]

/-! ## Answers -/

/-- What a question that can be refused is answered with. -/
def answer {α : Type} (p : Path) (refused : Option Refusal) (value : α) : Except OsError α :=
  match refused with
  | some r => .error (r.error (some (.file p.text)))
  | none => .ok value

/-- The kind at a path, links not followed. -/
def lstat (d : Disk) (p : Path) : Except OsError Kind :=
  match d.node? p.text with
  | none => .error (.missing p.text)
  | some node => answer p node.lstatRefused node.kind

/-- The names listed at a path. -/
def list (d : Disk) (p : Path) : Except OsError (List Text) :=
  match d.node? p.text with
  | none => .error (.missing p.text)
  | some node => answer p node.listRefused node.names

/-- The kind found from `key` by following at most `links` nodes; errors speak of `p`. -/
def follow (d : Disk) (p : Path) : (links : Nat) → (key : Text) → Except OsError Kind
  | 0, _ => .error (.tooManyLinks p.text)
  | links + 1, key =>
    match d.node? key with
    | none => .error (.missing p.text)
    | some node =>
      match node.statRefused with
      | some r => .error (r.error (some (.file p.text)))
      | none => if node.kind = .symlink then d.follow p links node.target else .ok node.kind

/-- How many nodes are looked at before a chain of links is given up. -/
def linkLimit : Nat := 40

/-- The kind at the end of the links. -/
def stat (d : Disk) (p : Path) : Except OsError Kind := d.follow p linkLimit p.text

instance : FileSystem Disk := ⟨lstat, list, stat⟩

/-! ## Edits and chains -/

/-- A change of a disk. -/
structure Edits where
  deleted : List Text := []
  set : List (Text × Node) := []

/-- Applies a change: deletions first. -/
def apply (d : Disk) (e : Edits) : Disk := (d.delete e.deleted).set e.set

/-- A chain of directories: `depth` of them from `key` down, each listing only `name`, then
one that lists only `leaf`, which is a regular file. -/
def chain (name leaf : Text) : (depth : Nat) → (key : Text) → List (Text × Node)
  | 0, key =>
    [(key, ⟨.dir, [leaf], [], none, none, none⟩),
      (key ++ .char '/' :: leaf, ⟨.file, [], [], none, none, none⟩)]
  | depth + 1, key =>
    (key, ⟨.dir, [name], [], none, none, none⟩) ::
      chain name leaf depth (key ++ .char '/' :: name)

end Disk

end FileSweep
