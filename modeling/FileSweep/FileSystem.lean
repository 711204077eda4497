import FileSweep.Fault

/-!
# File systems

All that a sweep asks of a file system are three questions about a path: what is there
(`lstat`, links not followed), what is at the end of the links (`stat`), and which names
a directory lists.  A `FileSystem` is any type of states that answers them, so that what
is shown about a sweep holds for every system and for every way in which it may change
between two questions.
-/

namespace FileSweep

/-- The kinds of things that a path can lead to. -/
inductive Kind
  | file
  | dir
  | symlink
  | fifo
  | socket
  | char
  | block
  deriving DecidableEq

/-- States of a file system, by the answers they give. -/
class FileSystem (σ : Type) where
  /-- The kind of the thing itself. -/
  lstat : σ → Path → Except OsError Kind
  /-- The names in a directory, in any order. -/
  list : σ → Path → Except OsError (List Text)
  /-- The kind of the thing at the end of all links. -/
  stat : σ → Path → Except OsError Kind

/-- Whether the path leads to a regular file; a question that is refused counts as no. -/
def FileSystem.hasFile {σ : Type} [FileSystem σ] (fs : σ) (p : Path) : Bool :=
  !p.hasNul &&
    match FileSystem.stat fs p with
    | .ok kind => kind = .file
    | .error _ => false

end FileSweep
