import FileSweep.FileSystem

/-!
# Walking a tree

A walk visits a path and everything below it, depth first, the names of a directory in
ascending order.  It is **lazy**: it asks the file system about a path only when that
path is reached, and between two entries the file system may have become another one.

Its state is a list of the paths that are still to come, the next one first, and the
directory it has just reported, whose listing it has not asked for yet.  `Walk.resume`
is the one step: at most one listing, then at most one look at a path.  It says which
questions it asked, and gives the next entry, the end, or a fault.

`Walk.drive` resumes a walk again and again while a consumer changes the file system in
between.
-/

namespace FileSweep

/-! ## What a walk asks and reports -/

/-- A question to the file system. -/
inductive Query
  | lstat (p : Path)
  | list (p : Path)
  deriving DecidableEq

/-- What is reported of a path. -/
inductive Entry
  /-- it is there, and of this kind -/
  | found (path : Path) (kind : Kind)
  /-- it could not be looked at -/
  | unreachable (path : Path) (error : OsError)
  /-- it is the directory reported just before, and its names could not be had -/
  | unlisted (path : Path) (error : OsError)
  deriving DecidableEq

namespace Entry

/-- The path that the entry is about. -/
def path : Entry → Path
  | .found p _ => p
  | .unreachable p _ => p
  | .unlisted p _ => p

/-- The kind that was seen there, if any. -/
def kind? : Entry → Option Kind
  | .found _ kind => some kind
  | .unreachable _ _ => none
  | .unlisted _ _ => some .dir

/-- The error met there, if any. -/
def error? : Entry → Option OsError
  | .found _ _ => none
  | .unreachable _ e => some e
  | .unlisted _ e => some e

/-- Whether a regular file was seen there; a link to one is not. -/
def isRegular (e : Entry) : Bool := e.kind? = some .file

end Entry

/-! ## The walk -/

/-- The state of a walk between two entries. -/
structure Walk where
  /-- the directory reported last, if it is still to be listed -/
  opened : Option Path
  /-- the paths still to come, the next one first -/
  pending : List Path

namespace Walk

/-- The walk that is about to reach `root`. -/
def start (root : Path) : Walk := ⟨none, [root]⟩

/-- What a step of a walk leads to. -/
inductive Step
  | entry (e : Entry) (next : Walk)
  | finished
  | fault (f : Fault)

variable {σ : Type} [FileSystem σ]

/-- Looks at the first of the paths, with the question asked. -/
def reach (fs : σ) : List Path → List Query × Step
  | [] => ([], .finished)
  | p :: rest =>
    ([.lstat p],
      if p.hasNul then .fault .nulInPath
      else match FileSystem.lstat fs p with
        | .error e => .entry (.unreachable p e) ⟨none, rest⟩
        | .ok kind => .entry (.found p kind) ⟨if kind = .dir then some p else none, rest⟩)

/-- The paths below a directory, in the order in which they are visited. -/
def children (p : Path) (names : List Text) : List Path := (Text.sort names).map p.child

/-- Goes on to the next entry, with the questions asked. -/
def resume (fs : σ) (w : Walk) : List Query × Step :=
  match w.opened with
  | none => reach fs w.pending
  | some p =>
    match FileSystem.list fs p with
    | .error e => ([.list p], .entry (.unlisted p e) ⟨none, w.pending⟩)
    | .ok names =>
      let (queries, step) := reach fs (children p names ++ w.pending)
      (.list p :: queries, step)

/-! ## A walk and its consumer -/

/-- How a driven walk came to rest. -/
inductive Rest
  | finished
  | fault (f : Fault)
  /-- the consumer asked for no further entry -/
  | suspended
  deriving DecidableEq

/-- What a driven walk asked and reported. -/
structure Trace (σ : Type) where
  /-- the questions, each with the file system that it was put to -/
  asked : List (σ × Query)
  entries : List Entry
  rest : Rest

/-- Resumes a walk up to `rounds` times.  `change n` is what happens to the file system
after the `n`-th entry; `count` entries have been received before, and `asked` and `seen`
hold the questions and entries of earlier rounds, the latest first. -/
def driveFrom (change : Nat → σ → σ) :
    (rounds count : Nat) → (asked : List (σ × Query)) → (seen : List Entry) → σ → Walk → Trace σ
  | 0, _, asked, seen, _, _ => ⟨asked.reverse, seen.reverse, .suspended⟩
  | rounds + 1, count, asked, seen, fs, w =>
    let (queries, step) := w.resume fs
    let asked := queries.reverse.map (fs, ·) ++ asked
    match step with
    | .finished => ⟨asked.reverse, seen.reverse, .finished⟩
    | .fault f => ⟨asked.reverse, seen.reverse, .fault f⟩
    | .entry e next =>
      driveFrom change rounds (count + 1) asked (e :: seen) (change (count + 1) fs) next

/-- Walks from `root` for a consumer that takes at most `rounds` entries and changes the
file system by `change n` after the `n`-th of them. -/
def drive (change : Nat → σ → σ) (rounds : Nat) (fs : σ) (root : Path) : Trace σ :=
  driveFrom change rounds 0 [] [] fs (start root)

end Walk

end FileSweep
