import FileSweep.Proofs.Course

/-!
# The recursive walk

A walk keeps its place in one list of paths.  What it is meant to do is said by a recursion:
look at a path, report it, and if it is a directory, list it and visit its children one
after the other.  `visit` is that recursion, written down as a program that hands out one
entry after the other and is held up at each of them until its consumer asks for the next.
While it is held up the consumer may change the file system, or leave it for good.

The list of pending paths is the sequence of all children that the visits under way have
still to come to, the innermost directory first.  So a walk asks the same questions as the
visit, each in the same file system, hands out the same entries, and comes to rest in the
same way.  The induction is on the entries that the consumer still asks for (`simulates`).
-/

namespace FileSweep

/-! ## Programs that hand out entries -/

/-- The consumer of a program that hands out entries. -/
structure Consumer (σ : Type) where
  /-- the file system as it is now -/
  fs : σ
  /-- how many entries it will still ask for -/
  rounds : Nat
  /-- the questions that the program has put, each with the file system it was put to -/
  asked : List (σ × Query)
  received : List Entry

/-- A program that hands out entries, until it ends, breaks off, or is left alone. -/
abbrev Visiting (σ : Type) := ExceptT Walk.Rest (StateM (Consumer σ))

namespace Visiting

variable {σ α : Type}

/-- Waits until the consumer asks for an entry. -/
def request : Visiting σ Unit := do
  let c ← get
  match c.rounds with
  | 0 => throw .suspended
  | rounds + 1 => set { c with rounds }

/-- Hands out an entry.  The consumer does to the file system what it does after so many
entries; then the program waits for the next request. -/
def yield (change : Nat → σ → σ) (e : Entry) : Visiting σ Unit := do
  modify fun c =>
    { c with fs := change (c.received.length + 1) c.fs, received := c.received ++ [e] }
  request

/-- Puts a question to the file system as it is now.  For a path with a NUL there is no
answer. -/
def ask (q : Query) (answer : σ → α) : Visiting σ α := do
  let c ← get
  set { c with asked := c.asked ++ [(c.fs, q)] }
  if q.path.hasNul then throw (.fault .nulInPath)
  return answer c.fs

/-- What a consumer sees of a program. -/
def trace (x : Visiting σ Unit) (c : Consumer σ) : Walk.Trace σ :=
  match x.run.run c with
  | (.ok _, c) => ⟨c.asked, c.received, .finished⟩
  | (.error r, c) => ⟨c.asked, c.received, r⟩

end Visiting

/-! ## The visit -/

section Visit

variable {σ : Type} [FileSystem σ]

open Visiting

/-- Lists a directory, and visits each of its names in ascending order. -/
def visitBelow (change : Nat → σ → σ) (visitChild : Path → Visiting σ Unit) (p : Path) :
    Visiting σ Unit := do
  match ← ask (.list p) (FileSystem.list · p) with
  | .error e => yield change (.unlisted p e)
  | .ok names => forM (Text.sort names) fun name => visitChild (p.child name)

/-- Visits a path and everything below it, through at most `depth` levels.  Each level has
cost an entry, so a consumer of no more than `depth` entries never gets to the last one. -/
def visit (change : Nat → σ → σ) : (depth : Nat) → Path → Visiting σ Unit
  | 0, _ => throw .suspended
  | depth + 1, p => do
    match ← ask (.lstat p) (FileSystem.lstat · p) with
    | .error e => yield change (.unreachable p e)
    | .ok kind =>
      yield change (.found p kind)
      if kind = .dir then visitBelow change (visit change depth) p

/-- What a consumer sees of a visit if it asks for at most `rounds` entries and changes the
file system by `change n` after the `n`-th of them. -/
def driveVisit (change : Nat → σ → σ) (depth rounds : Nat) (fs : σ) (root : Path) :
    Walk.Trace σ :=
  (request >>= fun _ => visit change depth root).trace ⟨fs, rounds, [], []⟩

end Visit

/-! ## What a consumer sees, action by action -/

namespace Visiting

variable {σ α : Type} {fs : σ} {rounds : Nat} {asked : List (σ × Query)} {received : List Entry}

theorem trace_pure (c : Consumer σ) :
    (pure () : Visiting σ Unit).trace c = ⟨c.asked, c.received, .finished⟩ := rfl

theorem trace_request_zero (next : Unit → Visiting σ Unit) :
    (request >>= next).trace ⟨fs, 0, asked, received⟩ = ⟨asked, received, .suspended⟩ := rfl

theorem trace_request_succ (next : Unit → Visiting σ Unit) :
    (request >>= next).trace ⟨fs, rounds + 1, asked, received⟩ =
      (next ()).trace ⟨fs, rounds, asked, received⟩ := rfl

theorem trace_yield (change : Nat → σ → σ) (e : Entry) (next : Unit → Visiting σ Unit) :
    (yield change e >>= next).trace ⟨fs, rounds, asked, received⟩ =
      (request >>= next).trace
        ⟨change (received.length + 1) fs, rounds, asked, received ++ [e]⟩ := rfl

theorem trace_ask (q : Query) (h : q.path.hasNul = false) (answer : σ → α)
    (next : α → Visiting σ Unit) :
    (ask q answer >>= next).trace ⟨fs, rounds, asked, received⟩ =
      (next (answer fs)).trace ⟨fs, rounds, asked ++ [(fs, q)], received⟩ := by
  unfold ask
  rw [h]
  rfl

theorem trace_ask_nul (q : Query) (h : q.path.hasNul = true) (answer : σ → α)
    (next : α → Visiting σ Unit) :
    (ask q answer >>= next).trace ⟨fs, rounds, asked, received⟩ =
      ⟨asked ++ [(fs, q)], received, .fault .nulInPath⟩ := by
  unfold ask
  rw [h]
  rfl

end Visiting

/-! ## A walk is a visit -/

section Simulation

variable {σ : Type} [FileSystem σ]

open Visiting

/-- The trace of a program that has already asked and handed out something. -/
def Walk.Trace.following (t : Walk.Trace σ) (asked : List (σ × Query)) (received : List Entry) :
    Walk.Trace σ :=
  ⟨asked ++ t.asked, received ++ t.entries, t.rest⟩

omit [FileSystem σ] in
theorem Walk.Trace.following_ask (t : Walk.Trace σ) (fs : σ) (q : Query)
    (asked : List (σ × Query)) (received : List Entry) :
    (t.ask fs q).following asked received = t.following (asked ++ [(fs, q)]) received := by
  simp [following, ask]

omit [FileSystem σ] in
theorem Walk.Trace.following_report (t : Walk.Trace σ) (e : Entry) (asked : List (σ × Query))
    (received : List Entry) :
    (t.report e).following asked received = t.following asked (received ++ [e]) := by
  simp [following, report]

/-- The visits that are still to come, each within its own number of levels. -/
def visitAll (change : Nat → σ → σ) (stack : List (Nat × Path)) : Visiting σ Unit :=
  forM stack fun v => visit change v.1 v.2

/-- What is left of a visit that has been held up: the directory that it has opened, if any,
and then the visits still to come. -/
def visitRest (change : Nat → σ → σ) (depth : Nat) (stack : List (Nat × Path)) :
    Option Path → Visiting σ Unit
  | none => visitAll change stack
  | some p => visitBelow change (visit change depth) p >>= fun _ => visitAll change stack

/-- The children of a directory are visited before whatever was to come after it. -/
theorem visitAll_children (change : Nat → σ → σ) (depth : Nat) (p : Path) (names : List Text)
    (stack : List (Nat × Path)) :
    visitAll change ((Walk.children p names).map (depth, ·) ++ stack) =
      (forM (Text.sort names) fun name => visit change depth (p.child name)) >>= fun _ =>
        visitAll change stack := by
  unfold visitAll Walk.children
  rw [List.forM_append, List.map_map, List.forM_map]
  rfl

variable {change : Nat → σ → σ} {fs : σ} {p : Path} {asked : List (σ × Query)}
  {received : List Entry}

/-- A path is looked at and handed out; what is left then is to list it, if it is a
directory, and what was left before. -/
theorem trace_visitAll_cons (depth rounds : Nat) (stack : List (Nat × Path))
    (hn : p.hasNul = false) :
    (visitAll change ((depth + 1, p) :: stack)).trace ⟨fs, rounds, asked, received⟩ =
      (request >>= fun _ => visitRest change depth stack (Walk.openedAt fs p)).trace
        ⟨change (received.length + 1) fs, rounds, asked ++ [(fs, .lstat p)],
          received ++ [Walk.entryAt fs p]⟩ := by
  unfold visitAll Walk.openedAt Walk.entryAt
  rw [List.forM_cons]
  dsimp only [visit]
  rw [bind_assoc, trace_ask (.lstat p) hn]
  cases FileSystem.lstat fs p with
  | error e => exact trace_yield change _ _
  | ok kind =>
    -- only a directory leaves something to be done for `p` itself
    dsimp only
    rw [bind_assoc, trace_yield]
    cases kind <;> simp [visitRest, visitAll]

/-- A path with a NUL ends all visits still to come. -/
theorem trace_visitAll_cons_nul (depth rounds : Nat) (stack : List (Nat × Path))
    (hn : p.hasNul = true) :
    (visitAll change ((depth + 1, p) :: stack)).trace ⟨fs, rounds, asked, received⟩ =
      ⟨asked ++ [(fs, .lstat p)], received, .fault .nulInPath⟩ := by
  unfold visitAll
  rw [List.forM_cons]
  dsimp only [visit]
  rw [bind_assoc, trace_ask_nul (.lstat p) hn]

/-- Whether what is left of a visit, seen by a consumer of so many further entries, is a walk
whose pending paths are those of the visits still to come. -/
def Simulates (change : Nat → σ → σ) (rounds : Nat) : Prop :=
  ∀ fs asked received depth stack opened, (∀ p ∈ opened, p.hasNul = false) → rounds ≤ depth →
    (∀ v ∈ stack, rounds ≤ v.1) →
    (request >>= fun _ => visitRest change depth stack opened).trace
        ⟨fs, rounds, asked, received⟩ =
      (Walk.along (Walk.states change rounds received.length fs)
        ⟨opened, stack.map (·.2)⟩).following asked received

/-- A round from a list of visits: the first one is reached, and the rest is a visit that has
been held up. -/
theorem Simulates.trace_visitAll {rounds : Nat} (ih : Simulates change rounds)
    (stack : List (Nat × Path)) (hstack : ∀ v ∈ stack, rounds + 1 ≤ v.1) :
    (visitAll change stack).trace ⟨fs, rounds, asked, received⟩ =
      (Walk.along (Walk.states change (rounds + 1) received.length fs)
        ⟨none, stack.map (·.2)⟩).following asked received := by
  cases stack with
  | nil => simp [visitAll, trace_pure, Walk.states, Walk.Trace.following]
  | cons v stack =>
    obtain ⟨depth, p⟩ := v
    obtain ⟨hv, hrest⟩ := List.forall_mem_cons.mp hstack
    -- there is a round left, and so there is a level left
    obtain ⟨depth, rfl⟩ : ∃ d, depth = d + 1 := ⟨depth - 1, by omega⟩
    rw [Walk.states, List.map_cons]
    cases hn : p.hasNul with
    | true =>
      rw [Walk.along_nul hn, trace_visitAll_cons_nul depth rounds stack hn]
      simp [Walk.Trace.following]
    | false =>
      rw [trace_visitAll_cons depth rounds stack hn, Walk.along_looked hn,
        Walk.Trace.following_ask, Walk.Trace.following_report, ih]
      · simp
      · intro q hq
        rw [(Walk.mem_openedAt.mp hq).1]
        exact hn
      · omega
      · exact fun v hv => Nat.le_of_succ_le (hrest v hv)

/-- A further round: a directory that is to be listed is replaced by its children. -/
theorem Simulates.succ {rounds : Nat} (ih : Simulates change rounds) :
    Simulates change (rounds + 1) := by
  intro fs asked received depth stack opened hopened hdepth hstack
  rw [trace_request_succ]
  cases opened with
  | none => exact ih.trace_visitAll stack hstack
  | some p =>
    have hn := hopened p rfl
    unfold visitRest visitBelow
    dsimp only
    rw [bind_assoc, trace_ask (.list p) hn]
    cases hl : FileSystem.list fs p with
    | error e =>
      dsimp only
      rw [Walk.states, Walk.along_unlisted hl, Walk.Trace.following_ask,
        Walk.Trace.following_report, trace_yield]
      have h := ih (change (received.length + 1) fs) (asked ++ [(fs, .list p)])
        (received ++ [.unlisted p e]) depth stack none (by simp) (by omega)
        (fun v hv => Nat.le_of_succ_le (hstack v hv))
      simpa [visitRest] using h
    | ok names =>
      dsimp only
      have hnew : ∀ v ∈ (Walk.children p names).map (depth, ·) ++ stack, rounds + 1 ≤ v.1 := by
        intro v hv
        rcases List.mem_append.mp hv with hv | hv
        · obtain ⟨q, -, rfl⟩ := List.mem_map.mp hv
          exact hdepth
        · exact hstack v hv
      rw [← visitAll_children, ih.trace_visitAll _ hnew, Walk.states, Walk.along_listed hl,
        Walk.Trace.following_ask]
      simp [List.map_map, Function.comp_def]

/-- **One list for all suspended visits.** -/
theorem simulates (change : Nat → σ → σ) (rounds : Nat) : Simulates change rounds := by
  induction rounds with
  | zero =>
    intro fs asked received depth stack opened _ _ _
    simp [trace_request_zero, Walk.states, Walk.Trace.following]
  | succ rounds ih => exact ih.succ

/-- **A walk is a visit.**  Whatever its consumer does to the file system after each entry,
and however many entries it takes, a walk puts the same questions as the recursive visit, in
the same order and to the same file systems, hands out the same entries, and ends in the same
way; and no bound on the depth that is at least the number of entries taken makes any
difference. -/
theorem drive_eq_visit (change : Nat → σ → σ) (rounds extra : Nat) (fs : σ) (root : Path) :
    Walk.drive change rounds fs root = driveVisit change (rounds + extra) rounds fs root := by
  have h := simulates change rounds fs [] [] (rounds + extra) [(rounds + extra, root)] none
    (by simp) (by omega) (by simp)
  have hvisit : driveVisit change (rounds + extra) rounds fs root =
      (request >>= fun _ => visitRest change (rounds + extra) [(rounds + extra, root)] none).trace
        ⟨fs, rounds, [], []⟩ := by
    unfold driveVisit visitRest visitAll
    simp
  rw [hvisit, h, Walk.drive_eq_along]
  simp [Walk.Trace.following, Walk.start]

end Simulation

end FileSweep
