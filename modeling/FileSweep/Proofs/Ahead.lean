import FileSweep.Proofs.WalkOrder

/-!
# What lies ahead of a walk

The next round of a walk asks about no more than the opened directory and the pending paths,
and about what it finds below them.  `Walk.Ahead` is all of that: the paths which the opened
directory or a pending path encloses.  With names of entries in the listings it only ever gets
smaller (`Walk.Round.ahead`), and after a file nothing is ahead that does not come after the
file (`Walk.Round.lex_of_ahead`).

A round therefore depends on nothing but the answers at the paths ahead: two file systems that
agree there, of whatever kind each of them may be, give the same round (`Walk.resume_congr`).

All this is shown from one statement about what a round can be, `Walk.round_of_resume`.
-/

namespace FileSweep

/-! ## Names of entries -/

/-- Whether a text can be the name of an entry in a directory: a real part that does not lead
back up. -/
def Text.IsEntryName (t : Text) : Prop := t.IsPart ∧ t ≠ [.char '.', .char '.']

instance (t : Text) : Decidable t.IsEntryName := inferInstanceAs (Decidable (_ ∧ _))

namespace Path

/-- Whether `p` is `root`, or is reached from it through names of entries. -/
def Encloses (root p : Path) : Prop :=
  p.anchor = root.anchor ∧ ∃ c, p.parts = root.parts ++ c ∧ ∀ n ∈ c, n.IsEntryName

variable {root p q : Path}

theorem encloses_refl (p : Path) : p.Encloses p := ⟨rfl, [], by simp⟩

theorem Encloses.trans (h : root.Encloses p) (h' : p.Encloses q) : root.Encloses q := by
  obtain ⟨hanchor, c, hparts, hc⟩ := h
  obtain ⟨hanchor', c', hparts', hc'⟩ := h'
  refine ⟨hanchor'.trans hanchor, c ++ c', ?_, ?_⟩
  · rw [hparts', hparts, List.append_assoc]
  · intro n hn
    rcases List.mem_append.mp hn with hn | hn
    · exact hc n hn
    · exact hc' n hn

theorem encloses_child (p : Path) {name : Text} (hn : name.IsEntryName) :
    p.Encloses (p.child name) := by
  obtain ⟨hanchor, hparts⟩ := child_of_isPart p hn.1
  exact ⟨hanchor, [name], hparts, by simpa using hn⟩

theorem encloses_iff :
    root.Encloses p ↔ root.IsUnder p ∧ ∀ n ∈ root.below p, n.IsEntryName := by
  constructor
  · rintro ⟨hanchor, c, hparts, hc⟩
    have hbelow : root.below p = c := by rw [below, hparts, List.drop_left]
    exact ⟨⟨hanchor, hparts ▸ List.prefix_append _ _⟩, hbelow ▸ hc⟩
  · rintro ⟨hunder, hc⟩
    exact ⟨hunder.1, root.below p, hunder.parts_eq, hc⟩

instance (root p : Path) : Decidable (root.Encloses p) := decidable_of_iff _ encloses_iff.symm

theorem Encloses.isUnder (h : root.Encloses p) : root.IsUnder p := (encloses_iff.mp h).1

end Path

/-- Whether all listings hold only names of entries. -/
def FileSystem.NamesEntries {σ : Type} [FileSystem σ] (fs : σ) : Prop :=
  ∀ p names, FileSystem.list fs p = .ok names → ∀ n ∈ names, n.IsEntryName

/-! ## Agreement at a path -/

/-- Whether two file systems, maybe of different kinds, answer the questions of a walk about a
path in the same way. -/
structure SameAt {σ σ' : Type} [FileSystem σ] [FileSystem σ'] (fs : σ) (fs' : σ') (p : Path) :
    Prop where
  lstat : FileSystem.lstat fs p = FileSystem.lstat fs' p
  list : FileSystem.list fs p = FileSystem.list fs' p

theorem SameAt.refl {σ : Type} [FileSystem σ] (fs : σ) (p : Path) : SameAt fs fs p := ⟨rfl, rfl⟩

theorem SameAt.trans {σ σ' σ'' : Type} [FileSystem σ] [FileSystem σ'] [FileSystem σ'']
    {fs : σ} {fs' : σ'} {fs'' : σ''} {p : Path} (h : SameAt fs fs' p) (h' : SameAt fs' fs'' p) :
    SameAt fs fs'' p :=
  ⟨h.lstat.trans h'.lstat, h.list.trans h'.list⟩

namespace Walk

variable {σ : Type} [FileSystem σ]

/-! ## The forms of a round, once more -/

/-- What a round that comes to an entry can be: the walk, the questions, the entry, and the
walk that is left. -/
inductive Round (fs : σ) : Walk → List Query → Entry → Walk → Prop
  | looked (p : Path) (rest : List Path) (hn : p.hasNul = false) :
    Round fs ⟨none, p :: rest⟩ [.lstat p] (entryAt fs p) ⟨openedAt fs p, rest⟩
  | unlisted (p : Path) (rest : List Path) (e : OsError)
      (h : FileSystem.list fs p = .error e) :
    Round fs ⟨some p, rest⟩ [.list p] (.unlisted p e) ⟨none, rest⟩
  | listed (p : Path) (rest : List Path) (names : List Text) (qs : List Query) (e : Entry)
      (w : Walk) (h : FileSystem.list fs p = .ok names)
      (hround : Round fs ⟨none, children p names ++ rest⟩ qs e w) :
    Round fs ⟨some p, rest⟩ (.list p :: qs) e w

theorem round_of_reach {fs : σ} {ps : List Path} {qs : List Query} {e : Entry} {w : Walk}
    (h : reach fs ps = (qs, .entry e w)) : Round fs ⟨none, ps⟩ qs e w := by
  cases ps with
  | nil => simp [reach] at h
  | cons p rest =>
    have hn : p.hasNul = false := by
      cases hn : p.hasNul with
      | true => simp [reach, hn] at h
      | false => rfl
    have hround : Round fs ⟨none, p :: rest⟩ _ _ _ := .looked p rest hn
    unfold entryAt openedAt at hround
    cases hl : FileSystem.lstat fs p with
    | error error =>
      simp only [reach, hn, hl] at h
      rw [hl] at hround
      cases h
      exact hround
    | ok kind =>
      simp only [reach, hn, hl] at h
      rw [hl] at hround
      cases h
      cases kind <;> exact hround

/-- **What a round can be.** -/
theorem round_of_resume {fs : σ} {w w' : Walk} {qs : List Query} {e : Entry}
    (h : w.resume fs = (qs, .entry e w')) : Round fs w qs e w' := by
  obtain ⟨opened, pending⟩ := w
  cases opened with
  | none => exact round_of_reach h
  | some p =>
    cases hl : FileSystem.list fs p with
    | error error =>
      simp only [resume, hl] at h
      cases h
      exact .unlisted p pending error hl
    | ok names =>
      simp only [resume, hl] at h
      obtain ⟨rfl, hstep⟩ := Prod.mk.inj h
      refine .listed p pending names _ e w' hl (round_of_reach ?_)
      rw [← hstep]

/-- The files that a walk reports are the last thing that it has looked at, and it has found
them to be files. -/
theorem Round.file {fs : σ} {w w' : Walk} {qs : List Query} {e : Entry}
    (h : Round fs w qs e w') (hfile : e.isRegular = true) :
    e = .found e.path .file ∧ FileSystem.lstat fs e.path = .ok .file ∧
      [.lstat e.path] <:+ qs ∧ w'.opened = none := by
  induction h with
  | looked p rest hn =>
    cases hl : FileSystem.lstat fs p with
    | error error => simp [entryAt, hl, Entry.isRegular, Entry.kind?] at hfile
    | ok kind =>
      obtain rfl : kind = .file := by
        simpa [entryAt, hl, Entry.isRegular, Entry.kind?] using hfile
      simp [entryAt, openedAt, hl, Entry.path]
  | unlisted p rest error hl => simp [Entry.isRegular, Entry.kind?] at hfile
  | listed p rest names qs e w hl hround ih =>
    obtain ⟨hfound, hlstat, hlast, hopened⟩ := ih hfile
    exact ⟨hfound, hlstat, hlast.trans (List.suffix_cons _ _), hopened⟩

/-! ## Paths ahead -/

/-- Whether the names in the listing that a walk asks for next satisfy `P`, if they can be had. -/
def ListsNext (fs : σ) (w : Walk) (P : List Text → Prop) : Prop :=
  ∀ p ∈ w.opened, ∀ names, FileSystem.list fs p = .ok names → P names

theorem listsNext_none (fs : σ) (ps : List Path) (P : List Text → Prop) :
    ListsNext fs ⟨none, ps⟩ P := by
  intro p hp
  cases hp

/-- Whether a walk can still get to a path: the opened directory, or a pending path, encloses
it. -/
def Ahead (w : Walk) (q : Path) : Prop :=
  (∃ p ∈ w.opened, p.Encloses q) ∨ ∃ p ∈ w.pending, p.Encloses q

theorem ahead_start {root q : Path} : (start root).Ahead q ↔ root.Encloses q := by
  simp [Ahead, start]

theorem ahead_of_mem {w : Walk} {p : Path} (hp : p ∈ w.pending) : w.Ahead p :=
  .inr ⟨p, hp, p.encloses_refl⟩

/-- What lies ahead after a directory was listed lay ahead before. -/
theorem Ahead.of_listed {p q : Path} {rest : List Path} {names : List Text}
    (hnames : ∀ n ∈ names, n.IsEntryName) (h : Ahead ⟨none, children p names ++ rest⟩ q) :
    Ahead ⟨some p, rest⟩ q := by
  obtain ⟨r, hr, hq⟩ := h.resolve_left (by simp)
  rcases List.mem_append.mp hr with hr | hr
  · obtain ⟨n, hn, rfl⟩ := List.mem_map.mp hr
    have hentry := hnames n (Text.mem_sort.mp hn)
    exact .inl ⟨p, rfl, (p.encloses_child hentry).trans hq⟩
  · exact .inr ⟨r, hr, hq⟩

/-- **A round leaves nothing ahead that was not ahead before.** -/
theorem Round.ahead {fs : σ} {w w' : Walk} {qs : List Query} {e : Entry}
    (h : Round fs w qs e w')
    (hnames : w.ListsNext fs fun names => ∀ n ∈ names, n.IsEntryName) {q : Path}
    (hq : w'.Ahead q) : w.Ahead q := by
  induction h with
  | looked p rest hn =>
    rcases hq with ⟨r, hr, hq⟩ | ⟨r, hr, hq⟩
    · rw [(mem_openedAt.mp hr).1] at hq
      exact .inr ⟨p, List.mem_cons_self, hq⟩
    · exact .inr ⟨r, List.mem_cons_of_mem p hr, hq⟩
  | unlisted p rest error hl => exact .inr (hq.resolve_left (by simp))
  | listed p rest names qs e w hl hround ih =>
    exact (ih (listsNext_none _ _ _) hq).of_listed (hnames p rfl names hl)

/-- A round comes to nothing but what was ahead. -/
theorem Round.ahead_path {fs : σ} {w w' : Walk} {qs : List Query} {e : Entry}
    (h : Round fs w qs e w')
    (hnames : w.ListsNext fs fun names => ∀ n ∈ names, n.IsEntryName) : w.Ahead e.path := by
  induction h with
  | looked p rest hn =>
    rw [entryAt_path]
    exact ahead_of_mem List.mem_cons_self
  | unlisted p rest error hl => exact .inl ⟨p, rfl, p.encloses_refl⟩
  | listed p rest names qs e w hl hround ih =>
    exact (ih (listsNext_none _ _ _)).of_listed (hnames p rfl names hl)

/-! ## Order -/

/-- A round keeps the paths to come side by side. -/
theorem Round.ordered {fs : σ} {w w' : Walk} {qs : List Query} {e : Entry}
    (h : Round fs w qs e w') (hw : w.Ordered)
    (hnames : w.ListsNext fs Text.AreNames) : w'.Ordered := by
  induction h with
  | looked p rest hn => exact hw.looked fs
  | unlisted p rest error hl => exact hw.unlisted
  | listed p rest names qs e w hl hround ih =>
    exact ih (hw.listed (hnames p rfl names hl)) (listsNext_none _ _ _)

/-- **Whatever lies ahead after a file comes after the file.** -/
theorem Round.lex_of_ahead {fs : σ} {w w' : Walk} {qs : List Query} {e : Entry}
    (h : Round fs w qs e w') (hw : w.Ordered)
    (hnames : w.ListsNext fs Text.AreNames) (hfile : e.isRegular = true) {q : Path}
    (hq : w'.Ahead q) : List.Lex Text.Lt e.path.parts q.parts := by
  induction h with
  | looked p rest hn =>
    have hround : Round fs ⟨none, p :: rest⟩ _ _ _ := .looked p rest hn
    have hopened := (hround.file hfile).2.2.2
    rcases hq with ⟨r, hr, -⟩ | ⟨r, hr, hq⟩
    · rw [hopened] at hr
      cases hr
    · rw [entryAt_path]
      have hleft := (List.pairwise_cons.mp hw.pending).1 r hr
      exact hleft.lex_of_prefix (List.prefix_refl _) hq.isUnder.2
  | unlisted p rest error hl => simp [Entry.isRegular, Entry.kind?] at hfile
  | listed p rest names qs e w hl hround ih =>
    exact ih (hw.listed (hnames p rfl names hl)) (listsNext_none _ _ _) hfile hq

/-! ## Rounds in two file systems -/

variable {σ' : Type} [FileSystem σ'] {fs : σ} {fs' : σ'}

theorem reach_congr {ps : List Path} (h : ∀ p ∈ ps, SameAt fs fs' p) :
    reach fs ps = reach fs' ps := by
  cases ps with
  | nil => rfl
  | cons p rest => rw [reach, reach, (h p List.mem_cons_self).lstat]

/-- **A round depends on no more than what lies ahead.** -/
theorem resume_congr {w : Walk} (hsame : ∀ q, w.Ahead q → SameAt fs fs' q)
    (hnames : w.ListsNext fs fun names => ∀ n ∈ names, n.IsEntryName) :
    w.resume fs = w.resume fs' := by
  obtain ⟨opened, pending⟩ := w
  cases opened with
  | none => exact reach_congr fun p hp => hsame p (ahead_of_mem hp)
  | some p =>
    have hlist := (hsame p (.inl ⟨p, rfl, p.encloses_refl⟩)).list
    cases hl : FileSystem.list fs p with
    | error error =>
      have hl' : FileSystem.list fs' p = .error error := hlist ▸ hl
      simp only [resume, hl, hl']
    | ok names =>
      have hl' : FileSystem.list fs' p = .ok names := hlist ▸ hl
      have hreach : reach fs (children p names ++ pending) =
          reach fs' (children p names ++ pending) := by
        refine reach_congr fun q hq => hsame q ?_
        have hahead : Ahead ⟨none, children p names ++ pending⟩ q := ahead_of_mem hq
        exact hahead.of_listed (hnames p rfl names hl)
      simp only [resume, hl, hl', hreach]

end Walk

end FileSweep
