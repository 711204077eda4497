import Mathlib.Data.List.Forall2
import Mathlib.Data.List.Induction
import FileSweep.Proofs.Ahead

/-!
# The same place below two roots

Two paths are at the same place below two roots if the same names lead to them
(`Path.SamePlace`).  Joining names to a root is more than putting texts side by side: nothing of
the root is left of `.`, and a slash at its end is not written twice.  So it is the names that are
carried along, and never texts.

Two file systems hold the same tree below two roots if they give the same answers at the same
places (`SameTree`), but for the paths that errors speak of.  Walks of the same tree are then
alike, question by question and entry by entry (`Walk.along_alike`), since a round leaves walks
with the same places to come (`Walk.resume_alike`).
-/

namespace FileSweep

/-! ## Places below a root -/

/-- Whether a text can be the name of a file: the name of an entry, without a NUL. -/
def Text.IsFileName (t : Text) : Prop := t.IsEntryName ∧ t.has (Char.ofNat 0) = false

instance (t : Text) : Decidable t.IsFileName := inferInstanceAs (Decidable (_ ∧ _))

namespace Path

/-- The path to which names lead from a root, one after the other. -/
def descend (root : Path) (c : List Text) : Path := c.foldl Path.child root

@[simp] theorem descend_nil (root : Path) : root.descend [] = root := rfl

@[simp] theorem descend_concat (root : Path) (c : List Text) (n : Text) :
    root.descend (c ++ [n]) = (root.descend c).child n := by
  simp [descend]

variable {root root' p p' : Path} {c : List Text}

theorem descend_parts (root : Path) (hc : ∀ n ∈ c, n.IsPart) :
    (root.descend c).anchor = root.anchor ∧ (root.descend c).parts = root.parts ++ c := by
  induction c using List.reverseRecOn with
  | nil => simp
  | append_singleton c n ih =>
    obtain ⟨hanchor, hparts⟩ := ih fun m hm => hc m (List.mem_append_left _ hm)
    have hchild := (root.descend c).child_of_isPart (hc n (by simp))
    rw [descend_concat, hchild.1, hchild.2, hanchor, hparts]
    simp

/-- Different names lead to paths with different texts. -/
theorem text_descend_inj (root : Path) {c' : List Text} (hc : ∀ n ∈ c, n.IsPart)
    (hc' : ∀ n ∈ c', n.IsPart) : (root.descend c).text = (root.descend c').text ↔ c = c' := by
  rw [text_inj]
  constructor
  · intro h
    have hparts := congrArg parts h
    rw [(descend_parts root hc).2, (descend_parts root hc').2] at hparts
    exact List.append_cancel_left hparts
  · rintro rfl
    rfl

theorem hasNul_descend (hroot : root.hasNul = false)
    (hc : ∀ n ∈ c, n.has (Char.ofNat 0) = false) : (root.descend c).hasNul = false := by
  induction c using List.reverseRecOn with
  | nil => exact hroot
  | append_singleton c n ih =>
    rw [descend_concat]
    exact hasNul_child (ih fun m hm => hc m (List.mem_append_left _ hm)) (hc n (by simp))

/-- Whether `p` lies below `root` where `p'` lies below `root'`: the same names lead there. -/
def SamePlace (root root' p p' : Path) : Prop :=
  ∃ c, (∀ n ∈ c, n.IsFileName) ∧ p = root.descend c ∧ p' = root'.descend c

namespace SamePlace

theorem of_root (root root' : Path) : SamePlace root root' root root' := ⟨[], by simp⟩

theorem symm (h : SamePlace root root' p p') : SamePlace root' root p' p := by
  obtain ⟨c, hc, hp, hp'⟩ := h
  exact ⟨c, hc, hp', hp⟩

theorem child (h : SamePlace root root' p p') {n : Text} (hn : n.IsFileName) :
    SamePlace root root' (p.child n) (p'.child n) := by
  obtain ⟨c, hc, rfl, rfl⟩ := h
  refine ⟨c ++ [n], ?_, by simp, by simp⟩
  intro m hm
  rcases List.mem_append.mp hm with hm | hm
  · exact hc m hm
  · exact List.mem_singleton.mp hm ▸ hn

theorem children (h : SamePlace root root' p p') {names : List Text}
    (hnames : ∀ n ∈ names, n.IsFileName) :
    List.Forall₂ (SamePlace root root') (Walk.children p names) (Walk.children p' names) := by
  unfold Walk.children
  rw [List.forall₂_map_left_iff, List.forall₂_map_right_iff]
  exact List.forall₂_same.mpr fun n hn => h.child (hnames n (Text.mem_sort.mp hn))

theorem hasNul (h : SamePlace root root' p p') (hroot : root.hasNul = false) :
    p.hasNul = false := by
  obtain ⟨c, hc, rfl, -⟩ := h
  exact hasNul_descend hroot fun n hn => (hc n hn).2

/-- Names are the same at the same place, except at the root. -/
theorem name_eq (h : SamePlace root root' p p') (hne : p ≠ root) : p.name = p'.name := by
  obtain ⟨c, hc, rfl, rfl⟩ := h
  induction c using List.reverseRecOn with
  | nil => exact absurd rfl hne
  | append_singleton c n =>
    have hpart : ∀ m ∈ c ++ [n], m.IsPart := fun m hm => (hc m hm).1.1
    rw [name, name, (descend_parts root hpart).2, (descend_parts root' hpart).2]
    simp

end SamePlace

end Path

/-! ## Two trees that are the same -/

/-- An error without what it is about. -/
def OsError.bare : OsError → OsError
  | .coded number reason _ => .coded number reason none
  | .plain message denied => .plain message denied

theorem OsError.isDenied_bare (e : OsError) : e.bare.isDenied = e.isDenied := by
  cases e <;> rfl

/-- Whether what is below `root` in one file system is the same as what is below `root'` in
another one: at the same places there are the same answers, but for what errors are about.  The
listings hold only names of files, and at the roots there are no files. -/
structure SameTree {σ σ' : Type} [FileSystem σ] [FileSystem σ'] (root root' : Path) (fs : σ)
    (fs' : σ') : Prop where
  lstat : ∀ p p', Path.SamePlace root root' p p' →
    (FileSystem.lstat fs p).mapError OsError.bare =
      (FileSystem.lstat fs' p').mapError OsError.bare
  list : ∀ p p', Path.SamePlace root root' p p' →
    (FileSystem.list fs p).mapError OsError.bare =
      (FileSystem.list fs' p').mapError OsError.bare
  names : ∀ p p' names, Path.SamePlace root root' p p' → FileSystem.list fs p = .ok names →
    ∀ n ∈ names, n.IsFileName
  noFile : FileSystem.lstat fs root ≠ .ok .file

/-- Answers that are the same but for what errors are about. -/
theorem alike_cases {α : Type} {r r' : Except OsError α}
    (h : r.mapError OsError.bare = r'.mapError OsError.bare) :
    (∃ e e', r = .error e ∧ r' = .error e' ∧ e.bare = e'.bare) ∨
      ∃ a, r = .ok a ∧ r' = .ok a := by
  cases r with
  | error e =>
    cases r' with
    | error e' => exact .inl ⟨e, e', rfl, rfl, Except.error.inj h⟩
    | ok a => cases h
  | ok a =>
    cases r' with
    | error e' => cases h
    | ok a' =>
      obtain rfl : a = a' := Except.ok.inj h
      exact .inr ⟨a, rfl, rfl⟩

/-- Whether questions are of the same sort and about the same place. -/
inductive Query.Alike (root root' : Path) : Query → Query → Prop
  | lstat {p p' : Path} (h : Path.SamePlace root root' p p') :
    Alike root root' (.lstat p) (.lstat p')
  | list {p p' : Path} (h : Path.SamePlace root root' p p') :
    Alike root root' (.list p) (.list p')

/-- Whether entries are about the same place, and say the same about it; files have the same
name there. -/
structure Entry.Alike (root root' : Path) (e e' : Entry) : Prop where
  place : Path.SamePlace root root' e.path e'.path
  kind : e.kind? = e'.kind?
  error : e.error?.map OsError.bare = e'.error?.map OsError.bare
  name : e.isRegular = true → e.path.name = e'.path.name

namespace Entry.Alike

variable {root root' p p' : Path} {e e' : Entry}

theorem found {kind : Kind} (hp : Path.SamePlace root root' p p')
    (hfile : kind = .file → p.name = p'.name) :
    Alike root root' (.found p kind) (.found p' kind) where
  place := hp
  kind := rfl
  error := rfl
  name h := hfile (by simpa [Entry.isRegular, Entry.kind?] using h)

theorem unreachable {x x' : OsError} (hp : Path.SamePlace root root' p p')
    (hx : x.bare = x'.bare) : Alike root root' (.unreachable p x) (.unreachable p' x') where
  place := hp
  kind := rfl
  error := congrArg some hx
  name h := by simp [Entry.isRegular, Entry.kind?] at h

theorem unlisted {x x' : OsError} (hp : Path.SamePlace root root' p p')
    (hx : x.bare = x'.bare) : Alike root root' (.unlisted p x) (.unlisted p' x') where
  place := hp
  kind := rfl
  error := congrArg some hx
  name h := by simp [Entry.isRegular, Entry.kind?] at h

theorem hasExtension (h : Alike root root' e e') (extension : Text) :
    e.path.hasExtension e.isRegular extension = e'.path.hasExtension e'.isRegular extension := by
  have hregular : e.isRegular = e'.isRegular := by rw [Entry.isRegular, Entry.isRegular, h.kind]
  unfold Path.hasExtension
  rw [← hregular]
  cases hfile : e.isRegular with
  | false => rfl
  | true => rw [Path.extension, Path.extension, h.name hfile]

/-- There is no error at either place, or there are errors that are the same but for their
subjects. -/
theorem error_cases (h : Alike root root' e e') :
    (e.error? = none ∧ e'.error? = none) ∨
      ∃ x x', e.error? = some x ∧ e'.error? = some x' ∧ x.bare = x'.bare ∧
        x.isDenied = x'.isDenied := by
  have herror := h.error
  cases he : e.error? with
  | none =>
    rw [he] at herror
    exact .inl ⟨rfl, Option.map_eq_none_iff.mp herror.symm⟩
  | some x =>
    rw [he] at herror
    obtain ⟨x', he', hbare⟩ := Option.map_eq_some_iff.mp herror.symm
    have hdenied : x.isDenied = x'.isDenied := by
      rw [← x.isDenied_bare, ← hbare, x'.isDenied_bare]
    exact .inr ⟨x, x', rfl, he', hbare.symm, hdenied⟩

theorem chooses (h : Alike root root' e e') (settings : Settings) :
    settings.chooses e = settings.chooses e' := by
  unfold Settings.chooses
  rw [h.hasExtension]
  rcases h.error_cases with ⟨he, he'⟩ | ⟨x, x', he, he', -⟩
  · rw [he, he']
  · rw [he, he']
    rfl

end Entry.Alike

namespace Walk

variable {root root' : Path}

/-- Whether walks have the same places open and pending. -/
structure Alike (root root' : Path) (w w' : Walk) : Prop where
  opened : Option.Rel (Path.SamePlace root root') w.opened w'.opened
  pending : List.Forall₂ (Path.SamePlace root root') w.pending w'.pending

/-- Whether rounds ask about the same places, and either come to entries about the same place
and leave walks that have the same places to come, or both find nothing left. -/
inductive RoundAlike (root root' : Path) : List Query × Step → List Query × Step → Prop
  | finished {qs qs' : List Query} (hqs : List.Forall₂ (Query.Alike root root') qs qs') :
    RoundAlike root root' (qs, .finished) (qs', .finished)
  | entry {qs qs' : List Query} {e e' : Entry} {w w' : Walk}
      (hqs : List.Forall₂ (Query.Alike root root') qs qs')
      (he : Entry.Alike root root' e e') (hw : Alike root root' w w') :
    RoundAlike root root' (qs, .entry e w) (qs', .entry e' w')

theorem RoundAlike.ask {r r' : List Query × Step} {q q' : Query} (h : RoundAlike root root' r r')
    (hq : Query.Alike root root' q q') :
    RoundAlike root root' (q :: r.1, r.2) (q' :: r'.1, r'.2) := by
  cases h with
  | finished hqs => exact .finished (.cons hq hqs)
  | entry hqs he hw => exact .entry (.cons hq hqs) he hw

theorem RoundAlike.of_finished {qs : List Query} {r' : List Query × Step}
    (h : RoundAlike root root' (qs, .finished) r') :
    ∃ qs', r' = (qs', .finished) ∧ List.Forall₂ (Query.Alike root root') qs qs' := by
  cases h with
  | finished hqs => exact ⟨_, rfl, hqs⟩

theorem RoundAlike.of_entry {qs : List Query} {e : Entry} {w : Walk} {r' : List Query × Step}
    (h : RoundAlike root root' (qs, .entry e w) r') :
    ∃ qs' e' w', r' = (qs', .entry e' w') ∧ List.Forall₂ (Query.Alike root root') qs qs' ∧
      Entry.Alike root root' e e' ∧ Alike root root' w w' := by
  cases h with
  | entry hqs he hw => exact ⟨_, _, _, rfl, hqs, he, hw⟩

theorem Alike.start (root root' : Path) : Alike root root' (start root) (start root') where
  opened := .none
  pending := .cons (.of_root root root') .nil

section Rounds

variable {σ σ' : Type} [FileSystem σ] [FileSystem σ'] {fs : σ} {fs' : σ'}
  (hroot : root.hasNul = false) (hroot' : root'.hasNul = false) (h : SameTree root root' fs fs')
include hroot hroot' h

theorem reach_alike {ps ps' : List Path} (hps : List.Forall₂ (Path.SamePlace root root') ps ps') :
    RoundAlike root root' (reach fs ps) (reach fs' ps') := by
  cases hps with
  | nil => exact .finished .nil
  | @cons p p' rest rest' hp hrest =>
    have hnul := hp.hasNul hroot
    have hnul' := hp.symm.hasNul hroot'
    rcases alike_cases (h.lstat p p' hp) with ⟨e, e', hl, hl', herror⟩ | ⟨kind, hl, hl'⟩
    · simp only [reach, hnul, hnul', hl, hl']
      exact .entry (.cons (.lstat hp) .nil) (.unreachable hp herror) ⟨.none, hrest⟩
    · simp only [reach, hnul, hnul', hl, hl']
      have hfile : kind = .file → p.name = p'.name := by
        rintro rfl
        refine hp.name_eq ?_
        rintro rfl
        exact h.noFile hl
      refine .entry (.cons (.lstat hp) .nil) (.found hp hfile) ⟨?_, hrest⟩
      by_cases hdir : kind = .dir
      · simpa [hdir] using Option.Rel.some hp
      · simp [hdir]

/-- **Rounds in the same tree are alike.** -/
theorem resume_alike {w w' : Walk} (hw : Alike root root' w w') :
    RoundAlike root root' (w.resume fs) (w'.resume fs') := by
  obtain ⟨opened, pending⟩ := w
  obtain ⟨opened', pending'⟩ := w'
  obtain ⟨hopened, hpending⟩ := hw
  cases hopened with
  | none => exact reach_alike hroot hroot' h hpending
  | @some p p' hp =>
    rcases alike_cases (h.list p p' hp) with ⟨e, e', hl, hl', herror⟩ | ⟨names, hl, hl'⟩
    · simp only [resume, hl, hl']
      exact .entry (.cons (.list hp) .nil) (.unlisted hp herror) ⟨.none, hpending⟩
    · simp only [resume, hl, hl']
      have hchildren := hp.children (h.names p p' names hp hl)
      have hround := reach_alike hroot hroot' h (List.rel_append hchildren hpending)
      exact hround.ask (.list hp)

/-- Walks of the same tree that does not change. -/
theorem along_alike (rounds : Nat) {w w' : Walk} (hw : Alike root root' w w') :
    let t := along (List.replicate rounds fs) w
    let t' := along (List.replicate rounds fs') w'
    List.Forall₂ (Query.Alike root root') (t.asked.map (·.2)) (t'.asked.map (·.2)) ∧
      List.Forall₂ (Entry.Alike root root') t.entries t'.entries ∧ t.rest = t'.rest := by
  induction rounds generalizing w w' with
  | zero => exact ⟨.nil, .nil, rfl⟩
  | succ rounds ih =>
    have hround := resume_alike hroot hroot' h hw
    rw [List.replicate_succ, List.replicate_succ]
    unfold along
    generalize w.resume fs = r at hround ⊢
    generalize w'.resume fs' = r' at hround ⊢
    cases hround with
    | finished hqs => simpa [Function.comp_def] using hqs
    | entry hqs he hw =>
      obtain ⟨hasked, hentries, hrest⟩ := ih hw
      refine ⟨?_, .cons he hentries, hrest⟩
      simpa [Function.comp_def] using List.rel_append hqs hasked

end Rounds

end Walk

end FileSweep
