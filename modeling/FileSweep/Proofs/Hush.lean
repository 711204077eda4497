import FileSweep.Proofs.Reachable

/-!
# Walks that differ in what is silent

A scan passes over most of what it meets without a word: paths that are no files with the chosen
extension, and paths to which permission is denied.  Such entries are silent.  If all entries
below one name of a directory are silent, then the name may as well not be there, however much
lies there; and a directory that may not be listed may as well be empty (`Settings.Quiets`).

Two walks are compared round by round.  They are in the same place, and go through the same
pending paths, but for some that the second one lacks (`Walk.Thins`); where the first one comes
to such a path it reports silent entries only, and then both go on together.  So whatever the
second walk does, the first one can follow (`Walk.followed`), and it does nothing in which it is
not led by the second one (`Walk.led`).  Nothing is asked of the shape of the tree.
-/

namespace FileSweep

/-! ## Silent entries -/

namespace Settings

variable {settings : Settings}

/-- Whether an entry leads to no test and no line: it is not chosen, and an error is a denied
permission. -/
def IsSilent (settings : Settings) (e : Entry) : Prop :=
  settings.chooses e = false ∧ ∀ error ∈ e.error?, error.isDenied = true

instance (settings : Settings) (e : Entry) : Decidable (settings.IsSilent e) :=
  inferInstanceAs (Decidable (_ ∧ _))

/-- Whether the second list is the first one without some of its silent entries. -/
inductive Hushes (settings : Settings) : List Entry → List Entry → Prop
  | nil : Hushes settings [] []
  | keep (e : Entry) {es es' : List Entry} (h : Hushes settings es es') :
      Hushes settings (e :: es) (e :: es')
  | hush {e : Entry} {es es' : List Entry} (he : settings.IsSilent e)
      (h : Hushes settings es es') : Hushes settings (e :: es) es'

theorem Hushes.append_silent {silent es es' : List Entry}
    (hsilent : ∀ e ∈ silent, settings.IsSilent e) (h : settings.Hushes es es') :
    settings.Hushes (silent ++ es) es' := by
  induction silent with
  | nil => exact h
  | cons e silent ih =>
    obtain ⟨he, hlater⟩ := List.forall_mem_cons.mp hsilent
    exact .hush he (ih hlater)

end Settings

/-! ## Walks of the same places -/

namespace Walk

variable {σ : Type} {settings : Settings} {fs fs' : σ}

namespace Trace

variable {t t' : Trace σ}

/-- Whether two traces come to rest alike, and the second has the entries of the first one
without some silent ones. -/
structure Hushes (settings : Settings) (t t' : Trace σ) : Prop where
  entries : settings.Hushes t.entries t'.entries
  rest : t.rest = t'.rest

theorem Hushes.report (h : t.Hushes settings t') (q : Query) (e : Entry) :
    ((t.report e).ask fs q).Hushes settings ((t'.report e).ask fs' q) :=
  ⟨.keep e h.entries, h.rest⟩

theorem Hushes.report_silent (h : t.Hushes settings t') (q : Query) {e : Entry}
    (he : settings.IsSilent e) : ((t.report e).ask fs q).Hushes settings t' :=
  ⟨.hush he h.entries, h.rest⟩

end Trace

variable [FileSystem σ]

/-- A walk that comes to its end is followed by what was pending behind it. -/
theorem along_followed {fss : List σ} {w : Walk} (hfs : ∀ fs' ∈ fss, fs' = fs)
    (h : (along fss w).rest = .finished) (m : Nat) (rest : List Path) :
    let t := along fss w
    let later := along (List.replicate m fs) ⟨none, rest⟩
    let whole := along (List.replicate (t.entries.length + m) fs) ⟨w.opened, w.pending ++ rest⟩
    whole.entries = t.entries ++ later.entries ∧ whole.rest = later.rest := by
  induction fss, w using along_induction with
  | suspended w => cases h
  | finished fs₀ more => simp
  | nul fs₀ more p ps hn => rw [along_nul hn] at h; cases h
  | looked fs₀ more p ps hn ih =>
    obtain ⟨rfl, hmore⟩ := List.forall_mem_cons.mp hfs
    rw [along_looked hn] at h ⊢
    obtain ⟨hentries, hrest⟩ := ih hmore h
    simp only [Trace.ask_entries, Trace.report_entries, List.length_cons, Nat.add_right_comm _ 1,
      List.replicate_succ, List.cons_append, along_looked hn, Trace.ask_rest, Trace.report_rest]
    exact ⟨by rw [hentries], hrest⟩
  | unlisted fs₀ more p ps e hl ih =>
    obtain ⟨rfl, hmore⟩ := List.forall_mem_cons.mp hfs
    rw [along_unlisted hl] at h ⊢
    obtain ⟨hentries, hrest⟩ := ih hmore h
    simp only [Trace.ask_entries, Trace.report_entries, List.length_cons, Nat.add_right_comm _ 1,
      List.replicate_succ, List.cons_append, along_unlisted hl, Trace.ask_rest,
      Trace.report_rest]
    exact ⟨by rw [hentries], hrest⟩
  | listed fs₀ more p ps names hl ih =>
    obtain ⟨rfl, -⟩ := List.forall_mem_cons.mp hfs
    rw [along_listed hl] at h ⊢
    obtain ⟨hentries, hrest⟩ := ih hfs h
    simp only [Trace.ask_entries]
    obtain ⟨hopened, hopenedRest⟩ := along_opened _ (ps ++ rest) hl
    rw [hopened, hopenedRest, ← List.append_assoc]
    exact ⟨hentries, hrest⟩

end Walk

/-! ## Silent changes -/

namespace Settings

variable {σ : Type} [FileSystem σ] {settings : Settings} {fs : σ}

/-- Whether the walk from a path comes to its end, and reports nothing but silent entries. -/
def PassesOver (settings : Settings) (fs : σ) (p : Path) : Prop :=
  ∃ t : Walk.Trace σ, Walk.Completes fs p t ∧ ∀ e ∈ t.entries, settings.IsSilent e

/-- Whether `fs'` is `fs` but for the listing of `dir`, which lacks a name below which all is
silent, or is empty while it was denied. -/
structure Quiets (settings : Settings) (fs fs' : σ) (dir : Path) : Prop where
  lstat : ∀ p, FileSystem.lstat fs' p = FileSystem.lstat fs p
  list_elsewhere : ∀ p, p ≠ dir → FileSystem.list fs' p = FileSystem.list fs p
  listing :
    (∃ names name, FileSystem.list fs dir = .ok names ∧
        FileSystem.list fs' dir = .ok (names.erase name) ∧
        settings.PassesOver fs (dir.child name)) ∨
      ∃ e, FileSystem.list fs dir = .error e ∧ e.isDenied = true ∧
        FileSystem.list fs' dir = .ok []

/-- What is silent comes before whatever is pending behind it. -/
theorem PassesOver.followed {p : Path} (h : settings.PassesOver fs p) :
    ∃ silent : List Entry, silent ≠ [] ∧ (∀ e ∈ silent, settings.IsSilent e) ∧
      ∀ (m : Nat) (rest : List Path),
        let later := Walk.along (List.replicate m fs) ⟨none, rest⟩
        let whole := Walk.along (List.replicate (silent.length + m) fs) ⟨none, p :: rest⟩
        whole.entries = silent ++ later.entries ∧ whole.rest = later.rest := by
  obtain ⟨t, ht, hsilent⟩ := h
  refine ⟨t.entries, ?_, hsilent, ?_⟩
  · refine List.ne_nil_of_mem (a := Walk.entryAt fs p) ?_
    rw [ht.entries_eq]
    exact List.mem_flatMap.mpr ⟨p, ht.mem_lstats_iff.mpr .root, List.mem_cons_self⟩
  · obtain ⟨n, rfl, hrest⟩ := ht.exists_along
    exact fun m rest => Walk.along_followed (fun fs' => List.eq_of_mem_replicate) hrest m rest

end Settings

namespace Walk

variable {σ : Type} [FileSystem σ] {settings : Settings} {fs fs' : σ} {dir p : Path}
  {ps ps' qs qs' : List Path}

/-- Whether the second list of paths is the first one without some that are passed over. -/
inductive Thins (settings : Settings) (fs : σ) : List Path → List Path → Prop
  | nil : Thins settings fs [] []
  | keep (p : Path) {ps ps' : List Path} (h : Thins settings fs ps ps') :
      Thins settings fs (p :: ps) (p :: ps')
  | drop {p : Path} {ps ps' : List Path} (hp : settings.PassesOver fs p)
      (h : Thins settings fs ps ps') : Thins settings fs (p :: ps) ps'

theorem Thins.refl (ps : List Path) : Thins settings fs ps ps := by
  induction ps with
  | nil => exact .nil
  | cons p ps ih => exact .keep p ih

theorem Thins.append (h : Thins settings fs ps ps') (hq : Thins settings fs qs qs') :
    Thins settings fs (ps ++ qs) (ps' ++ qs') := by
  induction h with
  | nil => exact hq
  | keep p h ih => exact .keep p ih
  | drop hp h ih => exact .drop hp ih

/-- The children without a name that is passed over. -/
theorem thins_children {names : List Text} {name : Text}
    (h : settings.PassesOver fs (p.child name)) :
    Thins settings fs (children p names) (children p (names.erase name)) := by
  unfold children
  rw [Text.sort_erase]
  induction Text.sort names with
  | nil => exact .nil
  | cons n ns ih =>
    rw [List.erase_cons]
    split
    · rename_i heq
      rw [beq_iff_eq.mp heq]
      exact .drop h (.refl _)
    · exact .keep _ ih

/-- What the two file systems answer about an opened directory. -/
theorem opened_cases (hq : settings.Quiets fs fs' dir) (p : Path) (ht : Thins settings fs ps ps') :
    (∃ e, FileSystem.list fs p = .error e ∧ FileSystem.list fs' p = .error e) ∨
      (∃ names names', FileSystem.list fs p = .ok names ∧ FileSystem.list fs' p = .ok names' ∧
        Thins settings fs (children p names ++ ps) (children p names' ++ ps')) ∨
      ∃ e, FileSystem.list fs p = .error e ∧ e.isDenied = true ∧
        FileSystem.list fs' p = .ok [] := by
  by_cases hp : p = dir
  · subst hp
    rcases hq.listing with ⟨names, name, hlist, hlist', hover⟩ | hdenied
    · exact .inr (.inl ⟨names, _, hlist, hlist', (thins_children hover).append ht⟩)
    · exact .inr (.inr hdenied)
  · rw [hq.list_elsewhere p hp]
    cases FileSystem.list fs p with
    | error e => exact .inl ⟨e, rfl, rfl⟩
    | ok names => exact .inr (.inl ⟨names, names, rfl, rfl, (Thins.refl _).append ht⟩)

/-- Both walks may list what they have opened first. -/
theorem hushes_opened {n n' : Nat} {names names' : List Text}
    (hlist : FileSystem.list fs p = .ok names) (hlist' : FileSystem.list fs' p = .ok names')
    (h : Trace.Hushes settings (along (List.replicate n fs) ⟨none, children p names ++ ps⟩)
      (along (List.replicate n' fs') ⟨none, children p names' ++ ps'⟩)) :
    Trace.Hushes settings (along (List.replicate n fs) ⟨some p, ps⟩)
      (along (List.replicate n' fs') ⟨some p, ps'⟩) := by
  obtain ⟨hentries, hrest⟩ := along_opened n ps hlist
  obtain ⟨hentries', hrest'⟩ := along_opened n' ps' hlist'
  exact ⟨by rw [hentries, hentries']; exact h.entries, by rw [hrest, hrest']; exact h.rest⟩

/-- Where the first walk is denied a listing, the second one has nothing to do. -/
theorem hushes_denied {n n' : Nat} {e : OsError} (hlist : FileSystem.list fs p = .error e)
    (he : e.isDenied = true) (hlist' : FileSystem.list fs' p = .ok [])
    (h : Trace.Hushes settings (along (List.replicate n fs) ⟨none, ps⟩)
      (along (List.replicate n' fs') ⟨none, ps'⟩)) :
    Trace.Hushes settings (along (List.replicate (n + 1) fs) ⟨some p, ps⟩)
      (along (List.replicate n' fs') ⟨some p, ps'⟩) := by
  have hsilent : settings.IsSilent (.unlisted p e) := by
    refine ⟨rfl, fun error herror => ?_⟩
    rw [← Option.some.inj herror]
    exact he
  have hnone : children p [] ++ ps' = ps' := by simp [children, Text.sort]
  obtain ⟨hentries', hrest'⟩ := along_opened n' ps' hlist'
  rw [hnone] at hentries' hrest'
  rw [List.replicate_succ, along_unlisted hlist]
  refine Trace.Hushes.report_silent ⟨?_, ?_⟩ _ hsilent
  · rw [hentries']
    exact h.entries
  · rw [hrest']
    exact h.rest

/-- Neither walk can list what both have opened. -/
theorem hushes_unlisted {n n' : Nat} {e : OsError} (hlist : FileSystem.list fs p = .error e)
    (hlist' : FileSystem.list fs' p = .error e)
    (h : Trace.Hushes settings (along (List.replicate n fs) ⟨none, ps⟩)
      (along (List.replicate n' fs') ⟨none, ps'⟩)) :
    Trace.Hushes settings (along (List.replicate (n + 1) fs) ⟨some p, ps⟩)
      (along (List.replicate (n' + 1) fs') ⟨some p, ps'⟩) := by
  rw [List.replicate_succ, List.replicate_succ, along_unlisted hlist, along_unlisted hlist']
  exact h.report _ _

/-- Both walks are stopped by a NUL. -/
theorem hushes_nul (hn : p.hasNul = true) (n n' : Nat) :
    Trace.Hushes settings (along (List.replicate (n + 1) fs) ⟨none, p :: ps⟩)
      (along (List.replicate (n' + 1) fs') ⟨none, p :: ps'⟩) := by
  rw [List.replicate_succ, List.replicate_succ, along_nul hn, along_nul hn]
  exact ⟨.nil, rfl⟩

/-- Both walks look at a path that is there for both. -/
theorem hushes_looked (hq : settings.Quiets fs fs' dir) (hn : p.hasNul = false) {n n' : Nat}
    (h : Trace.Hushes settings (along (List.replicate n fs) ⟨openedAt fs p, ps⟩)
      (along (List.replicate n' fs') ⟨openedAt fs p, ps'⟩)) :
    Trace.Hushes settings (along (List.replicate (n + 1) fs) ⟨none, p :: ps⟩)
      (along (List.replicate (n' + 1) fs') ⟨none, p :: ps'⟩) := by
  have hentry : entryAt fs' p = entryAt fs p := by rw [entryAt, entryAt, hq.lstat]
  have hopened : openedAt fs' p = openedAt fs p := by rw [openedAt, openedAt, hq.lstat]
  rw [List.replicate_succ, List.replicate_succ, along_looked hn, along_looked hn, hentry, hopened]
  exact h.report _ _

/-- A path that is passed over takes some rounds of the first walk. -/
theorem hushes_dropped {w' : Walk} {n' : Nat} (hp : settings.PassesOver fs p)
    (h : ∃ n, Trace.Hushes settings (along (List.replicate n fs) ⟨none, ps⟩)
      (along (List.replicate n' fs') w')) :
    ∃ n, Trace.Hushes settings (along (List.replicate n fs) ⟨none, p :: ps⟩)
      (along (List.replicate n' fs') w') := by
  obtain ⟨n, hn⟩ := h
  obtain ⟨silent, -, hsilent, hfollowed⟩ := hp.followed
  obtain ⟨hentries, hrest⟩ := hfollowed n ps
  refine ⟨silent.length + n, ?_, ?_⟩
  · rw [hentries]
    exact hn.entries.append_silent hsilent
  · rw [hrest]
    exact hn.rest

/-! ## The second walk is followed by the first -/

section Following

variable {n' : Nat}

/-- Whether the first walk can follow whatever the second one does in so many rounds. -/
def Followed (settings : Settings) (fs fs' : σ) (n' : Nat) : Prop :=
  ∀ opened ps ps', Thins settings fs ps ps' → ∃ n, Trace.Hushes settings
    (along (List.replicate n fs) ⟨opened, ps⟩) (along (List.replicate n' fs') ⟨opened, ps'⟩)

theorem followed_pending (hq : settings.Quiets fs fs' dir)
    (ih : Followed settings fs fs' n') (h : Thins settings fs ps ps') :
    ∃ n, Trace.Hushes settings (along (List.replicate n fs) ⟨none, ps⟩)
      (along (List.replicate (n' + 1) fs') ⟨none, ps'⟩) := by
  induction h with
  | nil => exact ⟨1, .nil, rfl⟩
  | drop hp h ihdrop => exact hushes_dropped hp ihdrop
  | keep p h _ =>
    cases hn : p.hasNul with
    | true => exact ⟨1, hushes_nul hn 0 n'⟩
    | false =>
      obtain ⟨n, hlater⟩ := ih (openedAt fs p) _ _ h
      exact ⟨n + 1, hushes_looked hq hn hlater⟩

/-- **Whatever the walk without the silent paths does, the other one does,** with silent entries
in between. -/
theorem followed (hq : settings.Quiets fs fs' dir) (n' : Nat) : Followed settings fs fs' n' := by
  induction n' with
  | zero => exact fun opened ps ps' _ => ⟨0, .nil, rfl⟩
  | succ n' ih =>
    intro opened ps ps' h
    cases opened with
    | none => exact followed_pending hq ih h
    | some p =>
      rcases opened_cases hq p h with ⟨e, hlist, hlist'⟩ | ⟨names, names', hlist, hlist', hthin⟩ |
        ⟨e, hlist, he, hlist'⟩
      · obtain ⟨n, hlater⟩ := ih none ps ps' h
        exact ⟨n + 1, hushes_unlisted hlist hlist' hlater⟩
      · obtain ⟨n, hlater⟩ := followed_pending hq ih hthin
        exact ⟨n, hushes_opened hlist hlist' hlater⟩
      · obtain ⟨n, hlater⟩ := followed_pending hq ih h
        exact ⟨n + 1, hushes_denied hlist he hlist' hlater⟩

end Following

/-! ## The first walk is led by the second -/

section Leading

variable {n : Nat}

/-- Whether the second walk can do whatever the first one does in so many rounds. -/
def Led (settings : Settings) (fs fs' : σ) (n : Nat) : Prop :=
  ∀ opened ps ps', Thins settings fs ps ps' → ∃ n', Trace.Hushes settings
    (along (List.replicate n fs) ⟨opened, ps⟩) (along (List.replicate n' fs') ⟨opened, ps'⟩)

/-- While the first walk is at a path that is passed over, the second one waits. -/
theorem led_dropped (hp : settings.PassesOver fs p) (ih : ∀ m ≤ n, Led settings fs fs' m)
    (h : Thins settings fs ps ps') :
    ∃ n', Trace.Hushes settings (along (List.replicate (n + 1) fs) ⟨none, p :: ps⟩)
      (along (List.replicate n' fs') ⟨none, ps'⟩) := by
  obtain ⟨silent, hne, hsilent, hfollowed⟩ := hp.followed
  have hpos : 0 < silent.length := List.length_pos_iff.mpr hne
  rcases Nat.le_total (n + 1) silent.length with hwithin | hbeyond
  · obtain ⟨hentries, hrest⟩ := hfollowed 0 ps
    obtain ⟨hsuspended, hpart⟩ := along_within hwithin hrest
    refine ⟨0, ?_, hsuspended⟩
    have hall : ∀ e ∈ (along (List.replicate (n + 1) fs) ⟨none, p :: ps⟩).entries,
        settings.IsSilent e := by
      intro e he
      have hmem := hpart.subset he
      rw [Nat.add_zero] at hentries
      rw [hentries, List.replicate_zero, along_nil, List.append_nil] at hmem
      exact hsilent e hmem
    rw [← List.append_nil (along _ _).entries]
    exact Settings.Hushes.nil.append_silent hall
  · obtain ⟨m, hm⟩ := Nat.exists_eq_add_of_le hbeyond
    obtain ⟨n', hlater⟩ := ih m (by omega) none ps ps' h
    obtain ⟨hentries, hrest⟩ := hfollowed m ps
    rw [← hm] at hentries hrest
    refine ⟨n', ?_, ?_⟩
    · rw [hentries]
      exact hlater.entries.append_silent hsilent
    · rw [hrest]
      exact hlater.rest

theorem led_pending (hq : settings.Quiets fs fs' dir) (ih : ∀ m ≤ n, Led settings fs fs' m)
    (h : Thins settings fs ps ps') :
    ∃ n', Trace.Hushes settings (along (List.replicate (n + 1) fs) ⟨none, ps⟩)
      (along (List.replicate n' fs') ⟨none, ps'⟩) := by
  cases h with
  | nil => exact ⟨1, .nil, rfl⟩
  | drop hp h => exact led_dropped hp ih h
  | keep p h =>
    cases hn : p.hasNul with
    | true => exact ⟨1, hushes_nul hn n 0⟩
    | false =>
      obtain ⟨n', hlater⟩ := ih n (Nat.le_refl n) (openedAt fs p) _ _ h
      exact ⟨n' + 1, hushes_looked hq hn hlater⟩

/-- **The walk with the silent paths does nothing else** than the other one, but for silent
entries. -/
theorem led (hq : settings.Quiets fs fs' dir) (n : Nat) : Led settings fs fs' n := by
  -- a path that is passed over takes several rounds at once
  induction n using Nat.strongRecOn with
  | _ n ih =>
    cases n with
    | zero => exact fun opened ps ps' _ => ⟨0, .nil, rfl⟩
    | succ n =>
      replace ih : ∀ m ≤ n, Led settings fs fs' m := fun m hm => ih m (Nat.lt_succ_of_le hm)
      intro opened ps ps' h
      cases opened with
      | none => exact led_pending hq ih h
      | some p =>
        rcases opened_cases hq p h with ⟨e, hlist, hlist'⟩ |
          ⟨names, names', hlist, hlist', hthin⟩ | ⟨e, hlist, he, hlist'⟩
        · obtain ⟨n', hlater⟩ := ih n (Nat.le_refl n) none ps ps' h
          exact ⟨n' + 1, hushes_unlisted hlist hlist' hlater⟩
        · obtain ⟨n', hlater⟩ := led_pending hq ih hthin
          exact ⟨n', hushes_opened hlist hlist' hlater⟩
        · obtain ⟨n', hlater⟩ := ih n (Nat.le_refl n) none ps ps' h
          exact ⟨n', hushes_denied hlist he hlist' hlater⟩

end Leading

end Walk

end FileSweep
