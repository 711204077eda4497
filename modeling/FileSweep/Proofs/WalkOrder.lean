import FileSweep.Proofs.DiskNames
import FileSweep.Proofs.ScanCourse

/-!
# The order of a walk

If every listing that a walk gets consists of different real names, then the walk goes
through the paths in their order, strictly upwards, however the file system changes in the
meantime.

The reason is that the paths still to come lie side by side (`Walk.Ordered`): each one, with
everything below it, comes before the next one with everything below that, and the opened
directory comes before all of them.  A round looks at the first of them, or puts the children
of the opened directory in its place, which lie side by side too; and from then on the walk
only gets to paths that are below one of those (`Walk.Covers`).
-/

namespace FileSweep
namespace Walk

variable {σ : Type} [FileSystem σ]

/-- Whether all listings that were had are made of different real names. -/
def Trace.HasNames (t : Trace σ) : Prop :=
  ∀ fs p names, (fs, .list p) ∈ t.asked → FileSystem.list fs p = .ok names →
    Text.AreNames names

theorem Trace.HasNames.of_ask {t : Trace σ} {fs : σ} {q : Query} (h : (t.ask fs q).HasNames) :
    t.HasNames :=
  fun fs' p names hq => h fs' p names (List.mem_cons_of_mem _ hq)

theorem hasNames_of_disks {fss : List Disk} (w : Walk)
    (h : ∀ d ∈ fss, d.Holds Node.WellNamed) : (along fss w).HasNames :=
  fun d _ _ hasked hlist => ((h d (mem_of_asked hasked)).names hlist).1

/-! ## The invariant of the pending paths -/

/-- The paths still to come lie side by side, after the opened directory. -/
structure Ordered (w : Walk) : Prop where
  pending : w.pending.Pairwise fun p q => LeftOf p.parts q.parts
  opened : ∀ p ∈ w.opened, ∀ q ∈ w.pending, LeftOf p.parts q.parts

/-- Whether a walk can still get to a path: below the opened directory, or at or below a
pending path. -/
def Covers (w : Walk) (q : Path) : Prop :=
  (∃ p ∈ w.opened, ∃ c ≠ [], q.parts = p.parts ++ c) ∨ ∃ p ∈ w.pending, p.parts <+: q.parts

theorem Ordered.start (root : Path) : (start root).Ordered :=
  ⟨List.pairwise_singleton _ _, by simp [Walk.start]⟩

theorem Ordered.looked {p : Path} {rest : List Path} (h : Ordered ⟨none, p :: rest⟩) (fs : σ) :
    Ordered ⟨openedAt fs p, rest⟩ := by
  obtain ⟨hp, hrest⟩ := List.pairwise_cons.mp h.pending
  refine ⟨hrest, fun q hq => ?_⟩
  rw [(mem_openedAt.mp hq).1]
  exact hp

omit [FileSystem σ] in
theorem Ordered.unlisted {p : Path} {rest : List Path} (h : Ordered ⟨some p, rest⟩) :
    Ordered ⟨none, rest⟩ :=
  ⟨h.pending, by simp⟩

/-- The children of a directory lie side by side. -/
theorem pairwise_children (p : Path) {names : List Text} (h : Text.AreNames names) :
    (children p names).Pairwise fun q r => LeftOf q.parts r.parts := by
  refine List.pairwise_map.mpr ((Text.sort_strict h.2).imp_of_mem ?_)
  intro m n hm hn hlt
  rw [(p.child_of_isPart (h.1 m (Text.mem_sort.mp hm))).2,
    (p.child_of_isPart (h.1 n (Text.mem_sort.mp hn))).2]
  exact (LeftOf.here [] [] hlt).under p.parts

theorem parts_of_mem_children {p q : Path} {names : List Text} (h : Text.AreNames names)
    (hq : q ∈ children p names) : ∃ n ∈ names, q.parts = p.parts ++ [n] := by
  obtain ⟨n, hn, rfl⟩ := List.mem_map.mp hq
  have hn := Text.mem_sort.mp hn
  exact ⟨n, hn, (p.child_of_isPart (h.1 n hn)).2⟩

theorem Ordered.listed {p : Path} {rest : List Path} {names : List Text}
    (h : Ordered ⟨some p, rest⟩) (hnames : Text.AreNames names) :
    Ordered ⟨none, children p names ++ rest⟩ := by
  refine ⟨List.pairwise_append.mpr ⟨pairwise_children p hnames, h.pending, ?_⟩, by simp⟩
  intro q hq r hr
  obtain ⟨n, -, hparts⟩ := parts_of_mem_children hnames hq
  have happ := (h.opened p rfl r hr).append [n] []
  rwa [← hparts, List.append_nil] at happ

/-! ## Strictly upwards -/

theorem Covers.of_looked {fs : σ} {p q : Path} {rest : List Path}
    (h : Covers ⟨openedAt fs p, rest⟩ q) : Covers ⟨none, p :: rest⟩ q := by
  rcases h with ⟨r, hr, c, -, hq⟩ | ⟨r, hr, hq⟩
  · rw [(mem_openedAt.mp hr).1] at hq
    exact .inr ⟨p, List.mem_cons_self, hq ▸ List.prefix_append _ _⟩
  · exact .inr ⟨r, List.mem_cons_of_mem p hr, hq⟩

theorem Covers.of_listed {p q : Path} {rest : List Path} {names : List Text}
    (hnames : Text.AreNames names) (h : Covers ⟨none, children p names ++ rest⟩ q) :
    Covers ⟨some p, rest⟩ q := by
  obtain ⟨r, hr, hq⟩ := h.resolve_left (by simp)
  rcases List.mem_append.mp hr with hr | hr
  · obtain ⟨n, -, hparts⟩ := parts_of_mem_children hnames hr
    obtain ⟨c, hc⟩ := hq
    exact .inl ⟨p, rfl, n :: c, by simp, by rw [← hc, hparts]; simp⟩
  · exact .inr ⟨r, hr, hq⟩

/-- What a walk gets to after a path comes after that path. -/
theorem Ordered.lex_of_covers {fs : σ} {p q : Path} {rest : List Path}
    (h : Ordered ⟨none, p :: rest⟩) (hq : Covers ⟨openedAt fs p, rest⟩ q) :
    List.Lex Text.Lt p.parts q.parts := by
  rcases hq with ⟨r, hr, c, hc, hparts⟩ | ⟨r, hr, hparts⟩
  · rw [(mem_openedAt.mp hr).1] at hparts
    rw [hparts]
    exact lex_append_of_ne_nil _ hc
  · have hleft := (List.pairwise_cons.mp h.pending).1 r hr
    exact hleft.lex_of_prefix (List.prefix_refl _) hparts

/-- **A walk goes strictly upwards**, and gets only to paths that it covers. -/
theorem lstats_ascending (fss : List σ) (w : Walk) (hw : w.Ordered)
    (hnames : (along fss w).HasNames) :
    Path.Ascending (along fss w).lstats ∧
      ∀ q ∈ (along fss w).lstats, w.Covers q := by
  induction fss, w using along_induction with
  | suspended w => simp [Path.Ascending]
  | finished fs later => simp [Path.Ascending]
  | nul fs later p rest hn =>
    rw [along_nul hn]
    exact ⟨List.pairwise_singleton _ _, by simp [Covers]⟩
  | looked fs later p rest hn ih =>
    rw [along_looked hn] at hnames ⊢
    -- what is looked at later is covered by what is left, and that lies to the right of `p`
    have ⟨hup, hcovers⟩ := ih (hw.looked fs) hnames.of_ask
    refine ⟨List.pairwise_cons.mpr ⟨fun q hq => hw.lex_of_covers (hcovers q hq), hup⟩, ?_⟩
    refine List.forall_mem_cons.mpr ⟨?_, fun q hq => (hcovers q hq).of_looked⟩
    exact .inr ⟨p, List.mem_cons_self, List.prefix_refl _⟩
  | unlisted fs later p rest e h ih =>
    rw [along_unlisted h] at hnames ⊢
    have ⟨hup, hcovers⟩ := ih hw.unlisted hnames.of_ask
    exact ⟨hup, fun q hq => .inr ((hcovers q hq).resolve_left (by simp))⟩
  | listed fs later p rest names h ih =>
    rw [along_listed h] at hnames ⊢
    have hn := hnames fs p names List.mem_cons_self h
    have ⟨hup, hcovers⟩ := ih (hw.listed hn) hnames.of_ask
    exact ⟨hup, fun q hq => (hcovers q hq).of_listed hn⟩

/-! ## Below the root -/

/-- What a walk from `root` looks at, and lists, in order: paths below `root`, strictly
upwards, none of them twice. -/
structure Trace.Ascends (root : Path) (t : Trace σ) : Prop where
  under : ∀ p ∈ t.lstats, root.IsUnder p
  upwards : (t.lstats.map root.below).Pairwise (List.Lex Text.Lt)
  looked_once : (t.lstats.map Path.text).Nodup
  listed_once : (t.lists.map Path.text).Nodup

/-- A walk with real names in its listings stays below its root. -/
theorem isUnder_of_lstats {fss : List σ} {root : Path}
    (h : (along fss (start root)).HasNames) :
    ∀ p ∈ (along fss (start root)).lstats, root.IsUnder p := by
  refine (asked_induction root.IsUnder root.IsUnder fss (start root) ?_ ?_ ?_ ?_).1
  · simpa [start] using root.isUnder_refl
  · simp [start]
  · exact fun _ _ _ hp _ => hp
  · intro fs p names hq hp hl n hn
    exact hp.child ((h fs p names hq hl).1 n hn)

theorem lstats_nodup {fss : List σ} {w : Walk} (hw : w.Ordered)
    (h : (along fss w).HasNames) : (along fss w).lstats.Nodup :=
  (lstats_ascending fss w hw h).1.nodup

omit [FileSystem σ] in
/-- Paths that are told apart are told apart by their texts. -/
theorem nodup_map_text {ps : List Path} (h : ps.Nodup) : (ps.map Path.text).Nodup :=
  List.pairwise_map.mpr (h.imp fun hne he => hne (Path.text_inj.mp he))

theorem ascends_along {fss : List σ} {root : Path} (h : (along fss (start root)).HasNames) :
    (along fss (start root)).Ascends root where
  under := isUnder_of_lstats h
  upwards := by
    have hunder := isUnder_of_lstats h
    refine List.pairwise_map.mpr ((lstats_ascending fss _ (.start root) h).1.imp_of_mem ?_)
    exact fun hp hq hlex => (hunder _ hp).lex_below (hunder _ hq) hlex
  looked_once := nodup_map_text (lstats_nodup (.start root) h)
  listed_once :=
    nodup_map_text ((lists_sublist fss (start root)).nodup (lstats_nodup (.start root) h))

/-! ## Entries that belong together -/

/-- Every entry has a kind or an error, and one with both comes right after the entry of the
same directory with the kind alone. -/
def Paired (es : List Entry) : Prop :=
  ∀ before e after, es = before ++ e :: after →
    e.kind?.isSome ≠ e.error?.isSome ∨
      e.kind? = some .dir ∧ e.error?.isSome = true ∧
        before.getLast? = some (.found e.path .dir)

theorem entryAt_eq_of_opened {fs : σ} {p : Path} {e : Entry}
    (h : (openedAt fs p).map (.found · .dir) = some e) : entryAt fs p = e := by
  obtain ⟨q, hq, rfl⟩ := Option.map_eq_some_iff.mp h
  obtain ⟨rfl, hl⟩ := mem_openedAt.mp hq
  simp [entryAt, hl]

theorem entryAt_kind_ne_error (fs : σ) (p : Path) :
    (entryAt fs p).kind?.isSome ≠ (entryAt fs p).error?.isSome := by
  unfold entryAt
  split <;> simp [Entry.kind?, Entry.error?]

/-- For a walk under way, the entry of the opened directory counts as the one before. -/
theorem paired_from (fss : List σ) (w : Walk) (before : List Entry) (e : Entry)
    (after : List Entry) (h : (along fss w).entries = before ++ e :: after) :
    e.kind?.isSome ≠ e.error?.isSome ∨
      e.kind? = some .dir ∧ e.error?.isSome = true ∧
        before.getLast?.or (w.opened.map (.found · .dir)) = some (.found e.path .dir) := by
  induction fss, w using along_induction generalizing before with
  | suspended w => simp at h
  | finished fs later => simp at h
  | nul fs later p rest hn => simp [along_nul hn] at h
  | looked fs later p rest hn ih =>
    rw [along_looked hn] at h
    cases before with
    | nil =>
      rw [← (List.cons.inj h).1]
      exact .inl (entryAt_kind_ne_error fs p)
    | cons b before =>
      obtain ⟨rfl, htail⟩ := List.cons.inj h
      refine (ih before htail).imp id fun ⟨hkind, herror, hlast⟩ => ⟨hkind, herror, ?_⟩
      rw [List.getLast?_cons]
      -- the entry before is one of the rest, or the one that opened the directory
      cases hb : before.getLast? with
      | some f => simpa [hb] using hlast
      | none =>
        rw [hb, Option.none_or] at hlast
        simp [entryAt_eq_of_opened hlast]
  | unlisted fs later p rest error hl ih =>
    rw [along_unlisted hl] at h
    cases before with
    | nil =>
      rw [← (List.cons.inj h).1]
      exact .inr ⟨rfl, rfl, rfl⟩
    | cons b before =>
      obtain ⟨rfl, htail⟩ := List.cons.inj h
      refine (ih before htail).imp id fun ⟨hkind, herror, hlast⟩ => ⟨hkind, herror, ?_⟩
      rw [Option.map_none, Option.or_none] at hlast
      simp [List.getLast?_cons, hlast]
  | listed fs later p rest names hl ih =>
    rw [along_listed hl] at h
    refine (ih before h).imp id fun ⟨hkind, herror, hlast⟩ => ⟨hkind, herror, ?_⟩
    rw [Option.map_none, Option.or_none] at hlast
    simp [hlast]

theorem paired_along (fss : List σ) (root : Path) : Paired (along fss (start root)).entries := by
  intro before e after h
  simpa [start] using paired_from fss (start root) before e after h

/-! ## Walks and scans -/

/-- The files that the settings choose among the entries have been looked at, in that order. -/
theorem chosen_sublist (settings : Settings) (fss : List σ) (w : Walk) :
    (((along fss w).entries.filter settings.chooses).map Entry.path).Sublist
      (along fss w).lstats := by
  have hfilter : (along fss w).entries.filter settings.chooses =
      ((along fss w).entries.filter fun e => e.error?.isNone).filter fun e =>
        e.path.hasExtension e.isRegular settings.extension := by
    rw [List.filter_filter]
    exact List.filter_congr fun e _ => Bool.and_comm _ _
  rw [hfilter]
  exact (List.filter_sublist.map Entry.path).trans (looked_sublist fss w)

/-- **Each path at most once, in strict order.**  A walk that gets only real, distinct names
from its listings goes strictly upwards through the paths below its root, whatever happens to
the file system between its entries; so does the walk inside a scan, which therefore calls the
executable at most once for a path.  And every entry has either a kind or an error, but for
the second entry of a directory that could not be listed. -/
theorem walk_strictly_upwards :
    (∀ (change : Nat → σ → σ) (rounds : Nat) (fs : σ) (root : Path),
      (drive change rounds fs root).HasNames → (drive change rounds fs root).Ascends root) ∧
    (∀ (change : Nat → σ → σ) (rounds : Nat) (fs : σ) (root : Path),
      Paired (drive change rounds fs root).entries) ∧
    (∀ (α : Type) (tester : Tester α) (settings : Settings) (root : Path) (budget : Nat)
      (fs : σ) (script : List (Attempt σ α)),
      let t := Scan.walked tester settings root budget (.start fs root script)
      let events := (Scan.run tester settings root budget fs script).1
      Event.queries events = t.asked.map (·.2) ∧
        (t.HasNames → t.Ascends root ∧ ((Event.calls events).map fun c => c.2.text).Nodup)) := by
  refine ⟨?_, ?_, ?_⟩
  · intro change rounds fs root h
    rw [drive_eq_along] at h ⊢
    exact ascends_along h
  · intro change rounds fs root
    rw [drive_eq_along]
    exact paired_along _ root
  · intro α tester settings root budget fs script
    have hrun := Scan.run_eq_course tester settings root budget fs script
    dsimp only at hrun ⊢
    rw [hrun]
    refine ⟨Scan.queries_course tester settings root _ budget, fun h => ?_⟩
    have ht : Scan.walked tester settings root budget (.start fs root script) =
        along (Scan.met tester settings root budget (.start fs root script)) (start root) := rfl
    rw [ht] at h ⊢
    have hup := ascends_along h
    have hcalls := ((chosen_sublist settings _ (start root)).map Path.text).nodup hup.looked_once
    refine ⟨hup, ?_⟩
    simpa [Scan.calls_course, ht, Function.comp_def] using hcalls

/-- The small disk is edited after every entry of a walk, and by every test of a scan. -/
theorem sample_strictly_upwards :
    let t := drive (fun _ d => d.apply Disk.sampleEdits) 10 Disk.sample Disk.sampleRoot
    let script : List (Attempt Disk (Except Fault TestResult)) :=
      [⟨fun d => d.apply Disk.sampleEdits, .ok {}⟩]
    let t' := Scan.walked .prepared .default Disk.sampleRoot 9
      (.start Disk.sample Disk.sampleRoot script)
    t.HasNames ∧ t.Ascends Disk.sampleRoot ∧ t'.HasNames ∧ t'.Ascends Disk.sampleRoot := by
  intro t script t'
  obtain ⟨hdriven, -, hscanned⟩ := @walk_strictly_upwards Disk _
  have hedit : ∀ d : Disk, d.Holds Node.WellNamed →
      (d.apply Disk.sampleEdits).Holds Node.WellNamed :=
    fun d hd => hd.apply Disk.wellNamed_sampleEdits
  have ht : t.HasNames := by
    rw [show t = _ from drive_eq_along _ _ _ _]
    exact hasNames_of_disks _ (forall_states (fun _ => hedit) Disk.wellNamed_sample)
  have ht' : t'.HasNames := by
    refine hasNames_of_disks _ fun d hd => ?_
    refine Scan.forall_stages Disk.wellNamed_sample ?_ d (Scan.met_subset_stages _ _ _ _ _ d hd)
    simpa [Scan.start, script] using hedit
  exact ⟨ht, hdriven _ _ _ _ ht, ht', ((hscanned _ _ _ _ _ _ _).2 ht').1⟩

end Walk

end FileSweep
