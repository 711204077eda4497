import FileSweep.Walk
import FileSweep.Text.Order

/-!
# The course of a walk

A walk is driven by somebody who changes the file system between two entries.  What the
walk does depends on nothing but the file systems that it meets, one in every round:
`Walk.along` is the trace of a walk for a given list of them.  The changes of a consumer
only decide which list it is (`drive_eq_along`), so whatever holds of every list holds of
every consumer, also of a scan, which changes the file system by its tests.

A round has one of a few forms, and `Walk.along_induction` goes through them.  Every
statement about whole walks is proved by that induction: what a walk asks about is inherited
from what it starts with (`asked_induction`), how questions and entries belong together, and
what a longer list of file systems adds to a trace.  Of a file system that does not change
there is one trace to which nothing more can be added, if there is any (`Walk.Completes`).
-/

namespace FileSweep

/-! ## Views of a trace -/

/-- The path that a question is about. -/
def Query.path : Query → Path
  | .lstat p => p
  | .list p => p

/-- The path that a question looks at. -/
def Query.lstat? : Query → Option Path
  | .lstat p => some p
  | .list _ => none

/-- The path that a question lists. -/
def Query.list? : Query → Option Path
  | .lstat _ => none
  | .list p => some p

namespace Walk
namespace Trace

variable {σ : Type}

/-- The trace of a round that starts with one more question. -/
def ask (t : Trace σ) (fs : σ) (q : Query) : Trace σ := ⟨(fs, q) :: t.asked, t.entries, t.rest⟩

/-- The trace with one more entry in front. -/
def report (t : Trace σ) (e : Entry) : Trace σ := ⟨t.asked, e :: t.entries, t.rest⟩

/-- The paths looked at, in order. -/
def lstats (t : Trace σ) : List Path := t.asked.filterMap fun a => a.2.lstat?

/-- The paths listed, in order. -/
def lists (t : Trace σ) : List Path := t.asked.filterMap fun a => a.2.list?

@[simp] theorem ask_asked (t : Trace σ) (fs : σ) (q : Query) :
    (t.ask fs q).asked = (fs, q) :: t.asked := rfl

@[simp] theorem ask_entries (t : Trace σ) (fs : σ) (q : Query) :
    (t.ask fs q).entries = t.entries := rfl

@[simp] theorem ask_rest (t : Trace σ) (fs : σ) (q : Query) : (t.ask fs q).rest = t.rest := rfl

@[simp] theorem report_asked (t : Trace σ) (e : Entry) : (t.report e).asked = t.asked := rfl

@[simp] theorem report_entries (t : Trace σ) (e : Entry) :
    (t.report e).entries = e :: t.entries := rfl

@[simp] theorem report_rest (t : Trace σ) (e : Entry) : (t.report e).rest = t.rest := rfl

@[simp] theorem lstats_ask_lstat (t : Trace σ) (fs : σ) (p : Path) :
    (t.ask fs (.lstat p)).lstats = p :: t.lstats := rfl

@[simp] theorem lstats_ask_list (t : Trace σ) (fs : σ) (p : Path) :
    (t.ask fs (.list p)).lstats = t.lstats := rfl

@[simp] theorem lists_ask_lstat (t : Trace σ) (fs : σ) (p : Path) :
    (t.ask fs (.lstat p)).lists = t.lists := rfl

@[simp] theorem lists_ask_list (t : Trace σ) (fs : σ) (p : Path) :
    (t.ask fs (.list p)).lists = p :: t.lists := rfl

@[simp] theorem lstats_report (t : Trace σ) (e : Entry) : (t.report e).lstats = t.lstats := rfl

@[simp] theorem lists_report (t : Trace σ) (e : Entry) : (t.report e).lists = t.lists := rfl

@[simp] theorem lstats_nil (es : List Entry) (r : Rest) :
    (⟨[], es, r⟩ : Trace σ).lstats = [] := rfl

@[simp] theorem lists_nil (es : List Entry) (r : Rest) : (⟨[], es, r⟩ : Trace σ).lists = [] := rfl

theorem mem_lists {t : Trace σ} {p : Path} : p ∈ t.lists ↔ ∃ fs, (fs, .list p) ∈ t.asked := by
  unfold lists
  rw [List.mem_filterMap]
  constructor
  · rintro ⟨⟨fs, q⟩, hq, hp⟩
    cases q with
    | lstat p' => cases hp
    | list p' => exact ⟨fs, Option.some.inj hp ▸ hq⟩
  · rintro ⟨fs, h⟩
    exact ⟨(fs, .list p), h, rfl⟩

end Trace

/-! ## A walk and the file systems it meets -/

/-- The file systems that a consumer lets a walk meet in `rounds` rounds, after `count`
entries. -/
def states {σ : Type} (change : Nat → σ → σ) : (rounds count : Nat) → σ → List σ
  | 0, _, _ => []
  | rounds + 1, count, fs => fs :: states change rounds (count + 1) (change (count + 1) fs)

/-- After the last change it is the same file system in every round. -/
theorem states_of_still {σ : Type} {change : Nat → σ → σ} {count : Nat}
    (h : ∀ n > count, change n = id) (rounds : Nat) (fs : σ) :
    states change rounds count fs = List.replicate rounds fs := by
  induction rounds generalizing count with
  | zero => rfl
  | succ rounds ih =>
    have hlater : ∀ n > count + 1, change n = id := fun n hn => h n (by omega)
    rw [states, List.replicate_succ, h (count + 1) (by omega), id, ih hlater]

/-- Without changes it is the same file system in every round. -/
theorem states_id {σ : Type} (rounds count : Nat) (fs : σ) :
    states (fun _ => id) rounds count fs = List.replicate rounds fs :=
  states_of_still (fun _ _ => rfl) rounds fs

/-- What the changes keep holds in every round. -/
theorem forall_states {σ : Type} {P : σ → Prop} {change : Nat → σ → σ}
    (hkeep : ∀ n fs, P fs → P (change n fs)) {rounds count : Nat} {fs : σ} (hfs : P fs) :
    ∀ fs' ∈ states change rounds count fs, P fs' := by
  induction rounds generalizing count fs with
  | zero => simp [states]
  | succ rounds ih => exact List.forall_mem_cons.mpr ⟨hfs, ih (hkeep _ fs hfs)⟩

variable {σ : Type} [FileSystem σ]

/-- The trace of a walk that meets the given file systems, the first one in its next round.
It is left alone when there are no more. -/
def along : List σ → Walk → Trace σ
  | [], _ => ⟨[], [], .suspended⟩
  | fs :: later, w =>
    let (queries, step) := w.resume fs
    let asked := queries.map (fs, ·)
    match step with
    | .finished => ⟨asked, [], .finished⟩
    | .fault f => ⟨asked, [], .fault f⟩
    | .entry e next =>
      let t := along later next
      ⟨asked ++ t.asked, e :: t.entries, t.rest⟩

theorem driveFrom_eq_along (change : Nat → σ → σ) (rounds count : Nat)
    (asked : List (σ × Query)) (seen : List Entry) (fs : σ) (w : Walk) :
    driveFrom change rounds count asked seen fs w =
      let t := along (states change rounds count fs) w
      ⟨asked.reverse ++ t.asked, seen.reverse ++ t.entries, t.rest⟩ := by
  induction rounds generalizing count asked seen fs w with
  | zero => simp [driveFrom, states, along]
  | succ rounds ih =>
    unfold driveFrom states along
    obtain ⟨queries, step⟩ := w.resume fs
    cases step with
    | finished => simp
    | fault f => simp
    | entry e next =>
      dsimp only
      rw [ih]
      simp

/-- **A consumer matters only by the file systems it leaves.** -/
theorem drive_eq_along (change : Nat → σ → σ) (rounds : Nat) (fs : σ) (root : Path) :
    drive change rounds fs root = along (states change rounds 0 fs) (start root) := by
  simp [drive, driveFrom_eq_along]

/-! ## The forms of a round -/

/-- The entry for a path that is looked at. -/
def entryAt (fs : σ) (p : Path) : Entry :=
  match FileSystem.lstat fs p with
  | .error e => .unreachable p e
  | .ok kind => .found p kind

/-- The directory that is to be listed after a path has been looked at. -/
def openedAt (fs : σ) (p : Path) : Option Path :=
  match FileSystem.lstat fs p with
  | .ok .dir => some p
  | _ => none

@[simp] theorem entryAt_path (fs : σ) (p : Path) : (entryAt fs p).path = p := by
  unfold entryAt
  split <;> rfl

theorem mem_openedAt {fs : σ} {p q : Path} :
    q ∈ openedAt fs p ↔ q = p ∧ FileSystem.lstat fs p = .ok .dir := by
  unfold openedAt
  split
  · rename_i h
    simp [h, eq_comm]
  · rename_i h
    simpa using fun _ => h

section Rounds

variable {fs : σ} {later : List σ} {p : Path} {rest : List Path}

@[simp] theorem along_nil (w : Walk) : along ([] : List σ) w = ⟨[], [], .suspended⟩ := rfl

@[simp] theorem along_end : along (fs :: later) ⟨none, []⟩ = ⟨[], [], .finished⟩ := rfl

theorem along_nul (h : p.hasNul = true) :
    along (fs :: later) ⟨none, p :: rest⟩ =
      Trace.ask ⟨[], [], .fault .nulInPath⟩ fs (.lstat p) := by
  simp [along, resume, reach, h, Trace.ask]

theorem along_looked (h : p.hasNul = false) :
    along (fs :: later) ⟨none, p :: rest⟩ =
      ((along later ⟨openedAt fs p, rest⟩).report (entryAt fs p)).ask fs (.lstat p) := by
  unfold openedAt entryAt
  cases hl : FileSystem.lstat fs p with
  | error e => simp [along, resume, reach, h, hl, Trace.ask, Trace.report]
  | ok kind => cases kind <;> simp [along, resume, reach, h, hl, Trace.ask, Trace.report]

theorem along_unlisted {e : OsError} (h : FileSystem.list fs p = .error e) :
    along (fs :: later) ⟨some p, rest⟩ =
      ((along later ⟨none, rest⟩).report (.unlisted p e)).ask fs (.list p) := by
  simp [along, resume, h, Trace.ask, Trace.report]

/-- A directory that can be listed costs a question, but no round: the walk goes on with the
children in the same file system. -/
theorem along_listed {names : List Text} (h : FileSystem.list fs p = .ok names) :
    along (fs :: later) ⟨some p, rest⟩ =
      (along (fs :: later) ⟨none, children p names ++ rest⟩).ask fs (.list p) := by
  simp only [along, resume, h, Trace.ask]
  obtain ⟨queries, step⟩ := reach fs (children p names ++ rest)
  cases step <;> rfl

/-- An opened directory that can be listed gives way to its children, in any number of
rounds. -/
theorem along_opened (n : Nat) (rest : List Path) {names : List Text}
    (h : FileSystem.list fs p = .ok names) :
    let t := along (List.replicate n fs) ⟨some p, rest⟩
    let t' := along (List.replicate n fs) ⟨none, children p names ++ rest⟩
    t.entries = t'.entries ∧ t.rest = t'.rest := by
  cases n with
  | zero => exact ⟨rfl, rfl⟩
  | succ n =>
    rw [List.replicate_succ, along_listed h]
    exact ⟨rfl, rfl⟩

end Rounds

/-- **Induction along a walk**: by the forms of its rounds. -/
theorem along_induction {motive : List σ → Walk → Prop}
    (suspended : ∀ w, motive [] w)
    (finished : ∀ fs later, motive (fs :: later) ⟨none, []⟩)
    (nul : ∀ fs later p rest, p.hasNul = true → motive (fs :: later) ⟨none, p :: rest⟩)
    (looked : ∀ fs later p rest, p.hasNul = false → motive later ⟨openedAt fs p, rest⟩ →
      motive (fs :: later) ⟨none, p :: rest⟩)
    (unlisted : ∀ fs later p rest e, FileSystem.list fs p = .error e →
      motive later ⟨none, rest⟩ → motive (fs :: later) ⟨some p, rest⟩)
    (listed : ∀ fs later p rest names, FileSystem.list fs p = .ok names →
      motive (fs :: later) ⟨none, children p names ++ rest⟩ →
      motive (fs :: later) ⟨some p, rest⟩)
    (fss : List σ) (w : Walk) : motive fss w := by
  induction fss generalizing w with
  | nil => exact suspended w
  | cons fs later ih =>
    -- a listing takes no round: it leads to pending paths in the same one
    have pending : ∀ ps, motive (fs :: later) ⟨none, ps⟩ := by
      intro ps
      cases ps with
      | nil => exact finished fs later
      | cons p rest =>
        cases hn : p.hasNul with
        | true => exact nul fs later p rest hn
        | false => exact looked fs later p rest hn (ih _)
    obtain ⟨opened, rest⟩ := w
    cases opened with
    | none => exact pending rest
    | some p =>
      cases h : FileSystem.list fs p with
      | error e => exact unlisted fs later p rest e h (ih _)
      | ok names => exact listed fs later p rest names h (pending _)

/-! ## What a walk asks about -/

/-- **Inheritance.**  If all pending paths satisfy `P` and the opened one satisfies `Q`, if
directories among the paths with `P` satisfy `Q`, and children of paths with `Q` satisfy
`P`, then a walk looks only at paths with `P` and lists only paths with `Q`. -/
theorem asked_induction (P Q : Path → Prop) (fss : List σ) (w : Walk)
    (hpending : ∀ p ∈ w.pending, P p) (hopened : ∀ p ∈ w.opened, Q p)
    (hdir : ∀ fs p, (fs, .lstat p) ∈ (along fss w).asked → P p →
      FileSystem.lstat fs p = .ok .dir → Q p)
    (hchild : ∀ fs p names, (fs, .list p) ∈ (along fss w).asked → Q p →
      FileSystem.list fs p = .ok names → ∀ n ∈ names, P (p.child n)) :
    (∀ p ∈ (along fss w).lstats, P p) ∧ ∀ p ∈ (along fss w).lists, Q p := by
  induction fss, w using along_induction with
  | suspended w => simp
  | finished fs later => simp
  | nul fs later p rest hn =>
    rw [along_nul hn]
    simpa using hpending p List.mem_cons_self
  | looked fs later p rest hn ih =>
    rw [along_looked hn] at hdir hchild ⊢
    have hp := hpending p List.mem_cons_self
    have ⟨hl, hd⟩ := ih (fun q hq => hpending q (List.mem_cons_of_mem p hq))
      (fun q hq => by
        obtain ⟨rfl, hq⟩ := mem_openedAt.mp hq
        exact hdir fs q List.mem_cons_self hp hq)
      (fun fs' q hq => hdir fs' q (List.mem_cons_of_mem _ hq))
      (fun fs' q names hq => hchild fs' q names (List.mem_cons_of_mem _ hq))
    exact ⟨List.forall_mem_cons.mpr ⟨hp, hl⟩, hd⟩
  | unlisted fs later p rest e h ih =>
    rw [along_unlisted h] at hdir hchild ⊢
    have ⟨hl, hd⟩ := ih hpending (by simp)
      (fun fs' q hq => hdir fs' q (List.mem_cons_of_mem _ hq))
      (fun fs' q names hq => hchild fs' q names (List.mem_cons_of_mem _ hq))
    exact ⟨hl, List.forall_mem_cons.mpr ⟨hopened p rfl, hd⟩⟩
  | listed fs later p rest names h ih =>
    rw [along_listed h] at hdir hchild ⊢
    have hp := hopened p rfl
    have hc := hchild fs p names List.mem_cons_self hp h
    -- the children take the place of the opened directory
    have hnew : ∀ q ∈ children p names ++ rest, P q := by
      intro q hq
      rcases List.mem_append.mp hq with hq | hq
      · obtain ⟨n, hn, rfl⟩ := List.mem_map.mp hq
        exact hc n (Text.mem_sort.mp hn)
      · exact hpending q hq
    have ⟨hl, hd⟩ := ih hnew (by simp)
      (fun fs' q hq => hdir fs' q (List.mem_cons_of_mem _ hq))
      (fun fs' q names hq => hchild fs' q names (List.mem_cons_of_mem _ hq))
    exact ⟨hl, List.forall_mem_cons.mpr ⟨hp, hd⟩⟩

/-- Only a path with a NUL stops a walk out of order. -/
theorem rest_fault {fss : List σ} {w : Walk} {f : Fault} (h : (along fss w).rest = .fault f) :
    f = .nulInPath ∧ ∃ p ∈ (along fss w).lstats, p.hasNul = true := by
  induction fss, w using along_induction with
  | suspended w => cases h
  | finished fs later => cases h
  | nul fs later p rest hn =>
    rw [along_nul hn] at h ⊢
    cases h
    exact ⟨rfl, p, List.mem_cons_self, hn⟩
  | looked fs later p rest hn ih =>
    rw [along_looked hn] at h ⊢
    obtain ⟨hf, q, hq, hqn⟩ := ih h
    exact ⟨hf, q, List.mem_cons_of_mem p hq, hqn⟩
  | unlisted fs later p rest e hl ih =>
    rw [along_unlisted hl] at h ⊢
    exact ih h
  | listed fs later p rest names hl ih =>
    rw [along_listed hl] at h ⊢
    exact ih h

theorem rest_ne_fault {fss : List σ} {w : Walk}
    (h : ∀ p ∈ (along fss w).lstats, p.hasNul = false) (f : Fault) :
    (along fss w).rest ≠ .fault f := by
  intro hf
  obtain ⟨-, p, hp, hnul⟩ := rest_fault hf
  rw [h p hp] at hnul
  cases hnul

/-! ## Questions and entries -/

/-- Questions are put to the file systems that are met. -/
theorem mem_of_asked {fss : List σ} {w : Walk} {fs : σ} {q : Query}
    (h : (fs, q) ∈ (along fss w).asked) : fs ∈ fss := by
  induction fss, w using along_induction with
  | suspended w => simp at h
  | finished fs' later => simp at h
  | nul fs' later p rest hn =>
    rw [along_nul hn] at h
    exact (Prod.mk.inj (List.mem_singleton.mp h)).1 ▸ List.mem_cons_self
  | looked fs' later p rest hn ih =>
    rw [along_looked hn] at h
    rcases List.mem_cons.mp h with he | h
    · exact (Prod.mk.inj he).1 ▸ List.mem_cons_self
    · exact List.mem_cons_of_mem fs' (ih h)
  | unlisted fs' later p rest e hl ih =>
    rw [along_unlisted hl] at h
    rcases List.mem_cons.mp h with he | h
    · exact (Prod.mk.inj he).1 ▸ List.mem_cons_self
    · exact List.mem_cons_of_mem fs' (ih h)
  | listed fs' later p rest names hl ih =>
    rw [along_listed hl] at h
    rcases List.mem_cons.mp h with he | h
    · exact (Prod.mk.inj he).1 ▸ List.mem_cons_self
    · exact ih h

/-- Each directory listed was looked at before. -/
theorem lists_sublist (fss : List σ) (w : Walk) :
    (along fss w).lists.Sublist (w.opened.toList ++ (along fss w).lstats) := by
  induction fss, w using along_induction with
  | suspended w => simp
  | finished fs later => simp
  | nul fs later p rest hn => simp [along_nul hn]
  | looked fs later p rest hn ih =>
    rw [along_looked hn]
    refine ih.trans (List.Sublist.append_right ?_ _ : List.Sublist _ ([p] ++ _))
    unfold openedAt
    split <;> simp
  | unlisted fs later p rest e h ih =>
    rw [along_unlisted h]
    exact ih.cons_cons p
  | listed fs later p rest names h ih =>
    rw [along_listed h]
    exact ih.cons_cons p

/-- The entries without a listing error are those of paths looked at, one for each. -/
theorem looked_sublist (fss : List σ) (w : Walk) :
    (((along fss w).entries.filter fun e => e.error?.isNone).map Entry.path).Sublist
      (along fss w).lstats := by
  induction fss, w using along_induction with
  | suspended w => simp
  | finished fs later => simp
  | nul fs later p rest hn => simp [along_nul hn]
  | looked fs later p rest hn ih =>
    simp only [along_looked hn, Trace.ask_entries, Trace.report_entries, Trace.lstats_ask_lstat,
      Trace.lstats_report, List.filter_cons]
    split
    · simpa using ih
    · exact ih.cons p
  | unlisted fs later p rest e h ih =>
    rw [along_unlisted h]
    exact ih
  | listed fs later p rest names h ih =>
    rw [along_listed h]
    exact ih

/-- An entry costs a question. -/
theorem entries_length_le (fss : List σ) (w : Walk) :
    (along fss w).entries.length ≤ (along fss w).lstats.length + (along fss w).lists.length := by
  induction fss, w using along_induction with
  | suspended w => simp
  | finished fs later => simp
  | nul fs later p rest hn => simp [along_nul hn]
  | looked fs later p rest hn ih =>
    simp only [along_looked hn, Trace.ask_entries, Trace.report_entries, List.length_cons,
      Trace.lstats_ask_lstat, Trace.lstats_report, Trace.lists_ask_lstat, Trace.lists_report]
    omega
  | unlisted fs later p rest e h ih =>
    simp only [along_unlisted h, Trace.ask_entries, Trace.report_entries, List.length_cons,
      Trace.lstats_ask_list, Trace.lstats_report, Trace.lists_ask_list, Trace.lists_report]
    omega
  | listed fs later p rest names h ih =>
    simp only [along_listed h, Trace.ask_entries, Trace.lstats_ask_list, Trace.lists_ask_list,
      List.length_cons]
    omega

/-! ## Further rounds -/

/-- A walk that is left alone has used every round for an entry. -/
theorem entries_length_of_suspended {fss : List σ} {w : Walk}
    (h : (along fss w).rest = .suspended) : (along fss w).entries.length = fss.length := by
  induction fss, w using along_induction with
  | suspended w => rfl
  | finished fs later => cases h
  | nul fs later p rest hn => rw [along_nul hn] at h; cases h
  | looked fs later p rest hn ih =>
    rw [along_looked hn] at h ⊢
    exact congrArg (· + 1) (ih h)
  | unlisted fs later p rest e hl ih =>
    rw [along_unlisted hl] at h ⊢
    exact congrArg (· + 1) (ih h)
  | listed fs later p rest names hl ih =>
    rw [along_listed hl] at h ⊢
    exact ih h

/-- A walk that has come to its end, or has been stopped, does nothing in further rounds. -/
theorem along_append {fss : List σ} {w : Walk} (more : List σ)
    (h : (along fss w).rest ≠ .suspended) : along (fss ++ more) w = along fss w := by
  induction fss, w using along_induction with
  | suspended w => exact absurd rfl h
  | finished fs later => rfl
  | nul fs later p rest hn => rw [List.cons_append, along_nul hn, along_nul hn]
  | looked fs later p rest hn ih =>
    rw [along_looked hn] at h
    rw [List.cons_append, along_looked hn, along_looked hn, ih h]
  | unlisted fs later p rest e hl ih =>
    rw [along_unlisted hl] at h
    rw [List.cons_append, along_unlisted hl, along_unlisted hl, ih h]
  | listed fs later p rest names hl ih =>
    rw [along_listed hl] at h
    rw [List.cons_append, along_listed hl, along_listed hl, ← List.cons_append, ih h]

/-- What a walk reports in some rounds is the beginning of what it reports in more. -/
theorem entries_prefix (fss more : List σ) (w : Walk) :
    (along fss w).entries <+: (along (fss ++ more) w).entries := by
  induction fss, w using along_induction with
  | suspended w => exact List.nil_prefix
  | finished fs later => exact List.prefix_refl _
  | nul fs later p rest hn => simp [along_nul hn]
  | looked fs later p rest hn ih =>
    rw [List.cons_append, along_looked hn, along_looked hn]
    exact (List.prefix_cons_inj _).mpr ih
  | unlisted fs later p rest e hl ih =>
    rw [List.cons_append, along_unlisted hl, along_unlisted hl]
    exact (List.prefix_cons_inj _).mpr ih
  | listed fs later p rest names hl ih =>
    rw [List.cons_append, along_listed hl, along_listed hl, ← List.cons_append]
    exact ih

/-! ## Walks of an unchanging file system -/

/-- What stands in a walk that is still under way was there in fewer rounds, too. -/
theorem along_within {fs : σ} {n m : Nat} {w : Walk} (hle : n ≤ m)
    (h : (along (List.replicate m fs) w).rest = .suspended) :
    (along (List.replicate n fs) w).rest = .suspended ∧
      (along (List.replicate n fs) w).entries <+: (along (List.replicate m fs) w).entries := by
  obtain ⟨k, rfl⟩ := Nat.exists_eq_add_of_le hle
  rw [← List.replicate_append_replicate] at h ⊢
  refine ⟨?_, entries_prefix _ _ _⟩
  by_cases hrest : (along (List.replicate n fs) w).rest = .suspended
  · exact hrest
  · exact along_append _ hrest ▸ h

/-- Whether the walk from `root` comes to its end if nothing changes, and with this trace. -/
structure Completes (fs : σ) (root : Path) (t : Trace σ) : Prop where
  rest : t.rest = .finished
  driven : ∃ rounds, drive (fun _ => id) rounds fs root = t

namespace Completes

variable {fs : σ} {root : Path} {t : Trace σ}

/-- A number of rounds either is enough for the whole walk, or gives a part of it. -/
theorem enough_or_part (h : Completes fs root t) (n : Nat) :
    along (List.replicate n fs) (start root) = t ∨
      ∃ m, along (List.replicate n fs ++ List.replicate m fs) (start root) = t := by
  obtain ⟨enough, hdriven⟩ := h.driven
  rw [drive_eq_along, states_id] at hdriven
  rcases Nat.le_total enough n with hle | hle
  · obtain ⟨m, rfl⟩ := Nat.exists_eq_add_of_le hle
    left
    rw [← List.replicate_append_replicate, along_append _ (by simp [hdriven, h.rest]), hdriven]
  · obtain ⟨m, rfl⟩ := Nat.exists_eq_add_of_le hle
    right
    exact ⟨m, by rw [List.replicate_append_replicate, hdriven]⟩

theorem entries_prefix (h : Completes fs root t) (n : Nat) :
    (along (List.replicate n fs) (start root)).entries <+: t.entries := by
  rcases h.enough_or_part n with rfl | ⟨m, rfl⟩
  · exact List.prefix_refl _
  · exact Walk.entries_prefix _ _ _

theorem eq_of_rest (h : Completes fs root t) {n : Nat}
    (hn : (along (List.replicate n fs) (start root)).rest ≠ .suspended) :
    along (List.replicate n fs) (start root) = t := by
  rcases h.enough_or_part n with ht | ⟨m, ht⟩
  · exact ht
  · rw [← ht, along_append _ hn]

end Completes

end Walk

end FileSweep
