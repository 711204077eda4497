import FileSweep.Proofs.Account

/-!
# Scans that break off

A refusal of the file system never ends a scan: each one becomes an entry, and the scan goes on
with the next (`Walk.entryAt_mem_of_asked`, `Walk.unlisted_mem_of_asked`).  Two things do end it
out of order.  One is a root for which the system cannot even be asked; then nothing has
happened but the first question.  The other is a test that breaks off, over whatever it may be,
also over a refusal of the system: what is a refusal there is no business of the walk.

A test that breaks off is the last thing that happens (`Scan.course_broken`).  And since nothing
after it was made, what has happened by then is the beginning of every scan in which the tests
before it are the same, whatever becomes of this one (`Scan.course_prefix_of_broken`).
-/

namespace FileSweep

/-! ## Refusals become entries -/

namespace Walk

variable {σ : Type} [FileSystem σ] {fss : List σ} {w : Walk} {fs : σ} {p : Path}

/-- The entry that a question leads to: that of the path looked at, or that of a directory that
cannot be listed.  A listing that is had leads to none, and neither does a path with a NUL. -/
def entryOf (fs : σ) : Query → Option Entry
  | .lstat p => if p.hasNul then none else some (entryAt fs p)
  | .list p =>
    match FileSystem.list fs p with
    | .error e => some (.unlisted p e)
    | .ok _ => none

/-- **The entries of a walk are those that its questions lead to.** -/
theorem entries_eq_filterMap (fss : List σ) (w : Walk) :
    (along fss w).entries = (along fss w).asked.filterMap fun a => entryOf a.1 a.2 := by
  induction fss, w using along_induction with
  | suspended w => rfl
  | finished fs later => rfl
  | nul fs later p rest hn => simp [along_nul hn, entryOf, hn]
  | looked fs later p rest hn ih => simp [along_looked hn, entryOf, hn, ih]
  | unlisted fs later p rest e hl ih => simp [along_unlisted hl, entryOf, hl, ih]
  | listed fs later p rest names hl ih => simp [along_listed hl, entryOf, hl, ih]

/-- Each path that is looked at is an entry, whatever the answer. -/
theorem entryAt_mem_of_asked (h : (fs, .lstat p) ∈ (along fss w).asked)
    (hnul : p.hasNul = false) : entryAt fs p ∈ (along fss w).entries := by
  rw [entries_eq_filterMap]
  exact List.mem_filterMap.mpr ⟨_, h, by simp [entryOf, hnul]⟩

/-- A listing that is refused is an entry. -/
theorem unlisted_mem_of_asked {e : OsError} (h : (fs, .list p) ∈ (along fss w).asked)
    (he : FileSystem.list fs p = .error e) : .unlisted p e ∈ (along fss w).entries := by
  rw [entries_eq_filterMap]
  exact List.mem_filterMap.mpr ⟨_, h, by simp [entryOf, he]⟩

end Walk

namespace Scan

section Broken

variable {σ : Type} {settings : Settings} {root : Path} {fs : σ}
  {script : List (Attempt σ (Except Fault TestResult))} {budget : Nat}

/-! ## Tests that break off -/

theorem outcomes_ne_error_of_passes {k : Nat} {f : Fault} (h : passes script k = true) :
    outcomes script k ≠ .error f :=
  outcome_ne_error_of_passes h f

namespace Ending

variable {tested ps : List Path} {rest : Walk.Rest} {e : ScanEnd} {f : Fault}

/-- If one of the tests breaks off, it is the last one, and the scan ends with its fault. -/
theorem of_raised (h : Ending .prepared settings root script tested rest ps e) {k : Nat}
    (hk : k < ps.length) (hf : outcomes script k = .error f) :
    k + 1 = ps.length ∧ e = .fault f ∧ ∀ i < k, Scan.passes script i = true := by
  cases h with
  | unfinished h => exact absurd hf (outcomes_ne_error_of_passes (h.passes hk))
  | stuck h _ => exact absurd hf (outcomes_ne_error_of_passes (h.passes hk))
  | finished h _ => exact absurd hf (outcomes_ne_error_of_passes (h.passes hk))
  | @broken ps p f' h hv =>
    rw [List.length_append, List.length_singleton] at hk ⊢
    rcases Nat.lt_or_eq_of_le (Nat.le_of_lt_succ hk) with hlt | rfl
    · exact absurd hf (outcomes_ne_error_of_passes (h.passes hlt))
    · have hff : Except.error f' = Except.error f := hv.symm.trans hf
      cases hff
      exact ⟨rfl, rfl, fun i hi => h.passes hi⟩
  | @failed ps p r h hv hr =>
    rw [List.length_append, List.length_singleton] at hk
    rcases Nat.lt_or_eq_of_le (Nat.le_of_lt_succ hk) with hlt | rfl
    · exact absurd hf (outcomes_ne_error_of_passes (h.passes hlt))
    · cases hv.symm.trans hf

/-- A fault that is not the walk's is one of a test. -/
theorem exists_raised (h : Ending .prepared settings root script tested rest ps (.fault f))
    (hrest : rest ≠ .fault f) : ∃ k < ps.length, outcomes script k = .error f := by
  cases h with
  | stuck h hf => exact absurd hf hrest
  | @broken ps p f h hv => exact ⟨ps.length, by simp, hv⟩

end Ending

variable [FileSystem σ] {s : Scan σ (Except Fault TestResult)}

/-- A test that breaks off is the last thing that happens. -/
theorem course_broken {f : Fault}
    (h : (course .prepared settings root budget s).2 = .fault f)
    (hrest : (walked .prepared settings root budget s).rest ≠ .fault f) :
    ∃ p, [.printed p.text, .called settings.executable p] <:+
      (course .prepared settings root budget s).1 := by
  induction budget, s using @course_induction σ _ _ .prepared settings with
  | unfinished s => cases h
  | finished budget s qs hr => simp [course_ended (step_finished hr)] at h
  | fault budget s qs f' hr =>
    rw [course_ended (step_fault hr)] at h
    cases h
    have hstuck : (walked .prepared settings root (budget + 1) s).rest = .fault f := by
      simp [walked_ended (step_fault hr), Walk.along, hr]
    exact absurd hstuck hrest
  | passedOver budget s qs e w hr hc ih =>
    rw [course_going (step_passedOver hr hc)] at h ⊢
    rw [walked_going hr (step_passedOver hr hc)] at hrest
    obtain ⟨p, hlast⟩ := ih h hrest
    exact ⟨p, hlast.trans (List.suffix_append _ _)⟩
  | broken budget s qs e w f' hr hc hv =>
    rw [course_ended (step_broken hr hc hv)]
    refine ⟨e.path, qs.map .asked ++ [.reached e], ?_⟩
    simp [testing_prepared]
  | failed budget s qs e w result failure hr hc hv hf =>
    simp [course_ended (step_failed hr hc hv hf)] at h
  | passed budget s qs e w result hr hc hv hf ih =>
    rw [course_going (step_passed hr hc hv hf)] at h ⊢
    rw [walked_going hr (step_passed hr hc hv hf)] at hrest
    obtain ⟨p, hlast⟩ := ih h hrest
    exact ⟨p, hlast.trans (List.suffix_append _ _)⟩

/-- Up to the call on a file that is reached, the attempt for it does not matter. -/
theorem prefix_course_of_chosen {qs : List Query} {e : Entry} {w : Walk}
    (h : s.walk.resume s.fs = (qs, .entry e w)) (hc : settings.chooses e = true) :
    qs.map .asked ++ [.reached e, .printed e.path.text, .called settings.executable e.path] <+:
      (course .prepared settings root (budget + 1) s).1 := by
  cases hv : verdictAt .prepared settings.executable s.script 0 e.path with
  | error f =>
    rw [course_ended (step_broken h hc hv)]
    exact List.prefix_refl _
  | ok result =>
    cases hf : result.failure with
    | none =>
      rw [course_going (step_passed h hc hv hf)]
      simp [testing_prepared]
    | some failure =>
      rw [course_ended (step_failed h hc hv hf)]
      simp [testing_prepared]

/-- **What has happened when a test breaks off is the beginning of every scan** from the same
state in which the tests before it are the same. -/
theorem course_prefix_of_broken {n : Nat} {f : Fault} {s' : Scan σ (Except Fault TestResult)}
    (hfs : s'.fs = s.fs) (hwalk : s'.walk = s.walk)
    (hagree : Agree .prepared n s.script s'.script)
    (hn : n < (Event.calls (course .prepared settings root budget s).1).length)
    (hf : outcomes s.script n = .error f) :
    (course .prepared settings root budget s).1 <+:
      (course .prepared settings root budget s').1 := by
  induction budget, s using @course_induction σ _ _ .prepared settings generalizing n s' with
  | unfinished s => exact List.prefix_refl _
  | finished budget s qs h => simp [course_ended (step_finished h)] at hn
  | fault budget s qs f' h => simp [course_ended (step_fault h)] at hn
  | passedOver budget s qs e w h hc ih =>
    have h' : s'.walk.resume s'.fs = (qs, .entry e w) := by rw [hwalk, hfs, h]
    rw [course_going (step_passedOver h hc)] at hn ⊢
    rw [course_going (step_passedOver h' hc)]
    refine (List.prefix_append_right_inj _).mpr (ih hfs rfl hagree ?_ hf)
    simpa using hn
  | broken budget s qs e w f' h hc hv =>
    have h' : s'.walk.resume s'.fs = (qs, .entry e w) := by rw [hwalk, hfs, h]
    rw [course_ended (step_broken h hc hv)]
    exact prefix_course_of_chosen h' hc
  | failed budget s qs e w result failure h hc hv hr =>
    -- the only call of this scan gives a result
    rw [course_ended (step_failed h hc hv hr)] at hn
    obtain rfl : n = 0 := by simpa using hn
    cases hv.symm.trans hf
  | passed budget s qs e w result h hc hv hr ih =>
    cases n with
    | zero => cases hv.symm.trans hf
    | succ n =>
      have h' : s'.walk.resume s'.fs = (qs, .entry e w) := by rw [hwalk, hfs, h]
      have hv' : verdictAt .prepared settings.executable s'.script 0 e.path = .ok result := by
        rw [verdictAt, ← hagree.head]
        exact hv
      have hlater : outcomes s.script.tail n = .error f := by
        rw [outcomes_tail]
        exact hf
      rw [course_going (step_passed h hc hv hr)] at hn ⊢
      rw [course_going (step_passed h' hc hv' hr)]
      refine (List.prefix_append_right_inj _).mpr (ih ?_ rfl hagree.tail ?_ hlater)
      · show (attemptAt .prepared s'.script 0).change s'.fs =
          (attemptAt .prepared s.script 0).change s.fs
        rw [hagree.head, hfs]
      · simpa using hn

/-- A root with a NUL ends the scan at the first question. -/
theorem run_of_hasNul (settings : Settings) (h : root.hasNul = true) (hbudget : 0 < budget) :
    run .prepared settings root budget fs script =
      ([.printed ("starting in '" ++ root.text ++ "'"), .asked (.lstat root)],
        .fault .nulInPath) := by
  obtain ⟨n, rfl⟩ := Nat.exists_eq_add_of_lt hbudget
  have hresume : (start fs root script).walk.resume (start fs root script).fs =
      ([.lstat root], .fault .nulInPath) := by
    simp [start, Walk.start, Walk.resume, Walk.reach, h]
  rw [run_eq_course, Nat.zero_add, course_ended (step_fault hresume)]
  rfl

/-- What is known of a scan, with these events and this end, whose `k`-th test, counted from 0,
has broken off with the fault `f`: nothing has happened after its call, what was printed and
noted is the account of the entries, up to the path of that file, and it is the beginning of
all scans in which the tests before it are the same. -/
structure BrokenOff (settings : Settings) (root : Path) (budget : Nat) (fs : σ)
    (script : List (Attempt σ (Except Fault TestResult))) (k : Nat) (f : Fault)
    (r : List Event × ScanEnd) : Prop where
  ending : r.2 = .fault f
  calls : (Event.calls r.1).length = k + 1
  passed : ∀ i < k, passes script i = true
  last : ∃ p, [.printed p.text, .called settings.executable p] <:+ r.1
  lines : ∃ decode, Utf8.IsDecoder decode ∧
    Event.lines r.1 = ("starting in '" ++ root.text ++ "'") ::
      settings.account decode (outcomes script) (Event.entries r.1)
  records : Event.records r.1 = settings.remarks (outcomes script) (Event.entries r.1)
  beginning : ∀ script', Agree .prepared k script script' →
    r.1 <+: (run .prepared settings root budget fs script').1

/-- Every run ends in one of the ways, with the files that it calls the executable on. -/
theorem run_ending (settings : Settings) (root : Path) (budget : Nat) (fs : σ)
    (script : List (Attempt σ (Except Fault TestResult))) :
    let r := run .prepared settings root budget fs script
    Ending .prepared settings root script []
      (walked .prepared settings root budget (start fs root script)).rest
      ((Event.calls r.1).map (·.2)) r.2 := by
  rw [run_eq_course]
  exact course_ending .prepared settings root budget (start fs root script)

/-- A scan whose walk meets no NUL is broken off by the test that breaks off. -/
theorem brokenOff_of_raised
    (hrest : ∀ f, (walked .prepared settings root budget (start fs root script)).rest ≠ .fault f)
    {k : Nat} {f : Fault}
    (hk : k < (Event.calls (run .prepared settings root budget fs script).1).length)
    (hf : outcomes script k = .error f) :
    BrokenOff settings root budget fs script k f
      (run .prepared settings root budget fs script) := by
  have hending := run_ending settings root budget fs script
  have hrecords := records_run settings root budget fs script
  dsimp only at hending hrecords
  obtain ⟨hlength, hend, hpassed⟩ := hending.of_raised (by simpa using hk) hf
  rw [List.length_map] at hlength
  have hcourse : (course .prepared settings root budget (start fs root script)).2 = .fault f := by
    rw [run_eq_course] at hend
    exact hend
  obtain ⟨p, hlast⟩ := course_broken hcourse (hrest f)
  refine ⟨hend, hlength.symm, hpassed, ⟨p, ?_⟩, lines_run settings root budget fs script, ?_, ?_⟩
  · rw [run_eq_course]
    exact hlast.trans (List.suffix_cons _ _)
  · rw [hrecords, hend, endRecords, List.append_nil]
  · intro script' hagree
    rw [run_eq_course] at hk
    rw [run_eq_course, run_eq_course]
    refine List.cons_prefix_cons.mpr ⟨rfl, ?_⟩
    exact course_prefix_of_broken rfl rfl hagree hk hf

/-- **What leaves a scan out of order.**  If no listing has a name with a NUL, a scan ends with
a fault exactly if its root has a NUL or a test that it comes to breaks off.  In the first case
the heading has been printed, and the first question asked, and that is all.  In the second case
the fault is that of the test, whatever it is, and the scan is broken off right after the call
(`BrokenOff`).  And every refusal of the file system has become an entry. -/
theorem run_fault_iff (settings : Settings) (root : Path) (fs : σ)
    (script : List (Attempt σ (Except Fault TestResult)))
    (hnames : ∀ fs' ∈ stages fs script, FileSystem.NulFree fs') (budget : Nat)
    (hbudget : 0 < budget) :
    let r := run .prepared settings root budget fs script
    let t := walked .prepared settings root budget (start fs root script)
    ((∃ f, r.2 = .fault f) ↔
      root.hasNul = true ∨ ∃ k < (Event.calls r.1).length, ∃ f, outcomes script k = .error f) ∧
    (root.hasNul = true →
      r = ([.printed ("starting in '" ++ root.text ++ "'"), .asked (.lstat root)],
        .fault .nulInPath)) ∧
    (∀ k < (Event.calls r.1).length, ∀ f, outcomes script k = .error f →
      BrokenOff settings root budget fs script k f r) ∧
    (∀ fs' p e, (fs', .lstat p) ∈ t.asked → p.hasNul = false →
      FileSystem.lstat fs' p = .error e → .unreachable p e ∈ Event.entries r.1) ∧
    (∀ fs' p e, (fs', .list p) ∈ t.asked →
      FileSystem.list fs' p = .error e → .unlisted p e ∈ Event.entries r.1) := by
  intro r t
  have hentries : Event.entries r.1 = t.entries := by
    show Event.entries (run .prepared settings root budget fs script).1 = _
    rw [run_eq_course]
    exact entries_course .prepared settings root (start fs root script) budget
  have hmet := met_subset_stages .prepared settings root budget (start fs root script)
  have hbroken : ∀ k < (Event.calls r.1).length, ∀ f, outcomes script k = .error f →
      BrokenOff settings root budget fs script k f r := by
    intro k hk f hf
    cases hroot : root.hasNul with
    | true =>
      -- such a scan makes no call
      have hr : r = _ := run_of_hasNul settings hroot hbudget
      rw [hr] at hk
      exact absurd hk (Nat.not_lt_zero k)
    | false =>
      have hfree := Walk.rest_ne_fault_of_nulFree hroot fun fs' h => hnames fs' (hmet fs' h)
      exact brokenOff_of_raised hfree hk hf
  refine ⟨⟨?_, ?_⟩, fun hroot => run_of_hasNul settings hroot hbudget, hbroken, ?_, ?_⟩
  · rintro ⟨f, hf⟩
    cases hroot : root.hasNul with
    | true => exact .inl rfl
    | false =>
      have hfree := Walk.rest_ne_fault_of_nulFree hroot fun fs' h => hnames fs' (hmet fs' h)
      have hending := run_ending settings root budget fs script
      dsimp only at hending
      rw [hf] at hending
      obtain ⟨k, hk, hraised⟩ := hending.exists_raised (hfree f)
      rw [List.length_map] at hk
      exact .inr ⟨k, hk, f, hraised⟩
  · rintro (hroot | ⟨k, hk, f, hf⟩)
    · exact ⟨.nulInPath, congrArg Prod.snd (run_of_hasNul settings hroot hbudget)⟩
    · exact ⟨f, (hbroken k hk f hf).ending⟩
  · intro fs' p e hasked hnul he
    rw [hentries]
    have hmem := Walk.entryAt_mem_of_asked hasked hnul
    rw [Walk.entryAt, he] at hmem
    exact hmem
  · intro fs' p e hasked he
    rw [hentries]
    exact Walk.unlisted_mem_of_asked hasked he

end Broken

/-! ### A scan of a small disk that breaks off -/

/-- A first test that passes, and a second one that breaks off for want of permission. -/
def secondBreaksOff : List (Attempt Disk (Except Fault TestResult)) :=
  [⟨id, .ok {}⟩, ⟨id, .error (.os (.plain "no" true))⟩]

set_option maxRecDepth 8000 in
theorem length_calls_secondBreaksOff :
    (Event.calls
      (run .prepared .default Disk.sampleRoot 9 troubledDisk secondBreaksOff).1).length = 2 := by
  cbv

/-- The second test breaks off; and from a root with a NUL there is no test. -/
theorem sample_broken_off :
    BrokenOff .default Disk.sampleRoot 9 troubledDisk secondBreaksOff 1 (.os (.plain "no" true))
        (run .prepared .default Disk.sampleRoot 9 troubledDisk secondBreaksOff) ∧
      (run .prepared .default (.ofText [.char (Char.ofNat 0)]) 9 troubledDisk secondBreaksOff).2 =
        .fault .nulInPath := by
  have hwell : ∀ d ∈ stages troubledDisk secondBreaksOff, d.Holds Node.WellNamed :=
    forall_stages wellNamed_troubledDisk (by simp [secondBreaksOff])
  have hnames : ∀ d ∈ stages troubledDisk secondBreaksOff, FileSystem.NulFree d :=
    fun d hd p names h => ((hwell d hd).names h).2
  obtain ⟨-, -, hbroken, -⟩ := run_fault_iff .default Disk.sampleRoot troubledDisk
    secondBreaksOff hnames 9 (by decide)
  obtain ⟨-, hnul, -⟩ := run_fault_iff .default (.ofText [.char (Char.ofNat 0)]) troubledDisk
    secondBreaksOff hnames 9 (by decide)
  refine ⟨hbroken 1 ?_ _ rfl, congrArg Prod.snd (hnul (by decide))⟩
  rw [length_calls_secondBreaksOff]
  decide

end Scan

end FileSweep
