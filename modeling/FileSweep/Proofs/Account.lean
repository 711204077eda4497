import FileSweep.Proofs.Decoding
import FileSweep.Proofs.FirstFailure
import FileSweep.Sweep

/-!
# The account of a scan

Whatever a scan prints and notes belongs to one of its entries, but for the heading in front
and one notice at the end.  Each entry has a fate (`Fate`): it is a path that is denied, or
one with another trouble, or one that is passed over, or it is tested, with a verdict.  The
verdicts are dealt out in order, one to each entry that the settings choose
(`Settings.fates`).

From the fates the report and the log can be written down without the scan: `Fate.lines` says
what is printed about an entry, and `Fate.records` what the log has of it.  A scan prints and
notes exactly that, for one entry after the other (`Scan.lines_course`,
`Scan.records_course`).  Captured output stands in the report as what its bytes decode to
(`Utf8.IsDecoder`).
-/

namespace FileSweep

/-! ## The lines and the records of events -/

namespace Notice

/-- What a log keeps of a notice: where it comes from, how much it matters, and its words. -/
def record (n : Notice) : Channel × Level × Text := (n.channel, n.level, n.message)

@[simp] theorem record_skipped (p : Path) (e : OsError) :
    (skipped p e).record = (.walk, .debug, "Skipping " ++ p.text ++ ": " ++ e.message) := rfl

@[simp] theorem record_walkFinished (count : Nat) (root : Path) :
    (walkFinished count root).record =
      (.walk, .info, "Tested " ++ Text.ofNat count ++ " file(s) under " ++ root.text) := rfl

@[simp] theorem record_walkStopped (count : Nat) (p : Path) :
    (walkStopped count p).record =
      (.walk, .info,
        "Stopped after " ++ Text.ofNat count ++ " file(s): " ++ p.text ++ " failed") := rfl

@[simp] theorem record_sweeping (extension : Text) (root executable : Path) :
    (sweeping extension root executable).record =
      (.sweep, .info, "Testing " ++ extension ++ " files under " ++ root.text ++ " with " ++
        executable.text) := rfl

@[simp] theorem record_sweepStopped (p : Path) :
    (sweepStopped p).record =
      (.sweep, .info, "Scan stopped at " ++ p.text ++ ", rerun to continue") := rfl

end Notice

/-- A text in bytes, with a line break. -/
def Text.line (t : Text) : List UInt8 := t.toBytes ++ [10]

namespace Event

/-- The records that a log holds of what happened. -/
def records (es : List Event) : List (Channel × Level × Text) := (notices es).map Notice.record

/-- The line that an event prints. -/
@[simp] def line? : Event → Option Text
  | printed t => some t
  | _ => none

/-- The record that an event leaves. -/
@[simp] def record? : Event → Option (Channel × Level × Text)
  | noted n => some n.record
  | _ => none

@[simp] theorem lines_nil : lines [] = [] := rfl

@[simp] theorem records_nil : records [] = [] := rfl

@[simp] theorem lines_cons (e : Event) (es : List Event) :
    lines (e :: es) = e.line?.toList ++ lines es := by
  cases e <;> rfl

@[simp] theorem records_cons (e : Event) (es : List Event) :
    records (e :: es) = e.record?.toList ++ records es := by
  cases e <;> rfl

@[simp] theorem records_append (es fs : List Event) :
    records (es ++ fs) = records es ++ records fs := by
  simp [records]

@[simp] theorem lines_asked (qs : List Query) : lines (qs.map .asked) = [] := by
  simp [lines]

@[simp] theorem records_asked (qs : List Query) : records (qs.map .asked) = [] := by
  simp [records, notices]

@[simp] theorem lines_printed (ts : List Text) : lines (ts.map .printed) = ts := by
  induction ts with
  | nil => rfl
  | cons t ts ih => simp [ih]

@[simp] theorem records_printed (ts : List Text) : records (ts.map .printed) = [] := by
  simp [records, notices]

end Event

/-! ## Fates -/

/-- What becomes of an entry. -/
inductive Fate
  /-- the path could not be looked at or listed, for want of permission -/
  | denied (error : OsError)
  /-- the path could not be looked at or listed, for another reason -/
  | troubled (error : OsError)
  /-- it is no regular file with the chosen extension -/
  | passedOver
  /-- it is tested -/
  | tested (verdict : Except Fault TestResult)

namespace Fate

/-- The lines about an entry with the path `p`; `decode` gives the characters of captured
output. -/
def lines (decode : List UInt8 → List Char) (p : Path) : Fate → List Text
  | denied _ => []
  | troubled error => ["error on path: '" ++ p.text ++ "', error: '" ++ error.message ++ "'"]
  | passedOver => []
  | tested (.error _) => [p.text]
  | tested (.ok r) =>
    match r.failure with
    | none =>
      [p.text] ++ (if r.stdout = [] then [] else [Text.ofChars (decode r.stdout)]) ++
        (if r.stderr = [] then [] else ["stderr:\n'" ++ Text.ofChars (decode r.stderr) ++ "'"])
    | some failure =>
      [p.text, "failed with '" ++ failure ++ "' on '" ++ p.text ++ "'"] ++
        (if r.stdout = [] then [] else ["stdout:\n'" ++ Text.ofChars (decode r.stdout) ++ "'"]) ++
        (if r.stderr = [] then [] else ["stderr:\n'" ++ Text.ofChars (decode r.stderr) ++ "'"])

/-- The records about an entry with the path `p`. -/
def records (p : Path) : Fate → List (Channel × Level × Text)
  | denied error => [(.walk, .debug, "Skipping " ++ p.text ++ ": " ++ error.message)]
  | troubled _ | passedOver | tested _ => []

end Fate

namespace Settings

variable (settings : Settings)

/-- The fate of an entry; `verdict` is that on the next test. -/
def fate (verdict : Except Fault TestResult) (e : Entry) : Fate :=
  match e.error? with
  | some error => if error.isDenied then .denied error else .troubled error
  | none =>
    if e.path.hasExtension e.isRegular settings.extension then .tested verdict else .passedOver

/-- The entries with their fates; `verdicts` are those on the tests to come, in order. -/
def fates : (verdicts : Nat → Except Fault TestResult) → List Entry → List (Entry × Fate)
  | _, [] => []
  | verdicts, e :: es =>
    (e, settings.fate (verdicts 0) e) ::
      fates (if settings.chooses e then fun i => verdicts (i + 1) else verdicts) es

/-- All that is printed about entries. -/
def account (decode : List UInt8 → List Char) (verdicts : Nat → Except Fault TestResult)
    (es : List Entry) : List Text :=
  (settings.fates verdicts es).flatMap fun f => f.2.lines decode f.1.path

/-- All that the log has of entries. -/
def remarks (verdicts : Nat → Except Fault TestResult) (es : List Entry) :
    List (Channel × Level × Text) :=
  (settings.fates verdicts es).flatMap fun f => f.2.records f.1.path

variable {settings} {decode : List UInt8 → List Char}
variable {verdicts : Nat → Except Fault TestResult} {e : Entry} {es : List Entry}

theorem fate_of_chooses (h : settings.chooses e = true) (verdict : Except Fault TestResult) :
    settings.fate verdict e = .tested verdict := by
  simp only [chooses, Bool.and_eq_true, Option.isNone_iff_eq_none] at h
  simp [fate, h.1, h.2]

/-- Each entry is accounted for once. -/
theorem fates_fst (settings : Settings) (verdicts : Nat → Except Fault TestResult)
    (es : List Entry) : (settings.fates verdicts es).map Prod.fst = es := by
  induction es generalizing verdicts with
  | nil => rfl
  | cons e es ih => simp [fates, ih]

@[simp] theorem account_nil : settings.account decode verdicts [] = [] := rfl

@[simp] theorem remarks_nil : settings.remarks verdicts [] = [] := rfl

theorem account_cons_passedOver (h : settings.chooses e = false) :
    settings.account decode verdicts (e :: es) =
      (settings.fate (verdicts 0) e).lines decode e.path ++
        settings.account decode verdicts es := by
  simp [account, fates, h]

theorem account_cons_chosen (h : settings.chooses e = true) :
    settings.account decode verdicts (e :: es) =
      (Fate.tested (verdicts 0)).lines decode e.path ++
        settings.account decode (fun i => verdicts (i + 1)) es := by
  simp [account, fates, h, fate_of_chooses h]

theorem remarks_cons_passedOver (h : settings.chooses e = false) :
    settings.remarks verdicts (e :: es) =
      (settings.fate (verdicts 0) e).records e.path ++ settings.remarks verdicts es := by
  simp [remarks, fates, h]

theorem remarks_cons_chosen (h : settings.chooses e = true) :
    settings.remarks verdicts (e :: es) =
      settings.remarks (fun i => verdicts (i + 1)) es := by
  simp [remarks, fates, h, fate_of_chooses h, Fate.records]

end Settings

namespace Scan

section Accounts

variable {σ : Type} {settings : Settings} {root : Path}

/-- The outcomes that prepared attempts have, in order. -/
def outcomes (script : List (Attempt σ (Except Fault TestResult))) (i : Nat) :
    Except Fault TestResult :=
  (attemptAt .prepared script i).outcome

theorem outcomes_tail (script : List (Attempt σ (Except Fault TestResult))) :
    outcomes script.tail = fun i => outcomes script (i + 1) := by
  funext i
  simp [outcomes]

theorem testing_prepared (executable : Path) (s : Scan σ (Except Fault TestResult)) (p : Path) :
    testing .prepared executable s p = [.printed p.text, .called executable p] := rfl

/-- What is reported of an entry that is not tested is what its fate says. -/
theorem lines_remark {e : Entry} (h : settings.chooses e = false)
    (verdict : Except Fault TestResult) (decode : List UInt8 → List Char) :
    Event.lines (remark e) = (settings.fate verdict e).lines decode e.path := by
  cases he : e.error? with
  | some error =>
    by_cases hd : error.isDenied = true <;>
      simp [remark, Settings.fate, he, hd, Fate.lines, Report.trouble]
  | none =>
    have hext : e.path.hasExtension e.isRegular settings.extension = false := by
      simpa [Settings.chooses, he] using h
    simp [remark, Settings.fate, he, hext, Fate.lines]

theorem records_remark {e : Entry} (h : settings.chooses e = false)
    (verdict : Except Fault TestResult) :
    Event.records (remark e) = (settings.fate verdict e).records e.path := by
  cases he : e.error? with
  | some error =>
    by_cases hd : error.isDenied = true
    · simp [remark, Settings.fate, he, hd, Fate.records]
    · simp [remark, Settings.fate, he, hd, Fate.records]
  | none =>
    have hext : e.path.hasExtension e.isRegular settings.extension = false := by
      simpa [Settings.chooses, he] using h
    simp [remark, Settings.fate, he, hext, Fate.records]

theorem titledOutput_eq (title opening : String) (bytes : List UInt8)
    (h : Text.ofString title ++ Text.ofString ":\n'" = Text.ofString opening) :
    titledOutput title bytes =
      if bytes = [] then [] else [opening ++ Text.ofChars (Utf8.lossy bytes) ++ "'"] := by
  unfold titledOutput shownOutput
  rw [h]

/-- A test is reported as its fate says. -/
theorem lines_of_passed {p : Path} {r : TestResult} (h : r.failure = none) :
    [p.text] ++ Report.passed r = (Fate.tested (.ok r)).lines Utf8.lossy p := by
  have herr := titledOutput_eq "stderr" "stderr:\n'" r.stderr (by decide)
  simp [Fate.lines, Report.passed, shownOutput, herr, h]

theorem lines_of_failed {p : Path} {r : TestResult} {failure : Text}
    (h : r.failure = some failure) :
    [p.text] ++ Report.failed p failure r = (Fate.tested (.ok r)).lines Utf8.lossy p := by
  have hout := titledOutput_eq "stdout" "stdout:\n'" r.stdout (by decide)
  have herr := titledOutput_eq "stderr" "stderr:\n'" r.stderr (by decide)
  simp [Fate.lines, Report.failed, hout, herr, h]

variable [FileSystem σ]

/-- **What a scan prints is the account of its entries.** -/
theorem lines_course (settings : Settings) (root : Path) (budget : Nat)
    (s : Scan σ (Except Fault TestResult)) :
    let r := course .prepared settings root budget s
    Event.lines r.1 =
      settings.account Utf8.lossy (outcomes s.script) (Event.entries r.1) := by
  induction budget, s using @course_induction σ _ _ .prepared settings with
  | unfinished s => rfl
  | finished budget s qs h =>
    rw [course_ended (step_finished h)]
    simp
  | fault budget s qs f h =>
    rw [course_ended (step_fault h)]
    simp
  | passedOver budget s qs e w h hc ih =>
    rw [course_going (step_passedOver h hc)]
    simp [ih, Settings.account_cons_passedOver hc, lines_remark hc (outcomes s.script 0) Utf8.lossy]
  | broken budget s qs e w f h hc hv =>
    rw [course_ended (step_broken h hc hv)]
    have hfate : outcomes s.script 0 = .error f := hv
    simp [Settings.account_cons_chosen hc, testing_prepared, hfate, Fate.lines]
  | failed budget s qs e w result failure h hc hv hf =>
    rw [course_ended (step_failed h hc hv hf)]
    have hfate : outcomes s.script 0 = .ok result := hv
    have hlines := lines_of_failed (p := e.path) hf
    simp [Settings.account_cons_chosen hc, testing_prepared, hfate, ← hlines]
  | passed budget s qs e w result h hc hv hf ih =>
    rw [course_going (step_passed h hc hv hf)]
    have hfate : outcomes s.script 0 = .ok result := hv
    have hlines := lines_of_passed (p := e.path) hf
    have hlater : outcomes (s.afterTest .prepared w e.path).script =
        fun i => outcomes s.script (i + 1) := outcomes_tail s.script
    rw [hlater] at ih
    simp [Settings.account_cons_chosen hc, testing_prepared, hfate, ← hlines, ih]

/-- The records with which a scan ends. -/
def endRecords : ScanEnd → List (Channel × Level × Text)
  | .summary s =>
    match s.failed with
    | some p =>
      [(.walk, .info,
        "Stopped after " ++ Text.ofNat s.tested.length ++ " file(s): " ++ p.text ++ " failed")]
    | none =>
      [(.walk, .info,
        "Tested " ++ Text.ofNat s.tested.length ++ " file(s) under " ++ s.root.text)]
  | .fault _ | .unfinished => []

/-- **What the log has of a scan is the remarks on its entries**, and at the end what became
of the scan. -/
theorem records_course (settings : Settings) (root : Path) (budget : Nat)
    (s : Scan σ (Except Fault TestResult)) :
    let r := course .prepared settings root budget s
    Event.records r.1 =
      settings.remarks (outcomes s.script) (Event.entries r.1) ++ endRecords r.2 := by
  induction budget, s using @course_induction σ _ _ .prepared settings with
  | unfinished s => rfl
  | finished budget s qs h =>
    rw [course_ended (step_finished h)]
    simp [endRecords]
  | fault budget s qs f h =>
    rw [course_ended (step_fault h)]
    simp [endRecords]
  | passedOver budget s qs e w h hc ih =>
    rw [course_going (step_passedOver h hc)]
    simp [ih, Settings.remarks_cons_passedOver hc, records_remark hc (outcomes s.script 0)]
  | broken budget s qs e w f h hc hv =>
    rw [course_ended (step_broken h hc hv)]
    simp [Settings.remarks_cons_chosen hc, testing_prepared, endRecords]
  | failed budget s qs e w result failure h hc hv hf =>
    rw [course_ended (step_failed h hc hv hf)]
    simp [Settings.remarks_cons_chosen hc, testing_prepared, endRecords]
  | passed budget s qs e w result h hc hv hf ih =>
    rw [course_going (step_passed h hc hv hf)]
    have hlater : outcomes (s.afterTest .prepared w e.path).script =
        fun i => outcomes s.script (i + 1) := outcomes_tail s.script
    rw [hlater] at ih
    simp [Settings.remarks_cons_chosen hc, testing_prepared, ih]

section Runs

variable (settings : Settings) (root : Path) (budget : Nat) (fs : σ)
  (script : List (Attempt σ (Except Fault TestResult)))

theorem lines_run :
    let r := run .prepared settings root budget fs script
    ∃ decode, Utf8.IsDecoder decode ∧
      Event.lines r.1 = ("starting in '" ++ root.text ++ "'") ::
        settings.account decode (outcomes script) (Event.entries r.1) := by
  have hcourse := lines_course settings root budget (start fs root script)
  refine ⟨Utf8.lossy, Utf8.isDecoder_lossy, ?_⟩
  rw [run_eq_course]
  simp only [Event.lines_cons, Event.entries_cons, Event.line?, Event.entry?, Option.toList]
  exact congrArg (List.cons _) hcourse

theorem records_run :
    let r := run .prepared settings root budget fs script
    Event.records r.1 =
      settings.remarks (outcomes script) (Event.entries r.1) ++ endRecords r.2 := by
  have hcourse := records_course settings root budget (start fs root script)
  rw [run_eq_course]
  exact hcourse

/-- The calls of a scan are those on its entries that are chosen. -/
theorem calls_run :
    let r := run .prepared settings root budget fs script
    Event.calls r.1 =
      ((Event.entries r.1).filter settings.chooses).map fun e => (settings.executable, e.path) := by
  have hcalls := calls_course .prepared settings root (start fs root script) budget
  have hentries := entries_course .prepared settings root (start fs root script) budget
  rw [← hentries] at hcalls
  rw [run_eq_course]
  exact hcalls

/-- A sweep prints what its scan prints, and has records of its own before it and, if a test
has failed, after it. -/
theorem sweep_of_hasFile (h : FileSystem.hasFile fs settings.executable = true) :
    let r := run .prepared settings root budget fs script
    let r' := Sweep.run .prepared settings root budget fs script
    Event.stdout r'.1 = Event.stdout r.1 ∧
      Event.records r'.1 =
        (.sweep, .info, "Testing " ++ settings.extension ++ " files under " ++ root.text ++
          " with " ++ settings.executable.text) :: Event.records r.1 ++
        (match r.2 with
          | .summary s => s.failed.toList.map fun p =>
            (.sweep, .info, "Scan stopped at " ++ p.text ++ ", rerun to continue")
          | .fault _ | .unfinished => []) := by
  intro r r'
  have hr' : r' = (.noted (.sweeping settings.extension root settings.executable) :: r.1 ++
      (Sweep.conclude r.2).1, (Sweep.conclude r.2).2) := by
    simp [r', r, Sweep.run, h]
  rw [hr']
  cases r.2 with
  | fault f => simp [Sweep.conclude, Event.stdout]
  | unfinished => simp [Sweep.conclude, Event.stdout]
  | summary s =>
    cases hf : s.failed with
    | none => simp [Sweep.conclude, Event.stdout, hf]
    | some p => simp [Sweep.conclude, Event.stdout, hf]

end Runs

namespace Summarizes

variable {fs : σ} {script : List (Attempt σ (Except Fault TestResult))} {t : Walk.Trace σ}
  {events : List Event} {s : Summary}

omit [FileSystem σ] in
theorem tested_eq (h : Summarizes settings root script t events s) (es : List Entry)
    (hcalls : Event.calls events = es.map fun e => (settings.executable, e.path)) :
    s.tested = es.map Entry.path := by
  have hpaths := congrArg (List.map Prod.snd) (h.calls.symm.trans hcalls)
  simpa [Function.comp_def] using hpaths

omit [FileSystem σ] in
/-- A summary names a failed file exactly if one of the results is a failure. -/
theorem failed_iff (h : Summarizes settings root script t events s) :
    s.failed.isSome = true ↔ ∃ i < s.tested.length, passes script i = false := by
  cases hfailed : s.failed with
  | some p =>
    obtain ⟨hpos, hlast⟩ := h.last_failed hfailed
    have hlt : s.tested.length - 1 < s.tested.length := by omega
    exact iff_of_true rfl ⟨_, hlt, hlast⟩
  | none =>
    refine iff_of_false Bool.false_ne_true ?_
    rintro ⟨i, hi, hfails⟩
    exact false_of_passes (h.all_passed hfailed hi) hfails

end Summarizes

/-- **A report accounts for every entry, once.**  With prepared results, and without NULs, a
scan prints its heading and the account of its entries, in order, and nothing else; captured
output is decoded there, which can be done in one way only.  Its records are the remarks on the
entries and, unless the steps allowed are not enough, one more at the end.  That one says how many
files were tested, and names the last of them if its test has failed, which is so exactly if one
of the results is a failure.  A sweep adds a record at each end, the last one only after a
failure. -/
theorem run_accounts_for_entries (settings : Settings) (root : Path) (fs : σ)
    (script : List (Attempt σ (Except Fault TestResult))) (hroot : root.hasNul = false)
    (hnames : ∀ fs' ∈ stages fs script, FileSystem.NulFree fs')
    (hresults : ∀ a ∈ script, ∃ r, a.outcome = .ok r) (budget : Nat) :
    let r := run .prepared settings root budget fs script
    let es := Event.entries r.1
    let remarks := settings.remarks (outcomes script) es
    (settings.fates (outcomes script) es).map Prod.fst = es ∧
    (∃ decode, Utf8.IsDecoder decode ∧
      Event.stdout r.1 = Text.line ("starting in '" ++ root.text ++ "'") ++
        (settings.account decode (outcomes script) es).flatMap Text.line) ∧
    (r.2 = .unfinished ∧ es.length = budget ∧ Event.records r.1 = remarks ∨
      ∃ s, r.2 = .summary s ∧ s.tested = (es.filter settings.chooses).map Entry.path ∧
        Event.records r.1 = remarks ++ [(.walk, .info,
          match s.failed with
          | some p =>
            "Stopped after " ++ Text.ofNat s.tested.length ++ " file(s): " ++ p.text ++ " failed"
          | none => "Tested " ++ Text.ofNat s.tested.length ++ " file(s) under " ++ root.text)] ∧
        (s.failed.isSome = true ↔ ∃ i < s.tested.length, passes script i = false) ∧
        ∀ p, s.failed = some p → s.tested.getLast? = some p) ∧
    (FileSystem.hasFile fs settings.executable = true →
      let r' := Sweep.run .prepared settings root budget fs script
      Event.stdout r'.1 = Event.stdout r.1 ∧
        Event.records r'.1 =
          (.sweep, .info, "Testing " ++ settings.extension ++ " files under " ++ root.text ++
            " with " ++ settings.executable.text) :: Event.records r.1 ++
          (match r.2 with
            | .summary s => s.failed.toList.map fun p =>
              (.sweep, .info, "Scan stopped at " ++ p.text ++ ", rerun to continue")
            | .fault _ | .unfinished => [])) := by
  obtain ⟨decode, hdecode, hlines⟩ := lines_run settings root budget fs script
  have hrecords := records_run settings root budget fs script
  dsimp only at hrecords
  have hmet := met_subset_stages .prepared settings root budget (start fs root script)
  have hfree := Walk.rest_ne_fault_of_nulFree hroot fun fs' h => hnames fs' (hmet fs' h)
  have hends := run_summarizes hfree (outcome_ne_error hresults)
  refine ⟨settings.fates_fst _ _, ?_, ?_, sweep_of_hasFile settings root budget fs script⟩
  · refine ⟨decode, hdecode, ?_⟩
    show (Event.lines _).flatMap Text.line = _
    rw [hlines, List.flatMap_cons]
  · rcases hends with ⟨hun, hlength, -⟩ | ⟨s, hs, hsum⟩
    · rw [hun] at hrecords
      exact .inl ⟨hun, hlength, by simpa [endRecords] using hrecords⟩
    · have htested := hsum.tested_eq _ (calls_run settings root budget fs script)
      refine .inr ⟨s, hs, htested, ?_, hsum.failed_iff, fun p hp => ((hsum.failed p).mp hp).1⟩
      rw [hrecords, hs, ← hsum.root]
      cases hf : s.failed <;> simp [endRecords, hf]

end Accounts

/-! ### The account of a small scan -/

/-- Below the root: three files, one of another sort, a directory that may not be listed, and
a path that cannot be looked at. -/
def troubledDisk : Disk :=
  Disk.empty.set
    [("r", { kind := .dir, names := ["e.txt", "d.chm", "c", "b", "a.chm"] }),
      ("r/a.chm", { kind := .file }),
      ("r/b", { kind := .dir, listRefused := some ⟨13, "Permission denied"⟩ }),
      ("r/c", { kind := .file, lstatRefused := some ⟨5, "Input/output error"⟩ }),
      ("r/d.chm", { kind := .file }),
      ("r/e.txt", { kind := .file })]

theorem wellNamed_troubledDisk : troubledDisk.Holds Node.WellNamed :=
  (Disk.holds_empty _).set (by decide)

/-- A first test that prints something, with a character cut off in it, and a second one that
fails. -/
def printsAndFails : List (Attempt Disk (Except Fault TestResult)) :=
  [⟨id, .ok { stdout := [79, 0xE2, 0x82, 75] }⟩,
    ⟨id, .ok { stderr := [33], failure := some "no" }⟩]

/-- What is printed then, line by line. -/
def troubledReport : List String :=
  ["starting in 'r'", "r/a.chm", "O\uFFFDK",
    "error on path: 'r/c', error: '[Errno 5] Input/output error: 'r/c''", "r/d.chm",
    "failed with 'no' on 'r/d.chm'", "stderr:\n'!'"]

/-- What is remarked then. -/
def troubledRemarks : List (Channel × Level × Text) :=
  [(.walk, .debug, "Skipping r/b: [Errno 13] Permission denied: 'r/b'")]

section Evaluated

set_option maxRecDepth 8000

theorem run_troubledDisk :
    (run .prepared .default Disk.sampleRoot 9 troubledDisk printsAndFails).2 =
      .summary ⟨.ofText "r", [.ofText "r/a.chm", .ofText "r/d.chm"], some (.ofText "r/d.chm")⟩ := by
  cbv

theorem stdout_troubledDisk :
    Event.stdout (run .prepared .default Disk.sampleRoot 9 troubledDisk printsAndFails).1 =
      troubledReport.flatMap fun line => (line ++ "\n").toList.flatMap String.utf8EncodeChar := by
  cbv

theorem remarks_troubledDisk :
    let r := run .prepared .default Disk.sampleRoot 9 troubledDisk printsAndFails
    Settings.default.remarks (outcomes printsAndFails) (Event.entries r.1) = troubledRemarks := by
  cbv

end Evaluated

/-- One directory is denied, one path has other trouble, and the second file fails. -/
theorem sample_accounted :
    let r := run .prepared .default Disk.sampleRoot 9 troubledDisk printsAndFails
    let es := Event.entries r.1
    (∃ decode, Utf8.IsDecoder decode ∧
      Event.stdout r.1 = Text.line "starting in 'r'" ++
        (Settings.default.account decode (outcomes printsAndFails) es).flatMap Text.line) ∧
      (Event.stdout r.1 = troubledReport.flatMap fun line =>
        (line ++ "\n").toList.flatMap String.utf8EncodeChar) ∧
      Event.records r.1 = Settings.default.remarks (outcomes printsAndFails) es ++
        [(Channel.walk, Level.info, ("Stopped after 2 file(s): r/d.chm failed" : Text))] ∧
      Settings.default.remarks (outcomes printsAndFails) es = troubledRemarks := by
  intro r es
  have hwell : ∀ d ∈ stages troubledDisk printsAndFails, d.Holds Node.WellNamed :=
    forall_stages wellNamed_troubledDisk (by simp [printsAndFails])
  obtain ⟨-, hprinted, hends, -⟩ := run_accounts_for_entries .default Disk.sampleRoot
    troubledDisk printsAndFails (by decide) (fun d hd p names h => ((hwell d hd).names h).2)
    (by simp [printsAndFails]) 9
  refine ⟨hprinted, stdout_troubledDisk, ?_, remarks_troubledDisk⟩
  rcases hends with ⟨hun, -⟩ | ⟨s, hs, -, hrecords, -⟩
  · rw [run_troubledDisk] at hun
    cases hun
  · rw [run_troubledDisk] at hs
    cases hs
    have hwords : ("Stopped after " ++ Text.ofNat 2 ++ " file(s): " ++
        (Path.ofText "r/d.chm").text ++ " failed" : Text) =
          "Stopped after 2 file(s): r/d.chm failed" := by decide
    rw [← hwords]
    exact hrecords

end Scan

end FileSweep
