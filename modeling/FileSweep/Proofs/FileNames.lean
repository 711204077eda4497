import Mathlib
import FileSweep.Proofs.ByteText
import FileSweep.Proofs.Confinement
import FileSweep.Proofs.Doubles
import FileSweep.Proofs.ExitStatus
import FileSweep.Proofs.Places

/-!
# File names, byte for byte

The name of a file comes as bytes in a listing, is read as a text, is put below the path of its
directory, and leaves as bytes again: in the report, and as the argument of the executable.  On
this way no byte is changed, whether the bytes are those of characters or not.

Three facts make this up.  A path is written as the names that lead to it, with slashes between
them (`Path.bytes_descend_ofBytes`); to each path that a walk looks at it has been led by names
that it was told (`Walk.exists_way`); and a scan prints a path right before it calls the executable
on it (`Scan.callsAnnounced_course`).

Nothing that a sweep prints can fail to be printed, since every symbol of a text stands either for
a character or for a byte; so of the faults that a sweep can end with, none is one of printing
(`Scan.fault_of_process`).
-/

namespace FileSweep

/-! ## Paths in bytes -/

@[simp] theorem Symbol.toBytes_slash : toBytes (.char '/') = [47] := rfl

theorem Text.toBytes_join (ts : List Text) :
    (join [.char '/'] ts).toBytes = [47].intercalate (ts.map toBytes) := by
  induction ts with
  | nil => rfl
  | cons s ts ih =>
    cases ts with
    | nil => simp
    | cons t ts =>
      rw [join_cons_cons, toBytes_append, toBytes_append, ih]
      simp [List.intercalate]

namespace Path

/-- The bytes by which the system is asked for a path. -/
def bytes (p : Path) : List UInt8 := p.text.toBytes

/-- What stands in front of the names below a directory: nothing if that is `.`, and the directory
with a slash, but not with a second one. -/
def front (dir : List UInt8) : List UInt8 :=
  if dir = [46] then [] else if dir.getLast? = some 47 then dir else dir ++ [47]

/-- The names on the way down from a directory, with slashes between them. -/
def bytesBelow (dir : List UInt8) (names : List (List UInt8)) : List UInt8 :=
  if names = [] then dir else front dir ++ [47].intercalate names

theorem front_of_nil {p : Path} (h : p.parts = []) : front p.bytes = p.anchor.text.toBytes := by
  obtain ⟨anchor, parts, isPart⟩ := p
  obtain rfl : parts = [] := h
  cases anchor <;> rfl

/-- A path with parts ends in the last one of them. -/
theorem exists_text_eq_append {p : Path} (h : p.parts ≠ []) :
    ∃ before part, p.text = before ++ part ∧ part.IsPart := by
  obtain ⟨ps, part, hparts⟩ := (List.eq_nil_or_concat' p.parts).resolve_left h
  have hpart : part.IsPart := p.isPart part (by simp [hparts])
  rw [text_of_parts h, hparts]
  cases ps with
  | nil => exact ⟨p.anchor.text, part, by simp, hpart⟩
  | cons q ps =>
    rw [Text.join_append _ (List.cons_ne_nil q ps) (List.cons_ne_nil part []),
      Text.join_singleton, ← List.append_assoc]
    exact ⟨_, part, rfl, hpart⟩

theorem bytes_ne_dot {p : Path} (h : p.parts ≠ []) : p.bytes ≠ [46] := by
  intro hbytes
  have htext : p.text = text ⟨.relative, [], nofun⟩ :=
    Text.eq_of_toBytes_eq_singleton (by decide) hbytes
  rw [text_inj.mp htext] at h
  exact h rfl

/-- No part ends in a slash. -/
theorem getLast?_bytes_ne_slash {p : Path} (h : p.parts ≠ []) : p.bytes.getLast? ≠ some 47 := by
  obtain ⟨before, part, htext, hne, -, hslash⟩ := exists_text_eq_append h
  have hpart : part.toBytes ≠ [] := fun hnil => hne (Text.toBytes_eq_nil_iff.mp hnil)
  rw [bytes, htext, Text.toBytes_append, List.getLast?_append_of_ne_nil _ hpart]
  intro hlast
  exact hslash (Text.mem_of_mem_toBytes (by decide) (List.mem_of_getLast? hlast))

theorem front_of_parts {p : Path} (h : p.parts ≠ []) : front p.bytes = p.bytes ++ [47] := by
  rw [front, if_neg (bytes_ne_dot h), if_neg (getLast?_bytes_ne_slash h)]

/-- **Joining names to a root, in bytes.** -/
theorem bytes_descend (root : Path) {c : List Text} (hc : ∀ n ∈ c, n.IsPart) :
    (root.descend c).bytes = bytesBelow root.bytes (c.map Text.toBytes) := by
  unfold bytesBelow
  split
  next hnil =>
    rw [List.map_eq_nil_iff.mp hnil]
    rfl
  next hne =>
    rw [List.map_eq_nil_iff] at hne
    obtain ⟨hanchor, hparts⟩ := descend_parts root hc
    have hdescend : (root.descend c).parts ≠ [] := by simp [hparts, hne]
    rw [bytes, text_of_parts hdescend, hanchor, hparts, Text.toBytes_append, ← Text.toBytes_join]
    by_cases hroot : root.parts = []
    · rw [front_of_nil hroot, hroot, List.nil_append]
    · rw [front_of_parts hroot, bytes, text_of_parts hroot, Text.join_append _ hroot hne]
      simp

/-- Whether a name leads away from the directory that has it. -/
def leads (name : List UInt8) : Bool := name ≠ [] && name ≠ [46]

variable {b : List UInt8}

/-- A name without a slash is a part of a path, if it leads anywhere. -/
theorem isPart_ofBytes (hslash : 47 ∉ b) (h : leads b = true) : (Text.ofBytes b).IsPart := by
  simp only [leads, Bool.and_eq_true, decide_eq_true_eq] at h
  refine ⟨fun hnil => h.1 ?_, fun hdot => h.2 ?_, fun hmem => hslash ?_⟩
  · rw [← Text.toBytes_ofBytes b, hnil, Text.toBytes_nil]
  · rw [← Text.toBytes_ofBytes b, hdot]
    rfl
  · rw [← Text.toBytes_ofBytes b]
    exact List.mem_flatMap.mpr ⟨_, hmem, by simp⟩

/-- Any other name stands for the directory itself. -/
theorem child_ofBytes (p : Path) (h : leads b = false) : p.child (Text.ofBytes b) = p := by
  have hname : b = [] ∨ b = [46] := by
    simpa [leads, or_iff_not_imp_left] using h
  rcases hname with rfl | rfl
  · exact Path.ext rfl (List.append_nil _)
  · exact Path.ext rfl (List.append_nil _)

theorem descend_filter_leads (root : Path) (c : List (List UInt8)) :
    root.descend ((c.filter leads).map Text.ofBytes) = root.descend (c.map Text.ofBytes) := by
  induction c using List.reverseRecOn with
  | nil => rfl
  | append_singleton c b ih =>
    rw [List.map_append, List.map_singleton, descend_concat, ← ih, List.filter_append]
    cases hb : leads b with
    | true => simp [hb]
    | false => simp [hb, child_ofBytes _ hb]

/-- **Below a root a path is written as the names that lead there are.** -/
theorem bytes_descend_ofBytes (root : Path) {c : List (List UInt8)} (hc : ∀ b ∈ c, 47 ∉ b) :
    (root.descend (c.map Text.ofBytes)).bytes = bytesBelow root.bytes (c.filter leads) := by
  have hparts : ∀ n ∈ (c.filter leads).map Text.ofBytes, n.IsPart := by
    intro n hn
    obtain ⟨b, hb, rfl⟩ := List.mem_map.mp hn
    obtain ⟨hmem, hleads⟩ := List.mem_filter.mp hb
    exact isPart_ofBytes (hc b hmem) hleads
  rw [← descend_filter_leads, bytes_descend root hparts, List.map_map]
  simp [Function.comp_def, Text.toBytes_ofBytes]

end Path

/-! ## The names on the way to a path -/

/-- Whether all names in listings are read from bytes without a slash. -/
def FileSystem.NamesBytes {σ : Type} [FileSystem σ] (fs : σ) : Prop :=
  ∀ p names, FileSystem.list fs p = .ok names → ∀ n ∈ names, ∃ b, 47 ∉ b ∧ n = Text.ofBytes b

namespace Walk

variable {σ : Type} [FileSystem σ] {root p : Path} {c : List (List UInt8)}
  {lists lists' : Path → List Text → Prop}

/-- The ways down from a root, by names that the directories list. -/
inductive Way (lists : Path → List Text → Prop) (root : Path) : List (List UInt8) → Path → Prop
  | here : Way lists root [] root
  | down {c : List (List UInt8)} {p : Path} {names : List Text} {b : List UInt8}
    (h : Way lists root c p) (hlist : lists p names) (hb : Text.ofBytes b ∈ names) :
    Way lists root (c ++ [b]) (p.child (Text.ofBytes b))

theorem Way.eq_descend (h : Way lists root c p) : p = root.descend (c.map Text.ofBytes) := by
  induction h with
  | here => rfl
  | down _ _ _ ih => rw [List.map_append, List.map_singleton, Path.descend_concat, ← ih]

theorem Way.mono (hlists : ∀ p names, lists p names → lists' p names) (h : Way lists root c p) :
    Way lists' root c p := by
  induction h with
  | here => exact .here
  | down _ hlist hb ih => exact .down ih (hlists _ _ hlist) hb

/-- Whether a question so far was answered with these names. -/
def ListedIn (past : List (σ × Query)) (p : Path) (names : List Text) : Prop :=
  ∃ fs, (fs, .list p) ∈ past ∧ FileSystem.list fs p = .ok names

/-- **A walk is led to each path by names that it was told before.** -/
theorem exists_way {fss : List σ} (hnames : ∀ fs ∈ fss, FileSystem.NamesBytes fs)
    {past later : List (σ × Query)} {fs : σ}
    (h : (along fss (start root)).asked = past ++ (fs, .lstat p) :: later) :
    ∃ c, (∀ b ∈ c, 47 ∉ b) ∧ Way (ListedIn past) root c p := by
  have hjustified := allJustified_along root [] fss (start root) (by simp [start]) (by simp [start])
  -- the directory above was looked at earlier, so a way leads there
  induction hlength : past.length using Nat.strongRecOn generalizing past later fs p with
  | ind length ih =>
    rcases hjustified past fs (.lstat p) later h with
      rfl | ⟨fs₁, fs₂, q, names, n, hlooked, -, hlisted, hlist, hn, rfl⟩
    · exact ⟨[], by simp, .here⟩
    · obtain ⟨past₁, past₂, rfl⟩ := List.append_of_mem hlooked
      have hearlier : (along fss (start root)).asked =
          past₁ ++ (fs₁, .lstat q) :: (past₂ ++ (fs, .lstat (q.child n)) :: later) := by
        simpa using h
      obtain ⟨c, hc, hway⟩ := ih past₁.length (by simp [← hlength]) hearlier rfl
      have hasked : (fs₂, .list q) ∈ (along fss (start root)).asked := by
        rw [h]
        exact List.mem_append_left _ hlisted
      obtain ⟨b, hslash, rfl⟩ := hnames fs₂ (mem_of_asked hasked) q names hlist n hn
      have hway' : Way (ListedIn (past₁ ++ (fs₁, .lstat q) :: past₂)) root c q := by
        refine hway.mono ?_
        rintro q' names' ⟨fs', hmem, hlist'⟩
        exact ⟨fs', List.mem_append_left _ hmem, hlist'⟩
      refine ⟨c ++ [b], ?_, hway'.down ⟨fs₂, hlisted, hlist⟩ hn⟩
      simpa [or_imp, forall_and] using ⟨hc, hslash⟩

end Walk

/-! ## What is printed before a call -/

theorem Event.mem_of_mem_calls {es : List Event} {x p : Path} (h : (x, p) ∈ calls es) :
    .called x p ∈ es := by
  obtain ⟨e, he, hcall⟩ := List.mem_filterMap.mp h
  cases e <;> cases hcall
  exact he

namespace Scan

variable {σ α : Type} {tester : Tester α} {settings : Settings} {root : Path} {es es' : List Event}

/-- Whether right before each call the path is printed and the call is announced. -/
def CallsAnnounced (tester : Tester α) (es : List Event) : Prop :=
  ∀ before x p after, es = before ++ .called x p :: after →
    ∃ earlier, before = earlier ++ .printed p.text :: (tester.announce x p).map .noted

theorem callsAnnounced_of_calls (h : Event.calls es = []) : CallsAnnounced tester es := by
  rintro before x p after rfl
  simp at h

theorem CallsAnnounced.append (h : CallsAnnounced tester es) (h' : CallsAnnounced tester es') :
    CallsAnnounced tester (es ++ es') := by
  intro before x p after heq
  rcases parted_append heq with ⟨between, rfl, heq'⟩ | ⟨between, heq', -⟩
  · obtain ⟨earlier, rfl⟩ := h' between x p after heq'
    exact ⟨es ++ earlier, by simp⟩
  · exact h before x p between heq'

theorem callsAnnounced_testing (tester : Tester α) (executable : Path) (s : Scan σ α)
    (p : Path) :
    CallsAnnounced tester (testing tester executable s p) := by
  intro before x p' after heq
  have hparts : testing tester executable s p =
      (.printed p.text :: (tester.announce executable p).map .noted) ++
        .called executable p ::
          (tester.reply executable p (attemptAt tester s.script 0).outcome).notices.map .noted := by
    simp [testing, Tester.perform]
  rw [hparts] at heq
  obtain ⟨rfl, rfl, rfl⟩ := parted_at_call heq (by simp) (by simp)
  exact ⟨[], rfl⟩

/-- What else happens in a step calls nothing. -/
theorem callsAnnounced_chosen (executable : Path) (s : Scan σ α) (qs : List Query) (e : Entry)
    {more : List Event} (hmore : Event.calls more = []) :
    CallsAnnounced tester
      (qs.map .asked ++ .reached e :: (testing tester executable s e.path ++ more)) := by
  have hfront : CallsAnnounced tester (qs.map .asked ++ [.reached e]) :=
    callsAnnounced_of_calls (by simp)
  have htest := (callsAnnounced_testing tester executable s e.path).append
    (callsAnnounced_of_calls hmore)
  simpa using hfront.append htest

/-- **A scan prints each path right before it calls the executable on it.** -/
theorem callsAnnounced_course [FileSystem σ] (tester : Tester α) (settings : Settings)
    (root : Path) (budget : Nat) (s : Scan σ α) :
    CallsAnnounced tester (course tester settings root budget s).1 := by
  induction budget, s using @course_induction σ α _ tester settings with
  | unfinished s => exact callsAnnounced_of_calls rfl
  | finished budget s qs h =>
    rw [course_ended (step_finished h)]
    exact callsAnnounced_of_calls (by simp)
  | fault budget s qs f h =>
    rw [course_ended (step_fault h)]
    exact callsAnnounced_of_calls (by simp)
  | passedOver budget s qs e w h hc ih =>
    rw [course_going (step_passedOver h hc)]
    exact (callsAnnounced_of_calls (by simp)).append ih
  | broken budget s qs e w f h hc hv =>
    rw [course_ended (step_broken h hc hv), ← List.append_nil (testing _ _ _ _)]
    exact callsAnnounced_chosen _ s qs e rfl
  | failed budget s qs e w result failure h hc hv hf =>
    rw [course_ended (step_failed h hc hv hf), List.append_assoc (testing _ _ _ _)]
    exact callsAnnounced_chosen _ s qs e (by simp)
  | passed budget s qs e w result h hc hv hf ih =>
    rw [course_going (step_passed h hc hv hf)]
    exact (callsAnnounced_chosen _ s qs e (by simp)).append ih

end Scan

/-! ## Where faults come from -/

theorem ReturnCode.failure?_error {code : Option Int} {f : Fault}
    (h : ReturnCode.failure? code = .error f) : f = .signalOutOfRange := by
  unfold failure? at h
  split at h
  · cases h
  · split at h
    · cases h
    · split at h
      · unfold Signal.describe at h
        split at h
        · cases h
        · exact (Except.error.inj h).symm
      · cases h

/-- A launch amounts to a fault only if it broke off with it, or over a signal number. -/
theorem Launch.double_error {l : Launch} {executable : Path} {f : Fault}
    (h : l.double executable = .error f) : f = .signalOutOfRange ∨ l = .broken f := by
  cases l with
  | exited stdout stderr code =>
    change (ReturnCode.failure? code).map _ = _ at h
    cases hcode : ReturnCode.failure? code with
    | error f' =>
      rw [hcode] at h
      exact .inl ((Except.error.inj h).symm.trans (ReturnCode.failure?_error hcode))
    | ok failure =>
      rw [hcode] at h
      cases h
  | refused reason named => cases h
  | broken f' =>
    cases f' <;> cases h
    all_goals exact .inr rfl

/-- An attempt that breaks off is one of the script. -/
theorem Scan.attemptAt_mem_of_broken {σ : Type} {script : List (Attempt σ Launch)} {i : Nat}
    {f : Fault} (h : (attemptAt .process script i).outcome = .broken f) :
    attemptAt .process script i ∈ script := by
  unfold attemptAt at h ⊢
  rw [List.getD_eq_getElem?_getD] at h ⊢
  cases hi : script[i]? with
  | none =>
    rw [hi] at h
    cases h
  | some a => exact List.mem_of_getElem? hi

/-- **A sweep of processes breaks off** over a path with a NUL, over a signal number, or with what
one of its launches broke off with; but over nothing that it prints. -/
theorem Scan.fault_of_process {σ : Type} [FileSystem σ] {settings : Settings} {root : Path}
    {budget : Nat} {fs : σ} {script : List (Attempt σ Launch)} {f : Fault}
    (h : (run .process settings root budget fs script).2 = .fault f) :
    f = .nulInPath ∨ f = .signalOutOfRange ∨ ∃ a ∈ script, a.outcome = .broken f := by
  have hending := course_ending .process settings root budget (start fs root script)
  rw [run_eq_course] at h
  dsimp only at h hending
  rw [h] at hending
  generalize (Event.calls _).map Prod.snd = ps at hending
  cases hending with
  | stuck _ hrest => exact .inl (Walk.rest_fault hrest).1
  | broken _ hv =>
    have hverdict := (Launch.verdict_reply settings.executable _).symm.trans hv
    rcases Launch.double_error hverdict with hf | hbroken
    · exact .inr (.inl hf)
    · exact .inr (.inr ⟨_, attemptAt_mem_of_broken hbroken, hbroken⟩)

namespace Command

variable {σ : Type} [FileSystem σ] {budget : Nat} {argv : List Text} {fs : σ}
  {script : List (Attempt σ Launch)}

theorem calls_refuse (e : UsageError) : Event.calls (refuse e).events = [] := by
  unfold refuse
  dsimp only
  split <;> simp

theorem calls_conclude (r : ScanEnd) : Event.calls (Sweep.conclude r).1 = [] := by
  cases r with
  | summary s => cases hs : s.failed <;> simp [Sweep.conclude, hs]
  | fault f => rfl
  | unfinished => rfl

/-- Behind the checks there are the events of the scan, with lines and notices around them. -/
theorem events_of_ready {a : Arguments} {settings : Settings} (hread : Arguments.read argv = .ok a)
    (hs : Settings.ofOffers a.offers = .ok settings)
    (hx : FileSystem.hasFile fs settings.executable = true) :
    (run .process budget argv fs script).events =
      [.noted (.sweeping settings.extension a.directory settings.executable),
          .printed (Report.heading a.directory)] ++
        ((Scan.course .process settings a.directory budget (Scan.start fs a.directory script)).1 ++
          (Sweep.conclude (Scan.run .process settings a.directory budget fs script).2).1) := by
  simp [run, hread, hs, Sweep.run, hx, Scan.run_eq_course]

/-- A call of the command is one of the scan. -/
theorem exists_course_of_call {before after : List Event} {x p : Path}
    (h : (run .process budget argv fs script).events = before ++ .called x p :: after) :
    ∃ a settings, Arguments.read argv = .ok a ∧ Settings.ofOffers a.offers = .ok settings ∧
      ∃ front before' after', before = front ++ before' ∧
        (Scan.course .process settings a.directory budget (Scan.start fs a.directory script)).1 =
          before' ++ .called x p :: after' := by
  have hcalls : Event.calls (run .process budget argv fs script).events ≠ [] := by simp [h]
  cases hread : Arguments.read argv with
  | error stop =>
    cases stop with
    | help => exact absurd (by simp [run, hread, help]) hcalls
    | usage e =>
      rw [run_of_usage hread] at hcalls
      exact absurd (calls_refuse e) hcalls
  | ok a =>
    cases hs : Settings.ofOffers a.offers with
    | error errors =>
      rw [run_of_settings hread hs] at hcalls
      exact absurd (calls_refuse _) hcalls
    | ok settings =>
      cases hx : FileSystem.hasFile fs settings.executable with
      | false =>
        rw [(run_of_missing .process script budget hread hs hx).1] at hcalls
        exact absurd rfl hcalls
      | true =>
        refine ⟨a, settings, rfl, hs, ?_⟩
        rw [events_of_ready hread hs hx] at h
        -- the call is neither in front of the scan nor behind it
        rcases Scan.parted_append h with ⟨before', rfl, h'⟩ | ⟨between, hfront, -⟩
        · rcases Scan.parted_append h' with ⟨between, -, hmore⟩ | ⟨after', hcourse, -⟩
          · have hnone := calls_conclude
              (Scan.run .process settings a.directory budget fs script).2
            simp [hmore] at hnone
          · exact ⟨_, before', after', rfl, hcourse⟩
        · have hnone := congrArg Event.calls hfront
          simp at hnone

/-- If the arguments and the settings are accepted, the command does not break off over a text that
could not be printed, but for a launch that did. -/
theorem exists_attempt_of_unencodable {a : Arguments} {settings : Settings} {position : Nat}
    {low : Fin 128} {more : List (Fin 128)} (hread : Arguments.read argv = .ok a)
    (hs : Settings.ofOffers a.offers = .ok settings)
    (h : (run .process budget argv fs script).ending =
      .fault (.unencodable position low more)) :
    ∃ attempt ∈ script, attempt.outcome = .broken (.unencodable position low more) := by
  cases hx : FileSystem.hasFile fs settings.executable with
  | false =>
    have hstatus := (run_of_missing .process script budget hread hs hx).2
    cases hstatus.symm.trans h
  | true =>
    rcases ending_of_ready .process script budget hread hs hx with
      ⟨s, -, hend⟩ | ⟨f, hscan, hend⟩ | ⟨-, hend⟩
    · cases hend.symm.trans h
    · obtain rfl := ProgramEnd.fault.inj (hend.symm.trans h)
      rcases Scan.fault_of_process hscan with hf | hf | hattempt
      · cases hf
      · cases hf
      · exact hattempt
    · cases hend.symm.trans h

/-- **File names survive, byte for byte.**  Let all names that directories list be read from bytes
without a slash, whatever else these bytes are.  Then each call is for a path to which such names
lead from the root, each of them listed before by the directory above it.  Right before the call
the path is printed, as the bytes of the root and the original bytes of the names on the way, with
slashes between them and a line break at the end; and the same bytes are handed to the executable.
(Empty names and `.`, which stand for the directory itself, add nothing.)

If the arguments and the settings are accepted, then each line can be printed as the bytes that it
is written as, and the command does not break off over what it prints. -/
theorem names_survive (budget : Nat) (argv : List Text) (fs : σ) (script : List (Attempt σ Launch))
    (hnames : ∀ fs' ∈ Scan.stages fs script, FileSystem.NamesBytes fs') :
    let t := run .process budget argv fs script
    (∀ before x p after, t.events = before ++ .called x p :: after →
      ∃ a c earlier, Arguments.read argv = .ok a ∧
        Walk.Way (fun q names => .list q ∈ Event.queries before ∧
          ∃ fs' ∈ Scan.stages fs script, FileSystem.list fs' q = .ok names) a.directory c p ∧
        let bytes := Path.bytesBelow a.directory.bytes (c.filter Path.leads)
        before = earlier ++ [.printed p.text, .noted (.starting x p)] ∧
          Event.stdout before = Event.stdout earlier ++ (bytes ++ [10]) ∧ p.bytes = bytes) ∧
    ∀ a settings, Arguments.read argv = .ok a → Settings.ofOffers a.offers = .ok settings →
      (∀ line ∈ Event.lines t.events,
        Utf8.printed? (line.map Symbol.code) = some line.toBytes) ∧
      ∀ position low more, t.ending = .fault (.unencodable position low more) →
        ∃ attempt ∈ script, attempt.outcome = .broken (.unencodable position low more) := by
  intro t
  refine ⟨?_, ?_⟩
  · intro before x p after h
    obtain ⟨a, settings, hread, -, front, before', after', rfl, hcourse⟩ := exists_course_of_call h
    obtain ⟨-, past, fs', later, hasked, hqueries, -⟩ :=
      Scan.callsFiles_course _ _ _ _ _ before' x p after' hcourse
    obtain ⟨earlier, rfl⟩ := Scan.callsAnnounced_course _ _ _ _ _ before' x p after' hcourse
    have hmet := Scan.met_subset_stages .process settings a.directory budget
      (Scan.start fs a.directory script)
    obtain ⟨c, hc, hway⟩ := Walk.exists_way (fun fs' hfs' => hnames fs' (hmet fs' hfs')) hasked
    have hbytes := (congrArg Path.bytes hway.eq_descend).trans
      (a.directory.bytes_descend_ofBytes hc)
    refine ⟨a, c, front ++ earlier, hread, hway.mono ?_, by simp [Tester.process], ?_, hbytes⟩
    · rintro q names ⟨fs₁, hlisted, hlist⟩
      have hquery : Query.list q ∈ past.map Prod.snd := List.mem_map.mpr ⟨_, hlisted, rfl⟩
      have hasked' := hasked ▸ List.mem_append_left _ hlisted
      refine ⟨?_, fs₁, hmet fs₁ (Walk.mem_of_asked hasked'), hlist⟩
      rw [Event.queries_append, hqueries]
      exact List.mem_append_right _ (List.mem_append_left _ hquery)
    · rw [← hbytes]
      simp [Event.stdout, Event.lines, Path.bytes]
  · intro a settings hread hs
    exact ⟨fun line _ => Utf8.printed?_codes line, fun position low more hfault =>
      exists_attempt_of_unencodable hread hs hfault⟩

end Command

/-! ### A name that is cut off -/

/-- Whether all names in a node are read from bytes without a slash. -/
def Node.NamesBytes (n : Node) : Prop := ∀ name ∈ n.names, ∃ b, 47 ∉ b ∧ name = Text.ofBytes b

theorem Disk.Holds.namesBytes {d : Disk} (h : d.Holds Node.NamesBytes) :
    FileSystem.NamesBytes d := by
  intro p names hlist
  obtain ⟨node, hnode, rfl⟩ := Disk.exists_node_of_list hlist
  exact h _ node hnode

namespace Command

/-- The first byte of a character of two, cut off before the extension. -/
def cutName : List UInt8 := [0xC3, 0x2E, 0x63, 0x68, 0x6D]

/-- A directory with an executable and with a file of that name. -/
def cutDisk : Disk :=
  Disk.empty.set
    [(".", { kind := .dir, names := [Text.ofBytes cutName, "t"] }),
      ("t", { kind := .file }),
      (Text.ofBytes cutName, { kind := .file })]

theorem namesBytes_cutDisk : cutDisk.Holds Node.NamesBytes := by
  refine (Disk.holds_empty _).set (List.forall_mem_cons.mpr ⟨?_, by simp [Node.NamesBytes]⟩)
  intro name hname
  rcases List.mem_pair.mp hname with rfl | rfl
  · exact ⟨cutName, by decide, rfl⟩
  · exact ⟨[116], by decide, by decide⟩

set_option maxRecDepth 8000 in
theorem calls_cutDisk :
    Event.calls (run .process 4 [".", "--test-exe", "t"] cutDisk []).events =
      [(.ofText "t", .ofText (.ofBytes cutName))] := by
  cbv

/-- The name is printed and handed over as the bytes that it has. -/
theorem cutDisk_names_survive :
    ∃ before p after, (run .process 4 [".", "--test-exe", "t"] cutDisk []).events =
        before ++ .called (.ofText "t") p :: after ∧
      p.bytes = cutName ∧ ∃ earlier, Event.stdout before = earlier ++ (cutName ++ [10]) := by
  have hstages : ∀ d ∈ Scan.stages cutDisk ([] : List (Attempt Disk Launch)),
      FileSystem.NamesBytes d := by
    simpa [Scan.stages] using namesBytes_cutDisk.namesBytes
  have hcalled : Event.called (.ofText "t") (.ofText (.ofBytes cutName)) ∈
      (run .process 4 [".", "--test-exe", "t"] cutDisk []).events :=
    Event.mem_of_mem_calls (calls_cutDisk ▸ List.mem_singleton_self _)
  obtain ⟨before, after, hevents⟩ := List.append_of_mem hcalled
  obtain ⟨hcalls, -⟩ := names_survive 4 [".", "--test-exe", "t"] cutDisk [] hstages
  obtain ⟨a, c, earlier, -, -, -, hstdout, hbytes⟩ := hcalls before _ _ after hevents
  have hname : (Path.ofText (.ofBytes cutName)).bytes = cutName := by decide
  refine ⟨before, _, after, hevents, hname, Event.stdout earlier, ?_⟩
  rw [hstdout, ← hbytes, hname]

end Command

end FileSweep
