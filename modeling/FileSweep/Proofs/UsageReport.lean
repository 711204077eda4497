import FileSweep.Proofs.ExitStatus
import FileSweep.Proofs.Strays

/-!
# How usage errors are reported

A refused command line is reported by the usage lines and one message, and ends with status 1,
if the message can be printed.  Most messages can, whatever bytes the arguments hold.  But some
hold arguments as they are (`UsageError.raw`), and at that time the output takes characters only.
If one of these arguments holds a stray byte, then the usage lines are all that is printed, and
the command breaks off.

What is shown of an offered value is quoted, and what a message holds as it is, is an argument
indeed: this is followed from the tokens (`Token.Within`) through the draft
(`Arguments.Draft.Sound`) to what is read in the end (`Arguments.reported_read`).
-/

namespace FileSweep

/-! ## Settings -/

namespace Settings

/-- Whether an offer is named and shown without stray bytes. -/
def IsPlainOffer (offer : Text × Value) : Prop :=
  offer.1.hasStray = false ∧ offer.2.shown.hasStray = false

theorem isPlain_executableFrom {offered : Option Value} {e : SettingsError}
    (hoffered : ∀ v, offered = some v → v.shown.hasStray = false)
    (h : executableFrom offered = .error e) : e.IsPlain := by
  unfold executableFrom at h
  split at h
  · cases h
  · cases h
  · cases h
    exact ⟨Text.hasStray_ofString _, hoffered _ rfl⟩

theorem isPlain_extensionFrom {offered : Option Value} {e : SettingsError}
    (hoffered : ∀ v, offered = some v → v.shown.hasStray = false)
    (h : extensionFrom offered = .error e) : e.IsPlain := by
  unfold extensionFrom at h
  split at h
  · cases h
  · split at h
    · cases h
    · cases h
      exact ⟨Text.hasStray_ofString _, hoffered _ rfl⟩
  · cases h
    exact ⟨Text.hasStray_ofString _, hoffered _ rfl⟩

theorem isPlain_of_errorOf {α : Type} {r : Except SettingsError α}
    (h : ∀ e, r = .error e → e.IsPlain) : ∀ e ∈ ofOffers.errorOf r, e.IsPlain := by
  intro e he
  cases r with
  | ok a => cases he
  | error e' => exact h e (by rw [List.mem_singleton.mp he])

/-- What is objected to in plain offers is put into words without stray bytes. -/
theorem isPlain_of_ofOffers {offers : List (Text × Value)} {errors : List SettingsError}
    (hoffers : ∀ offer ∈ offers, IsPlainOffer offer) (h : ofOffers offers = .error errors) :
    ∀ e ∈ errors, e.IsPlain := by
  have hlookup : ∀ name v, offers.lookup name = some v → v.shown.hasStray = false := by
    intro name v hv
    obtain ⟨before, after, rfl, -⟩ := List.lookup_eq_some_iff.mp hv
    exact (hoffers (name, v) (by simp)).2
  have hexecutable := isPlain_of_errorOf fun e => isPlain_executableFrom (e := e)
    (hlookup executableName)
  have hextension := isPlain_of_errorOf fun e => isPlain_extensionFrom (e := e)
    (hlookup extensionName)
  have hunknown : ∀ e ∈ unknownNames offers, e.IsPlain := by
    intro e he
    obtain ⟨⟨name, v⟩, hmem, rfl⟩ := List.mem_map.mp he
    exact hoffers (name, v) (List.mem_filter.mp hmem).1
  unfold ofOffers at h
  split at h
  · cases h
  · cases h
    intro e he
    rcases List.mem_append.mp he with he | he
    · rcases List.mem_append.mp he with he | he
      · exact hexecutable e he
      · exact hextension e he
    · exact hunknown e he

end Settings

/-! ## Tokens -/

namespace Token

/-- Whether a classified argument, or its refusal, holds no whole text but that of the
argument. -/
def Keeps (t : Text) : Except UsageError Token → Prop
  | .ok (.plain s) => s = t
  | .ok (.unknown s) => s = t
  | .ok (.switch ..) => True
  | .ok (.shortHelp _) => True
  | .error e => ∃ choices, e = .ambiguous t choices

theorem keeps_leftover (t : Text) : Keeps t (.ok (leftover t)) := by
  unfold leftover
  split <;> rfl

theorem keeps_abbreviation (t : Text) : Keeps t (abbreviation t) := by
  unfold abbreviation
  dsimp only
  split
  · exact keeps_leftover t
  · exact trivial
  · exact ⟨_, rfl⟩

theorem keeps_dashed (t : Text) : Keeps t (dashed t) := by
  unfold dashed
  split
  · rename_i token htoken
    obtain ⟨⟨stem, value⟩, -, hstem⟩ := Option.bind_eq_some_iff.mp htoken
    dsimp only at hstem
    split at hstem
    · cases hstem
      exact trivial
    · obtain ⟨s, -, rfl⟩ := Option.map_eq_some_iff.mp hstem
      exact trivial
  · split
    · exact keeps_abbreviation t
    · split
      · exact trivial
      · exact keeps_leftover t

theorem keeps_classify (t : Text) : Keeps t (classify t) := by
  unfold classify
  split
  · rfl
  · split
    · exact trivial
    · split
      · exact trivial
      · exact keeps_dashed t

/-- What is classified as a whole text, or lies behind the mark, is an argument. -/
structure Within (argv : List Text) (tokens : List Token) (rest : Option (List Text)) : Prop where
  plain : ∀ t, .plain t ∈ tokens → t ∈ argv
  unknown : ∀ t, .unknown t ∈ tokens → t ∈ argv
  behind : ∀ ts, rest = some ts → mark ∈ argv ∧ ∀ t ∈ ts, t ∈ argv

namespace Within

variable {argv : List Text} {tokens : List Token} {rest : Option (List Text)} {t : Text}

theorem of_mark (more : List Text) : Within (mark :: more) [] (some more) where
  plain := by simp
  unknown := by simp
  behind ts hts := by
    cases hts
    exact ⟨List.mem_cons_self, fun t ht => List.mem_cons_of_mem mark ht⟩

theorem cons {token : Token} (ht : Keeps t (.ok token)) (h : Within argv tokens rest) :
    Within (t :: argv) (token :: tokens) rest where
  plain s hs := by
    rcases List.mem_cons.mp hs with rfl | hs
    · exact List.mem_cons.mpr (.inl ht)
    · exact List.mem_cons_of_mem t (h.plain s hs)
  unknown s hs := by
    rcases List.mem_cons.mp hs with rfl | hs
    · exact List.mem_cons.mpr (.inl ht)
    · exact List.mem_cons_of_mem t (h.unknown s hs)
  behind ts hts := by
    obtain ⟨hmark, hall⟩ := h.behind ts hts
    exact ⟨List.mem_cons_of_mem t hmark, fun s hs => List.mem_cons_of_mem t (hall s hs)⟩

theorem tail {token : Token} (h : Within argv (token :: tokens) rest) :
    Within argv tokens rest where
  plain t ht := h.plain t (List.mem_cons_of_mem token ht)
  unknown t ht := h.unknown t (List.mem_cons_of_mem token ht)
  behind := h.behind

end Within

/-- **Classification makes no text up**, be it for tokens or for a refusal. -/
theorem classifyAll_cases (argv : List Text) :
    (∃ t ∈ argv, ∃ choices, classifyAll argv = .error (.ambiguous t choices)) ∨
      ∃ tokens rest, classifyAll argv = .ok (tokens, rest) ∧ Within argv tokens rest := by
  induction argv with
  | nil => exact .inr ⟨[], none, rfl, ⟨by simp, by simp, by simp⟩⟩
  | cons t argv ih =>
    unfold classifyAll
    by_cases hmark : t = mark
    · subst hmark
      exact .inr ⟨[], some argv, if_pos rfl, .of_mark argv⟩
    · rw [if_neg hmark]
      have hkeeps := keeps_classify t
      cases hc : classify t with
      | error e =>
        rw [hc] at hkeeps
        obtain ⟨choices, rfl⟩ := hkeeps
        exact .inl ⟨t, List.mem_cons_self, choices, rfl⟩
      | ok token =>
        rw [hc] at hkeeps
        rcases ih with ⟨s, hs, choices, hambiguous⟩ | ⟨tokens, rest, htokens, hwithin⟩
        · exact .inl ⟨s, List.mem_cons_of_mem t hs, choices, by rw [hambiguous]; rfl⟩
        · exact .inr ⟨token :: tokens, rest, by rw [htokens]; rfl, hwithin.cons hkeeps⟩

end Token

/-! ## Drafts -/

namespace Arguments

open Token (Within)

/-- Whether the values of a draft are shown without stray bytes, and what it leaves over are
arguments. -/
structure Draft.Sound (argv : List Text) (d : Draft) : Prop where
  executable : ∀ v ∈ d.executable, v.shown.hasStray = false
  extension : ∀ v ∈ d.extension, v.shown.hasStray = false
  leftOver : ∀ t ∈ d.leftOver, t ∈ argv

namespace Draft.Sound

variable {argv : List Text} {d : Draft}

theorem empty (argv : List Text) : Sound argv {} := ⟨by simp, by simp, by simp⟩

theorem leave (h : d.Sound argv) {ts : List Text} (hts : ∀ t ∈ ts, t ∈ argv) :
    (d.leave ts).Sound argv := by
  refine ⟨h.executable, h.extension, fun t ht => ?_⟩
  rcases List.mem_append.mp ht with ht | ht
  · exact h.leftOver t ht
  · exact hts t ht

theorem give (h : d.Sound argv) {v : Value} (hv : v.shown.hasStray = false) (s : Switch) :
    (d.give v s).Sound argv := by
  cases s with
  | help => exact h
  | verbose => exact h
  | executable => exact ⟨by simpa [Draft.give] using hv, h.extension, h.leftOver⟩
  | extension => exact ⟨h.executable, by simpa [Draft.give] using hv, h.leftOver⟩

theorem direct (h : d.Sound argv) (t : Text) : Sound argv { d with directory := some t } :=
  ⟨h.executable, h.extension, h.leftOver⟩

theorem close (h : d.Sound argv) {rest : Option (List Text)}
    (hrest : ∀ ts, rest = some ts → Token.mark ∈ argv ∧ ∀ t ∈ ts, t ∈ argv) :
    (d.close rest).Sound argv := by
  cases rest with
  | none => exact h
  | some ts =>
    obtain ⟨hmark, hall⟩ := hrest ts rfl
    have hbehind := h.leave (List.forall_mem_cons.mpr ⟨hmark, hall⟩)
    cases hd : d.directory with
    | some dir => simpa only [Draft.close, hd] using hbehind
    | none =>
      cases ts with
      | nil => simpa only [Draft.close, hd] using h
      | cons t more =>
        have hmore := (h.direct t).leave (List.forall_mem_cons.mp hall).2
        simpa only [Draft.close, hd] using hmore

end Draft.Sound

theorem hasStray_attachedValue (t : Text) : (attachedValue t).shown.hasStray = false := by
  unfold attachedValue
  split
  · simp [Value.shown, Value.shownItems]
  · simp [Value.shown]

/-- Whether what has become of the tokens is a sound draft, or a stop whose message, if it has
one, holds no argument as it is. -/
def Settled (argv : List Text) : Except Stop Draft → Prop
  | .ok d => d.Sound argv
  | .error .help => True
  | .error (.usage e) => e.raw = [] ∧ e.Quotes

theorem settled_attachedHelp (argv : List Text) (t : Text) :
    Settled argv (.error (attachedHelp t)) := by
  fun_induction attachedHelp t with
  | case1 => exact trivial
  | case2 more _ ih => exact ih
  | case3 t _ _ => exact ⟨rfl, UsageError.quotes_valueUnwanted _ _⟩

theorem settled_consume {argv : List Text} {rest : Option (List Text)} {d : Draft}
    {tokens : List Token} (hin : Within argv tokens rest) (hd : d.Sound argv) :
    Settled argv (consume rest d tokens) := by
  -- cases 2 to 4 are plain texts, case 5 what is unknown, and the ones from 6 on switches
  fun_induction consume rest d tokens with
  | case1 d => exact hd.close hin.behind
  | case2 d t dir more _ ih =>
    exact ih hin.tail (hd.leave (by simpa using hin.plain t List.mem_cons_self))
  | case3 d t _ =>
    refine (hd.direct t).leave fun s hs => ?_
    cases hrest : rest with
    | none => simp [hrest] at hs
    | some ts => exact (hin.behind ts hrest).2 s (by simpa [hrest] using hs)
  | case4 d t more _ _ ih => exact ih hin.tail (hd.direct t)
  | case5 d t more ih =>
    exact ih hin.tail (hd.leave (by simpa using hin.unknown t List.mem_cons_self))
  | case6 d t more => exact settled_attachedHelp argv t
  | case7 d more => exact trivial
  | case8 d more ih => exact ih hin.tail ⟨hd.executable, hd.extension, hd.leftOver⟩
  | case9 d t more => exact ⟨rfl, UsageError.quotes_valueUnwanted _ _⟩
  | case10 d t more => exact ⟨rfl, UsageError.quotes_valueUnwanted _ _⟩
  | case11 d s t more _ _ ih => exact ih hin.tail (hd.give (hasStray_attachedValue t) s)
  | case12 d s t more _ _ ih =>
    -- the value is the plain text behind the switch, so two tokens are used up
    exact ih hin.tail.tail (hd.give (by simp [Value.shown]) s)
  | case13 d s more _ _ _ => exact ⟨rfl, UsageError.quotes_valueMissing s⟩

/-- Whether what is read of a command line offers values that are shown without stray bytes, or
is refused with a message that shows stray bytes only in arguments. -/
def Reported (argv : List Text) : Except Stop Arguments → Prop
  | .ok a => ∀ offer ∈ a.offers, Settings.IsPlainOffer offer
  | .error .help => True
  | .error (.usage e) => e.Quotes ∧ ∀ t ∈ e.raw, t ∈ argv

theorem reported_ofDraft {argv : List Text} {d : Draft} (hd : d.Sound argv) :
    Reported argv (ofDraft d) := by
  unfold ofDraft
  split
  · exact ⟨UsageError.quotes_directoryMissing, by simp [UsageError.raw]⟩
  · rename_i t more hleft
    exact ⟨UsageError.quotes_unrecognized _, fun s hs => hd.leftOver s (hleft ▸ hs)⟩
  · intro offer hoffer
    rcases List.mem_append.mp hoffer with hoffer | hoffer
    · obtain ⟨v, hv, rfl⟩ := List.mem_map.mp hoffer
      exact ⟨Text.hasStray_ofString _, hd.executable v (Option.mem_toList.mp hv)⟩
    · obtain ⟨v, hv, rfl⟩ := List.mem_map.mp hoffer
      exact ⟨Text.hasStray_ofString _, hd.extension v (Option.mem_toList.mp hv)⟩

/-- **What is read of a command line** can be reported but for arguments shown as they are. -/
theorem reported_read (argv : List Text) : Reported argv (read argv) := by
  unfold read
  rcases Token.classifyAll_cases argv with ⟨t, ht, choices, h⟩ | ⟨tokens, rest, h, hin⟩
  · rw [h]
    exact ⟨UsageError.quotes_ambiguous t choices, by simpa [UsageError.raw] using ht⟩
  · rw [h]
    dsimp only
    have hsettled := settled_consume hin (.empty argv)
    cases hc : consume rest {} tokens with
    | ok d =>
      rw [hc] at hsettled
      exact reported_ofDraft hsettled
    | error stop =>
      rw [hc] at hsettled
      cases stop with
      | help => exact trivial
      | usage e => exact ⟨hsettled.2, by simp [hsettled.1]⟩

end Arguments

/-! ## Reports -/

namespace Command

/-- What the command refuses its arguments with, if it does. -/
def rejection? (argv : List Text) : Option UsageError :=
  match Arguments.read argv with
  | .error .help => none
  | .error (.usage e) => some e
  | .ok a =>
    match Settings.ofOffers a.offers with
    | .error errors => some (.settings errors)
    | .ok _ => none

theorem rejection_cases {argv : List Text} {e : UsageError} (h : rejection? argv = some e) :
    Arguments.read argv = .error (.usage e) ∨
      ∃ a errors, Arguments.read argv = .ok a ∧ Settings.ofOffers a.offers = .error errors ∧
        e = .settings errors := by
  unfold rejection? at h
  split at h
  · cases h
  · rename_i hread
    cases h
    exact .inl hread
  · rename_i a hread
    split at h
    · rename_i errors hoffers
      exact .inr ⟨a, errors, hread, hoffers, (Option.some.inj h).symm⟩
    · cases h

/-- Every refusal shows stray bytes only in the arguments that it holds as they are. -/
theorem quotes_of_rejection {argv : List Text} {e : UsageError} (h : rejection? argv = some e) :
    e.Quotes ∧ ∀ t ∈ e.raw, t ∈ argv := by
  have hreported := Arguments.reported_read argv
  rcases rejection_cases h with hread | ⟨a, errors, hread, hoffers, rfl⟩
  · rw [hread] at hreported
    exact hreported
  · rw [hread] at hreported
    have hplain := Settings.isPlain_of_ofOffers hreported hoffers
    exact ⟨UsageError.quotes_settings hplain, by simp [UsageError.raw]⟩

variable {σ α : Type} [FileSystem σ]

theorem run_of_rejection {tester : Tester α} {budget : Nat} {argv : List Text} {fs : σ}
    {script : List (Attempt σ α)} {e : UsageError} (h : rejection? argv = some e) :
    run tester budget argv fs script = refuse e := by
  rcases rejection_cases h with hread | ⟨a, errors, hread, hoffers, rfl⟩
  · exact run_of_usage hread
  · exact run_of_settings hread hoffers

theorem stdout_printed (ts : List Text) :
    Event.stdout (ts.map .printed) = ts.flatMap Text.line := by
  rw [Event.stdout, Event.lines_printed]
  rfl

/-- **How a usage error is reported.**  If no argument with stray bytes is in the message as it
is, then the usage lines and the message are printed, and the status is 1.  Otherwise the usage
lines are all that is printed, and the command breaks off at the first stray byte. -/
theorem usage_error_report (tester : Tester α) (budget : Nat) (argv : List Text) (fs : σ)
    (script : List (Attempt σ α)) (e : UsageError) (h : rejection? argv = some e) :
    let t := run tester budget argv fs script
    (∀ s ∈ e.raw, s ∈ argv) ∧
      ((∀ s ∈ e.raw, s.hasStray = false) →
        t.ending = .status 1 ∧
          t.stdout = Usage.lines.flatMap Text.line ++
            Text.line ("tree-test-runner: error: " ++ e.message)) ∧
      ((∃ s ∈ e.raw, s.hasStray = true) →
        t.stdout = Usage.lines.flatMap Text.line ∧
          ∃ before low after, e.line = before ++ .stray low :: after ∧
            Text.hasStray before = false ∧
            t.ending =
              .fault (.unencodable before.length low (Text.leadingStrays after))) := by
  intro t
  have ht : t = refuse e := run_of_rejection h
  obtain ⟨hquotes, hargv⟩ := quotes_of_rejection h
  have hprogram : e.line = "tree-test-runner: error: " ++ e.message := rfl
  have hline : e.line.hasStray = e.raw.any Text.hasStray := by
    rw [hprogram, Text.hasStray_append, Text.hasStray_ofString, Bool.false_or]
    exact hquotes
  refine ⟨hargv, fun hclean => ?_, fun hstray => ?_⟩
  · have hnone : e.line.hasStray = false := by
      rw [hline, List.any_eq_false]
      exact fun s hs => by simp [hclean s hs]
    have hrefuse : refuse e = ⟨(Usage.lines ++ [e.line]).map .printed, .status 1, .warning⟩ := by
      simp [refuse, Text.printFault?_of_not_hasStray hnone]
    rw [ht, hrefuse, Transcript.stdout, stdout_printed, List.flatMap_append, hprogram]
    exact ⟨rfl, by simp⟩
  · have hsome : e.line.hasStray = true := by
      rw [hline, List.any_eq_true]
      exact hstray
    obtain ⟨before, low, after, hparts, hbefore, hfault⟩ :=
      Text.printFault?_of_hasStray hsome 0
    rw [Nat.zero_add] at hfault
    have hrefuse : refuse e = ⟨Usage.lines.map .printed,
        .fault (.unencodable before.length low (Text.leadingStrays after)), .warning⟩ := by
      simp [refuse, hfault]
    rw [ht, hrefuse, Transcript.stdout, stdout_printed]
    exact ⟨rfl, before, low, after, hparts, hbefore, rfl⟩

/-- A second directory is reported. -/
theorem second_directory_reported :
    let t := run .process 1 ["a", "b"] Disk.empty []
    t.ending = .status 1 ∧
      t.stdout = Usage.lines.flatMap Text.line ++
        Text.line "tree-test-runner: error: unrecognized arguments: b" := by
  intro t
  have hmessage : ("tree-test-runner: error: unrecognized arguments: b" : Text) =
      "tree-test-runner: error: " ++ UsageError.message (.unrecognized ["b"]) := rfl
  obtain ⟨-, hreported, -⟩ := usage_error_report .process 1 ["a", "b"] Disk.empty []
    (.unrecognized ["b"]) rfl
  rw [hmessage]
  exact hreported (by simp [UsageError.raw])

/-- An option with the byte 0xFF for its name. -/
def strayOption : Text := [.char '-', .char '-', .stray (Fin.last 127)]

/-- A command line with that option is refused, but neither is that reported, nor is the status
1: the command breaks off. -/
theorem stray_option_unreported :
    rejection? [strayOption, "r"] = some (.unrecognized [strayOption]) ∧
      (run .process 1 [strayOption, "r"] Disk.empty []).ending ≠ .status 1 ∧
      (run .process 1 [strayOption, "r"] Disk.empty []).ending =
        .fault (.unencodable 51 (Fin.last 127) []) ∧
      (run .process 1 [strayOption, "r"] Disk.empty []).stdout =
        Usage.lines.flatMap Text.line := by
  have hrejection : rejection? [strayOption, "r"] = some (.unrecognized [strayOption]) := rfl
  have hending : (run .process 1 [strayOption, "r"] Disk.empty []).ending =
      .fault (.unencodable 51 (Fin.last 127) []) := rfl
  refine ⟨hrejection, by simp [hending], hending, rfl⟩

end Command

end FileSweep
