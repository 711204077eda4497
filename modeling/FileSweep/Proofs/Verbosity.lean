import Mathlib.Data.List.Basic
import FileSweep.Proofs.UsageReport

/-!
# The verbose switch

A command line with the verbose switch in front asks for the same sweep.  The switch does not
shift how the rest is read: it changes nothing of a draft but one flag, and that flag is carried
along to the end (`Arguments.consume_loud`), whatever is plain, left over, or a reason to stop.
The flag then decides what the log holds, and nothing else.
-/

namespace FileSweep

/-! ## Reading the rest of a command line -/

namespace Arguments

namespace Draft

/-- The draft of a command line in which the verbose switch has been seen. -/
def loud (d : Draft) : Draft := { d with verbose := true }

@[simp] theorem leave_loud (d : Draft) (ts : List Text) : d.loud.leave ts = (d.leave ts).loud :=
  rfl

@[simp] theorem give_loud (d : Draft) (v : Value) (s : Switch) :
    d.loud.give v s = (d.give v s).loud := by
  cases s <;> rfl

@[simp] theorem close_loud (d : Draft) (rest : Option (List Text)) :
    d.loud.close rest = (d.close rest).loud := by
  cases rest with
  | none => rfl
  | some ts => cases hd : d.directory <;> cases ts <;> simp [close, loud, hd, leave]

end Draft

/-- The arguments with the log switched on. -/
def loud (a : Arguments) : Arguments := { a with verbose := true }

/-- **The flag is carried along**, and decides nothing on the way. -/
theorem consume_loud (rest : Option (List Text)) (d : Draft) (tokens : List Token) :
    consume rest d.loud tokens = (consume rest d tokens).map Draft.loud := by
  -- cases 2 to 4 are plain texts, case 5 what is unknown, and the ones from 6 on switches
  fun_induction consume rest d tokens with
  | case1 d => simp [consume, Except.map]
  | case2 d t dir more hd ih =>
    have hdir : d.loud.directory = some dir := hd
    simp [consume, hdir, ih]
  | case3 d t hd =>
    have hdir : d.loud.directory = none := hd
    simp only [consume, hdir]
    rfl
  | case4 d t more hmore hd ih =>
    have hdir : d.loud.directory = none := hd
    simp only [consume, hdir]
    exact ih
  | case5 d t more ih => simp [consume, ih]
  | case6 d t more => rfl
  | case7 d more => rfl
  | case8 d more ih =>
    rw [consume]
    exact ih
  | case9 d t more => rfl
  | case10 d t more => rfl
  | case11 d s t more hs hs' ih => simp [consume, ih]
  | case12 d s t more hs hs' ih => simp [consume, ih]
  | case13 d s more hs hs' hm =>
    simp only [consume]
    rfl

/-- The switch in front is classified by itself. -/
theorem classifyAll_verbose (argv : List Text) :
    Token.classifyAll (Switch.verbose.long :: argv) =
      (Token.classifyAll argv).map fun r => (.switch .verbose none :: r.1, r.2) := by
  have hmark : Switch.verbose.long ≠ Token.mark := by decide
  have hswitch : Token.classify Switch.verbose.long = .ok (.switch .verbose none) := by rfl
  rw [Token.classifyAll, if_neg hmark, hswitch]
  cases Token.classifyAll argv <;> rfl

theorem ofDraft_loud (d : Draft) : ofDraft d.loud = (ofDraft d).map loud := by
  obtain ⟨directory, executable, extension, verbose, leftOver⟩ := d
  cases directory with
  | none => rfl
  | some t => cases leftOver <;> rfl

/-- **A command line with the verbose switch in front** is read as the rest alone would be, but
for the flag. -/
theorem read_verbose (argv : List Text) :
    read (Switch.verbose.long :: argv) = (read argv).map loud := by
  unfold read
  rw [classifyAll_verbose]
  cases Token.classifyAll argv with
  | error e => rfl
  | ok r =>
    obtain ⟨tokens, rest⟩ := r
    have hconsume : consume rest {} (.switch .verbose none :: tokens) =
        (consume rest {} tokens).map Draft.loud := consume_loud rest {} tokens
    simp only [Except.map, hconsume]
    cases consume rest {} tokens with
    | error stop => rfl
    | ok d => exact ofDraft_loud d

end Arguments

/-! ## What the flag decides -/

namespace Transcript

/-- The lines of the log in bytes, with `stamp` for the time of every line. -/
def logLines (t : Transcript) (stamp : Text) : List (List UInt8) :=
  t.log.map fun n => logBytes (n.line stamp)

theorem stderr_eq_flatten (t : Transcript) (stamp : Text) :
    t.stderr stamp = (t.logLines stamp).flatten := List.flatMap_def

/-- A lower threshold keeps what is in the log. -/
theorem log_sublist {events : List Event} {ending ending' : ProgramEnd} {low high : Level}
    (h : low.rank ≤ high.rank) :
    (Transcript.mk events ending high).log.Sublist (Transcript.mk events ending' low).log := by
  refine List.monotone_filter_right _ fun n hn => ?_
  have hhigh : high.rank ≤ n.level.rank := of_decide_eq_true hn
  exact decide_eq_true (Nat.le_trans h hhigh)

end Transcript

namespace Command

variable {σ α : Type} [FileSystem σ]

/-- The switch changes nothing of a run but the threshold of the log, which does not rise. -/
theorem run_verbose (tester : Tester α) (budget : Nat) (argv : List Text) (fs : σ)
    (script : List (Attempt σ α)) :
    let t := run tester budget argv fs script
    ∃ threshold, threshold.rank ≤ t.threshold.rank ∧
      run tester budget (Switch.verbose.long :: argv) fs script = { t with threshold } := by
  unfold run
  rw [Arguments.read_verbose]
  cases Arguments.read argv with
  | error stop => cases stop <;> exact ⟨_, Nat.le_refl _, rfl⟩
  | ok a =>
    have hoffers : a.loud.offers = a.offers := rfl
    simp only [Except.map, hoffers]
    cases Settings.ofOffers a.offers with
    | error errors => exact ⟨_, Nat.le_refl _, rfl⟩
    | ok settings => exact ⟨.debug, Nat.zero_le _, rfl⟩

/-- **Verbosity is only diagnostics.**  With the verbose switch in front of its arguments,
whatever these are, a command ends in the same way, prints the same bytes, starts the same
processes in the same order, and asks the file system the same; each line that it would write
to its log without the switch is in its log, in the same order. -/
theorem verbose_adds_only_log (tester : Tester α) (budget : Nat) (argv : List Text) (fs : σ)
    (script : List (Attempt σ α)) :
    let t := run tester budget argv fs script
    let t' := run tester budget ("--verbose" :: argv) fs script
    t'.ending = t.ending ∧ t'.stdout = t.stdout ∧
      Event.calls t'.events = Event.calls t.events ∧
      Event.queries t'.events = Event.queries t.events ∧
      ∀ stamp, t.stderr stamp = (t.logLines stamp).flatten ∧
        t'.stderr stamp = (t'.logLines stamp).flatten ∧
        (t.logLines stamp).Sublist (t'.logLines stamp) := by
  intro t t'
  obtain ⟨threshold, hle, ht'⟩ := run_verbose tester budget argv fs script
  have heq : t' = { t with threshold } := ht'
  rw [heq]
  refine ⟨rfl, rfl, rfl, rfl, fun stamp => ⟨?_, ?_, ?_⟩⟩
  · exact t.stderr_eq_flatten stamp
  · exact Transcript.stderr_eq_flatten _ stamp
  · exact (Transcript.log_sublist hle).map _

end Command

end FileSweep
