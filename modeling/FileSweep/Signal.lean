import FileSweep.Fault

/-!
# How a process ended

A process that has ended leaves a return code: zero for success, a positive exit status,
or a signal's number with a minus in front.  `Signal.describe` names a signal, by its
number where the system has no name for it; `ReturnCode.failure?` says what was wrong,
or nothing for success.
-/

namespace FileSweep

namespace Signal

/-- The names of the classic signals, number 1 first. -/
def names : List String :=
  ["hangup", "interrupt", "quit", "illegal instruction", "trace/breakpoint trap", "aborted",
    "bus error", "floating point exception", "killed", "user defined signal 1",
    "segmentation fault", "user defined signal 2", "broken pipe", "alarm clock", "terminated",
    "stack fault", "child exited", "continued", "stopped (signal)", "stopped",
    "stopped (tty input)", "stopped (tty output)", "urgent i/o condition",
    "cpu time limit exceeded", "file size limit exceeded", "virtual timer expired",
    "profiling timer expired", "window changed", "i/o possible", "power failure",
    "bad system call"]

/-- The first and the last real-time signal. -/
def realTime : Nat × Nat := (34, 64)

/-- The system's name for a signal, in lower case.  Zero, the two numbers between the classic
and the real-time signals, and all numbers above those have none. -/
def name? : Int → Option Text
  | .ofNat 0 => none
  | .ofNat (n + 1) =>
    match names[n]? with
    | some name => some name
    | none =>
      if realTime.1 ≤ n + 1 ∧ n + 1 ≤ realTime.2 then
        some ("real-time signal " ++ Text.ofNat (n + 1 - realTime.1))
      else none
  | .negSucc _ => none

/-- Whether a number fits into the system's type for signal numbers. -/
def inRange (n : Int) : Bool := -0x80000000 ≤ n && n < 0x80000000

/-- A signal by its name, or else by its number. -/
def describe (n : Int) : Except Fault Text :=
  if inRange n then .ok ((name? n).getD (Text.ofInt n)) else .error .signalOutOfRange

end Signal

/-- What was wrong with a process that left the given return code, which is none if it did not
end; nothing for success. -/
def ReturnCode.failure? : Option Int → Except Fault (Option Text)
  | none => .ok (some "process did not exit")
  | some code =>
    if code = 0 then .ok none
    else if code < 0 then (Signal.describe (-code)).map fun name => some ("signal: " ++ name)
    else .ok (some ("exit status " ++ Text.ofInt code))

end FileSweep
