import FileSweep.Tester
import FileSweep.Text.Utf8
import FileSweep.Walk

/-!
# Events of a sweep

Everything that happens in a sweep, in one order: the questions to the file system and
the entries that the walk makes of the answers, the lines printed, the notices, and the
calls of the executable.  What is seen on a single channel is a view of that one
sequence.
-/

namespace FileSweep

/-- Something that happens in a sweep. -/
inductive Event
  | asked (q : Query)
  /-- the walk comes to an entry -/
  | reached (e : Entry)
  /-- prints the text and a line break -/
  | printed (line : Text)
  | noted (n : Notice)
  /-- runs the executable on the file -/
  | called (executable path : Path)
  deriving DecidableEq

namespace Event

/-- The questions asked. -/
def queries (es : List Event) : List Query :=
  es.filterMap fun
    | .asked q => some q
    | _ => none

/-- The entries reached. -/
def entries (es : List Event) : List Entry :=
  es.filterMap fun
    | .reached e => some e
    | _ => none

/-- The texts printed. -/
def lines (es : List Event) : List Text :=
  es.filterMap fun
    | .printed t => some t
    | _ => none

/-- The notices made. -/
def notices (es : List Event) : List Notice :=
  es.filterMap fun
    | .noted n => some n
    | _ => none

/-- The calls made: executable and file. -/
def calls (es : List Event) : List (Path × Path) :=
  es.filterMap fun
    | .called executable path => some (executable, path)
    | _ => none

/-- The bytes printed. -/
def stdout (es : List Event) : List UInt8 := (lines es).flatMap fun t => t.toBytes ++ [10]

/-! ## The views of what happens in two parts -/

variable (es fs : List Event)

@[simp] theorem queries_append : queries (es ++ fs) = queries es ++ queries fs :=
  List.filterMap_append

@[simp] theorem entries_append : entries (es ++ fs) = entries es ++ entries fs :=
  List.filterMap_append

@[simp] theorem lines_append : lines (es ++ fs) = lines es ++ lines fs :=
  List.filterMap_append

@[simp] theorem notices_append : notices (es ++ fs) = notices es ++ notices fs :=
  List.filterMap_append

@[simp] theorem calls_append : calls (es ++ fs) = calls es ++ calls fs :=
  List.filterMap_append

@[simp] theorem stdout_append : stdout (es ++ fs) = stdout es ++ stdout fs := by
  simp [stdout]

end Event

/-- What a tester does to run one test with the given outcome, and the verdict: one call, with
notices around it. -/
def Tester.perform {α : Type} (tester : Tester α) (executable path : Path) (outcome : α) :
    List Event × Except Fault TestResult :=
  let reply := tester.reply executable path outcome
  ((tester.announce executable path).map .noted ++
      .called executable path :: reply.notices.map .noted,
    reply.verdict)

end FileSweep
