import FileSweep.Text.Quoted

/-!
# Values

A value is what somebody offers for a name: nothing, a truth value, a number, a text, a
list of values, or a table of named values.  Whoever takes a value may find that it is
of the wrong sort, so each sort has a name, and each value can be shown in a message.
-/

namespace FileSweep

/-- A value that is offered for a name. -/
inductive Value
  | null
  | truth (b : Bool)
  | whole (n : Int)
  /-- a number with a fraction or an exponent, as it is written -/
  | fraction (shown : Text) (isZero : Bool)
  | text (t : Text)
  | list (items : List Value)
  | table (entries : List (Text × Value))

namespace Value

/-- What the sort of a value is called. -/
def sort : Value → Text
  | .null => "NoneType"
  | .truth _ => "bool"
  | .whole _ => "int"
  | .fraction .. => "float"
  | .text _ => "str"
  | .list _ => "list"
  | .table _ => "dict"

/-! ## Values in a message -/

mutual

/-- The value as a message shows it. -/
def shown : Value → Text
  | .null => "None"
  | .truth true => "True"
  | .truth false => "False"
  | .whole n => Text.ofInt n
  | .fraction t _ => t
  | .text t => t.quoted
  | .list items => "[" ++ Text.join ", " (shownItems items) ++ "]"
  | .table entries => "\x7b" ++ Text.join ", " (shownEntries entries) ++ "\x7d"

/-- The values of a list, each as a message shows it. -/
def shownItems : List Value → List Text
  | [] => []
  | v :: items => v.shown :: shownItems items

/-- The entries of a table, each as a message shows it. -/
def shownEntries : List (Text × Value) → List Text
  | [] => []
  | (name, v) :: entries => (name.quoted ++ Text.ofString ": " ++ v.shown) :: shownEntries entries

end

/-- The text of a value: a text stands for itself. -/
def content : Value → Text
  | .text t => t
  | v => v.shown

end Value

end FileSweep
