import FileSweep.Settings.Wording

/-!
# Reserved names

Settings are handed out as a record of a general library, and the library reserves the names that
begin with an underscore.  Its rules about them are set down here and nowhere else.

A few reserved names stand for a part of the record (`Record.Part`), and writing to one of these
acts on that part: the table may be exchanged as a whole for another one, and then a name has the
value that the new table gives it, or none; a part that is fixed, or that is made of the others,
refuses every value.  All other reserved names are free for notes, which go into the table.

Three notes are heeded.  One lists the names that have their value among the hidden values; the
other two give the actions that write to a name, and since no value is an action, a name that has
one cannot be written to any more.

Elsewhere two facts are used about all this.  As long as no reserved name has a value, nothing
stands in the way of a write (`Record.hindrance?_of_forall`).  And unless the table is exchanged as
a whole, writing to reserved names leaves the values of all other names as they are
(`Record.lookup_assignReserved`).
-/

namespace FileSweep

/-! ## Looking into values -/

/-- Ways in which a value cannot be used. -/
inductive Misuse
  /-- a single value holds nothing -/
  | notCollection (sort : Text)
  /-- a single value has no places -/
  | notIndexed (sort : Text)
  /-- the places of a text are numbers -/
  | placeInText
  /-- the places of a list are numbers -/
  | placeInList
  /-- only a table can be searched for a name -/
  | notTable (sort : Text)
  /-- a value does nothing -/
  | notAction (sort : Text)
  deriving DecidableEq

/-- The misuse in words. -/
def Misuse.message : Misuse → Text
  | .notCollection sort => "argument of type '" ++ sort ++ "' is not iterable"
  | .notIndexed sort => "'" ++ sort ++ "' object is not subscriptable"
  | .placeInText => "string indices must be integers, not 'str'"
  | .placeInList => "list indices must be integers or slices, not str"
  | .notTable sort => "'" ++ sort ++ "' object has no attribute 'get'"
  | .notAction sort => "'" ++ sort ++ "' object is not callable"

/-- Whether a text occurs in another one. -/
def Text.hasPart (part : Text) : Text → Bool
  | [] => part.isEmpty
  | a :: t => part.isPrefixOf (a :: t) || hasPart part t

namespace Value

/-- Whether there is nothing to a value: it is empty, zero or false, or nothing at all. -/
def isVoid : Value → Bool
  | .null => true
  | .truth b => !b
  | .whole n => n == 0
  | .fraction _ isZero => isZero
  | .text t => t.isEmpty
  | .list items => items.isEmpty
  | .table entries => entries.isEmpty

/-- Whether a value is the given text. -/
def isText (name : Text) : Value → Bool
  | .text t => t == name
  | _ => false

/-- Whether a value holds a name: as a part of a text, as an item of a list, or as the name
of an entry. -/
def holds (name : Text) : Value → Except Misuse Bool
  | .text t => .ok (Text.hasPart name t)
  | .list items => .ok (items.any (isText name))
  | .table entries => .ok (entries.lookup name).isSome
  | v => .error (.notCollection v.sort)

/-- What a value has at a name, if anything. -/
def lookup? (name : Text) : Value → Except Misuse (Option Value)
  | .text _ => .error .placeInText
  | .list _ => .error .placeInList
  | .table entries => .ok (entries.lookup name)
  | v => .error (.notIndexed v.sort)

end Value

/-! ## The record -/

/-- Ways in which a record does not do what it is asked. -/
inductive RecordError
  /-- an ordinary name cannot be written to -/
  | frozen (e : SettingsError)
  /-- what is to be written to is no name -/
  | notName (sort : Text)
  /-- only a table can stand for the table -/
  | notTable (sort : Text)
  /-- no value can stand for the kind of the record -/
  | notKind (sort : Text)
  /-- the part is made of other parts -/
  | derived (name : Text)
  /-- the part is fixed -/
  | fixed (name : Text)
  /-- the name has no value -/
  | absent (name : Text)
  /-- a value that was written earlier is of no use where it stands -/
  | misuse (m : Misuse)

/-- The error in words. -/
def RecordError.message : RecordError → Text
  | .frozen e => e.objection.message
  | .notName sort => "attribute name must be string, not '" ++ sort ++ "'"
  | .notTable sort => "__dict__ must be set to a dictionary, not a '" ++ sort ++ "'"
  | .notKind sort => "__class__ must be set to a class, not '" ++ sort ++ "' object"
  | .derived name => "property " ++ name.quoted ++ " of 'RunnerConfig' object has no setter"
  | .fixed name => "attribute " ++ name.quoted ++ " of 'Model' objects is not writable"
  | .absent name => "'RunnerConfig' object has no attribute " ++ name.quoted
  | .misuse m => m.message

/-- Settings that can be read and written to by name. -/
structure Record where
  /-- the table of named values -/
  values : List (Text × Value)
  /-- where a name is looked up that is not in the table -/
  spare : Value
  /-- where a name is looked up that is listed as hidden -/
  hidden : Value

namespace Record

/-! ## Names that mean something -/

/-- Whether a name is reserved. -/
def isReserved (name : Text) : Bool := name.head? = some (.char '_')

/-- The parts of a record that have a name. -/
inductive Part
  /-- the table of values -/
  | values
  /-- the spare values -/
  | spare
  /-- the hidden values -/
  | hidden
  /-- the kind of thing that the record is -/
  | kind
  /-- the names that can be given a value, listed whenever somebody asks -/
  | names
  /-- the names that were given a value, listed whenever somebody asks -/
  | given
  /-- who watches the record -/
  | watchers
  deriving DecidableEq

/-- The name of a part. -/
def Part.name : Part → Text
  | .values => "__dict__"
  | .spare => "__pydantic_extra__"
  | .hidden => "__pydantic_private__"
  | .kind => "__class__"
  | .names => "__fields__"
  | .given => "__fields_set__"
  | .watchers => "__weakref__"

/-- The part that a name stands for, if any. -/
def Part.named? (name : Text) : Option Part :=
  [Part.values, .spare, .hidden, .kind, .names, .given, .watchers].find? fun p => p.name = name

/-- The note that lists the hidden names. -/
def hiddenNames : Text := "__private_attributes__"

/-- The note that gives, for each name, the action that writes to it. -/
def namedWriters : Text := "__pydantic_setattr_handlers__"

/-- The note that gives the action that writes to all other names. -/
def generalWriter : Text := "_setattr_handler"

/-! ## Writing -/

/-- Writes to a part. -/
def assignPart (r : Record) (p : Part) (value : Value) : Except RecordError Record :=
  match p, value with
  | .values, .table entries => .ok { r with values := entries }
  | .values, _ => .error (.notTable value.sort)
  | .spare, _ => .ok { r with spare := value }
  | .hidden, _ => .ok { r with hidden := value }
  | .kind, _ => .error (.notKind value.sort)
  | .names, _ | .given, _ => .error (.derived p.name)
  | .watchers, _ => .error (.fixed p.name)

/-- Writes a note into the table. -/
def addNote (r : Record) (name : Text) (value : Value) : Record :=
  { r with values := (name, value) :: r.values }

/-- Writes to a reserved name. -/
def assignReserved (r : Record) (name : Text) (value : Value) : Except RecordError Record :=
  match Part.named? name with
  | some p => r.assignPart p value
  | none => .ok (r.addNote name value)

/-- The action that a note gives for writing to a name, if any. -/
def writer? (r : Record) (name : Text) : Except Misuse (Option Value) :=
  match r.values.lookup namedWriters with
  | none => .ok (r.values.lookup generalWriter)
  | some (.table entries) =>
    match entries.lookup name with
    | none | some .null => .ok (r.values.lookup generalWriter)
    | some action => .ok (some action)
  | some v => .error (.notTable v.sort)

/-- What stands in the way of writing to a name: a note that gives an action for it, or that is of
no use where it stands. -/
def hindrance? (r : Record) (name : Text) : Option Misuse :=
  match r.writer? name with
  | .error m => some m
  | .ok none => none
  | .ok (some action) => some (.notAction action.sort)

/-! ## Reading -/

/-- Whether a name is listed as hidden. -/
def hides (r : Record) (name : Text) : Except Misuse Bool :=
  match r.values.lookup hiddenNames with
  | none => .ok false
  | some names => names.holds name

/-- The value of a name that is not in the table, if it has one: a hidden name, which only a
table can list, has it among the hidden values, any other among the spare ones. -/
def elsewhere? (r : Record) (name : Text) : Except Misuse (Option Value) := do
  if ← r.hides name then
    let _ ← ((r.values.lookup hiddenNames).getD .null).lookup? name
    r.hidden.lookup? name
  else if r.spare.isVoid then return none
  else if ← r.spare.holds name then r.spare.lookup? name
  else return none

/-! ## What stays as it is -/

variable {r r' : Record} {name other : Text} {value : Value}

theorem ne_of_isReserved (hname : isReserved name = true) (hother : isReserved other = false) :
    name ≠ other := by
  rintro rfl
  exact absurd hname (hother ▸ Bool.false_ne_true)

theorem Part.name_of_named? {p : Part} (h : Part.named? name = some p) : p.name = name := by
  simpa using List.find?_some h

/-- Writing to another part than the table leaves the table as it is. -/
theorem values_assignPart {p : Part} (hp : p ≠ .values) (h : r.assignPart p value = .ok r') :
    r'.values = r.values := by
  cases p with
  | values => exact absurd rfl hp
  | spare | hidden => cases h; rfl
  | kind | names | given | watchers => cases h

/-- As long as no reserved name has a value, nothing stands in the way of a write. -/
theorem hindrance?_of_forall (h : ∀ n, isReserved n = true → r.values.lookup n = none)
    (name : Text) : r.hindrance? name = none := by
  have hnamed := h namedWriters (by decide)
  have hgeneral := h generalWriter (by decide)
  simp [hindrance?, writer?, hnamed, hgeneral]

/-- **Writing to reserved names leaves the values of all other names as they are**, unless the
table is exchanged as a whole. -/
theorem lookup_assignReserved (hname : isReserved name = true) (htable : name ≠ Part.values.name)
    (hother : isReserved other = false) (h : r.assignReserved name value = .ok r') :
    r'.values.lookup other = r.values.lookup other := by
  unfold assignReserved at h
  cases hp : Part.named? name with
  | some p =>
    rw [hp] at h
    have hne : p ≠ .values := by
      rintro rfl
      exact htable (Part.name_of_named? hp).symm
    rw [values_assignPart hne h]
  | none =>
    rw [hp] at h
    cases h
    have hne : (other == name) = false :=
      beq_eq_false_iff_ne.mpr (ne_of_isReserved hname hother).symm
    simp [addNote, List.lookup_cons, hne]

end Record

end FileSweep
