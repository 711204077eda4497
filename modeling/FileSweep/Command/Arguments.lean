import FileSweep.Command.Token

/-!
# Arguments

The classified arguments are consumed from left to right.  The first plain text is the
directory, further ones are left over; a switch that takes a value takes the plain text
right behind it, if none is attached; of several values for a switch the last one counts.
A request for help ends everything at once.

The mark that ends the switches belongs to the directory when it stands next to it, and
is left over with the rest otherwise.
-/

namespace FileSweep

/-- What a command line asks for. -/
structure Arguments where
  directory : Path
  executable : Option Value
  extension : Option Value
  verbose : Bool

/-- Reasons not to go on with a command line. -/
inductive Stop
  | help
  | usage (e : UsageError)

namespace Arguments

/-- What has been consumed of a command line. -/
structure Draft where
  directory : Option Text := none
  executable : Option Value := none
  extension : Option Value := none
  verbose : Bool := false
  leftOver : List Text := []

namespace Draft

/-- Sets the value of a switch; those that take none keep the draft. -/
def give (d : Draft) (value : Value) : Switch → Draft
  | .executable => { d with executable := some value }
  | .extension => { d with extension := some value }
  | .help | .verbose => d

/-- Leaves texts over. -/
def leave (d : Draft) (ts : List Text) : Draft := { d with leftOver := d.leftOver ++ ts }

/-- Takes the mark and the texts behind it, where the argument in front of the mark is not
the directory. -/
def close (d : Draft) : Option (List Text) → Draft
  | none => d
  | some ts =>
    match d.directory, ts with
    | none, t :: more => { d with directory := some t }.leave more
    | none, [] => d
    | some _, ts => d.leave (Token.mark :: ts)

end Draft

/-- The value that a text attached to a switch gives.  The mark is no value even there, and
what remains without it is an empty list of values. -/
def attachedValue (t : Text) : Value := if t = Token.mark then .list [] else .text t

/-- What comes of text attached to the short help switch: further letters of the same kind
ask for help again, and anything else is a value that is not wanted. -/
def attachedHelp : Text → Stop
  | [.char 'h'] => .help
  | .char 'h' :: more => attachedHelp more
  | t => .usage (.valueUnwanted .help t)

/-- Consumes classified arguments.  `rest` is what stands behind the mark, if there is one. -/
def consume (rest : Option (List Text)) : Draft → List Token → Except Stop Draft
  | d, [] => .ok (d.close rest)
  | d, .plain t :: more =>
    match d.directory, more with
    | some _, more => consume rest (d.leave [t]) more
    | none, [] => .ok ({ d with directory := some t }.leave (rest.getD []))
    | none, more => consume rest { d with directory := some t } more
  | d, .unknown t :: more => consume rest (d.leave [t]) more
  | _, .shortHelp t :: _ => .error (attachedHelp t)
  | _, .switch .help none :: _ => .error .help
  | d, .switch .verbose none :: more => consume rest { d with verbose := true } more
  | _, .switch .help (some t) :: _ => .error (.usage (.valueUnwanted .help t))
  | _, .switch .verbose (some t) :: _ => .error (.usage (.valueUnwanted .verbose t))
  | d, .switch s (some t) :: more => consume rest (d.give (attachedValue t) s) more
  | d, .switch s none :: .plain t :: more => consume rest (d.give (.text t) s) more
  | _, .switch s none :: _ => .error (.usage (.valueMissing s))

/-- What a draft amounts to: there has to be a directory, and nothing may be left over. -/
def ofDraft (d : Draft) : Except Stop Arguments :=
  match d.directory, d.leftOver with
  | none, _ => .error (.usage .directoryMissing)
  | some _, t :: more => .error (.usage (.unrecognized (t :: more)))
  | some t, [] => .ok ⟨.ofText t, d.executable, d.extension, d.verbose⟩

/-- Reads a command line. -/
def read (argv : List Text) : Except Stop Arguments :=
  match Token.classifyAll argv with
  | .error e => .error (.usage e)
  | .ok (tokens, rest) =>
    match consume rest {} tokens with
    | .error r => .error r
    | .ok d => ofDraft d

/-- The values that the arguments offer for the settings. -/
def offers (a : Arguments) : List (Text × Value) :=
  (a.executable.toList.map (Settings.executableName, ·)) ++
    (a.extension.toList.map (Settings.extensionName, ·))

end Arguments

end FileSweep
