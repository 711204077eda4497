import FileSweep.Path
import FileSweep.Text.Quoted

/-!
# What can go wrong

An `OsError` is a refusal of the operating system.  It is part of the ordinary course of
a sweep: the walk reports it and goes on, and an executable that cannot be started is a
failed test.  A `Fault` is what nothing handles; it ends whatever is going on.

Both are kept as causes.  `OsError.message` and `Fault.message` are the only places that
put them into words.
-/

namespace FileSweep

/-! ## Refusals of the operating system -/

/-- What a refused request was about. -/
inductive Subject
  /-- a file, named by the text that was asked for -/
  | file (name : Text)
  /-- an executable -/
  | executable (path : Path)
  deriving DecidableEq

/-- The subject as a message shows it. -/
def Subject.text : Subject → Text
  | .file name => name.quoted
  | .executable path => "PosixPath(" ++ path.text.quoted ++ ")"

/-- A refusal of the operating system. -/
inductive OsError
  /-- one with a number and the system's reason for it -/
  | coded (number : Int) (reason : Text) (subject : Option Subject)
  /-- one of which only a message is known; `denied` if it concerns permissions -/
  | plain (message : Text) (denied : Bool)
  deriving DecidableEq

namespace OsError

/-- Whether permission was denied: by the numbers EPERM and EACCES. -/
def isDenied : OsError → Bool
  | .coded number _ _ => number = 1 || number = 13
  | .plain _ denied => denied

/-- The error in words. -/
def message : OsError → Text
  | .coded number reason subject =>
    "[Errno " ++ Text.ofInt number ++ "] " ++ reason ++
      (match subject with
        | none => []
        | some s => ": " ++ s.text)
  | .plain message _ => message

/-- Nothing is there under the name. -/
def missing (name : Text) : OsError := .coded 2 "No such file or directory" (some (.file name))

/-- Following links from the name came to no end. -/
def tooManyLinks (name : Text) : OsError :=
  .coded 40 "Too many levels of symbolic links" (some (.file name))

end OsError

/-- A refusal before it is known what it is about: the number and the reason. -/
structure Refusal where
  number : Int
  reason : Text
  deriving DecidableEq

/-- The error that a refusal is, for a subject. -/
def Refusal.error (r : Refusal) (subject : Option Subject) : OsError :=
  .coded r.number r.reason subject

/-! ## Faults -/

/-- What ends a sweep out of order. -/
inductive Fault
  /-- a refusal in a place where it is not handled -/
  | os (e : OsError)
  /-- a path with a NUL, for which the system cannot even be asked -/
  | nulInPath
  /-- a number that is no signal number of the system's integer type -/
  | signalOutOfRange
  /-- a test that broke off over a value -/
  | badValue (message : Text)
  /-- a test that broke off for any other reason -/
  | broken (message : Text)
  /-- text that the output, which takes no stray bytes, could not be given: the position of
  the first of them and the stray bytes in a row there -/
  | unencodable (position : Nat) (first : Fin 128) (more : List (Fin 128))
  deriving DecidableEq

/-- The fault in words. -/
def Fault.message : Fault → Text
  | .os e => e.message
  | .nulInPath => "embedded null byte"
  | .signalOutOfRange => "Python int too large to convert to C int"
  | .badValue message => message
  | .broken message => message
  | .unencodable position first [] =>
    "'utf-8' codec can't encode character '" ++ Text.escapeCode (Symbol.stray first).code ++
      "' in position " ++ Text.ofNat position ++ ": surrogates not allowed"
  | .unencodable position _ more =>
    "'utf-8' codec can't encode characters in position " ++ Text.ofNat position ++ "-" ++
      Text.ofNat (position + more.length) ++ ": surrogates not allowed"

end FileSweep
