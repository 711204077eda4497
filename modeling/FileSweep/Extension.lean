import FileSweep.Path

/-!
# Extensions and matching files

The extension of a path is the part of its name from the last dot on: `.gz` for
`a.tar.gz`, `.chm` for `.chm`, and nothing for a name without a dot.  An entry of a
directory matches a chosen extension when it is a regular file whose extension equals
the chosen one after both are lower-cased.
-/

namespace FileSweep

/-- The text from its last `c` on, or nothing without a `c`. -/
def Text.fromLast (c : Char) : Text → Text
  | [] => []
  | a :: t =>
    match Text.fromLast c t with
    | [] => if a = .char c then a :: t else []
    | found => found

namespace Path

/-- The name from its last dot on, or nothing. -/
def extension (p : Path) : Text := p.name.fromLast '.'

/-- Whether an entry is a regular file with the given extension, whatever the case. -/
def hasExtension (p : Path) (regular : Bool) (extension : Text) : Bool :=
  regular && p.extension.lower == extension.lower

end Path

end FileSweep
