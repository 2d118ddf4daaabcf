import ImageAudit.Text.Basic

/-!
# Paths

A path is a text with slashes between the names of directories and, at the end, of a file.

* `names` are the parts that lead anywhere, `fileName?` is the last one if it names something.
* `under` is the path of a directory's entry.
-/

namespace ImageAudit.Path

open Text

/-- The parts of a path that are neither empty nor a single dot. -/
def names (path : Text) : List Text :=
  (pieces '/' path).filter fun n => !n.isEmpty && n != ['.']

/-- The name of the file or directory a path leads to; a path that ends by going up has none. -/
def fileName? (path : Text) : Option Text :=
  match (names path).getLast? with
  | some n => if n == ['.', '.'] then none else some n
  | none => none

/-- The path of the entry `name` of a directory. -/
def under (directory name : Text) : Text :=
  if directory.isEmpty then name
  else if directory.getLast? == some '/' then directory ++ name
  else directory ++ '/' :: name

/-- Whether a path begins at the root of all directories. -/
def isAbsolute (path : Text) : Bool := path.head? == some '/'

end ImageAudit.Path
