import ImageAudit.Path

/-!
# Files

What a program can do with files through paths. Everything may fail: a file that is there may not be
open to reading, a link may lead nowhere, and a directory may not let its entries be seen.

* `Files` are the operations of some system of files.
* `Files.listing` are the paths of the entries of a directory, sorted by name.
-/

namespace ImageAudit

open Text

/-- Why something cannot be done with a file. -/
inductive FileFault where
  | missing
  | notADirectory
  | isADirectory
  | nameTooLong
  | notText
  | nulInName
  /-- Any other reason, in the words of the system. -/
  | other (reason : Text)
  deriving DecidableEq

/-- What is said of a fault. -/
def FileFault.message : FileFault → Text
  | missing => "No such file or directory (os error 2)".toList
  | notADirectory => "Not a directory (os error 20)".toList
  | isADirectory => "Is a directory (os error 21)".toList
  | nameTooLong => "File name too long (os error 36)".toList
  | notText => "stream did not contain valid UTF-8".toList
  | nulInName => "file name contained an unexpected NUL byte".toList
  | other reason => reason

/-- A system of files, where a `σ` is what all the files are at some time. -/
structure Files (σ : Type) where
  /-- Whether a path leads to a directory. -/
  isDirectory : σ → Text → Bool
  /-- Whether a path leads to a file. -/
  isFile : σ → Text → Bool
  /-- The text of the file a path leads to. -/
  read : σ → Text → Except FileFault Text
  /-- What is met in the directory a path leads to, in no particular order: the names of entries,
  and faults where an entry, or the directory itself, cannot be looked at. -/
  scan : σ → Text → List (Except FileFault Text)
  /-- Writes a text to a path. What it leaves may be anything if it fails. -/
  write : σ → Text → Text → Option FileFault × σ

namespace Files

/-- Whether a name comes before another one or is the same. -/
def precedes (a b : Text) : Bool := !(b < a)

/-- Whether what is met in a directory comes before something else or with it; faults come first. -/
def comesBefore : Except FileFault Text → Except FileFault Text → Bool
  | .ok a, .ok b => precedes a b
  | .ok _, .error _ => false
  | .error _, _ => true

variable {σ : Type}

/-- The paths of the entries of the directory a path leads to, sorted by name; what cannot be looked
at is left out. -/
def listing (fs : Files σ) (s : σ) (path : Text) : List Text :=
  (((fs.scan s path).mergeSort comesBefore).filterMap Except.toOption).map (Path.under path)

end Files

end ImageAudit
