import ImageAudit.Dockerfile.Basic
import ImageAudit.Instruction.Attempt

/-!
# Attempts at reading Dockerfiles

Lines are read in order, up to the first that is no instruction. If reading breaks off at a line
before that, it does so for the whole text: there are no statements then, and no error either.

* `Statement.attemptAll` reads the statements of a text.
* `Dockerfile.attemptText` and `Dockerfile.attemptFile` read a Dockerfile.
* All three are `none` where reading breaks off, and otherwise what `Statement.readAll`,
  `Dockerfile.ofText` and `Dockerfile.ofFile` are.
-/

namespace ImageAudit

open Text

namespace Statement

/-- Reads a logical line with its place. -/
def attempt (l : LogicalLine) : Option (Except ReadError Statement) :=
  match Instruction.attemptLine l.text with
  | .done i => some (.ok ⟨i, l.line, l.text⟩)
  | .refused => some (.error (.malformed l.line (LineFault.ofLine l.text).message))
  | .broken => none

/-- Reads logical lines; the first that fails decides, unless reading breaks off before. -/
def attemptLines : List LogicalLine → Option (Except ReadError (List Statement))
  | [] => some (.ok [])
  | l :: ls =>
    match attempt l with
    | none => none
    | some (.error e) => some (.error e)
    | some (.ok s) => (attemptLines ls).map fun rest => rest.map (s :: ·)

/-- Reads the statements of a text. -/
def attemptAll (t : Text) : Option (Except ReadError (List Statement)) :=
  attemptLines (logicalLines t)

end Statement

namespace Dockerfile

/-- Lays a text out and reads its statements. -/
def attemptText (t : Text) : Option (Except ReadError Dockerfile) :=
  (Statement.attemptAll (Layout.normalize t)).map fun ss => ss.map (⟨none, ·⟩)

/-- Lays out the text of the file at `path` and reads its statements. -/
def attemptFile (path t : Text) : Option (Except ReadError Dockerfile) :=
  if (Layout.normalize t).isEmpty then some (.error (.emptyFile path))
  else (Statement.attemptAll (Layout.normalize t)).map fun ss => ss.map (⟨some path, ·⟩)

end Dockerfile

end ImageAudit
