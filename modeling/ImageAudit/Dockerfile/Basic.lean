import ImageAudit.Layout.Substitution
import ImageAudit.Path
import ImageAudit.Statement

/-!
# Dockerfiles

A Dockerfile is a list of statements in source order, with the path it was read from if there is
one.

* `Dockerfile.ofText` lays a text out and reads it; `Dockerfile.ofFile` also refuses what holds
  nothing but comments and blanks.
* `groups` and `stages` arrange the statements, `maintainers` and `envValue` look something up.
-/

namespace ImageAudit

open Text

/-- The statements of a recipe in source order. -/
structure Dockerfile where
  path : Option Text
  statements : List Statement
  deriving DecidableEq

namespace Dockerfile

/-- No statement at all. -/
def empty : Dockerfile := ⟨none, []⟩

/-- Lays a text out and reads its statements. -/
def ofText (t : Text) : Except ReadError Dockerfile :=
  match Statement.readAll (Layout.normalize t) with
  | .ok ss => .ok ⟨none, ss⟩
  | .error e => .error e

/-- Lays out the text of the file at `path` and reads its statements. -/
def ofFile (path t : Text) : Except ReadError Dockerfile :=
  if (Layout.normalize t).isEmpty then .error (.emptyFile path)
  else
    match Statement.readAll (Layout.normalize t) with
    | .ok ss => .ok ⟨some path, ss⟩
    | .error e => .error e

/-- Adds a statement at the end. -/
def push (d : Dockerfile) (s : Statement) : Dockerfile :=
  { d with statements := d.statements ++ [s] }

/-- The name of the file it was read from. -/
def fileName (d : Dockerfile) : Text := (d.path.bind Path.fileName?).getD "Dockerfile".toList

/-! ## Arranging -/

/-- The statements of each kind that occurs, kinds in the order of reports. -/
def groups (d : Dockerfile) : List (Kind × List Statement) :=
  (Kind.all.map fun k => (k, d.statements.filter fun s => s.kind == k)).filter fun g => !g.2.isEmpty

/-- Whether a statement begins a stage. -/
def beginsStage (s : Statement) : Bool := s.kind == .base

/-- What stands before the first beginning of a stage, and the stages. -/
def splitStages : List Statement → List Statement × List (List Statement)
  | [] => ([], [])
  | s :: ss =>
    let (before, stages) := splitStages ss
    if beginsStage s then ([], (s :: before) :: stages) else (s :: before, stages)

/-- The stages: each begins with an image and runs up to the next one. -/
def stages (d : Dockerfile) : List (List Statement) := (splitStages d.statements).2

/-- The statements after the last beginning of a stage, or all if no stage begins. -/
def afterLastBase (ss : List Statement) : List Statement :=
  (ss.reverse.takeWhile fun s => !beginsStage s).reverse

/-- The RUN statements of the last stage. -/
def lastStageRuns (d : Dockerfile) : List Statement :=
  (afterLastBase d.statements).filter fun s => s.kind == .run

/-! ## Looking up -/

/-- The names of a MAINTAINER statement. -/
def statedMaintainer? (s : Statement) : Option Text :=
  match s.instruction with
  | .maintainer names => some (join ", ".toList names)
  | _ => none

/-- The value of the first label that names a maintainer. -/
def labelledMaintainer? (s : Statement) : Option Text :=
  match s.instruction with
  | .label pairs =>
    (pairs.find? fun p => p.1 == "maintainer".toList || p.1 == "MAINTAINER".toList).map (·.2)
  | _ => none

/-- The maintainers: those of the first MAINTAINER statement, or else of the first such label. -/
def maintainers (d : Dockerfile) : Option Text :=
  (d.statements.findSome? statedMaintainer?).or (d.statements.findSome? labelledMaintainer?)

/-- The value a statement gives a variable. -/
def envValueOf? (key : Text) (s : Statement) : Option Text :=
  match s.instruction with
  | .env pairs => Pair.lookup pairs key
  | _ => none

/-- The value of a variable; of several definitions, the last one. -/
def envValue (d : Dockerfile) (key : Text) : Option Text :=
  d.statements.reverse.findSome? (envValueOf? key)

end Dockerfile

end ImageAudit
