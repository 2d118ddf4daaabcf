import ImageAudit.Dockerfile.Basic

/-!
# Views

A view lists what the statements of each kind carry, together with the statements; rules read
nothing else.

* `Dockerfile.view` is the view of a Dockerfile.
* `View.transfers` are the ADD and COPY statements in the order of their lines.
* `View.envValue` is the last value of a variable.
-/

namespace ImageAudit

open Text

/-- What a statement carries, and the statement. -/
structure Located (α : Type) where
  item : α
  statement : Statement

namespace Located

/-- The text of the statement. -/
def text {α : Type} (l : Located α) : Text := l.statement.text

/-- The line of the statement. -/
def line {α : Type} (l : Located α) : Nat := l.statement.line

/-- What the statements carry that `pick` picks. -/
def select {α : Type} (pick : Instruction → Option α) (ss : List Statement) : List (Located α) :=
  ss.filterMap fun s => (pick s.instruction).map fun x => ⟨x, s⟩

end Located

/-! ## What an instruction of one kind carries -/

namespace Instruction

/-- The image of FROM. -/
def base? : Instruction → Option BaseImage
  | base image => some image
  | _ => none

/-- The owner of USER. -/
def user? : Instruction → Option Owner
  | user owner => some owner
  | _ => none

/-- The command of RUN. -/
def run? : Instruction → Option RunCommand
  | run command => some command
  | _ => none

/-- The arguments of CMD. -/
def cmd? : Instruction → Option Arguments
  | cmd arguments => some arguments
  | _ => none

/-- The arguments of ENTRYPOINT. -/
def entrypoint? : Instruction → Option Arguments
  | entrypoint arguments => some arguments
  | _ => none

/-- The pairs of LABEL. -/
def label? : Instruction → Option (List Pair)
  | label pairs => some pairs
  | _ => none

/-- The pairs of ENV. -/
def env? : Instruction → Option (List Pair)
  | env pairs => some pairs
  | _ => none

/-- The ports of EXPOSE. -/
def expose? : Instruction → Option (List Port)
  | expose ports => some ports
  | _ => none

/-- The names of MAINTAINER. -/
def maintainer? : Instruction → Option (List Text)
  | maintainer names => some names
  | _ => none

/-- The transfer of ADD. -/
def add? : Instruction → Option Transfer
  | add transfer => some transfer
  | _ => none

/-- The transfer of COPY. -/
def copy? : Instruction → Option Transfer
  | copy transfer => some transfer
  | _ => none

/-- The path of WORKDIR. -/
def workdir? : Instruction → Option Text
  | workdir path => some path
  | _ => none

/-- The paths of VOLUME. -/
def volume? : Instruction → Option (List Text)
  | volume paths => some paths
  | _ => none

/-- The words of SHELL. -/
def shell? : Instruction → Option (List Text)
  | shell items => some items
  | _ => none

/-- The signal of STOPSIGNAL. -/
def stopSignal? : Instruction → Option Text
  | stopSignal signal => some signal
  | _ => none

end Instruction

/-! ## Views -/

/-- What the statements carry, by kind. -/
structure View where
  bases : List (Located BaseImage)
  users : List (Located Owner)
  runs : List (Located RunCommand)
  cmds : List (Located Arguments)
  entrypoints : List (Located Arguments)
  labels : List (Located (List Pair))
  envs : List (Located (List Pair))
  exposes : List (Located (List Port))
  maintainers : List (Located (List Text))
  adds : List (Located Transfer)
  copies : List (Located Transfer)
  workdirs : List (Located Text)
  volumes : List (Located (List Text))
  shells : List (Located (List Text))
  stopSignals : List (Located Text)
  /-- The RUN statements of the last stage. -/
  lastStageRuns : List (Located RunCommand)

/-- The view of a Dockerfile. -/
def Dockerfile.view (d : Dockerfile) : View where
  bases := Located.select Instruction.base? d.statements
  users := Located.select Instruction.user? d.statements
  runs := Located.select Instruction.run? d.statements
  cmds := Located.select Instruction.cmd? d.statements
  entrypoints := Located.select Instruction.entrypoint? d.statements
  labels := Located.select Instruction.label? d.statements
  envs := Located.select Instruction.env? d.statements
  exposes := Located.select Instruction.expose? d.statements
  maintainers := Located.select Instruction.maintainer? d.statements
  adds := Located.select Instruction.add? d.statements
  copies := Located.select Instruction.copy? d.statements
  workdirs := Located.select Instruction.workdir? d.statements
  volumes := Located.select Instruction.volume? d.statements
  shells := Located.select Instruction.shell? d.statements
  stopSignals := Located.select Instruction.stopSignal? d.statements
  lastStageRuns := Located.select Instruction.run? d.lastStageRuns

namespace View

/-- The value of a variable; of several definitions, the last one. -/
def envValue (v : View) (key : Text) : Option Text :=
  v.envs.reverse.findSome? fun e => Pair.lookup e.item key

/-- The ADD and COPY statements in the order of their lines; on one line, ADD first. -/
def transfers (v : View) : List (Located Transfer) :=
  (v.adds ++ v.copies).mergeSort fun a b => a.line ≤ b.line

end View

end ImageAudit
