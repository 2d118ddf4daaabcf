import ImageAudit.Instruction.HealthCheck
import ImageAudit.Instruction.Image
import ImageAudit.Instruction.Pair
import ImageAudit.Instruction.Port

/-!
# Instructions

An instruction says one step of building an image; comments count as instructions too. The kind of
an instruction is told by its keyword.

* `Kind.all` lists the kinds in the order reports use.
* `Instruction.kind` is the kind of an instruction.
-/

namespace ImageAudit

/-- The kinds of instructions. -/
inductive Kind where
  | base
  | run
  | cmd
  | label
  | maintainer
  | expose
  | env
  | add
  | copy
  | entrypoint
  | volume
  | user
  | workdir
  | arg
  | onbuild
  | stopSignal
  | healthCheck
  | shell
  | comment
  deriving DecidableEq

namespace Kind

/-- The name of a kind; for all but comments it is the keyword. -/
def name : Kind → Text
  | base => "FROM".toList
  | run => "RUN".toList
  | cmd => "CMD".toList
  | label => "LABEL".toList
  | maintainer => "MAINTAINER".toList
  | expose => "EXPOSE".toList
  | env => "ENV".toList
  | add => "ADD".toList
  | copy => "COPY".toList
  | entrypoint => "ENTRYPOINT".toList
  | volume => "VOLUME".toList
  | user => "USER".toList
  | workdir => "WORKDIR".toList
  | arg => "ARG".toList
  | onbuild => "ONBUILD".toList
  | stopSignal => "STOPSIGNAL".toList
  | healthCheck => "HEALTHCHECK".toList
  | shell => "SHELL".toList
  | comment => "COMMENT".toList

/-- All kinds, in the order of reports. -/
def all : List Kind :=
  [base, run, cmd, label, maintainer, expose, env, add, copy, entrypoint, volume, user, workdir,
    arg, onbuild, stopSignal, healthCheck, shell, comment]

/-- Whether an instruction of this kind may wait in ONBUILD for a later build. -/
def isDeferrable : Kind → Bool
  | base | maintainer | onbuild | comment => false
  | _ => true

theorem mem_all (k : Kind) : k ∈ all := by cases k <;> decide

end Kind

/-- A command to build with, and its flags as written. -/
structure RunCommand where
  arguments : Arguments
  flags : List Text
  deriving DecidableEq

/-- The command as one line. -/
def RunCommand.command (r : RunCommand) : Text := r.arguments.command

/-- An instruction. -/
inductive Instruction where
  /-- FROM: a stage begins with an image. -/
  | base (image : BaseImage)
  /-- RUN. -/
  | run (command : RunCommand)
  /-- CMD: the default command. -/
  | cmd (arguments : Arguments)
  /-- LABEL. -/
  | label (pairs : List Pair)
  /-- MAINTAINER. -/
  | maintainer (names : List Text)
  /-- EXPOSE. -/
  | expose (ports : List Port)
  /-- ENV. -/
  | env (pairs : List Pair)
  /-- ADD. -/
  | add (transfer : Transfer)
  /-- COPY. -/
  | copy (transfer : Transfer)
  /-- ENTRYPOINT. -/
  | entrypoint (arguments : Arguments)
  /-- VOLUME. -/
  | volume (paths : List Text)
  /-- USER. -/
  | user (owner : Owner)
  /-- WORKDIR. -/
  | workdir (path : Text)
  /-- ARG: a name, and its default if it has one. -/
  | arg (name : Text) (default : Option Text)
  /-- ONBUILD: an instruction for a later build. -/
  | onbuild (inner : Instruction)
  /-- STOPSIGNAL. -/
  | stopSignal (signal : Text)
  /-- HEALTHCHECK. -/
  | healthCheck (check : HealthCheck)
  /-- SHELL: the shell to run lines with. -/
  | shell (items : List Text)
  /-- A comment. -/
  | comment (text : Text)
  deriving DecidableEq

namespace Instruction

/-- The kind of an instruction. -/
def kind : Instruction → Kind
  | base _ => .base
  | run _ => .run
  | cmd _ => .cmd
  | label _ => .label
  | maintainer _ => .maintainer
  | expose _ => .expose
  | env _ => .env
  | add _ => .add
  | copy _ => .copy
  | entrypoint _ => .entrypoint
  | volume _ => .volume
  | user _ => .user
  | workdir _ => .workdir
  | arg _ _ => .arg
  | onbuild _ => .onbuild
  | stopSignal _ => .stopSignal
  | healthCheck _ => .healthCheck
  | shell _ => .shell
  | comment _ => .comment

end Instruction

end ImageAudit
