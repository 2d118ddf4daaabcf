import ImageAudit.Dockerfile.View
import ImageAudit.Shell.Command

/-!
# Installed packages

Which packages the calls of package managers in RUN statements leave installed.

* `packageEvents` are the calls in order, each with its statement; a line whose quotation marks are
  not closed has none.
* `installer?` is the statement that installs a package first, unless any call removes it.
-/

namespace ImageAudit

open Text Shell

/-- A call of a package manager and the statement it stands in. -/
abbrev PackageEvent := PackageCall × Located RunCommand

/-- Whether a call does this to a package. -/
def Shell.PackageCall.does (action : PackageAction) (package : Text) (c : PackageCall) : Bool :=
  c.action == some action && c.packages.contains package

/-- The calls of package managers in a command; a line whose quotation marks are not closed has
none. -/
def RunCommand.calls (c : RunCommand) : List PackageCall :=
  match packageCalls c.command with
  | .ok calls => calls
  | .error _ => []

/-- The calls of package managers in RUN statements, in order. -/
def packageEvents (runs : List (Located RunCommand)) : List PackageEvent :=
  runs.flatMap fun run => run.item.calls.map fun call => (call, run)

/-- The statement that installs a package first, unless some call removes the package. -/
def installer? (events : List PackageEvent) (package : Text) : Option (Located RunCommand) :=
  if events.any fun e => e.1.does .remove package then none
  else (events.find? fun e => e.1.does .install package).map (·.2)

end ImageAudit
