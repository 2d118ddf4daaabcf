import ImageAudit.Shell.Token

/-!
# Commands and package managers

Control operators part a line into simple commands. A command calls a package manager if one of its
words names one; what the call does is decided by the first word after it that is a command of the
manager's for installing or removing.

* `splitCommands` gives the simple commands of a row of tokens, `commands` those of a line.
* `packageCall?` finds the package manager a command calls, `packageCalls` all calls of a line.
-/

namespace ImageAudit.Shell

open Text

/-! ## Commands -/

/-- The command in progress at the front of a row of tokens, and those after it. -/
def splitCommandsFrom : List Token → List Text × List (List Text)
  | [] => ([], [])
  | .word w :: ts =>
    let (c, cs) := splitCommandsFrom ts
    (w :: c, cs)
  | .operator _ :: ts =>
    let (c, cs) := splitCommandsFrom ts
    ([], if c.isEmpty then cs else c :: cs)

/-- The runs of words between operators that are not empty. -/
def splitCommands (ts : List Token) : List (List Text) :=
  let (c, cs) := splitCommandsFrom ts
  if c.isEmpty then cs else c :: cs

/-- The simple commands of a line. -/
def commands (t : Text) : Except Fault (List (List Text)) := (tokenize t).map splitCommands

/-! ## Words of a command -/

/-- Whether a word is a flag: one or two hyphens and something else, without white space. -/
def isFlag (w : Text) : Bool :=
  w.head? == some '-' && 2 ≤ w.length && w.tail.all fun c => !isSpace c

/-- The name of a package argument: what stands before a version. -/
def packageName (w : Text) : Text :=
  match cut '=' w with
  | some (name, _) => name
  | none => w

/-! ## Package managers -/

/-- The package managers that are known. -/
inductive PackageManager where
  | aptGet
  | apt
  | dnf
  | yum
  | apk
  deriving DecidableEq

namespace PackageManager

/-- All of them. -/
def all : List PackageManager := [aptGet, apt, dnf, yum, apk]

/-- The name of the program. -/
def name : PackageManager → Text
  | aptGet => "apt-get".toList
  | apt => "apt".toList
  | dnf => "dnf".toList
  | yum => "yum".toList
  | apk => "apk".toList

/-- The package manager of a name. -/
def ofName? (w : Text) : Option PackageManager := all.find? fun m => m.name == w

/-- The words that install packages. -/
def installWords : PackageManager → List Text
  | apk => ["add".toList]
  | _ => ["install".toList]

/-- The words that remove packages. -/
def removeWords : PackageManager → List Text
  | aptGet | apt => ["remove".toList, "purge".toList]
  | dnf => ["remove".toList, "autoremove".toList]
  | yum => ["remove".toList, "erase".toList, "autoremove".toList]
  | apk => ["del".toList]

end PackageManager

/-- What a call does to the packages it names. -/
inductive PackageAction where
  | install
  | remove
  deriving DecidableEq

/-- A call of a package manager; without an action it does neither. -/
structure PackageCall where
  manager : PackageManager
  action : Option PackageAction
  packages : List Text
  deriving DecidableEq

/-- What a word tells a package manager to do. -/
def actionOf? (m : PackageManager) (w : Text) : Option PackageAction :=
  if isFlag w then none
  else if m.installWords.contains w then some .install
  else if m.removeWords.contains w then some .remove
  else none

/-- The packages among the arguments of a call. -/
def packagesOf (ws : List Text) : List Text :=
  ((ws.filter fun w => !isFlag w).map packageName).filter fun p => !p.isEmpty

/-- The call made with the words after the manager's name. -/
def callOf (m : PackageManager) : List Text → PackageCall
  | [] => ⟨m, none, []⟩
  | w :: ws =>
    match actionOf? m w with
    | some action => ⟨m, some action, packagesOf ws⟩
    | none => callOf m ws

/-- The package manager a command calls. -/
def packageCall? : List Text → Option PackageCall
  | [] => none
  | w :: ws =>
    match PackageManager.ofName? w with
    | some m => some (callOf m ws)
    | none => packageCall? ws

/-- The calls of package managers in a line, in order. -/
def packageCalls (t : Text) : Except Fault (List PackageCall) :=
  (commands t).map fun cs => cs.filterMap packageCall?

end ImageAudit.Shell
