import ImageAudit.CommandLine.Run
import ImageAudit.FileTree
import Std.Time.Format

/-!
# The program

Everything that depends on the outside: the files a call may look at are read into a file tree, the
call is carried out, and what it comes to is shown and written. What cannot be looked at is kept in
the tree with its fault. Whether something can be shown or written is only known by trying, so a
call is carried out again with each fault that is met.
-/

namespace ImageAudit

open Text

/-! ## Reading the disk -/

/-- A fault in the words of the system. -/
def systemFault (code : UInt32) (reason : String) : FileFault :=
  .other (reason.toList ++ " (os error ".toList ++ decimal code.toNat ++ [')'])

/-- The fault an error on disk tells of. -/
def faultOf : IO.Error → FileFault
  | .noFileOrDirectory .. => .missing
  | .permissionDenied _ code reason => systemFault code reason
  | .inappropriateType _ code reason => systemFault code reason
  | .invalidArgument _ code reason => systemFault code reason
  | .resourceExhausted _ code reason => systemFault code reason
  | .otherError code reason => systemFault code reason
  | e => .other (toString e).toList

/-- What is on disk at a path; the entries of a directory are left out. -/
def loadEntry (path : Text) : IO FileTree := do
  try
    let real ← IO.FS.realPath (String.ofList path)
    if ← real.isDir then return .empty
    let bytes ← IO.FS.readBinFile real
    return .file ((String.fromUTF8? bytes).map String.toList)
  catch e => return .barred (faultOf e)

/-- Whether nothing is on disk, as far as can be told without looking at the directory. -/
def isAbsent : FileTree → Bool
  | .barred .missing => true
  | _ => false

/-- Adds what a path passes through to a tree. A path that is `listed` in its directory is there
even if it leads nowhere. -/
def loadPath (listed : Bool) (t : FileTree) (path : Text) : IO FileTree := do
  let mut tree := if Path.isAbsolute path && (t.find? [FileTree.root]).isNone then
    FileTree.put .empty [FileTree.root] t else t
  let mut place := if Path.isAbsolute path then [FileTree.root] else []
  let mut followed : Text := []
  for name in pieces '/' path do
    followed := followed ++ name
    match tree.step place name with
    | .ok next => place := next
    | .error .missing =>
      let entry ← loadEntry followed
      if isAbsent entry && !listed then return tree
      place := place ++ [name]
      tree := FileTree.put entry place tree
    | .error _ => return tree
    followed := followed ++ ['/']
  return tree

/-- The paths of the entries of a directory on disk. -/
def entryPaths (path : Text) : IO (List Text) := do
  try
    let real ← IO.FS.realPath (String.ofList path)
    if ← real.isDir then
      return (← real.readDir).toList.map fun e => Path.under path e.fileName.toList
    return []
  catch _ => return []

/-- The directory of the user's settings. -/
def configDirectory : IO (Option Text) := do
  match ← IO.getEnv "XDG_CONFIG_HOME" with
  | some d => return some d.toList
  | none => return (← IO.getEnv "HOME").map fun d => Path.under d.toList ".config".toList

/-- The date of a report. -/
def reportDate : IO Text := do
  let now ← Std.Time.PlainDateTime.now
  return (now.format "uuuu-MM-dd HH:mm").toList

/-- The files a call may look at. -/
def loadFiles (config : Option Text) (o : Options) : IO FileTree := do
  let named := Policy.usualPaths config ++ o.policy.toList ++ o.template.toList ++
    [o.dockerfile, o.jsonPath, o.reportPath]
  let tree ← named.foldlM (loadPath false) FileTree.empty
  (← entryPaths o.dockerfile).foldlM (loadPath true) tree

/-! ## Carrying calls out -/

/-- Shows a text, and says why if that fails. -/
def showText (t : Text) : IO (Option Text) := do
  try
    IO.print (String.ofList t)
    (← IO.getStdout).flush
    return none
  catch e => return some (toString e).toList

/-- Writes the file at a path if a run has changed it, and says why if that fails. -/
def saveChange (before after : FileTree) (path : Text) : IO (Option FileFault) := do
  match after.read path with
  | .error _ => return none
  | .ok text =>
    if (before.read path).toOption == some text then return none
    try
      IO.FS.writeFile (String.ofList path) (String.ofList text)
      return none
    catch e => return some (faultOf e)

/-- File trees where some paths are known not to be open to writing. -/
def refusing (faults : List (Text × FileFault)) : Files FileTree :=
  { FileTree.files with
    write := fun t path text =>
      match faults.lookup path with
      | some f => (some f, t)
      | none => t.write path text }

/-- Carries options out on the files on disk. -/
def runOptions (o : Options) : IO (Option (Run FileTree)) := do
  let config ← configDirectory
  let before ← loadFiles config o
  let surroundings : Surroundings := ⟨← (← IO.getStdout).isTty, ← reportDate, config⟩
  let run (faults : List (Text × FileFault)) (fault : Option Text) :=
    Run.ofOptionsWith Toolkit.own (refusing faults) fault surroundings o before
  match run [] none with
  | none => return none
  | some planned =>
    let fault ← showText planned.output
    let mut faults := []
    for path in [o.jsonPath, o.reportPath] do
      match run faults fault with
      | none => return none
      | some r =>
        match ← saveChange before r.files path with
        | none => pure ()
        | some f => faults := (path, f) :: faults
    return run faults fault

/-- The exit code of a call that breaks off. -/
def brokenCode : UInt32 := 134

end ImageAudit

open ImageAudit in
/-- Carries a call out and gives its exit code. -/
def main (arguments : List String) : IO UInt32 := do
  match Options.read (arguments.map String.toList) with
  | .error u =>
    IO.print (String.ofList (Run.usageText u))
    IO.eprintln (String.ofList u.message)
    return u.exitCode.toUInt32
  | .ok o =>
    match ← runOptions o with
    | none =>
      IO.eprintln "reading a file has broken off"
      return brokenCode
    | some run =>
      match run.error with
      | some e => IO.eprintln (String.ofList ("Error: ".toList ++ e.message))
      | none => pure ()
      return run.exitCode.toUInt32
