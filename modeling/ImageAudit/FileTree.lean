import ImageAudit.Files

/-!
# File trees

Files that are held in memory. A file tree holds what paths lead to: a directory has entries with
names, a file has a text unless its bytes are none, and some things cannot be looked at. A tree is
seen from a directory, where relative paths begin; it may have an entry named `..` for the directory
above and one named `/` for the root.

* `FileTree.look` is what a path leads to.
* `FileTree.files` are file trees as a system of files.
-/

namespace ImageAudit

open Text

/-- What a path leads to. -/
inductive FileTree where
  | file (content : Option Text)
  | directory (entries : List (Text × FileTree))
  /-- What is there, but cannot be looked at; where that is because it is missing, it is a link that
  leads nowhere. -/
  | barred (fault : FileFault)

namespace FileTree

/-- A directory without entries. -/
def empty : FileTree := directory []

/-- The entries of a directory; nothing else has any. -/
def entries : FileTree → List (Text × FileTree)
  | directory es => es
  | _ => []

/-- What is at a place: the names lead from directory to directory. -/
def find? : (place : List Text) → FileTree → Option FileTree
  | [], t => some t
  | n :: ns, directory es => (es.lookup n).bind (find? ns)
  | _ :: _, _ => none

/-- Puts something at a place, in new directories if there are none. -/
def put (x : FileTree) : (place : List Text) → FileTree → FileTree
  | [], _ => x
  | n :: ns, t =>
    directory ((n, put x ns ((t.entries.lookup n).getD empty)) ::
      t.entries.filter fun e => e.1 != n)

/-! ## Following paths -/

/-- The name of the directory above. -/
def up : Text := ['.', '.']

/-- The name under which the root of all directories is kept. -/
def root : Text := ['/']

/-- Whether the way up from a place is an entry of its own: there is nothing to go back to. -/
def climbs (place : List Text) : Bool := place.getLast?.all (· == up)

/-- Follows a name from a place. -/
def step (t : FileTree) (place : List Text) (name : Text) : Except FileFault (List Text) :=
  match t.find? place with
  | none => .error .missing
  | some (barred f) => .error f
  | some (file _) => .error .notADirectory
  | some (directory es) =>
    if name.isEmpty || name == ['.'] then .ok place
    else if name == up && place == [root] then .ok place
    else if name == up && !climbs place then .ok place.dropLast
    else if 255 < byteLength name then .error .nameTooLong
    else if (es.lookup name).isSome then .ok (place ++ [name])
    else .error .missing

/-- The place where a path begins. -/
def origin (t : FileTree) (path : Text) : Except FileFault (List Text) :=
  if path.contains '\x00' then .error .nulInName
  else if path.isEmpty then .error .missing
  else if 4096 ≤ byteLength path then .error .nameTooLong
  else if Path.isAbsolute path then t.step [] root
  else .ok []

/-- The place a path leads to. -/
def resolve (t : FileTree) (path : Text) : Except FileFault (List Text) := do
  let start ← t.origin path
  (pieces '/' path).foldlM t.step start

/-- What a path leads to. -/
def look (t : FileTree) (path : Text) : Except FileFault FileTree := do
  let place ← t.resolve path
  match t.find? place with
  | some (barred f) => .error f
  | some x => .ok x
  | none => .error .missing

/-- Whether a path leads to a directory. -/
def isDirectory (t : FileTree) (path : Text) : Bool :=
  match t.look path with
  | .ok (directory _) => true
  | _ => false

/-- Whether a path leads to a file. -/
def isFile (t : FileTree) (path : Text) : Bool :=
  match t.look path with
  | .ok (file _) => true
  | _ => false

/-! ## Reading -/

/-- The text of the file a path leads to. -/
def read (t : FileTree) (path : Text) : Except FileFault Text := do
  match ← t.look path with
  | file (some text) => .ok text
  | file none => .error .notText
  | directory _ => .error .isADirectory
  | barred f => .error f

/-- Whether an entry is in its directory, and not kept there for the way up or the root. -/
def isInside (name : Text) : Bool := name != up && name != root

/-- The names of the entries of the directory a path leads to. -/
def scan (t : FileTree) (path : Text) : List (Except FileFault Text) :=
  match t.look path with
  | .ok x => ((x.entries.map (·.1)).filter isInside).map .ok
  | .error f => [.error f]

/-! ## Writing -/

/-- The pieces of a path before the last name, that name, and whether a slash follows it. -/
def splitLast (path : Text) : List Text × Text × Bool :=
  let ps := (pieces '/' path).reverse
  match ps.dropWhile List.isEmpty with
  | [] => ([], [], true)
  | last :: before => (before.reverse, last, ps.head? == some [])

/-- The place where a file is written: its directory has to be there, and it must not be a directory
itself. -/
def target (t : FileTree) (path : Text) : Except FileFault (List Text) := do
  let start ← t.origin path
  let (before, last, slashed) := splitLast path
  let place ← before.foldlM t.step start
  match t.find? place with
  | some (directory es) =>
    if slashed || last == ['.'] || last == up then .error .isADirectory
    else if 255 < byteLength last then .error .nameTooLong
    else
      match es.lookup last with
      | some (directory _) => .error .isADirectory
      | some (barred f) => if f = .missing then .ok (place ++ [last]) else .error f
      | _ => .ok (place ++ [last])
  | some (file _) => .error .notADirectory
  | some (barred f) => .error f
  | none => .error .missing

/-- Writes a file. Nothing changes if that fails. -/
def write (t : FileTree) (path text : Text) : Option FileFault × FileTree :=
  match t.target path with
  | .ok place => (none, put (file (some text)) place t)
  | .error f => (some f, t)

/-- File trees as a system of files. -/
def files : Files FileTree := ⟨isDirectory, isFile, read, scan, write⟩

end FileTree

end ImageAudit
