import ImageAudit.Instruction.Basic
import ImageAudit.Text.Number

/-!
# Reading instructions

An instruction is a keyword, blanks, and a body that each kind reads in its own way.

* `Kind.body?` is what follows the keyword of a kind; the case of the keyword does not matter.
* `Instruction.body?` reads the body of a kind, `Instruction.read?` an instruction of any kind.
  Both also give what they leave over.
* `Instruction.readLine?` reads an instruction with nothing but blanks after it.
-/

namespace ImageAudit

open Text

/-- What follows the keyword of a kind and the blanks after it; of a comment, what follows the
number sign. -/
def Kind.body? (k : Kind) (t : Text) : Option Text :=
  match k with
  | .comment => dropPrefix? ['#'] t
  | k => do
    let r ← dropWord? k.name t
    blanks? r

namespace Instruction

/-! ## The bodies of the kinds -/

/-- The characters of a stage's name. -/
def isStageNameChar (c : Char) : Bool := isAlphanumeric c || c == '_' || c == '-' || c == '.'

/-- Reads `--platform=…` and the blanks after it; if it is not there, nothing is read. -/
def platform (t : Text) : Option Text × Text :=
  match HealthOption.setting? "--platform".toList t with
  | some (p, r) => (some p, r)
  | none => (none, t)

/-- Reads blanks, `AS`, blanks and a name. -/
def stageName? (t : Text) : Option (Text × Text) := do
  let r ← blanks? t
  let r ← dropWord? "AS".toList r
  let r ← blanks? r
  if (r.takeWhile isStageNameChar).isEmpty then none
  else some (r.takeWhile isStageNameChar, r.dropWhile isStageNameChar)

/-- Reads the body of FROM. -/
def readBase? (t : Text) : Option (Instruction × Text) := do
  let (platform, r) := platform t
  let (written, r) ← word? r
  let reference ← ImageReference.read? written
  match stageName? r with
  | some (name, r) => some (base ⟨reference, platform, some name⟩, r)
  | none => some (base ⟨reference, platform, none⟩, r)

/-- The flags RUN may carry. -/
def runFlagNames : List Text := ["--mount".toList, "--network".toList, "--security".toList]

/-- Reads a flag of RUN, kept as written, and the blanks after it. -/
def runFlag? (t : Text) : Option (Text × Text) :=
  runFlagNames.findSome? fun name =>
    (HealthOption.setting? name t).map fun (v, r) => (name ++ '=' :: v, r)

theorem length_lt_of_runFlag? {t f r : Text} (h : runFlag? t = some (f, r)) :
    r.length < t.length := by
  obtain ⟨name, -, h⟩ := List.exists_of_findSome?_eq_some h
  obtain ⟨⟨v, s⟩, h, he⟩ := Option.map_eq_some_iff.1 h
  simp only [Prod.mk.injEq] at he
  rw [← he.2]
  exact HealthOption.length_lt_of_setting? h

/-- Reads flags of RUN as long as there are any. -/
def runFlags (t : Text) : List Text × Text :=
  match _h : runFlag? t with
  | none => ([], t)
  | some (f, r) =>
    let (fs, rest) := runFlags r
    (f :: fs, rest)
termination_by t.length
decreasing_by exact length_lt_of_runFlag? _h

/-- Reads the body of RUN. -/
def readRun? (t : Text) : Option Instruction := do
  let (flags, r) := runFlags t
  let arguments ← Arguments.read? r
  some (run ⟨arguments, flags⟩)

/-- Reads the body of ADD, which cannot copy from another stage. -/
def readAdd? (t : Text) : Option Instruction := do
  let transfer ← Transfer.read? t
  if transfer.flags.source.isSome then none else some (add transfer)

/-- Reads at least one port. -/
def readExpose? (t : Text) : Option Instruction :=
  if (words t).isEmpty then none else ((words t).mapM Port.read?).map expose

/-- Reads a name, and after an equals sign its default. -/
def readArg? (t : Text) : Option Instruction :=
  let (name, default) := match cut '=' (trim t) with
    | some (name, default) => (name, some default)
    | none => (trim t, none)
  if name.isEmpty || name.any isSpace then none else some (arg name default)

/-- Reads at least one path, as an array or as words. -/
def readVolume? (t : Text) : Option Instruction :=
  match Arguments.wholeArray? t with
  | some paths => some (volume paths)
  | none => if (escapedWords t).isEmpty then none else some (volume (escapedWords t))

/-- Reads at least one name; names are parted by commas. -/
def readMaintainer? (t : Text) : Option Instruction :=
  let names := ((pieces ',' t).map trim).filter fun n => !n.isEmpty
  if names.isEmpty then none else some (maintainer names)

/-- Reads an owner. -/
def readUser? (t : Text) : Option (Instruction × Text) := do
  let (w, r) ← word? t
  let owner ← Owner.read? w
  some (user owner, r)

/-- Reads a path. -/
def readWorkdir? (t : Text) : Option Instruction :=
  if (trim t).isEmpty then none else some (workdir (trim t))

/-- An instruction whose body is the whole text. -/
def alone (i : Instruction) : Instruction × Text := (i, [])

/-- Reads the body of an instruction that wraps no other one. -/
def plainBody? (k : Kind) (t : Text) : Option (Instruction × Text) :=
  match k with
  | .base => readBase? t
  | .run => (readRun? t).map alone
  | .cmd => (Arguments.read? t).map fun a => alone (cmd a)
  | .label => (Pair.pairs? t).map fun p => alone (label p)
  | .maintainer => (readMaintainer? t).map alone
  | .expose => (readExpose? t).map alone
  | .env => (Pair.settings? t).map fun p => alone (env p)
  | .add => (readAdd? t).map alone
  | .copy => (Transfer.read? t).map fun x => alone (copy x)
  | .entrypoint => (Arguments.read? t).map fun a => alone (entrypoint a)
  | .volume => (readVolume? t).map alone
  | .user => readUser? t
  | .workdir => (readWorkdir? t).map alone
  | .arg => (readArg? t).map alone
  | .onbuild => none
  | .stopSignal => (word? t).map fun (w, r) => (stopSignal w, r)
  | .healthCheck => (HealthCheck.read? t).map fun h => alone (healthCheck h)
  | .shell => (Arguments.execArray? t).map fun (xs, r) => (shell xs, r)
  | .comment => some (alone (comment (trim t)))

/-! ## Instructions of any kind -/

/-- Reads an instruction that may wait in ONBUILD. -/
def deferred? (t : Text) : Option (Instruction × Text) :=
  (Kind.all.filter Kind.isDeferrable).findSome? fun k => do
    let body ← k.body? t
    plainBody? k body

/-- Reads the body of an instruction. -/
def body? (k : Kind) (t : Text) : Option (Instruction × Text) :=
  match k with
  | .onbuild => (deferred? t).map fun (i, r) => (onbuild i, r)
  | k => plainBody? k t

/-- Reads an instruction of a given kind. -/
def readKind? (k : Kind) (t : Text) : Option (Instruction × Text) := do
  let body ← k.body? t
  body? k body

/-- Reads an instruction. -/
def read? (t : Text) : Option (Instruction × Text) := Kind.all.findSome? fun k => readKind? k t

/-- Reads an instruction with nothing but blanks after it. -/
def readLine? (t : Text) : Option Instruction := do
  let (i, r) ← read? t
  if (skipBlanks r).isEmpty then some i else none

end Instruction

end ImageAudit
