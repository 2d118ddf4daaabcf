import ImageAudit.Instruction.Reader

/-!
# Statements

A recipe is read in logical lines: a backslash at the end of a line continues it on the next one,
and blank and comment lines in between are passed over. Each logical line that is not blank is one
statement: an instruction, the number of its first physical line and its text.

* `logicalLines` cuts a text into logical lines.
* `Statement.readAll` reads the statements of a text; the first line that cannot be read decides
  the error.
-/

namespace ImageAudit

open Text

/-- An instruction with its place in the text. -/
structure Statement where
  instruction : Instruction
  /-- The number of its first line. It has no bound here, and 32 bits hold it where they hold the
  number of all lines: `Statement.toNat_toUInt32_line`. -/
  line : Nat
  text : Text
  deriving DecidableEq

/-- The kind of a statement's instruction. -/
def Statement.kind (s : Statement) : Kind := s.instruction.kind

/-! ## Logical lines -/

/-- A logical line: the number of its first physical line, and its text. -/
structure LogicalLine where
  line : Nat
  text : Text
  deriving DecidableEq

/-- What stands before a backslash at the end of a line. -/
def continued? (line : Text) : Option Text := (dropSuffix? ['\\'] line).map trimEnd

/-- The logical line that is complete, unless it is blank. -/
def LogicalLine.finish (l : LogicalLine) : List LogicalLine :=
  if (trim l.text).isEmpty then [] else [⟨l.line, trim l.text⟩]

/-- Whether a line, without white space at its ends, is a comment. -/
def startsComment (line : Text) : Bool := line.head? == some '#'

/-- The logical lines from physical line `n` on. A line that is continued is
`pending`. -/
def logicalLinesFrom : (n : Nat) → (pending : Option LogicalLine) → List Text → List LogicalLine
  | _, none, [] => []
  | _, some p, [] => p.finish
  | n, none, l :: ls =>
    if startsComment (trim l) then ⟨n, trim l⟩ :: logicalLinesFrom (n + 1) none ls
    else
      match continued? (trim l) with
      | some head => logicalLinesFrom (n + 1) (some ⟨n, head ++ [' ']⟩) ls
      | none => LogicalLine.finish ⟨n, trim l⟩ ++ logicalLinesFrom (n + 1) none ls
  | n, some p, l :: ls =>
    if (trim l).isEmpty || startsComment (trim l) then logicalLinesFrom (n + 1) (some p) ls
    else
      match continued? (trim l) with
      | some head => logicalLinesFrom (n + 1) (some ⟨p.line, p.text ++ (head ++ [' '])⟩) ls
      | none => LogicalLine.finish ⟨p.line, p.text ++ trim l⟩ ++ logicalLinesFrom (n + 1) none ls

/-- The logical lines of a text. -/
def logicalLines (t : Text) : List LogicalLine := logicalLinesFrom 1 none (lines t)

/-! ## Reading -/

/-- Why a logical line is no instruction. -/
inductive LineFault where
  /-- Its first word is no keyword. -/
  | unknownInstruction (word : Text)
  /-- It does not have the form its keyword asks for. -/
  | malformedInstruction (keyword line : Text)
  deriving DecidableEq

/-- What is said of a fault. -/
def LineFault.message : LineFault → Text
  | unknownInstruction word => "unknown instruction: ".toList ++ word
  | malformedInstruction keyword line =>
    "malformed ".toList ++ keyword ++ " directive: ".toList ++ line

/-- Whether a word in upper case is the keyword of an instruction. -/
def isKeyword (word : Text) : Bool :=
  (Kind.all.filter (· != .comment)).any fun k => k.name == word

/-- Why a line that is no instruction is none. -/
def LineFault.ofLine (line : Text) : LineFault :=
  let word := (firstWord line).map Char.toUpper
  if isKeyword word then malformedInstruction word line else unknownInstruction word

/-- Reads a logical line. -/
def readLine (line : Text) : Except LineFault Instruction :=
  match Instruction.readLine? line with
  | some i => .ok i
  | none => .error (LineFault.ofLine line)

/-- Why a recipe cannot be read. -/
inductive ReadError where
  /-- The path leads to no readable text. -/
  | notADockerfile (path reason : Text)
  /-- The text holds nothing but comments and blanks. -/
  | emptyFile (path : Text)
  /-- A line is no instruction. -/
  | malformed (line : Nat) (message : Text)
  deriving DecidableEq

namespace ReadError

/-- The name of the sort of error. -/
def kind : ReadError → Text
  | notADockerfile .. => "not-a-dockerfile".toList
  | emptyFile _ => "empty-file".toList
  | malformed .. => "malformed".toList

/-- What is said of an error. -/
def message : ReadError → Text
  | notADockerfile path reason => path ++ " is not a readable Dockerfile: ".toList ++ reason
  | emptyFile path => path ++ " is empty".toList
  | malformed line message => "line ".toList ++ decimal line ++ ": ".toList ++ message

end ReadError

namespace Statement

/-- Reads a logical line with its place. -/
def read (l : LogicalLine) : Except ReadError Statement :=
  match readLine l.text with
  | .ok i => .ok ⟨i, l.line, l.text⟩
  | .error fault => .error (.malformed l.line fault.message)

/-- Reads logical lines; the first that fails decides. -/
def readLines : List LogicalLine → Except ReadError (List Statement)
  | [] => .ok []
  | l :: ls =>
    match read l with
    | .error e => .error e
    | .ok s =>
      match readLines ls with
      | .error e => .error e
      | .ok ss => .ok (s :: ss)

/-- Reads the statements of a text. -/
def readAll (t : Text) : Except ReadError (List Statement) := readLines (logicalLines t)

end Statement

end ImageAudit
