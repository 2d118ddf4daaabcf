import ImageAudit.Layout.Lines
import ImageAudit.Text.Quote

/-!
# Variables

Variables are set by ENV lines, in the older form with one name and a value that runs to the end of
the line, or in the form with any number of assignments.

* `Variables` is an association list in order of first assignment; `Variables.assign` overwrites in
  place and leaves values alone that could not be put into a line as they are.
* `variablesOf` gathers all assignments of a text: those of the older form first.
-/

namespace ImageAudit

open Text

/-- Names with their values, each name once, in order of first assignment. -/
abbrev Variables := List (Text × Text)

namespace Variables

/-- The value of a name. -/
def value? (vars : Variables) (name : Text) : Option Text :=
  (vars.find? fun v => v.1 == name).map (·.2)

/-- Sets a name: in place if it is there already, else at the end. -/
def put (name value : Text) : Variables → Variables
  | [] => [(name, value)]
  | v :: vars => if v.1 == name then (v.1, value) :: vars else v :: put name value vars

end Variables

namespace Layout

/-- Whether two spaces stand side by side. -/
def hasDoubleSpace : Text → Bool
  | ' ' :: ' ' :: _ => true
  | _ :: r => hasDoubleSpace r
  | [] => false

/-- The characters that would make a reference or a continuation of the text they are put into. -/
def isActive (c : Char) : Bool := c == '$' || c == '\\' || c == '{' || c == '}'

/-- Whether a value can be put into a line as it is: it is not empty, refers to nothing, and laying
out the line again would not change it. -/
def isInsertable (value : Text) : Bool :=
  !value.isEmpty && !value.any isActive && !value.any isControl &&
    !(value.head? == some ' ') && !(value.getLast? == some ' ') && !hasDoubleSpace value

/-- Sets a name, unless its value is not insertable. -/
def assign (vars : Variables) (name value : Text) : Variables :=
  if isInsertable value then vars.put name value else vars

/-! ## The two forms of ENV -/

/-- What follows `ENV` and one space at the beginning of a line. -/
def envBody? (line : Text) : Option Text := dropWord? "ENV ".toList line

/-- Whether a line sets variables. -/
def isEnvLine (line : Text) : Bool := (envBody? line).isSome

/-- The characters of a name: no white space and no equals sign. -/
def isNameChar (c : Char) : Bool := !isSpace c && c != '='

/-- The name and the value of a line in the older form. -/
def olderAssignment? (line : Text) : Option (Text × Text) := do
  let body ← envBody? line
  let name := body.takeWhile isNameChar
  match body.dropWhile isNameChar with
  | ' ' :: c :: value => if name.isEmpty then none else some (name, c :: value)
  | _ => none

/-- The assignments of a line in the newer form, still as one text. -/
def newerAssignments? (line : Text) : Option Text := do
  let body ← envBody? line
  if (body.takeWhile isNameChar).isEmpty then none
  else if (body.dropWhile isNameChar).head? == some '=' then some body
  else none

/-! ## Quotes -/

/-- The assignment in progress at the front of a text, and those after it. Blanks part assignments
unless they are quoted or follow a backslash. -/
def assignmentsFrom : (quote : Option Char) → Text → Text × List Text
  | _, [] => ([], [])
  | _, ['\\'] => (['\\'], [])
  | quote, '\\' :: c :: r =>
    let (a, rest) := assignmentsFrom quote r
    ('\\' :: c :: a, rest)
  | quote, c :: r =>
    let (a, rest) := assignmentsFrom (toggleQuote quote c) r
    if isBlank c && quote.isNone then ([], if a.isEmpty then rest else a :: rest)
    else (c :: a, rest)

/-- Splits `a=b c="d e"` into its assignments. -/
def assignments (t : Text) : List Text :=
  let (a, rest) := assignmentsFrom none t
  if a.isEmpty then rest else a :: rest

/-- Takes quotation marks off and, outside single quotes, the backslash before any character. -/
def unquoteFrom : (quote : Option Char) → Text → Text
  | _, [] => []
  | quote, [c] => if toggleQuote quote c != quote then [] else [c]
  | quote, c :: d :: r =>
    if c == '\\' && quote != some singleQuote then d :: unquoteFrom quote r
    else if toggleQuote quote c != quote then unquoteFrom (toggleQuote quote c) (d :: r)
    else c :: unquoteFrom quote (d :: r)

/-- Takes quotation marks and escaping backslashes off a value. -/
def unquote (t : Text) : Text := unquoteFrom none t

/-! ## Gathering -/

/-- Takes over the assignment of a line in the older form. -/
def assignOlder (vars : Variables) (line : Text) : Variables :=
  match olderAssignment? line with
  | some (name, value) => assign vars name (unquote (trim value))
  | none => vars

/-- Takes over one assignment of the newer form. -/
def assignOne (vars : Variables) (assignment : Text) : Variables :=
  match cut '=' assignment with
  | some (name, value) => if name.isEmpty then vars else assign vars name (unquote value)
  | none => vars

/-- Takes over the assignments of a line in the newer form. -/
def assignNewer (vars : Variables) (line : Text) : Variables :=
  match newerAssignments? line with
  | some body => (assignments body).foldl assignOne vars
  | none => vars

/-- The variables a text sets: all lines of the older form first, then those of the newer one. -/
def variablesOf (t : Text) : Variables :=
  let ls := pieces '\n' t
  ls.foldl assignNewer (ls.foldl assignOlder [])

end Layout

end ImageAudit
