import ImageAudit.Text.Blank

/-!
# One instruction per line

The first part of laying out a recipe: `arrange` brings each instruction on one line, without
comment lines, empty lines or superfluous blanks.

* `unifyBreaks` makes every line end in a line feed alone.
* `joinContinuations` puts one space for a backslash at the end of a line, the line break and all
  blank lines after it.
* `dropComments` leaves out the lines that begin with a number sign.
* `squeeze` takes blanks off the ends of lines and makes one space of several.
-/

namespace ImageAudit.Layout

open Text

/-- Writes a line feed for each carriage return with a line feed after it. -/
def unifyBreaks : Text → Text
  | [] => []
  | '\r' :: '\n' :: r => '\n' :: unifyBreaks r
  | c :: r => c :: unifyBreaks r

/-! ## Continuations -/

/-- What may stand between a backslash and the end of its line: space, tab, carriage return. -/
def isFiller (c : Char) : Bool := c == ' ' || c == '\t' || c == '\r'

/-- Fillers and line feeds: what a continuation passes over. -/
def isPassedOver (c : Char) : Bool := isFiller c || c == '\n'

/-- Whether a backslash with `r` after it ends its line. -/
def endsLine (r : Text) : Bool := (r.dropWhile isFiller).head? == some '\n'

/-- Joins continued lines. With `passing`, everything up to the next line's first character
belongs to a continuation that has been written already. -/
def joinContinuationsFrom : (passing : Bool) → Text → Text
  | _, [] => []
  | passing, c :: r =>
    if passing && isPassedOver c then joinContinuationsFrom true r
    else if c == '\\' && endsLine r then ' ' :: joinContinuationsFrom true r
    else c :: joinContinuationsFrom false r

/-- Joins continued lines: one space stands for the backslash and all it passes over. -/
def joinContinuations (t : Text) : Text := joinContinuationsFrom false t

/-! ## Comments and blanks -/

/-- Whether the first character of a line that is no white space is a number sign. -/
def isComment (line : Text) : Bool := (trimStart line).head? == some '#'

/-- Leaves comment lines out. -/
def dropComments (t : Text) : Text := unlines ((lines t).filter fun l => !isComment l)

/-- Makes one space of each run of spaces. -/
def squeezeSpaces : Text → Text
  | [] => []
  | c :: r => if c == ' ' && r.head? == some ' ' then squeezeSpaces r else c :: squeezeSpaces r

/-- Takes blanks off the ends of each line, leaves empty lines out and makes one space of each run
of spaces. -/
def squeeze (t : Text) : Text :=
  unlines ((((lines t).map trimBlanks).filter fun l => !l.isEmpty).map squeezeSpaces)

/-- One instruction per line: continuations joined, comments left out, blanks squeezed. -/
def arrange (t : Text) : Text := squeeze (dropComments (joinContinuations (unifyBreaks t)))

end ImageAudit.Layout
