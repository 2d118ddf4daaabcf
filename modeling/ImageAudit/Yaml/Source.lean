import ImageAudit.Text.Blank

/-!
# YAML sources

A YAML text is scanned as a list of characters with their places, the last of which is a mark for
the end. Line breaks are made uniform beforehand.

* `Source.ofText?` prepares a text; it fails on characters that YAML does not admit.
-/

namespace ImageAudit.Yaml

open Text

/-! ## Characters -/

/-- The character that stands for the end of the text, which no text contains. -/
def endMark : Char := '\x00'

/-- Whether a character may occur in a text. -/
def isAllowed (c : Char) : Bool :=
  let n := c.toNat
  n == 0x09 || n == 0x0A || n == 0x0D || (0x20 ≤ n && n ≤ 0x7E) || n == 0x85 ||
    (0xA0 ≤ n && n ≤ 0xFFFD && n != 0xFEFF) || 0x10000 ≤ n

/-- Whether a character is a line break, once breaks are uniform. -/
def isBreak (c : Char) : Bool := c == '\n' || c == '\u2028' || c == '\u2029'

/-- Whether a character is a break or the end. -/
def isBreakOrEnd (c : Char) : Bool := isBreak c || c == endMark

/-- Whether a character is a blank, a break or the end. -/
def isGapOrEnd (c : Char) : Bool := isBlank c || isBreakOrEnd c

/-- Whether a character may be in the name of an anchor or of a tag's handle. -/
def isNameChar (c : Char) : Bool := c.isAlphanum || c == '_' || c == '-'

/-- Makes line breaks line feeds; only the line and paragraph separators stay as they are. -/
def unifyBreaks : Text → Text
  | [] => []
  | ['\r'] => ['\n']
  | '\r' :: d :: r => if d = '\n' then '\n' :: unifyBreaks r else '\n' :: unifyBreaks (d :: r)
  | c :: r => (if c = '\u0085' then '\n' else c) :: unifyBreaks r

/-! ## Places -/

/-- A character with its place; lines and columns are counted from zero. -/
structure Placed where
  char : Char
  line : Nat
  column : Nat
  /-- The number of characters before it. -/
  index : Nat

/-- The rest of a text from a place on. -/
abbrev Source := List Placed

namespace Source

/-- Gives the characters of a text their places. -/
def place (line column index : Nat) : Text → Source
  | [] => [⟨endMark, line, column, index⟩]
  | c :: r =>
    ⟨c, line, column, index⟩ ::
      (if isBreak c then place (line + 1) 0 (index + 1) r
        else place line (column + 1) (index + 1) r)

/-- The text after a byte order mark, if it begins with one. -/
def dropOrderMark : Text → Text
  | '\ufeff' :: t => t
  | t => t

/-- Prepares a text. -/
def ofText? (t : Text) : Option Source :=
  if (dropOrderMark t).all isAllowed then some (place 0 0 0 (unifyBreaks (dropOrderMark t)))
  else none

/-- The next character. -/
def char (s : Source) : Char := (s.head?.map Placed.char).getD endMark

/-- The source after the next character. -/
def next (s : Source) : Source := s.tail

/-- The source after `n` characters. -/
def ahead (n : Nat) (s : Source) : Source := s.drop n

/-- The character after the next one. -/
def second (s : Source) : Char := s.next.char

/-- The column of the next character. -/
def column (s : Source) : Nat := (s.head?.map Placed.column).getD 0

/-- The line of the next character. -/
def line (s : Source) : Nat := (s.head?.map Placed.line).getD 0

/-- The number of characters before the next one. -/
def index (s : Source) : Nat := (s.head?.map Placed.index).getD 0

/-- Whether everything is read. -/
def atEnd (s : Source) : Bool := s.char == endMark

/-- The characters up to the first that is not of the form `p`, and the rest. -/
def takeRow (p : Char → Bool) (s : Source) : Text × Source :=
  ((s.takeWhile fun x => p x.char).map Placed.char, s.dropWhile fun x => p x.char)

/-- Passes over characters of the form `p`. -/
def skip (p : Char → Bool) (s : Source) : Source := s.dropWhile fun x => p x.char

/-- Passes over a comment that begins here. -/
def skipComment (s : Source) : Source :=
  if s.char == '#' then s.skip fun c => !isBreakOrEnd c else s

/-- Reads the mark three times in a row, with a gap after it. -/
def isTripled (mark : Char) (s : Source) : Bool :=
  s.char == mark && s.second == mark && (s.ahead 2).char == mark && isGapOrEnd (s.ahead 3).char

/-- Whether a line begins here that begins or ends a document. -/
def atDocumentMark (s : Source) : Bool := s.column == 0 && (s.isTripled '-' || s.isTripled '.')

/-- Reads a line break, if there is one. -/
def takeBreak (s : Source) : Text × Source :=
  if isBreak s.char then ([s.char], s.next) else ([], s)

end Source

end ImageAudit.Yaml
