import ImageAudit.Text.Blank
import ImageAudit.Text.CaseFold
import ImageAudit.Text.WordChar

/-!
# Character sets

The sets of characters that patterns are made of, as expressions: ranges, the classes of digits,
white space and word characters, and the operations on sets.
-/

namespace ImageAudit.Pattern

open Text

/-- The classes that have an escape of their own. -/
inductive CharClass where
  | digit
  | space
  | word
  deriving DecidableEq

/-- Whether a character belongs to a class, of all scripts or of ASCII alone. -/
def CharClass.mem (k : CharClass) (allScripts : Bool) (c : Char) : Bool :=
  match k with
  | digit => if allScripts then isDecimalDigit c else c.isDigit
  | space => if allScripts then isSpace c else isSpace c && c.toNat < 0x80
  | word => if allScripts then isWordChar c else isAsciiWordChar c

/-- A set of characters. -/
inductive CharSet where
  | empty
  | range (lo hi : Char)
  | klass (k : CharClass) (allScripts : Bool)
  | union (a b : CharSet)
  | inter (a b : CharSet)
  | diff (a b : CharSet)
  | symDiff (a b : CharSet)
  | complement (a : CharSet)
  /-- The case variants of all members. -/
  | anyCase (a : CharSet)
  /-- The members, and of ASCII letters both cases. -/
  | anyAsciiCase (a : CharSet)

namespace CharSet

/-- Whether a character is in the set. -/
def mem : CharSet → Char → Bool
  | empty, _ => false
  | range lo hi, c => lo ≤ c && c ≤ hi
  | klass k allScripts, c => k.mem allScripts c
  | union a b, c => a.mem c || b.mem c
  | inter a b, c => a.mem c && b.mem c
  | diff a b, c => a.mem c && !b.mem c
  | symDiff a b, c => a.mem c != b.mem c
  | complement a, c => !a.mem c
  | anyCase a, c => a.mem c || (variants c).any a.mem
  | anyAsciiCase a, c => a.mem c || a.mem c.toLower || a.mem c.toUpper

/-- The set with one member. -/
def single (c : Char) : CharSet := range c c

/-- The union of ranges. -/
def ofRanges (rs : List (Char × Char)) : CharSet :=
  rs.foldr (fun r s => union (range r.1 r.2) s) empty

/-- The ASCII letters and digits. -/
def asciiAlphanumeric : CharSet := ofRanges [('0', '9'), ('A', 'Z'), ('a', 'z')]

end CharSet

end ImageAudit.Pattern
