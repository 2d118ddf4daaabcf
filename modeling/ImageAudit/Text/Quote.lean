import ImageAudit.Text.Basic

/-!
# Quotation marks

A text may be read with single and double quotation marks in it: one opens a quoted part, the next
one of the same sort closes it, and the other sort is an ordinary character in between.
-/

namespace ImageAudit.Text

/-- The double quotation mark. -/
abbrev doubleQuote : Char := '\x22'

/-- The single quotation mark. -/
abbrev singleQuote : Char := '\x27'

/-- Whether a character is one of the two quotation marks. -/
def isQuote (c : Char) : Bool := c == doubleQuote || c == singleQuote

/-- The open quotation mark after the character `c`, if there is one. -/
def toggleQuote (quote : Option Char) (c : Char) : Option Char :=
  match quote with
  | none => if isQuote c then some c else none
  | some q => if c == q then none else some q

end ImageAudit.Text
