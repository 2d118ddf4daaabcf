import ImageAudit.Text.Basic

/-!
# LaTeX text

A text is written so that no character of it is active in LaTeX, with places between its characters
where a line may break.

* `Latex.escape` writes a text.
-/

namespace ImageAudit.Latex

open Text

/-- The characters that a backslash makes ordinary. -/
def isActive (c : Char) : Bool := "&%$#_\x7b\x7d".toList.contains c

/-- How a character is written. -/
def escapeChar (c : Char) : Text :=
  if c = '\\' then "\\textbackslash\x7b\x7d".toList
  else if c = '~' then "\\textasciitilde\x7b\x7d".toList
  else if c = '^' then "\\textasciicircum\x7b\x7d".toList
  else if isActive c then ['\\', c]
  else [c]

/-- What allows a line break. -/
def lineBreak : Text := "\\allowbreak ".toList

/-- Writes a text, with a break after `room` more characters, and then after every `width`
characters, as long as there are more. -/
def escapeFrom (width : Nat) : (room : Nat) → Text → Text
  | _, [] => []
  | 0, c :: r => lineBreak ++ escapeChar c ++ escapeFrom width (width - 1) r
  | room + 1, c :: r => escapeChar c ++ escapeFrom width room r

/-- Writes a text that may break after every `width` characters, or after every single one if the
width is zero. -/
def escape (t : Text) (width : Nat) : Text := escapeFrom (max width 1) (max width 1) t

end ImageAudit.Latex
