import ImageAudit.Text.Blank
import ImageAudit.Text.Quote

/-!
# Shell tokens

A line for the shell is a row of words and control operators. Words may be quoted in part, as in
the POSIX shell; an operator is one only outside quotes.

* `tokenize` splits a line into tokens; it fails only if a quotation mark is not closed.
-/

namespace ImageAudit.Shell

open Text

/-- A control operator. -/
inductive Operator where
  | background
  | and
  | pipe
  | or
  | sequence
  deriving DecidableEq

/-- How an operator is written. -/
def Operator.text : Operator → Text
  | background => "&".toList
  | and => "&&".toList
  | pipe => "|".toList
  | or => "||".toList
  | sequence => ";".toList

/-- A word without its quotation marks, or an operator. -/
inductive Token where
  | word (text : Text)
  | operator (operator : Operator)
  deriving DecidableEq

/-- Why a line is no row of tokens. -/
inductive Fault where
  /-- The quotation mark is not closed. -/
  | unterminatedQuote (mark : Char)
  deriving DecidableEq

/-- What is said of a fault. -/
def Fault.message : Fault → Text
  | unterminatedQuote mark => "unterminated ".toList ++ mark :: " quote".toList

/-! ## Tokens from the right

The tokens of a text are the word in progress at its front, if there is one, and those after it. -/

/-- The word in progress at the front, and the tokens after it. -/
abbrev Scanned := Option Text × List Token

namespace Scanned

/-- Puts text in front of the word in progress, or begins one with it. -/
def extend (t : Text) (s : Scanned) : Scanned := (some (t ++ s.1.getD []), s.2)

/-- All tokens: the word in progress ends at the front. -/
def tokens (s : Scanned) : List Token :=
  match s.1 with
  | some w => .word w :: s.2
  | none => s.2

/-- Puts white space in front: no word is in progress. -/
def space (s : Scanned) : Scanned := (none, s.tokens)

/-- Puts an operator in front. -/
def operator (op : Operator) (s : Scanned) : Scanned := (none, .operator op :: s.tokens)

end Scanned

/-- How the next character is to be read. -/
inductive Mode where
  | plain
  | single
  | double
  deriving DecidableEq

/-- The characters that a backslash escapes between double quotation marks. -/
def isEscapable (c : Char) : Bool :=
  c == '$' || c == '\x60' || c == doubleQuote || c == '\\' || c == '\n'

/-- The text that an escaped character stands for: a line feed vanishes. -/
def escaped (c : Char) : Text := if c = '\n' then [] else [c]

/-- The operator of a single character. -/
def operator? (c : Char) : Option Operator :=
  if c = '&' then some .background else if c = '|' then some .pipe
  else if c = ';' then some .sequence else none

/-- The operator of a doubled character. -/
def doubled? (c : Char) : Option Operator :=
  if c = '&' then some .and else if c = '|' then some .or else none

/-- Reads the tokens of a text. -/
def scan : Mode → Text → Except Fault Scanned
  | .plain, [] => .ok (none, [])
  | .single, [] => .error (.unterminatedQuote singleQuote)
  | .double, [] => .error (.unterminatedQuote doubleQuote)
  | .single, c :: r =>
    if c = singleQuote then scan .plain r else (scan .single r).map (Scanned.extend [c])
  | .double, [c] =>
    if c = doubleQuote then .ok (none, []) else .error (.unterminatedQuote doubleQuote)
  | .double, c :: d :: r =>
    if c = doubleQuote then scan .plain (d :: r)
    else if c = '\\' && isEscapable d then (scan .double r).map (Scanned.extend (escaped d))
    else (scan .double (d :: r)).map (Scanned.extend [c])
  | .plain, [c] =>
    if isSpace c then .ok (none, [])
    else if c = singleQuote || c = doubleQuote then .error (.unterminatedQuote c)
    else
      match operator? c with
      | some op => .ok (none, [.operator op])
      | none => .ok (some [c], [])
  | .plain, c :: d :: r =>
    if isSpace c then (scan .plain (d :: r)).map Scanned.space
    else if c = '\\' then (scan .plain r).map (Scanned.extend (escaped d))
    else if c = singleQuote then (scan .single (d :: r)).map (Scanned.extend [])
    else if c = doubleQuote then (scan .double (d :: r)).map (Scanned.extend [])
    else if c = d && (doubled? c).isSome then
      (scan .plain r).map (Scanned.operator ((doubled? c).getD .sequence))
    else
      match operator? c with
      | some op => (scan .plain (d :: r)).map (Scanned.operator op)
      | none => (scan .plain (d :: r)).map (Scanned.extend [c])

/-- Splits a line into words and operators. -/
def tokenize (t : Text) : Except Fault (List Token) := (scan .plain t).map Scanned.tokens

end ImageAudit.Shell
