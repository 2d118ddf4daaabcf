import ImageAudit.Pattern.Settings
import ImageAudit.Text.Numeral

/-!
# Escapes in patterns

* `Atom.escaped?` reads what follows a backslash: a character, a class or an assertion.
* `hexadecimal?` reads the code point of a character.
-/

namespace ImageAudit.Pattern

open Text

/-- What a single unit of a pattern stands for. -/
inductive Atom where
  | char (c : Char)
  | klass (s : CharSet)
  | assertion (a : Assertion)

/-! ## Code points -/

/-- Whether a character is a hexadecimal digit. -/
def isHex (c : Char) : Bool := c.isDigit || ('a' ≤ c && c ≤ 'f') || ('A' ≤ c && c ≤ 'F')

/-- The value of a hexadecimal digit. -/
def hexValue (c : Char) : Nat :=
  if c.isDigit then c.toNat - '0'.toNat else c.toLower.toNat - 'a'.toNat + 10

/-- The character whose code point is written in hexadecimal digits. -/
def charOfHex? (digits : Text) : Option Char :=
  let n := digits.foldl (fun n c => 16 * n + hexValue c) 0
  if digits.isEmpty then none else if h : n.isValidChar then some (Char.ofNatAux n h) else none

/-- Reads a code point: between braces, or of exactly `count` digits. -/
def hexadecimal? (s : Settings) (count : Nat) (t : Text) : Option (Char × Text) :=
  match s.skip t with
  | '{' :: r =>
    let (digits, r) := s.wholeRow isHex r
    match r with
    | '}' :: r => (charOfHex? digits).map fun c => (c, r)
    | _ => none
  | t =>
    let (digits, r) := s.row isHex count t
    if digits.length = count then (charOfHex? digits).map fun c => (c, r) else none

/-- The number of digits after the letter that begins a code point. -/
def hexLength? (c : Char) : Option Nat :=
  if c = 'x' then some 2 else if c = 'u' then some 4 else if c = 'U' then some 8 else none

/-! ## Word boundaries -/

/-- The letters of the names of boundaries. -/
def isBoundaryChar (c : Char) : Bool := c.isAlpha || c == '-'

/-- The boundary of a name. -/
def boundary? (s : Settings) (name : Text) : Option Assertion :=
  if name == "start".toList then some (.wordStart s.allScripts)
  else if name == "end".toList then some (.wordEnd s.allScripts)
  else if name == "start-half".toList then some (.wordStartHalf s.allScripts)
  else if name == "end-half".toList then some (.wordEndHalf s.allScripts)
  else none

/-- Reads the name of a boundary between braces; braces without letters are left for a
repetition. -/
def wordBoundary? (s : Settings) (t : Text) : Option (Assertion × Text) :=
  match t with
  | '{' :: r =>
    let (name, r) := s.wholeRow isBoundaryChar r
    match name, r with
    | [], [] => none
    | [], _ => some (.wordBoundary s.allScripts, t)
    | name, '}' :: r => (boundary? s name).map fun b => (b, r)
    | _, _ => none
  | t => some (.wordBoundary s.allScripts, t)

/-! ## Escapes -/

/-- The class a letter stands for. -/
def classOf? (c : Char) : Option CharClass :=
  if c = 'd' then some .digit
  else if c = 's' then some .space
  else if c = 'w' then some .word
  else none

/-- The set a letter stands for: in lower case a class, in upper case all other characters. Without
other scripts the complement of a class is not a set of characters. -/
def setOf? (s : Settings) (c : Char) : Option CharSet :=
  match classOf? c with
  | some k => some (.klass k s.allScripts)
  | none =>
    if s.allScripts then (classOf? c.toLower).map fun k => .complement (.klass k true) else none

/-- The control character a letter stands for. -/
def controlOf? (c : Char) : Option Char :=
  if c = 'a' then some '\x07' else if c = 'f' then some '\x0c' else if c = 't' then some '\t'
  else if c = 'n' then some '\n' else if c = 'r' then some '\r' else if c = 'v' then some '\x0b'
  else none

/-- Whether a backslash before a character makes it stand for itself. -/
def isEscapable (c : Char) : Bool :=
  c.toNat < 0x80 && !c.isAlphanum && c != '<' && c != '>'

/-- The assertion a character stands for. -/
def assertionOf? (s : Settings) (c : Char) : Option Assertion :=
  if c = 'A' then some .textStart else if c = 'z' then some .textEnd
  else if c = 'B' then some (.notWordBoundary s.allScripts)
  else if c = '<' then some (.wordStart s.allScripts)
  else if c = '>' then some (.wordEnd s.allScripts)
  else none

/-- Reads what follows a backslash. -/
def Atom.escaped? (s : Settings) : Text → Option (Atom × Text)
  | [] => none
  | c :: r =>
    match hexLength? c with
    | some count => (hexadecimal? s count r).map fun (c, r) => (char c, r)
    | none =>
      if c = 'b' then (wordBoundary? s r).map fun (b, r) => (assertion b, r)
      else if isEscapable c then some (char c, r)
      else
        ((setOf? s c).map fun k => (klass k, r)).or <|
        ((controlOf? c).map fun c => (char c, r)).or <|
        (assertionOf? s c).map fun a => (assertion a, r)

end ImageAudit.Pattern
