import ImageAudit.Pattern.Basic

/-!
# Settings of a pattern

Flags in a pattern change how the rest of a group is read.

* `Settings.change?` takes over flags such as `i`, `i-s` or `-u`.
* `Settings.skip` passes over what means nothing where blanks and comments are allowed.
* `Settings.row` reads a row of characters, with such blanks in between.
-/

namespace ImageAudit.Pattern

open Text

/-- How a pattern is read. -/
structure Settings where
  /-- Letters stand for both cases. -/
  anyCase : Bool
  /-- The anchors hold at lines. -/
  manyLines : Bool
  /-- The dot stands for line feeds too. -/
  dotAll : Bool
  /-- Lines may end in a carriage return and a line feed. -/
  crlf : Bool
  /-- Classes comprise the characters of all scripts. -/
  allScripts : Bool
  /-- White space and comments mean nothing. -/
  loose : Bool
  deriving DecidableEq

namespace Settings

/-- The settings a pattern begins with. -/
def initial : Settings := ⟨false, false, false, false, true, false⟩

/-- The letters of all flags; the swapping of lazy and greedy repetition does not matter here. -/
def flags : Text := ['i', 'm', 's', 'R', 'u', 'x', 'U']

/-- A setting after flags have switched it on or off. -/
def switched (was : Bool) (on off : Text) (flag : Char) : Bool :=
  (was || on.contains flag) && !off.contains flag

/-- The settings after flags; no flag is given twice, and a minus sign has flags after it. -/
def change? (s : Settings) (written : Text) : Option Settings :=
  let (on, off) := (cut '-' written).getD (written, [])
  if written.Nodup && written.getLast? != some '-' && (on ++ off).all flags.contains then
    some {
      anyCase := switched s.anyCase on off 'i'
      manyLines := switched s.manyLines on off 'm'
      dotAll := switched s.dotAll on off 's'
      crlf := switched s.crlf on off 'R'
      allScripts := switched s.allScripts on off 'u'
      loose := switched s.loose on off 'x' }
  else none

/-- Passes over white space, and over comments up to the end of their line. -/
def skipLoose : (comment : Bool) → Text → Text
  | _, [] => []
  | true, c :: r => skipLoose (c != '\n') r
  | false, c :: r =>
    if c = '#' then skipLoose true r else if isSpace c then skipLoose false r else c :: r

/-- Passes over what means nothing. -/
def skip (s : Settings) (t : Text) : Text := if s.loose then skipLoose false t else t

/-- Reads up to `most` characters of the form `p`; what means nothing may stand in between. -/
def rowFrom (p : Char → Bool) (loose : Bool) : (most : Nat) → (comment : Bool) → Text → Text × Text
  | _, _, [] => ([], [])
  | most, true, c :: r => rowFrom p loose most (c != '\n') r
  | most, false, c :: r =>
    if loose && c == '#' then rowFrom p loose most true r
    else if loose && isSpace c then rowFrom p loose most false r
    else
      match most with
      | 0 => ([], c :: r)
      | most + 1 =>
        if p c then
          let (w, rest) := rowFrom p loose most false r
          (c :: w, rest)
        else ([], c :: r)

/-- Reads a row of up to `most` characters of the form `p`. -/
def row (s : Settings) (p : Char → Bool) (most : Nat) (t : Text) : Text × Text :=
  rowFrom p s.loose most false t

/-- Reads a row of characters of the form `p`. -/
def wholeRow (s : Settings) (p : Char → Bool) (t : Text) : Text × Text := s.row p t.length t

/-- A set in both cases, if letters stand for both. -/
def fold (s : Settings) (set : CharSet) : CharSet :=
  if s.anyCase then (if s.allScripts then .anyCase set else .anyAsciiCase set) else set

end Settings

end ImageAudit.Pattern
