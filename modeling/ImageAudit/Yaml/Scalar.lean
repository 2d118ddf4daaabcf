import ImageAudit.Yaml.Source

/-!
# YAML scalars

A scalar is written plain, between quotation marks or as a block.

* `plain?`, `quoted?` and `block?` read the three forms.
* Between the parts of a flow scalar a single line break becomes a space, and of several breaks the
  first one is dropped.
-/

namespace ImageAudit.Yaml

open Text Source

/-- How a scalar is written. -/
inductive Style where
  | plain
  | singleQuoted
  | doubleQuoted
  | literal
  | folded
  deriving DecidableEq

/-! ## Gaps -/

/-- The blanks and breaks between two parts of a flow scalar: the blanks before the first break, and
the breaks. -/
structure Gap where
  blanks : Text
  breaks : Text

/-- What a gap stands for. -/
def Gap.text (g : Gap) : Text :=
  match g.breaks with
  | [] => g.blanks
  | ['\n'] => [' ']
  | '\n' :: more => more
  | breaks => breaks

/-- Reads a gap; a tab before column `least` of a continued line is refused. -/
def gap? (least : Nat) : (broken : Bool) → Source → Option (Gap × Source)
  | _, [] => some (⟨[], []⟩, [])
  | broken, p :: r =>
    if isBreak p.char then
      (gap? least true r).map fun (g, rest) => (⟨[], p.char :: g.breaks⟩, rest)
    else if isBlank p.char then
      if broken && p.column < least && p.char == '\t' then none
      else (gap? least broken r).map fun (g, rest) =>
        (if broken || !g.breaks.isEmpty then ⟨[], g.breaks⟩ else ⟨p.char :: g.blanks, []⟩, rest)
    else some (⟨[], []⟩, p :: r)

/-! ## Plain scalars -/

/-- The characters that end a plain scalar inside brackets. -/
def isFlowIndicator (c : Char) : Bool :=
  c == ',' || c == '[' || c == ']' || c == '{' || c == '}'

/-- Reads a plain scalar up to a gap or an indicator; inside brackets a colon before an indicator is
refused. -/
def plainRun? (flow : Bool) : Source → Option (Text × Source)
  | [] => some ([], [])
  | p :: r =>
    let next := char r
    if isGapOrEnd p.char then some ([], p :: r)
    else if flow && p.char == ':' && (isFlowIndicator next || next == '?') then none
    else if (p.char == ':' && isGapOrEnd next) || (flow && isFlowIndicator p.char) then
      some ([], p :: r)
    else (plainRun? flow r).map fun (t, rest) => (p.char :: t, rest)

/-- Reads what follows a run of a plain scalar: its text, whether it ended with a line break, and
the rest. Every round reads a run, so fuel beyond the length of the source changes nothing. -/
def plainRest? (flow : Bool) (least : Nat) : (fuel : Nat) → Source → Option (Text × Bool × Source)
  | 0, _ => none
  | fuel + 1, s =>
    if !(isBlank s.char || isBreak s.char) then some ([], false, s)
    else do
      let (g, r) ← gap? least false s
      if (!flow && r.column < least) || r.atDocumentMark || r.char == '#' then
        some ([], !g.breaks.isEmpty, r)
      else
        let (w, r) ← plainRun? flow r
        if w.isEmpty then some ([], !g.breaks.isEmpty, r)
        else
          let (t, broken, r) ← plainRest? flow least fuel r
          some (g.text ++ w ++ t, broken, r)

/-- Reads a plain scalar: its text, whether a line break ended it, and the rest. Continued lines
begin at column `least` or later. -/
def plain? (flow : Bool) (least : Nat) (s : Source) : Option (Text × Bool × Source) := do
  let (w, r) ← plainRun? flow s
  let (t, broken, r) ← plainRest? flow least (s.length + 1) r
  some (w ++ t, broken, r)

/-! ## Quoted scalars -/

/-- The character that a letter after a backslash stands for. -/
def escapeOf? (c : Char) : Option Char :=
  [('0', '\x00'), ('a', '\x07'), ('b', '\x08'), ('t', '\t'), ('\t', '\t'), ('n', '\n'),
    ('v', '\x0b'), ('f', '\x0c'), ('r', '\r'), ('e', '\x1b'), (' ', ' '), ('\x22', '\x22'),
    ('/', '/'), ('\\', '\\'), ('N', '\u0085'), ('_', '\u00a0'), ('L', '\u2028'),
    ('P', '\u2029')].lookup c

/-- The number of hexadecimal digits after a letter. -/
def hexLength? (c : Char) : Option Nat := [('x', 2), ('u', 4), ('U', 8)].lookup c

/-- The value of a hexadecimal digit. -/
def hexDigit? (c : Char) : Option Nat :=
  if c.isDigit then some (c.toNat - '0'.toNat)
  else if 'a' ≤ c && c ≤ 'f' then some (c.toNat - 'a'.toNat + 10)
  else if 'A' ≤ c && c ≤ 'F' then some (c.toNat - 'A'.toNat + 10)
  else none

/-- The value of hexadecimal digits. -/
def hexValue? (t : Text) : Option Nat :=
  t.foldlM (fun n c => (hexDigit? c).map fun d => 16 * n + d) 0

/-- The character whose code point is written in the next `count` digits. -/
def hexChar? (count : Nat) (s : Source) : Option Char := do
  let n ← hexValue? ((s.take count).map Placed.char)
  if h : n.isValidChar then some (Char.ofNatAux n h) else none

/-- Reads an escape after its backslash. -/
def escape? (s : Source) : Option (Char × Source) :=
  match hexLength? s.char with
  | some count => (hexChar? count s.next).map fun c => (c, s.next.ahead count)
  | none => (escapeOf? s.char).map fun c => (c, s.next)

/-- Reads a quoted scalar up to a gap or its closing mark, and tells whether it ended with a line
break that is escaped. Every round reads a character, so fuel beyond the length of the source
changes nothing. -/
def quotedRun? (single : Bool) : (fuel : Nat) → Source → Option (Text × Bool × Source)
  | 0, _ => none
  | fuel + 1, s =>
    let c := s.char
    let more (x : Char) (r : Source) : Option (Text × Bool × Source) :=
      (quotedRun? single fuel r).map fun (t, rest) => (x :: t, rest)
    if isGapOrEnd c then some ([], false, s)
    else if single then
      if c == '\x27' then (if s.second == '\x27' then more c (s.ahead 2) else some ([], false, s))
      else more c s.next
    else if c == '\x22' then some ([], false, s)
    else if c == '\\' then
      if isBreak s.second then some ([], true, s.ahead 2)
      else (escape? s.next).bind fun (x, r) => more x r
    else more c s.next

/-- The mark around a quoted scalar. -/
def quoteMark (single : Bool) : Char := if single then '\x27' else '\x22'

/-- Reads a quoted scalar after its opening mark. Every round reads a run or a gap, so fuel beyond
the length of the source changes nothing. -/
def quotedFrom? (single : Bool) : (fuel : Nat) → Source → Option (Text × Source)
  | 0, _ => none
  | fuel + 1, s =>
    if s.atDocumentMark || s.atEnd then none
    else do
      let (t, escaped, r) ← quotedRun? single (s.length + 1) s
      if r.char == quoteMark single then some (t, r.next)
      else
        let (g, r) ← gap? 0 escaped r
        let (more, r) ← quotedFrom? single fuel r
        some (t ++ (if escaped then g.breaks else g.text) ++ more, r)

/-- Reads a quoted scalar that begins here. -/
def quoted? (single : Bool) (s : Source) : Option (Text × Source) :=
  quotedFrom? single (s.length + 1) s.next

/-! ## Block scalars -/

/-- What happens to the line breaks at the end of a block. -/
inductive Chomping where
  | strip
  | clip
  | keep

/-- Reads a chomping indicator. -/
def chomping? (s : Source) : Option (Chomping × Source) :=
  if s.char == '+' then some (.keep, s.next)
  else if s.char == '-' then some (.strip, s.next)
  else none

/-- Reads an indentation indicator; zero stands for none and is not written. -/
def indentation? (s : Source) : Option (Nat × Source) :=
  if !s.char.isDigit then some (0, s)
  else if s.char == '0' then none
  else some (s.char.toNat - '0'.toNat, s.next)

/-- Reads the indicators of a block in either order. -/
def blockIndicators? (s : Source) : Option (Chomping × Nat × Source) :=
  match chomping? s with
  | some (chomping, r) => (indentation? r).map fun (n, r) => (chomping, n, r)
  | none => do
    let (n, r) ← indentation? s
    let (chomping, r) := (if n = 0 then none else chomping? r).getD (.clip, r)
    some (chomping, n, r)

/-- Reads empty lines and the indentation after them; an indentation of zero is still unknown. Also
gives the widest indentation met. -/
def blockBreaks? (indent : Nat) : (widest : Nat) → Source → Option (Nat × Text × Source)
  | widest, [] => some (widest, [], [])
  | widest, p :: r =>
    let indenting := indent = 0 || p.column < indent
    if indenting && p.char == ' ' then blockBreaks? indent widest r
    else if indenting && p.char == '\t' then none
    else if isBreak p.char then
      (blockBreaks? indent (max widest p.column) r).map fun (n, t, rest) => (n, p.char :: t, rest)
    else some (max widest p.column, [], p :: r)

/-- The break between two lines of a block: kept if the block is literal or one of the lines begins
with a blank, and otherwise folded. -/
def blockJoint (literal : Bool) (joint : Text) (blankBefore blank : Bool) (empties : Text) : Text :=
  if !literal && joint == ['\n'] && !blankBefore && !blank then
    (if empties.isEmpty then [' '] else [])
  else joint

/-- Reads the lines of a block after the break `joint` and the empty lines `empties`; also gives the
last break and the empty lines after it. Every round reads a line, so fuel beyond the length of the
source changes nothing. -/
def blockLines? (literal : Bool) (indent : Nat) :
    (fuel : Nat) → (joint : Text) → (blankBefore : Bool) → (empties : Text) → Source →
      Option (Text × Text × Text × Source)
  | 0, _, _, _, _ => none
  | fuel + 1, joint, blankBefore, empties, s =>
    if s.column == indent && !s.atEnd then do
      let blank := isBlank s.char
      let (line, r) := s.takeRow fun c => !isBreakOrEnd c
      let (next, r) := r.takeBreak
      let (_, more, r) ← blockBreaks? indent 0 r
      let (t, last, trailing, r) ← blockLines? literal indent fuel next blank more r
      some (blockJoint literal joint blankBefore blank empties ++ empties ++ line ++ t, last,
        trailing, r)
    else some ([], joint, empties, s)

/-- What is left of the breaks at the end. -/
def Chomping.text (chomping : Chomping) (last trailing : Text) : Text :=
  match chomping with
  | strip => []
  | clip => last
  | keep => last ++ trailing

/-- Reads a block scalar that begins here; its lines are indented by at least `least`. -/
def block? (literal : Bool) (least : Nat) (s : Source) : Option (Text × Source) := do
  let (chomping, increment, r) ← blockIndicators? s.next
  let r := skipComment (r.skip isBlank)
  if !isBreakOrEnd r.char then none
  else
    let (_, r) := r.takeBreak
    let given := if increment = 0 then 0 else (least - 1) + increment
    let (widest, empties, r) ← blockBreaks? given 0 r
    let indent := if given = 0 then max widest (max least 1) else given
    let (t, last, trailing, r) ← blockLines? literal indent (s.length + 1) [] false empties r
    some (t ++ chomping.text last trailing, r)

end ImageAudit.Yaml
