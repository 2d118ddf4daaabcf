import ImageAudit.Pattern.Escape

/-!
# Bracket expressions

A bracket expression is a set of characters: ranges, classes, named classes of ASCII characters and
other bracket expressions, and differences, intersections and symmetric differences of such
unions, taken from the left.

* `bracket?` reads what follows the opening bracket.
-/

namespace ImageAudit.Pattern

open Text

/-! ## Named classes -/

/-- The ranges of the ASCII classes that have names. -/
def namedRanges : List (Text × List (Char × Char)) :=
  [("alnum".toList, [('0', '9'), ('A', 'Z'), ('a', 'z')]),
   ("alpha".toList, [('A', 'Z'), ('a', 'z')]),
   ("ascii".toList, [('\x00', '\x7f')]),
   ("blank".toList, [('\t', '\t'), (' ', ' ')]),
   ("cntrl".toList, [('\x00', '\x1f'), ('\x7f', '\x7f')]),
   ("digit".toList, [('0', '9')]),
   ("graph".toList, [('!', '~')]),
   ("lower".toList, [('a', 'z')]),
   ("print".toList, [(' ', '~')]),
   ("punct".toList, [('!', '/'), (':', '@'), ('[', '\x60'), ('\x7b', '~')]),
   ("space".toList, [('\t', '\r'), (' ', ' ')]),
   ("upper".toList, [('A', 'Z')]),
   ("word".toList, [('0', '9'), ('A', 'Z'), ('_', '_'), ('a', 'z')]),
   ("xdigit".toList, [('0', '9'), ('A', 'F'), ('a', 'f')])]

/-- A set or its complement. -/
def CharSet.negatedIf (negated : Bool) (set : CharSet) : CharSet :=
  if negated then .complement set else set

/-- Reads a named class after its opening bracket: whether it is negated, the class, and what
follows. -/
def namedClass? : Text → Option (Bool × CharSet × Text)
  | ':' :: r => do
    let (negated, r) := match r with
      | '^' :: r => (true, r)
      | r => (false, r)
    let (name, r) ← cut ':' r
    match r with
    | ']' :: r => ((namedRanges.find? fun n => n.1 == name).map (·.2)).map fun ranges =>
        (negated, .ofRanges ranges, r)
    | _ => none
  | _ => none

/-! ## Ranges -/

/-- Reads a character or an escape. -/
def bracketAtom? (s : Settings) : Text → Option (Atom × Text)
  | [] => none
  | '\\' :: r => Atom.escaped? s r
  | c :: r => some (.char c, r)

/-- Whether a character may be in a set: without other scripts only ASCII may. -/
def isMember (s : Settings) (c : Char) : Bool := s.allScripts || c.toNat < 0x80

/-- The set of a character or a class. -/
def setOfAtom? (s : Settings) : Atom → Option CharSet
  | .char c => if isMember s c then some (.single c) else none
  | .klass k => some k
  | .assertion _ => none

/-- The range from one character to another. -/
def rangeOf? (s : Settings) : Atom → Atom → Option CharSet
  | .char lo, .char hi =>
    if lo ≤ hi && isMember s lo && isMember s hi then some (.range lo hi) else none
  | _, _ => none

/-- What follows a hyphen that makes a range. -/
def rangeMark? (s : Settings) : Text → Option Text
  | '-' :: r =>
    match s.skip r with
    | ']' :: _ => none
    | '-' :: _ => none
    | r => some r
  | _ => none

/-- Reads a character, a class or a range. -/
def range? (s : Settings) (t : Text) : Option (CharSet × Text) := do
  let (a, r) ← bracketAtom? s t
  match rangeMark? s (s.skip r) with
  | none => (setOfAtom? s a).map fun set => (set, r)
  | some r => do
    let (b, r) ← bracketAtom? s r
    (rangeOf? s a b).map fun set => (set, r)

/-! ## Brackets -/

/-- The operations on sets that have a sign. -/
inductive SetOperation where
  | inter
  | diff
  | symDiff

/-- The result of an operation. -/
def SetOperation.apply : SetOperation → CharSet → CharSet → CharSet
  | inter => .inter
  | diff => .diff
  | symDiff => .symDiff

/-- The operation at the front of a text. -/
def operation? : Text → Option (SetOperation × Text)
  | '&' :: '&' :: r => some (.inter, r)
  | '-' :: '-' :: r => some (.diff, r)
  | '~' :: '~' :: r => some (.symDiff, r)
  | _ => none

/-- A set whose last union is still being read: the operation before that union with its left side,
and the union so far. -/
structure OpenSet where
  left : Option (SetOperation × CharSet)
  union : CharSet

/-- The set with the last union finished. -/
def OpenSet.finish (s : Settings) (o : OpenSet) : CharSet :=
  match o.left with
  | none => s.fold o.union
  | some (op, left) => s.fold (op.apply left (s.fold o.union))

/-- Adds a set to the last union. -/
def OpenSet.add (o : OpenSet) (set : CharSet) : OpenSet := { o with union := .union o.union set }

/-- Finishes a set and begins the right side of an operation. -/
def OpenSet.operate (s : Settings) (op : SetOperation) (o : OpenSet) : OpenSet :=
  ⟨some (op, o.finish s), .empty⟩

/-- A negated set; without other scripts there is none. -/
def negate? (s : Settings) (negated : Bool) (set : CharSet) : Option CharSet :=
  if negated && !s.allScripts then none else some (set.negatedIf negated)

/-- Reads the beginning of a bracket expression: a caret, hyphens and, if there are none, a closing
bracket that stands for itself. -/
def openBracket (s : Settings) (t : Text) : Bool × OpenSet × Text :=
  let (negated, t) := match s.skip t with
    | '^' :: r => (true, s.skip r)
    | r => (false, r)
  let (hyphens, t) := s.wholeRow (· == '-') t
  match hyphens, t with
  | [], ']' :: r => (negated, ⟨none, .single ']'⟩, r)
  | [], t => (negated, ⟨none, .empty⟩, t)
  | _ :: _, t => (negated, ⟨none, .single '-'⟩, t)

/-- Reads a set up to its closing bracket. Every step reads at least one character, so fuel beyond
the length of the text changes nothing. -/
def bracketFrom? (s : Settings) : (fuel : Nat) → OpenSet → Text → Option (CharSet × Text)
  | 0, _, _ => none
  | fuel + 1, o, t =>
    match s.skip t with
    | [] => none
    | ']' :: r => some (o.finish s, r)
    | '[' :: r =>
      match namedClass? r with
      | some (negated, set, r) => do
        let set ← negate? s negated (s.fold set)
        bracketFrom? s fuel (o.add set) r
      | none => do
        let (negated, inner, r) := openBracket s r
        let (set, r) ← bracketFrom? s fuel inner r
        let set ← negate? s negated set
        bracketFrom? s fuel (o.add set) r
    | t =>
      match operation? t with
      | some (op, r) => bracketFrom? s fuel (o.operate s op) r
      | none => do
        let (set, r) ← range? s t
        bracketFrom? s fuel (o.add set) r

/-- Reads a bracket expression after its opening bracket. -/
def bracket? (s : Settings) (t : Text) : Option (CharSet × Text) := do
  let (negated, o, r) := openBracket s t
  let (set, r) ← bracketFrom? s (t.length + 1) o r
  let set ← negate? s negated set
  some (set, r)

end ImageAudit.Pattern
