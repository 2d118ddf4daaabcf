import ImageAudit.Pattern.Bracket
import ImageAudit.Text.Number

/-!
# Reading patterns

A pattern is alternatives of rows of repeated units: characters, sets, assertions and groups. The
language of patterns has more than what is read here: classes of Unicode properties, and a limit to
how deep groups may stand within each other. Policies and runs take the reader of patterns as a
parameter, and what is here serves where no other one is given.

* `read?` reads a whole text as a pattern.
* `SourcePattern.ofText?` keeps the text with the pattern, and refuses patterns that are too large.
-/

namespace ImageAudit

open Text

namespace Pattern

/-! ## What has been read -/

/-- What has been read of a group up to a place. -/
structure Progress where
  settings : Settings
  /-- The names of groups that are taken. -/
  names : List Text
  /-- The alternatives before this one. -/
  earlier : Option Pattern
  /-- The units of this alternative before the last one. -/
  row : Option Pattern
  /-- The last unit, unless it cannot be repeated. -/
  last : Option Pattern

namespace Progress

/-- The beginning of a group. -/
def start (s : Settings) (names : List Text) : Progress := ⟨s, names, none, none, none⟩

/-- One pattern after another, of those there are. -/
def joined (p q : Option Pattern) : Option Pattern :=
  match p, q with
  | some p, some q => some (.cat p q)
  | p, q => p.or q

/-- The alternative being read. -/
def branch (p : Progress) : Pattern := (joined p.row p.last).getD .empty

/-- All alternatives. -/
def pattern (p : Progress) : Pattern :=
  match p.earlier with
  | some e => .alt e p.branch
  | none => p.branch

/-- Adds a unit. -/
def push (p : Progress) (unit : Pattern) : Progress :=
  { p with row := joined p.row p.last, last := some unit }

/-- Begins another alternative. -/
def alternative (p : Progress) : Progress :=
  { p with earlier := some p.pattern, row := none, last := none }

/-- Goes on with other settings; there is nothing to repeat right after them. -/
def change (p : Progress) (s : Settings) : Progress :=
  { p with settings := s, row := joined p.row p.last, last := none }

/-- Repeats the last unit. -/
def repeatLast? (p : Progress) (least : Nat) (most : Option Nat) : Option Progress :=
  p.last.map fun unit => { p with last := some (.repeated unit least most) }

end Progress

/-! ## Repetitions -/

/-- Passes over the mark of a lazy repetition, which finds matches in the same texts. -/
def skipLazy : Text → Text
  | '?' :: r => r
  | t => t

/-- Reads a count between white space. -/
def count? (s : Settings) (t : Text) : Option (Nat × Text) :=
  let (digits, r) := s.wholeRow Char.isDigit (t.dropWhile isSpace)
  (numeral? digits).map fun n => (n, r.dropWhile isSpace)

/-- Reads the least and the most count of a repetition after its opening brace. -/
def counts? (s : Settings) (t : Text) : Option (Nat × Option Nat × Text) := do
  let (least, r) ← count? s (s.skip t)
  match r with
  | '}' :: r => some (least, some least, r)
  | ',' :: r =>
    match s.skip r with
    | '}' :: r => some (least, none, r)
    | r => do
      let (most, r) ← count? s r
      match r with
      | '}' :: r => if least ≤ most then some (least, some most, r) else none
      | _ => none
  | _ => none

/-! ## Groups -/

/-- How a parenthesis goes on. -/
inductive Opening where
  /-- It only changes settings. -/
  | settings (s : Settings)
  /-- A group with its own settings; some names are taken. -/
  | group (s : Settings) (names : List Text)

/-- Whether a character may be in the name of a group after its first one. -/
def isNameChar (c : Char) : Bool :=
  isAlphanumeric c || c == '_' || c == '.' || c == '[' || c == ']'

/-- Whether a text may name a group. -/
def isGroupName : Text → Bool
  | [] => false
  | c :: r => (c == '_' || isAlphabetic c) && r.all isNameChar

/-- Reads the name of a group, which is not taken yet. -/
def groupName? (names : List Text) (t : Text) : Option (Text × Text) := do
  let (name, r) ← cut '>' t
  if isGroupName name && !names.contains name then some (name, r) else none

/-- Whether a text goes on with a condition on what comes after or before, which is no part of
patterns. -/
def looksAround (t : Text) : Bool :=
  ["?=".toList, "?!".toList, "?<=".toList, "?<!".toList].any fun p => startsWith p t

/-- Reads flags up to the parenthesis or colon that ends them. -/
def flags? (s : Settings) (names : List Text) (t : Text) : Option (Opening × Text) :=
  let ends (c : Char) : Bool := c == ':' || c == ')'
  let written := t.takeWhile fun c => !ends c
  match t.dropWhile fun c => !ends c with
  | [] => none
  | c :: r => do
    let s ← s.change? written
    if c = ':' then some (.group s names, r)
    else if written.isEmpty then none
    else some (.settings s, r)

/-- Reads how a parenthesis goes on. -/
def opening? (s : Settings) (names : List Text) (t : Text) : Option (Opening × Text) :=
  if looksAround t then none
  else
    match (dropPrefix? "?P<".toList t).or (dropPrefix? "?<".toList t) with
    | some r => (groupName? names r).map fun (name, r) => (.group s (name :: names), r)
    | none =>
      match t with
      | '?' :: r => flags? s names r
      | t => some (.group s names, t)

/-! ## Units -/

/-- The pattern of the dot. -/
def dot? (s : Settings) : Option Pattern :=
  if !s.allScripts then none
  else if s.dotAll then some (.oneOf (.complement .empty))
  else if s.crlf then some (.oneOf (.complement (.ofRanges [('\n', '\n'), ('\r', '\r')])))
  else some (.oneOf (.complement (.single '\n')))

/-- The assertion of a caret. -/
def caret (s : Settings) : Assertion := if s.manyLines then .lineStart s.crlf else .textStart

/-- The assertion of a dollar sign. -/
def dollar (s : Settings) : Assertion := if s.manyLines then .lineEnd s.crlf else .textEnd

/-- The pattern of a single unit. -/
def Atom.pattern (s : Settings) : Atom → Pattern
  | char c => .oneOf (s.fold (.single c))
  | klass k => .oneOf k
  | assertion a => .assertion a

/-- Reads a unit that is no group. -/
def unit? (s : Settings) : Text → Option (Pattern × Text)
  | [] => none
  | '[' :: r => (bracket? s r).map fun (set, r) => (.oneOf set, r)
  | '\\' :: r => (Atom.escaped? s r).map fun (a, r) => (a.pattern s, r)
  | '.' :: r => (dot? s).map fun p => (p, r)
  | '^' :: r => some (.assertion (caret s), r)
  | '$' :: r => some (.assertion (dollar s), r)
  | c :: r => some ((Atom.char c).pattern s, r)

/-! ## Patterns -/

/-- Reads a group up to its closing parenthesis or the end of the text. Every step reads at least
one character, so fuel beyond the length of the text changes nothing. -/
def readFrom? : (fuel : Nat) → Progress → Text → Option (Progress × Text)
  | 0, _, _ => none
  | fuel + 1, p, t =>
    match p.settings.skip t with
    | [] => some (p, [])
    | ')' :: r => some (p, ')' :: r)
    | '|' :: r => readFrom? fuel p.alternative r
    | '?' :: r => do
      let p ← p.repeatLast? 0 (some 1)
      readFrom? fuel p (skipLazy r)
    | '*' :: r => do
      let p ← p.repeatLast? 0 none
      readFrom? fuel p (skipLazy r)
    | '+' :: r => do
      let p ← p.repeatLast? 1 none
      readFrom? fuel p (skipLazy r)
    | '{' :: r => do
      let (least, most, r) ← counts? p.settings r
      let p ← p.repeatLast? least most
      readFrom? fuel p (skipLazy (p.settings.skip r))
    | '(' :: r => do
      let (o, r) ← opening? p.settings p.names (p.settings.skip r)
      match o with
      | .settings s => readFrom? fuel (p.change s) r
      | .group s names =>
        let (inner, r) ← readFrom? fuel (.start s names) r
        match r with
        | ')' :: r => readFrom? fuel { p.push inner.pattern with names := inner.names } r
        | _ => none
    | t => do
      let (u, r) ← unit? p.settings t
      readFrom? fuel (p.push u) r

/-- Reads a text as a pattern. -/
def read? (t : Text) : Option Pattern :=
  match readFrom? (t.length + 1) (.start .initial []) t with
  | some (p, []) => some p.pattern
  | _ => none

end Pattern

/-! ## Patterns with their text -/

/-- A pattern and the text it was read from. -/
structure SourcePattern where
  text : Text
  pattern : Pattern

/-- Reads a text as a pattern that is not too large. -/
def SourcePattern.ofText? (t : Text) : Option SourcePattern := do
  let p ← Pattern.read? t
  if p.weight ≤ Pattern.weightLimit then some ⟨t, p⟩ else none

end ImageAudit
