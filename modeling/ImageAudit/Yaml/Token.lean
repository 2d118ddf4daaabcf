import ImageAudit.Yaml.Property

/-!
# YAML tokens

A source is a row of tokens. The beginnings and ends of blocks, which only show in the indentation,
are tokens too, and so is the beginning of a key, which only shows when a colon comes after it. So
a place where a key may begin is kept open until it is known whether one does.

* `Token.readAll?` reads the tokens of a text.
-/

namespace ImageAudit.Yaml

open Text Source

/-- A unit of a YAML text. -/
inductive Token where
  | directive (d : Directive)
  | documentStart
  | documentEnd
  | blockSequenceStart
  | blockMappingStart
  | blockEnd
  | flowSequenceStart
  | flowSequenceEnd
  | flowMappingStart
  | flowMappingEnd
  | blockEntry
  | flowEntry
  | key
  | value
  | reference (name : Text)
  | anchor (name : Text)
  | tag (t : TagName)
  | scalar (value : Text) (style : Style)
  deriving DecidableEq

/-! ## State -/

/-- A place where a key may begin. -/
structure OpenKey where
  id : Nat
  line : Nat
  column : Nat
  index : Nat
  /-- Whether there has to be a key, as the place is where the keys of a mapping begin. -/
  required : Bool

/-- What a place where a key may begin turned out to be. -/
inductive KeyFate where
  | none
  | key
  | firstKey

/-- A token, or a place where a key may begin. -/
inductive Slot where
  | token (t : Token)
  | keyPlace (id : Nat)

/-- What has been read. -/
structure Scan where
  /-- Newest first. -/
  slots : List Slot
  /-- The places that turned out to begin keys, and whether the key is the first of a block. -/
  keys : List (Nat × Bool)
  nextId : Nat
  /-- The columns of the open blocks, innermost first. -/
  indents : List Nat
  /-- The place of the innermost open collection where a key may begin. -/
  open? : Option OpenKey
  /-- Those of the collections around it; there are some inside brackets. -/
  outer : List (Option OpenKey)
  /-- Whether a key may begin at the next token. -/
  mayOpen : Bool

namespace Scan

/-- Nothing has been read. -/
def start : Scan := ⟨[], [], 0, [], none, [], true⟩

/-- Whether the next token is inside brackets. -/
def inFlow (st : Scan) : Bool := !st.outer.isEmpty

/-- The least column of what belongs to the innermost block. -/
def least (st : Scan) : Nat :=
  match st.indents with
  | [] => 0
  | n :: _ => n + 1

/-- Adds a token. -/
def push (t : Token) (st : Scan) : Scan := { st with slots := .token t :: st.slots }

/-- Says whether a key may begin at the next token. -/
def permit (b : Bool) (st : Scan) : Scan := { st with mayOpen := b }

/-- Whether the rest of the source is too far from an open place for a colon to belong to it: on
another line, or more than 1024 characters ahead. -/
def isStale (s : Source) (k : OpenKey) : Bool := k.line < s.line || k.index + 1024 < s.index

/-- Gives an open place up if it is stale; one where there has to be a key cannot be given up. -/
def refresh? (s : Source) : Option OpenKey → Option (Option OpenKey)
  | none => some none
  | some k => if isStale s k then (if k.required then none else some none) else some (some k)

/-- Gives the stale places up. -/
def dropStale? (s : Source) (st : Scan) : Option Scan := do
  let inner ← refresh? s st.open?
  let outer ← st.outer.mapM (refresh? s)
  some { st with open? := inner, outer := outer }

/-- Gives the innermost open place up. -/
def dropKey? (st : Scan) : Option Scan :=
  match st.open? with
  | none => some st
  | some k => if k.required then none else some { st with open? := none }

/-- Notes that a key may begin here. -/
def openKey? (s : Source) (st : Scan) : Option Scan :=
  if st.mayOpen then do
    let st ← st.dropKey?
    let required := !st.inFlow && st.indents.head? == some s.column
    some { st with
      slots := .keyPlace st.nextId :: st.slots
      nextId := st.nextId + 1
      open? := some ⟨st.nextId, s.line, s.column, s.index, required⟩ }
  else some st

/-- Ends the blocks indented more than `column`; without a column, all. -/
def closeBlocks (column : Option Nat) : (indents : List Nat) → Scan → Scan
  | [], st => { st with indents := [] }
  | n :: ns, st =>
    if column.any (n ≤ ·) then { st with indents := n :: ns }
    else closeBlocks column ns (st.push .blockEnd)

/-- Ends the blocks indented more than `column`, unless inside brackets. -/
def unindent (column : Option Nat) (st : Scan) : Scan :=
  if st.inFlow then st else closeBlocks column st.indents st

/-- Whether a block begins at `column`. -/
def beginsBlock (column : Nat) (st : Scan) : Bool := !st.inFlow && st.least ≤ column

/-- Begins a block at `column` if it is indented more than the innermost one. -/
def indent (column : Nat) (t : Token) (st : Scan) : Scan :=
  if st.beginsBlock column then { st.push t with indents := column :: st.indents } else st

/-- Opens brackets. -/
def enter (st : Scan) : Scan := { st with open? := none, outer := st.open? :: st.outer }

/-- Closes brackets. -/
def leave (st : Scan) : Scan :=
  match st.outer with
  | [] => st
  | k :: ks => { st with open? := k, outer := ks }

/-- What an open place has turned out to be. -/
def fate (st : Scan) (id : Nat) : KeyFate :=
  match st.keys.lookup id with
  | none => .none
  | some first => if first then .firstKey else .key

/-- The tokens in order. -/
def tokens (st : Scan) : List Token :=
  st.slots.foldl (fun ts slot =>
    match slot with
    | .token t => t :: ts
    | .keyPlace id =>
      match st.fate id with
      | .none => ts
      | .key => .key :: ts
      | .firstKey => .blockMappingStart :: .key :: ts) []

/-! ## Tokens -/

/-- Reads a mark at the beginning or the end of a document. -/
def document? (t : Token) (st : Scan) : Option Scan := do
  let st ← (st.unindent none).dropKey?
  some ((st.permit false).push t)

/-- Reads an opening bracket. -/
def flowStart? (s : Source) (t : Token) (st : Scan) : Option Scan := do
  let st ← st.openKey? s
  some ((st.enter.permit true).push t)

/-- Reads a closing bracket. -/
def flowEnd? (t : Token) (st : Scan) : Option Scan := do
  let st ← st.dropKey?
  some ((st.leave.permit false).push t)

/-- Reads a comma between entries. -/
def flowEntry? (st : Scan) : Option Scan := do
  let st ← st.dropKey?
  some ((st.permit true).push .flowEntry)

/-- Reads the hyphen of an entry. -/
def blockEntry? (s : Source) (st : Scan) : Option Scan :=
  if !st.inFlow && !st.mayOpen then none
  else do
    let st ← (st.indent s.column .blockSequenceStart).dropKey?
    some ((st.permit true).push .blockEntry)

/-- Reads the question mark of a key. -/
def key? (s : Source) (st : Scan) : Option Scan :=
  if !st.inFlow && !st.mayOpen then none
  else do
    let st ← (st.indent s.column .blockMappingStart).dropKey?
    some ((st.permit (!st.inFlow)).push .key)

/-- Reads the colon of a value: what began at the open place is its key, or else the key is
empty. -/
def value? (s : Source) (st : Scan) : Option Scan :=
  match st.open? with
  | some k =>
    let first := st.beginsBlock k.column
    some (({ st with
      keys := (k.id, first) :: st.keys
      indents := if first then k.column :: st.indents else st.indents
      open? := none }.permit false).push .value)
  | none =>
    if !st.inFlow && !st.mayOpen then none
    else some (((st.indent s.column .blockMappingStart).permit (!st.inFlow)).push .value)

/-- Reads a token that may be or begin a key. -/
def property? (s : Source) (t : Token) (st : Scan) : Option Scan := do
  let st ← st.openKey? s
  some ((st.permit false).push t)

/-- Passes over blanks, comments and line breaks. Where a key may begin in a block, a tab is no
blank. Every round reads a break, so fuel beyond the length of the source changes nothing. -/
def toNext : (fuel : Nat) → Scan → Source → Scan × Source
  | 0, st, s => (st, s)
  | fuel + 1, st, s =>
    let r := skipComment (s.skip fun c => c == ' ' || ((st.inFlow || !st.mayOpen) && c == '\t'))
    if isBreak r.char then toNext fuel (if st.inFlow then st else st.permit true) r.next
    else (st, r)

/-- The characters that no plain scalar begins with. -/
def isIndicator (c : Char) : Bool := "-?:,[]{}#&*!|>\x27\x22%@\x60".toList.contains c

/-- Whether a plain scalar begins here. -/
def beginsPlain (st : Scan) (s : Source) : Bool :=
  (!isGapOrEnd s.char && !isIndicator s.char) || (s.char == '-' && !isBlank s.second) ||
    (!st.inFlow && (s.char == '?' || s.char == ':') && !isGapOrEnd s.second)

/-- Reads a scalar or another token that is more than an indicator. -/
def content? (st : Scan) (s : Source) : Option (Scan × Source) :=
  let c := s.char
  if c == '*' then do
    let (name, r) ← anchorName? s.next
    (st.property? s (.reference name)).map fun st => (st, r)
  else if c == '&' then do
    let (name, r) ← anchorName? s.next
    (st.property? s (.anchor name)).map fun st => (st, r)
  else if c == '!' then do
    let (t, r) ← tag? st.inFlow s
    (st.property? s (.tag t)).map fun st => (st, r)
  else if (c == '|' || c == '>') && !st.inFlow then do
    let (t, r) ← block? (c == '|') st.least s
    let st ← st.dropKey?
    some ((st.permit true).push (.scalar t (if c == '|' then .literal else .folded)), r)
  else if c == '\x27' then do
    let (t, r) ← quoted? true s
    (st.property? s (.scalar t .singleQuoted)).map fun st => (st, r)
  else if c == '\x22' then do
    let (t, r) ← quoted? false s
    (st.property? s (.scalar t .doubleQuoted)).map fun st => (st, r)
  else if st.beginsPlain s then do
    let (t, broken, r) ← plain? st.inFlow st.least s
    (st.property? s (.scalar t .plain)).map fun st => (st.permit broken, r)
  else none

/-- Reads a token that begins here. -/
def token? (st : Scan) (s : Source) : Option (Scan × Source) :=
  let c := s.char
  let with1 (st : Option Scan) : Option (Scan × Source) := st.map fun st => (st, s.next)
  if s.column == 0 && c == '%' then do
    let (d, r) ← directive? s
    (st.document? (.directive d)).map fun st => (st, r)
  else if s.column == 0 && s.isTripled '-' then
    (st.document? .documentStart).map fun st => (st, s.ahead 3)
  else if s.column == 0 && s.isTripled '.' then
    (st.document? .documentEnd).map fun st => (st, s.ahead 3)
  else if c == '[' then with1 (st.flowStart? s .flowSequenceStart)
  else if c == '{' then with1 (st.flowStart? s .flowMappingStart)
  else if c == ']' then with1 (st.flowEnd? .flowSequenceEnd)
  else if c == '}' then with1 (st.flowEnd? .flowMappingEnd)
  else if c == ',' then with1 st.flowEntry?
  else if c == '-' && isGapOrEnd s.second then with1 (st.blockEntry? s)
  else if c == '?' && (st.inFlow || isGapOrEnd s.second) then with1 (st.key? s)
  else if c == ':' && (st.inFlow || isGapOrEnd s.second) then with1 (st.value? s)
  else st.content? s

/-- Reads tokens up to the end. Every round reads a character, so fuel beyond the length of the
source changes nothing. -/
def readFrom? : (fuel : Nat) → Scan → Source → Option Scan
  | 0, _, _ => none
  | fuel + 1, st, s => do
    let (st, s) := st.toNext (s.length + 1) s
    let st ← st.dropStale? s
    let st := st.unindent (some s.column)
    if s.atEnd then (st.unindent none).dropKey?
    else
      let (st, r) ← st.token? s
      readFrom? fuel st r

end Scan

/-- Reads the tokens of a text. -/
def Token.readAll? (t : Text) : Option (List Token) := do
  let s ← Source.ofText? t
  let st ← Scan.start.readFrom? (s.length + 1) s
  some st.tokens

end ImageAudit.Yaml
