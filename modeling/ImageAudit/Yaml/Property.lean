import ImageAudit.Yaml.Scalar

/-!
# Anchors, tags and directives

* `anchorName?` reads the name of an anchor or of a reference to one.
* `tag?` reads a tag as its handle and the rest.
* `directive?` reads a line that begins with a percent sign.
-/

namespace ImageAudit.Yaml

open Text Source

/-! ## Anchors -/

/-- Whether a character may follow the name of an anchor. -/
def endsAnchor (c : Char) : Bool :=
  isGapOrEnd c || c == '?' || c == ':' || c == ',' || c == ']' || c == '}' || c == '%' ||
    c == '@' || c == '\x60'

/-- Reads the name of an anchor. -/
def anchorName? (s : Source) : Option (Text × Source) :=
  let (name, r) := s.takeRow isNameChar
  if name.isEmpty || !endsAnchor r.char then none else some (name, r)

/-! ## Tags -/

/-- The name of a type: a handle, which stands for the beginning, and the rest. -/
structure TagName where
  handle : Text
  suffix : Text
  deriving DecidableEq

/-- The characters of a tag's text. -/
def isTagChar (bracketed : Bool) (c : Char) : Bool :=
  isNameChar c || ";/?:@&=+$.!~*\x27()".toList.contains c ||
    (bracketed && ",[]".toList.contains c)

/-- The bytes written as a percent sign and two hexadecimal digits at the front of a source. -/
def percentByte? (s : Source) : Option (Nat × Source) :=
  if s.char == '%' then
    (hexValue? ((s.next.take 2).map Placed.char)).map fun n => (n, s.ahead 3)
  else none

/-- The number of bytes of a character that begins with a byte. -/
def byteCount (b : Nat) : Nat :=
  if b < 0x80 then 1 else if b < 0xC0 then 0 else if b < 0xE0 then 2 else if b < 0xF0 then 3
  else if b < 0xF8 then 4 else 0

/-- The bits that the first byte of a character contributes. -/
def leadingBits (b : Nat) : Nat :=
  if b < 0x80 then b else if b < 0xE0 then b - 0xC0 else if b < 0xF0 then b - 0xE0 else b - 0xF0

/-- Reads further bytes of a character. -/
def moreBytes? : (count : Nat) → (value : Nat) → Source → Option (Nat × Source)
  | 0, value, s => some (value, s)
  | count + 1, value, s => do
    let (b, r) ← percentByte? s
    if 0x80 ≤ b && b < 0xC0 then moreBytes? count (64 * value + (b - 0x80)) r else none

/-- Reads a character written in bytes. -/
def percentChar? (s : Source) : Option (Char × Source) := do
  let (b, r) ← percentByte? s
  if byteCount b = 0 then none
  else
    let (n, r) ← moreBytes? (byteCount b - 1) (leadingBits b) r
    if h : n.isValidChar then some (Char.ofNatAux n h, r) else none

/-- Reads the text of a tag. Every round reads a character, so fuel beyond the length of the source
changes nothing. -/
def tagTextFrom? (bracketed : Bool) : (fuel : Nat) → Source → Option (Text × Source)
  | 0, _ => none
  | fuel + 1, s =>
    if s.char == '%' then do
      let (c, r) ← percentChar? s
      let (t, r) ← tagTextFrom? bracketed fuel r
      some (c :: t, r)
    else if isTagChar bracketed s.char then
      (tagTextFrom? bracketed fuel s.next).map fun (t, r) => (s.char :: t, r)
    else some ([], s)

/-- Reads the text of a tag. -/
def tagText? (bracketed : Bool) (s : Source) : Option (Text × Source) :=
  tagTextFrom? bracketed (s.length + 1) s

/-- Reads a handle: an exclamation mark, a name and perhaps another exclamation mark. -/
def handle? (s : Source) : Option (Text × Source) :=
  if s.char != '!' then none
  else
    let (name, r) := s.next.takeRow isNameChar
    if r.char == '!' then some ('!' :: name ++ ['!'], r.next) else some ('!' :: name, r)

/-- Whether a handle ends in an exclamation mark of its own. -/
def isNamedHandle (h : Text) : Bool := 2 ≤ h.length && h.getLast? == some '!'

/-- Reads a tag written out between angle brackets. -/
def verbatimTag? (s : Source) : Option (TagName × Source) := do
  let (t, r) ← tagText? true s
  if t.isEmpty || r.char != '>' then none else some (⟨[], t⟩, r.next)

/-- Reads a tag that begins with a handle. A single exclamation mark alone is a tag that says
nothing. -/
def shortTag? (s : Source) : Option (TagName × Source) := do
  let (h, r) ← handle? s
  let (t, r) ← tagText? false r
  if isNamedHandle h then (if t.isEmpty then none else some (⟨h, t⟩, r))
  else if (h.tail ++ t).isEmpty then some (⟨[], ['!']⟩, r)
  else some (⟨['!'], h.tail ++ t⟩, r)

/-- Reads a tag, which a gap has to follow, or a comma inside brackets. -/
def tag? (flow : Bool) (s : Source) : Option (TagName × Source) := do
  let (t, r) ← if s.second == '<' then verbatimTag? (s.ahead 2) else shortTag? s
  if isGapOrEnd r.char || (flow && r.char == ',') then some (t, r) else none

/-! ## Directives -/

/-- What a directive says. -/
inductive Directive where
  | version (major minor : Nat)
  | handle (name start : Text)
  deriving DecidableEq

/-- Reads a number of at most nine digits. -/
def versionNumber? (s : Source) : Option (Nat × Source) :=
  let (ds, r) := s.takeRow Char.isDigit
  if ds.isEmpty || 9 < ds.length then none
  else some (ds.foldl (fun n c => 10 * n + (c.toNat - '0'.toNat)) 0, r)

/-- Reads the numbers of a version. -/
def version? (s : Source) : Option (Directive × Source) := do
  let (major, r) ← versionNumber? s
  if r.char != '.' then none
  else
    let (minor, r) ← versionNumber? r.next
    some (.version major minor, r)

/-- Reads a handle and what it stands for. -/
def handleDirective? (s : Source) : Option (Directive × Source) := do
  let (h, r) ← handle? s
  if !(h == ['!'] || isNamedHandle h) || !isBlank r.char then none
  else
    let (t, r) ← tagText? true (r.skip isBlank)
    if t.isEmpty || !isGapOrEnd r.char then none else some (.handle h t, r)

/-- Reads a directive that begins here, with the break after it. -/
def directive? (s : Source) : Option (Directive × Source) := do
  let (name, r) := s.next.takeRow isNameChar
  if !isGapOrEnd r.char then none
  else
    let r := r.skip isBlank
    let (d, r) ← if name == "YAML".toList then version? r
      else if name == "TAG".toList then handleDirective? r
      else none
    let r := skipComment (r.skip isBlank)
    if isBreakOrEnd r.char then some (d, r.takeBreak.2) else none

end ImageAudit.Yaml
