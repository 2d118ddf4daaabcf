import ImageAudit.Policy.Finding
import ImageAudit.Text.Quote

/-!
# JSON reports

The results of a batch as a JSON array, over several lines or on one.

* `Json.compact` and `Json.pretty` write a value.
* `Json.ofResult` is the value of a result.
-/

namespace ImageAudit.Json

open Text

/-- A JSON value; objects keep the order of their fields. -/
inductive Value where
  | null
  | string (t : Text)
  | array (items : List Value)
  | object (fields : List (Text × Value))

/-! ## Strings -/

/-- A hexadecimal digit in lower case. -/
def hexDigit (n : Nat) : Char :=
  if n < 10 then Char.ofNat ('0'.toNat + n) else Char.ofNat ('a'.toNat + n - 10)

/-- How a character is written: quotation marks, backslashes and control characters are escaped. -/
def escapeChar (c : Char) : Text :=
  if c = doubleQuote then ['\\', doubleQuote]
  else if c = '\\' then ['\\', '\\']
  else if c = '\x08' then ['\\', 'b']
  else if c = '\x0c' then ['\\', 'f']
  else if c = '\n' then ['\\', 'n']
  else if c = '\r' then ['\\', 'r']
  else if c = '\t' then ['\\', 't']
  else if c.toNat < 0x20 then
    ['\\', 'u', '0', '0', hexDigit (c.toNat / 16), hexDigit (c.toNat % 16)]
  else [c]

/-- Writes a string. -/
def quote (t : Text) : Text := doubleQuote :: t.flatMap escapeChar ++ [doubleQuote]

/-! ## Values -/

mutual

/-- Writes a value on one line. -/
def compact : Value → Text
  | .null => "null".toList
  | .string t => quote t
  | .array items => '[' :: compactItems true items ++ [']']
  | .object fields => '\x7b' :: compactFields true fields ++ ['\x7d']

/-- Writes the items of an array. -/
def compactItems : (first : Bool) → List Value → Text
  | _, [] => []
  | first, v :: vs => (if first then [] else [',']) ++ compact v ++ compactItems false vs

/-- Writes the fields of an object. -/
def compactFields : (first : Bool) → List (Text × Value) → Text
  | _, [] => []
  | first, (k, v) :: fs =>
    (if first then [] else [',']) ++ quote k ++ ':' :: compact v ++ compactFields false fs

end

/-- A line break and the blanks before a line at a depth. -/
def newLine (depth : Nat) : Text := '\n' :: List.replicate (2 * depth) ' '

/-- What stands before an item. -/
def separator (first : Bool) (depth : Nat) : Text :=
  if first then newLine depth else ',' :: newLine depth

mutual

/-- Writes a value over several lines; what is in it is at the next depth. -/
def prettyAt (depth : Nat) : Value → Text
  | .null => "null".toList
  | .string t => quote t
  | .array [] => "[]".toList
  | .array (v :: vs) => '[' :: prettyItems (depth + 1) true (v :: vs) ++ newLine depth ++ [']']
  | .object [] => "\x7b\x7d".toList
  | .object (f :: fs) =>
    '\x7b' :: prettyFields (depth + 1) true (f :: fs) ++ newLine depth ++ ['\x7d']

/-- Writes the items of an array, each on its own line. -/
def prettyItems (depth : Nat) : (first : Bool) → List Value → Text
  | _, [] => []
  | first, v :: vs => separator first depth ++ prettyAt depth v ++ prettyItems depth false vs

/-- Writes the fields of an object, each on its own line. -/
def prettyFields (depth : Nat) : (first : Bool) → List (Text × Value) → Text
  | _, [] => []
  | first, (k, v) :: fs =>
    separator first depth ++ quote k ++ ": ".toList ++ prettyAt depth v ++
      prettyFields depth false fs

end

/-- Writes a value over several lines. -/
def pretty (v : Value) : Text := prettyAt 0 v

/-! ## Reports -/

/-- The value of a text that may be missing. -/
def ofOption : Option Text → Value
  | some t => .string t
  | none => .null

/-- The value of a finding. -/
def ofFinding (f : Finding) : Value :=
  .object [("type".toList, .string f.kind.name), ("details".toList, .string f.details),
    ("mitigation".toList, .string f.mitigation), ("statement".toList, ofOption f.statement)]

/-- The value of a result. -/
def ofResult (r : AuditResult) : Value :=
  .object [("filename".toList, .string r.fileName), ("maintainers".toList, ofOption r.maintainers),
    ("outcome".toList, .string r.verdict.name),
    ("findings".toList, .array (r.findings.map ofFinding))]

/-- Writes results, with a line break at the end. -/
def report (isPretty : Bool) (rs : List AuditResult) : Text :=
  let v := Value.array (rs.map ofResult)
  (if isPretty then pretty v else compact v) ++ ['\n']

end ImageAudit.Json
