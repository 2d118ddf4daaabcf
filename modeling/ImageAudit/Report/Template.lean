import ImageAudit.Report.Content
import ImageAudit.Text.Blank
import ImageAudit.Text.Numeral

/-!
# Templates

A template is a text with values in double braces, and with loops and alternatives between tags of
a brace and a percent sign. A hyphen inside the braces takes the white space off the text next to
them. The language of templates has much more than what is read here: runs take what fills in
templates as a parameter, and what is here serves where nothing else is given.

* `Template.ofText?` reads a template.
* `Template.render?` fills it in; it fails if a value is missing.
* `Value.ofContent` is what a template may refer to.
-/

namespace ImageAudit.Report

open Text

/-! ## Values -/

/-- A value that a template may refer to; numbers are in hundredths. -/
inductive Value where
  | text (t : Text)
  | number (hundredths : Nat)
  | flag (b : Bool)
  | list (items : List Value)
  | record (fields : List (Text × Value))

namespace Value

/-- A count. -/
def count (n : Nat) : Value := number (100 * n)

/-- Whether a value counts as a yes: it is neither zero nor empty. -/
def holds : Value → Bool
  | text t => !t.isEmpty
  | number n => n != 0
  | flag b => b
  | list vs => !vs.isEmpty
  | record fs => !fs.isEmpty

mutual

/-- Writes a value. -/
def render : Value → Text
  | text t => t
  | number n => hundredths n
  | flag b => if b then "true".toList else "false".toList
  | list vs => '[' :: renderItems true vs ++ [']']
  | record _ => "[object]".toList

/-- Writes the items of a list. -/
def renderItems : (first : Bool) → List Value → Text
  | _, [] => []
  | first, v :: vs => (if first then [] else ", ".toList) ++ render v ++ renderItems false vs

end

/-- The part of a value with a name, or, of a list, with a number. -/
def part? (name : Text) : Value → Option Value
  | record fs => fs.lookup name
  | list vs => (numeral? name).bind fun n => vs[n]?
  | _ => none

/-- How much a value holds: characters, items or fields. -/
def size? : Value → Option Nat
  | text t => some t.length
  | list vs => some vs.length
  | record fs => some fs.length
  | _ => none

/-- The items of a value; of a text, its characters. -/
def items? : Value → Option (List Value)
  | list vs => some vs
  | text t => some (t.map fun c => text [c])
  | _ => none

/-! ## The values of a report -/

/-- A rule. -/
def ofRule (r : RuleRow) : Value :=
  record [("kind".toList, text r.kind), ("description".toList, text r.description),
    ("details".toList, text r.details)]

/-- The files in numbers. -/
def ofSummary (s : Summary) : Value :=
  record [("total".toList, count s.total), ("passed".toList, count s.passed),
    ("failed".toList, count s.failed), ("skipped".toList, count s.skipped),
    ("success_percentage".toList, number s.successShare),
    ("failed_percentage".toList, number s.failedShare),
    ("compliance_level".toList, text s.compliance.name),
    ("compliance_color".toList, text s.compliance.colour)]

/-- The findings of a rule in numbers. -/
def ofShare (r : ShareRow) : Value :=
  record [("kind".toList, text r.kind), ("count".toList, count r.count),
    ("percentage".toList, number r.share)]

/-- A finding. -/
def ofFinding (f : FindingRow) : Value :=
  record [("kind".toList, text f.kind), ("details".toList, text f.details),
    ("mitigation".toList, text f.mitigation), ("statement".toList, text f.statement)]

/-- A result. -/
def ofResult (r : ResultRow) : Value :=
  record [("filename".toList, text r.fileName), ("maintainers".toList, text r.maintainers),
    ("passed".toList, flag r.passed), ("findings".toList, list (r.findings.map ofFinding))]

/-- What a template may refer to. -/
def ofContent (c : Content) : Value :=
  record [("generated_at".toList, text c.date), ("rules".toList, list (c.rules.map ofRule)),
    ("summary".toList, ofSummary c.summary), ("violations".toList, list (c.shares.map ofShare)),
    ("results".toList, list (c.results.map ofResult))]

end Value

/-! ## Templates -/

/-- The names that lead to a value. -/
abbrev ValuePath := List Text

/-- What can be made of a value before it is written. -/
inductive Filter where
  | length
  deriving DecidableEq

/-- Makes of a value what a filter makes of it. -/
def Filter.on? : Filter → Value → Option Value
  | length, v => v.size?.map .count

/-- A part of a template. -/
inductive Template where
  | text (t : Text)
  | value (path : ValuePath) (filters : List Filter)
  /-- Once for each item of a list. -/
  | loop (item : Text) (path : ValuePath) (body : List Template)
  | branch (condition : ValuePath) (yes no : List Template)

namespace Template

/-- The value a path leads to. -/
def value? (scope : Value) : ValuePath → Option Value
  | [] => some scope
  | n :: ns => (scope.part? n).bind fun v => value? v ns

/-- Makes of a value what filters make of it, one after the other. -/
def filtered? : List Filter → Value → Option Value
  | [], v => some v
  | f :: fs, v => (f.on? v).bind (filtered? fs)

/-- The scope inside a loop: the item has a name, and so has its place among the items. -/
def inner (item : Text) (count : Nat) (scope : Value) (v : Value) (n : Nat) : Value :=
  match scope with
  | .record fs =>
    .record ((item, v) ::
      ("loop".toList, .record [("index".toList, .count (n + 1)), ("index0".toList, .count n),
        ("first".toList, .flag (n = 0)), ("last".toList, .flag (n + 1 = count))]) :: fs)
  | other => other

mutual

/-- Fills a part in. -/
def renderOne? (scope : Value) : Template → Option Text
  | text t => some t
  | value path filters => ((value? scope path).bind (filtered? filters)).map Value.render
  | loop item path body => do
    let v ← value? scope path
    let vs ← v.items?
    let ts ← vs.zipIdx.mapM fun (v, n) => render? (inner item vs.length scope v n) body
    some ts.flatten
  | branch condition yes no =>
    if (value? scope condition).any Value.holds then render? scope yes else render? scope no

/-- Fills a template in. -/
def render? (scope : Value) : List Template → Option Text
  | [] => some []
  | p :: ps => do
    let t ← renderOne? scope p
    let ts ← render? scope ps
    some (t ++ ts)

end

/-! ## Pieces -/

/-- A piece of the text of a template: text, or what stands between a pair of braces. -/
inductive Piece where
  | text (t : Text)
  /-- A value and its filters. -/
  | value (names : List Text)
  | tag (words : List Text)
  | comment
  deriving DecidableEq

/-- How a pair of braces begins. -/
inductive Brace where
  | value
  | tag
  | comment
  deriving DecidableEq

/-- The character inside the braces. -/
def Brace.char : Brace → Char
  | value => '\x7b'
  | tag => '%'
  | comment => '#'

/-- The character before the closing brace. -/
def Brace.closing : Brace → Char
  | value => '\x7d'
  | tag => '%'
  | comment => '#'

/-- The pair of braces that begins at the front of a text. -/
def Brace.ofText? : Text → Option (Brace × Text)
  | '\x7b' :: c :: r => ([value, tag, comment].find? fun b => b.char == c).map fun b => (b, r)
  | _ => none

/-- Reads up to the end of a pair of braces. -/
def Brace.body? (b : Brace) : Text → Option (Text × Text)
  | [] => none
  | [_] => none
  | c :: d :: r =>
    if c == b.closing && d == '\x7d' then some ([], r)
    else (b.body? (d :: r)).map fun (t, rest) => (c :: t, rest)

/-- What stands between a pair of braces without the hyphens at its ends, and whether they are
there. -/
def unhyphen (t : Text) : Bool × Text × Bool :=
  let (before, t) := match t with
    | '-' :: r => (true, r)
    | r => (false, r)
  match dropSuffix? ['-'] t with
  | some r => (before, r, true)
  | none => (before, t, false)

/-- The piece between a pair of braces. -/
def Brace.piece (b : Brace) (body : Text) : Piece :=
  match b with
  | value => .value ((pieces '|' body).map trim)
  | tag => .tag (words body)
  | comment => .comment

/-- A text, with white space taken off where a hyphen is next to it. -/
def textPiece (trimsBefore trimsAfter : Bool) (t : Text) : Piece :=
  let t := if trimsBefore then trimStart t else t
  .text (if trimsAfter then trimEnd t else t)

/-- Reads the pieces of a text, of which `before` has been read already, newest first. Every round
reads a character, so fuel beyond the length of the text changes nothing. -/
def pieces? : (fuel : Nat) → (trimsBefore : Bool) → (before : Text) → Text → Option (List Piece)
  | 0, _, _, _ => none
  | fuel + 1, trimsBefore, before, t =>
    match Brace.ofText? t with
    | some (b, r) => do
      let (body, r) ← b.body? r
      let (hyphenBefore, body, hyphenAfter) := unhyphen body
      let more ← pieces? fuel hyphenAfter [] r
      some (textPiece trimsBefore hyphenBefore before.reverse :: b.piece body :: more)
    | none =>
      match t with
      | [] => some [textPiece trimsBefore false before.reverse]
      | c :: r => pieces? fuel trimsBefore (c :: before) r

/-! ## Reading templates -/

/-- Whether a text may name a value. -/
def isName : Text → Bool
  | [] => false
  | c :: r => (c.isAlpha || c == '_') && r.all fun c => c.isAlphanum || c == '_'

/-- Whether a text may name a part of a value. -/
def isPartName (t : Text) : Bool := !t.isEmpty && t.all fun c => c.isAlphanum || c == '_'

/-- Reads a path. -/
def path? (t : Text) : Option ValuePath :=
  match pieces '.' t with
  | n :: ns => if isName n && ns.all isPartName then some (n :: ns) else none
  | [] => none

/-- What the words of a tag say. -/
inductive Tag where
  | loop (item : Text) (path : ValuePath)
  | branch (condition : ValuePath)
  | otherwise
  | loopEnd
  | branchEnd
  deriving DecidableEq

/-- Reads the words of a tag. -/
def Tag.ofWords? : List Text → Option Tag
  | [w] =>
    if w == "else".toList then some otherwise
    else if w == "endfor".toList then some loopEnd
    else if w == "endif".toList then some branchEnd
    else none
  | [w, c] => if w == "if".toList then (path? c).map branch else none
  | [w, item, sep, p] =>
    if w == "for".toList && sep == "in".toList && isName item then (path? p).map (loop item)
    else none
  | _ => none

/-- The filter of a name. -/
def Filter.ofName? (t : Text) : Option Filter := if t == "length".toList then some .length else none

/-- Reads a value and its filters. -/
def ofNames? : List Text → Option Template
  | [] => none
  | p :: fs => do
    let path ← path? p
    let filters ← fs.mapM Filter.ofName?
    some (value path filters)

/-- Reads a tag that has to be there. -/
def expect? (t : Tag) : List Piece → Option (List Piece)
  | .tag ws :: ps => if Tag.ofWords? ws == some t then some ps else none
  | _ => none

/-- Reads parts up to a tag that ends or divides them. Every round reads a piece, so fuel beyond the
number of pieces changes nothing. -/
def parts? : (fuel : Nat) → List Piece → Option (List Template × List Piece)
  | 0, _ => none
  | _ + 1, [] => some ([], [])
  | fuel + 1, .text t :: ps => (parts? fuel ps).map fun (ts, rest) => (text t :: ts, rest)
  | fuel + 1, .comment :: ps => parts? fuel ps
  | fuel + 1, .value names :: ps => do
    let v ← ofNames? names
    let (ts, rest) ← parts? fuel ps
    some (v :: ts, rest)
  | fuel + 1, .tag ws :: ps => do
    match ← Tag.ofWords? ws with
    | .loop item path =>
      let (body, ps) ← parts? fuel ps
      let ps ← expect? .loopEnd ps
      let (ts, rest) ← parts? fuel ps
      some (loop item path body :: ts, rest)
    | .branch condition =>
      let (yes, ps) ← parts? fuel ps
      let (no, ps) ← match expect? .otherwise ps with
        | some ps => parts? fuel ps
        | none => some ([], ps)
      let ps ← expect? .branchEnd ps
      let (ts, rest) ← parts? fuel ps
      some (branch condition yes no :: ts, rest)
    | _ => some ([], .tag ws :: ps)

/-- Reads a template. -/
def ofText? (t : Text) : Option (List Template) := do
  let ps ← pieces? (t.length + 1) false [] t
  let (ts, rest) ← parts? (ps.length + 1) ps
  if rest.isEmpty then some ts else none

/-- Reads a template and fills it in with the content of a report. -/
def fill? (t : Text) (c : Content) : Option Text := do
  let ts ← ofText? t
  render? (Value.ofContent c) ts

end Template

end ImageAudit.Report
