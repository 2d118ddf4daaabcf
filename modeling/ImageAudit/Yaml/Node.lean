import ImageAudit.Yaml.Token

/-!
# YAML documents

The tokens of a text that holds one document make up a tree of scalars, sequences and mappings, in
which a node with an anchor may be referred to from later places. The common forms of YAML are known
here; runs take the reader of documents as a parameter.

* `Document.ofText?` reads a text that holds exactly one document.
* `Document.resolve?` finds the node a reference stands for.
-/

namespace ImageAudit.Yaml

open Text

/-- A scalar as written; without a tag it has the type its form suggests. -/
structure Scalar where
  value : Text
  style : Style
  tag : Option Text
  deriving DecidableEq

/-- A node of a document. -/
inductive Node where
  | scalar (s : Scalar)
  | sequence (items : List Node)
  | mapping (entries : List (Node × Node))
  /-- The anchored node of this number. -/
  | reference (id : Nat)

/-- The node where nothing is written. -/
def Node.empty : Node := .scalar ⟨[], .plain, none⟩

/-- A tree of nodes, and those that have anchors. -/
structure Document where
  root : Node
  anchored : List (Nat × Node)

/-- What a node stands for. -/
def Document.resolve? (d : Document) : Node → Option Node
  | .reference id => d.anchored.lookup id
  | n => some n

/-! ## State -/

/-- The tokens that are left, and what was said before. -/
structure Nodes where
  tokens : List Token
  /-- The handles of tags and what they stand for. -/
  handles : List (Text × Text)
  /-- The names of anchors with their numbers, newest first. -/
  anchors : List (Text × Nat)
  anchored : List (Nat × Node)

namespace Nodes

/-- Whether the next token is one of these. -/
def sees (st : Nodes) (ts : List Token) : Bool := st.tokens.head?.any ts.contains

/-- Passes over the next token. -/
def skip (st : Nodes) : Nodes := { st with tokens := st.tokens.tail }

/-- Passes over this token, which has to be there. -/
def expect? (t : Token) (st : Nodes) : Option Nodes :=
  if st.tokens.head? == some t then some st.skip else none

/-! ## Properties -/

/-- Reads an anchor, if there is one. -/
def anchor (st : Nodes) : Option Text × Nodes :=
  match st.tokens with
  | .anchor name :: ts => (some name, { st with tokens := ts })
  | _ => (none, st)

/-- Reads a tag, if there is one. -/
def tag (st : Nodes) : Option TagName × Nodes :=
  match st.tokens with
  | .tag t :: ts => (some t, { st with tokens := ts })
  | _ => (none, st)

/-- Reads an anchor and a tag in either order. -/
def properties (st : Nodes) : Option Text × Option TagName × Nodes :=
  match st.anchor with
  | (some a, st) => (some a, st.tag)
  | (none, st) =>
    let (t, st) := st.tag
    let (a, st) := if t.isSome then st.anchor else (none, st)
    (a, t, st)

/-- The text of a tag; its handle has to be known. -/
def tagText? (st : Nodes) (t : TagName) : Option Text :=
  if t.handle.isEmpty then some t.suffix
  else (st.handles.lookup t.handle).map fun start => start ++ t.suffix

/-- A tag that says something. -/
def meaning (tag : Option Text) : Option Text := tag.filter fun t => t != ['!']

/-- Gives a node that begins here a number, if it has an anchor. -/
def number (name : Option Text) (st : Nodes) : Nodes :=
  match name with
  | some name => { st with anchors := (name, st.anchors.length) :: st.anchors }
  | none => st

/-- Keeps an anchored node under the number it got when it began. -/
def record (name : Option Text) (id : Nat) (n : Node) (st : Nodes) : Node × Nodes :=
  if name.isSome then (n, { st with anchored := (id, n) :: st.anchored }) else (n, st)

end Nodes

/-! ## Nodes from tokens -/

mutual

/-- Reads a node. Every round of calls reads a token, so fuel beyond three times their number
changes nothing. -/
def node? : (fuel : Nat) → (block : Bool) → (indentless : Bool) → Nodes → Option (Node × Nodes)
  | 0, _, _, _ => none
  | fuel + 1, block, indentless, st =>
    match st.tokens with
    | .reference name :: ts =>
      (st.anchors.lookup name).map fun id => (.reference id, { st with tokens := ts })
    | _ => do
      let (anchor, tag, st) := st.properties
      let text ← match tag with
        | some t => (st.tagText? t).map some
        | none => some none
      let id := st.anchors.length
      let (n, st) ← content? fuel block indentless (anchor.isSome || tag.isSome) text
        (st.number anchor)
      some (st.record anchor id n)

/-- Reads the content of a node; with an anchor or a tag it may be missing. -/
def content? : (fuel : Nat) → (block : Bool) → (indentless : Bool) → (optional : Bool) →
    (tag : Option Text) → Nodes → Option (Node × Nodes)
  | 0, _, _, _, _, _ => none
  | fuel + 1, block, indentless, optional, tag, st =>
    match st.tokens with
    | .scalar value style :: _ => some (.scalar ⟨value, style, Nodes.meaning tag⟩, st.skip)
    | .flowSequenceStart :: _ =>
      (flowItems? fuel true st.skip).map fun (ns, st) => (.sequence ns, st)
    | .flowMappingStart :: _ =>
      (flowEntries? fuel true st.skip).map fun (es, st) => (.mapping es, st)
    | ts =>
      if indentless && ts.head? == some .blockEntry then
        (looseItems? fuel st).map fun (ns, st) => (.sequence ns, st)
      else if block && ts.head? == some .blockSequenceStart then
        (blockItems? fuel st.skip).map fun (ns, st) => (.sequence ns, st)
      else if block && ts.head? == some .blockMappingStart then
        (blockEntries? fuel st.skip).map fun (es, st) => (.mapping es, st)
      else if optional then some (.scalar ⟨[], .plain, Nodes.meaning tag⟩, st)
      else none

/-- Reads a node unless one of these tokens shows that there is none. -/
def nodeUnless? : (fuel : Nat) → (block : Bool) → (indentless : Bool) → List Token → Nodes →
    Option (Node × Nodes)
  | 0, _, _, _, _ => none
  | fuel + 1, block, indentless, ends, st =>
    if st.sees ends then some (.empty, st) else node? fuel block indentless st

/-- Reads a value after its colon, if there is one. -/
def valueUnless? : (fuel : Nat) → (block : Bool) → List Token → Nodes → Option (Node × Nodes)
  | 0, _, _, _ => none
  | fuel + 1, block, ends, st =>
    if st.sees [.value] then nodeUnless? fuel block block ends st.skip else some (.empty, st)

/-- Reads the items of a block sequence up to its end. -/
def blockItems? : (fuel : Nat) → Nodes → Option (List Node × Nodes)
  | 0, _ => none
  | fuel + 1, st =>
    if st.sees [.blockEnd] then some ([], st.skip)
    else do
      let st ← st.expect? .blockEntry
      let (n, st) ← nodeUnless? fuel true false [.blockEntry, .blockEnd] st
      let (ns, st) ← blockItems? fuel st
      some (n :: ns, st)

/-- Reads the items of a sequence that is not indented. -/
def looseItems? : (fuel : Nat) → Nodes → Option (List Node × Nodes)
  | 0, _ => none
  | fuel + 1, st =>
    if st.sees [.blockEntry] then do
      let (n, st) ← nodeUnless? fuel true false [.blockEntry, .key, .value, .blockEnd] st.skip
      let (ns, st) ← looseItems? fuel st
      some (n :: ns, st)
    else some ([], st)

/-- Reads the entries of a block mapping up to its end. -/
def blockEntries? : (fuel : Nat) → Nodes → Option (List (Node × Node) × Nodes)
  | 0, _ => none
  | fuel + 1, st =>
    if st.sees [.blockEnd] then some ([], st.skip)
    else do
      let st ← st.expect? .key
      let (k, st) ← nodeUnless? fuel true true [.key, .value, .blockEnd] st
      let (v, st) ← valueUnless? fuel true [.key, .value, .blockEnd] st
      let (es, st) ← blockEntries? fuel st
      some ((k, v) :: es, st)

/-- Reads the items of a flow sequence up to its end; an item with a colon is a mapping of one
entry. A mark for a key with neither key nor colon after it takes the next token along. -/
def flowItems? : (fuel : Nat) → (first : Bool) → Nodes → Option (List Node × Nodes)
  | 0, _, _ => none
  | fuel + 1, first, st =>
    if st.sees [.flowSequenceEnd] then some ([], st.skip)
    else do
      let st ← if first then some st else st.expect? .flowEntry
      if st.sees [.flowSequenceEnd] then some ([], st.skip)
      else if st.sees [.key] then
        let st := st.skip
        let missing := st.sees [.value, .flowEntry, .flowSequenceEnd]
        let (k, st) ← if missing then some (.empty, st.skip) else node? fuel false false st
        let (v, st) ← valueUnless? fuel false [.flowEntry, .flowSequenceEnd] st
        let (ns, st) ← flowItems? fuel false st
        some (.mapping [(k, v)] :: ns, st)
      else
        let (n, st) ← node? fuel false false st
        let (ns, st) ← flowItems? fuel false st
        some (n :: ns, st)

/-- Reads the entries of a flow mapping up to its end; a key without a colon has an empty value. -/
def flowEntries? : (fuel : Nat) → (first : Bool) → Nodes → Option (List (Node × Node) × Nodes)
  | 0, _, _ => none
  | fuel + 1, first, st =>
    if st.sees [.flowMappingEnd] then some ([], st.skip)
    else do
      let st ← if first then some st else st.expect? .flowEntry
      if st.sees [.flowMappingEnd] then some ([], st.skip)
      else if st.sees [.key] then
        let (k, st) ← nodeUnless? fuel false false [.value, .flowEntry, .flowMappingEnd] st.skip
        let (v, st) ← valueUnless? fuel false [.flowEntry, .flowMappingEnd] st
        let (es, st) ← flowEntries? fuel false st
        some ((k, v) :: es, st)
      else
        let (k, st) ← node? fuel false false st
        let (es, st) ← flowEntries? fuel false st
        some ((k, .empty) :: es, st)

end

/-! ## Documents -/

/-- The handles every document knows. -/
def defaultHandles : List (Text × Text) :=
  [(['!'], ['!']), (['!', '!'], "tag:yaml.org,2002:".toList)]

/-- Reads the directives before a document: at most one version, which has to be 1.1 or 1.2, and
handles that differ from each other. -/
def directives? : (versioned : Bool) → (handles : List (Text × Text)) → List Token →
    Option (List (Text × Text) × List Token)
  | versioned, handles, .directive (.version major minor) :: ts =>
    if !versioned && major = 1 && (minor = 1 || minor = 2) then directives? true handles ts
    else none
  | versioned, handles, .directive (.handle name start) :: ts =>
    if (handles.lookup name).isSome then none
    else directives? versioned ((name, start) :: handles) ts
  | _, handles, ts => some (handles, ts)

/-- Whether a document begins with directives or a mark. -/
def isExplicit : List Token → Bool
  | .directive _ :: _ => true
  | .documentStart :: _ => true
  | _ => false

/-- Whether a document has nothing in it. -/
def isBare : List Token → Bool
  | [] => true
  | .documentEnd :: _ => true
  | ts => isExplicit ts

/-- Reads the root of the only document. -/
def root? (ts : List Token) : Option (Node × Nodes) :=
  let fuel := 3 * ts.length + 3
  if isExplicit ts then do
    let (handles, ts) ← directives? false [] ts
    let st ← Nodes.expect? .documentStart ⟨ts, handles ++ defaultHandles, [], []⟩
    if isBare st.tokens then some (.empty, st) else node? fuel true false st
  else node? fuel true false ⟨ts, defaultHandles, [], []⟩

/-- Reads a text that holds one document and nothing after it but marks of its end. -/
def Document.ofText? (t : Text) : Option Document := do
  let ts ← Token.readAll? t
  let (n, st) ← root? ts
  if (st.tokens.dropWhile (· == .documentEnd)).isEmpty then some ⟨n, st.anchored⟩ else none

end ImageAudit.Yaml
