import ImageAudit.Text.Blank

/-!
# Image references

An image reference is `registry/name:tag@algorithm:hash`, where all but the name may be missing.

* `ImageReference.read?` splits a reference into its parts, `ImageReference.render` joins them.
* A registry is there if the first part of the path carries a scheme, a dot or a port, or is
  `localhost`.
* A colon between braces, as in a reference to a variable with a default, parts nothing.
-/

namespace ImageAudit

open Text

/-- The digest of an image's content. -/
structure Digest where
  algorithm : Text
  hash : Text
  deriving DecidableEq

/-- The parts of an image reference as written. -/
structure ImageReference where
  registry : Option Text
  name : Text
  tag : Option Text
  digest : Option Digest
  deriving DecidableEq

/-- An image a stage is built from. -/
structure BaseImage where
  reference : ImageReference
  platform : Option Text
  stageName : Option Text
  deriving DecidableEq

namespace ImageReference

/-- The registry of references that name none. -/
def defaultRegistry : Text := "Docker Hub".toList

/-- The tag of references with neither tag nor digest. -/
def defaultTag : Text := "latest".toList

/-- The registry the image is pulled from. -/
def effectiveRegistry (r : ImageReference) : Text := r.registry.getD defaultRegistry

/-- The tag the image is pulled by; a digest takes the place of any tag. -/
def effectiveTag (r : ImageReference) : Option Text :=
  match r.digest with
  | some _ => none
  | none => some (r.tag.getD defaultTag)

/-- Whether the image is called `scratch`. -/
def isScratch (r : ImageReference) : Bool := r.name == "scratch".toList

/-! ## The parts of a reference -/

/-- The characters of a digest's algorithm. -/
def isAlgorithmChar (c : Char) : Bool :=
  c.isAlphanum || c == '+' || c == '.' || c == '_' || c == '-'

/-- The lower-case hexadecimal digits. -/
def isHexDigit (c : Char) : Bool := c.isDigit || ('a' ≤ c && c ≤ 'f')

/-- Reads `algorithm:hash`; the hash has at least 32 digits. -/
def digest? (t : Text) : Option Digest := do
  let (algorithm, hash) ← cut ':' t
  if !algorithm.isEmpty && algorithm.all isAlgorithmChar && 32 ≤ hash.length &&
      hash.all isHexDigit then
    some ⟨algorithm, hash⟩
  else none

/-- The characters of a host's name. -/
def isHostChar (c : Char) : Bool := c.isAlphanum || c == '.' || c == '-'

/-- Whether a text is a host's name. -/
def isHostName (t : Text) : Bool := !t.isEmpty && t.all isHostChar

/-- Whether a text is one to five digits. -/
def isHostPort (t : Text) : Bool := 1 ≤ t.length && t.length ≤ 5 && t.all Char.isDigit

/-- Whether a text is `host` or `host:port`. -/
def isHost (t : Text) : Bool :=
  match cut ':' t with
  | some (host, port) => isHostName host && isHostPort port
  | none => isHostName t

/-- The characters of names and tags, references to variables included. -/
def isReferenceChar (c : Char) : Bool :=
  c.isAlphanum || c == '.' || c == '-' || c == '_' || c == '$' || c == '{' || c == '}'

/-- How deep in braces a text is after the character `c`. -/
def braceDepth (depth : Nat) (c : Char) : Nat :=
  if c == '{' then depth + 1 else if c == '}' then depth - 1 else depth

/-- The parts before and after the last `sep` that is not between braces. -/
def cutLastOutside (sep : Char) : (depth : Nat) → Text → Option (Text × Text)
  | _, [] => none
  | depth, c :: r =>
    match cutLastOutside sep (braceDepth depth c) r with
    | some (a, b) => some (c :: a, b)
    | none => if c == sep && depth == 0 then some ([], r) else none

/-- Whether a text is the name of an image. -/
def isName (t : Text) : Bool :=
  !t.isEmpty && t.head? != some '/' && t.getLast? != some '/' &&
    t.all (fun c => isReferenceChar c || c == '/' || c == ':') && (cutLastOutside ':' 0 t).isNone

/-- Whether a text is a tag. -/
def isTag (t : Text) : Bool :=
  !t.isEmpty && t.length ≤ 128 && t.all fun c => isReferenceChar c || c == ':'

/-! ## Splitting a reference -/

/-- The schemes a registry may be written with. -/
def schemes : List Text := ["http://".toList, "https://".toList]

/-- The scheme at the beginning of a text and what follows it. -/
def scheme? (t : Text) : Option (Text × Text) :=
  schemes.findSome? fun s => (dropPrefix? s t).map fun r => (s, r)

/-- Whether the first part of a path is meant as a registry. -/
def namesHost (t : Text) : Bool :=
  (t.contains '.' || t.contains ':' || t == "localhost".toList) && t.head? != some '$'

/-- Splits the registry off; refuses what is meant as a registry but is no host. -/
def splitRegistry (t : Text) : Option (Option Text × Text) :=
  match scheme? t with
  | some (scheme, rest) => do
    let (host, path) ← cut '/' rest
    if isHost host then some (some (scheme ++ host), path) else none
  | none =>
    match cut '/' t with
    | some (first, path) =>
      if namesHost first then (if isHost first then some (some first, path) else none)
      else some (none, t)
    | none => some (none, t)

/-- Splits the tag off the last part of a path. -/
def splitTag (path : Text) : Text × Option Text :=
  let (directory, last) := match cutLast '/' path with
    | some (a, b) => (a ++ ['/'], b)
    | none => ([], path)
  match cutLastOutside ':' 0 last with
  | some (a, tag) => (directory ++ a, some tag)
  | none => (path, none)

/-- Splits the digest off; refuses what is no digest. -/
def splitDigest (t : Text) : Option (Text × Option Digest) :=
  match cut '@' t with
  | some (named, d) => (digest? d).map fun d => (named, some d)
  | none => some (t, none)

/-- Reads an image reference. -/
def read? (t : Text) : Option ImageReference := do
  let (named, digest) ← splitDigest t
  let (registry, path) ← splitRegistry named
  let (name, tag) := splitTag path
  if isName name && tag.all isTag then some ⟨registry, name, tag, digest⟩ else none

/-- Writes an image reference. -/
def render (r : ImageReference) : Text :=
  (match r.registry with
    | some registry => registry ++ ['/']
    | none => []) ++
  r.name ++
  (match r.tag with
    | some tag => ':' :: tag
    | none => []) ++
  (match r.digest with
    | some d => '@' :: d.algorithm ++ ':' :: d.hash
    | none => [])

end ImageReference

/-- An image with a name and nothing else. -/
def BaseImage.named (name : Text) : BaseImage := ⟨⟨none, name, none, none⟩, none, none⟩

end ImageAudit
