import ImageAudit.Layout.Variables

/-!
# Substitution of variables

A reference is `$name`, `${name}` or a braced name with a default. `substitute` puts the values of
known variables in place of the references to them, from left to right and without looking at the
values again; lines that set variables stay as they are.

Two references stay as they are even if their variable is known: one with nothing but white space
before it, since it would stand for a keyword, and one directly after a reference that stayed.
-/

namespace ImageAudit.Layout

open Text

/-- The characters of the name in a reference. -/
def isReferenceChar (c : Char) : Bool := c.isAlphanum || c == '_'

/-- Whether a text is the name of a reference. -/
def isReferenceName (t : Text) : Bool := !t.isEmpty && t.all isReferenceChar

/-- Whether what follows the name within braces is a default: nothing, `-…` or `:-…`. -/
def isDefault : Text → Bool
  | [] => true
  | '-' :: _ => true
  | ':' :: '-' :: _ => true
  | _ => false

/-- The characters a name within braces ends before. -/
def endsName (c : Char) : Bool := c == ':' || c == '-'

/-- The value of the reference whose dollar sign stands before `t`, and how many characters of `t`
belong to the reference. -/
def reference? (vars : Variables) : Text → Option (Text × Nat)
  | '{' :: t => do
    let (body, _) ← cut '}' t
    let name := body.takeWhile fun c => !endsName c
    if isDefault (body.dropWhile fun c => !endsName c) && isReferenceName name then
      let value ← vars.value? name
      some (value, body.length + 2)
    else none
  | t => do
    let name := t.takeWhile isReferenceChar
    if name.isEmpty then none
    else
      let value ← vars.value? name
      some (value, name.length)

/-- What stays of a reference that is not replaced, after its dollar sign: an opening brace, if
there is one, and the name. -/
def keptReference : Text → Text
  | '{' :: t => '{' :: t.takeWhile isReferenceChar
  | t => t.takeWhile isReferenceChar

/-- What protects a reference from being replaced. -/
inductive Guard where
  /-- Nothing but white space has been written on the line. -/
  | lineStart
  /-- A reference that stayed has just been written. -/
  | afterReference
  /-- Nothing. -/
  | free
  deriving DecidableEq

/-- The guard after an ordinary character. -/
def Guard.after (g : Guard) (c : Char) : Guard :=
  if g = .lineStart && isSpace c then .lineStart else .free

/-- The value put for the reference after a dollar sign, unless it is guarded. -/
def Guard.reference? (g : Guard) (vars : Variables) (t : Text) : Option (Text × Nat) :=
  if g = .free then Layout.reference? vars t else none

/-- Replaces the references of a line. The first `skip` characters have been dealt with already. -/
def substituteFrom (vars : Variables) : (skip : Nat) → Guard → Text → Text
  | _, _, [] => []
  | skip + 1, g, _ :: r => substituteFrom vars skip g r
  | 0, g, c :: r =>
    if c = '$' then
      match g.reference? vars r with
      | some (value, n) => value ++ substituteFrom vars n .free r
      | none =>
        '$' :: keptReference r ++ substituteFrom vars (keptReference r).length .afterReference r
    else c :: substituteFrom vars 0 (g.after c) r

/-- Replaces the references of a line. -/
def substituteLine (vars : Variables) (line : Text) : Text := substituteFrom vars 0 .lineStart line

/-- Replaces the references of all lines that set no variables. -/
def substitute (vars : Variables) (t : Text) : Text :=
  unlines ((pieces '\n' t).map fun l => if isEnvLine l then l else substituteLine vars l)

/-- Lays a text out: one instruction per line, references replaced by the variables it sets. -/
def normalize (t : Text) : Text :=
  let laidOut := arrange t
  substitute (variablesOf laidOut) laidOut

end ImageAudit.Layout
