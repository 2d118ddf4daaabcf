import ImageAudit.Text.Blank
import ImageAudit.Text.Numeral

/-!
# Ports

A port is written as a number, a range of numbers or a reference to a variable, each with or
without a protocol.

* `Port.number?` is the number, of a range its lower end.
* `Port.reference?` is the name of the variable referred to.
* `Port.read?` reads a port.
-/

namespace ImageAudit

open Text

/-- The protocol of a port. -/
inductive Protocol where
  | tcp
  | udp
  deriving DecidableEq

/-- The protocol's name. -/
def Protocol.name : Protocol → Text
  | tcp => "tcp".toList
  | udp => "udp".toList

/-- A port as written, and its protocol. -/
structure Port where
  written : Text
  protocol : Protocol
  deriving DecidableEq

namespace Port

/-- The number a text stands for; of a range, the lower end. -/
def numberOf? (t : Text) : Option Nat :=
  match cut '-' (trim t) with
  | some (low, _) => numeral? low
  | none => numeral? (trim t)

/-- The port's number, if it is written as one. -/
def number? (p : Port) : Option Nat := numberOf? p.written

/-- The name in a reference `$name` or `${name}` that is the whole text. -/
def referenceOf? (t : Text) : Option Text := do
  let name ← match t with
    | '$' :: '{' :: inner => dropSuffix? ['}'] inner
    | '$' :: name => some name
    | _ => none
  if name.isEmpty then none else some name

/-- The variable a port refers to. -/
def reference? (p : Port) : Option Text := referenceOf? p.written

/-- Whether a text is one to five digits. -/
def isNumber (t : Text) : Bool := 1 ≤ t.length && t.length ≤ 5 && t.all Char.isDigit

/-- Whether a text is a number, a range or a reference. -/
def isPort (t : Text) : Bool :=
  if t.head? == some '$' then (referenceOf? t).isSome
  else
    match cut '-' t with
    | some (low, high) => isNumber low && isNumber high
    | none => isNumber t

/-- Reads the name of a protocol. -/
def protocol? (t : Text) : Option Protocol :=
  if sameWord t Protocol.tcp.name then some .tcp
  else if sameWord t Protocol.udp.name then some .udp
  else none

/-- Reads a port; without a protocol it is a TCP port. -/
def read? (t : Text) : Option Port := do
  let (written, protocol) ← match cut '/' t with
    | some (written, p) => (protocol? p).map fun p => (written, p)
    | none => some (t, .tcp)
  if isPort written then some ⟨written, protocol⟩ else none

end Port

end ImageAudit
