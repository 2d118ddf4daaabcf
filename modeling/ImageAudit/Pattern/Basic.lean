import ImageAudit.Pattern.CharSet

/-!
# Patterns

Regular expressions, and whether a text has a part that matches one.

* A `Cursor` is a place in a text; `Pattern.advance` takes the cursors at which a match may begin to
  those at which it may end.
* `Pattern.occursIn` searches a match anywhere in a text.
* `Pattern.wholeWord` is the pattern of a whole word, `Pattern.wholeWordText` how it is written.
* `Pattern.weight` estimates how large a pattern is once its repetitions are written out.
-/

namespace ImageAudit

open Text

namespace Pattern

/-! ## Places in a text -/

/-- A place in a text: how many characters stand before it, the last of them, and what follows. -/
structure Cursor where
  index : Nat
  before : Option Char
  rest : Text
  deriving DecidableEq

namespace Cursor

/-- All places of a text from a given one on. -/
def allFrom (index : Nat) (before : Option Char) : Text → List Cursor
  | [] => [⟨index, before, []⟩]
  | c :: r => ⟨index, before, c :: r⟩ :: allFrom (index + 1) (some c) r

/-- All places of a text. -/
def all (t : Text) : List Cursor := allFrom 0 none t

/-- The place after the next character, if that is in the set. -/
def step? (s : CharSet) (c : Cursor) : Option Cursor :=
  match c.rest with
  | [] => none
  | x :: r => if s.mem x then some ⟨c.index + 1, some x, r⟩ else none

end Cursor

/-! ## Assertions -/

/-- A condition on a place. -/
inductive Assertion where
  | textStart
  | textEnd
  | lineStart (crlf : Bool)
  | lineEnd (crlf : Bool)
  | wordBoundary (allScripts : Bool)
  | notWordBoundary (allScripts : Bool)
  | wordStart (allScripts : Bool)
  | wordEnd (allScripts : Bool)
  | wordStartHalf (allScripts : Bool)
  | wordEndHalf (allScripts : Bool)

/-- Whether a character is there and belongs to a word. -/
def inWord (allScripts : Bool) (c : Option Char) : Bool := c.any (CharClass.word.mem allScripts)

/-- Whether a condition holds at a place. -/
def Assertion.holds (a : Assertion) (c : Cursor) : Bool :=
  let next := c.rest.head?
  match a with
  | textStart => c.before.isNone
  | textEnd => next.isNone
  | lineStart false => c.before.isNone || c.before == some '\n'
  | lineEnd false => next.isNone || next == some '\n'
  | lineStart true =>
    c.before.isNone || c.before == some '\n' || (c.before == some '\r' && next != some '\n')
  | lineEnd true =>
    next.isNone || next == some '\r' || (next == some '\n' && c.before != some '\r')
  | wordBoundary u => inWord u c.before != inWord u next
  | notWordBoundary u => inWord u c.before == inWord u next
  | wordStart u => !inWord u c.before && inWord u next
  | wordEnd u => inWord u c.before && !inWord u next
  | wordStartHalf u => !inWord u c.before
  | wordEndHalf u => !inWord u next

end Pattern

/-! ## Patterns and matching -/

/-- A regular expression. -/
inductive Pattern where
  /-- Nothing. -/
  | empty
  /-- One character of a set. -/
  | oneOf (s : Pattern.CharSet)
  /-- Nothing, where a condition holds. -/
  | assertion (a : Pattern.Assertion)
  /-- One after the other. -/
  | cat (p q : Pattern)
  /-- One or the other. -/
  | alt (p q : Pattern)
  /-- At least `least` times, and at most `most` times if there is a limit. -/
  | repeated (p : Pattern) (least : Nat) (most : Option Nat)

namespace Pattern

/-- The cursors of both lists, without those of the second that the first has. -/
def merge (a b : List Cursor) : List Cursor := a ++ b.filter fun c => !a.contains c

/-- Applies a step `n` times; from no cursor there is none to go to. -/
def iterate (step : List Cursor → List Cursor) : Nat → List Cursor → List Cursor
  | 0, cs => cs
  | n + 1, cs => if cs.isEmpty then [] else iterate step n (step cs)

/-- The cursors `seen`, and those reached from `front` by at most `n` steps. -/
def reach (step : List Cursor → List Cursor) : (n : Nat) → (seen front : List Cursor) → List Cursor
  | 0, seen, _ => seen
  | n + 1, seen, front =>
    let new := (step front).filter fun c => !seen.contains c
    if new.isEmpty then seen else reach step n (seen ++ new) new

/-- The length of the longest text after one of the cursors. -/
def longestRest (cs : List Cursor) : Nat := cs.foldl (fun n c => max n c.rest.length) 0

/-- The cursors at which a match that begins at one of `cs` may end. Without a limit, a repetition
goes on as long as it finds new places, of which there are no more than characters ahead. -/
def advance : Pattern → List Cursor → List Cursor
  | empty, cs => cs
  | oneOf s, cs => cs.filterMap (Cursor.step? s)
  | assertion a, cs => cs.filter a.holds
  | cat p q, cs => q.advance (p.advance cs)
  | alt p q, cs => merge (p.advance cs) (q.advance cs)
  | repeated p least most, cs =>
    let begun := iterate p.advance least cs
    let further := match most with
      | some most => most - least
      | none => longestRest begun + 1
    reach p.advance further begun begun

/-- Whether some part of a text matches. -/
def occursIn (p : Pattern) (t : Text) : Bool := !(p.advance (Cursor.all t)).isEmpty

/-- The pattern of a text as it stands. -/
def literal : Text → Pattern
  | [] => empty
  | c :: r => cat (oneOf (.single c)) (literal r)

/-- The pattern of a text that is no part of a longer row of ASCII letters and digits. -/
def wholeWord (t : Text) : Pattern :=
  let other := oneOf (.complement .asciiAlphanumeric)
  cat (alt (assertion .textStart) other) (cat (literal t) (alt other (assertion .textEnd)))

/-- The characters that mean something in patterns. -/
def metaCharacters : Text :=
  ['\\', '.', '+', '*', '?', '(', ')', '|', '[', ']', '{', '}', '^', '$', '#', '&', '-', '~']

/-- A text with a backslash before the characters that mean something in patterns. -/
def escape (t : Text) : Text :=
  t.flatMap fun c => if metaCharacters.contains c then ['\\', c] else [c]

/-- How the condition at the beginning of a whole word is written. -/
def wordFrontText : Text := "(^|[^a-zA-Z0-9])".toList

/-- How the condition at the end of a whole word is written. -/
def wordBackText : Text := "([^a-zA-Z0-9]|$)".toList

/-- How the pattern of a whole word is written. -/
def wholeWordText (t : Text) : Text := wordFrontText ++ escape t ++ wordBackText

/-! ## Size

What an automaton takes that runs a pattern depends on how it is built, so its size is estimated. -/

/-- The bytes of one state of an automaton that runs a pattern. -/
def stateBytes : Nat := 32

/-- The bytes for a set: classes of all scripts take many states, since characters beyond ASCII are
several bytes long. -/
def CharSet.weight : CharSet → Nat
  | .empty => stateBytes
  | .range lo hi =>
    if hi.toNat < 0x80 then stateBytes
    else if lo = hi then 3 * stateBytes
    else 10 * stateBytes
  | .klass .word true => 46000
  | .klass .digit true => 4000
  | .klass .space true => 700
  | .klass _ false => 2 * stateBytes
  | .union a b | .inter a b | .diff a b | .symDiff a b => max a.weight b.weight + 8
  | .complement a => a.weight + 10 * stateBytes
  | .anyCase a | .anyAsciiCase a => a.weight + 8

/-- The bytes for a pattern, repetitions written out. -/
def weight : Pattern → Nat
  | empty => stateBytes
  | oneOf s => s.weight
  | assertion _ => stateBytes
  | cat p q => p.weight + q.weight
  | alt p q => p.weight + q.weight + 2 * stateBytes
  | repeated p least (some most) => most * p.weight + (most - least) * stateBytes + stateBytes
  | repeated p least none => max least 1 * p.weight + 2 * stateBytes

/-- The most bytes a pattern may take. -/
def weightLimit : Nat := 10 * 1024 * 1024

end Pattern

end ImageAudit
