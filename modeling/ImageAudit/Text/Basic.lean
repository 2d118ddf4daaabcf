/-!
# Texts

A text is the list of its Unicode scalar values, so that every reader of this library is a
recursion on the text itself and every law about it an induction.

* `pieces` cuts a text at every occurrence of a separator, `cut` at the first one.
* `lines` are the physical lines of a text, `unlines` joins lines again.
* `dropPrefix?` and `dropWord?` read a fixed beginning, exactly or without regard to the case
  of ASCII letters.
-/

namespace ImageAudit

/-- A text: its Unicode scalar values in order. -/
abbrev Text := List Char

namespace Text

/-! ## Cutting -/

/-- The part before the first `sep` and the part after it. -/
def cut (sep : Char) : Text → Option (Text × Text)
  | [] => none
  | c :: r => if c = sep then some ([], r) else (cut sep r).map fun (a, b) => (c :: a, b)

/-- The part before the last `sep` and the part after it. -/
def cutLast (sep : Char) : Text → Option (Text × Text)
  | [] => none
  | c :: r =>
    match cutLast sep r with
    | some (a, b) => some (c :: a, b)
    | none => if c = sep then some ([], r) else none

/-- Puts a character in front of the first piece. -/
def pushFirst (c : Char) : List Text → List Text
  | [] => [[c]]
  | p :: ps => (c :: p) :: ps

/-- The parts between the occurrences of `sep`; there is always at least one. -/
def pieces (sep : Char) : Text → List Text
  | [] => [[]]
  | c :: r => if c = sep then [] :: pieces sep r else pushFirst c (pieces sep r)

/-! ## Lines -/

/-- Drops one carriage return at the end. -/
def dropReturn : Text → Text
  | [] => []
  | ['\r'] => []
  | c :: r => c :: dropReturn r

/-- Of the parts between line feeds, all but the last were ended by a line feed, which takes one
carriage return before it along; the last one is a line only if it holds something. -/
def finishLines : List Text → List Text
  | [] => []
  | [p] => if p.isEmpty then [] else [p]
  | p :: q :: ps => dropReturn p :: finishLines (q :: ps)

/-- The physical lines of a text. -/
def lines (t : Text) : List Text := finishLines (pieces '\n' t)

/-- Joins lines with a line feed between each two. -/
def unlines (ls : List Text) : Text := ['\n'].intercalate ls

/-- Joins texts with `sep` between each two. -/
def join (sep : Text) (ts : List Text) : Text := sep.intercalate ts

/-! ## Lengths in bytes -/

/-- The length of a text in bytes. -/
def byteLength : Text → Nat
  | [] => 0
  | c :: r => c.utf8Size + byteLength r

/-! ## Fixed beginnings -/

/-- What follows the beginning `p`. -/
def dropPrefix? : (p : Text) → Text → Option Text
  | [], t => some t
  | _ :: _, [] => none
  | x :: p, c :: t => if x = c then dropPrefix? p t else none

/-- What is left before the ending `p`. -/
def dropSuffix? (p t : Text) : Option Text :=
  (dropPrefix? p.reverse t.reverse).map List.reverse

/-- What follows the beginning `p`, where the case of ASCII letters does not matter. One other
character has an ASCII letter as its lower case, the Kelvin sign: it matches nothing here, and
`tagWord` says what comes of it in a keyword. -/
def dropWord? : (p : Text) → Text → Option Text
  | [], t => some t
  | _ :: _, [] => none
  | x :: p, c :: t => if x.toLower = c.toLower then dropWord? p t else none

/-- Two texts that differ at most in the case of ASCII letters. -/
def sameWord (a b : Text) : Bool := a.map Char.toLower == b.map Char.toLower

/-- Whether the text begins with `p`. -/
def startsWith (p t : Text) : Bool := (dropPrefix? p t).isSome

@[simp] theorem dropPrefix?_nil (t : Text) : dropPrefix? [] t = some t := by
  cases t <;> rfl

@[simp] theorem dropWord?_nil (t : Text) : dropWord? [] t = some t := by
  cases t <;> rfl

/-- Reading a fixed beginning gives back what follows it, and nothing else. -/
theorem dropPrefix?_eq_some_iff {p t r : Text} : dropPrefix? p t = some r ↔ t = p ++ r := by
  induction p generalizing t with
  | nil => simp [eq_comm]
  | cons x p ih =>
    cases t with
    | nil => simp [dropPrefix?]
    | cons c t =>
      by_cases h : x = c
      · subst h
        simp [dropPrefix?, ih]
      · have h' : ¬ c = x := fun e => h e.symm
        simp [dropPrefix?, h, h']

/-- What follows a keyword is shorter by the keyword's length. -/
theorem length_of_dropWord? {p t r : Text} (h : dropWord? p t = some r) :
    t.length = p.length + r.length := by
  induction p generalizing t with
  | nil => simp at h; simp [h]
  | cons x p ih =>
    cases t with
    | nil => simp [dropWord?] at h
    | cons c t =>
      simp only [dropWord?] at h
      split at h
      · have := ih h
        simp [this]
        omega
      · cases h

end Text

end ImageAudit
