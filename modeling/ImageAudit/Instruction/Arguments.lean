import ImageAudit.Text.Blank
import ImageAudit.Text.Quote

/-!
# Arguments

The arguments of a command are either a line for the shell or an array of quoted words.

* `execArray?` reads `["a", 'b']`; items carry escapes for line feed, tab, carriage return,
  backslash and their own quotation mark, and any other backslash stands for itself.
* `Arguments.read?` prefers the array and takes anything else that is not blank as a shell line.
-/

namespace ImageAudit

open Text

/-- The arguments of a command. -/
inductive Arguments where
  /-- A line for the shell. -/
  | shell (line : Text)
  /-- The words to execute. -/
  | exec (items : List Text)
  deriving DecidableEq

namespace Arguments

/-- The command as one line; the words of an array are parted by spaces. -/
def command : Arguments → Text
  | shell line => line
  | exec items => join [' '] items

/-! ## Arrays -/

/-- What a backslash with `e` after it stands for between marks `q`. -/
def unescape (q e : Char) : Text :=
  if e = 'n' then ['\n'] else if e = 't' then ['\t'] else if e = 'r' then ['\r']
  else if e = '\\' then ['\\'] else if e = q then [q] else ['\\', e]

/-- The content of an item up to its closing mark `q`, and what follows the mark. -/
def itemBody? (q : Char) : Text → Option (Text × Text)
  | [] => none
  | [c] => if c = q then some ([], []) else none
  | c :: d :: r =>
    if c = q then some ([], d :: r)
    else if c = '\\' then (itemBody? q r).map fun (t, rest) => (unescape q d ++ t, rest)
    else (itemBody? q (d :: r)).map fun (t, rest) => (c :: t, rest)

/-- Reads a quoted item. -/
def item? : Text → Option (Text × Text)
  | [] => none
  | c :: r => if isQuote c then itemBody? c r else none

/-- Reads a comma, which may stand between blanks, and an item. -/
def nextItem? (t : Text) : Option (Text × Text) :=
  match skipBlanks t with
  | ',' :: r => item? (skipBlanks r)
  | _ => none

theorem length_le_of_itemBody? {q : Char} {t x r : Text} (h : itemBody? q t = some (x, r)) :
    r.length ≤ t.length := by
  fun_induction itemBody? q t generalizing x r with
  | case1 => cases h
  | case2 => simp at h; simp [h]
  | case3 => cases h
  | case4 => simp at h; simp [← h.2]
  | case5 _ _ _ ih =>
    obtain ⟨⟨t', rest⟩, h₁, h₂⟩ := Option.map_eq_some_iff.1 h
    simp at h₂
    have := ih h₁
    simp [← h₂.2]
    omega
  | case6 _ _ _ _ _ ih =>
    obtain ⟨⟨t', rest⟩, h₁, h₂⟩ := Option.map_eq_some_iff.1 h
    simp at h₂
    have := ih h₁
    simp [← h₂.2] at this ⊢
    omega

theorem length_lt_of_item? {t x r : Text} (h : item? t = some (x, r)) : r.length < t.length := by
  cases t with
  | nil => cases h
  | cons c s =>
    simp only [item?] at h
    split at h
    · exact Nat.lt_succ_of_le (length_le_of_itemBody? h)
    · cases h

theorem length_lt_of_nextItem? {t x r : Text} (h : nextItem? t = some (x, r)) :
    r.length < t.length := by
  simp only [nextItem?] at h
  split at h
  · next s hs =>
    have h₁ := length_lt_of_item? h
    have h₂ : (skipBlanks s).length ≤ s.length := length_dropWhile_le _ _
    have h₃ : (skipBlanks t).length ≤ t.length := length_dropWhile_le _ _
    simp [hs] at h₃
    omega
  · cases h

/-- Reads the items after the first one. -/
def moreItems (t : Text) : List Text × Text :=
  match _h : nextItem? t with
  | none => ([], t)
  | some (x, r) =>
    let (xs, rest) := moreItems r
    (x :: xs, rest)
termination_by t.length
decreasing_by exact length_lt_of_nextItem? _h

/-- Reads an array of at least one quoted item. -/
def execArray? : Text → Option (List Text × Text)
  | '[' :: t => do
    let (x, r) ← item? (skipBlanks t)
    let (xs, r) := moreItems r
    match skipBlanks r with
    | ']' :: rest => some (x :: xs, rest)
    | _ => none
  | _ => none

/-- Reads an array with only blanks after it. -/
def wholeArray? (t : Text) : Option (List Text) := do
  let (xs, r) ← execArray? t
  if (skipBlanks r).isEmpty then some xs else none

/-- Reads arguments: an array, or else a shell line. -/
def read? (t : Text) : Option Arguments :=
  match wholeArray? t with
  | some xs => some (exec xs)
  | none => if (trim t).isEmpty then none else some (shell (trim t))

end Arguments

end ImageAudit
