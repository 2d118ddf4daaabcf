import ImageAudit.Text.Blank
import ImageAudit.Text.Quote

/-!
# Pairs of keys and values

LABEL and ENV carry pairs `key=value`; either side may be quoted in part, and a backslash keeps the
character after it as it is, except between single quotation marks.

* `pairs?` reads at least one pair.
* `settings?` also reads the older form of ENV, one key with the rest of the line as its value.
* `lookup` finds the last value of a key.
-/

namespace ImageAudit

open Text

/-- A key with its value. -/
abbrev Pair := Text × Text

namespace Pair

/-- The value of a key; of several, the last one. -/
def lookup (pairs : List Pair) (key : Text) : Option Text :=
  (pairs.reverse.find? fun p => p.1 == key).map (·.2)

/-- Puts a character in front of a token. -/
def push (c : Char) : Text × Text → Text × Text
  | (w, r) => (c :: w, r)

/-- Whether an unquoted character ends a token: white space does, and the equals sign a key. -/
def endsToken (isKey : Bool) (c : Char) : Bool := isSpace c || (isKey && c == '=')

/-- Reads a token, quotation marks and escapes resolved; an open mark must be closed. -/
def tokenFrom? (isKey : Bool) : (quote : Option Char) → Text → Option (Text × Text)
  | quote, [] => if quote.isNone then some ([], []) else none
  | quote, '\\' :: c :: r =>
    if quote == some singleQuote then (tokenFrom? isKey quote (c :: r)).map (push '\\')
    else (tokenFrom? isKey quote r).map (push c)
  | quote, c :: r =>
    if toggleQuote quote c != quote then tokenFrom? isKey (toggleQuote quote c) r
    else if quote.isNone && endsToken isKey c then some ([], c :: r)
    else (tokenFrom? isKey quote r).map (push c)

/-- Reads a key, which is not empty. -/
def key? (t : Text) : Option (Text × Text) := do
  let (key, r) ← tokenFrom? true none t
  if key.isEmpty then none else some (key, r)

/-- Reads a value, which may be empty. -/
def value? (t : Text) : Option (Text × Text) := tokenFrom? false none t

/-- Reads a pair and the white space after it. -/
def read? (t : Text) : Option (Pair × Text) := do
  let (key, r) ← key? t
  match r with
  | '=' :: r =>
    let (value, r) ← value? r
    some ((key, value), trimStart r)
  | _ => none

theorem length_le_of_tokenFrom? {isKey : Bool} {quote : Option Char} {t w r : Text}
    (h : tokenFrom? isKey quote t = some (w, r)) : r.length ≤ t.length := by
  fun_induction tokenFrom? isKey quote t generalizing w r with
  | case1 => simp at h; simp [h]
  | case2 => cases h
  | case3 _ _ _ _ ih =>
    obtain ⟨⟨w', r'⟩, h₁, h₂⟩ := Option.map_eq_some_iff.1 h
    simp [push] at h₂
    have := ih h₁
    simp [← h₂.2] at this ⊢
    omega
  | case4 _ _ _ _ ih =>
    obtain ⟨⟨w', r'⟩, h₁, h₂⟩ := Option.map_eq_some_iff.1 h
    simp [push] at h₂
    have := ih h₁
    simp [← h₂.2]
    omega
  | case5 _ _ _ _ _ ih =>
    have := ih h
    simp
    omega
  | case6 => simp at h; simp [← h.2]
  | case7 _ _ _ _ _ _ ih =>
    obtain ⟨⟨w', r'⟩, h₁, h₂⟩ := Option.map_eq_some_iff.1 h
    simp [push] at h₂
    have := ih h₁
    simp [← h₂.2]
    omega

theorem length_le_of_key? {t key r : Text} (h : key? t = some (key, r)) :
    r.length ≤ t.length := by
  obtain ⟨⟨key', r'⟩, hkey, h⟩ := Option.bind_eq_some_iff.1 h
  dsimp only at h
  split at h
  · cases h
  · simp only [Option.some.injEq, Prod.mk.injEq] at h
    rw [← h.2]
    exact length_le_of_tokenFrom? hkey

theorem length_lt_of_read? {t r : Text} {p : Pair} (h : read? t = some (p, r)) :
    r.length < t.length := by
  obtain ⟨⟨key, r₁⟩, hkey, h⟩ := Option.bind_eq_some_iff.1 h
  have h₁ := length_le_of_key? hkey
  dsimp only at h
  split at h
  · next r₂ =>
    obtain ⟨⟨value, r₃⟩, hvalue, h⟩ := Option.bind_eq_some_iff.1 h
    simp only [Option.some.injEq, Prod.mk.injEq] at h
    have h₂ := length_le_of_tokenFrom? hvalue
    have h₃ : (trimStart r₃).length ≤ r₃.length := length_dropWhile_le _ _
    rw [← h.2]
    simp at h₁
    omega
  · cases h

/-- Reads pairs to the end of a text. -/
def all? (t : Text) : Option (List Pair) :=
  if t.isEmpty then some []
  else
    match _h : read? t with
    | none => none
    | some (p, r) => (all? r).map (p :: ·)
termination_by t.length
decreasing_by exact length_lt_of_read? _h

/-- Reads at least one pair. -/
def pairs? (t : Text) : Option (List Pair) :=
  if (trim t).isEmpty then none else all? (trim t)

/-- The value of a key in the older form: the rest of the line, unquoted if it is one token. -/
def restValue? (t : Text) : Option Text :=
  let rest := trim t
  if rest.isEmpty then none
  else
    match value? rest with
    | some (value, []) => some value
    | _ => some rest

/-- Reads pairs, or one key without an equals sign and the rest as its value. -/
def settings? (t : Text) : Option (List Pair) := do
  let (key, r) ← key? (trim t)
  if r.head? == some '=' then all? (trim t)
  else
    let value ← restValue? r
    some [(key, value)]

end Pair

end ImageAudit
