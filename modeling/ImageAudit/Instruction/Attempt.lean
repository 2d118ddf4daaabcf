import ImageAudit.Instruction.Reader

/-!
# Attempts at reading

Keywords are compared in lower case, in which the Kelvin sign is a `k` like any other, and are then
taken off by their length in bytes. That sign has three bytes, so a keyword that ends in it would
end inside of it: there is no text to go on with, and reading breaks off altogether.

* `tagWord` compares a text with a word and takes it off.
* `Instruction.attempt` reads an instruction, `Instruction.attemptLine` one with nothing but blanks
  after it. Where they do not break off they come to what `Instruction.read?` and
  `Instruction.readLine?` do.
-/

namespace ImageAudit

open Text

/-! ## What comes of an attempt -/

/-- What an attempt at reading comes to. -/
inductive Attempt (α : Type) where
  | done (a : α)
  /-- There is nothing to read; something else may be tried. -/
  | refused
  /-- Reading cannot go on in any way. -/
  | broken
  deriving DecidableEq

namespace Attempt

variable {α β : Type}

/-- What a reader that never breaks off comes to. -/
def ofOption : Option α → Attempt α
  | some a => done a
  | none => refused

/-- Goes on with what has been read. -/
def bind (x : Attempt α) (f : α → Attempt β) : Attempt β :=
  match x with
  | done a => f a
  | refused => refused
  | broken => broken

theorem ofOption_eq_done_iff {x : Option α} {a : α} : ofOption x = done a ↔ x = some a := by
  cases x <;> simp [ofOption]

theorem bind_eq_done_iff {x : Attempt α} {f : α → Attempt β} {b : β} :
    x.bind f = done b ↔ ∃ a, x = done a ∧ f a = done b := by
  cases x <;> simp [bind]

/-- Tries one after the other, up to the first that is not refused. -/
def first (attempt : α → Attempt β) : List α → Attempt β
  | [] => refused
  | a :: as =>
    match attempt a with
    | refused => first attempt as
    | result => result

end Attempt

/-! ## Words -/

namespace Text

/-- The Kelvin sign. -/
def kelvin : Char := '\u212a'

/-- A character in lower case, where that is an ASCII letter. -/
def lowered (c : Char) : Char := if c = kelvin then 'k' else c.toLower

/-- Whether two texts are the same in lower case, as far as both of them go. -/
def agrees : Text → Text → Bool
  | x :: p, c :: t => lowered x == lowered c && agrees p t
  | _, _ => true

/-- What is left of a text after so many bytes, unless these end inside of a character. -/
def dropBytes? : (bytes : Nat) → Text → Option Text
  | 0, t => some t
  | _ + 1, [] => none
  | n + 1, c :: t => if c.utf8Size ≤ n + 1 then dropBytes? (n + 1 - c.utf8Size) t else none

/-- Takes off a word that a text begins with in letters of any case. -/
def tagWord (p t : Text) : Attempt Text :=
  if agrees p t && byteLength p ≤ byteLength t then
    match dropBytes? (byteLength p) t with
    | some r => .done r
    | none => .broken
  else .refused

theorem length_dropBytes?_le {n : Nat} {t r : Text} (h : dropBytes? n t = some r) :
    r.length ≤ t.length := by
  induction t generalizing n with
  | nil => cases n <;> cases h; exact Nat.le_refl _
  | cons c t ih =>
    cases n with
    | zero => cases h; exact Nat.le_refl _
    | succ n =>
      rw [dropBytes?] at h
      split at h
      · exact Nat.le_succ_of_le (ih h)
      · cases h

theorem length_le_of_tagWord {p t r : Text} (h : tagWord p t = .done r) : r.length ≤ t.length := by
  rw [tagWord] at h
  split at h
  · split at h
    · next found =>
      cases h
      exact length_dropBytes?_le found
    · cases h
  · cases h

end Text

/-! ## Instructions -/

/-- Takes off the keyword of a kind and the blanks after it, or the number sign of a comment. -/
def Kind.attemptBody (k : Kind) (t : Text) : Attempt Text :=
  match k with
  | .comment => .ofOption (dropPrefix? ['#'] t)
  | k => (tagWord k.name t).bind fun r => .ofOption (blanks? r)

theorem Kind.length_lt_of_attemptBody {k : Kind} {t b : Text} (h : k.attemptBody t = .done b) :
    b.length < t.length := by
  cases k with
  | comment =>
    rw [dropPrefix?_eq_some_iff.1 (Attempt.ofOption_eq_done_iff.1 h)]
    exact Nat.lt_succ_self _
  | _ =>
    obtain ⟨r, word, blanks⟩ := Attempt.bind_eq_done_iff.1 h
    exact Nat.lt_of_lt_of_le (length_lt_of_blanks? (Attempt.ofOption_eq_done_iff.1 blanks))
      (length_le_of_tagWord word)

namespace Instruction

/-- An instruction that waits in ONBUILD. -/
def attemptDeferred (x : Instruction × Text) : Attempt (Instruction × Text) :=
  if x.1.kind.isDeferrable then .done (onbuild x.1, x.2) else .refused

/-- Reads an instruction. -/
def attempt (t : Text) : Attempt (Instruction × Text) :=
  Attempt.first (fun k =>
    match _h : k.attemptBody t with
    | .done b =>
      if k = .onbuild then (attempt b).bind attemptDeferred else .ofOption (plainBody? k b)
    | .refused => .refused
    | .broken => .broken) Kind.all
termination_by t.length
decreasing_by exact Kind.length_lt_of_attemptBody _h

/-- Reads an instruction with nothing but blanks after it. -/
def attemptLine (t : Text) : Attempt Instruction :=
  (attempt t).bind fun (i, r) => if (skipBlanks r).isEmpty then .done i else .refused

end Instruction

end ImageAudit
